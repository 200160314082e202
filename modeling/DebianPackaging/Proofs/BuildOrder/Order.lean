import DebianPackaging.Proofs.BuildOrder.BuildSet
import DebianPackaging.Proofs.Graph.Cycle
import DebianPackaging.Proofs.Log

namespace DebianPackaging.BuildOrder

open Text Outcome

variable {s : BuildSet} {o : BuildOrder} {rows : List (Control × List Text)} {name a b : Text}

structure IsOrderOf (o : BuildOrder) (s : BuildSet) : Prop where
  nodup : o.generations.flatten.Nodup
  mem_iff : ∀ name, name ∈ o.generations.flatten ↔ name ∈ s.names
  ne_nil : ∀ generation ∈ o.generations, generation ≠ []
  sorted : ∀ generation ∈ o.generations, generation.Pairwise (· < ·)
  level_eq_zero : ∀ a ∈ s.names, (¬∃ b, s.DependsOn a b) → Graph.level o.generations a = 0
  level_eq_succ : ∀ a, (∃ b, s.DependsOn a b) → ∃ highest,
    IsGreatest (Graph.level o.generations '' {b | s.DependsOn a b}) highest ∧
      Graph.level o.generations a = highest + 1
  order_eq : o.order = o.generations.flatten
  external_sorted : o.external.Pairwise (· < ·)
  mem_external_iff : ∀ name, name ∈ o.external ↔ s.IsExternal name
  host_eq : o.host = s.host

theorem result_needs_eq_ok_iff {c : Control} {row : Control × List Text} :
    (needs s c).result = .ok row ↔ row.1 = c ∧ s.neededNames c = .ok row.2 := by
  simp only [needs, Logged.result_bind_eq_ok_iff, Logged.result_ofExcept, mapError_eq_ok_iff,
    Logged.result_reportAll, Logged.result_pure, Except.ok.injEq]
  constructor
  · rintro ⟨names, h, -, -, rfl⟩
    exact ⟨rfl, h⟩
  · rintro ⟨rfl, h⟩
    exact ⟨row.2, h, (), trivial, rfl⟩

def IsRows (s : BuildSet) (rows : List (Control × List Text)) : Prop :=
  List.Forall₂ (fun c row => row.1 = c ∧ s.neededNames c = .ok row.2) s.sources rows

theorem isRows_iff : IsRows s rows ↔ (s.sources.mapM (needs s)).result = .ok rows := by
  simp only [Logged.result_mapM, mapM_eq_ok_iff, result_needs_eq_ok_iff, IsRows]

theorem exists_rows (h : ∀ c ∈ s.sources, ∃ needed, s.neededNames c = .ok needed) :
    ∃ rows, IsRows s rows := by
  simp only [isRows_iff, Logged.result_mapM]
  apply exists_mapM_eq_ok
  intro c hc
  obtain ⟨needed, hn⟩ := h c hc
  exact ⟨(c, needed), result_needs_eq_ok_iff.mpr ⟨rfl, hn⟩⟩

theorem result_ofSet_eq_ok_iff (h : IsRows s rows) :
    (ofSet s).result = .ok o ↔ ∃ generations, (graph s rows).generations = .ok generations ∧
      o = ⟨generations, externalNames s rows, s.host⟩ := by
  have hrows := isRows_iff.mp h
  simp only [ofSet, announce, Graph.logGenerations, Logged.result_bind_eq_ok_iff, hrows,
    Logged.result_reportAll, Logged.result_report, Logged.result_mapError, mapError_eq_ok_iff,
    Logged.result_pure, Except.ok.injEq]
  constructor
  · rintro ⟨-, -, _, rfl, -, -, generations, hg, rfl⟩
    exact ⟨generations, hg, rfl⟩
  · rintro ⟨generations, hg, rfl⟩
    exact ⟨(), trivial, rows, rfl, (), trivial, generations, hg, rfl⟩

theorem IsRows.map_fst (h : IsRows s rows) : rows.map Prod.fst = s.sources := by
  unfold IsRows at h
  generalize s.sources = sources at h ⊢
  induction h with
  | nil => rfl
  | cons hrow _ ih => rw [List.map_cons, ih, hrow.1]

theorem IsRows.neededNames (h : IsRows s rows) : ∀ row ∈ rows, s.neededNames row.1 = .ok row.2 := by
  unfold IsRows at h
  generalize s.sources = sources at h
  induction h with
  | nil => simp
  | cons hrow _ ih =>
      intro row hr
      rcases List.mem_cons.mp hr with rfl | hr
      · rw [hrow.1]
        exact hrow.2
      · exact ih row hr

theorem IsRows.exists_row (h : IsRows s rows) {c : Control} (hc : c ∈ s.sources) :
    ∃ needed, (c, needed) ∈ rows := by
  rw [← h.map_fst] at hc
  obtain ⟨⟨c, needed⟩, hr, rfl⟩ := List.mem_map.mp hc
  exact ⟨needed, hr⟩

theorem nodup_eraseDups (names : List Text) : names.eraseDups.Nodup := by
  induction hl : names.length using Nat.strong_induction_on generalizing names with
  | _ n ih =>
      cases names with
      | nil => exact List.nodup_nil
      | cons name names =>
          rw [List.eraseDups_cons, List.nodup_cons, List.mem_eraseDups]
          have hlt : (names.filter fun other => !other == name).length < n := by
            have := List.length_filter_le (fun other => !other == name) names
            rw [List.length_cons] at hl
            omega
          exact ⟨by simp, ih _ hlt _ rfl⟩

section Rows

variable (h : IsRows s rows) (hn : s.names.Nodup)
include h hn

theorem graph_rows :
    (graph s rows).rows = rows.map fun row => (row.1.name, s.targets row.1 row.2) := by
  apply Table.ofRows_eq_self
  have hkeys : (rows.map fun row => (row.1.name, s.targets row.1 row.2)).map Prod.fst = s.names := by
    rw [List.map_map, BuildSet.names, ← h.map_fst, List.map_map]
    rfl
  rwa [hkeys]

theorem graph_nodes : (graph s rows).nodes = s.names := by
  rw [Graph.nodes, graph_rows h hn, BuildSet.names, ← h.map_fst, List.map_map, List.map_map]
  rfl

theorem edge_iff_dependsOn : (graph s rows).Edge a b ↔ s.DependsOn a b := by
  rw [Graph.Edge, graph_rows h hn, graph_nodes h hn]
  constructor
  · rintro ⟨targets, hrow, hb, -⟩
    obtain ⟨⟨c, needed⟩, hr, heq⟩ := List.mem_map.mp hrow
    cases heq
    obtain ⟨hne, name, hasks, htarget⟩ := (BuildSet.mem_targets (h.neededNames _ hr)).mp hb
    refine ⟨hne, c, ?_, rfl, name, hasks, htarget⟩
    rw [← h.map_fst]
    exact List.mem_map_of_mem hr
  · rintro ⟨hne, c, hc, rfl, name, hasks, htarget⟩
    obtain ⟨needed, hr⟩ := h.exists_row hc
    refine ⟨s.targets c needed, List.mem_map_of_mem hr, ?_, ?_⟩
    · exact (BuildSet.mem_targets (h.neededNames _ hr)).mpr ⟨hne, name, hasks, htarget⟩
    · exact BuildSet.mem_names_of_target? (BuildSet.target?_eq_some_iff.mpr htarget)

omit hn in
theorem mem_externalNames : name ∈ externalNames s rows ↔ s.IsExternal name := by
  rw [externalNames, mem_sort, List.mem_eraseDups, List.mem_flatMap]
  constructor
  · rintro ⟨⟨c, needed⟩, hr, hname⟩
    obtain ⟨hasks, hout⟩ := (BuildSet.mem_external (h.neededNames _ hr)).mp hname
    refine ⟨⟨c, ?_, hasks⟩, hout⟩
    rw [← h.map_fst]
    exact List.mem_map_of_mem hr
  · rintro ⟨⟨c, hc, hasks⟩, hout⟩
    obtain ⟨needed, hr⟩ := h.exists_row hc
    exact ⟨(c, needed), hr, (BuildSet.mem_external (h.neededNames _ hr)).mpr ⟨hasks, hout⟩⟩

theorem isOrderOf {generations : List (List Text)}
    (hg : (graph s rows).generations = .ok generations) :
    IsOrderOf ⟨generations, externalNames s rows, s.host⟩ s := by
  have hlayering := Graph.isLayering_of_generations hg
  have hnodes := graph_nodes h hn
  have hedge : ∀ {a b}, (graph s rows).Edge a b ↔ s.DependsOn a b := edge_iff_dependsOn h hn
  have hbelow : ∀ {a i}, a ∈ (graph s rows).nodes → Graph.level generations a = i + 1 →
      ∃ b, s.DependsOn a b ∧ Graph.level generations b = i := by
    intro a i ha hl
    obtain ⟨b, hb, hi⟩ := Graph.exists_target_below hg ha hl
    exact ⟨b, hedge.mp (Graph.edge_iff.mpr ⟨ha, hb⟩), hi⟩
  have hlt : ∀ {a b}, s.DependsOn a b →
      Graph.level generations b < Graph.level generations a := fun hab =>
    Graph.level_lt_of_edge hg (hedge.mpr hab)
  refine ⟨hlayering.nodup, fun name => hnodes ▸ hlayering.mem_iff name, hlayering.ne_nil,
    hlayering.sorted, fun a ha hno => ?_, fun a hdep => ?_, rfl,
    sort_strict (nodup_eraseDups _), fun name => mem_externalNames h, rfl⟩
  · cases hl : Graph.level generations a with
    | zero => rfl
    | succ i =>
        obtain ⟨b, hb, -⟩ := hbelow (hnodes ▸ ha) hl
        exact absurd ⟨b, hb⟩ hno
  · obtain ⟨b, hb⟩ := hdep
    obtain ⟨i, hi⟩ := Nat.exists_eq_succ_of_ne_zero (Nat.ne_zero_of_lt (hlt hb))
    obtain ⟨highest, hdep, hlevel⟩ := hbelow (Graph.edge_iff.mp (hedge.mpr hb)).1 hi
    refine ⟨i, ⟨⟨highest, hdep, hlevel⟩, ?_⟩, hi⟩
    rintro _ ⟨b', hb', rfl⟩
    exact Nat.lt_succ_iff.mp (hi ▸ hlt hb')

end Rows

/-- A set of sources whose fields are relationship fields has an order exactly without a cycle. -/
theorem ofSet_isOrderOf (hn : s.names.Nodup)
    (h : ∀ c ∈ s.sources, ∃ needed, s.neededNames c = .ok needed) :
    ((∃ o, (ofSet s).result = .ok o) ↔ ¬∃ a, Relation.TransGen s.DependsOn a a) ∧
      ∀ o, (ofSet s).result = .ok o → IsOrderOf o s := by
  obtain ⟨rows, hrows⟩ := exists_rows h
  have hedge : (graph s rows).Edge = s.DependsOn :=
    funext fun a => funext fun b => propext (edge_iff_dependsOn hrows hn)
  refine ⟨?_, fun o ho => ?_⟩
  · rw [← hedge, ← Graph.exists_generations_iff]
    simp only [result_ofSet_eq_ok_iff hrows]
    constructor
    · rintro ⟨o, generations, hg, -⟩
      exact ⟨generations, hg⟩
    · rintro ⟨generations, hg⟩
      exact ⟨_, generations, hg, rfl⟩
  · obtain ⟨generations, hg, rfl⟩ := (result_ofSet_eq_ok_iff hrows).mp ho
    exact isOrderOf hrows hn hg

end DebianPackaging.BuildOrder
