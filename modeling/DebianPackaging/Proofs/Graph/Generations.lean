import DebianPackaging.Graph.Layering
import DebianPackaging.Proofs.Graph.Layers

namespace DebianPackaging.Graph

open Text

variable {g : Graph} {generations : List (List Text)} {a b name : Text} {i j : Nat}

def Edge (g : Graph) (a b : Text) : Prop :=
  ∃ targets, (a, targets) ∈ g.rows ∧ b ∈ targets ∧ b ∈ g.nodes

def level (generations : List (List Text)) (name : Text) : Nat :=
  generations.findIdx (·.contains name)

/-- Generations by the longest chains: each node is one above the highest of its targets. -/
structure IsLayering (g : Graph) (generations : List (List Text)) : Prop where
  nodup : generations.flatten.Nodup
  mem_iff : ∀ name, name ∈ generations.flatten ↔ name ∈ g.nodes
  ne_nil : ∀ layer ∈ generations, layer ≠ []
  sorted : ∀ layer ∈ generations, layer.Pairwise (· < ·)
  level_eq : ∀ row ∈ g.rows, level generations row.1 =
    ((row.2.filter g.nodes.contains).map fun target => level generations target + 1).foldr max 0

/-- The same nodes, each with the same nodes among its targets, in any order and number. -/
structure SameEdges (g g' : Graph) : Prop where
  nodes : ∀ name, name ∈ g.nodes ↔ name ∈ g'.nodes
  edges : ∀ a b, g.Edge a b ↔ g'.Edge a b

theorem targets_of_mem_rows {row : Text × List Text} (h : row ∈ g.rows) :
    g.targets row.1 = row.2.filter g.nodes.contains := by
  rw [targets, Table.lookup_of_mem g.distinct h, Option.getD_some]

theorem edge_iff : g.Edge a b ↔ a ∈ g.nodes ∧ b ∈ g.targets a := by
  constructor
  · rintro ⟨targets, hrow, hb, hnode⟩
    refine ⟨List.mem_map.mpr ⟨_, hrow, rfl⟩, ?_⟩
    rw [targets_of_mem_rows hrow]
    exact List.mem_filter.mpr ⟨hb, List.contains_iff_mem.mpr hnode⟩
  · rintro ⟨ha, hb⟩
    obtain ⟨⟨a, targets⟩, hrow, rfl⟩ := List.mem_map.mp ha
    rw [targets_of_mem_rows hrow] at hb
    obtain ⟨hb, hnode⟩ := List.mem_filter.mp hb
    exact ⟨targets, hrow, hb, List.contains_iff_mem.mp hnode⟩

theorem SameEdges.perm {g' : Graph} (h : g.SameEdges g') : g.nodes.Perm g'.nodes :=
  (List.perm_ext_iff_of_nodup g.distinct g'.distinct).mpr h.nodes

theorem SameEdges.layering_eq {g' : Graph} (h : g.SameEdges g') : g.layering = g'.layering := by
  rw [Graph.layering_eq, Graph.layering_eq]
  apply layers_congr h.perm
  intro name hname target _
  have he := h.edges name target
  rw [edge_iff, edge_iff] at he
  simpa only [hname, (h.nodes name).mp hname, true_and] using he

theorem SameEdges.generations_eq {g' : Graph} (h : g.SameEdges g') :
    g.generations = g'.generations := by
  rw [Graph.generations, Graph.generations, h.layering_eq]

theorem generations_eq_ok_iff :
    g.generations = .ok generations ↔
      (layers g.targets g.nodes).unresolved = [] ∧
        (layers g.targets g.nodes).generations = generations := by
  rw [Graph.generations, layering_eq]
  split
  · simp_all
  · simp_all

theorem level_of_inGeneration (hn : generations.flatten.Nodup)
    (h : InGeneration generations i name) : level generations name = i := by
  induction generations generalizing i with
  | nil => simp [InGeneration] at h
  | cons layer generations ih =>
      rw [List.flatten_cons] at hn
      cases i with
      | zero =>
          have hname := inGeneration_cons_zero.mp h
          simp [level, List.findIdx_cons, hname]
      | succ i =>
          have hlast := inGeneration_cons_succ.mp h
          have hnot : name ∉ layer := fun hname =>
            List.disjoint_of_nodup_append hn hname (mem_flatten_iff_inGeneration.mpr ⟨i, hlast⟩)
          have hc : layer.contains name = false := by simpa using hnot
          rw [level, List.findIdx_cons, hc, ← ih (List.Nodup.of_append_right hn) hlast]
          rfl

theorem idxOf_flatten_lt (hn : generations.flatten.Nodup) (ha : InGeneration generations i a)
    (hb : InGeneration generations j b) (hij : j < i) :
    generations.flatten.idxOf b < generations.flatten.idxOf a := by
  induction generations generalizing i j with
  | nil => simp [InGeneration] at ha
  | cons layer generations ih =>
      rw [List.flatten_cons] at hn ⊢
      have hlater : ∀ {k name}, InGeneration (layer :: generations) (k + 1) name → name ∉ layer := by
        intro k name h hname
        exact List.disjoint_of_nodup_append hn hname
          (mem_flatten_iff_inGeneration.mpr ⟨k, inGeneration_cons_succ.mp h⟩)
      obtain ⟨i, rfl⟩ := Nat.exists_eq_succ_of_ne_zero (Nat.ne_of_gt (Nat.zero_lt_of_lt hij))
      rw [List.idxOf_append_of_notMem (hlater ha)]
      cases j with
      | zero =>
          have hmem := inGeneration_cons_zero.mp hb
          rw [List.idxOf_append_of_mem hmem]
          exact Nat.lt_add_right _ (List.idxOf_lt_length_iff.mpr hmem)
      | succ j =>
          rw [List.idxOf_append_of_notMem (hlater hb)]
          have := ih (List.Nodup.of_append_right hn) (inGeneration_cons_succ.mp ha)
            (inGeneration_cons_succ.mp hb) (by omega)
          omega

section Ok

variable (h : g.generations = .ok generations)
include h

theorem generations_perm : generations.flatten.Perm g.nodes := by
  obtain ⟨hu, rfl⟩ := generations_eq_ok_iff.mp h
  simpa [hu] using layers_perm g.targets g.nodes

theorem generations_nodup : generations.flatten.Nodup :=
  (generations_perm h).nodup_iff.mpr g.distinct

theorem inGeneration_level (hname : name ∈ g.nodes) :
    InGeneration generations (level generations name) name := by
  obtain ⟨i, hi⟩ := mem_flatten_iff_inGeneration.mp ((generations_perm h).mem_iff.mpr hname)
  rwa [level_of_inGeneration (generations_nodup h) hi]

theorem level_lt_of_edge (he : g.Edge a b) : level generations b < level generations a := by
  obtain ⟨ha, hb⟩ := edge_iff.mp he
  have hin := inGeneration_level h ha
  obtain ⟨-, rfl⟩ := generations_eq_ok_iff.mp h
  obtain ⟨j, hj, hjn⟩ := layers_targets_lower hin b hb (mem_nodes_of_mem_targets hb)
  rwa [level_of_inGeneration (generations_nodup h) hjn]

theorem exists_target_below (hname : name ∈ g.nodes) (hl : level generations name = i + 1) :
    ∃ target ∈ g.targets name, level generations target = i := by
  have hin := inGeneration_level h hname
  rw [hl] at hin
  obtain ⟨-, rfl⟩ := generations_eq_ok_iff.mp h
  obtain ⟨target, ht, hin⟩ := layers_target_below hin
  exact ⟨target, ht, level_of_inGeneration (generations_nodup h) hin⟩

theorem level_eq_foldr_max (hname : name ∈ g.nodes) :
    level generations name =
      ((g.targets name).map fun target => level generations target + 1).foldr max 0 := by
  apply le_antisymm
  · cases hl : level generations name with
    | zero => exact Nat.zero_le _
    | succ i =>
        obtain ⟨target, ht, hi⟩ := exists_target_below h hname hl
        apply List.le_max_of_le (List.mem_map_of_mem ht)
        rw [hi]
  · apply List.max_le_of_forall_le
    intro k hk
    obtain ⟨target, ht, rfl⟩ := List.mem_map.mp hk
    exact level_lt_of_edge h (edge_iff.mpr ⟨hname, ht⟩)

theorem isLayering_of_generations : g.IsLayering generations := by
  have hgen : ∀ layer ∈ generations, layer ≠ [] ∧ layer.Pairwise (· < ·) := by
    obtain ⟨-, rfl⟩ := generations_eq_ok_iff.mp h
    exact layers_generation g.distinct
  refine ⟨generations_nodup h, fun name => (generations_perm h).mem_iff,
    fun layer hl => (hgen layer hl).1, fun layer hl => (hgen layer hl).2, fun row hrow => ?_⟩
  rw [← targets_of_mem_rows hrow]
  exact level_eq_foldr_max h (List.mem_map_of_mem hrow)

theorem order_eq : g.order = .ok generations.flatten := by
  rw [order, h, Except.map]

theorem idxOf_lt_of_edge (he : g.Edge a b) :
    generations.flatten.idxOf b < generations.flatten.idxOf a := by
  obtain ⟨ha, hb⟩ := edge_iff.mp he
  exact idxOf_flatten_lt (generations_nodup h) (inGeneration_level h ha)
    (inGeneration_level h (mem_nodes_of_mem_targets hb)) (level_lt_of_edge h he)

end Ok

/-- Every node stands once, one generation above the highest of its targets, and after all of them
in the order; and only the edges count. -/
theorem generations_by_level (g : Graph) (generations : List (List Text))
    (h : g.generations = .ok generations) :
    g.IsLayering generations ∧ g.order = .ok generations.flatten ∧
      (∀ a b, g.Edge a b → generations.flatten.idxOf b < generations.flatten.idxOf a) ∧
      ∀ g' : Graph, g.SameEdges g' →
        g'.generations = .ok generations ∧ g'.order = .ok generations.flatten := by
  refine ⟨isLayering_of_generations h, order_eq h, fun a b he => idxOf_lt_of_edge h he, ?_⟩
  intro g' hs
  have h' : g'.generations = .ok generations := hs.generations_eq ▸ h
  exact ⟨h', order_eq h'⟩

def diamond : Graph :=
  .ofRows [("app", ["gui", "base", "libc"]), ("gui", ["base", "base"]), ("base", []),
    ("cli", ["base"])]

theorem generations_by_level_diamond :
    diamond.generations = .ok [["base"], ["cli", "gui"], ["app"]] ∧
      diamond.IsLayering [["base"], ["cli", "gui"], ["app"]] := by
  have h : diamond.generations = .ok [["base"], ["cli", "gui"], ["app"]] := by cbv
  exact ⟨h, (generations_by_level diamond _ h).1⟩

end DebianPackaging.Graph
