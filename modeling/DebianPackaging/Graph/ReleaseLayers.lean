import DebianPackaging.Graph.Release

namespace DebianPackaging.Graph

open Text

variable {targets : Text → List Text} {names done : List Text} {name : Text}

def left (targets : Text → List Text) (names : List Text) : Rows :=
  Table.tabulate names fun name => (targets name).filter names.contains

/-- Whoever waits for one of the names is among them. -/
def Closed (g : Graph) (names : List Text) : Prop :=
  ∀ name ∈ g.nodes, ∀ target ∈ g.targets name, target ∈ names → name ∈ names

theorem left_eq_nil_iff :
    (targets name).filter names.contains = [] ↔ isReady targets names name = true := by
  simp [isReady, List.filter_eq_nil_iff]

theorem mem_release {released : List Text} {waiter : Text} {rest : List Text} :
    name ∈ (if rest.isEmpty then released.insert waiter else released) ↔
      name ∈ released ∨ name = waiter ∧ rest = [] := by
  cases rest with
  | nil => simp [List.mem_insert_iff, or_comm]
  | cons target rest => simp

theorem insert_nodup {released : List Text} (h : released.Nodup) :
    (released.insert name).Nodup := by
  by_cases hm : name ∈ released
  · rwa [List.insert_of_mem hm]
  · rw [List.insert_of_not_mem hm]
    exact List.nodup_cons.mpr ⟨hm, h⟩

/-- Every waiter that has a row loses the name, and those that have nothing left are released. -/
theorem discard_all (name : Text) (released : List Text) (f : Text → List Text)
    {waiters : List Text} (h : ∀ waiter ∈ waiters, waiter ∈ names) :
    ∃ released', waiters.foldlM (discard name) ⟨Table.tabulate names f, released⟩ =
        some ⟨Table.tabulate names fun n =>
          if waiters.contains n then (f n).filter (· != name) else f n, released'⟩ ∧
      (∀ n, n ∈ released' ↔ n ∈ released ∨ n ∈ waiters ∧ (f n).filter (· != name) = []) ∧
      (released.Nodup → released'.Nodup) := by
  induction waiters generalizing f released with
  | nil => exact ⟨released, by simp, by simp, id⟩
  | cons waiter waiters ih =>
      have hd : discard name ⟨Table.tabulate names f, released⟩ waiter = some
          ⟨Table.tabulate names fun n => if n = waiter then (f waiter).filter (· != name) else f n,
            if ((f waiter).filter (· != name)).isEmpty then released.insert waiter else released⟩ := by
        rw [discard, Table.lookup_tabulate f (h waiter (by simp)), Option.map_some]
        dsimp only
        rw [Table.insert_tabulate f _ (h waiter (by simp))]
      obtain ⟨released', hr, hmem, hnodup⟩ := ih
        (if ((f waiter).filter (· != name)).isEmpty then released.insert waiter else released)
        (fun n => if n = waiter then (f waiter).filter (· != name) else f n)
        fun w hw => h w (List.mem_cons_of_mem _ hw)
      refine ⟨released', ?_, fun n => ?_, fun hn => hnodup ?_⟩
      · rw [List.foldlM_cons, hd, Option.bind_eq_bind, Option.bind_some, hr]
        congr 2
        refine Table.tabulate_congr fun n _ => ?_
        by_cases hn : n = waiter
        · subst hn
          simp [List.filter_filter]
        · simp [hn]
      · rw [hmem, mem_release, List.mem_cons]
        by_cases hn : n = waiter
        · subst hn
          simp only [true_and, if_true, List.filter_filter, Bool.and_self, true_or]
          grind
        · simp [hn]
      · split
        · exact insert_nodup hn
        · exact hn

variable {g : Graph}

theorem mem_waiters_iff (hc : Closed g names) (hname : name ∈ names)
    (hready : isReady g.targets names name = true) (n : Text) :
    n ∈ g.nodes ∧ name ∈ g.targets n ↔ n ∈ names.filter (· != name) ∧ n ∈ g.nodes ∧
      name ∈ g.targets n := by
  constructor
  · rintro ⟨hn, ht⟩
    refine ⟨List.mem_filter.mpr ⟨hc n hn name ht hname, ?_⟩, hn, ht⟩
    have hne : n ≠ name := by
      rintro rfl
      exact isReady_iff.mp hready n ht hname
    simpa using hne
  · exact fun h => h.2

theorem discard_left (n : Text) :
    ((targets n).filter names.contains).filter (· != name) =
      (targets n).filter (names.filter (· != name)).contains := by
  rw [List.filter_filter]
  refine List.filter_congr fun t _ => ?_
  rw [Bool.eq_iff_iff]
  simp [and_comm]

theorem settle_left (released : List Text) (hn : ∀ n ∈ names, n ∈ g.nodes) (hc : Closed g names)
    (hname : name ∈ names) (hready : isReady g.targets names name = true) :
    ∃ released', settle g.waiters ⟨left g.targets names, released⟩ name =
        some ⟨left g.targets (names.filter (· != name)), released'⟩ ∧
      (∀ n, n ∈ released' ↔ n ∈ released ∨ n ∈ names ∧ name ∈ g.targets n ∧
        isReady g.targets (names.filter (· != name)) n = true) ∧
      (released.Nodup → released'.Nodup) := by
  have hw : ∀ n, n ∈ g.nodes.filter (fun other => (g.targets other).contains name) ↔
      n ∈ g.nodes ∧ name ∈ g.targets n := by simp
  obtain ⟨released', hr, hmem, hnodup⟩ := discard_all name released
    (fun n => (g.targets n).filter names.contains)
    fun n h => ((mem_waiters_iff hc hname hready n).mp ((hw n).mp h)).1
  refine ⟨released', ?_, fun n => ?_, hnodup⟩
  · have hkey : ((left g.targets names).map Prod.fst).contains name = true := by
      simpa [left, Table.tabulate_keys] using hname
    rw [settle, if_pos hkey, waiters, Table.lookup_tabulate _ (hn name hname), Option.bind_some]
    dsimp only
    rw [left, Table.filter_tabulate names _ (· != name), hr]
    congr 2
    refine Table.tabulate_congr fun n hmem => ?_
    by_cases ht : name ∈ g.targets n
    · have hnode := hn n (List.mem_filter.mp hmem).1
      rw [if_pos (List.contains_iff_mem.mpr ((hw n).mpr ⟨hnode, ht⟩)), discard_left]
    · rw [if_neg fun h => ht ((hw n).mp (List.contains_iff_mem.mp h)).2, ← discard_left]
      refine (List.filter_eq_self.mpr fun t h => ?_).symm
      have : t ≠ name := fun he => ht (he ▸ (List.mem_filter.mp h).1)
      simpa using this
  · rw [hmem, hw, discard_left, left_eq_nil_iff]
    have := mem_waiters_iff hc hname hready n
    grind

theorem isReady_mono {names' : List Text} (h : ∀ n ∈ names', n ∈ names)
    (hready : isReady targets names name = true) : isReady targets names' name = true :=
  isReady_iff.mpr fun t ht hmem => isReady_iff.mp hready t ht (h t hmem)

theorem Closed.filter_ready (hc : Closed g names) {p : Text → Bool}
    (hp : ∀ n ∈ names, p n = false → isReady g.targets names n = true) :
    Closed g (names.filter p) := by
  intro n hn t ht hmem
  obtain ⟨hmem, -⟩ := List.mem_filter.mp hmem
  refine List.mem_filter.mpr ⟨hc n hn t ht hmem, ?_⟩
  cases hpn : p n with
  | true => rfl
  | false => exact absurd hmem (isReady_iff.mp (hp n (hc n hn t ht hmem) hpn) t ht)

theorem filter_ne_filter_not_mem (names : List Text) (name : Text) (done : List Text) :
    (names.filter (· != name)).filter (fun n => !done.contains n) =
      names.filter fun n => !(name :: done).contains n := by
  rw [List.filter_filter]
  refine List.filter_congr fun n _ => ?_
  rw [Bool.eq_iff_iff]
  simp [and_comm]

theorem mem_targets_iff_of_isReady (hname : name ∈ names) {n : Text}
    (h : isReady targets (names.filter (· != name)) n = true) :
    name ∈ targets n ↔ isReady targets names n = false := by
  rw [← Bool.not_eq_true, isReady_iff]
  constructor
  · exact fun ht hr => hr name ht hname
  · intro hr
    apply Classical.byContradiction
    intro ht
    refine hr fun t htn hmem => isReady_iff.mp h t htn (List.mem_filter.mpr ⟨hmem, ?_⟩)
    have : t ≠ name := fun he => ht (he ▸ htn)
    simpa using this

theorem freed_cons_iff (hname : name ∈ names)
    (hready : ∀ n ∈ name :: done, isReady targets names n = true) (n : Text) :
    ((n ∈ names ∧ name ∈ targets n ∧ isReady targets (names.filter (· != name)) n = true) ∨
        n ∈ names.filter (· != name) ∧ n ∉ done ∧
          isReady targets (names.filter (· != name)) n = false ∧
          isReady targets (names.filter fun n => !(name :: done).contains n) n = true) ↔
      n ∈ names ∧ n ∉ name :: done ∧ isReady targets names n = false ∧
        isReady targets (names.filter fun n => !(name :: done).contains n) n = true := by
  have hfreed : isReady targets (names.filter (· != name)) n = true →
      (name ∈ targets n ↔ isReady targets names n = false) := mem_targets_iff_of_isReady hname
  have hbusy : isReady targets names n = false → n ∉ name :: done := fun h hn => by
    rw [hready n hn] at h
    cases h
  have hkeep : isReady targets names n = true →
      isReady targets (names.filter (· != name)) n = true :=
    isReady_mono fun n h => (List.mem_filter.mp h).1
  have hend : isReady targets (names.filter (· != name)) n = true →
      isReady targets (names.filter fun n => !(name :: done).contains n) n = true := by
    rw [← filter_ne_filter_not_mem]
    exact isReady_mono fun n h => (List.mem_filter.mp h).1
  simp only [List.mem_filter, List.mem_cons, bne_iff_ne] at hbusy ⊢
  grind

/-- One round: what is released is what was not ready before and is ready now. -/
theorem settle_all_left (released : List Text) (hn : ∀ n ∈ names, n ∈ g.nodes)
    (hc : Closed g names) (hd : done.Nodup) (hs : ∀ n ∈ done, n ∈ names)
    (hready : ∀ n ∈ done, isReady g.targets names n = true) :
    ∃ released', done.foldlM (settle g.waiters) ⟨left g.targets names, released⟩ =
        some ⟨left g.targets (names.filter fun n => !done.contains n), released'⟩ ∧
      (∀ n, n ∈ released' ↔ n ∈ released ∨ n ∈ names ∧ n ∉ done ∧
        isReady g.targets names n = false ∧
        isReady g.targets (names.filter fun n => !done.contains n) n = true) ∧
      (released.Nodup → released'.Nodup) := by
  induction done generalizing names released with
  | nil =>
      have hall : names.filter (fun n => !([] : List Text).contains n) = names :=
        List.filter_eq_self.mpr (by simp)
      rw [hall]
      refine ⟨released, rfl, fun n => ?_, id⟩
      cases hrn : isReady g.targets names n <;> simp
  | cons name done ih =>
      obtain ⟨hnot, hd⟩ := List.nodup_cons.mp hd
      have hname : name ∈ names := hs name (by simp)
      obtain ⟨released₁, hr₁, hmem₁, hnodup₁⟩ :=
        settle_left released hn hc hname (hready name (by simp))
      have hsub : ∀ n ∈ names.filter (· != name), n ∈ names := fun n h => (List.mem_filter.mp h).1
      have hclosed : Closed g (names.filter (· != name)) := hc.filter_ready fun n _ hp => by
        have : n = name := by simpa using hp
        exact this ▸ hready name (by simp)
      have hs' : ∀ n ∈ done, n ∈ names.filter (· != name) := fun n h => by
        have : n ≠ name := fun he => hnot (he ▸ h)
        exact List.mem_filter.mpr ⟨hs n (by simp [h]), by simpa using this⟩
      obtain ⟨released₂, hr₂, hmem₂, hnodup₂⟩ := ih released₁ (fun n h => hn n (hsub n h)) hclosed hd
        hs' fun n h => isReady_mono hsub (hready n (by simp [h]))
      rw [filter_ne_filter_not_mem] at hr₂ hmem₂
      refine ⟨released₂, ?_, fun n => ?_, fun h => hnodup₂ (hnodup₁ h)⟩
      · rw [List.foldlM_cons, hr₁]
        exact hr₂
      · rw [hmem₂, hmem₁, or_assoc, freed_cons_iff hname hready]

theorem filter_sort_ready (targets : Text → List Text) (names : List Text) :
    (names.filter fun n => !(sort (ready targets names)).contains n) = waiting targets names := by
  refine List.filter_congr fun n hn => ?_
  rw [Bool.eq_iff_iff]
  simp [mem_sort, ready, hn]

theorem rounds_left (hn : ∀ n ∈ names, n ∈ g.nodes) (hd : names.Nodup) (hc : Closed g names) :
    rounds g.waiters (left g.targets names) (sort (ready g.targets names)) =
      some (layers g.targets names) := by
  fun_induction layers g.targets names with
  | case1 names h =>
      rw [rounds, dif_pos (by rw [h, sort_nil]), left, Table.tabulate_keys]
  | case2 names h rest ih =>
      have hmem : ∀ n ∈ sort (ready g.targets names), n ∈ names ∧ isReady g.targets names n = true :=
        fun n hn => List.mem_filter.mp (mem_sort.mp hn)
      have hdone : (sort (ready g.targets names)).Nodup := (sort_perm _).nodup_iff.mpr (hd.filter _)
      have hsub : ∀ n ∈ waiting g.targets names, n ∈ names := fun n hn => (List.mem_filter.mp hn).1
      obtain ⟨released, hr, hreleased, hnodup⟩ := settle_all_left [] hn hc hdone
        (fun n hn => (hmem n hn).1) (fun n hn => (hmem n hn).2)
      rw [filter_sort_ready] at hr hreleased
      have hnext : released.Perm (ready g.targets (waiting g.targets names)) := by
        refine (List.perm_ext_iff_of_nodup (hnodup List.nodup_nil) ((hd.filter _).filter _)).mpr
          fun n => ?_
        rw [hreleased]
        simp only [ready, waiting, mem_sort, List.mem_filter, List.not_mem_nil, false_or]
        cases isReady g.targets names n <;> simp
      have hclosed : Closed g (waiting g.targets names) :=
        hc.filter_ready fun n _ hp => by simpa using hp
      rw [rounds, dif_neg (sort_ne_nil h)]
      split
      · rename_i hnone
        rw [hr] at hnone
        cases hnone
      · rename_i w hw
        rw [hr] at hw
        cases hw
        rw [sort_eq_of_perm hnext, ih (fun n h => hn n (hsub n h)) (hd.filter _) hclosed]
        rfl

/-- Every look-up finds its row, and what is released round by round are the layers. -/
theorem release?_eq (g : Graph) : g.release? = some (layers g.targets g.nodes) := by
  have hall : ∀ n, (g.targets n).filter g.nodes.contains = g.targets n := fun n =>
    List.filter_eq_self.mpr fun t ht => List.contains_iff_mem.mpr (mem_nodes_of_mem_targets ht)
  have hpending : g.pending = left g.targets g.nodes :=
    Table.tabulate_congr fun n _ => (hall n).symm
  have hready : (g.pending.filter (·.2.isEmpty)).map Prod.fst = ready g.targets g.nodes := by
    rw [pending, Table.tabulate, List.filter_map, List.map_map]
    refine (List.map_id _).trans (List.filter_congr fun n _ => ?_)
    rw [Bool.eq_iff_iff, ← left_eq_nil_iff, hall]
    simp
  rw [release?, hready, hpending]
  exact rounds_left (fun _ h => h) g.distinct fun n hn _ _ _ => hn

end DebianPackaging.Graph
