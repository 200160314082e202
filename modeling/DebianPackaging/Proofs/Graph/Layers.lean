import DebianPackaging.Graph.Layers
import DebianPackaging.Proofs.Text.Basic

namespace DebianPackaging.Graph

open Text

variable {targets : Text → List Text} {names : List Text} {name : Text} {i : Nat}

theorem ready_append_waiting_perm (targets : Text → List Text) (names : List Text) :
    (ready targets names ++ waiting targets names).Perm names :=
  List.filter_append_perm _ _

theorem mem_ready_iff :
    name ∈ ready targets names ↔ name ∈ names ∧ ∀ target ∈ targets name, target ∉ names := by
  simp [ready, isReady]

theorem mem_waiting_iff :
    name ∈ waiting targets names ↔ name ∈ names ∧ ∃ target ∈ targets name, target ∈ names := by
  simp [waiting, isReady]

theorem layers_stuck (h : ready targets names = []) : layers targets names = ⟨[], sort names⟩ := by
  rw [layers, dif_pos h]

theorem layers_round (h : ready targets names ≠ []) :
    layers targets names =
      ⟨sort (ready targets names) :: (layers targets (waiting targets names)).generations,
        (layers targets (waiting targets names)).unresolved⟩ := by
  rw [layers, dif_neg h]

theorem layers_perm (targets : Text → List Text) (names : List Text) :
    ((layers targets names).generations.flatten ++ (layers targets names).unresolved).Perm names := by
  induction names using layers.induct targets with
  | case1 names h =>
      rw [layers_stuck h]
      exact sort_perm names
  | case2 names h ih =>
      rw [layers_round h, List.flatten_cons, List.append_assoc]
      exact ((sort_perm _).append ih).trans (ready_append_waiting_perm targets names)

theorem layers_generation (hn : names.Nodup) :
    ∀ layer ∈ (layers targets names).generations, layer ≠ [] ∧ layer.Pairwise (· < ·) := by
  induction names using layers.induct targets with
  | case1 names h => simp [layers_stuck h]
  | case2 names h ih =>
      rw [layers_round h]
      intro layer hl
      rcases List.mem_cons.mp hl with rfl | hl
      · exact ⟨sort_ne_nil h, sort_strict (hn.filter _)⟩
      · exact ih (hn.filter _) layer hl

theorem layers_unresolved_sorted (hn : names.Nodup) :
    (layers targets names).unresolved.Pairwise (· < ·) := by
  induction names using layers.induct targets with
  | case1 names h =>
      rw [layers_stuck h]
      exact sort_strict hn
  | case2 names h ih =>
      rw [layers_round h]
      exact ih (hn.filter _)

/-- When no name is ready, everything that is left waits for something that is left. -/
theorem layers_unresolved_waits :
    ∀ name ∈ (layers targets names).unresolved,
      ∃ target ∈ targets name, target ∈ (layers targets names).unresolved := by
  induction names using layers.induct targets with
  | case1 names h =>
      intro name hname
      rw [layers_stuck h] at hname ⊢
      have hmem : name ∈ names := mem_sort.mp hname
      have hnot : name ∉ ready targets names := by simp [h]
      rw [mem_ready_iff] at hnot
      push Not at hnot
      obtain ⟨target, ht, hleft⟩ := hnot hmem
      exact ⟨target, ht, mem_sort.mpr hleft⟩
  | case2 names h ih =>
      rw [layers_round h]
      exact ih

def InGeneration (generations : List (List Text)) (i : Nat) (name : Text) : Prop :=
  ∃ layer, generations[i]? = some layer ∧ name ∈ layer

theorem inGeneration_cons_zero {layer : List Text} {generations : List (List Text)} :
    InGeneration (layer :: generations) 0 name ↔ name ∈ layer := by
  simp [InGeneration]

theorem inGeneration_cons_succ {layer : List Text} {generations : List (List Text)} :
    InGeneration (layer :: generations) (i + 1) name ↔ InGeneration generations i name := by
  simp [InGeneration]

theorem mem_flatten_iff_inGeneration {generations : List (List Text)} :
    name ∈ generations.flatten ↔ ∃ i, InGeneration generations i name := by
  rw [List.mem_flatten]
  constructor
  · rintro ⟨layer, hl, hname⟩
    obtain ⟨i, hi⟩ := List.mem_iff_getElem?.mp hl
    exact ⟨i, layer, hi, hname⟩
  · rintro ⟨i, layer, hi, hname⟩
    exact ⟨layer, List.mem_of_getElem? hi, hname⟩

theorem mem_of_inGeneration (h : InGeneration (layers targets names).generations i name) :
    name ∈ names := by
  apply (layers_perm targets names).mem_iff.mp
  exact List.mem_append_left _ (mem_flatten_iff_inGeneration.mpr ⟨i, h⟩)

theorem layers_targets_lower (h : InGeneration (layers targets names).generations i name) :
    ∀ target ∈ targets name, target ∈ names →
      ∃ j < i, InGeneration (layers targets names).generations j target := by
  induction names using layers.induct targets generalizing i with
  | case1 names hr =>
      rw [layers_stuck hr] at h
      simp [InGeneration] at h
  | case2 names hr ih =>
      rw [layers_round hr] at h ⊢
      intro target ht hmem
      cases i with
      | zero =>
          have hready := mem_sort.mp (inGeneration_cons_zero.mp h)
          exact absurd hmem ((mem_ready_iff.mp hready).2 target ht)
      | succ i =>
          have hlast := inGeneration_cons_succ.mp h
          by_cases hw : target ∈ waiting targets names
          · obtain ⟨j, hj, hin⟩ := ih hlast target ht hw
            exact ⟨j + 1, by omega, inGeneration_cons_succ.mpr hin⟩
          · have hready : target ∈ ready targets names := by
              rw [mem_waiting_iff] at hw
              push Not at hw
              exact mem_ready_iff.mpr ⟨hmem, hw hmem⟩
            exact ⟨0, by omega, inGeneration_cons_zero.mpr (mem_sort.mpr hready)⟩

theorem layers_target_below (h : InGeneration (layers targets names).generations (i + 1) name) :
    ∃ target ∈ targets name, InGeneration (layers targets names).generations i target := by
  induction names using layers.induct targets generalizing i with
  | case1 names hr =>
      rw [layers_stuck hr] at h
      simp [InGeneration] at h
  | case2 names hr ih =>
      rw [layers_round hr] at h ⊢
      have hlast := inGeneration_cons_succ.mp h
      cases i with
      | zero =>
          obtain ⟨-, target, ht, hmem⟩ := mem_waiting_iff.mp (mem_of_inGeneration hlast)
          refine ⟨target, ht, inGeneration_cons_zero.mpr (mem_sort.mpr ?_)⟩
          by_contra hnot
          have hw : target ∈ waiting targets names := by
            rw [mem_waiting_iff]
            rw [mem_ready_iff] at hnot
            push Not at hnot
            exact ⟨hmem, hnot hmem⟩
          obtain ⟨j, hj, -⟩ := layers_targets_lower hlast target ht hw
          exact absurd hj (Nat.not_lt_zero j)
      | succ i =>
          obtain ⟨target, ht, hin⟩ := ih hlast
          exact ⟨target, ht, inGeneration_cons_succ.mpr hin⟩

section Congr

variable {targets' : Text → List Text} {names' : List Text}

theorem isReady_congr (hp : names.Perm names')
    (ht : ∀ target ∈ names, target ∈ targets name ↔ target ∈ targets' name) :
    isReady targets names name = isReady targets' names' name := by
  rw [Bool.eq_iff_iff, isReady_iff, isReady_iff]
  constructor
  · intro h target hmem hin
    have hin' := hp.mem_iff.mpr hin
    exact h target ((ht target hin').mpr hmem) hin'
  · intro h target hmem hin
    exact h target ((ht target hin).mp hmem) (hp.mem_iff.mp hin)

theorem ready_congr (hp : names.Perm names')
    (ht : ∀ name ∈ names, ∀ target ∈ names, target ∈ targets name ↔ target ∈ targets' name) :
    (ready targets names).Perm (ready targets' names') := by
  have he : ready targets names = names.filter (isReady targets' names') :=
    List.filter_congr fun name hname => isReady_congr hp (ht name hname)
  rw [he]
  exact hp.filter _

theorem waiting_congr (hp : names.Perm names')
    (ht : ∀ name ∈ names, ∀ target ∈ names, target ∈ targets name ↔ target ∈ targets' name) :
    (waiting targets names).Perm (waiting targets' names') := by
  have he : waiting targets names = names.filter fun name => !isReady targets' names' name :=
    List.filter_congr fun name hname => by rw [isReady_congr hp (ht name hname)]
  rw [he]
  exact hp.filter _

theorem layers_congr (hp : names.Perm names')
    (ht : ∀ name ∈ names, ∀ target ∈ names, target ∈ targets name ↔ target ∈ targets' name) :
    layers targets names = layers targets' names' := by
  induction names using layers.induct targets generalizing names' with
  | case1 names h =>
      have h' : ready targets' names' = [] := (h ▸ ready_congr hp ht).nil_eq.symm
      rw [layers_stuck h, layers_stuck h', sort_eq_of_perm hp]
  | case2 names h ih =>
      have hr := ready_congr hp ht
      have h' : ready targets' names' ≠ [] := fun he => h (he ▸ hr).eq_nil
      have hsub : ∀ name ∈ waiting targets names, name ∈ names := fun name hname =>
        (mem_waiting_iff.mp hname).1
      rw [layers_round h, layers_round h', sort_eq_of_perm hr,
        ih (waiting_congr hp ht) fun name hname target htarget =>
          ht name (hsub name hname) target (hsub target htarget)]

end Congr

end DebianPackaging.Graph
