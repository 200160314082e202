import DebianPackaging.Proofs.Graph.Generations

namespace DebianPackaging.Graph

variable {g : Graph} {a b name : Text}

/-- Some cycle can be reached along edges. A node that is its own target is one. -/
def ReachesCycle (g : Graph) (name : Text) : Prop :=
  ∃ a, Relation.ReflTransGen g.Edge name a ∧ Relation.TransGen g.Edge a a

section Finite

variable {α : Type} {r : α → α → Prop}

theorem exists_transGen_self_of_serial {s : Set α} (hf : s.Finite) (hne : s.Nonempty)
    (h : ∀ a ∈ s, ∃ b ∈ s, r a b) : ∃ a ∈ s, Relation.TransGen r a a := by
  by_contra hno
  push Not at hno
  -- Without a cycle the steps inside of the set are well-founded, and a last one has no successor.
  let step : s → s → Prop := fun b a => Relation.TransGen r a.val b.val
  have htrans : IsTrans s step := ⟨fun _ _ _ hab hbc => hbc.trans hab⟩
  have hirrefl : Std.Irrefl step := ⟨fun a => hno a.val a.property⟩
  have : Finite s := hf
  have hwf : WellFounded step := Finite.wellFounded_of_trans_of_irrefl step
  obtain ⟨first, hfirst⟩ := hne
  obtain ⟨last, -, hlast⟩ := hwf.has_min Set.univ ⟨⟨first, hfirst⟩, trivial⟩
  obtain ⟨next, hnext, hr⟩ := h last.val last.property
  exact hlast ⟨next, hnext⟩ trivial (Relation.TransGen.single hr)

/-- A step from everywhere in a finite set leads from everywhere to a cycle. -/
theorem exists_reachable_cycle {s : Set α} (hf : s.Finite) (h : ∀ a ∈ s, ∃ b ∈ s, r a b) {a : α}
    (ha : a ∈ s) : ∃ b, Relation.ReflTransGen r a b ∧ Relation.TransGen r b b := by
  let reached : Set α := {b | b ∈ s ∧ Relation.ReflTransGen r a b}
  have hfinite : reached.Finite := hf.subset fun b hb => hb.1
  have hserial : ∀ b ∈ reached, ∃ c ∈ reached, r b c := by
    rintro b ⟨hb, hab⟩
    obtain ⟨c, hc, hbc⟩ := h b hb
    exact ⟨c, ⟨hc, hab.tail hbc⟩, hbc⟩
  obtain ⟨b, ⟨-, hab⟩, hbb⟩ :=
    exists_transGen_self_of_serial hfinite ⟨a, ha, Relation.ReflTransGen.refl⟩ hserial
  exact ⟨b, hab, hbb⟩

end Finite

theorem mem_nodes_of_transGen (h : Relation.TransGen g.Edge a b) : a ∈ g.nodes := by
  obtain ⟨c, hac, -⟩ := Relation.TransGen.head'_iff.mp h
  exact (edge_iff.mp hac).1

theorem ReachesCycle.mem_nodes (h : g.ReachesCycle name) : name ∈ g.nodes := by
  obtain ⟨a, hna, haa⟩ := h
  rcases Relation.ReflTransGen.cases_head hna with rfl | ⟨b, hnb, -⟩
  · exact mem_nodes_of_transGen haa
  · exact (edge_iff.mp hnb).1

/-- Along an edge the number of the generation falls, and no generation is left. -/
theorem inGeneration_of_edge {i : Nat} (he : g.Edge a b)
    (ha : InGeneration (layers g.targets g.nodes).generations i a) :
    ∃ j < i, InGeneration (layers g.targets g.nodes).generations j b := by
  obtain ⟨-, hb⟩ := edge_iff.mp he
  exact layers_targets_lower ha b hb (mem_nodes_of_mem_targets hb)

theorem inGeneration_of_transGen {i : Nat} (hab : Relation.TransGen g.Edge a b)
    (ha : InGeneration (layers g.targets g.nodes).generations i a) :
    ∃ j < i, InGeneration (layers g.targets g.nodes).generations j b := by
  induction hab with
  | single he => exact inGeneration_of_edge he ha
  | tail _ he ih =>
      obtain ⟨j, hj, hb⟩ := ih
      obtain ⟨k, hk, hc⟩ := inGeneration_of_edge he hb
      exact ⟨k, hk.trans hj, hc⟩

theorem layers_flatten_nodup (g : Graph) :
    ((layers g.targets g.nodes).generations.flatten ++
      (layers g.targets g.nodes).unresolved).Nodup :=
  (layers_perm g.targets g.nodes).nodup_iff.mpr g.distinct

theorem not_reachesCycle_of_inGeneration {i : Nat}
    (h : InGeneration (layers g.targets g.nodes).generations i name) : ¬g.ReachesCycle name := by
  rintro ⟨a, hna, haa⟩
  have ha : ∃ j, InGeneration (layers g.targets g.nodes).generations j a := by
    rcases Relation.reflTransGen_iff_eq_or_transGen.mp hna with rfl | hna
    · exact ⟨i, h⟩
    · obtain ⟨j, -, hj⟩ := inGeneration_of_transGen hna h
      exact ⟨j, hj⟩
  obtain ⟨j, hj⟩ := ha
  obtain ⟨k, hk, hin⟩ := inGeneration_of_transGen haa hj
  have hnodup := List.Nodup.of_append_left (layers_flatten_nodup g)
  have := level_of_inGeneration hnodup hj
  have := level_of_inGeneration hnodup hin
  omega

/-- What gets into no generation are the nodes that lead into a cycle. -/
theorem mem_unresolved_iff :
    name ∈ (layers g.targets g.nodes).unresolved ↔ g.ReachesCycle name := by
  have hmem := (layers_perm g.targets g.nodes).mem_iff (a := name)
  rw [List.mem_append, mem_flatten_iff_inGeneration] at hmem
  constructor
  · intro h
    have hserial : ∀ a ∈ {a | a ∈ (layers g.targets g.nodes).unresolved},
        ∃ b ∈ {b | b ∈ (layers g.targets g.nodes).unresolved}, g.Edge a b := by
      intro a ha
      obtain ⟨b, hb, hleft⟩ := layers_unresolved_waits a ha
      have hnode := (layers_perm g.targets g.nodes).subset (List.mem_append_right _ ha)
      exact ⟨b, hleft, edge_iff.mpr ⟨hnode, hb⟩⟩
    exact exists_reachable_cycle (List.finite_toSet _) hserial h
  · intro h
    rcases hmem.mpr h.mem_nodes with ⟨i, hi⟩ | hu
    · exact absurd h (not_reachesCycle_of_inGeneration hi)
    · exact hu

theorem generations_eq_error_iff {c : Cycle} :
    g.generations = .error c ↔ (layers g.targets g.nodes).unresolved ≠ [] ∧
      (layers g.targets g.nodes).unresolved = c.nodes := by
  rw [Graph.generations, layering_eq]
  split
  · simp_all
  · cases c
    simp_all

theorem eq_of_strict_of_mem_iff {names names' : List Text} (h : names.Pairwise (· < ·))
    (h' : names'.Pairwise (· < ·)) (hm : ∀ name, name ∈ names ↔ name ∈ names') : names = names' := by
  have hp : names.Perm names' := (List.perm_ext_iff_of_nodup
    (h.imp fun hab => ne_of_lt hab) (h'.imp fun hab => ne_of_lt hab)).mpr hm
  exact hp.eq_of_pairwise (fun a b _ _ hab hba => absurd (hab.trans hba) (lt_irrefl a)) h h'

theorem unresolved_ne_nil_iff :
    (layers g.targets g.nodes).unresolved ≠ [] ↔ ∃ a, Relation.TransGen g.Edge a a := by
  rw [ne_eq, List.eq_nil_iff_forall_not_mem]
  push Not
  simp only [mem_unresolved_iff]
  constructor
  · rintro ⟨name, a, -, haa⟩
    exact ⟨a, haa⟩
  · rintro ⟨a, haa⟩
    exact ⟨a, a, Relation.ReflTransGen.refl, haa⟩

theorem exists_generations_iff :
    (∃ generations, g.generations = .ok generations) ↔ ¬∃ a, Relation.TransGen g.Edge a a := by
  rw [← unresolved_ne_nil_iff, not_not]
  constructor
  · rintro ⟨generations, hok⟩
    exact (generations_eq_ok_iff.mp hok).1
  · intro h
    exact ⟨_, generations_eq_ok_iff.mpr ⟨h, rfl⟩⟩

/-- All look-ups of the releasing loop find their rows; it stops short exactly when there is a cycle,
and reports the nodes, in order, from which one can be reached. -/
theorem generations_fail_iff_cycle (g : Graph) :
    g.release? = some g.layering ∧
      ((∃ c, g.generations = .error c) ↔ ∃ a, Relation.TransGen g.Edge a a) ∧
      ((∃ generations, g.generations = .ok generations) ↔ ¬∃ a, Relation.TransGen g.Edge a a) ∧
      ∀ c, g.generations = .error c ↔ (∃ a, Relation.TransGen g.Edge a a) ∧
        c.nodes.Pairwise (· < ·) ∧ ∀ name, name ∈ c.nodes ↔ g.ReachesCycle name := by
  refine ⟨by rw [release?_eq, layering_eq], ?_, exists_generations_iff, fun c => ?_⟩
  · rw [← unresolved_ne_nil_iff]
    constructor
    · rintro ⟨c, hc⟩
      exact (generations_eq_error_iff.mp hc).1
    · intro h
      exact ⟨⟨_⟩, generations_eq_error_iff.mpr ⟨h, rfl⟩⟩
  · rw [generations_eq_error_iff, unresolved_ne_nil_iff]
    refine and_congr_right fun _ => ⟨?_, ?_⟩
    · rintro he
      rw [← he]
      exact ⟨layers_unresolved_sorted g.distinct, fun name => mem_unresolved_iff⟩
    · rintro ⟨hsorted, hmem⟩
      exact eq_of_strict_of_mem_iff (layers_unresolved_sorted g.distinct) hsorted
        fun name => mem_unresolved_iff.trans (hmem name).symm

end DebianPackaging.Graph
