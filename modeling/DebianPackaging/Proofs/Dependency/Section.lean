import DebianPackaging.Proofs.Dependency.Contents

namespace DebianPackaging.Dependency

open Text Outcome

variable {α : Type} {R : Text → α → Prop} {t inner : Text} {s s' : Sections} {b : Bracket}
  {xs ys : List (Bracket × Text)}

section Kinds

theorem checked_eq_ok_iff {read : Text → Except ParseFault α}
    (hread : ∀ a, read inner = .ok a ↔ R inner a) (hinner : ∀ a, R inner a → b.IsInner inner)
    (f : α → Sections) :
    (b.checkInner inner >>= fun _ => read inner >>= fun a => .ok (f a)) = .ok s' ↔
      ∃ a, R inner a ∧ f a = s' := by
  rw [bind_eq_ok_iff]
  constructor
  · rintro ⟨-, -, hs⟩
    obtain ⟨a, ha, hs⟩ := bind_eq_ok_iff.mp hs
    exact ⟨a, (hread a).mp ha, Except.ok.inj hs⟩
  · rintro ⟨a, ha, rfl⟩
    exact ⟨(), (hinner a ha).checkInner, bind_eq_ok_iff.mpr ⟨a, (hread a).mpr ha, rfl⟩⟩

theorem add_round_eq_ok_iff : s.add .round inner = .ok s' ↔
    s.constraint = none ∧ (s.architectures = none ∧ s.profileGroups = []) ∧
      ∃ constraint, IsConstraint inner constraint ∧
        { s with constraint := some constraint } = s' := by
  rw [Sections.add, ite_error_eq_ok_iff, ite_error_eq_ok_iff,
    checked_eq_ok_iff (fun _ => readConstraint_eq_ok_iff) fun _ h => h.isInner]
  simp

theorem add_square_eq_ok_iff : s.add .square inner = .ok s' ↔
    (s.architectures = none ∧ s.profileGroups = []) ∧
      ∃ filter, IsArchitectureList IsMarks inner filter ∧
        { s with architectures := some filter } = s' := by
  rw [Sections.add, ite_error_eq_ok_iff,
    checked_eq_ok_iff (fun _ => readArchitectures_eq_ok_iff) fun _ h => h.isInner]
  simp

theorem add_angle_eq_ok_iff : s.add .angle inner = .ok s' ↔
    ∃ group, IsList IsTerm inner group ∧
      { s with profileGroups := s.profileGroups ++ [group] } = s' := by
  rw [Sections.add, checked_eq_ok_iff (fun _ => readGroup_eq_ok_iff) fun _ => isInner_of_isTerms]

def addSections (s : Sections) (xs : List (Bracket × Text)) : Except ParseFault Sections :=
  xs.foldlM (fun s x => s.add x.1 x.2) s

theorem addSections_append (s : Sections) (xs ys : List (Bracket × Text)) :
    addSections s (xs ++ ys) = addSections s xs >>= (addSections · ys) :=
  List.foldlM_append

theorem addSections_singleton (s : Sections) (b : Bracket) (inner : Text) :
    addSections s [(b, inner)] = s.add b inner := by
  rw [addSections, List.foldlM_cons]
  cases s.add b inner <;> rfl

theorem holds_empty : Holds IsMarks [] .empty :=
  ⟨[], [], [], rfl, .nil, .nil, .nil⟩

/-- Reading one more section keeps the order of the kinds. -/
theorem Holds.add (h : Holds IsMarks xs s) (ha : s.add b inner = .ok s') :
    Holds IsMarks (xs ++ [(b, inner)]) s' := by
  obtain ⟨rounds, squares, angles, rfl, hr, hq, hg⟩ := h
  cases b with
  | round =>
      obtain ⟨hc, ⟨hf, hgs⟩, constraint, hi, rfl⟩ := add_round_eq_ok_iff.mp ha
      rw [hc] at hr
      rw [hf] at hq
      rw [hgs] at hg
      cases hr
      cases hq
      cases hg
      exact ⟨[(.round, inner)], [], [], rfl, .cons ⟨rfl, hi⟩ .nil, by rw [hf]; exact .nil,
        by rw [hgs]; exact .nil⟩
  | square =>
      obtain ⟨⟨hf, hgs⟩, filter, hi, rfl⟩ := add_square_eq_ok_iff.mp ha
      rw [hf] at hq
      rw [hgs] at hg
      cases hq
      cases hg
      exact ⟨rounds, [(.square, inner)], [], by simp, hr, .cons ⟨rfl, hi⟩ .nil,
        by rw [hgs]; exact .nil⟩
  | angle =>
      obtain ⟨group, hi, rfl⟩ := add_angle_eq_ok_iff.mp ha
      exact ⟨rounds, squares, angles ++ [(.angle, inner)], by simp, hr, hq,
        List.rel_append hg (.cons ⟨rfl, hi⟩ .nil)⟩

theorem Holds.addSections (h : Holds IsMarks xs s) (ha : addSections s ys = .ok s') :
    Holds IsMarks (xs ++ ys) s' := by
  induction ys generalizing xs s with
  | nil =>
      cases ha
      rwa [List.append_nil]
  | cons y ys ih =>
      rw [Dependency.addSections, List.foldlM_cons] at ha
      obtain ⟨s'', hy, ha⟩ := bind_eq_ok_iff.mp ha
      have hys := ih (h.add hy) ha
      rwa [List.append_assoc] at hys

theorem addSections_angles {groups : List (List ProfileTerm)}
    (h : List.Forall₂ (IsSection .angle (IsList IsTerm)) xs groups) (s : Sections) :
    addSections s xs = .ok { s with profileGroups := s.profileGroups ++ groups } := by
  induction h generalizing s with
  | nil =>
      rw [List.append_nil]
      rfl
  | @cons x group xs groups hx _ ih =>
      obtain ⟨b, inner⟩ := x
      obtain ⟨rfl, hi⟩ := hx
      rw [addSections, List.foldlM_cons, add_angle_eq_ok_iff.mpr ⟨group, hi, rfl⟩]
      have hrest := ih { s with profileGroups := s.profileGroups ++ [group] }
      rw [List.append_assoc] at hrest
      exact hrest

theorem holds_iff : Holds IsMarks xs s ↔ addSections .empty xs = .ok s := by
  constructor
  · rintro ⟨rounds, squares, angles, rfl, hr, hq, hg⟩
    have hround : addSections .empty rounds = .ok ⟨s.constraint, none, []⟩ := by
      cases hc : s.constraint with
      | none =>
          rw [hc] at hr
          cases hr
          rfl
      | some constraint =>
          rw [hc] at hr
          obtain ⟨⟨b, inner⟩, rest, ⟨rfl, hi⟩, hrest, rfl⟩ := List.forall₂_cons_right_iff.mp hr
          cases hrest
          rw [addSections_singleton, add_round_eq_ok_iff.mpr ⟨rfl, ⟨rfl, rfl⟩, constraint, hi, rfl⟩]
          rfl
    have hsquare : addSections ⟨s.constraint, none, []⟩ squares =
        .ok ⟨s.constraint, s.architectures, []⟩ := by
      cases hf : s.architectures with
      | none =>
          rw [hf] at hq
          cases hq
          rfl
      | some filter =>
          rw [hf] at hq
          obtain ⟨⟨b, inner⟩, rest, ⟨rfl, hi⟩, hrest, rfl⟩ := List.forall₂_cons_right_iff.mp hq
          cases hrest
          rw [addSections_singleton, add_square_eq_ok_iff.mpr ⟨⟨rfl, rfl⟩, filter, hi, rfl⟩]
    rw [addSections_append]
    refine bind_eq_ok_iff.mpr ⟨_, hround, ?_⟩
    rw [addSections_append]
    exact bind_eq_ok_iff.mpr ⟨_, hsquare, addSections_angles hg _⟩
  · exact holds_empty.addSections

end Kinds

section Scan

theorem Bracket.ofOpener?_opener (b : Bracket) : ofOpener? b.opener = some b := by
  cases b <;> rfl

theorem Bracket.opener_of_ofOpener? {c : Char} (h : ofOpener? c = some b) : c = b.opener := by
  unfold ofOpener? at h
  split at h <;> cases h <;> rfl

theorem Bracket.isBlank_opener (b : Bracket) : isBlank b.opener = false := by
  cases b <;> decide

theorem readSections_opener (s : Sections) (hn : b.closer ∉ inner) (rest : Text) :
    readSections s (b.opener :: (inner ++ b.closer :: rest)) =
      s.add b inner >>= (readSections · rest) := by
  rw [readSections, b.isBlank_opener, b.ofOpener?_opener, if_neg Bool.false_ne_true]
  simp only
  split
  · rename_i hc
    rw [cut_append hn] at hc
    cases hc
  · rename_i hc
    rw [cut_append hn] at hc
    cases hc
    rfl

theorem readSections_append_of_isBlankText {before : Text} (h : isBlankText before = true)
    (s : Sections) (t : Text) : readSections s (before ++ t) = readSections s t := by
  induction before with
  | nil => rfl
  | cons c before ih =>
      rw [isBlankText, List.all_cons, Bool.and_eq_true] at h
      rw [List.cons_append, readSections, if_pos h.1]
      exact ih h.2

theorem IsSectioned.cons_blank {c : Char} (hc : isBlank c = true) (h : IsSectioned xs t) :
    IsSectioned xs (c :: t) := by
  cases h with
  | blank h => exact .blank (isBlankText_cons_iff.mpr ⟨hc, h⟩)
  | bracket b inner hbefore h => exact .bracket b inner (isBlankText_cons_iff.mpr ⟨hc, hbefore⟩) h

theorem exists_isSectioned (h : readSections s t = .ok s') :
    ∃ xs, IsSectioned xs t ∧ addSections s xs = .ok s' := by
  fun_induction readSections s t with
  | case1 s => exact ⟨[], .blank rfl, h⟩
  | case2 s c rest hb ih =>
      obtain ⟨xs, hx, ha⟩ := ih h
      exact ⟨xs, hx.cons_blank hb, ha⟩
  | case3 => cases h
  | case4 => cases h
  | case5 s c rest hb b ho inner rest' hc ih =>
      obtain ⟨s'', hadd, h⟩ := bind_eq_ok_iff.mp h
      obtain ⟨xs, hx, ha⟩ := ih s'' h
      obtain ⟨rfl, -⟩ := cut_eq_some hc
      rw [Bracket.opener_of_ofOpener? ho]
      have hbefore : isBlankText [] = true := rfl
      refine ⟨(b, inner) :: xs, .bracket b inner hbefore hx, ?_⟩
      rw [addSections, List.foldlM_cons]
      exact bind_eq_ok_iff.mpr ⟨s'', hadd, ha⟩

theorem IsSectioned.readSections_eq (h : IsSectioned xs t) (hn : ∀ x ∈ xs, x.1.closer ∉ x.2)
    (s : Sections) : readSections s t = addSections s xs := by
  induction h generalizing s with
  | @blank t h =>
      rw [← List.append_nil t, readSections_append_of_isBlankText h, readSections]
      rfl
  | @bracket before rest xs b inner hbefore _ ih =>
      rw [List.forall_mem_cons] at hn
      rw [readSections_append_of_isBlankText hbefore, readSections_opener s hn.1, addSections,
        List.foldlM_cons]
      exact congrArg (s.add b inner >>= ·) (funext (ih hn.2))

theorem readSections_eq_ok_iff :
    readSections .empty t = .ok s ↔ ∃ xs, IsSectioned xs t ∧ Holds IsMarks xs s := by
  constructor
  · intro h
    obtain ⟨xs, hx, ha⟩ := exists_isSectioned h
    exact ⟨xs, hx, holds_iff.mpr ha⟩
  · rintro ⟨xs, hx, hs⟩
    rw [hx.readSections_eq fun x hm => (hs.isInner x hm).not_mem List.mem_cons_self]
    exact holds_iff.mp hs

end Scan

end DebianPackaging.Dependency
