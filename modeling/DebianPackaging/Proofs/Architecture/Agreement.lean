import DebianPackaging.Proofs.Architecture.Components

namespace DebianPackaging.Architecture

open Text

variable {a b pattern : Architecture} {part : Text}

/-- Equal to the pattern in every component that the pattern does not leave open. -/
def IsInstance (a pattern : Architecture) : Prop :=
  List.Forall₂ (fun part p => p ≠ anyPart → part = p) a.components pattern.components

theorem isInstance_iff : a.IsInstance pattern ↔
    (pattern.abi ≠ anyPart → a.abi = pattern.abi) ∧
      (pattern.libc ≠ anyPart → a.libc = pattern.libc) ∧
      (pattern.os ≠ anyPart → a.os = pattern.os) ∧
      (pattern.cpu ≠ anyPart → a.cpu = pattern.cpu) := by
  simp [IsInstance, components]

theorem partFits_iff {p : Text} : partFits part p = true ↔ (p ≠ anyPart → part = p) := by
  rw [partFits, Bool.or_eq_true, beq_iff_eq, beq_iff_eq]
  tauto

/-- The CPU `all` has to be asked for. -/
theorem fits_iff : a.fits pattern = true ↔
    a.IsInstance pattern ∧ (a.isAll = true → a.cpu = pattern.cpu) := by
  have hcpu : (a.cpu = pattern.cpu ∨ a.isAll = false ∧ pattern.cpu = anyPart) ↔
      (pattern.cpu ≠ anyPart → a.cpu = pattern.cpu) ∧ (a.isAll = true → a.cpu = pattern.cpu) := by
    cases a.isAll with
    | true => simp only [Bool.true_eq_false, false_and, or_false, forall_const]; tauto
    | false => simp only [true_and, Bool.false_eq_true, false_imp_iff, and_true]; tauto
  simp only [fits, isInstance_iff, Bool.and_eq_true, Bool.or_eq_true, beq_iff_eq,
    Bool.not_eq_true', partFits_iff, hcpu]
  tauto

theorem cpu_ne_all_of_isWildcard (h : a.isWildcard = true) : a.cpu ≠ allPart := by
  rw [isWildcard, Bool.and_eq_true, Bool.not_eq_true', isAll, beq_eq_false_iff_ne] at h
  exact h.1

theorem any_not_mem_components (h : a = all ∨ a.WellFormed) (hw : a.isWildcard = false) :
    anyPart ∉ a.components := by
  rcases h with rfl | h
  · decide
  · simpa [isWildcard, h.isAll_eq_false] using hw

/-- A pattern that leaves nothing open has no other instance than itself. -/
theorem isInstance_iff_eq (h : anyPart ∉ pattern.components) : a.IsInstance pattern ↔ a = pattern := by
  obtain ⟨abi, libc, os, cpu⟩ := a
  obtain ⟨abi', libc', os', cpu'⟩ := pattern
  simp only [components, List.mem_cons, List.not_mem_nil, or_false, not_or] at h
  obtain ⟨habi, hlibc, hos, hcpu⟩ := h
  simp [isInstance_iff, Ne.symm habi, Ne.symm hlibc, Ne.symm hos, Ne.symm hcpu]

theorem agrees_comm_of_isWildcard (ha : a.isWildcard = true) (hb : b.isWildcard = false) :
    a.agrees b = b.agrees a := by
  simp [agrees, ha, hb]

theorem agrees_iff_eq (ha : a.isWildcard = false) (hb : anyPart ∉ b.components) :
    a.agrees b = true ↔ a = b := by
  rw [agrees, if_neg (by simp [ha]), fits_iff, isInstance_iff_eq hb]
  exact and_iff_left_of_imp fun h _ => congrArg cpu h

theorem agrees_iff_isInstance (h : a = all ∨ a.WellFormed) (ha : a.isWildcard = false)
    (hb : b.isWildcard = true) : a.agrees b = true ↔ a ≠ all ∧ a.IsInstance b := by
  have hall : (a.isAll = true → a.cpu = b.cpu) ↔ a ≠ all := by
    rw [isAll_iff h]
    refine imp_congr_right fun he => iff_false_intro fun hcpu => ?_
    exact cpu_ne_all_of_isWildcard hb (he ▸ hcpu).symm
  rw [agrees, if_neg (by simp [ha]), fits_iff, hall, and_comm]

/-- Agreement does not look at the order. Without a wildcard it is equality. A wildcard agrees with its
instances but for `all`, and with no wildcard. -/
theorem agrees_iff (s t : Text) (a b : Architecture) (hs : parse s = .ok a) (ht : parse t = .ok b) :
    a.agrees b = b.agrees a ∧
    (a.agrees b = true ↔
      a.isWildcard = false ∧ b.isWildcard = false ∧ a = b ∨
      a.isWildcard = false ∧ b.isWildcard = true ∧ a ≠ all ∧ a.IsInstance b ∨
      a.isWildcard = true ∧ b.isWildcard = false ∧ b ≠ all ∧ b.IsInstance a) := by
  have ha := parse_eq_ok hs
  have hb := parse_eq_ok ht
  cases hwa : a.isWildcard with
  | false =>
      cases hwb : b.isWildcard with
      | false =>
          have hab := agrees_iff_eq hwa (any_not_mem_components hb hwb)
          have hba := agrees_iff_eq hwb (any_not_mem_components ha hwa)
          refine ⟨?_, by simpa using hab⟩
          rw [Bool.eq_iff_iff, hab, hba, eq_comm]
      | true =>
          refine ⟨(agrees_comm_of_isWildcard hwb hwa).symm, ?_⟩
          simpa using agrees_iff_isInstance ha hwa hwb
  | true =>
      cases hwb : b.isWildcard with
      | false =>
          have hcomm := agrees_comm_of_isWildcard hwa hwb
          refine ⟨hcomm, ?_⟩
          rw [hcomm]
          simpa using agrees_iff_isInstance hb hwb hwa
      | true => simp [agrees, hwa, hwb]

theorem agrees_iff_kfreebsd : parse "any-amd64" = .ok ⟨anyPart, anyPart, anyPart, "amd64".toList⟩ ∧
    parse "kfreebsd-amd64" =
      .ok ⟨"base".toList, "gnu".toList, "kfreebsd".toList, "amd64".toList⟩ ∧
    (⟨anyPart, anyPart, anyPart, "amd64".toList⟩ : Architecture).agrees
      ⟨"base".toList, "gnu".toList, "kfreebsd".toList, "amd64".toList⟩ = true := by
  have hs : parse "any-amd64" = .ok ⟨anyPart, anyPart, anyPart, "amd64".toList⟩ := by cbv
  have ht : parse "kfreebsd-amd64" =
      .ok ⟨"base".toList, "gnu".toList, "kfreebsd".toList, "amd64".toList⟩ := by cbv
  refine ⟨hs, ht, (agrees_iff _ _ _ _ hs ht).2.mpr (Or.inr (Or.inr ⟨by decide, by decide, ?_, ?_⟩))⟩
  · decide
  · simp [isInstance_iff, anyPart]

end DebianPackaging.Architecture
