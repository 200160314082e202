import DebianPackaging.Proofs.Version.KeyOrder

namespace DebianPackaging.Version

open Text

variable {v w : Version} {k : Chunk} {ks : List Chunk} {c : Char}

def IsKeyChar (c : Char) : Prop :=
  c.isAlpha = true ∨ c.isDigit = true ∨ c ∈ ['!', '#', '%', '{', '|', '}', '~']

section Characters

theorem isKeyChar_keyChar (hc : isTextChar c = true) : IsKeyChar (keyChar c) := by
  rcases isTextChar_cases hc with h | rfl | rfl | rfl | rfl | rfl
  · rw [keyChar_letter h]
    exact .inl h
  all_goals exact .inr (.inr (by decide))

theorem isKeyChar_countChar {n : Nat} (hn : n ≤ maxDigitRun) : IsKeyChar (countChar n) := by
  have hc := toNat_countChar n hn
  have hmax : maxDigitRun = 25 := rfl
  simp only [Char.reduceToNat] at hc
  exact .inl (isAlpha_iff_toNat.mpr (by omega))

theorem Fits.isKeyChar (h : Fits k) : ∀ c ∈ keyChunk k, IsKeyChar c := by
  intro c hc
  simp only [keyChunk, List.mem_append, List.mem_map, List.mem_cons] at hc
  rcases hc with ⟨d, hd, rfl⟩ | rfl | rfl | hc
  · exact isKeyChar_keyChar (h.text d hd)
  · exact .inr (.inr (by decide))
  · exact isKeyChar_countChar h.significant_le
  · exact .inr (.inl (isDigit_significant h.digits c hc))

theorem isKeyChar_keyField (h : ∀ k ∈ ks, Fits k) : ∀ c ∈ keyField ks, IsKeyChar c := by
  intro c hc
  rcases List.mem_append.mp hc with hc | hc
  · obtain ⟨k, hk, hc⟩ := List.mem_flatMap.mp hc
    exact (h k hk).isKeyChar c hc
  · rw [List.mem_singleton.mp hc]
    exact .inr (.inr (by decide))

theorem isKeyChar_keyZeros (h : ∀ k ∈ ks, Fits k) : ∀ c ∈ keyZeros ks, IsKeyChar c := by
  intro c hc
  obtain ⟨k, hk, rfl⟩ := List.mem_map.mp hc
  exact isKeyChar_countChar (h k hk).zeros_le

theorem WellFormed.isKeyChar (h : v.WellFormed) : ∀ c ∈ v.key, IsKeyChar c := by
  have hrelease := h.fits_release (isCut_chunks _)
  have hrevision := h.fits_revision (isCut_chunks _)
  have hepoch : ∀ k ∈ [(⟨[], ofInt v.epoch⟩ : Chunk)], Fits k := by simpa using h.fits_epoch
  intro c hc
  rcases List.mem_append.mp hc with hc | hc
  · rcases List.mem_append.mp hc with hc | hc
    · rcases List.mem_append.mp hc with hc | hc
      · exact isKeyChar_keyField hepoch c hc
      · exact isKeyChar_keyField hrelease c hc
    · exact isKeyChar_keyField hrevision c hc
  · exact isKeyChar_keyZeros (List.forall_mem_append.mpr ⟨hrelease, hrevision⟩) c hc

end Characters

/-- Versions that compare as equal have as many chunks, so that their keys are equally long. -/
theorem length_keyZeros_eq (h : compare v w = .eq) :
    (keyZeros (chunks v.release ++ chunks v.revision)).length =
      (keyZeros (chunks w.release ++ chunks w.revision)).length := by
  change Version.compare v w = .eq at h
  rw [Version.compare, Ordering.then_eq_eq, Ordering.then_eq_eq, comparePart_eq_eq_iff,
    comparePart_eq_eq_iff] at h
  have hrelease := congrArg List.length h.2.1
  have hrevision := congrArg List.length h.2.2
  simpa [keyZeros] using congrArg₂ (· + ·) hrelease hrevision

section

variable (hv : v.WellFormed) (hw : w.WellFormed)

include hv hw

/-- What stands behind two keys counts only where the keys are the same. -/
theorem compare_key_append (s t : Text) :
    compare (v.key ++ s) (w.key ++ t) = (compare v.key w.key).then (compare s t) := by
  rw [compare_key hv hw, key, key, List.append_assoc, List.append_assoc, compare_keyBody hv hw,
    Ordering.then_assoc]
  cases hc : compare v w with
  | lt | gt => rfl
  | eq =>
      rw [Ordering.eq_then, Coding.compare_append_of_length_eq (length_keyZeros_eq hc),
        Ordering.eq_then]

theorem compare_key_ne (h : v ≠ w) : compare v.key w.key ≠ .eq := by
  rw [Ne, Std.LawfulEqOrd.compare_eq_iff_eq]
  exact fun hk => h (key_injective hv hw hk)

theorem compare_key_append_of_ne (h : v ≠ w) (s t : Text) :
    compare (v.key ++ s) (w.key ++ t) = compare v.key w.key := by
  rw [compare_key_append hv hw, then_of_ne_eq (compare_key_ne hv hw h)]

theorem eq_of_isPrefix_key (h : v.key <+: w.key) : v = w := by
  obtain ⟨rest, hrest⟩ := h
  by_contra hne
  have hc := compare_key_append_of_ne hv hw hne rest []
  rw [List.append_nil, hrest, Std.ReflOrd.compare_self] at hc
  exact compare_key_ne hv hw hne hc.symm

end

/-- Keys are made of printable ASCII, none is a prefix of another, and texts put behind two of them do
not change their order. -/
theorem key_prefixFree {v w : Version} (hv : v.Readable) (hw : w.Readable) :
    (∀ c ∈ v.key, IsKeyChar c) ∧
    (v ≠ w → ¬v.key <+: w.key) ∧
    (v ≠ w → ∀ s t : Text, v.key ++ s < w.key ++ t ↔ v.key < w.key) := by
  rw [readable_iff] at hv hw
  refine ⟨hv.isKeyChar, fun hne hp => hne (eq_of_isPrefix_key hv hw hp), fun hne s t => ?_⟩
  rw [← compare_eq_lt_iff, ← compare_eq_lt_iff, compare_key_append_of_ne hv hw hne]

/-- Spellings of one number: the keys differ in the counts of leading zeros only. -/
theorem key_prefixFree_leadingZeros :
    Readable ⟨0, "1.1".toList, []⟩ ∧ Readable ⟨0, "1.01".toList, []⟩ ∧
      (∀ c ∈ key ⟨0, "1.1".toList, []⟩, IsKeyChar c) ∧
      ¬key ⟨0, "1.1".toList, []⟩ <+: key ⟨0, "1.01".toList, []⟩ ∧
      key ⟨0, "1.1".toList, []⟩ ++ "~".toList < key ⟨0, "1.01".toList, []⟩ := by
  have hv : Readable ⟨0, "1.1".toList, []⟩ := ⟨false, "1.1".toList, rfl⟩
  have hw : Readable ⟨0, "1.01".toList, []⟩ := ⟨false, "1.01".toList, rfl⟩
  have hne : (⟨0, "1.1".toList, []⟩ : Version) ≠ ⟨0, "1.01".toList, []⟩ := by decide
  obtain ⟨hchars, hprefix, horder⟩ := key_prefixFree hv hw
  have hlt := (horder hne "~".toList []).mpr (by decide)
  rw [List.append_nil] at hlt
  exact ⟨hv, hw, hchars, hprefix hne, hlt⟩

end DebianPackaging.Version
