import DebianPackaging.Proofs.Version.KeyRoundTrip

namespace DebianPackaging.Version

open Text

theorem keyChar_toNat_cases {c : Char} (hc : isTextChar c = true) :
    (keyChar c).toNat = 33 ∧ weight c = -1 ∨
    (keyChar c).toNat = weight c ∧ 65 ≤ weight c ∧ weight c ≤ 122 ∨
    (keyChar c).toNat = 123 ∧ weight c = 299 ∨ (keyChar c).toNat = 124 ∧ weight c = 301 ∨
    (keyChar c).toNat = 125 ∧ weight c = 302 ∨ (keyChar c).toNat = 126 ∧ weight c = 314 := by
  rcases isTextChar_cases hc with h | rfl | rfl | rfl | rfl | rfl
  · have ha := isAlpha_iff_toNat.mp h
    rw [keyChar_letter h, weight_letter h]
    omega
  all_goals decide

theorem compare_keyChar {c d : Char} (hc : isTextChar c = true) (hd : isTextChar d = true) :
    compare (keyChar c) (keyChar d) = compare (weight c) (weight d) := by
  have hc := keyChar_toNat_cases hc
  have hd := keyChar_toNat_cases hd
  exact compare_eq_of_toNat (by omega) (by omega)

/-- The marks `#` and `%` stand where the weight zero does. -/
theorem compare_keyChar_mark {c mark : Char} (hc : isTextChar c = true)
    (hm : 33 < mark.toNat ∧ mark.toNat < 65) :
    compare (keyChar c) mark = compare (weight c) 0 := by
  have hc := keyChar_toNat_cases hc
  exact compare_eq_of_toNat (by omega) (by omega)

theorem compare_countChar {m n : Nat} (hm : m ≤ maxDigitRun) (hn : n ≤ maxDigitRun) :
    compare (countChar m) (countChar n) = compare m n := by
  have hm := toNat_countChar m hm
  have hn := toNat_countChar n hn
  rw [← compare_natCast]
  exact compare_eq_of_toNat (by omega) (by omega)

def keyCoding : Coding Char where
  char := keyChar
  digit c := c
  count := countChar
  runEnd := '%'
  fieldEnd := '#'
  IsChar c := isTextChar c = true
  IsCount n := n ≤ maxDigitRun
  not_isDigit := not_isDigit_of_isTextChar
  compare_char := compare_keyChar
  compare_runEnd h := compare_keyChar_mark h (by decide)
  compare_fieldEnd h := compare_keyChar_mark h (by decide)
  compare_count := compare_countChar
  compare_digit _ _ := rfl

theorem chunk_keyCoding (k : Chunk) : keyCoding.chunk k = keyChunk k := by
  simp [Coding.chunk, keyCoding, keyChunk]

theorem field_keyCoding (ks : List Chunk) : keyCoding.field ks = keyField ks := by
  have hc : keyCoding.chunk = keyChunk := funext chunk_keyCoding
  rw [Coding.field, hc, keyField]
  rfl

theorem Fits.writes {k : Chunk} (h : Fits k) : keyCoding.Writes k := ⟨h.text, h.significant_le⟩

theorem compare_keyField {a b : Text} (ha : ∀ k ∈ chunks a, Fits k) (hb : ∀ k ∈ chunks b, Fits k)
    (s t : Text) :
    compare (keyField (chunks a) ++ s) (keyField (chunks b) ++ t) =
      (comparePart a b).then (compare s t) := by
  rw [← field_keyCoding, ← field_keyCoding]
  exact keyCoding.compare_field (fun k hk => (ha k hk).writes) (fun k hk => (hb k hk).writes) s t

section

variable {v w : Version} (hv : v.WellFormed) (hw : w.WellFormed)

include hv hw

theorem compareChunk_epoch :
    compareChunk ⟨[], ofInt v.epoch⟩ ⟨[], ofInt w.epoch⟩ = compare v.epoch w.epoch := by
  have hm := hv.toNat_epoch
  have hn := hw.toNat_epoch
  rw [toNat_significant] at hm hn
  rw [compareChunk, Std.ReflOrd.compare_self, Ordering.eq_then,
    compareSignificant_eq_compare_toNat hv.fits_epoch.digits hw.fits_epoch.digits,
    ← compare_natCast, hm, hn]

theorem compare_keyEpoch (s t : Text) :
    compare (keyField [⟨[], ofInt v.epoch⟩] ++ s) (keyField [⟨[], ofInt w.epoch⟩] ++ t) =
      (compare v.epoch w.epoch).then (compare s t) := by
  have hc := keyCoding.compare_chunk hv.fits_epoch.writes hw.fits_epoch.writes ('#' :: s) ('#' :: t)
  rw [chunk_keyCoding, chunk_keyCoding, compareChunk_epoch hv hw, List.compare_cons_cons,
    Std.ReflOrd.compare_self, Ordering.eq_then] at hc
  simpa [keyField] using hc

theorem compare_keyBody (s t : Text) :
    compare (keyBody v ++ s) (keyBody w ++ t) = (compare v w).then (compare s t) := by
  have hrel := compare_keyField (hv.fits_release (isCut_chunks _)) (hw.fits_release (isCut_chunks _))
  have hrev := compare_keyField (hv.fits_revision (isCut_chunks _)) (hw.fits_revision (isCut_chunks _))
  simp only [keyBody, List.append_assoc]
  rw [compare_keyEpoch hv hw, hrel, hrev, ← Ordering.then_assoc, ← Ordering.then_assoc]
  show _ = (Version.compare v w).then (compare s t)
  rw [Version.compare, Ordering.then_assoc (compare v.epoch w.epoch)]

theorem compare_key :
    compare v.key w.key = (compare v w).then
      (compare (keyZeros (chunks v.release ++ chunks v.revision))
        (keyZeros (chunks w.release ++ chunks w.revision))) :=
  compare_keyBody hv hw _ _

theorem keyBody_eq_iff : compare v w = .eq ↔ keyBody v = keyBody w := by
  have h := compare_keyBody hv hw [] []
  rw [List.append_nil, List.append_nil, Std.ReflOrd.compare_self, Ordering.then_eq] at h
  rw [← h, Std.LawfulEqOrd.compare_eq_iff_eq]

theorem key_injective (h : v.key = w.key) : v = w := by
  have hr := hv.ofKey_eq_ok
  rw [h, hw.ofKey_eq_ok] at hr
  exact (Except.ok.inj hr).symm

end

theorem throughLast_key {v : Version} (h : v.WellFormed) : throughLast '#' v.key = keyBody v := by
  have hz : '#' ∉ keyZeros (chunks v.release ++ chunks v.revision) := by
    intro hm
    obtain ⟨k, hk, he⟩ := List.mem_map.mp hm
    have hf : Fits k := by
      rcases List.mem_append.mp hk with hk | hk
      · exact h.fits_release (isCut_chunks _) k hk
      · exact h.fits_revision (isCut_chunks _) k hk
    have hc := toNat_countChar k.zeros hf.zeros_le
    rw [he] at hc
    exact absurd hc (by simp; omega)
  have hb : ∃ x, keyBody v = x ++ ['#'] := ⟨_, (List.append_assoc _ _ _).symm⟩
  obtain ⟨x, hx⟩ := hb
  rw [key, hx, List.append_assoc, List.singleton_append, throughLast_append x hz]

/-- The order of keys refines the order of versions: keys of versions that compare as equal agree up
to their last mark, and are the same only for the same version. -/
theorem key_refines_compare {v w : Version} (hv : v.Readable) (hw : w.Readable) :
    (compare v w = .lt → v.key < w.key) ∧
    (compare v w = .gt → w.key < v.key) ∧
    (compare v w = .eq ↔ throughLast '#' v.key = throughLast '#' w.key) ∧
    (v.key = w.key ↔ v = w) := by
  rw [readable_iff] at hv hw
  have hlt {v w : Version} (hv : v.WellFormed) (hw : w.WellFormed) (h : compare v w = .lt) :
      v.key < w.key := by
    rw [← compare_eq_lt_iff, compare_key hv hw, h]
    rfl
  refine ⟨hlt hv hw, fun h => hlt hw hv ?_, ?_, key_injective hv hw, congrArg key⟩
  · rw [Std.OrientedOrd.eq_swap, h]
    rfl
  · rw [throughLast_key hv, throughLast_key hw]
    exact keyBody_eq_iff hv hw

theorem key_refines_compare_tilde :
    Readable ⟨0, "1.0~rc1".toList, []⟩ ∧ Readable ⟨0, "1.0".toList, []⟩ ∧
      compare (⟨0, "1.0~rc1".toList, []⟩ : Version) ⟨0, "1.0".toList, []⟩ = .lt ∧
      key ⟨0, "1.0~rc1".toList, []⟩ < key ⟨0, "1.0".toList, []⟩ := by
  have hv : Readable ⟨0, "1.0~rc1".toList, []⟩ := ⟨false, "1.0~rc1".toList, rfl⟩
  have hw : Readable ⟨0, "1.0".toList, []⟩ := ⟨false, "1.0".toList, rfl⟩
  have hc : compare (⟨0, "1.0~rc1".toList, []⟩ : Version) ⟨0, "1.0".toList, []⟩ = .lt := by
    decide +kernel
  exact ⟨hv, hw, hc, (key_refines_compare hv hw).1 hc⟩

end DebianPackaging.Version
