import DebianPackaging.Proofs.Version.Grammar
import DebianPackaging.Proofs.Version.Number

namespace DebianPackaging.Version

open Text Outcome

variable {v : Version} {s : Spelling} {strict : Bool} {text : Text}

structure WellFormed (v : Version) : Prop where
  epoch_nonneg : 0 ≤ v.epoch
  epoch_lt : v.epoch < 10 ^ maxEpochDigits
  release_ne_nil : v.release ≠ []
  release_chars : ∀ c ∈ v.release, isReleaseChar c = true
  revision_chars : ∀ c ∈ v.revision, isRevisionChar c = true
  release_runs : ∀ k ∈ chunks v.release, k.digits.length ≤ maxDigitRun
  revision_runs : ∀ k ∈ chunks v.revision, k.digits.length ≤ maxDigitRun
  revision_ne_nil : '-' ∈ v.release → v.revision ≠ []

/-- A version that some text is read as. -/
def Readable (v : Version) : Prop := ∃ strict text, parseWith strict text = .ok v

theorem wellFormed_iff : v.WellFormed ↔ 0 ≤ v.epoch ∧ v.epoch < 10 ^ 8 ∧ IsRelease v.release ∧
    IsRevision v.revision ∧ ('-' ∈ v.release → v.revision ≠ []) := by
  constructor
  · intro h
    exact ⟨h.epoch_nonneg, h.epoch_lt,
      ⟨h.release_ne_nil, h.release_chars, hasShortRuns_iff.mpr h.release_runs⟩,
      ⟨h.revision_chars, hasShortRuns_iff.mpr h.revision_runs⟩, h.revision_ne_nil⟩
  · rintro ⟨hnonneg, hlt, ⟨hne, hrelease, hruns⟩, ⟨hrevision, hruns'⟩, hhyphen⟩
    exact ⟨hnonneg, hlt, hne, hrelease, hrevision, hasShortRuns_iff.mp hruns,
      hasShortRuns_iff.mp hruns', hhyphen⟩

theorem Spelling.Valid.epoch_lt (h : s.Valid) : s.epoch.elim 0 toNat < 10 ^ maxEpochDigits := by
  cases he : s.epoch with
  | none => decide
  | some digits =>
      obtain ⟨-, hlength, hdigits⟩ := h.epoch digits he
      exact (toNat_lt hdigits).trans_le (Nat.pow_le_pow_right (by decide) hlength)

theorem Spelling.Valid.wellFormed (h : s.Valid) : s.version.WellFormed := by
  have hepoch : ((s.epoch.elim 0 toNat : Nat) : Int) < 10 ^ 8 := by exact_mod_cast h.epoch_lt
  rw [wellFormed_iff]
  refine ⟨Int.natCast_nonneg _, hepoch, h.release, h.isRevision, fun hm => ?_⟩
  obtain ⟨revision, hr⟩ := Option.isSome_iff_exists.mp (h.revision_of_hyphen hm)
  rw [version, hr]
  exact (h.revision revision hr).1

theorem wellFormed_of_parseWith (h : parseWith strict text = .ok v) : v.WellFormed := by
  rw [parseWith, mapError_eq_ok_iff, parseTrimmed_eq_ok_iff_spelling] at h
  obtain ⟨s, hs, -, rfl, -⟩ := h
  exact hs.wellFormed

def spelling (v : Version) : Spelling :=
  ⟨if v.showsEpoch then some (ofNat v.epoch.toNat) else none, v.release,
    if v.isNative then none else some v.revision⟩

theorem hidden_epoch (h : v.showsEpoch = false) : v.epoch = 0 ∧ ':' ∉ v.release := by
  simpa [showsEpoch] using h

theorem isNative_iff : v.isNative = true ↔ v.revision = [] :=
  List.isEmpty_iff

theorem WellFormed.text_spelling (h : v.WellFormed) : v.spelling.text = v.render := by
  rw [Spelling.text, spelling, render, ofInt_of_nonneg h.epoch_nonneg]
  cases v.showsEpoch <;> cases v.isNative <;> simp

theorem WellFormed.version_spelling (h : v.WellFormed) : v.spelling.version = v := by
  have hepoch : ((v.spelling.epoch.elim 0 toNat : Nat) : Int) = v.epoch := by
    cases hs : v.showsEpoch with
    | false => simp [spelling, hs, (hidden_epoch hs).1]
    | true => simp [spelling, hs, toNat_ofNat, h.epoch_nonneg]
  have hrevision : v.spelling.revision.getD [] = v.revision := by
    cases hn : v.isNative with
    | false => simp [spelling, hn]
    | true => simp [spelling, hn, isNative_iff.mp hn]
  rw [Spelling.version, hepoch, hrevision]
  rfl

theorem WellFormed.length_epoch (h : v.WellFormed) :
    (ofNat v.epoch.toNat).length ≤ maxEpochDigits := by
  rw [length_ofNat_le_iff (by decide)]
  exact (Int.toNat_lt h.epoch_nonneg).mpr (by exact_mod_cast h.epoch_lt)

theorem WellFormed.spelling_valid (h : v.WellFormed) : v.spelling.Valid := by
  obtain ⟨-, -, hrelease, hrevision, hhyphen⟩ := wellFormed_iff.mp h
  constructor
  · intro digits hd
    cases hs : v.showsEpoch with
    | false => simp [spelling, hs] at hd
    | true =>
        simp only [spelling, hs, if_true, Option.mem_some_iff] at hd
        rw [← hd]
        exact ⟨List.length_pos_iff.mpr (ofNat_ne_nil _), h.length_epoch,
          fun c hc => isDigit_of_mem_ofNat hc⟩
  · exact hrelease
  · intro revision hr
    cases hn : v.isNative with
    | true => simp [spelling, hn] at hr
    | false =>
        simp only [spelling, hn, if_neg Bool.false_ne_true, Option.mem_some_iff] at hr
        rw [← hr]
        exact ⟨fun he => Bool.noConfusion (hn.symm.trans (isNative_iff.mpr he)), hrevision⟩
  · intro hm
    cases hs : v.showsEpoch with
    | false => exact absurd hm (hidden_epoch hs).2
    | true => simp [spelling, hs]
  · intro hm
    cases hn : v.isNative with
    | true => exact absurd (isNative_iff.mp hn) (hhyphen hm)
    | false => simp [spelling, hn]

theorem WellFormed.isReleaseChar_of_mem_render (h : v.WellFormed) :
    ∀ c ∈ v.render, isReleaseChar c = true := by
  rw [← h.text_spelling]
  exact h.spelling_valid.isReleaseChar_of_mem_text

theorem parse_render (h : v.WellFormed) : parse v.render = .ok v := by
  have hb : ∀ c ∈ v.render, isBlank c = false := fun c hc =>
    isBlank_of_toNat (isReleaseChar_printable (h.isReleaseChar_of_mem_render c hc))
  rw [parse, parseWith, mapError_eq_ok_iff, trim_eq_self hb, parseTrimmed_eq_ok_iff_spelling]
  exact ⟨v.spelling, h.spelling_valid, h.text_spelling.symm, h.version_spelling.symm, by simp⟩

theorem readable_iff : v.Readable ↔ v.WellFormed := by
  constructor
  · rintro ⟨strict, text, h⟩
    exact wellFormed_of_parseWith h
  · intro h
    exact ⟨false, v.render, parse_render h⟩

/-- Texts of the grammar are read as the versions that they spell; and a version that is written is
read as the same exactly when its parts are parts of the grammar. -/
theorem parse_iff_spelling :
    (∀ (strict : Bool) (text : Text) (v : Version), parseWith strict text = .ok v ↔
      ∃ s : Spelling, s.Valid ∧ trim text = s.text ∧ v = s.version ∧
        (strict = true → s.release.head?.any Char.isDigit = true)) ∧
    ∀ v : Version, parse v.render = .ok v ↔ 0 ≤ v.epoch ∧ v.epoch < 10 ^ 8 ∧ IsRelease v.release ∧
      IsRevision v.revision ∧ ('-' ∈ v.release → v.revision ≠ []) := by
  constructor
  · intro strict text v
    rw [parseWith, mapError_eq_ok_iff, parseTrimmed_eq_ok_iff_spelling]
  · intro v
    rw [← wellFormed_iff]
    exact ⟨fun h => wellFormed_of_parseWith h, fun h => parse_render h⟩

end DebianPackaging.Version
