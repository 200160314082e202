import DebianPackaging.Proofs.Outcome
import DebianPackaging.Proofs.Text.Trim
import DebianPackaging.Proofs.Version.Chunk
import DebianPackaging.Version.Parse

namespace DebianPackaging.Version

open Text Outcome

variable {t rest release revision run : Text} {v : Version} {epoch : Int}

def HasShortRuns (t : Text) : Prop :=
  ∀ run, run <:+: t → (∀ c ∈ run, c.isDigit = true) → run.length ≤ 25

def IsRelease (t : Text) : Prop :=
  t ≠ [] ∧ (∀ c ∈ t, isReleaseChar c = true) ∧ HasShortRuns t

def IsRevision (t : Text) : Prop :=
  (∀ c ∈ t, isRevisionChar c = true) ∧ HasShortRuns t

structure Spelling where
  epoch : Option Text
  release : Text
  revision : Option Text

namespace Spelling

def text (s : Spelling) : Text :=
  s.epoch.elim [] (· ++ [':']) ++ (s.release ++ s.revision.elim [] ('-' :: ·))

def version (s : Spelling) : Version :=
  ⟨(s.epoch.elim 0 toNat : Nat), s.release, s.revision.getD []⟩

structure Valid (s : Spelling) : Prop where
  epoch : ∀ digits ∈ s.epoch,
    1 ≤ digits.length ∧ digits.length ≤ 8 ∧ ∀ c ∈ digits, c.isDigit = true
  release : IsRelease s.release
  revision : ∀ revision ∈ s.revision, revision ≠ [] ∧ IsRevision revision
  epoch_of_colon : ':' ∈ s.release → s.epoch.isSome = true
  revision_of_hyphen : '-' ∈ s.release → s.revision.isSome = true

end Spelling

section Runs

/-- A character in front leaves no chunk with fewer digits. -/
theorem exists_push_length_le {k : Chunk} {ks : List Chunk} (hk : k ∈ ks) (c : Char) :
    ∃ l ∈ Chunk.push c ks, k.digits.length ≤ l.digits.length := by
  cases ks with
  | nil => cases hk
  | cons first ks =>
      rw [Chunk.push]
      rcases List.mem_cons.mp hk with rfl | hk
      · split
        · exact ⟨_, List.mem_cons_self, le_rfl⟩
        · split
          · exact ⟨_, List.mem_cons_self, Nat.le_succ _⟩
          · exact ⟨k, by simp, le_rfl⟩
      · refine ⟨k, ?_, le_rfl⟩
        split
        · exact List.mem_cons_of_mem _ hk
        · split
          · exact List.mem_cons_of_mem _ hk
          · exact List.mem_cons_of_mem _ (List.mem_cons_of_mem _ hk)

theorem length_le_leadingDigits (h : run <+: t) (hd : ∀ c ∈ run, c.isDigit = true) :
    run.length ≤ (leadingDigits t).length := by
  obtain ⟨rest, rfl⟩ := h
  rw [leadingDigits, List.takeWhile_append_of_pos hd, List.length_append]
  omega

theorem exists_chunk_of_run (h : run <:+: t) (hd : ∀ c ∈ run, c.isDigit = true) (hne : run ≠ []) :
    ∃ k ∈ chunks t, run.length ≤ k.digits.length := by
  induction t with
  | nil => exact absurd (List.eq_nil_of_infix_nil h) hne
  | cons c t ih =>
      rcases List.infix_cons_iff.mp h with h | h
      · obtain ⟨d, run, rfl⟩ := List.exists_cons_of_ne_nil hne
        have hc : c.isDigit = true := by
          rw [← (List.cons_prefix_cons.mp h).1]
          exact hd d List.mem_cons_self
        refine ⟨firstChunk (c :: t), by rw [chunks_eq]; exact List.mem_cons_self, ?_⟩
        rw [firstChunk, pastText_digit t hc]
        exact length_le_leadingDigits h hd
      · obtain ⟨k, hk, hle⟩ := ih h
        obtain ⟨l, hl, hle'⟩ := exists_push_length_le hk c
        exact ⟨l, hl, hle.trans hle'⟩

theorem infix_of_mem_chunks {k : Chunk} (hk : k ∈ chunks t) : k.digits <:+: t := by
  have hcut := (isCut_chunks t).toText
  obtain ⟨before, after, hs⟩ := List.append_of_mem hk
  rw [hs, List.flatMap_append, List.flatMap_cons, Chunk.toText] at hcut
  refine ⟨before.flatMap Chunk.toText ++ k.text, after.flatMap Chunk.toText, ?_⟩
  rw [← hcut]
  simp only [List.append_assoc]

theorem hasShortRuns_iff : HasShortRuns t ↔ ∀ k ∈ chunks t, k.digits.length ≤ maxDigitRun := by
  constructor
  · intro h k hk
    exact h k.digits (infix_of_mem_chunks hk) ((isCut_chunks t).isChunk k hk).digits
  · intro h run hr hd
    by_cases hne : run = []
    · simp [hne]
    · obtain ⟨k, hk, hle⟩ := exists_chunk_of_run hr hd hne
      exact hle.trans (h k hk)

end Runs

theorem longRun?_eq_none_iff {t : Text} :
    longRun? t = none ↔ ∀ k ∈ chunks t, k.digits.length ≤ maxDigitRun := by
  simp [longRun?]

theorem checkParts_eq_ok_iff {strict : Bool} {v w : Version} :
    checkParts strict v = .ok w ↔
      v = w ∧ v.release ≠ [] ∧ (∀ c ∈ v.release, isReleaseChar c = true) ∧
      (∀ c ∈ v.revision, isRevisionChar c = true) ∧
      (strict = true → v.release.head?.any Char.isDigit = true) ∧
      (∀ k ∈ chunks v.release, k.digits.length ≤ maxDigitRun) ∧
      ∀ k ∈ chunks v.revision, k.digits.length ≤ maxDigitRun := by
  rw [← longRun?_eq_none_iff, ← longRun?_eq_none_iff, ← Option.or_eq_none_iff, checkParts]
  simp only [ite_error_eq_ok_iff]
  cases (longRun? v.release).or (longRun? v.revision) with
  | some length => simp
  | none =>
      simp only [List.isEmpty_iff, Bool.not_eq_true', ← Bool.not_eq_true, List.all_eq_true, not_not,
        Bool.and_eq_true, not_and, Except.ok.injEq, and_true]
      tauto

theorem isEpoch_iff :
    isEpoch t = true ↔ 1 ≤ t.length ∧ t.length ≤ 8 ∧ ∀ c ∈ t, c.isDigit = true := by
  rw [isEpoch, maxEpochDigits, Bool.and_eq_true, Bool.and_eq_true, List.all_eq_true,
    decide_eq_true_eq, Bool.not_eq_true', List.isEmpty_eq_false_iff, ← List.length_pos_iff]
  tauto

theorem splitEpoch_eq_ok_iff : splitEpoch t = .ok (epoch, rest) ↔
    (':' ∉ t ∧ epoch = 0 ∧ rest = t) ∨
      ∃ digits, isEpoch digits = true ∧ t = digits ++ ':' :: rest ∧ epoch = toNat digits := by
  constructor
  · intro h
    unfold splitEpoch at h
    split at h
    next hc =>
      cases h
      exact Or.inl ⟨cut_eq_none_iff.mp hc, rfl, rfl⟩
    next digits rest' hc =>
      split at h
      next he =>
        cases h
        exact Or.inr ⟨digits, he, (cut_eq_some hc).1, rfl⟩
      next => cases h
  · rintro (⟨hn, rfl, rfl⟩ | ⟨digits, he, rfl, rfl⟩)
    · rw [splitEpoch, cut_eq_none_iff.mpr hn]
    · have hn : ':' ∉ digits := fun hm => absurd ((isEpoch_iff.mp he).2.2 ':' hm) (by decide)
      rw [splitEpoch, cut_append hn]
      exact if_pos he

theorem splitRevision_eq_ok_iff : splitRevision t = .ok (release, revision) ↔
    ('-' ∉ t ∧ release = t ∧ revision = []) ∨
      (t = release ++ '-' :: revision ∧ '-' ∉ revision ∧ revision ≠ []) := by
  constructor
  · intro h
    unfold splitRevision at h
    split at h
    next hc =>
      cases h
      exact Or.inl ⟨cutLast_eq_none_iff.mp hc, rfl, rfl⟩
    next release' revision' hc =>
      split at h
      next => cases h
      next he =>
        cases h
        obtain ⟨ht, hn⟩ := cutLast_eq_some_iff.mp hc
        exact Or.inr ⟨ht, hn, by simpa using he⟩
  · rintro (⟨hn, rfl, rfl⟩ | ⟨rfl, hn, hne⟩)
    · rw [splitRevision, cutLast_eq_none_iff.mpr hn]
    · rw [splitRevision, cutLast_append release hn]
      exact if_neg (by simpa using hne)

theorem parseTrimmed_eq_ok_iff {strict : Bool} : parseTrimmed strict t = .ok v ↔
    t ≠ [] ∧ (∀ c ∈ t, isBlank c = false) ∧ ∃ rest, splitEpoch t = .ok (v.epoch, rest) ∧
      splitRevision rest = .ok (v.release, v.revision) ∧ IsRelease v.release ∧
      IsRevision v.revision ∧ (strict = true → v.release.head?.any Char.isDigit = true) := by
  have hshort : ∀ t, (∀ k ∈ chunks t, k.digits.length ≤ maxDigitRun) ↔ HasShortRuns t := fun t =>
    hasShortRuns_iff.symm
  rw [parseTrimmed, ite_error_eq_ok_iff, ite_error_eq_ok_iff]
  simp only [List.isEmpty_iff, Bool.not_eq_true, List.any_eq_false]
  refine and_congr_right fun _ => and_congr_right fun _ => ?_
  constructor
  · intro h
    obtain ⟨⟨epoch, rest⟩, he, h⟩ := bind_eq_ok_iff.mp h
    obtain ⟨⟨release, revision⟩, hr, h⟩ := bind_eq_ok_iff.mp h
    rw [checkParts_eq_ok_iff, hshort, hshort] at h
    obtain ⟨rfl, hne, hrel, hrev, hstrict, hruns, hruns'⟩ := h
    exact ⟨rest, he, hr, ⟨hne, hrel, hruns⟩, ⟨hrev, hruns'⟩, hstrict⟩
  · rintro ⟨rest, he, hr, ⟨hne, hrel, hruns⟩, ⟨hrev, hruns'⟩, hstrict⟩
    refine bind_eq_ok_iff.mpr ⟨_, he, bind_eq_ok_iff.mpr ⟨_, hr, ?_⟩⟩
    rw [checkParts_eq_ok_iff, hshort, hshort]
    exact ⟨rfl, hne, hrel, hrev, hstrict, hruns, hruns'⟩

theorem isReleaseChar_printable {c : Char} (hc : isReleaseChar c = true) :
    33 ≤ c.toNat ∧ c.toNat ≤ 126 := by
  simp only [isReleaseChar, Char.isAlphanum, Bool.or_eq_true, isAlpha_iff_toNat, isDigit_iff_toNat,
    decide_eq_true_eq, List.mem_cons, List.not_mem_nil, or_false] at hc
  rcases hc with (h | h) | rfl | rfl | rfl | rfl | rfl
  · omega
  · omega
  all_goals decide

theorem isReleaseChar_of_isRevisionChar {c : Char} (hc : isRevisionChar c = true) :
    isReleaseChar c = true := by
  simp only [isRevisionChar, isReleaseChar, Bool.or_eq_true, decide_eq_true_eq, List.mem_cons,
    List.not_mem_nil, or_false] at hc ⊢
  tauto

theorem isReleaseChar_of_isDigit {c : Char} (hc : c.isDigit = true) : isReleaseChar c = true := by
  simp [isReleaseChar, Char.isAlphanum, hc]

section Spelling

variable {s : Spelling}

theorem Spelling.Valid.isReleaseChar_of_mem_text (h : s.Valid) :
    ∀ c ∈ s.text, isReleaseChar c = true := by
  intro c hc
  simp only [text, List.mem_append] at hc
  rcases hc with hc | hc | hc
  · cases he : s.epoch with
    | none => simp [he] at hc
    | some digits =>
        rw [he, Option.elim_some, List.mem_append, List.mem_singleton] at hc
        rcases hc with hc | rfl
        · exact isReleaseChar_of_isDigit ((h.epoch digits he).2.2 c hc)
        · decide
  · exact h.release.2.1 c hc
  · cases hr : s.revision with
    | none => simp [hr] at hc
    | some revision =>
        rw [hr, Option.elim_some, List.mem_cons] at hc
        rcases hc with rfl | hc
        · decide
        · exact isReleaseChar_of_isRevisionChar ((h.revision revision hr).2.1 c hc)

theorem Spelling.Valid.isRevision (h : s.Valid) : IsRevision s.version.revision := by
  rw [version]
  cases hr : s.revision with
  | none => exact ⟨by simp, fun run hrun _ => by simp [List.eq_nil_of_infix_nil hrun]⟩
  | some revision => exact (h.revision revision hr).2

theorem Spelling.Valid.splitEpoch (h : s.Valid) :
    splitEpoch s.text = .ok (s.version.epoch, s.release ++ s.revision.elim [] ('-' :: ·)) := by
  rw [splitEpoch_eq_ok_iff, text, version]
  cases he : s.epoch with
  | none =>
      refine Or.inl ⟨?_, rfl, rfl⟩
      have hcolon : ':' ∉ s.release := fun hm => by simpa [he] using h.epoch_of_colon hm
      rw [Option.elim_none, List.nil_append, List.mem_append, not_or]
      refine ⟨hcolon, ?_⟩
      cases hr : s.revision with
      | none => exact List.not_mem_nil
      | some revision =>
          rw [Option.elim_some, List.mem_cons, not_or]
          exact ⟨by decide, fun hm => absurd ((h.revision revision hr).2.1 ':' hm) (by decide)⟩
  | some digits => exact Or.inr ⟨digits, isEpoch_iff.mpr (h.epoch digits he), by simp, rfl⟩

theorem Spelling.Valid.splitRevision (h : s.Valid) :
    splitRevision (s.release ++ s.revision.elim [] ('-' :: ·)) =
      .ok (s.version.release, s.version.revision) := by
  rw [splitRevision_eq_ok_iff, version]
  cases hr : s.revision with
  | none =>
      have hhyphen : '-' ∉ s.release := fun hm => by simpa [hr] using h.revision_of_hyphen hm
      exact Or.inl ⟨by simpa using hhyphen, by simp, rfl⟩
  | some revision =>
      obtain ⟨hne, hrevision⟩ := h.revision revision hr
      exact Or.inr ⟨rfl, fun hm => absurd (hrevision.1 '-' hm) (by decide), hne⟩

theorem exists_written_epoch (h : splitEpoch t = .ok (epoch, rest)) :
    ∃ written : Option Text, t = written.elim [] (· ++ [':']) ++ rest ∧
      epoch = (written.elim 0 toNat : Nat) ∧
      (∀ digits ∈ written, isEpoch digits = true) ∧ (':' ∈ rest → written.isSome = true) := by
  rcases splitEpoch_eq_ok_iff.mp h with ⟨hn, rfl, rfl⟩ | ⟨digits, hd, rfl, rfl⟩
  · exact ⟨none, by simp, rfl, by simp, fun hm => absurd hm hn⟩
  · exact ⟨some digits, by simp, rfl, by simpa using hd, fun _ => rfl⟩

theorem exists_written_revision (h : splitRevision t = .ok (release, revision)) :
    ∃ written : Option Text, t = release ++ written.elim [] ('-' :: ·) ∧
      revision = written.getD [] ∧ (∀ r ∈ written, r ≠ [] ∧ r = revision) ∧
      ('-' ∈ release → written.isSome = true) := by
  rcases splitRevision_eq_ok_iff.mp h with ⟨hn, rfl, rfl⟩ | ⟨rfl, -, hne⟩
  · exact ⟨none, by simp, rfl, by simp, fun hm => absurd hm hn⟩
  · exact ⟨some revision, rfl, rfl, by simpa using hne, fun _ => rfl⟩

theorem parseTrimmed_eq_ok_iff_spelling {strict : Bool} : parseTrimmed strict t = .ok v ↔
    ∃ s : Spelling, s.Valid ∧ t = s.text ∧ v = s.version ∧
      (strict = true → s.release.head?.any Char.isDigit = true) := by
  rw [parseTrimmed_eq_ok_iff]
  constructor
  · rintro ⟨-, -, rest, he, hr, hrelease, hrevision, hstrict⟩
    obtain ⟨epoch, ht, hepoch, hdigits, hcolon⟩ := exists_written_epoch he
    obtain ⟨revision, rfl, hrev, hwritten, hhyphen⟩ := exists_written_revision hr
    refine ⟨⟨epoch, v.release, revision⟩, ?_, ht, ?_, hstrict⟩
    · refine ⟨fun digits hd => isEpoch_iff.mp (hdigits digits hd), hrelease, fun r hr => ?_,
        fun hm => hcolon (List.mem_append_left _ hm), hhyphen⟩
      obtain ⟨hne, rfl⟩ := hwritten r hr
      exact ⟨hne, hrevision⟩
    · show v = ⟨(epoch.elim 0 toNat : Nat), v.release, revision.getD []⟩
      rw [← hepoch, ← hrev]
  · rintro ⟨s, h, rfl, rfl, hstrict⟩
    have hne : s.text ≠ [] := by
      intro he
      rw [Spelling.text, List.append_eq_nil_iff, List.append_eq_nil_iff] at he
      exact h.release.1 he.2.1
    have hblank : ∀ c ∈ s.text, isBlank c = false := fun c hc =>
      isBlank_of_toNat (isReleaseChar_printable (h.isReleaseChar_of_mem_text c hc))
    exact ⟨hne, hblank, _, h.splitEpoch, h.splitRevision, h.release, h.isRevision,
      hstrict⟩

theorem isReleaseChar_of_parse (h : parse t = .ok v) :
    ∀ c ∈ t, isBlank c = true ∨ isReleaseChar c = true := by
  intro c hc
  rw [parse, parseWith, mapError_eq_ok_iff, parseTrimmed_eq_ok_iff_spelling] at h
  obtain ⟨s, hs, ht, -⟩ := h
  rcases mem_trim_of_mem hc with hb | hm
  · exact Or.inl hb
  · exact Or.inr (hs.isReleaseChar_of_mem_text c (ht ▸ hm))

end Spelling

end DebianPackaging.Version
