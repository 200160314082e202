import DebianPackaging.Proofs.Text.Pieces

namespace DebianPackaging.Text

variable {t before w : Text} {ws pieces : List Text} {c : Char}

def IsWord (t : Text) : Prop :=
  t ≠ [] ∧ ∀ c ∈ t, isBlank c = false

/-- Words with white space around them. -/
inductive IsSpaced : List Text → Text → Prop
  | blank {t : Text} (h : isBlankText t = true) : IsSpaced [] t
  | word {before w t : Text} {ws : List Text} (hbefore : isBlankText before = true) (hw : IsWord w)
      (hnext : ∀ c, t.head? = some c → isBlank c = true) (h : IsSpaced ws t) :
      IsSpaced (w :: ws) (before ++ w ++ t)

theorem isBlankText_cons_iff :
    isBlankText (c :: t) = true ↔ isBlank c = true ∧ isBlankText t = true := by
  rw [isBlankText, List.all_cons, Bool.and_eq_true, isBlankText]

theorem words_append_of_isBlankText (h : isBlankText before = true) (t : Text) :
    words (before ++ t) = words t := by
  induction before with
  | nil => rfl
  | cons c before ih =>
      rw [isBlankText_cons_iff] at h
      rw [List.cons_append, ← ih h.2, words, List.splitOnP_cons_eq_if_modifyHead, if_pos h.1,
        List.filter_cons_of_neg (by simp), words]

theorem words_append (hw : IsWord w) (hnext : ∀ c, t.head? = some c → isBlank c = true) :
    words (w ++ t) = w :: words t := by
  obtain ⟨hne, hplain⟩ := hw
  cases t with
  | nil => simp [words, List.splitOnP_eq_singleton hplain, hne]
  | cons c t =>
      have hc : isBlank c = true := hnext c rfl
      have hblank : isBlankText [c] = true := by simpa [isBlankText] using hc
      have ht : words (c :: t) = words t := words_append_of_isBlankText hblank t
      rw [ht, words, List.splitOnP_append_cons_of_forall_mem hplain c hc,
        List.filter_cons_of_pos (by simpa using hne), words]

theorem IsSpaced.words_eq (h : IsSpaced ws t) : words t = ws := by
  induction h with
  | @blank t h =>
      rw [← List.append_nil t, words_append_of_isBlankText h]
      rfl
  | word hbefore hw hnext _ ih =>
      rw [List.append_assoc, words_append_of_isBlankText hbefore, words_append hw hnext, ih]

theorem IsSpaced.cons_blank (hc : isBlank c = true) (h : IsSpaced ws t) : IsSpaced ws (c :: t) := by
  cases h with
  | blank h => exact .blank (isBlankText_cons_iff.mpr ⟨hc, h⟩)
  | word hbefore hw hnext h => exact .word (isBlankText_cons_iff.mpr ⟨hc, hbefore⟩) hw hnext h

theorem isWord_singleton (hc : isBlank c = false) : IsWord [c] :=
  ⟨by simp, by simpa using hc⟩

/-- Where white space follows, a character is a word. -/
theorem IsSpaced.cons_word (hc : isBlank c = false) (h : IsSpaced ws t)
    (hnext : ∀ d, t.head? = some d → isBlank d = true) : IsSpaced ([c] :: ws) (c :: t) :=
  have hb : isBlankText [] = true := rfl
  .word hb (isWord_singleton hc) hnext h

theorem exists_isSpaced (t : Text) : ∃ ws, IsSpaced ws t := by
  induction t with
  | nil => exact ⟨[], .blank rfl⟩
  | cons c t ih =>
      obtain ⟨ws, h⟩ := ih
      by_cases hc : isBlank c = true
      · exact ⟨ws, h.cons_blank hc⟩
      rw [Bool.not_eq_true] at hc
      cases h with
      | @blank t hblank =>
          refine ⟨[[c]], .cons_word hc (.blank hblank) fun d hd => ?_⟩
          exact List.all_eq_true.mp hblank d (List.mem_of_head? hd)
      | @word before w t ws hbefore hw hnext h =>
          cases before with
          | nil =>
              have hcw : IsWord (c :: w) := ⟨by simp, List.forall_mem_cons.mpr ⟨hc, hw.2⟩⟩
              exact ⟨(c :: w) :: ws, .word hbefore hcw hnext h⟩
          | cons b before =>
              refine ⟨[c] :: w :: ws, .cons_word hc (.word hbefore hw hnext h) ?_⟩
              rintro d ⟨⟩
              exact List.all_eq_true.mp hbefore b List.mem_cons_self

theorem words_eq_iff : words t = ws ↔ IsSpaced ws t := by
  constructor
  · rintro rfl
    obtain ⟨ws, h⟩ := exists_isSpaced t
    rwa [h.words_eq]
  · exact IsSpaced.words_eq

theorem IsSpaced.isInfix (h : IsSpaced ws t) (hw : w ∈ ws) : w <:+: t := by
  induction h with
  | blank => cases hw
  | @word before v t ws _ _ _ _ ih =>
      rcases List.mem_cons.mp hw with rfl | hw
      · exact List.infix_append _ _ _
      · exact (ih hw).trans (List.suffix_append _ _).isInfix

theorem IsSpaced.isWord (h : IsSpaced ws t) : ∀ w ∈ ws, IsWord w := by
  rw [← h.words_eq]
  intro w hw
  obtain ⟨hne, hplain⟩ := mem_words hw
  exact ⟨hne, fun c hc => (hplain c hc).1⟩

theorem IsSpaced.mem (h : IsSpaced ws t) (hc : c ∈ t) : isBlank c = true ∨ ∃ w ∈ ws, c ∈ w := by
  induction h with
  | blank h => exact Or.inl (List.all_eq_true.mp h c hc)
  | word hbefore _ _ _ ih =>
      rw [List.mem_append, List.mem_append] at hc
      rcases hc with (hc | hc) | hc
      · exact Or.inl (List.all_eq_true.mp hbefore c hc)
      · exact Or.inr ⟨_, List.mem_cons_self, hc⟩
      · rcases ih hc with hb | ⟨v, hv, hc⟩
        · exact Or.inl hb
        · exact Or.inr ⟨v, List.mem_cons_of_mem _ hv, hc⟩

theorem count_eq_zero_of_isBlankText (h : isBlankText t = true) (hc : isBlank c = false) :
    t.count c = 0 := by
  apply List.count_eq_zero.mpr
  intro hm
  rw [List.all_eq_true.mp h c hm] at hc
  cases hc

theorem IsSpaced.count_eq (h : IsSpaced ws t) (hc : isBlank c = false) :
    t.count c = (ws.map (List.count c)).sum := by
  induction h with
  | blank h => exact count_eq_zero_of_isBlankText h hc
  | word hbefore _ _ _ ih =>
      rw [List.count_append, List.count_append, count_eq_zero_of_isBlankText hbefore hc, ih,
        List.map_cons, List.sum_cons, Nat.zero_add]

def IsSeparated (c : Char) (pieces : List Text) (t : Text) : Prop :=
  pieces ≠ [] ∧ (∀ piece ∈ pieces, c ∉ piece) ∧ join [c] pieces = t

theorem splitOn_eq_iff : t.splitOn c = pieces ↔ IsSeparated c pieces t := by
  constructor
  · rintro rfl
    exact ⟨List.splitOn_ne_nil c t, fun _ hp => not_mem_of_mem_splitOn hp,
      List.intercalate_splitOn c⟩
  · rintro ⟨hne, hmark, rfl⟩
    exact List.splitOn_intercalate c hmark hne

theorem IsSeparated.isInfix (h : IsSeparated c pieces t) (hw : w ∈ pieces) : w <:+: t := by
  rw [← splitOn_eq_iff] at h
  exact infix_of_mem_splitOn (h ▸ hw)

end DebianPackaging.Text
