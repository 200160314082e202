import DebianPackaging.Proofs.Outcome
import DebianPackaging.Proofs.Text.Words

namespace DebianPackaging.Text

variable {t u w run : Text} {c : Char} {p : Char → Bool}

def IsRun (t : Text) : Prop :=
  t ≠ [] ∧ isBlankText t = true

/-- Where one text has white space the other one has white space as well, and elsewhere they are the
same. Stretches that meet count as one. -/
inductive Refolds : Text → Text → Prop
  | nil : Refolds [] []
  | plain {t u : Text} {c : Char} (hc : isBlank c = false) (h : Refolds t u) :
      Refolds (c :: t) (c :: u)
  | blank {before before' t u : Text} (hb : IsRun before) (hb' : IsRun before') (h : Refolds t u) :
      Refolds (before ++ t) (before' ++ u)

theorem IsRun.exists_cons (h : IsRun run) : ∃ c rest, run = c :: rest ∧ isBlank c = true := by
  obtain ⟨c, rest, rfl⟩ := List.exists_cons_of_ne_nil h.1
  exact ⟨c, rest, rfl, (isBlankText_cons_iff.mp h.2).1⟩

theorem IsRun.not_of_mem (h : IsRun run) (hp : ∀ c, p c = true → isBlank c = false) :
    ∀ c ∈ run, ¬p c = true := fun c hc hpc =>
  Bool.noConfusion ((List.all_eq_true.mp h.2 c hc).symm.trans (hp c hpc))

theorem IsRun.not_mem (h : IsRun run) (hc : isBlank c = false) : c ∉ run := fun hm =>
  Bool.noConfusion ((List.all_eq_true.mp h.2 c hm).symm.trans hc)

theorem IsRun.scan_stops (h : IsRun run) (hp : ∀ c, p c = true → isBlank c = false) (t : Text) :
    (run ++ t).takeWhile p = [] ∧ (run ++ t).dropWhile p = run ++ t := by
  obtain ⟨c, rest, rfl⟩ := List.exists_cons_of_ne_nil h.1
  have hpc := h.not_of_mem hp c List.mem_cons_self
  exact ⟨List.takeWhile_cons_of_neg hpc, List.dropWhile_cons_of_neg hpc⟩

theorem IsRun.reverse (h : IsRun run) : IsRun run.reverse :=
  ⟨by simpa using h.1, by rw [isBlankText, List.all_reverse]; exact h.2⟩

namespace Refolds

theorem append {t' u' : Text} (h : Refolds t u) (h' : Refolds t' u') :
    Refolds (t ++ t') (u ++ u') := by
  induction h with
  | nil => exact h'
  | plain hc _ ih => exact .plain hc ih
  | blank hb hb' _ ih =>
      rw [List.append_assoc, List.append_assoc]
      exact .blank hb hb' ih

theorem reverse (h : Refolds t u) : Refolds t.reverse u.reverse := by
  induction h with
  | nil => exact .nil
  | plain hc _ ih =>
      rw [List.reverse_cons, List.reverse_cons]
      exact ih.append (.plain hc .nil)
  | @blank before before' _ _ hb hb' _ ih =>
      rw [List.reverse_append, List.reverse_append]
      have hruns : Refolds (before.reverse ++ []) (before'.reverse ++ []) :=
        .blank hb.reverse hb'.reverse .nil
      rw [List.append_nil, List.append_nil] at hruns
      exact ih.append hruns

theorem any_eq (h : Refolds t u) (hp : ∀ c, p c = true → isBlank c = false) :
    t.any p = u.any p := by
  have hrun : ∀ {run}, IsRun run → run.any p = false := fun hr =>
    List.any_eq_false.mpr (hr.not_of_mem hp)
  induction h with
  | nil => rfl
  | plain _ _ ih => rw [List.any_cons, List.any_cons, ih]
  | blank hb hb' _ ih => rw [List.any_append, List.any_append, hrun hb, hrun hb', ih]

theorem any_isBlank_eq (h : Refolds t u) : t.any isBlank = u.any isBlank := by
  have hrun : ∀ {run}, IsRun run → run.any isBlank = true := fun hr => by
    obtain ⟨c, rest, rfl, hc⟩ := hr.exists_cons
    rw [List.any_cons, hc, Bool.true_or]
  induction h with
  | nil => rfl
  | plain _ _ ih => rw [List.any_cons, List.any_cons, ih]
  | blank hb hb' _ _ => rw [List.any_append, List.any_append, hrun hb, hrun hb']; rfl

theorem eq_of_plain (h : Refolds t u) (ht : ∀ c ∈ t, isBlank c = false) : t = u := by
  induction h with
  | nil => rfl
  | plain _ _ ih => rw [ih fun c hc => ht c (List.mem_cons_of_mem _ hc)]
  | blank hb _ _ _ =>
      obtain ⟨c, rest, rfl, hc⟩ := hb.exists_cons
      rw [ht c (by simp)] at hc
      cases hc

theorem mem_iff (h : Refolds t u) (hc : isBlank c = false) : c ∈ t ↔ c ∈ u := by
  have hany := h.any_eq (p := (c == ·)) fun d hd => beq_iff_eq.mp hd ▸ hc
  rw [← List.elem_iff, ← List.elem_iff, List.elem_eq_contains, List.elem_eq_contains,
    List.contains_eq_any_beq, List.contains_eq_any_beq, hany]

theorem isBlankText_eq (h : Refolds t u) : isBlankText t = isBlankText u := by
  induction h with
  | nil => rfl
  | plain _ _ ih =>
      simp only [isBlankText, List.all_cons] at ih ⊢
      rw [ih]
  | blank hb hb' _ ih =>
      have hall := hb.2
      have hall' := hb'.2
      simp only [isBlankText, List.all_append] at hall hall' ih ⊢
      rw [hall, hall', ih]

/-- White space stops a scan for other characters in both texts. -/
theorem takeWhile_dropWhile (h : Refolds t u) (hp : ∀ c, p c = true → isBlank c = false) :
    t.takeWhile p = u.takeWhile p ∧ Refolds (t.dropWhile p) (u.dropWhile p) := by
  induction h with
  | nil => exact ⟨rfl, .nil⟩
  | @plain t u c hc h ih =>
      by_cases hpc : p c = true
      · simp only [List.takeWhile_cons_of_pos hpc, List.dropWhile_cons_of_pos hpc, ih.1]
        exact ⟨trivial, ih.2⟩
      · simp only [List.takeWhile_cons_of_neg hpc, List.dropWhile_cons_of_neg hpc]
        exact ⟨trivial, .plain hc h⟩
  | blank hb hb' h ih =>
      obtain ⟨htake, hdrop⟩ := hb.scan_stops hp _
      obtain ⟨htake', hdrop'⟩ := hb'.scan_stops hp _
      rw [htake, hdrop, htake', hdrop']
      exact ⟨rfl, .blank hb hb' h⟩

theorem trimLeft (h : Refolds t u) : Refolds (trimLeft t) (trimLeft u) := by
  induction h with
  | nil => exact .nil
  | plain hc h _ =>
      rw [trimLeft_of_startsPlain (startsPlain_cons hc _),
        trimLeft_of_startsPlain (startsPlain_cons hc _)]
      exact .plain hc h
  | blank hb hb' _ ih =>
      rwa [trimLeft_append_of_isBlankText hb.2, trimLeft_append_of_isBlankText hb'.2]

theorem trim (h : Refolds t u) : Refolds (trim t) (trim u) :=
  h.trimLeft.reverse.trimLeft.reverse

theorem exists_splitOnP (h : Refolds t u) : ∃ w ts us, t.splitOnP isBlank = w :: ts ∧
    u.splitOnP isBlank = w :: us ∧ ts.filter (!·.isEmpty) = us.filter (!·.isEmpty) := by
  induction h with
  | nil => exact ⟨[], [], [], rfl, rfl, rfl⟩
  | @plain t u c hc h ih =>
      obtain ⟨w, ts, us, ht, hu, hw⟩ := ih
      refine ⟨c :: w, ts, us, ?_, ?_, hw⟩
      · rw [List.splitOnP_cons_eq_if_modifyHead, hc, if_neg Bool.false_ne_true, ht]
        rfl
      · rw [List.splitOnP_cons_eq_if_modifyHead, hc, if_neg Bool.false_ne_true, hu]
        rfl
  | @blank before before' t u hb hb' h ih =>
      obtain ⟨w, ts, us, ht, hu, hw⟩ := ih
      have hwords : words t = words u := by
        rw [words, words, ht, hu, List.filter_cons, List.filter_cons, hw]
      have hsplit : ∀ {run t}, IsRun run → ∃ ts, (run ++ t).splitOnP isBlank = [] :: ts ∧
          ts.filter (!·.isEmpty) = words t := by
        intro run t hr
        obtain ⟨c, rest, rfl, hc⟩ := hr.exists_cons
        have hrest : isBlankText rest = true := (isBlankText_cons_iff.mp hr.2).2
        refine ⟨(rest ++ t).splitOnP isBlank, ?_, words_append_of_isBlankText hrest t⟩
        rw [List.cons_append, List.splitOnP_cons_eq_if_modifyHead, if_pos hc]
      obtain ⟨ts, hts, hwt⟩ := hsplit hb (t := t)
      obtain ⟨us, hus, hwu⟩ := hsplit hb' (t := u)
      exact ⟨[], ts, us, hts, hus, by rw [hwt, hwu, hwords]⟩

theorem words_eq (h : Refolds t u) : words t = words u := by
  obtain ⟨w, ts, us, ht, hu, hw⟩ := h.exists_splitOnP
  rw [words, words, ht, hu, List.filter_cons, List.filter_cons, hw]

/-- A character that is no white space divides both texts alike. -/
theorem exists_append_cons {before after : Text} (h : Refolds (before ++ c :: after) u)
    (hc : isBlank c = false) : ∃ before' after', u = before' ++ c :: after' ∧
      Refolds before before' ∧ Refolds after after' := by
  generalize ht : before ++ c :: after = t at h
  induction h generalizing before with
  | nil => simp at ht
  | @plain t u d hd h ih =>
      cases before with
      | nil =>
          obtain ⟨rfl, rfl⟩ := List.cons.inj ht
          exact ⟨[], u, rfl, .nil, h⟩
      | cons e before =>
          obtain ⟨rfl, rfl⟩ := List.cons.inj ht
          obtain ⟨before', after', rfl, hb, ha⟩ := ih rfl
          exact ⟨e :: before', after', rfl, .plain hd hb, ha⟩
  | @blank run run' t u hr hr' h ih =>
      rcases List.append_eq_append_iff.mp ht with ⟨rest, hrun, hrest⟩ | ⟨rest, rfl, hrest⟩
      · cases rest with
        | nil =>
            rw [List.append_nil] at hrun
            obtain ⟨before', after', rfl, hb, ha⟩ := @ih [] hrest
            exact ⟨run' ++ before', after', by simp, hrun ▸ by simpa using hb.blank hr hr', ha⟩
        | cons d rest =>
            obtain ⟨rfl, -⟩ := List.cons.inj hrest
            exact absurd (by simp [hrun]) (hr.not_mem hc)
      · obtain ⟨before', after', rfl, hb, ha⟩ := ih hrest.symm
        exact ⟨run' ++ before', after', by simp, .blank hr hr' hb, ha⟩

theorem cut_eq (h : Refolds t u) (hc : isBlank c = false) : (cut c t = none ∧ cut c u = none) ∨
    ∃ before after before' after', cut c t = some (before, after) ∧
      cut c u = some (before', after') ∧ Refolds before before' ∧ Refolds after after' := by
  cases hcut : cut c t with
  | none =>
      have hmem := cut_eq_none_iff.mp hcut
      exact .inl ⟨rfl, cut_eq_none_iff.mpr fun hm => hmem ((h.mem_iff hc).mpr hm)⟩
  | some parts =>
      obtain ⟨before, after⟩ := parts
      obtain ⟨rfl, hn⟩ := cut_eq_some hcut
      obtain ⟨before', after', rfl, hb, ha⟩ := h.exists_append_cons hc
      have hn' : c ∉ before' := fun hm => hn ((hb.mem_iff hc).mpr hm)
      exact .inr ⟨before, after, before', after', rfl, cut_append hn' after', hb, ha⟩

theorem exists_join {pieces : List Text} (hne : pieces ≠ []) (h : Refolds (join [c] pieces) u)
    (hc : isBlank c = false) :
    ∃ pieces', join [c] pieces' = u ∧ List.Forall₂ Refolds pieces pieces' := by
  induction pieces generalizing u with
  | nil => exact absurd rfl hne
  | cons piece pieces ih =>
      cases pieces with
      | nil =>
          rw [join_singleton] at h
          exact ⟨[u], join_singleton [c] u, .cons h .nil⟩
      | cons next pieces =>
          rw [join_cons_cons, List.append_assoc, List.singleton_append] at h
          obtain ⟨piece', rest, rfl, hpiece, hrest⟩ := h.exists_append_cons hc
          obtain ⟨pieces', rfl, hpieces⟩ := ih (by simp) hrest
          obtain ⟨next', later, -, -, rfl⟩ := List.forall₂_cons_left_iff.mp hpieces
          exact ⟨piece' :: next' :: later, by simp [join_cons_cons], .cons hpiece hpieces⟩

theorem splitOn (h : Refolds t u) (hc : isBlank c = false) :
    List.Forall₂ Refolds (t.splitOn c) (u.splitOn c) := by
  obtain ⟨hne, hmark, hjoin⟩ := splitOn_eq_iff.mp (rfl : t.splitOn c = t.splitOn c)
  rw [← hjoin] at h
  obtain ⟨pieces', hu, hf⟩ := h.exists_join hne hc
  have hmark' : ∀ piece' ∈ pieces', c ∉ piece' := by
    intro piece' hp hm
    obtain ⟨piece, hpiece, hr⟩ := Outcome.exists_of_forall₂ hf piece' hp
    exact hmark piece hpiece ((hr.mem_iff hc).mpr hm)
  have hne' : pieces' ≠ [] := by
    rintro rfl
    exact hne (List.forall₂_nil_right_iff.mp hf)
  rwa [splitOn_eq_iff.mpr ⟨hne', hmark', hu⟩]

end Refolds

section Squeeze

def squeeze : Text → Text
  | [] => []
  | c :: t => if isBlank c then ' ' :: trimLeft (squeeze t) else c :: squeeze t

theorem squeeze_cons_plain (hc : isBlank c = false) (t : Text) :
    squeeze (c :: t) = c :: squeeze t := by
  rw [squeeze, hc, if_neg Bool.false_ne_true]

theorem trimLeft_squeeze (t : Text) : trimLeft (squeeze t) = squeeze (trimLeft t) := by
  induction t with
  | nil => rfl
  | cons c t ih =>
      by_cases hc : isBlank c = true
      · rw [squeeze, if_pos hc, trimLeft, List.dropWhile_cons_of_pos (by decide), ← trimLeft,
          trimLeft_of_startsPlain (startsPlain_trimLeft _), ih, ← List.singleton_append,
          trimLeft_append_of_isBlankText (by simpa [isBlankText] using hc)]
      · rw [Bool.not_eq_true] at hc
        rw [squeeze_cons_plain hc, trimLeft_of_startsPlain (startsPlain_cons hc _),
          trimLeft_of_startsPlain (startsPlain_cons hc _), squeeze_cons_plain hc]

theorem squeeze_cons_blank (hc : isBlank c = true) (t : Text) :
    squeeze (c :: t) = ' ' :: squeeze (trimLeft t) := by
  rw [squeeze, if_pos hc, trimLeft_squeeze]

theorem squeeze_append (h : IsRun run) (t : Text) :
    squeeze (run ++ t) = ' ' :: squeeze (trimLeft t) := by
  obtain ⟨c, rest, rfl, hc⟩ := h.exists_cons
  rw [List.cons_append, squeeze_cons_blank hc,
    trimLeft_append_of_isBlankText (isBlankText_cons_iff.mp h.2).2]

theorem Refolds.squeeze_eq (h : Refolds t u) : squeeze t = squeeze u := by
  induction h with
  | nil => rfl
  | plain hc _ ih => rw [squeeze_cons_plain hc, squeeze_cons_plain hc, ih]
  | blank hb hb' _ ih =>
      rw [squeeze_append hb, squeeze_append hb', ← trimLeft_squeeze, ← trimLeft_squeeze, ih]

theorem exists_run (hc : isBlank c = true) (t : Text) :
    ∃ run, IsRun run ∧ c :: t = run ++ trimLeft t := by
  refine ⟨c :: t.takeWhile isBlank, ⟨by simp, ?_⟩, ?_⟩
  · exact isBlankText_cons_iff.mpr ⟨hc, List.all_eq_true.mpr fun d hd => List.mem_takeWhile_imp hd⟩
  · rw [trimLeft, List.cons_append, List.takeWhile_append_dropWhile]

theorem squeeze_eq_nil (h : squeeze t = []) : t = [] := by
  cases t with
  | nil => rfl
  | cons c t =>
      rw [squeeze] at h
      split at h <;> cases h

theorem squeeze_eq_cons {s : Text} (h : squeeze t = c :: s) : ∃ front rest, t = front ++ rest ∧
    squeeze rest = s ∧ (isBlank c = true → IsRun front) ∧ (isBlank c = false → front = [c]) := by
  cases t with
  | nil => cases h
  | cons d t =>
      cases hd : isBlank d with
      | true =>
          rw [squeeze_cons_blank hd] at h
          obtain ⟨rfl, rfl⟩ := List.cons.inj h
          obtain ⟨run, hr, ht⟩ := exists_run hd t
          exact ⟨run, trimLeft t, ht, rfl, fun _ => hr, fun hc => absurd hc (by decide)⟩
      | false =>
          rw [squeeze_cons_plain hd] at h
          obtain ⟨rfl, rfl⟩ := List.cons.inj h
          exact ⟨[d], t, rfl, rfl, fun hc => Bool.noConfusion (hc.symm.trans hd), fun _ => rfl⟩

theorem refolds_iff : Refolds t u ↔ squeeze t = squeeze u := by
  refine ⟨Refolds.squeeze_eq, fun h => ?_⟩
  generalize hs : squeeze u = s at h
  induction s generalizing t u with
  | nil =>
      rw [squeeze_eq_nil h, squeeze_eq_nil hs]
      exact .nil
  | cons c s ih =>
      obtain ⟨front, t, rfl, ht, hrun, hchar⟩ := squeeze_eq_cons h
      obtain ⟨front', u, rfl, hu, hrun', hchar'⟩ := squeeze_eq_cons hs
      cases hc : isBlank c with
      | true => exact .blank (hrun hc) (hrun' hc) (ih hu ht)
      | false =>
          rw [hchar hc, hchar' hc]
          exact .plain hc (ih hu ht)

instance (t u : Text) : Decidable (Refolds t u) :=
  decidable_of_iff _ refolds_iff.symm

/-- Where there is no white space, none is put in. -/
example : Refolds "a (>=\t1)" "a\n (>= 1)" ∧ ¬Refolds "a (>=1)" "a (>= 1)" := by decide

end Squeeze

end DebianPackaging.Text
