import DebianPackaging.Proofs.Text.Basic

namespace DebianPackaging.Text

variable {separator before after t u w : Text} {ts ws : List Text} {c : Char}

theorem trimLeft_append_of_isBlankText (h : isBlankText before = true) :
    trimLeft (before ++ t) = trimLeft t :=
  List.dropWhile_append_of_pos (by simpa [isBlankText] using h)

theorem trimRight_append_of_isBlankText (h : isBlankText after = true) :
    trimRight (t ++ after) = trimRight t := by
  have hr : ∀ c ∈ after.reverse, isBlank c = true := by simpa [isBlankText] using h
  rw [trimRight, List.reverse_append, List.dropWhile_append_of_pos hr, trimRight]

theorem trim_append_of_isBlankText (h : isBlankText before = true) :
    trim (before ++ t) = trim t := by
  rw [trim, trimLeft_append_of_isBlankText h, trim]

theorem trim_append_right_of_isBlankText (h : isBlankText after = true) :
    trim (t ++ after) = trim t := by
  have hafter : after.dropWhile isBlank = [] :=
    List.dropWhile_eq_nil_iff.mpr (by simpa [isBlankText] using h)
  rw [trim, trim, trimLeft, trimLeft, List.dropWhile_append, hafter]
  split
  · rename_i ht
    rw [List.isEmpty_iff.mp ht]
  · exact trimRight_append_of_isBlankText h

theorem mem_of_mem_trim (h : c ∈ trim t) : c ∈ t := by
  have hl : trimLeft t ⊆ t := (List.dropWhile_suffix isBlank).subset
  have hr : trimRight (trimLeft t) ⊆ trimLeft t := by
    intro d hd
    rw [trimRight, List.mem_reverse] at hd
    exact List.mem_reverse.mp ((List.dropWhile_suffix isBlank).subset hd)
  exact hl (hr h)

def EndsPlain (t : Text) : Prop :=
  ∀ c, t.getLast? = some c → isBlank c = false

theorem EndsPlain.append (ht : EndsPlain t) (hu : EndsPlain u) : EndsPlain (t ++ u) := by
  intro c hc
  rw [List.getLast?_append, Option.or_eq_some_iff] at hc
  rcases hc with hc | ⟨-, hc⟩
  · exact hu c hc
  · exact ht c hc

theorem endsPlain_of_forall (h : ∀ c ∈ t, isBlank c = false) : EndsPlain t := fun c hc =>
  h c (List.mem_of_getLast? hc)

theorem endsPlain_concat (t : Text) (h : isBlank c = false) : EndsPlain (t ++ [c]) := by
  intro d hd
  rw [List.getLast?_concat] at hd
  rwa [← Option.some.inj hd]

theorem endsPlain_trim (t : Text) : EndsPlain (trim t) := by
  intro c h
  rw [trim, trimRight, List.getLast?_reverse] at h
  have := List.head?_dropWhile_not isBlank (trimLeft t).reverse
  rwa [h] at this

theorem trim_eq_self_of_ends (hh : ∀ c, t.head? = some c → isBlank c = false)
    (hl : EndsPlain t) : trim t = t := by
  have hleft : ∀ u : Text, (∀ c, u.head? = some c → isBlank c = false) → trimLeft u = u := by
    intro u hu
    cases u with
    | nil => rfl
    | cons c u => rw [trimLeft, List.dropWhile_cons_of_neg (by simp [hu c rfl])]
  have hr : trimLeft t.reverse = t.reverse := hleft _ (by simpa [EndsPlain] using hl)
  rw [trim, hleft t hh, trimRight, ← trimLeft, hr, List.reverse_reverse]

theorem join_singleton (separator t : Text) : join separator [t] = t := by
  simp [join, List.intercalate]

theorem join_cons_cons (separator t u : Text) (ts : List Text) :
    join separator (t :: u :: ts) = t ++ separator ++ join separator (u :: ts) :=
  List.intercalate_cons_cons

theorem join_cons (separator t : Text) (ts : List Text) :
    ∃ rest, join separator (t :: ts) = t ++ rest := by
  cases ts with
  | nil => exact ⟨[], by rw [join_singleton, List.append_nil]⟩
  | cons u ts => exact ⟨_, by rw [join_cons_cons, List.append_assoc]⟩

theorem join_concat (separator t : Text) (ts : List Text) :
    ∃ front, join separator (ts ++ [t]) = front ++ t := by
  induction ts with
  | nil => exact ⟨[], join_singleton separator t⟩
  | cons u ts ih =>
      obtain ⟨front, hf⟩ := ih
      cases ts with
      | nil =>
          refine ⟨u ++ separator, ?_⟩
          rw [List.cons_append, List.nil_append, join_cons_cons, join_singleton]
      | cons v ts =>
          refine ⟨u ++ separator ++ front, ?_⟩
          rw [List.cons_append, List.cons_append, join_cons_cons, ← List.cons_append, hf,
            List.append_assoc, List.append_assoc, List.append_assoc]

theorem join_append_of_ne_nil (h : ts ≠ []) (separator : Text) (front : List Text) :
    ∃ before, join separator (front ++ ts) = before ++ join separator ts := by
  induction front with
  | nil => exact ⟨[], rfl⟩
  | cons t front ih =>
      obtain ⟨before, hb⟩ := ih
      obtain ⟨u, us, hu⟩ := List.exists_cons_of_ne_nil (l := front ++ ts) (by simp [h])
      refine ⟨t ++ separator ++ before, ?_⟩
      rw [List.cons_append, hu, join_cons_cons, ← hu, hb]
      simp only [List.append_assoc]

theorem mem_join (h : c ∈ join separator ts) : c ∈ separator ∨ ∃ t ∈ ts, c ∈ t := by
  induction ts with
  | nil => cases h
  | cons t ts ih =>
      cases ts with
      | nil =>
          rw [join_singleton] at h
          exact Or.inr ⟨t, by simp, h⟩
      | cons u ts =>
          rw [join_cons_cons, List.append_assoc, List.mem_append, List.mem_append] at h
          rcases h with h | h | h
          · exact Or.inr ⟨t, by simp, h⟩
          · exact Or.inl h
          · rcases ih h with h | ⟨v, hv, hc⟩
            · exact Or.inl h
            · exact Or.inr ⟨v, List.mem_cons_of_mem _ hv, hc⟩

theorem mem_splitOnP {p : Char → Bool} (h : w ∈ t.splitOnP p) :
    ∀ c ∈ w, p c = false ∧ c ∈ t := by
  induction t generalizing w with
  | nil =>
      rw [List.splitOnP_nil, List.mem_singleton] at h
      subst h
      simp
  | cons d t ih =>
      rw [List.splitOnP_cons_eq_if_modifyHead] at h
      have hlater : ∀ v ∈ t.splitOnP p, ∀ c ∈ v, p c = false ∧ c ∈ d :: t := fun v hv c hc =>
        ⟨(ih hv c hc).1, List.mem_cons_of_mem _ (ih hv c hc).2⟩
      split at h
      · rcases List.mem_cons.mp h with rfl | h
        · simp
        · exact hlater w h
      · rename_i hd
        cases hs : t.splitOnP p with
        | nil => exact absurd hs (List.splitOnP_ne_nil p t)
        | cons v vs =>
            rw [hs, List.modifyHead_cons] at h
            rcases List.mem_cons.mp h with rfl | h
            · intro c hc
              rcases List.mem_cons.mp hc with rfl | hc
              · exact ⟨by simpa using hd, List.mem_cons_self⟩
              · exact hlater v (by simp [hs]) c hc
            · exact hlater w (by simp [hs, h])

theorem not_mem_of_mem_splitOn (h : w ∈ t.splitOn c) : c ∉ w := by
  rw [List.splitOn_eq_splitOnP] at h
  intro hc
  simpa using (mem_splitOnP h c hc).1

theorem mem_of_mem_splitOn {d : Char} (h : w ∈ t.splitOn c) (hd : d ∈ w) : d ∈ t := by
  rw [List.splitOn_eq_splitOnP] at h
  exact (mem_splitOnP h d hd).2

theorem append_join_cons (before separator t : Text) (ts : List Text) :
    before ++ join separator (t :: ts) = join separator ((before ++ t) :: ts) := by
  cases ts with
  | nil => rw [join_singleton, join_singleton]
  | cons u ts => simp only [join_cons_cons, List.append_assoc]

theorem splitOn_join (hca : c ∉ after) (ht : c ∉ t) (hts : ∀ u ∈ ts, c ∉ u) :
    (join (c :: after) (t :: ts)).splitOn c = t :: ts.map (after ++ ·) := by
  induction ts generalizing t with
  | nil => rw [join_singleton, List.splitOn_eq_singleton ht, List.map_nil]
  | cons u ts ih =>
      have hnext : c ∉ after ++ u := by simp [hca, hts u List.mem_cons_self]
      have hj : join (c :: after) (t :: u :: ts) =
          t ++ c :: join (c :: after) ((after ++ u) :: ts) := by
        rw [join_cons_cons, ← append_join_cons]
        simp
      rw [hj, List.splitOn_append_cons_self_of_not_mem ht,
        ih hnext fun v hv => hts v (List.mem_cons_of_mem _ hv), List.map_cons]

/-- White space around the marks goes with the texts, and is trimmed off them. -/
theorem map_trim_splitOn_join (hb : isBlankText before = true) (ha : isBlankText after = true)
    (hcb : c ∉ before) (hca : c ∉ after) (ht : c ∉ t) (hts : ∀ u ∈ ts, c ∉ u) :
    ((join (before ++ c :: after) (t :: ts)).splitOn c).map trim = (t :: ts).map trim := by
  induction ts generalizing t with
  | nil => rw [join_singleton, List.splitOn_eq_singleton ht]
  | cons u ts ih =>
      have hfirst : c ∉ t ++ before := by simp [ht, hcb]
      have hnext : c ∉ after ++ u := by simp [hca, hts u List.mem_cons_self]
      have hj : join (before ++ c :: after) (t :: u :: ts) =
          (t ++ before) ++ c :: join (before ++ c :: after) ((after ++ u) :: ts) := by
        rw [join_cons_cons, ← append_join_cons]
        simp
      rw [hj, List.splitOn_append_cons_self_of_not_mem hfirst, List.map_cons,
        ih hnext fun v hv => hts v (List.mem_cons_of_mem _ hv),
        trim_append_right_of_isBlankText hb, List.map_cons, trim_append_of_isBlankText ha,
        List.map_cons, List.map_cons]

theorem mem_words (h : w ∈ words t) : w ≠ [] ∧ ∀ c ∈ w, isBlank c = false ∧ c ∈ t := by
  obtain ⟨hw, hne⟩ := List.mem_filter.mp h
  exact ⟨by simpa using hne, mem_splitOnP hw⟩

theorem words_join (h : ∀ w ∈ ws, w ≠ [] ∧ ∀ c ∈ w, isBlank c = false) :
    words (join " " ws) = ws := by
  induction ws with
  | nil => rfl
  | cons w ws ih =>
      obtain ⟨hne, hw⟩ := h w List.mem_cons_self
      have hlater := ih fun v hv => h v (List.mem_cons_of_mem _ hv)
      cases ws with
      | nil => simp [join_singleton, words, List.splitOnP_eq_singleton hw, hne]
      | cons v ws =>
          have hs : join " " (w :: v :: ws) = w ++ ' ' :: join " " (v :: ws) := by
            rw [join_cons_cons, List.append_assoc]
            rfl
          rw [words] at hlater
          rw [hs, words, List.splitOnP_append_cons_of_forall_mem hw ' ' (by decide), List.filter_cons,
            hlater]
          simp [hne]

end DebianPackaging.Text
