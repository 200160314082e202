import DebianPackaging.Proofs.Text.Split

namespace DebianPackaging.Text

variable {separator t u : Text} {ts ls : List Text} {c : Char}

def StartsPlain (t : Text) : Prop :=
  ∀ c, t.head? = some c → isBlank c = false

theorem startsPlain_cons (h : isBlank c = false) (t : Text) : StartsPlain (c :: t) := by
  rintro d hd
  rwa [← Option.some.inj hd]

theorem StartsPlain.append (hne : t ≠ []) (h : StartsPlain t) (u : Text) : StartsPlain (t ++ u) := by
  cases t with
  | nil => exact absurd rfl hne
  | cons c t => exact startsPlain_cons (h c rfl) (t ++ u)

theorem prefix_trimRight (t : Text) : trimRight t <+: t := by
  obtain ⟨front, hf⟩ := List.dropWhile_suffix isBlank (l := t.reverse)
  exact ⟨front.reverse, by rw [trimRight, ← List.reverse_append, hf, List.reverse_reverse]⟩

theorem infix_trim (t : Text) : trim t <:+: t :=
  (prefix_trimRight _).isInfix.trans (List.dropWhile_suffix isBlank).isInfix

theorem trim_eq_nil_of_isBlankText (h : isBlankText t = true) : trim t = [] := by
  rw [← List.append_nil t, trim_append_of_isBlankText h]
  rfl

theorem exists_trim (t : Text) : ∃ before after, isBlankText before = true ∧
    isBlankText after = true ∧ t = before ++ trim t ++ after := by
  have hblank : ∀ t : Text, isBlankText (t.takeWhile isBlank) = true := fun t =>
    List.all_eq_true.mpr fun c hc => List.mem_takeWhile_imp hc
  have hright : ∀ t : Text, t = trimRight t ++ (t.reverse.takeWhile isBlank).reverse := by
    intro t
    rw [trimRight, ← List.reverse_append, List.takeWhile_append_dropWhile, List.reverse_reverse]
  refine ⟨t.takeWhile isBlank, ((trimLeft t).reverse.takeWhile isBlank).reverse, hblank t, ?_, ?_⟩
  · rw [isBlankText, List.all_reverse]
    exact hblank _
  · rw [List.append_assoc, trim, ← hright, trimLeft, List.takeWhile_append_dropWhile]

theorem mem_trim_of_mem (h : c ∈ t) : isBlank c = true ∨ c ∈ trim t := by
  obtain ⟨before, after, hbefore, hafter, ht⟩ := exists_trim t
  rw [ht, List.mem_append, List.mem_append] at h
  rcases h with (h | h) | h
  · exact Or.inl (List.all_eq_true.mp hbefore c h)
  · exact Or.inr h
  · exact Or.inl (List.all_eq_true.mp hafter c h)

theorem startsPlain_trimLeft (t : Text) : StartsPlain (trimLeft t) := by
  intro c hc
  rw [trimLeft] at hc
  have := List.head?_dropWhile_not isBlank t
  rwa [hc] at this

theorem startsPlain_trim (t : Text) : StartsPlain (trim t) := by
  intro c hc
  obtain ⟨rest, hr⟩ := prefix_trimRight (trimLeft t)
  apply startsPlain_trimLeft t c
  rw [← hr, List.head?_append]
  exact Option.or_eq_some_iff.mpr (Or.inl hc)

theorem trim_eq_self_iff : trim t = t ↔ StartsPlain t ∧ EndsPlain t := by
  constructor
  · intro h
    exact ⟨h ▸ startsPlain_trim t, h ▸ endsPlain_trim t⟩
  · rintro ⟨hs, he⟩
    exact trim_eq_self_of_ends hs he

theorem trim_trim (t : Text) : trim (trim t) = trim t :=
  trim_eq_self_iff.mpr ⟨startsPlain_trim t, endsPlain_trim t⟩

theorem trim_space (t : Text) : trim (' ' :: t) = trim t := by
  have h : isBlankText [' '] = true := by decide
  exact trim_append_of_isBlankText h

theorem trimLeft_of_startsPlain (h : StartsPlain t) : trimLeft t = t := by
  cases t with
  | nil => rfl
  | cons c t => rw [trimLeft, List.dropWhile_cons_of_neg (by simp [h c rfl])]

theorem trimRight_of_endsPlain (h : EndsPlain t) : trimRight t = t := by
  have hr : trimLeft t.reverse = t.reverse :=
    trimLeft_of_startsPlain fun c hc => h c (by simpa using hc)
  rw [trimRight, ← trimLeft, hr, List.reverse_reverse]

theorem endsPlain_append (hne : u ≠ []) (h : EndsPlain u) (t : Text) : EndsPlain (t ++ u) := by
  intro c hc
  rw [List.getLast?_append_of_ne_nil t hne] at hc
  exact h c hc

theorem trimRight_append_cons (h : isBlank c = false) (t u : Text) :
    trimRight (t ++ c :: u) = t ++ c :: trimRight u := by
  rw [trimRight, trimRight, List.reverse_append, List.reverse_cons, List.append_assoc,
    List.dropWhile_append]
  split
  · rename_i hu
    rw [List.isEmpty_iff.mp hu, List.singleton_append, List.dropWhile_cons_of_neg (by simp [h])]
    simp
  · simp

theorem join_append_singleton (separator t : Text) (hne : ts ≠ []) :
    join separator (ts ++ [t]) = join separator ts ++ separator ++ t := by
  induction ts with
  | nil => exact absurd rfl hne
  | cons u ts ih =>
      cases ts with
      | nil => rw [List.singleton_append, join_cons_cons, join_singleton, join_singleton]
      | cons v ts =>
          rw [List.cons_append, List.cons_append, join_cons_cons, join_cons_cons,
            ← List.cons_append, ih (by simp)]
          simp only [List.append_assoc]

theorem trimLeft_join_lines (h : ∀ l ∈ ls, StartsPlain l) :
    trimLeft (join "\n" ls) = join "\n" (ls.dropWhile (·.isEmpty)) := by
  induction ls with
  | nil => rfl
  | cons l ls ih =>
      have hls := ih fun m hm => h m (List.mem_cons_of_mem _ hm)
      cases l with
      | nil =>
          rw [List.dropWhile_cons_of_pos rfl, ← hls]
          cases ls with
          | nil => rfl
          | cons m ls =>
              rw [join_cons_cons, List.nil_append]
              exact trimLeft_append_of_isBlankText (by decide)
      | cons c l =>
          obtain ⟨rest, hr⟩ := join_cons "\n" (c :: l) ls
          rw [List.dropWhile_cons_of_neg (by simp), hr]
          exact trimLeft_of_startsPlain (startsPlain_cons (h _ List.mem_cons_self c rfl) _)

theorem trimRight_join_lines (h : ∀ l ∈ ls, EndsPlain l) :
    trimRight (join "\n" ls) = join "\n" (ls.rdropWhile (·.isEmpty)) := by
  induction ls using List.reverseRecOn with
  | nil => rfl
  | append_singleton ls l ih =>
      have hls := ih fun m hm => h m (List.mem_append_left _ hm)
      have hl : EndsPlain l := h l (by simp)
      by_cases hne : l = []
      · subst hne
        rw [List.rdropWhile_concat_pos _ _ _ rfl, ← hls]
        by_cases hnil : ls = []
        · subst hnil
          rfl
        · rw [join_append_singleton _ _ hnil, List.append_nil]
          exact trimRight_append_of_isBlankText (by decide)
      · obtain ⟨front, hf⟩ := join_concat "\n" l ls
        rw [List.rdropWhile_concat_neg _ _ _ (by simpa using hne), hf]
        exact trimRight_of_endsPlain (endsPlain_append hne hl front)

/-- Empty lines at both ends are trimmed off. -/
theorem trim_join_lines (h : ∀ l ∈ ls, trim l = l) :
    trim (join "\n" ls) =
      join "\n" ((ls.dropWhile (·.isEmpty)).rdropWhile (·.isEmpty)) := by
  rw [trim, trimLeft_join_lines fun l hl => (trim_eq_self_iff.mp (h l hl)).1]
  apply trimRight_join_lines
  intro l hl
  exact (trim_eq_self_iff.mp (h l ((List.dropWhile_suffix _).subset hl))).2

end DebianPackaging.Text
