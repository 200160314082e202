import DebianPackaging.Proofs.Text.Trim

namespace DebianPackaging.Text

variable {t u l separator : Text} {ts before after : List Text} {c d : Char}

section Lists

variable {α β : Type}

theorem map_splitOnP (f : α → β) (p : β → Bool) (as : List α) :
    (as.splitOnP fun a => p (f a)).map (List.map f) = (as.map f).splitOnP p := by
  induction as with
  | nil => rfl
  | cons a as ih =>
      rw [List.map_cons, List.splitOnP_cons_eq_if_modifyHead, List.splitOnP_cons_eq_if_modifyHead,
        ← ih]
      split
      · rfl
      · cases as.splitOnP fun a => p (f a) <;> rfl

theorem flatten_splitOnP (p : α → Bool) (as : List α) :
    (as.splitOnP p).flatten = as.filter (!p ·) := by
  induction as with
  | nil => rfl
  | cons a as ih =>
      rw [List.splitOnP_cons_eq_if_modifyHead]
      by_cases ha : p a = true
      · rw [if_pos ha, List.flatten_cons, List.nil_append, ih, List.filter_cons_of_neg (by simp [ha])]
      · rw [if_neg ha, List.filter_cons_of_pos (by simp [ha]), ← ih]
        obtain ⟨first, rest, hs⟩ := List.exists_cons_of_ne_nil (List.splitOnP_ne_nil p as)
        rw [hs]
        rfl

end Lists

theorem join_append_cons (separator l : Text) (before after : List Text) :
    join separator (before ++ l :: after) =
      before.flatMap (· ++ separator) ++ l ++ after.flatMap (separator ++ ·) := by
  induction before with
  | nil =>
      induction after generalizing l with
      | nil => simp [join_singleton]
      | cons m after ih =>
          have hm := ih m
          rw [List.nil_append, List.flatMap_nil, List.nil_append] at hm ⊢
          rw [join_cons_cons, hm]
          simp
  | cons k before ih =>
      obtain ⟨m, rest, hm⟩ := List.exists_cons_of_ne_nil (l := before ++ l :: after) (by simp)
      rw [List.cons_append, hm, join_cons_cons, ← hm, ih]
      simp

theorem infix_join (h : t ∈ ts) (separator : Text) : t <:+: join separator ts := by
  obtain ⟨before, after, rfl⟩ := List.append_of_mem h
  rw [join_append_cons]
  exact List.infix_append _ _ _

theorem infix_of_mem_splitOn (h : l ∈ t.splitOn c) : l <:+: t := by
  have ht : join [c] (t.splitOn c) = t := List.intercalate_splitOn c
  rw [← ht]
  exact infix_join h [c]

theorem exists_flatMap_concat (hne : before ≠ []) (c : Char) :
    ∃ b, before.flatMap (· ++ [c]) = b ++ [c] := by
  obtain ⟨front, l, rfl⟩ := (List.eq_nil_or_concat' before).resolve_left hne
  exact ⟨front.flatMap (· ++ [c]) ++ l, by simp⟩

theorem flatMap_cons_eq (after : List Text) (c : Char) :
    after.flatMap ([c] ++ ·) = [] ∨ ∃ a, after.flatMap ([c] ++ ·) = c :: a := by
  cases after with
  | nil => exact Or.inl rfl
  | cons l after => exact Or.inr ⟨l ++ after.flatMap ([c] ++ ·), by simp⟩

/-- A piece stands between two marks, or at an end of the text. -/
theorem exists_of_mem_splitOn (h : l ∈ t.splitOn c) : ∃ before after, t = before ++ l ++ after ∧
    (before = [] ∨ ∃ b, before = b ++ [c]) ∧ (after = [] ∨ ∃ a, after = c :: a) := by
  have ht : join [c] (t.splitOn c) = t := List.intercalate_splitOn c
  obtain ⟨before, after, hs⟩ := List.append_of_mem h
  rw [hs, join_append_cons] at ht
  refine ⟨_, _, ht.symm, ?_, flatMap_cons_eq after c⟩
  by_cases hne : before = []
  · exact Or.inl (by rw [hne, List.flatMap_nil])
  · exact Or.inr (exists_flatMap_concat hne c)

theorem exists_of_mem_tail_splitOn (h : l ∈ (t.splitOn c).tail) : ∃ before after,
    t = before ++ [c] ++ l ++ after ∧ (after = [] ∨ ∃ a, after = c :: a) := by
  have ht : join [c] (t.splitOn c) = t := List.intercalate_splitOn c
  obtain ⟨first, rest, hs⟩ := List.exists_cons_of_ne_nil (List.splitOn_ne_nil c t)
  rw [hs, List.tail_cons] at h
  obtain ⟨before, after, rfl⟩ := List.append_of_mem h
  obtain ⟨b, hb⟩ := exists_flatMap_concat (List.cons_ne_nil first before) c
  rw [hs, ← List.cons_append, join_append_cons, hb] at ht
  exact ⟨b, _, ht.symm, flatMap_cons_eq after c⟩

theorem exists_concat_mem_splitOn (h : c ≠ d) (t : Text) :
    ∃ l, l ++ [c] ∈ (t ++ [c]).splitOn d := by
  induction t with
  | nil =>
      have hd : d ∉ [c] := by simpa using h.symm
      exact ⟨[], by simp [List.splitOn_eq_singleton hd]⟩
  | cons e t ih =>
      obtain ⟨l, hl⟩ := ih
      rw [List.splitOn_eq_splitOnP] at hl
      rw [List.splitOn_eq_splitOnP, List.cons_append, List.splitOnP_cons_eq_if_modifyHead]
      split
      · exact ⟨l, List.mem_cons_of_mem _ hl⟩
      · obtain ⟨first, rest, hs⟩ := List.exists_cons_of_ne_nil
          (List.splitOnP_ne_nil (· == d) (t ++ [c]))
        rw [hs] at hl ⊢
        rcases List.mem_cons.mp hl with rfl | hl
        · exact ⟨e :: l, List.mem_cons_self⟩
        · exact ⟨l, List.mem_cons_of_mem _ hl⟩

theorem splitOn_append_cons (t u : Text) (c : Char) :
    (t ++ c :: u).splitOn c = t.splitOn c ++ u.splitOn c := by
  simp only [List.splitOn_eq_splitOnP]
  exact List.splitOnP_append_cons t u (by simp)

theorem mem_tail_splitOn (hl : c ∉ l) (t u : Text) (hu : u = [] ∨ ∃ a, u = c :: a) :
    l ∈ ((t ++ c :: l ++ u).splitOn c).tail := by
  have hmem : l ∈ (l ++ u).splitOn c := by
    rcases hu with rfl | ⟨a, rfl⟩
    · rw [List.append_nil, List.splitOn_eq_singleton hl]
      exact List.mem_cons_self
    · rw [splitOn_append_cons, List.splitOn_eq_singleton hl]
      exact List.mem_cons_self
  rw [List.append_assoc, List.cons_append, splitOn_append_cons,
    List.tail_append_of_ne_nil (List.splitOn_ne_nil c t)]
  exact List.mem_append_right _ hmem

section Count

theorem count_trim_le (t : Text) (c : Char) : (trim t).count c ≤ t.count c :=
  (infix_trim t).sublist.count_le c

theorem count_join (hc : c ∉ separator) (ts : List Text) :
    (join separator ts).count c = (ts.map (List.count c)).sum := by
  induction ts with
  | nil => rfl
  | cons t ts ih =>
      cases ts with
      | nil => simp [join_singleton]
      | cons u ts =>
          simp only [join_cons_cons, List.count_append, List.count_eq_zero.mpr hc, ih,
            List.map_cons, List.sum_cons, Nat.add_zero]

theorem count_eq_sum_splitOn (h : c ≠ d) (t : Text) :
    t.count d = ((t.splitOn c).map (List.count d)).sum := by
  have ht : join [c] (t.splitOn c) = t := List.intercalate_splitOn c
  have hd : d ∉ [c] := by simpa using h.symm
  rw [← count_join hd, ht]

end Count

end DebianPackaging.Text
