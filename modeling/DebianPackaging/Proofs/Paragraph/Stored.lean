import DebianPackaging.Proofs.Paragraph.RoundTrip

namespace DebianPackaging.Paragraph

open Text Outcome

variable {t u separator value : Text} {ts : List Text}

/-- What no stored value holds: other line ends, white space beside a line feed, and a lone dot between
line feeds. -/
inductive NeverStored : Text → Prop
  | lineEnd (c : Char) (h : isLineEnd c = true) (hn : c ≠ '\n') : NeverStored [c]
  | before (c : Char) (h : isBlank c = true) (hn : c ≠ '\n') : NeverStored [c, '\n']
  | after (c : Char) (h : isBlank c = true) (hn : c ≠ '\n') : NeverStored ['\n', c]
  | dot : NeverStored ['\n', '.', '\n']

/-- A text that may stand inside a stored value. -/
def IsStorable (t : Text) : Prop :=
  ∀ w, w <:+: t → ¬NeverStored w

theorem IsStorable.within (h : IsStorable u) (ht : t <:+: u) : IsStorable t := fun w hw =>
  h w (hw.trans ht)

/-- A seam without a line feed on either side makes nothing that is lost. -/
theorem IsStorable.append (ht : IsStorable t) (hu : IsStorable u) (hl : t.getLast? ≠ some '\n')
    (hh : u.head? ≠ some '\n') : IsStorable (t ++ u) := by
  intro w hw hw'
  rcases List.infix_append_iff.mp hw with hw | hw | ⟨a, b, rfl, ⟨front, rfl⟩, ⟨back, rfl⟩⟩
  · exact ht w hw hw'
  · exact hu w hw hw'
  by_cases ha : a = []
  · subst ha
    exact hu b (List.prefix_append b back).isInfix hw'
  by_cases hb : b = []
  · subst hb
    rw [List.append_nil] at hw'
    exact ht a (List.suffix_append front a).isInfix hw'
  -- A text across the seam has two characters at least, and no line feed beside the seam.
  rw [List.getLast?_append_of_ne_nil front ha] at hl
  rw [List.head?_append_of_ne_nil b hb] at hh
  obtain ⟨x, a, rfl⟩ := List.exists_cons_of_ne_nil ha
  obtain ⟨y, b, rfl⟩ := List.exists_cons_of_ne_nil hb
  generalize hab : x :: a ++ y :: b = w at hw'
  cases hw' with
  | lineEnd => simp at hab
  | before => simp_all [List.append_eq_cons_iff]
  | after => simp_all [List.append_eq_cons_iff]
  | dot =>
      cases a with
      | nil => simp_all
      | cons z a => simp_all [List.append_eq_cons_iff]

theorem isStorable_of_line (h : ∀ c ∈ t, isLineEnd c = false) : IsStorable t := by
  intro w hw hu
  have hchars : ∀ c ∈ w, isLineEnd c = false := fun c hc => h c (hw.subset hc)
  cases hu with
  | lineEnd c hc hn => simp [hc] at hchars
  | before c hc hn => exact absurd (hchars '\n' (by simp)) (by decide)
  | after c hc hn => exact absurd (hchars '\n' (by simp)) (by decide)
  | dot => exact absurd (hchars '\n' (by simp)) (by decide)

section Lines

theorem IsStored.isStorable (h : IsStored value) : IsStorable value := by
  rintro w ⟨before, after, rfl⟩ hw
  cases hw with
  | lineEnd c hc hn => exact hn (h.lineFeeds c (by simp) hc)
  | before c hc hn =>
      obtain ⟨l, hl⟩ := exists_concat_mem_splitOn hn before
      have hmem : l ++ [c] ∈ (before ++ [c, '\n'] ++ after).splitOn '\n' := by
        have he : before ++ [c, '\n'] ++ after = (before ++ [c]) ++ '\n' :: after := by simp
        rw [he, splitOn_append_cons]
        exact List.mem_append_left _ hl
      have hends := (trim_eq_self_iff.mp (h.lines _ hmem)).2 c (by simp)
      rw [hc] at hends
      cases hends
  | after c hc hn =>
      obtain ⟨l, hl⟩ : ∃ l, c :: l ∈ (c :: after).splitOn '\n' := by
        obtain ⟨first, rest, hs⟩ := List.exists_cons_of_ne_nil (List.splitOn_ne_nil '\n' after)
        refine ⟨first, ?_⟩
        rw [List.splitOn_eq_splitOnP] at hs ⊢
        rw [List.splitOnP_cons_eq_if_modifyHead, if_neg (by simpa using hn), hs]
        exact List.mem_cons_self
      have hmem : c :: l ∈ (before ++ ['\n', c] ++ after).splitOn '\n' := by
        have he : before ++ ['\n', c] ++ after = before ++ '\n' :: c :: after := by simp
        rw [he, splitOn_append_cons]
        exact List.mem_append_right _ hl
      have hstarts := (trim_eq_self_iff.mp (h.lines _ hmem)).1 c rfl
      rw [hc] at hstarts
      cases hstarts
  | dot =>
      have hfeed : '\n' ∉ ['.'] := by decide
      have hm := mem_tail_splitOn hfeed before ('\n' :: after) (Or.inr ⟨after, rfl⟩)
      exact h.dots (by simpa using hm)

/-- Beside what may stand inside, a stored value has nothing to trim or to undot at its ends. -/
theorem isStored_iff : IsStored value ↔
    IsStorable value ∧ trim value = value ∧ ¬['\n', '.'] <:+ value := by
  constructor
  · intro h
    refine ⟨h.isStorable, h.trimmed, ?_⟩
    rintro ⟨before, rfl⟩
    have hfeed : '\n' ∉ ['.'] := by decide
    have hm := mem_tail_splitOn hfeed before [] (Or.inl rfl)
    exact h.dots (by simpa using hm)
  · rintro ⟨he, ht, hd⟩
    obtain ⟨hstart, hend⟩ := trim_eq_self_iff.mp ht
    -- A line meets a line feed or an end of the text on either side.
    refine ⟨fun c hc hl => ?_, ht, fun l hl => ?_, fun hm => ?_⟩
    · by_contra hn
      obtain ⟨before, after, rfl⟩ := List.append_of_mem hc
      exact he [c] ⟨before, after, by simp⟩ (.lineEnd c hl hn)
    · obtain ⟨before, after, rfl, hb, ha⟩ := exists_of_mem_splitOn hl
      have hfeed := not_mem_of_mem_splitOn hl
      refine trim_eq_self_iff.mpr ⟨fun c hc => ?_, fun c hc => ?_⟩
      · obtain ⟨l, rfl⟩ := List.head?_eq_some_iff.mp hc
        rcases hb with rfl | ⟨b, rfl⟩
        · exact hstart c rfl
        · by_contra hblank
          have hn : c ≠ '\n' := fun hn => hfeed (hn ▸ List.mem_cons_self)
          refine he ['\n', c] ⟨b, l ++ after, by simp⟩ (.after c (by simpa using hblank) hn)
      · obtain ⟨l, rfl⟩ := List.getLast?_eq_some_iff.mp hc
        rcases ha with rfl | ⟨a, rfl⟩
        · exact hend c (by simp)
        · by_contra hblank
          have hn : c ≠ '\n' := fun hn => hfeed (by simp [hn])
          refine he [c, '\n'] ⟨before ++ l, a, by simp⟩ (.before c (by simpa using hblank) hn)
    · obtain ⟨before, after, rfl, ha⟩ := exists_of_mem_tail_splitOn hm
      rcases ha with rfl | ⟨a, rfl⟩
      · exact hd ⟨before, by simp⟩
      · exact he ['\n', '.', '\n'] ⟨before, a, by simp⟩ .dot

theorem IsStorable.hasOnlyLineFeeds (h : IsStorable t) : HasOnlyLineFeeds t := by
  intro c hc hl
  by_contra hn
  obtain ⟨before, after, rfl⟩ := List.append_of_mem hc
  exact h [c] ⟨before, after, by simp⟩ (.lineEnd c hl hn)

theorem isStored_of_no_dot (ht : trim t = t) (hb : ∀ c ∈ t, isBlank c = true → c = '\n')
    (hd : '.' ∉ t) : IsStored t := by
  refine isStored_iff.mpr ⟨fun w hw hu => ?_, ht, fun hs => hd (hs.subset (by simp))⟩
  have hchars : ∀ c ∈ w, isBlank c = true → c = '\n' := fun c hc => hb c (hw.subset hc)
  cases hu with
  | lineEnd c hc hn => exact hn (hchars c (by simp) (isBlank_of_isLineEnd hc))
  | before c hc hn => exact hn (hchars c (by simp) hc)
  | after c hc hn => exact hn (hchars c (by simp) hc)
  | dot => exact hd (hw.subset (by simp))

theorem isStored_of_line (ht : trim t = t) (hl : ∀ c ∈ t, isLineEnd c = false) : IsStored t := by
  refine isStored_iff.mpr ⟨isStorable_of_line hl, ht, fun hs => ?_⟩
  exact absurd (hl '\n' (hs.subset (by simp))) (by decide)

theorem isStored_of_word (h : ∀ c ∈ t, isBlank c = false) : IsStored t :=
  isStored_of_line (trim_eq_self h) fun c hc => isLineEnd_of_isBlank (h c hc)

end Lines

section Join

/-- A text that may also stand at an end of one, or be joined to others. -/
structure IsPiece (t : Text) : Prop where
  ne_nil : t ≠ []
  trimmed : trim t = t
  storable : IsStorable t

theorem isPiece_of_word (hne : t ≠ []) (h : ∀ c ∈ t, isBlank c = false) : IsPiece t :=
  ⟨hne, trim_eq_self h, isStorable_of_line fun c hc => isLineEnd_of_isBlank (h c hc)⟩

theorem IsPiece.head? (h : IsPiece t) : t.head? ≠ some '\n' := fun hh =>
  absurd ((trim_eq_self_iff.mp h.trimmed).1 _ hh) (by decide)

theorem IsPiece.getLast? (h : IsPiece t) : t.getLast? ≠ some '\n' := fun hl =>
  absurd ((trim_eq_self_iff.mp h.trimmed).2 _ hl) (by decide)

theorem IsPiece.append (ht : IsPiece t) (hu : IsPiece u) (hs : ∀ c ∈ separator, isLineEnd c = false) :
    IsPiece (t ++ separator ++ u) := by
  have hfeed : '\n' ∉ separator := fun hm => absurd (hs _ hm) (by decide)
  have hstorable : IsStorable (t ++ separator) :=
    ht.storable.append (isStorable_of_line hs) ht.getLast? fun hh => hfeed (List.mem_of_head? hh)
  have hlast : (t ++ separator).getLast? ≠ some '\n' := by
    rw [List.getLast?_append, Ne, Option.or_eq_some_iff, not_or]
    exact ⟨fun hl => hfeed (List.mem_of_getLast? hl), fun hl => ht.getLast? hl.2⟩
  obtain ⟨hstart, -⟩ := trim_eq_self_iff.mp ht.trimmed
  obtain ⟨-, hend⟩ := trim_eq_self_iff.mp hu.trimmed
  refine ⟨by simp [ht.ne_nil], trim_eq_self_iff.mpr ⟨?_, endsPlain_append hu.ne_nil hend _⟩,
    hstorable.append hu.storable hlast hu.head?⟩
  rw [List.append_assoc]
  exact hstart.append ht.ne_nil _

theorem isPiece_join (hne : ts ≠ []) (h : ∀ t ∈ ts, IsPiece t)
    (hs : ∀ c ∈ separator, isLineEnd c = false) : IsPiece (join separator ts) := by
  induction ts with
  | nil => exact absurd rfl hne
  | cons t ts ih =>
      obtain ⟨ht, hts⟩ := List.forall_mem_cons.mp h
      cases ts with
      | nil =>
          rw [join_singleton]
          exact ht
      | cons u ts =>
          rw [join_cons_cons]
          exact ht.append (ih (by simp) hts) hs

/-- A lone dot at the end of a joined text is one at the end of the last part. -/
theorem dot_suffix_append_iff (hu : u ≠ []) (ht : t.getLast? ≠ some '\n') :
    ['\n', '.'] <:+ t ++ u ↔ ['\n', '.'] <:+ u := by
  refine ⟨fun h => ?_, fun h => List.suffix_append_of_suffix h⟩
  obtain ⟨u, x, rfl⟩ := (List.eq_nil_or_concat' u).resolve_left hu
  rw [← List.append_assoc, List.suffix_concat_iff] at h
  obtain ⟨feed, hx, hfeed⟩ := h.resolve_left (by simp)
  obtain ⟨rfl, rfl⟩ : ['\n'] = feed ∧ '.' = x := List.append_singleton_inj.mp hx
  rcases List.eq_nil_or_concat' u with rfl | ⟨u, y, rfl⟩
  · rw [List.append_nil] at hfeed
    obtain ⟨front, rfl⟩ := hfeed
    exact absurd List.getLast?_concat ht
  · rw [← List.append_assoc, List.suffix_concat_iff] at hfeed
    obtain ⟨front, hy, -⟩ := hfeed.resolve_left (by simp)
    obtain ⟨rfl, rfl⟩ : [] = front ∧ '\n' = y := List.append_singleton_inj.mp hy
    exact ⟨u, by simp⟩

theorem dot_suffix_join_iff (hts : ∀ t ∈ ts, t ≠ []) (hne : separator ≠ [])
    (hs : '\n' ∉ separator) : ['\n', '.'] <:+ join separator ts ↔
      ∃ t, ts.getLast? = some t ∧ ['\n', '.'] <:+ t := by
  rcases List.eq_nil_or_concat' ts with rfl | ⟨ts, t, rfl⟩
  · simp [join]
  · have hend : ['\n', '.'] <:+ join separator (ts ++ [t]) ↔ ['\n', '.'] <:+ t := by
      by_cases hnil : ts = []
      · rw [hnil, List.nil_append, join_singleton]
      · rw [join_append_singleton _ _ hnil]
        refine dot_suffix_append_iff (hts t (by simp)) fun hl => hs ?_
        rw [List.getLast?_append_of_ne_nil _ hne] at hl
        exact List.mem_of_getLast? hl
    simp [hend]

/-- Parts of which only the last one might end in a lone dot are joined to a stored value. -/
theorem isStored_join_iff (h : ∀ t ∈ ts, IsPiece t) (hne : separator ≠ [])
    (hs : ∀ c ∈ separator, isLineEnd c = false) : IsStored (join separator ts) ↔
      ∀ t, ts.getLast? = some t → ¬['\n', '.'] <:+ t := by
  have hfeed : '\n' ∉ separator := fun hm => absurd (hs _ hm) (by decide)
  have hdot := dot_suffix_join_iff (fun t ht => (h t ht).ne_nil) hne hfeed
  rw [isStored_iff, hdot]
  by_cases hts : ts = []
  · simp [hts, join, trim_eq_self, isStorable_of_line]
  · have hp := isPiece_join hts h hs
    simp [hp.trimmed, hp.storable]

end Join

section Count

theorem count_continuation_le (l : Text) (c : Char) : (continuation l).count c ≤ l.count c := by
  rw [continuation]
  split
  · simp
  · exact count_trim_le l c

theorem count_stored_lt (ht : trim value = value) (hd : ['.'] ∈ (value.splitOn '\n').tail) :
    (stored value).count '.' < value.count '.' := by
  have hvalue : '\n' ≠ '.' := by decide
  rw [count_eq_sum_splitOn hvalue value, stored, ht]
  cases hs : value.splitOn '\n' with
  | nil => exact absurd hs (List.splitOn_ne_nil _ _)
  | cons first rest =>
      rw [hs] at hd
      have hrest : ((rest.map continuation).map (List.count '.')).sum <
          (rest.map (List.count '.')).sum := by
        rw [List.map_map]
        exact List.sum_lt_sum _ _ (fun l _ => count_continuation_le l '.') ⟨['.'], hd, by decide⟩
      refine (count_trim_le _ _).trans_lt ?_
      rw [count_join (by decide), List.map_cons, List.map_cons, List.sum_cons, List.sum_cons]
      exact Nat.add_lt_add_of_le_of_lt (count_trim_le first '.') hrest

end Count

end DebianPackaging.Paragraph
