import DebianPackaging.Proofs.Text.Split

namespace DebianPackaging.Text

variable {t u l : Text} {ls : List Text} {c : Char}

def EndsInLine (t : Text) : Prop :=
  ∀ c, t.getLast? = some c → isLineEnd c = false

theorem isBlank_of_isLineEnd (h : isLineEnd c = true) : isBlank c = true := by
  simp only [isLineEnd, isBlank, inRanges, lineEndRanges, blankRanges, List.any_cons, List.any_nil,
    Bool.or_false, Bool.or_eq_true, Bool.and_eq_true, decide_eq_true_eq] at h ⊢
  omega

theorem isLineEnd_of_isBlank (h : isBlank c = false) : isLineEnd c = false := by
  by_contra hc
  rw [isBlank_of_isLineEnd (by simpa using hc)] at h
  cases h

theorem EndsPlain.endsInLine (h : EndsPlain t) : EndsInLine t := fun c hc =>
  isLineEnd_of_isBlank (h c hc)

theorem lines_cons (h : isLineEnd c = false) (t : Text) :
    lines (c :: t) = (c :: (lines t).headD []) :: (lines t).tail := by
  have hr : c ≠ '\r' := by
    rintro rfl
    exact absurd h (by decide)
  rw [lines.eq_3 c t fun _ he _ => hr he, h, if_neg Bool.false_ne_true]
  cases lines t <;> rfl

theorem lines_lineFeed (t : Text) : lines ('\n' :: t) = [] :: lines t := by
  rw [lines.eq_3 '\n' t fun _ he _ => absurd he (by decide), if_pos (by decide)]

/-- A line goes on to the first line end of what follows it. -/
theorem lines_append (hne : t ≠ []) (ht : ∀ c ∈ t, isLineEnd c = false) (u : Text) :
    lines (t ++ u) = (t ++ (lines u).headD []) :: (lines u).tail := by
  induction t with
  | nil => exact absurd rfl hne
  | cons c t ih =>
      rw [List.cons_append, lines_cons (ht c List.mem_cons_self)]
      cases t with
      | nil => rfl
      | cons d t =>
          rw [ih (by simp) fun e he => ht e (List.mem_cons_of_mem _ he)]
          rfl

theorem lines_eq_singleton (hne : t ≠ []) (ht : ∀ c ∈ t, isLineEnd c = false) : lines t = [t] := by
  have h := lines_append hne ht []
  rw [List.append_nil] at h
  rw [h]
  simp [lines]

theorem mem_lines (h : l ∈ lines t) : ∀ c ∈ l, isLineEnd c = false ∧ c ∈ t := by
  fun_induction lines t generalizing l with
  | case1 => cases h
  | case2 rest ih =>
      rcases List.mem_cons.mp h with rfl | h
      · simp
      · exact fun c hc => ⟨(ih h c hc).1, by simp [(ih h c hc).2]⟩
  | case3 d rest _ _ ih =>
      rcases List.mem_cons.mp h with rfl | h
      · simp
      · exact fun c hc => ⟨(ih h c hc).1, by simp [(ih h c hc).2]⟩
  | case4 d rest _ hd hs =>
      rw [List.mem_singleton] at h
      subst h
      simpa using hd
  | case5 d rest _ hd line more hs ih =>
      rw [hs] at ih
      rcases List.mem_cons.mp h with rfl | h
      · intro c hc
        rcases List.mem_cons.mp hc with rfl | hc
        · exact ⟨by simpa using hd, List.mem_cons_self⟩
        · have hline := ih List.mem_cons_self c hc
          exact ⟨hline.1, List.mem_cons_of_mem _ hline.2⟩
      · intro c hc
        have hline := ih (List.mem_cons_of_mem _ h) c hc
        exact ⟨hline.1, List.mem_cons_of_mem _ hline.2⟩

theorem lines_ne_nil (h : t ≠ []) : lines t ≠ [] := by
  fun_cases lines t with
  | case1 => exact absurd rfl h
  | case2 => simp
  | case3 => simp
  | case4 => simp
  | case5 => simp

theorem EndsInLine.tail (h : EndsInLine (c :: t)) : EndsInLine t := by
  intro d hd
  apply h d
  rw [List.getLast?_cons, hd]
  rfl

theorem EndsInLine.ne_nil (h : EndsInLine (c :: t)) (hc : isLineEnd c = true) : t ≠ [] := by
  rintro rfl
  rw [h c rfl] at hc
  cases hc

theorem lines_append_lineFeed (hne : t ≠ []) (ht : EndsInLine t) (u : Text) :
    lines (t ++ '\n' :: u) = lines t ++ lines u := by
  fun_induction lines t with
  | case1 => exact absurd rfl hne
  | case2 rest ih =>
      have hrest : EndsInLine ('\n' :: rest) := ht.tail
      have hne' : rest ≠ [] := hrest.ne_nil (by decide)
      rw [List.cons_append, List.cons_append, lines, ih hne' hrest.tail, List.cons_append]
  | case3 d rest hpair hd ih =>
      have hne' : rest ≠ [] := ht.ne_nil hd
      have hpair' : ∀ r, d = '\r' → rest ++ '\n' :: u = '\n' :: r → False := by
        intro r he hr
        cases rest with
        | nil => exact hne' rfl
        | cons e rest => exact hpair rest he (by rw [(List.cons.inj hr).1])
      rw [List.cons_append, lines.eq_3 d _ hpair', if_pos hd, ih hne' ht.tail,
        List.cons_append]
  | case4 d rest _ hd hs =>
      have hrest : rest = [] := by
        by_contra hne'
        exact lines_ne_nil hne' hs
      subst hrest
      rw [List.cons_append, List.nil_append, lines_cons (by simpa using hd), lines_lineFeed]
      rfl
  | case5 d rest _ hd line more hs ih =>
      have hne' : rest ≠ [] := by
        rintro rfl
        cases hs
      rw [List.cons_append, lines_cons (by simpa using hd), ih hne' ht.tail, hs]
      rfl

/-- Whatever a text ends with, two line feeds end its last line and leave an empty one behind it. -/
theorem lines_append_emptyLine (t u : Text) : ∃ n,
    lines (t ++ '\n' :: '\n' :: u) = lines t ++ List.replicate (n + 1) [] ++ lines u := by
  have hfeeds : lines ('\n' :: '\n' :: u) = [] :: [] :: lines u := by
    rw [lines_lineFeed, lines_lineFeed]
  fun_induction lines t with
  | case1 => exact ⟨1, hfeeds⟩
  | case2 rest ih =>
      obtain ⟨n, hn⟩ := ih
      exact ⟨n, by rw [List.cons_append, List.cons_append, lines.eq_2, hn]; rfl⟩
  | case3 d rest hpair hd ih =>
      -- A carriage return at the end makes one line end with the first line feed.
      by_cases hreturn : d = '\r' ∧ rest = []
      · obtain ⟨rfl, rfl⟩ := hreturn
        exact ⟨0, by rw [List.cons_append, List.nil_append, lines.eq_2, lines_lineFeed]; rfl⟩
      · have hpair' : ∀ r, d = '\r' → rest ++ '\n' :: '\n' :: u = '\n' :: r → False := by
          intro r he hr
          cases rest with
          | nil => exact hreturn ⟨he, rfl⟩
          | cons e rest => exact hpair rest he (by rw [(List.cons.inj hr).1])
        obtain ⟨n, hn⟩ := ih
        exact ⟨n, by rw [List.cons_append, lines.eq_3 d _ hpair', if_pos hd, hn]; rfl⟩
  | case4 d rest _ hd hs =>
      have hrest : rest = [] := by
        by_contra hne
        exact lines_ne_nil hne hs
      subst hrest
      exact ⟨0, by rw [List.cons_append, List.nil_append, lines_cons (by simpa using hd), hfeeds]; rfl⟩
  | case5 d rest _ hd line more hs ih =>
      obtain ⟨n, hn⟩ := ih
      exact ⟨n, by rw [List.cons_append, lines_cons (by simpa using hd), hn, hs]; rfl⟩

def unlines (ls : List Text) : Text :=
  ls.flatMap (· ++ ['\n'])

theorem unlines_cons (l : Text) (ls : List Text) : unlines (l :: ls) = l ++ '\n' :: unlines ls := by
  simp [unlines]

theorem join_lineFeed (hne : ls ≠ []) : join "\n" ls ++ ['\n'] = unlines ls := by
  induction ls with
  | nil => exact absurd rfl hne
  | cons l ls ih =>
      cases ls with
      | nil => simp [join_singleton, unlines]
      | cons m ls =>
          rw [join_cons_cons, List.append_assoc, ih (by simp), unlines_cons l, List.append_assoc]
          rfl

/-- What is read of lines that hold more line ends: the lines that they hold. -/
theorem lines_unlines_append (h : ∀ l ∈ ls, l ≠ [] ∧ EndsInLine l) (u : Text) :
    lines (unlines ls ++ u) = ls.flatMap lines ++ lines u := by
  induction ls with
  | nil => rfl
  | cons l ls ih =>
      obtain ⟨hne, hl⟩ := h l List.mem_cons_self
      rw [unlines_cons, List.append_assoc, List.cons_append, lines_append_lineFeed hne hl,
        ih fun m hm => h m (List.mem_cons_of_mem _ hm), List.flatMap_cons, List.append_assoc]

theorem lines_unlines_append_of_lines (h : ∀ l ∈ ls, ∀ c ∈ l, isLineEnd c = false) (u : Text) :
    lines (unlines ls ++ u) = ls ++ lines u := by
  induction ls with
  | nil => rfl
  | cons l ls ih =>
      have hls := ih fun m hm => h m (List.mem_cons_of_mem _ hm)
      rw [unlines_cons, List.append_assoc, List.cons_append]
      by_cases hne : l = []
      · rw [hne, List.nil_append, lines_lineFeed, hls, List.cons_append]
      · have hl := h l List.mem_cons_self
        rw [lines_append_lineFeed hne fun c hc => hl c (List.mem_of_getLast? hc),
          lines_eq_singleton hne hl, hls, List.singleton_append, List.cons_append]

theorem lines_join (h : ∀ l ∈ ls, l ≠ [] ∧ ∀ c ∈ l, isLineEnd c = false) :
    lines (join "\n" ls) = ls := by
  induction ls with
  | nil => rfl
  | cons l ls ih =>
      obtain ⟨⟨hne, hl⟩, hls⟩ := List.forall_mem_cons.mp h
      cases ls with
      | nil => rw [join_singleton, lines_eq_singleton hne hl]
      | cons m ls =>
          have hends : EndsInLine l := fun c hc => hl c (List.mem_of_getLast? hc)
          have hj : join "\n" (l :: m :: ls) = l ++ '\n' :: join "\n" (m :: ls) := by
            rw [join_cons_cons, List.append_assoc]
            rfl
          rw [hj, lines_append_lineFeed hne hends, lines_eq_singleton hne hl, ih hls]
          rfl

/-- Line feeds split a text into its lines, and into an empty text after the last one. -/
theorem lines_prefix_splitOn (h : ∀ c ∈ t, isLineEnd c = true → c = '\n') :
    lines t <+: t.splitOn '\n' := by
  induction t with
  | nil => exact List.nil_prefix
  | cons c t ih =>
      have ih := ih fun d hd => h d (List.mem_cons_of_mem _ hd)
      obtain ⟨first, rest, hs⟩ := List.exists_cons_of_ne_nil (List.splitOn_ne_nil '\n' t)
      rw [List.splitOn_eq_splitOnP] at hs ih ⊢
      rw [List.splitOnP_cons_eq_if_modifyHead]
      by_cases hc : c = '\n'
      · subst hc
        rw [lines_lineFeed, if_pos (by decide)]
        exact List.cons_prefix_cons.mpr ⟨rfl, ih⟩
      · have hl : isLineEnd c = false := by
          by_contra he
          exact hc (h c List.mem_cons_self (by simpa using he))
        rw [lines_cons hl, if_neg (by simpa using hc), hs, List.modifyHead_cons]
        rw [hs] at ih
        cases ht : lines t with
        | nil =>
            have hnil : t = [] := by
              by_contra hne
              exact lines_ne_nil hne ht
            subst hnil
            simp_all
        | cons l ls =>
            rw [ht] at ih
            obtain ⟨rfl, hls⟩ := List.cons_prefix_cons.mp ih
            exact List.cons_prefix_cons.mpr ⟨rfl, hls⟩

end DebianPackaging.Text
