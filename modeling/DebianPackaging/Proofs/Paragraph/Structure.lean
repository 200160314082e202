import DebianPackaging.Proofs.Paragraph.Writing

namespace DebianPackaging.Paragraph

open Text Outcome

variable {t l name first : Text} {ls ms : List Text} {f : Field} {fields : List Field}
  {p q : Paragraph} {o : OpenField} {out : Text}

theorem exists_cons_of_isWritableName (hw : isWritableName name = true) :
    ∃ c rest, name = c :: rest ∧ isBlank c = false ∧ c ≠ '#' := by
  obtain ⟨hne, hh, -, hb⟩ := isWritableName_iff.mp hw
  obtain ⟨c, rest, rfl⟩ := List.exists_cons_of_ne_nil hne
  exact ⟨c, rest, rfl, hb c List.mem_cons_self, by simpa using hh⟩

theorem isContinuation_cons {c : Char} (h : isBlank c = false) (t : Text) :
    isContinuation (c :: t) = false := by
  have hs : c ≠ ' ' := by
    rintro rfl
    cases h
  have ht : c ≠ '\t' := by
    rintro rfl
    cases h
  simp [isContinuation, hs, ht]

theorem isBlankText_cons {c : Char} (h : isBlank c = false) (t : Text) :
    isBlankText (c :: t) = false := by
  simp [isBlankText, h]

section HeaderLine

theorem isContinuation_headerLine (hw : isWritableName name = true) (first : Text) :
    isContinuation (headerLine name first) = false := by
  obtain ⟨c, rest, rfl, hc, -⟩ := exists_cons_of_isWritableName hw
  exact isContinuation_cons hc _

theorem isQuiet_headerLine (hw : isWritableName name = true) (first : Text) :
    isQuiet (headerLine name first) = false := by
  obtain ⟨c, rest, rfl, hc, hh⟩ := exists_cons_of_isWritableName hw
  rw [isQuiet, headerLine, List.cons_append, isBlankText_cons hc]
  simpa [isComment] using hh

theorem readField?_headerLine (hw : isWritableName name = true) (first : Text) :
    readField? (headerLine name first) = some ⟨name, [trim first]⟩ := by
  obtain ⟨hne, -, hcolon, hb⟩ := isWritableName_iff.mp hw
  have ht : trim (if first = [] then [] else ' ' :: first) = trim first := by
    split
    · rename_i h
      rw [h]
    · exact trim_space first
  have hany : name.any isBlank = false := by simpa using hb
  rw [readField?, headerLine, cut_append hcolon]
  simp [trim_eq_self hb, hne, hany, ht]

theorem lines_headerLine (hw : isWritableName name = true) (hf : StartsPlain first) :
    lines (headerLine name first) =
      headerLine name ((lines first).headD []) :: (lines first).tail := by
  obtain ⟨-, -, -, hb⟩ := isWritableName_iff.mp hw
  have hname : ∀ c ∈ name ++ [':'], isLineEnd c = false := by
    intro c hc
    apply isLineEnd_of_isBlank
    rcases List.mem_append.mp hc with hc | hc
    · exact hb c hc
    · rw [List.mem_singleton.mp hc]
      decide
  have h := lines_append (by simp) hname (if first = [] then [] else ' ' :: first)
  rw [List.append_assoc, List.singleton_append] at h
  rw [headerLine, h, headerLine]
  cases first with
  | nil => simp [lines]
  | cons c first =>
      have hc := lines_cons (isLineEnd_of_isBlank (hf c rfl)) first
      rw [if_neg (by simp), lines_cons (by decide), hc]
      simp

end HeaderLine

section FoldedLine

theorem isQuiet_folded (h : isBlankText t = false) : isQuiet (' ' :: t) = false := by
  rw [isBlankText] at h
  rw [isQuiet, isBlankText, List.all_cons, h, Bool.and_false]
  rfl

theorem headD_lines_ne_blank (hne : t ≠ []) (ht : StartsPlain t) :
    isBlankText ((lines t).headD []) = false := by
  obtain ⟨c, rest, rfl⟩ := List.exists_cons_of_ne_nil hne
  rw [lines_cons (isLineEnd_of_isBlank (ht c rfl))]
  exact isBlankText_cons (ht c rfl) _

/-- A folded line is read as a continuation and the lines that begin inside it. -/
theorem lines_foldedLine (l : Text) :
    ∃ t, lines (foldedLine l) = (' ' :: t) :: (lines (trim l)).tail ∧ isBlankText t = false := by
  rw [foldedLine, lines_cons (by decide)]
  split
  · rename_i h
    rw [List.isEmpty_iff.mp h]
    exact ⟨['.'], by decide, by decide⟩
  · rename_i h
    exact ⟨_, rfl, headD_lines_ne_blank (by simpa using h) (startsPlain_trim l)⟩

end FoldedLine

/-- The lines that begin inside a value, at line ends other than line feeds. -/
def strayLines (value : Text) : List Text :=
  ((trim value).splitOn '\n').flatMap fun l => (lines (trim l)).tail

def startsField (l : Text) : Bool :=
  !isQuiet l && !isContinuation l

/-- The values of the fields keep to the lines of these fields. -/
structure IsContained (fields : List Field) : Prop where
  strays : ∀ f ∈ fields, ∀ l ∈ strayLines f.value, isQuiet l = true ∨ isContinuation l = true
  blanks : ∀ l ∈ ((writtenLines fields).flatMap lines).dropWhile (!isBlankText ·),
    isQuiet l = true

theorem isContained_iff : IsContained fields ↔
    (∀ f ∈ fields, ∀ l ∈ strayLines f.value, isQuiet l = true ∨ isContinuation l = true) ∧
      ∀ l ∈ ((writtenLines fields).flatMap lines).dropWhile (!isBlankText ·), isQuiet l = true :=
  ⟨fun h => ⟨h.strays, h.blanks⟩, fun h => ⟨h.1, h.2⟩⟩

instance (fields : List Field) : Decidable (IsContained fields) :=
  decidable_of_iff _ isContained_iff.symm

/-- Apart from stray lines, the first line of a field is the only one that starts a field. -/
theorem lines_fieldLines (hw : isWritableName f.name = true) :
    ∃ first more, (fieldLines f).flatMap lines = headerLine f.name first :: more ∧
      more.filter startsField = (strayLines f.value).filter startsField := by
  obtain ⟨first, rest, hs, hf⟩ := exists_fieldLines f
  rw [hf, List.flatMap_cons, lines_headerLine hw (startsPlain_trim first)]
  refine ⟨_, _, List.cons_append, ?_⟩
  rw [strayLines, hs, List.flatMap_cons, List.filter_append, List.filter_append, List.flatMap_map,
    List.filter_flatMap, List.filter_flatMap]
  refine congrArg (_ ++ ·) (congrArg (rest.flatMap ·) (funext fun l => ?_))
  obtain ⟨t, hl, ht⟩ := lines_foldedLine l
  rw [hl, List.filter_cons_of_neg (by simp [startsField, isContinuation])]

theorem filter_startsField_fieldLines (hw : isWritableName f.name = true) :
    ∃ first, ((fieldLines f).flatMap lines).filter startsField =
      headerLine f.name first :: (strayLines f.value).filter startsField := by
  obtain ⟨first, more, hl, hm⟩ := lines_fieldLines hw
  refine ⟨first, ?_⟩
  rw [hl, List.filter_cons_of_pos, hm]
  simp [startsField, isQuiet_headerLine hw, isContinuation_headerLine hw]

theorem length_filter_startsField (hw : ∀ f ∈ fields, isWritableName f.name = true) :
    (((writtenLines fields).flatMap lines).filter startsField).length =
      fields.length + ((fields.flatMap (strayLines ·.value)).filter startsField).length := by
  induction fields with
  | nil => rfl
  | cons f fields ih =>
      obtain ⟨hf, hfields⟩ := List.forall_mem_cons.mp hw
      obtain ⟨first, h⟩ := filter_startsField_fieldLines hf
      have ih := ih hfields
      rw [writtenLines] at ih ⊢
      rw [List.flatMap_cons, List.flatMap_append, List.filter_append, h, List.length_append, ih,
        List.flatMap_cons, List.filter_append, List.length_append, List.length_cons,
        List.length_cons]
      omega

section Counting

theorem OpenLines.length_filter (h : OpenLines ls o) :
    (ls.filter (!isContinuation ·)).length = 1 := by
  induction h with
  | header l f hl => simp [hl]
  | more ls l f _ hl ih => simp [hl, ih]

/-- There are as many fields as lines that continue none. -/
theorem ParagraphLines.length_filter (h : ParagraphLines ls p) :
    (ls.filter (!isContinuation ·)).length = p.fields.length := by
  obtain ⟨pieces, rfl, hp⟩ := h
  generalize p.fields = fields at hp
  induction hp with
  | nil => rfl
  | cons hf _ ih =>
      obtain ⟨o, ho, -⟩ := hf
      rw [List.flatten_cons, List.filter_append, List.length_append, ho.length_filter, ih,
        List.length_cons, Nat.add_comm]

end Counting

theorem OpenLines.append (h : OpenLines ls o) (hm : ∀ l ∈ ms, isContinuation l = true) :
    OpenLines (ls ++ ms) ⟨o.name, (ms.map continuation).reverse ++ o.lines⟩ := by
  induction ms generalizing ls o with
  | nil => rwa [List.append_nil]
  | cons m ms ih =>
      obtain ⟨hm, hms⟩ := List.forall_mem_cons.mp hm
      have h := ih (h.more _ m _ hm) hms
      rw [List.append_assoc] at h
      simpa using h

theorem fieldLines_of_header (hw : isWritableName name = true) (first : Text)
    (hm : ∀ l ∈ ms, isContinuation l = true) :
    FieldLines (headerLine name first :: ms)
      ⟨name, trim (join "\n" (trim first :: ms.map continuation))⟩ := by
  have h := OpenLines.header _ _ (isContinuation_headerLine hw first) (readField?_headerLine hw first)
  refine ⟨_, h.append hm, ?_⟩
  simp [OpenField.close]

theorem exists_fieldLines_filter (hw : isWritableName f.name = true)
    (hs : ∀ l ∈ strayLines f.value, isQuiet l = true ∨ isContinuation l = true) :
    ∃ g : Field, g.name = f.name ∧
      FieldLines (((fieldLines f).flatMap lines).filter (!isQuiet ·)) g := by
  obtain ⟨first, more, hl, hm⟩ := lines_fieldLines hw
  have hmore : ∀ l ∈ more.filter (!isQuiet ·), isContinuation l = true := by
    intro l hl
    obtain ⟨hmem, hq⟩ := List.mem_filter.mp hl
    by_contra hc
    have hstart : startsField l = true := by
      rw [startsField, hq]
      simpa using hc
    have hstray : l ∈ (strayLines f.value).filter startsField :=
      hm ▸ List.mem_filter.mpr ⟨hmem, hstart⟩
    rcases hs l (List.mem_filter.mp hstray).1 with h | h
    · simp [h] at hq
    · exact hc h
  rw [hl, List.filter_cons_of_pos (by simp [isQuiet_headerLine hw])]
  refine ⟨_, ?_, fieldLines_of_header hw first hmore⟩
  rfl

theorem exists_lines_cons (hne : fields ≠ []) (hw : ∀ f ∈ fields, isWritableName f.name = true) :
    ∃ l ls, (writtenLines fields).flatMap lines = l :: ls ∧ isQuiet l = false := by
  obtain ⟨f, fields, rfl⟩ := List.exists_cons_of_ne_nil hne
  have hf := hw f List.mem_cons_self
  obtain ⟨first, more, h, -⟩ := lines_fieldLines hf
  refine ⟨headerLine f.name first, more ++ (writtenLines fields).flatMap lines, ?_,
    isQuiet_headerLine hf first⟩
  rw [writtenLines, List.flatMap_cons, List.flatMap_append, h, List.cons_append, writtenLines]

theorem isContained_of_block {block : List Text} (hne : p.fields ≠ [])
    (hw : ∀ f ∈ p.fields, isWritableName f.name = true)
    (hb : textBlocks ((writtenLines p.fields).flatMap lines) = [block])
    (hq : ParagraphLines block q) (hn : q.names = p.names) : IsContained p.fields := by
  obtain ⟨l, ls, hl, hquiet⟩ := exists_lines_cons hne hw
  rw [hl, textBlocks_eq_singleton_iff hquiet, ← hl] at hb
  obtain ⟨rfl, hblanks⟩ := hb
  refine ⟨fun f hf m hm => ?_, hblanks⟩
  have hlength : q.fields.length = p.fields.length := by
    simpa [names] using congrArg List.length hn
  -- As many lines start a field as there are fields, so that none of them is a stray one.
  have hcount := hq.length_filter
  rw [List.filter_filter, hlength] at hcount
  have hstart := length_filter_startsField hw
  have hstarts : startsField = fun l => !isContinuation l && !isQuiet l :=
    funext fun l => Bool.and_comm _ _
  rw [hstarts, hcount, Nat.left_eq_add, List.length_eq_zero_iff, List.filter_eq_nil_iff] at hstart
  have hm := hstart m (List.mem_flatMap_of_mem hf hm)
  simp only [Bool.and_eq_true, Bool.not_eq_true', not_and, Bool.not_eq_false] at hm
  by_cases hc : isContinuation m = true
  · exact Or.inr hc
  · exact Or.inl (hm (by simpa using hc))

theorem exists_fields_filter (hw : ∀ f ∈ fields, isWritableName f.name = true)
    (hs : ∀ f ∈ fields, ∀ l ∈ strayLines f.value, isQuiet l = true ∨ isContinuation l = true) :
    ∃ gs : List Field, gs.map Field.name = fields.map Field.name ∧
      List.Forall₂ FieldLines
        (fields.map fun f => ((fieldLines f).flatMap lines).filter (!isQuiet ·)) gs := by
  induction fields with
  | nil => exact ⟨[], rfl, .nil⟩
  | cons f fields ih =>
      obtain ⟨hf, hfields⟩ := List.forall_mem_cons.mp hw
      obtain ⟨hsf, hsfields⟩ := List.forall_mem_cons.mp hs
      obtain ⟨g, hg, hlines⟩ := exists_fieldLines_filter hf hsf
      obtain ⟨gs, hgs, hmore⟩ := ih hfields hsfields
      exact ⟨g :: gs, by rw [List.map_cons, hg, hgs, List.map_cons], .cons hlines hmore⟩

theorem exists_block_of_isContained (hne : p.fields ≠ [])
    (hw : ∀ f ∈ p.fields, isWritableName f.name = true) (h : IsContained p.fields) :
    ∃ block q, textBlocks ((writtenLines p.fields).flatMap lines) = [block] ∧
      ParagraphLines block q ∧ q.names = p.names := by
  obtain ⟨l, ls, hl, hquiet⟩ := exists_lines_cons hne hw
  obtain ⟨gs, hgs, hlines⟩ := exists_fields_filter hw h.strays
  have hkeys : gs.map Field.key = p.fields.map Field.key := by
    have h := congrArg (List.map lower) hgs
    rw [List.map_map, List.map_map] at h
    exact h
  refine ⟨_, ⟨gs, hkeys ▸ p.distinct⟩, ?_, ⟨_, rfl, hlines⟩, hgs⟩
  rw [hl, textBlocks_eq_singleton_iff hquiet, ← hl]
  refine ⟨?_, h.blanks⟩
  rw [writtenLines, List.flatMap_assoc, List.filter_flatMap, List.flatMap_def]

section

variable {α β γ : Type} {R : β → γ → Prop} {g : α → List β} {as : List α} {cs : List γ}

theorem length_le_flatMap (hg : ∀ a ∈ as, g a ≠ []) : as.length ≤ (as.flatMap g).length := by
  induction as with
  | nil => simp
  | cons a as ih =>
      have ha := List.length_pos_of_ne_nil (hg a List.mem_cons_self)
      have has := ih fun a' ha' => hg a' (List.mem_cons_of_mem _ ha')
      rw [List.flatMap_cons, List.length_append, List.length_cons]
      omega

theorem forall₂_of_flatMap (h : List.Forall₂ R (as.flatMap g) cs) (hg : ∀ a ∈ as, g a ≠ [])
    (hl : cs.length = as.length) :
    List.Forall₂ (fun a c => ∃ b, g a = [b] ∧ R b c) as cs := by
  induction as generalizing cs with
  | nil => rw [List.eq_nil_of_length_eq_zero hl, List.forall₂_nil_left_iff]
  | cons a as ih =>
      obtain ⟨ha, has⟩ := List.forall_mem_cons.mp hg
      obtain ⟨b, bs, hb⟩ := List.exists_cons_of_ne_nil ha
      rw [List.flatMap_cons, hb, List.cons_append, List.forall₂_cons_left_iff] at h
      obtain ⟨c, cs, hbc, h, rfl⟩ := h
      have hlength := h.length_eq
      have hle := length_le_flatMap has
      rw [List.length_cons, List.length_cons, Nat.add_right_cancel_iff] at hl
      rw [List.length_append, hl] at hlength
      have hbs : bs = [] := List.eq_nil_of_length_eq_zero (by omega)
      subst hbs
      exact .cons ⟨b, hb, hbc⟩ (ih h has hl)

end

section LineFeeds

def HasOnlyLineFeeds (value : Text) : Prop :=
  ∀ c ∈ value, isLineEnd c = true → c = '\n'

theorem HasOnlyLineFeeds.of_mem_splitOn (h : HasOnlyLineFeeds t) (hl : l ∈ (trim t).splitOn '\n') :
    ∀ c ∈ trim l, isLineEnd c = false := by
  intro c hc
  have hc := mem_of_mem_trim hc
  by_contra he
  have hfeed := h c (mem_of_mem_trim (mem_of_mem_splitOn hl hc)) (by simpa using he)
  exact not_mem_of_mem_splitOn hl (hfeed ▸ hc)

theorem isContinuation_foldedLine (l : Text) : isContinuation (foldedLine l) = true := rfl

theorem isQuiet_foldedLine (l : Text) : isQuiet (foldedLine l) = false := by
  apply isQuiet_folded
  split
  · decide
  · rename_i h
    obtain ⟨c, rest, hl⟩ := List.exists_cons_of_ne_nil (fun hnil => h (List.isEmpty_iff.mpr hnil))
    rw [hl]
    exact isBlankText_cons (startsPlain_trim l c (by rw [hl]; rfl)) rest

theorem isQuiet_of_mem_fieldLines (hw : isWritableName f.name = true) (hl : l ∈ fieldLines f) :
    isQuiet l = false := by
  obtain ⟨first, rest, -, hf⟩ := exists_fieldLines f
  rw [hf] at hl
  rcases List.mem_cons.mp hl with rfl | hl
  · exact isQuiet_headerLine hw _
  · obtain ⟨line, -, rfl⟩ := List.mem_map.mp hl
    exact isQuiet_foldedLine line

theorem isQuiet_of_mem_writtenLines (hw : ∀ f ∈ fields, isWritableName f.name = true)
    (hl : l ∈ writtenLines fields) : isQuiet l = false := by
  obtain ⟨f, hf, hl⟩ := List.mem_flatMap.mp hl
  exact isQuiet_of_mem_fieldLines (hw f hf) hl

theorem lines_of_mem_fieldLines (hw : isWritableName f.name = true) (h : HasOnlyLineFeeds f.value)
    (hl : l ∈ fieldLines f) : lines l = [l] := by
  obtain ⟨-, -, -, hb⟩ := isWritableName_iff.mp hw
  refine lines_eq_singleton (mem_fieldLines hl).1 fun c hc => ?_
  obtain ⟨first, rest, hs, hf⟩ := exists_fieldLines f
  have hvalue : ∀ line ∈ first :: rest, ∀ c ∈ trim line, isLineEnd c = false := fun line hm =>
    h.of_mem_splitOn (hs ▸ hm)
  rw [hf] at hl
  rcases List.mem_cons.mp hl with rfl | hl
  · rw [headerLine, List.mem_append, List.mem_cons] at hc
    rcases hc with hc | rfl | hc
    · exact isLineEnd_of_isBlank (hb c hc)
    · decide
    · split at hc
      · cases hc
      · rcases List.mem_cons.mp hc with rfl | hc
        · decide
        · exact hvalue first List.mem_cons_self c hc
  · obtain ⟨line, hline, rfl⟩ := List.mem_map.mp hl
    rcases List.mem_cons.mp hc with rfl | hc
    · decide
    · split at hc
      · rw [List.mem_singleton.mp hc]
        decide
      · exact hvalue line (List.mem_cons_of_mem _ hline) c hc

/-- Values whose only line ends are line feeds are read in the lines in which they are written. -/
theorem flatMap_lines_fieldLines (hw : isWritableName f.name = true)
    (h : HasOnlyLineFeeds f.value) : (fieldLines f).flatMap lines = fieldLines f := by
  rw [List.flatMap_congr fun l hl => lines_of_mem_fieldLines hw h hl, List.flatMap_singleton']

theorem flatMap_lines_writtenLines (hw : ∀ f ∈ fields, isWritableName f.name = true)
    (h : ∀ f ∈ fields, HasOnlyLineFeeds f.value) :
    (writtenLines fields).flatMap lines = writtenLines fields := by
  rw [writtenLines, List.flatMap_assoc]
  exact List.flatMap_congr fun f hf => flatMap_lines_fieldLines (hw f hf) (h f hf)

theorem strayLines_eq_nil (h : HasOnlyLineFeeds t) : strayLines t = [] := by
  rw [strayLines, List.flatMap_eq_nil_iff]
  intro l hl
  have hchars := h.of_mem_splitOn hl
  cases ht : trim l with
  | nil => rfl
  | cons c rest => rw [← ht, lines_eq_singleton (by simp [ht]) hchars, List.tail_cons]

theorem isContained_of_lineFeeds (hw : ∀ f ∈ fields, isWritableName f.name = true)
    (h : ∀ f ∈ fields, HasOnlyLineFeeds f.value) : IsContained fields := by
  constructor
  · intro f hf l hl
    rw [strayLines_eq_nil (h f hf)] at hl
    cases hl
  · have hdrop : (writtenLines fields).dropWhile (!isBlankText ·) = [] := by
      rw [List.dropWhile_eq_nil_iff]
      intro l hl
      have hquiet := isQuiet_of_mem_writtenLines hw hl
      rw [isQuiet, Bool.or_eq_false_iff] at hquiet
      simp [hquiet.2]
    rw [flatMap_lines_writtenLines hw h, hdrop]
    simp

end LineFeeds

section Paragraphs

variable {ps qs : List Paragraph}

theorem textBlocks_writtenLines_ne_nil (hne : fields ≠ [])
    (hw : ∀ f ∈ fields, isWritableName f.name = true) :
    textBlocks ((writtenLines fields).flatMap lines) ≠ [] := by
  obtain ⟨l, ls, hl, hquiet⟩ := exists_lines_cons hne hw
  rw [hl, Ne, textBlocks_eq_nil_iff]
  intro hall
  rw [hall l List.mem_cons_self] at hquiet
  cases hquiet

theorem isContained_of_blocks
    (h : List.Forall₂ (fun (p q : Paragraph) => ∃ block,
      textBlocks ((writtenLines p.fields).flatMap lines) = [block] ∧ ParagraphLines block q) ps qs)
    (hne : ∀ p ∈ ps, p.fields ≠ []) (hw : ∀ p ∈ ps, ∀ f ∈ p.fields, isWritableName f.name = true)
    (hn : qs.map names = ps.map names) : ∀ p ∈ ps, IsContained p.fields := by
  induction h with
  | nil => simp
  | cons hp _ ih =>
      obtain ⟨block, hb, hq⟩ := hp
      obtain ⟨hnep, hneps⟩ := List.forall_mem_cons.mp hne
      obtain ⟨hwp, hwps⟩ := List.forall_mem_cons.mp hw
      rw [List.map_cons, List.map_cons, List.cons_eq_cons] at hn
      exact List.forall_mem_cons.mpr
        ⟨isContained_of_block hnep hwp hb hq hn.1, ih hneps hwps hn.2⟩

theorem exists_blocks_of_isContained (hne : ∀ p ∈ ps, p.fields ≠ [])
    (hw : ∀ p ∈ ps, ∀ f ∈ p.fields, isWritableName f.name = true)
    (hc : ∀ p ∈ ps, IsContained p.fields) :
    ∃ qs, List.Forall₂ ParagraphLines
      (ps.flatMap fun p => textBlocks ((writtenLines p.fields).flatMap lines)) qs ∧
      qs.map names = ps.map names := by
  induction ps with
  | nil => exact ⟨[], .nil, rfl⟩
  | cons p ps ih =>
      obtain ⟨hnep, hneps⟩ := List.forall_mem_cons.mp hne
      obtain ⟨hwp, hwps⟩ := List.forall_mem_cons.mp hw
      obtain ⟨hcp, hcps⟩ := List.forall_mem_cons.mp hc
      obtain ⟨block, q, hb, hq, hn⟩ := exists_block_of_isContained hnep hwp hcp
      obtain ⟨qs, hqs, hns⟩ := ih hneps hwps hcps
      refine ⟨q :: qs, ?_, by rw [List.map_cons, hn, hns, List.map_cons]⟩
      rw [List.flatMap_cons, hb]
      exact .cons hq hqs

end Paragraphs

/-- What is written is read as paragraphs with the same names exactly when the values of every
paragraph keep to its fields, as values do whose only line ends are line feeds. -/
theorem readAll_writeAll_names_iff (ps : List Paragraph) (out : Text)
    (hne : ∀ p ∈ ps, p.fields ≠ []) (h : writeAll (ps.map Paragraph.fields) = .ok out) :
    ((∃ qs, readAll out = .ok qs ∧ qs.map names = ps.map names) ↔
      ∀ p ∈ ps, IsContained p.fields) ∧
      ∀ p ∈ ps, (∀ f ∈ p.fields, HasOnlyLineFeeds f.value) → IsContained p.fields := by
  obtain ⟨hw, -⟩ := (writeAll_eq_ok_iff hne).mp h
  simp only [readAll_eq_ok_iff, textBlocks_writeAll hne h]
  refine ⟨⟨?_, ?_⟩, fun p hp => isContained_of_lineFeeds (hw p hp)⟩
  · rintro ⟨qs, hread, hnames⟩
    have hlength : qs.length = ps.length := by simpa using congrArg List.length hnames
    have hblocks : ∀ p ∈ ps, textBlocks ((writtenLines p.fields).flatMap lines) ≠ [] := fun p hp =>
      textBlocks_writtenLines_ne_nil (hne p hp) (hw p hp)
    exact isContained_of_blocks (forall₂_of_flatMap hread hblocks hlength) hne hw hnames
  · intro hc
    exact exists_blocks_of_isContained hne hw hc

def containedSample : List Paragraph :=
  [⟨[⟨"A", "x\r#y\x0b z\n\nB: w"⟩, ⟨"b", "\u2028.\n."⟩], by cbv; decide⟩,
    ⟨[⟨"A", "x\r\r#y"⟩], by cbv; decide⟩]

theorem readAll_writeAll_names_iff_comment :
    ∃ out qs, writeAll (containedSample.map Paragraph.fields) = .ok out ∧ readAll out = .ok qs ∧
      qs.map names = [["A".toList, "b".toList], ["A".toList]] := by
  have hne : ∀ p ∈ containedSample, p.fields ≠ [] := by simp [containedSample]
  have hw : writeAll (containedSample.map Paragraph.fields) =
      .ok "A: x\r#y\x0b z\n .\n B: w\nb: .\n .\n\nA: x\r\r#y\n".toList := by cbv
  have hc : ∀ p ∈ containedSample, IsContained p.fields := by decide +kernel
  obtain ⟨qs, hq, hn⟩ := (readAll_writeAll_names_iff containedSample _ hne hw).1.mpr hc
  exact ⟨_, qs, hw, hq, hn⟩

/-- A value that is not folded at a carriage return adds a field. -/
theorem readAll_writeAll_forged_field :
    ¬∀ (ps : List Paragraph) (out : Text), (∀ p ∈ ps, p.fields ≠ []) →
      writeAll (ps.map Paragraph.fields) = .ok out →
      ∃ qs, readAll out = .ok qs ∧ qs.map names = ps.map names := by
  intro h
  let p : Paragraph := ⟨[⟨"A", "x\rB: y"⟩], by cbv; decide⟩
  obtain ⟨qs, hq, hn⟩ := h [p] "A: x\rB: y\n" (by simp [p]) (by cbv)
  have hr : (readAll "A: x\rB: y\n").map (·.map names) = .ok [["A".toList, "B".toList]] := by cbv
  rw [hq] at hr
  have hforged : [p].map names = [["A".toList, "B".toList]] := hn ▸ Except.ok.inj hr
  exact absurd hforged (by decide)

end DebianPackaging.Paragraph
