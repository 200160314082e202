import DebianPackaging.Paragraph.Reader
import DebianPackaging.Proofs.Outcome
import DebianPackaging.Proofs.Text.Lines
import DebianPackaging.Proofs.Text.Pieces

namespace DebianPackaging.Paragraph

open Text Outcome

variable {t l : Text} {ls ms : List Text} {fields : List Field} {p : Paragraph}
  {ps : List Paragraph} {f : OpenField} {read read' : List OpenField}
  {block : List (Text × Nat)} {pieces : List (List Text)}

theorem firstRepeat?_eq_none {seen : List Text} (hd : (fields.map Field.key).Nodup)
    (hs : ∀ f ∈ fields, f.key ∉ seen) : firstRepeat? seen fields = none := by
  induction fields generalizing seen with
  | nil => rfl
  | cons f fields ih =>
      rw [List.map_cons, List.nodup_cons] at hd
      rw [firstRepeat?, if_neg (by simpa using hs f List.mem_cons_self)]
      refine ih hd.2 fun g hg => ?_
      rw [List.mem_cons, not_or]
      refine ⟨fun he => hd.1 (he ▸ List.mem_map_of_mem hg), ?_⟩
      exact hs g (List.mem_cons_of_mem _ hg)

theorem ofFields_eq_ok_iff : ofFields fields = .ok p ↔ p.fields = fields := by
  unfold ofFields
  split
  · rename_i f hf
    constructor
    · intro h
      cases h
    · rintro rfl
      rw [firstRepeat?_eq_none p.distinct (by simp)] at hf
      cases hf
  · constructor
    · intro h
      cases h
      rfl
    · rintro rfl
      rfl

def isQuiet (line : Text) : Bool :=
  isComment line || isBlankText line

def textBlocks (ls : List Text) : List (List Text) :=
  ((ls.filter (!isComment ·)).splitOnP isBlankText).filter (!·.isEmpty)

theorem map_fst_blocks (t : Text) : (blocks t).map (List.map Prod.fst) = textBlocks (lines t) := by
  have hlines : (((lines t).zipIdx 1).filter (!isComment ·.1)).map Prod.fst =
      (lines t).filter (!isComment ·) := by
    have h := List.filter_map (f := Prod.fst) (p := (!isComment ·)) (l := (lines t).zipIdx 1)
    rw [List.zipIdx_map_fst] at h
    exact h.symm
  rw [textBlocks, ← hlines, ← map_splitOnP, List.filter_map]
  refine congrArg (List.map _) (List.filter_congr fun block _ => ?_)
  simp

theorem isComment_of_isBlankText (h : isBlankText l = true) : isComment l = false := by
  cases l with
  | nil => rfl
  | cons c l =>
      rw [isBlankText, List.all_cons, Bool.and_eq_true] at h
      have hc : c ≠ '#' := by
        rintro rfl
        exact absurd h.1 (by decide)
      simpa [isComment] using hc

theorem textBlocks_append_blank (h : isBlankText l = true) (ls ms : List Text) :
    textBlocks (ls ++ l :: ms) = textBlocks ls ++ textBlocks ms := by
  have hf : (ls ++ l :: ms).filter (!isComment ·) =
      ls.filter (!isComment ·) ++ l :: ms.filter (!isComment ·) := by
    rw [List.filter_append, List.filter_cons_of_pos (by simp [isComment_of_isBlankText h])]
  rw [textBlocks, hf, List.splitOnP_append_cons _ _ h, List.filter_append]
  rfl

theorem flatten_textBlocks (ls : List Text) : (textBlocks ls).flatten = ls.filter (!isQuiet ·) := by
  rw [textBlocks, List.flatten_filter_not_isEmpty, flatten_splitOnP, List.filter_filter]
  exact List.filter_congr fun l _ => by rw [isQuiet, Bool.not_or, Bool.and_comm]

theorem textBlocks_eq_nil_iff {ls : List Text} :
    textBlocks ls = [] ↔ ∀ l ∈ ls, isQuiet l = true := by
  have hf := flatten_textBlocks ls
  constructor
  · intro h
    rw [h, List.flatten_nil, eq_comm, List.filter_eq_nil_iff] at hf
    simpa using hf
  · intro h
    rw [List.filter_eq_nil_iff.mpr (by simpa using h), List.flatten_eq_nil_iff] at hf
    rw [List.eq_nil_iff_forall_not_mem]
    intro block hb
    have hne := (List.mem_filter.mp hb).2
    rw [hf block hb] at hne
    cases hne

theorem textBlocks_of_not_blank {ls : List Text} (h : ∀ l ∈ ls, isBlankText l = false)
    (hne : ls.filter (!isQuiet ·) ≠ []) : textBlocks ls = [ls.filter (!isQuiet ·)] := by
  have hf : ls.filter (!isComment ·) = ls.filter (!isQuiet ·) :=
    List.filter_congr fun l hl => by rw [isQuiet, h l hl, Bool.or_false]
  have hs : (ls.filter (!isQuiet ·)).splitOnP isBlankText = [ls.filter (!isQuiet ·)] :=
    List.splitOnP_eq_singleton fun l hl => h l (List.mem_filter.mp hl).1
  rw [textBlocks, hf, hs, List.filter_cons_of_pos (by simpa using hne), List.filter_nil]

theorem textBlocks_of_forall {ls : List Text} (hne : ls ≠ []) (h : ∀ l ∈ ls, isQuiet l = false) :
    textBlocks ls = [ls] := by
  have hf : ls.filter (!isQuiet ·) = ls := List.filter_eq_self.mpr fun l hl => by simp [h l hl]
  have hblank : ∀ l ∈ ls, isBlankText l = false := fun l hl => (Bool.or_eq_false_iff.mp (h l hl)).2
  rw [textBlocks_of_not_blank hblank (by rwa [hf]), hf]

/-- One block stays in one piece if only comments and blank lines come after a blank line. -/
theorem textBlocks_eq_singleton_iff {ls block : List Text} (h : isQuiet l = false) :
    textBlocks (l :: ls) = [block] ↔ (l :: ls).filter (!isQuiet ·) = block ∧
      ∀ m ∈ (l :: ls).dropWhile (!isBlankText ·), isQuiet m = true := by
  have hl : isBlankText l = false := by
    rw [isQuiet, Bool.or_eq_false_iff] at h
    exact h.2
  have hsplit := List.takeWhile_append_dropWhile (p := (!isBlankText ·)) (l := l :: ls)
  have hfront : textBlocks ((l :: ls).takeWhile (!isBlankText ·)) =
      [((l :: ls).takeWhile (!isBlankText ·)).filter (!isQuiet ·)] := by
    apply textBlocks_of_not_blank
    · intro m hm
      simpa using List.mem_takeWhile_imp hm
    · rw [List.takeWhile_cons_of_pos (by simp [hl]), List.filter_cons_of_pos (by simp [h])]
      simp
  generalize (l :: ls).takeWhile (!isBlankText ·) = front at hsplit hfront
  cases hback : (l :: ls).dropWhile (!isBlankText ·) with
  | nil =>
      rw [hback, List.append_nil] at hsplit
      rw [← hsplit, hfront]
      simp
  | cons b back =>
      have hb : isBlankText b = true := by
        have := List.head?_dropWhile_not (!isBlankText ·) (l :: ls)
        rw [hback] at this
        simpa using this
      have hq : isQuiet b = true := by simp [isQuiet, hb]
      have hrest : textBlocks back = [] → (b :: back).filter (!isQuiet ·) = [] := fun hnil => by
        rw [List.filter_cons_of_neg (by simp [hq]), ← flatten_textBlocks, hnil, List.flatten_nil]
      rw [← hsplit, hback, textBlocks_append_blank hb, hfront, List.filter_append,
        List.forall_mem_cons, ← textBlocks_eq_nil_iff, List.singleton_append, List.cons_eq_cons]
      constructor
      · rintro ⟨rfl, hnil⟩
        exact ⟨by rw [hrest hnil, List.append_nil], hq, hnil⟩
      · rintro ⟨rfl, -, hnil⟩
        exact ⟨by rw [hrest hnil, List.append_nil], hnil⟩

/-- The lines from which a field is read: the one that names it, and those that continue it. -/
inductive OpenLines : List Text → OpenField → Prop
  | header (l : Text) (f : OpenField) (hl : isContinuation l = false)
      (hf : readField? l = some f) : OpenLines [l] f
  | more (ls : List Text) (l : Text) (f : OpenField) (h : OpenLines ls f)
      (hl : isContinuation l = true) : OpenLines (ls ++ [l]) ⟨f.name, continuation l :: f.lines⟩

def FieldLines (ls : List Text) (f : Field) : Prop :=
  ∃ o, OpenLines ls o ∧ o.close = f

def ParagraphLines (ls : List Text) (p : Paragraph) : Prop :=
  ∃ pieces, pieces.flatten = ls ∧ List.Forall₂ FieldLines pieces p.fields

theorem readLine_eq_ok_iff {line : Text × Nat} :
    readLine read line = .ok read' ↔
      (isContinuation line.1 = true ∧ ∃ f fs, read = f :: fs ∧
        read' = ⟨f.name, continuation line.1 :: f.lines⟩ :: fs) ∨
      (isContinuation line.1 = false ∧ ∃ f, readField? line.1 = some f ∧ read' = f :: read) := by
  unfold readLine
  cases hc : isContinuation line.1 with
  | true =>
      cases read with
      | nil => simp
      | cons f fs => simp [eq_comm]
  | false =>
      cases readField? line.1 with
      | none => simp
      | some f => simp [eq_comm]

/-- The lines that have been read are cut into those of the fields that are open, the last first. -/
theorem foldlM_readLine (h : block.foldlM readLine read = .ok read')
    (hr : List.Forall₂ OpenLines pieces read) :
    ∃ pieces', List.Forall₂ OpenLines pieces' read' ∧
      pieces'.reverse.flatten = pieces.reverse.flatten ++ block.map Prod.fst := by
  induction block generalizing read pieces with
  | nil =>
      cases h
      exact ⟨pieces, hr, by simp⟩
  | cons line block ih =>
      rw [List.foldlM_cons] at h
      obtain ⟨middle, hline, h⟩ := bind_eq_ok_iff.mp h
      rcases readLine_eq_ok_iff.mp hline with ⟨hc, f, fs, rfl, rfl⟩ | ⟨hc, f, hf, rfl⟩
      · obtain ⟨ls, pieces, hopen, hfs, rfl⟩ := List.forall₂_cons_right_iff.mp hr
        obtain ⟨pieces', hr', hflat⟩ := ih h (.cons (.more ls line.1 f hopen hc) hfs)
        exact ⟨pieces', hr', by simpa using hflat⟩
      · obtain ⟨pieces', hr', hflat⟩ := ih h (.cons (.header line.1 f hc hf) hr)
        exact ⟨pieces', hr', by simpa using hflat⟩

theorem OpenLines.foldlM_readLine (h : OpenLines ls f) (hb : block.map Prod.fst = ls)
    (read : List OpenField) : block.foldlM readLine read = .ok (f :: read) := by
  induction h generalizing block with
  | header l f hl hf =>
      obtain ⟨line, rfl, rfl⟩ := List.map_eq_singleton_iff.mp hb
      exact bind_eq_ok_iff.mpr ⟨_, readLine_eq_ok_iff.mpr (Or.inr ⟨hl, f, hf, rfl⟩), rfl⟩
  | more ls l f _ hl ih =>
      obtain ⟨front, last, rfl, hfront, hlast⟩ := List.map_eq_append_iff.mp hb
      obtain ⟨line, rfl, rfl⟩ := List.map_eq_singleton_iff.mp hlast
      rw [List.foldlM_append]
      refine bind_eq_ok_iff.mpr ⟨_, ih hfront, bind_eq_ok_iff.mpr ⟨_, ?_, rfl⟩⟩
      exact readLine_eq_ok_iff.mpr (Or.inl ⟨hl, f, read, rfl, rfl⟩)

theorem foldlM_readLine_flatten {opened : List OpenField} (h : List.Forall₂ OpenLines pieces opened)
    (hb : block.map Prod.fst = pieces.flatten) (read : List OpenField) :
    block.foldlM readLine read = .ok (opened.reverse ++ read) := by
  induction h generalizing block read with
  | nil =>
      rw [List.map_eq_nil_iff.mp hb]
      rfl
  | @cons ls f pieces opened hopen _ ih =>
      obtain ⟨first, rest, rfl, hfirst, hrest⟩ := List.map_eq_append_iff.mp hb
      rw [List.foldlM_append]
      refine bind_eq_ok_iff.mpr ⟨_, hopen.foldlM_readLine hfirst read, ?_⟩
      rw [ih hrest, List.reverse_cons, List.append_assoc]
      rfl

theorem exists_opened (h : List.Forall₂ FieldLines pieces fields) :
    ∃ opened, List.Forall₂ OpenLines pieces opened ∧ opened.map OpenField.close = fields := by
  induction h with
  | nil => exact ⟨[], .nil, rfl⟩
  | cons hf _ ih =>
      obtain ⟨o, ho, rfl⟩ := hf
      obtain ⟨opened, hopened, rfl⟩ := ih
      exact ⟨o :: opened, .cons ho hopened, rfl⟩

theorem readBlock_eq_ok_iff : readBlock block = .ok p ↔ ParagraphLines (block.map Prod.fst) p := by
  constructor
  · intro h
    obtain ⟨opened, hread, h⟩ := bind_eq_ok_iff.mp h
    rw [mapError_eq_ok_iff, ofFields_eq_ok_iff] at h
    obtain ⟨pieces, hp, hflat⟩ := foldlM_readLine hread .nil
    refine ⟨pieces.reverse, by simpa using hflat, ?_⟩
    rw [h, List.forall₂_map_right_iff, List.forall₂_reverse_iff]
    exact hp.imp fun ls o ho => ⟨o, ho, rfl⟩
  · rintro ⟨pieces, hflat, hp⟩
    obtain ⟨opened, ho, hclose⟩ := exists_opened hp
    refine bind_eq_ok_iff.mpr ⟨_, foldlM_readLine_flatten ho hflat.symm [], ?_⟩
    rw [mapError_eq_ok_iff, ofFields_eq_ok_iff]
    simp [hclose]

theorem readAll_eq_ok_iff :
    readAll t = .ok ps ↔ List.Forall₂ ParagraphLines (textBlocks (lines t)) ps := by
  rw [readAll, mapM_eq_ok_iff, ← map_fst_blocks, List.forall₂_map_left_iff]
  simp only [readBlock_eq_ok_iff]

theorem readAll_congr {u : Text} (h : lines t = lines u) : readAll t = readAll u := by
  rw [readAll, blocks, h, readAll, blocks]

/-- Only the lines of a text count, and an empty one at the end of an empty text counts for nothing. -/
theorem readAll_join_lines (t : Text) : readAll (join "\n" (lines t) ++ ['\n']) = readAll t := by
  by_cases hne : lines t = []
  · rw [readAll, readAll, blocks, blocks, hne]
    rfl
  · apply readAll_congr
    rw [join_lineFeed hne, ← List.append_nil (unlines _),
      lines_unlines_append_of_lines fun l hl c hc => (mem_lines hl c hc).1]
    exact List.append_nil _

end DebianPackaging.Paragraph
