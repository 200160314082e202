import DebianPackaging.Proofs.Paragraph.Structure

namespace DebianPackaging.Paragraph

open Text Outcome

variable {t l name first value : Text} {ls more : List Text} {f : Field} {p : Paragraph}
  {ps : List Paragraph} {o : OpenField} {out : Text}

/-- The value that is read after a value was written. -/
def stored (value : Text) : Text :=
  match (trim value).splitOn '\n' with
  | [] => []
  | first :: rest => trim (join "\n" (trim first :: rest.map continuation))

def mapValues (g : Text → Text) (p : Paragraph) : Paragraph :=
  ⟨p.fields.map fun f => ⟨f.name, g f.value⟩, by
    rw [List.map_map]
    exact p.distinct⟩

theorem mapValues_eq_self {g : Text → Text} (h : ∀ f ∈ p.fields, g f.value = f.value) :
    p.mapValues g = p := by
  have hf : (p.fields.map fun f => (⟨f.name, g f.value⟩ : Field)) = p.fields :=
    (List.map_congr_left fun f hf => by rw [h f hf, id]).trans (List.map_id p.fields)
  rw [mapValues, mk.injEq, hf]

theorem continuation_foldedLine (l : Text) : continuation (foldedLine l) = continuation l := by
  rw [continuation, foldedLine, trim_space, continuation]
  split
  · rename_i h
    rw [List.isEmpty_iff.mp h]
    rfl
  · rw [trim_trim]

theorem fieldLines_stored (hw : isWritableName f.name = true) :
    FieldLines (fieldLines f) ⟨f.name, stored f.value⟩ := by
  obtain ⟨first, rest, hs, hf⟩ := exists_fieldLines f
  have hm : ∀ l ∈ rest.map foldedLine, isContinuation l = true := by
    intro l hl
    obtain ⟨line, -, rfl⟩ := List.mem_map.mp hl
    exact isContinuation_foldedLine line
  have h := fieldLines_of_header hw (trim first) hm
  have hc : (rest.map foldedLine).map continuation = rest.map continuation := by
    rw [List.map_map]
    exact List.map_congr_left fun l _ => continuation_foldedLine l
  rw [trim_trim, hc] at h
  rw [stored, hs, hf]
  exact h

theorem paragraphLines_stored (hw : ∀ f ∈ p.fields, isWritableName f.name = true) :
    ParagraphLines (writtenLines p.fields) (p.mapValues stored) := by
  refine ⟨p.fields.map fieldLines, List.flatMap_def.symm, ?_⟩
  rw [mapValues, List.forall₂_map_left_iff, List.forall₂_map_right_iff, List.forall₂_same]
  exact fun f hf => fieldLines_stored (hw f hf)

/-- Without other line ends, the same names are read and the values that are stored. -/
theorem readAll_writeAll (hne : ∀ p ∈ ps, p.fields ≠ [])
    (h : writeAll (ps.map Paragraph.fields) = .ok out)
    (hl : ∀ p ∈ ps, ∀ f ∈ p.fields, HasOnlyLineFeeds f.value) :
    readAll out = .ok (ps.map (mapValues stored)) := by
  obtain ⟨hw, -⟩ := (writeAll_eq_ok_iff hne).mp h
  have hblocks : ∀ p ∈ ps, textBlocks ((writtenLines p.fields).flatMap lines) =
      [writtenLines p.fields] := by
    intro p hp
    have hquiet : ∀ l ∈ writtenLines p.fields, isQuiet l = false := fun l hl =>
      isQuiet_of_mem_writtenLines (hw p hp) hl
    rw [flatMap_lines_writtenLines (hw p hp) (hl p hp)]
    exact textBlocks_of_forall (writtenLines_ne_nil (hne p hp)) hquiet
  rw [readAll_eq_ok_iff, textBlocks_writeAll hne h, List.flatMap_congr hblocks,
    ← List.map_eq_flatMap, List.forall₂_map_left_iff, List.forall₂_map_right_iff, List.forall₂_same]
  exact fun p hp => paragraphLines_stored (hw p hp)

section Stored

/-- A value as values are read: with nothing to trim, and no lone dot for an empty line. -/
structure IsStored (value : Text) : Prop where
  lineFeeds : HasOnlyLineFeeds value
  trimmed : trim value = value
  lines : ∀ l ∈ value.splitOn '\n', trim l = l
  dots : ['.'] ∉ (value.splitOn '\n').tail

theorem IsStored.stored_eq (h : IsStored value) : stored value = value := by
  obtain ⟨first, rest, hs⟩ := List.exists_cons_of_ne_nil (List.splitOn_ne_nil '\n' value)
  have hlines := h.lines
  have hdots := h.dots
  rw [hs] at hlines hdots
  obtain ⟨hfirst, hrest⟩ := List.forall_mem_cons.mp hlines
  have hc : rest.map continuation = rest := by
    refine (List.map_congr_left fun l hl => ?_).trans (List.map_id rest)
    have hdot : l ≠ ['.'] := fun he => hdots (he ▸ hl)
    rw [continuation, hrest l hl, if_neg hdot, id]
  have hj : join "\n" (first :: rest) = value := hs ▸ List.intercalate_splitOn '\n'
  rw [stored, h.trimmed, hs]
  simp only [hfirst, hc, hj, h.trimmed]

theorem isStored_nil : IsStored [] where
  lineFeeds := by simp [HasOnlyLineFeeds]
  trimmed := rfl
  lines := by simp [trim_eq_self]
  dots := by simp

theorem isStored_trim_join (ht : ∀ l ∈ ls, trim l = l)
    (hl : ∀ l ∈ ls, ∀ c ∈ l, isLineEnd c = false) (hd : ['.'] ∉ ls.tail) :
    IsStored (trim (join "\n" ls)) := by
  have htrim := trim_trim (join "\n" ls)
  have hwithin : (ls.dropWhile (·.isEmpty)).rdropWhile (·.isEmpty) <:+: ls := by
    have hfront := List.rdropWhile_prefix (·.isEmpty) (ls.dropWhile (·.isEmpty))
    exact hfront.isInfix.trans (List.dropWhile_suffix _).isInfix
  rw [trim_join_lines ht] at htrim ⊢
  generalize (ls.dropWhile (·.isEmpty)).rdropWhile (·.isEmpty) = kept at hwithin htrim ⊢
  cases kept with
  | nil => exact isStored_nil
  | cons first rest =>
      have hfeed : ∀ l ∈ first :: rest, '\n' ∉ l := fun l hm hn =>
        absurd (hl l (hwithin.subset hm) _ hn) (by decide)
      obtain ⟨hfirst, hrest⟩ := List.forall_mem_cons.mp hfeed
      have hs : (join "\n" (first :: rest)).splitOn '\n' = first :: rest := by
        have h := splitOn_join List.not_mem_nil hfirst hrest
        rwa [List.map_congr_left fun l _ => List.nil_append l, List.map_id'] at h
      refine ⟨fun c hc he => ?_, htrim, ?_, ?_⟩
      · rcases mem_join hc with hc | ⟨l, hm, hc⟩
        · simpa using hc
        · rw [hl l (hwithin.subset hm) c hc] at he
          cases he
      · rw [hs]
        exact fun l hm => ht l (hwithin.subset hm)
      · rw [hs]
        exact fun hm => hd (hwithin.sublist.tail.subset hm)

end Stored

section Read

theorem readField?_eq_some {line : Text} (h : readField? line = some o) :
    (o.name ≠ [] ∧ ':' ∉ o.name ∧ ∀ c ∈ o.name, isBlank c = false) ∧
      ∃ value, o.lines = [trim value] ∧ ∀ c ∈ value, c ∈ line := by
  unfold readField? at h
  split at h
  · cases h
  · rename_i name value hcut
    obtain ⟨rfl, hcolon⟩ := cut_eq_some hcut
    split at h
    · cases h
    · rename_i hname
      cases h
      simp only [Bool.or_eq_true, List.isEmpty_iff, not_or, Bool.not_eq_true, List.any_eq_false]
        at hname
      refine ⟨⟨hname.1, fun hm => hcolon (mem_of_mem_trim hm), hname.2⟩, value, rfl, ?_⟩
      simp +contextual

theorem OpenLines.lines_reverse (h : OpenLines ls o) (hl : ∀ l ∈ ls, ∀ c ∈ l, isLineEnd c = false) :
    o.lines ≠ [] ∧ (∀ l ∈ o.lines.reverse, trim l = l ∧ ∀ c ∈ l, isLineEnd c = false) ∧
      ['.'] ∉ o.lines.reverse.tail := by
  induction h with
  | header l f _ hf =>
      obtain ⟨-, value, hv, hchars⟩ := readField?_eq_some hf
      rw [hv]
      refine ⟨by simp, fun l' hm => ?_, by simp⟩
      rw [List.reverse_singleton, List.mem_singleton] at hm
      subst hm
      exact ⟨trim_trim value, fun c hc =>
        hl l List.mem_cons_self c (hchars c (mem_of_mem_trim hc))⟩
  | more ls l f _ _ ih =>
      obtain ⟨hne, hlines, hdots⟩ := ih fun m hm => hl m (List.mem_append_left _ hm)
      have hl : ∀ c ∈ trim l, isLineEnd c = false := fun c hc =>
        hl l (by simp) c (mem_of_mem_trim hc)
      have hc : (trim (continuation l) = continuation l ∧
          ∀ c ∈ continuation l, isLineEnd c = false) ∧ continuation l ≠ ['.'] := by
        rw [continuation]
        split
        · exact ⟨⟨rfl, by simp⟩, by simp⟩
        · rename_i hdot
          exact ⟨⟨trim_trim l, hl⟩, hdot⟩
      refine ⟨by simp, ?_, ?_⟩
      · rw [List.reverse_cons, List.forall_mem_append, List.forall_mem_singleton]
        exact ⟨hlines, hc.1⟩
      · rw [List.reverse_cons, List.tail_append_of_ne_nil (by simpa using hne), List.mem_append,
          List.mem_singleton, not_or]
        exact ⟨hdots, hc.2.symm⟩

theorem OpenLines.name_eq (h : OpenLines ls o) :
    o.name ≠ [] ∧ ':' ∉ o.name ∧ ∀ c ∈ o.name, isBlank c = false := by
  induction h with
  | header l f _ hf => exact (readField?_eq_some hf).1
  | more _ _ _ _ _ ih => exact ih

theorem FieldLines.read (h : FieldLines ls f) (hl : ∀ l ∈ ls, ∀ c ∈ l, isLineEnd c = false) :
    (isWritableName f.name = true ↔ f.name.head? ≠ some '#') ∧ IsStored f.value := by
  obtain ⟨o, ho, rfl⟩ := h
  obtain ⟨-, hlines, hdots⟩ := ho.lines_reverse hl
  obtain ⟨hne, hcolon, hb⟩ := ho.name_eq
  refine ⟨?_, isStored_trim_join (fun l hm => (hlines l hm).1) (fun l hm => (hlines l hm).2) hdots⟩
  rw [isWritableName_iff]
  exact ⟨fun h => h.2.1, fun h => ⟨hne, h, hcolon, hb⟩⟩

/-- What is read: paragraphs with fields, of which only a name that starts with a number sign cannot be
written, and values that are stored as they are. -/
theorem readAll_fields (h : readAll t = .ok ps) : ∀ p ∈ ps, p.fields ≠ [] ∧
    ∀ f ∈ p.fields, (isWritableName f.name = true ↔ f.name.head? ≠ some '#') ∧ IsStored f.value := by
  have hlines : ∀ block ∈ textBlocks (lines t), ∀ l ∈ block, ∀ c ∈ l, isLineEnd c = false := by
    intro block hb l hl c hc
    have hm : l ∈ (textBlocks (lines t)).flatten := List.mem_flatten.mpr ⟨block, hb, hl⟩
    rw [flatten_textBlocks] at hm
    exact (mem_lines (List.mem_filter.mp hm).1 c hc).1
  intro p hp
  obtain ⟨block, hb, pieces, rfl, hpieces⟩ := exists_of_forall₂ (readAll_eq_ok_iff.mp h) p hp
  constructor
  · intro hnil
    rw [hnil, List.forall₂_nil_right_iff] at hpieces
    have hne := (List.mem_filter.mp hb).2
    rw [hpieces] at hne
    cases hne
  · intro f hf
    obtain ⟨piece, hpiece, hlinesf⟩ := exists_of_forall₂ hpieces f hf
    exact hlinesf.read fun l hl => hlines _ hb l (List.mem_flatten.mpr ⟨piece, hpiece, hl⟩)

end Read

/-- Paragraphs that were read are written unless a field name starts with a number sign, and are read
again as they are. -/
theorem readAll_writeAll_of_readAll (t : Text) (ps : List Paragraph) (h : readAll t = .ok ps) :
    ((∃ out, writeAll (ps.map Paragraph.fields) = .ok out) ↔
      ∀ p ∈ ps, ∀ f ∈ p.fields, f.name.head? ≠ some '#') ∧
      ∀ out, writeAll (ps.map Paragraph.fields) = .ok out → readAll out = .ok ps := by
  have hread := readAll_fields h
  have hne : ∀ p ∈ ps, p.fields ≠ [] := fun p hp => (hread p hp).1
  constructor
  · rw [exists_congr fun out => writeAll_eq_ok_iff hne, exists_and_left]
    simp only [exists_eq', and_true]
    exact forall₂_congr fun p hp => forall₂_congr fun f hf => ((hread p hp).2 f hf).1
  · intro out hout
    have hstored : ∀ p ∈ ps, p.mapValues stored = p := fun p hp =>
      mapValues_eq_self fun f hf => ((hread p hp).2 f hf).2.stored_eq
    rw [readAll_writeAll hne hout fun p hp f hf => ((hread p hp).2 f hf).2.lineFeeds,
      List.map_congr_left hstored, List.map_id']

theorem readAll_writeAll_of_readAll_dots :
    ∃ ps out, readAll "#a\n\u00a0B : x\r\n .\n\t..\n #c\u2028 .\x0c\n\u00a0\nb:" = .ok ps ∧
      writeAll (ps.map Paragraph.fields) = .ok out ∧ readAll out = .ok ps := by
  have h : (readAll "#a\n\u00a0B : x\r\n .\n\t..\n #c\u2028 .\x0c\n\u00a0\nb:").map
      (·.map Paragraph.fields) = .ok [[⟨"B".toList, "x\n\n..\n#c".toList⟩], [⟨"b".toList, []⟩]] := by
    cbv
  obtain ⟨ps, hps, hfields⟩ := map_eq_ok_iff.mp h
  have hw : writeAll (ps.map Paragraph.fields) = .ok "B: x\n .\n ..\n #c\n\nb:\n".toList := by
    rw [hfields]
    cbv
  exact ⟨ps, _, hps, hw, (readAll_writeAll_of_readAll _ ps hps).2 _ hw⟩

/-- A name that starts with a number sign is read behind white space, but it is not written. -/
theorem readAll_number_sign :
    ¬∀ (t : Text) (ps : List Paragraph), readAll t = .ok ps →
      ∃ out, writeAll (ps.map Paragraph.fields) = .ok out ∧ readAll out = .ok ps := by
  intro h
  have hread : (readAll "\u00a0#Foo: bar").map (·.map Paragraph.fields) =
      .ok [[⟨"#Foo".toList, "bar".toList⟩]] := by cbv
  obtain ⟨ps, hps, hfields⟩ := map_eq_ok_iff.mp hread
  obtain ⟨out, hw, -⟩ := h _ ps hps
  rw [hfields] at hw
  cases hw

end DebianPackaging.Paragraph
