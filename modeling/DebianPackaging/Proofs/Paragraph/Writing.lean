import DebianPackaging.Paragraph.Writer
import DebianPackaging.Proofs.Paragraph.Reading
import DebianPackaging.Proofs.Text.Trim

namespace DebianPackaging.Paragraph

open Text Outcome

variable {t l name first : Text} {ls rest : List Text} {f : Field} {fields : List Field}
  {ps : List Paragraph} {out : Text}

theorem isWritableName_iff :
    isWritableName name = true ↔
      name ≠ [] ∧ name.head? ≠ some '#' ∧ ':' ∉ name ∧ ∀ c ∈ name, isBlank c = false := by
  simp only [isWritableName, Bool.and_eq_true, Bool.not_eq_true', List.isEmpty_eq_false_iff,
    bne_iff_ne, List.any_eq_false, Bool.or_eq_true, decide_eq_true_eq, not_or]
  constructor
  · rintro ⟨⟨hne, hh⟩, hc⟩
    exact ⟨hne, hh, fun hm => (hc _ hm).2 rfl, fun c hm => by simpa using (hc c hm).1⟩
  · rintro ⟨hne, hh, hcolon, hb⟩
    refine ⟨⟨hne, hh⟩, fun c hm => ⟨by simp [hb c hm], ?_⟩⟩
    rintro rfl
    exact hcolon hm

def headerLine (name first : Text) : Text :=
  name ++ ':' :: if first = [] then [] else ' ' :: first

theorem trimRight_header (name : Text) (h : EndsPlain first) :
    trimRight (name ++ ": ".toList ++ first) = headerLine name first := by
  have he : name ++ ": ".toList ++ first = name ++ ':' :: (' ' :: first) := by simp
  rw [he, trimRight_append_cons (by decide), headerLine]
  split
  · rename_i hnil
    rw [hnil]
    rfl
  · rename_i hne
    rw [trimRight_of_endsPlain]
    exact endsPlain_append (t := [' ']) hne h

theorem fieldLines_eq (h : (trim f.value).splitOn '\n' = first :: rest) :
    fieldLines f = headerLine f.name (trim first) :: rest.map foldedLine := by
  rw [fieldLines, h]
  simp only [trimRight_header f.name (endsPlain_trim first)]

theorem exists_fieldLines (f : Field) :
    ∃ first rest, (trim f.value).splitOn '\n' = first :: rest ∧
      fieldLines f = headerLine f.name (trim first) :: rest.map foldedLine := by
  obtain ⟨first, rest, h⟩ := List.exists_cons_of_ne_nil (List.splitOn_ne_nil '\n' (trim f.value))
  exact ⟨first, rest, h, fieldLines_eq h⟩

theorem endsPlain_headerLine (name : Text) (h : EndsPlain first) :
    EndsPlain (headerLine name first) := by
  rw [headerLine]
  split
  · exact endsPlain_concat name (by decide)
  · rename_i hne
    have hends := endsPlain_append hne h (name ++ [':', ' '])
    rwa [List.append_assoc] at hends

theorem endsPlain_foldedLine (l : Text) : EndsPlain (foldedLine l) := by
  rw [foldedLine]
  split
  · exact endsPlain_concat [' '] (by decide)
  · rename_i hne
    exact endsPlain_append (t := [' ']) (by simpa using hne) (endsPlain_trim l)

theorem mem_fieldLines (h : l ∈ fieldLines f) : l ≠ [] ∧ EndsInLine l := by
  obtain ⟨first, rest, -, hf⟩ := exists_fieldLines f
  rw [hf] at h
  rcases List.mem_cons.mp h with rfl | h
  · exact ⟨by simp [headerLine], (endsPlain_headerLine _ (endsPlain_trim first)).endsInLine⟩
  · obtain ⟨line, -, rfl⟩ := List.mem_map.mp h
    exact ⟨by simp [foldedLine], (endsPlain_foldedLine line).endsInLine⟩

def writtenLines (fields : List Field) : List Text :=
  fields.flatMap fieldLines

theorem writtenLines_ne_nil (hne : fields ≠ []) : writtenLines fields ≠ [] := by
  obtain ⟨f, fields, rfl⟩ := List.exists_cons_of_ne_nil hne
  obtain ⟨first, rest, -, hf⟩ := exists_fieldLines f
  simp [writtenLines, hf]

theorem mem_writtenLines (h : l ∈ writtenLines fields) : l ≠ [] ∧ EndsInLine l := by
  obtain ⟨f, -, hl⟩ := List.mem_flatMap.mp h
  exact mem_fieldLines hl

theorem writeField_eq_ok_iff :
    writeField f = .ok ls ↔ isWritableName f.name = true ∧ fieldLines f = ls := by
  unfold writeField
  split
  · rename_i h
    simp [h]
  · rename_i h
    simp [h]

theorem write_eq_ok_iff (hne : fields ≠ []) :
    write fields = .ok t ↔ (∀ f ∈ fields, isWritableName f.name = true) ∧
      unlines (writtenLines fields) = t := by
  rw [write, map_eq_ok_iff, ← join_lineFeed (writtenLines_ne_nil hne)]
  simp only [mapM_eq_ok_iff_forall fun f _ _ => writeField_eq_ok_iff]
  constructor
  · rintro ⟨written, ⟨hw, rfl⟩, rfl⟩
    exact ⟨hw, rfl⟩
  · rintro ⟨hw, rfl⟩
    exact ⟨_, ⟨hw, rfl⟩, rfl⟩

/-- Paragraphs are written exactly when all their fields have names that can be written. -/
theorem writeAll_eq_ok_iff (hne : ∀ p ∈ ps, p.fields ≠ []) :
    writeAll (ps.map Paragraph.fields) = .ok out ↔
      (∀ p ∈ ps, ∀ f ∈ p.fields, isWritableName f.name = true) ∧
        join "\n" (ps.map fun p => unlines (writtenLines p.fields)) = out := by
  have hwrite : ∀ fields ∈ ps.map Paragraph.fields, ∀ t, write fields = .ok t ↔
      (∀ f ∈ fields, isWritableName f.name = true) ∧ unlines (writtenLines fields) = t := by
    rw [List.forall_mem_map]
    exact fun p hp t => write_eq_ok_iff (hne p hp)
  rw [writeAll, map_eq_ok_iff]
  simp only [mapM_eq_ok_iff_forall hwrite, List.forall_mem_map, List.map_map]
  constructor
  · rintro ⟨texts, ⟨hw, rfl⟩, rfl⟩
    exact ⟨hw, rfl⟩
  · rintro ⟨hw, rfl⟩
    exact ⟨_, ⟨hw, rfl⟩, rfl⟩

theorem textBlocks_writeAll (hne : ∀ p ∈ ps, p.fields ≠ [])
    (h : writeAll (ps.map Paragraph.fields) = .ok out) :
    textBlocks (lines out) =
      ps.flatMap fun p => textBlocks ((writtenLines p.fields).flatMap lines) := by
  obtain ⟨-, rfl⟩ := (writeAll_eq_ok_iff hne).mp h
  clear hne h
  induction ps with
  | nil => rfl
  | cons p ps ih =>
      have hlines := lines_unlines_append fun l (hl : l ∈ writtenLines p.fields) =>
        mem_writtenLines hl
      cases ps with
      | nil =>
          have h := hlines []
          rw [List.append_nil] at h
          simp [join_singleton, h, lines]
      | cons q ps =>
          rw [List.map_cons, List.map_cons, join_cons_cons, List.append_assoc, hlines,
            List.flatMap_cons, ← ih, ← textBlocks_append_blank (l := []) rfl]
          exact congrArg (fun ls => textBlocks (_ ++ ls)) (lines_lineFeed _)

end DebianPackaging.Paragraph
