import DebianPackaging.Proofs.Paragraph.RoundTrip

namespace DebianPackaging.Paragraph

open Text Outcome

variable {value : Text} {g : Text → Text} {p : Paragraph}

theorem hasOnlyLineFeeds_iff : HasOnlyLineFeeds value ↔
    (value.all fun c => !isLineEnd c || c == '\n') = true := by
  simp only [HasOnlyLineFeeds, List.all_eq_true, Bool.or_eq_true, Bool.not_eq_true', beq_iff_eq,
    ← Bool.not_eq_true, ← imp_iff_not_or]

instance (value : Text) : Decidable (HasOnlyLineFeeds value) :=
  decidable_of_iff _ hasOnlyLineFeeds_iff.symm

def undot (line : Text) : Text := if line = ['.'] then [] else line

/-- A value without white space at its ends and at those of its lines, and with empty lines for the
lone dots below the first line. -/
def normal (value : Text) : Text :=
  match ((trim value).splitOn '\n').map trim with
  | [] => []
  | first :: rest => trim (join "\n" (first :: rest.map undot))

theorem undot_line {line : Text} (ht : trim line = line) (hl : ∀ c ∈ line, isLineEnd c = false) :
    trim (undot line) = undot line ∧ (∀ c ∈ undot line, isLineEnd c = false) ∧
      undot line ≠ ['.'] := by
  rw [undot]
  split
  · exact ⟨rfl, by simp, by simp⟩
  · rename_i hdot
    exact ⟨ht, hl, hdot⟩

/-- What is read for a value is its normal form. -/
theorem stored_eq_normal (value : Text) : stored value = normal value := by
  rw [stored, normal]
  cases (trim value).splitOn '\n' with
  | nil => rfl
  | cons first rest =>
      simp only [List.map_cons, List.map_map]
      rfl

theorem isStored_normal (h : HasOnlyLineFeeds value) : IsStored (normal value) := by
  have hlines : ∀ line ∈ ((trim value).splitOn '\n').map trim,
      trim line = line ∧ ∀ c ∈ line, isLineEnd c = false := by
    rw [List.forall_mem_map]
    exact fun line hl => ⟨trim_trim line, h.of_mem_splitOn hl⟩
  rw [normal]
  cases hs : ((trim value).splitOn '\n').map trim with
  | nil => exact isStored_nil
  | cons first rest =>
      rw [hs, List.forall_mem_cons] at hlines
      obtain ⟨hfirst, hrest⟩ := hlines
      have hundot : ∀ line ∈ rest.map undot,
          trim line = line ∧ (∀ c ∈ line, isLineEnd c = false) ∧ line ≠ ['.'] := by
        rw [List.forall_mem_map]
        exact fun line hl => undot_line (hrest line hl).1 (hrest line hl).2
      apply isStored_trim_join
      · exact List.forall_mem_cons.mpr ⟨hfirst.1, fun line hl => (hundot line hl).1⟩
      · exact List.forall_mem_cons.mpr ⟨hfirst.2, fun line hl => (hundot line hl).2.1⟩
      · exact fun hm => (hundot _ hm).2.2 rfl

theorem normal_eq_self_iff (h : HasOnlyLineFeeds value) : normal value = value ↔ IsStored value := by
  constructor
  · intro he
    rw [← he]
    exact isStored_normal h
  · intro hs
    rw [← stored_eq_normal, hs.stored_eq]

theorem map_eq_self_iff {α : Type} {f : α → α} {as : List α} :
    as.map f = as ↔ ∀ a ∈ as, f a = a := by
  conv_lhs => rhs; rw [← List.map_id as]
  exact List.map_inj_left

theorem mapValues_eq_self_iff : p.mapValues g = p ↔ ∀ f ∈ p.fields, g f.value = f.value := by
  refine ⟨fun h f hf => ?_, mapValues_eq_self⟩
  have hfields : p.fields.map (fun f => (⟨f.name, g f.value⟩ : Field)) = p.fields :=
    congrArg fields h
  exact congrArg Field.value (map_eq_self_iff.mp hfields f hf)

/-- Paragraphs with fields, names that are written and no line end but line feeds are written, and
read with the normal forms of their values: as they were exactly if their values are normal. -/
theorem readAll_writeAll_normal (ps : List Paragraph) (hne : ∀ p ∈ ps, p.fields ≠ [])
    (hw : ∀ p ∈ ps, ∀ f ∈ p.fields, isWritableName f.name = true)
    (hl : ∀ p ∈ ps, ∀ f ∈ p.fields, HasOnlyLineFeeds f.value) :
    ∃ out, writeAll (ps.map Paragraph.fields) = .ok out ∧
      readAll out = .ok (ps.map (mapValues normal)) ∧
      (readAll out = .ok ps ↔ ∀ p ∈ ps, ∀ f ∈ p.fields, normal f.value = f.value) ∧
      ∀ p ∈ ps, ∀ f ∈ p.fields, (normal f.value = f.value ↔ IsStored f.value) := by
  obtain ⟨out, hout⟩ : ∃ out, writeAll (ps.map Paragraph.fields) = .ok out :=
    ⟨_, (writeAll_eq_ok_iff hne).mpr ⟨hw, rfl⟩⟩
  have hread : readAll out = .ok (ps.map (mapValues normal)) := by
    rw [← funext stored_eq_normal]
    exact readAll_writeAll hne hout hl
  refine ⟨out, hout, hread, ?_, fun p hp f hf => normal_eq_self_iff (hl p hp f hf)⟩
  rw [hread, Except.ok.injEq, map_eq_self_iff]
  simp only [mapValues_eq_self_iff]

def foldedSample : List Paragraph :=
  [⟨[⟨"A", " .\n\n . \n#c\n\tB: d \n\n"⟩, ⟨"b", "\n \n"⟩], by cbv; decide⟩,
    ⟨[⟨"A", "x\ny"⟩], by cbv; decide⟩]

theorem readAll_writeAll_normal_folded :
    writeAll (foldedSample.map Paragraph.fields) =
        .ok "A: .\n .\n .\n #c\n B: d\nb:\n\nA: x\n y\n".toList ∧
      (readAll "A: .\n .\n .\n #c\n B: d\nb:\n\nA: x\n y\n").map (·.map Paragraph.fields) =
        .ok [[⟨"A".toList, ".\n\n\n#c\nB: d".toList⟩, ⟨"b".toList, []⟩],
          [⟨"A".toList, "x\ny".toList⟩]] := by
  have hne : ∀ p ∈ foldedSample, p.fields ≠ [] := by simp [foldedSample]
  have hw : ∀ p ∈ foldedSample, ∀ f ∈ p.fields, isWritableName f.name = true := by decide
  have hl : ∀ p ∈ foldedSample, ∀ f ∈ p.fields, HasOnlyLineFeeds f.value := by decide
  obtain ⟨out, hout, hread, -⟩ := readAll_writeAll_normal foldedSample hne hw hl
  have hwritten : writeAll (foldedSample.map Paragraph.fields) =
      .ok "A: .\n .\n .\n #c\n B: d\nb:\n\nA: x\n y\n".toList := by cbv
  obtain rfl := Except.ok.inj (hout.symm.trans hwritten)
  have hnormal : (foldedSample.map (mapValues normal)).map Paragraph.fields =
      [[⟨"A".toList, ".\n\n\n#c\nB: d".toList⟩, ⟨"b".toList, []⟩],
        [⟨"A".toList, "x\ny".toList⟩]] := by cbv
  rw [hread]
  exact ⟨hwritten, congrArg Except.ok hnormal⟩

end DebianPackaging.Paragraph
