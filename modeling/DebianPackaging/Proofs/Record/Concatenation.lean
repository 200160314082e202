import DebianPackaging.Proofs.Record.Document

namespace DebianPackaging

open Text Outcome Paragraph

variable {t : Text} {rs : List Record}

namespace Paragraph

theorem textBlocks_append_emptyLines (n : Nat) (ls ms : List Text) :
    textBlocks (ls ++ List.replicate (n + 1) [] ++ ms) = textBlocks ls ++ textBlocks ms := by
  have hblank : isBlankText [] = true := rfl
  induction n generalizing ls with
  | zero =>
      rw [List.replicate_one, List.append_assoc, List.singleton_append,
        textBlocks_append_blank hblank]
  | succ n ih =>
      have hempty := ih []
      rw [List.nil_append] at hempty
      rw [List.replicate_succ, List.append_assoc, List.cons_append, textBlocks_append_blank hblank,
        hempty]
      rfl

theorem textBlocks_lines_append (t u : Text) : textBlocks (lines (t ++ '\n' :: '\n' :: u)) =
    textBlocks (lines t) ++ textBlocks (lines u) := by
  obtain ⟨n, hn⟩ := lines_append_emptyLine t u
  rw [hn, textBlocks_append_emptyLines]

end Paragraph

theorem Index.parse_eq_ok_iff {i : Index} : (i.parse t).result = .ok rs ↔
    ∃ ps, readAll t = .ok ps ∧
      List.Forall₂ (fun p (r : Record) => readRecord i.kind p = .ok r) ps rs := by
  have hresult : (i.parse t).result = i.read t := Logged.result_reported _ _
  simp only [hresult, Index.read, bind_eq_ok_iff, DocumentKind.readParagraphs_eq_ok_iff,
    readRecords, mapM_eq_ok_iff]

/-- With an empty line between them two texts are read exactly when each is, whatever the first ends
with, and hold the paragraphs of the first and after them those of the second. So do the entries of an
index. -/
theorem readAll_append_emptyLine (t u : Text) :
    (∀ ps, readAll (t ++ '\n' :: '\n' :: u) = .ok ps ↔
      ∃ qs rs, readAll t = .ok qs ∧ readAll u = .ok rs ∧ ps = qs ++ rs) ∧
    ∀ (i : Index) (entries : List Record),
      (i.parse (t ++ '\n' :: '\n' :: u)).result = .ok entries ↔
        ∃ first second, (i.parse t).result = .ok first ∧ (i.parse u).result = .ok second ∧
          entries = first ++ second := by
  have hread : ∀ ps, readAll (t ++ '\n' :: '\n' :: u) = .ok ps ↔
      ∃ qs rs, readAll t = .ok qs ∧ readAll u = .ok rs ∧ ps = qs ++ rs := fun ps => by
    simp only [readAll_eq_ok_iff, textBlocks_lines_append, forall₂_append_left_iff]
  refine ⟨hread, fun i entries => ?_⟩
  simp only [Index.parse_eq_ok_iff, hread]
  constructor
  · rintro ⟨_, ⟨qs, rs, hqs, hrs, rfl⟩, hentries⟩
    obtain ⟨first, second, hfirst, hsecond, rfl⟩ := forall₂_append_left_iff.mp hentries
    exact ⟨first, second, ⟨qs, hqs, hfirst⟩, ⟨rs, hrs, hsecond⟩, rfl⟩
  · rintro ⟨first, second, ⟨qs, hqs, hfirst⟩, ⟨rs, hrs, hsecond⟩, rfl⟩
    exact ⟨qs ++ rs, ⟨qs, rs, hqs, hrs, rfl⟩, List.rel_append hfirst hsecond⟩

end DebianPackaging
