import DebianPackaging.Proofs.Log
import DebianPackaging.Proofs.Paragraph.Reading
import DebianPackaging.Record.Document

namespace DebianPackaging

open Text

namespace Clearsigned

variable {t header tail line line' : Text} {armor body rest : List Text}

/-- How a line of the signed text may be written. Lines that start with a hyphen are always escaped.
-/
inductive IsEscaped : Text → Text → Prop
  | plain (line : Text) (h : line.head? ≠ some '-') : IsEscaped line line
  | escaped (line : Text) : IsEscaped line ('-' :: ' ' :: line)

def signedText (header : Text) (armor body : List Text) (tail : Text) : Text :=
  join "\n" (header :: armor ++ [] :: body ++ [signatureHeader, tail])

theorem IsEscaped.unescape (h : IsEscaped line line') : unescape line' = line := by
  cases h with
  | plain h =>
      cases line with
      | nil => rfl
      | cons c line =>
          have hc : c ≠ '-' := fun hc => h (by rw [hc]; rfl)
          rw [Clearsigned.unescape, if_neg]
          simp [List.isPrefixOf, hc.symm]
  | escaped => rfl

/-- No line of the signed text can be taken for the end of it. -/
theorem IsEscaped.ne_signatureHeader (h : IsEscaped line line') : line' ≠ signatureHeader := by
  rintro rfl
  cases h with
  | plain h => exact h rfl

theorem IsEscaped.isLineEnd (h : IsEscaped line line') (hl : ∀ c ∈ line, isLineEnd c = false) :
    ∀ c ∈ line', isLineEnd c = false := by
  cases h with
  | plain => exact hl
  | escaped =>
      rw [List.forall_mem_cons, List.forall_mem_cons]
      exact ⟨by decide, by decide, hl⟩

theorem map_unescape (h : List.Forall₂ IsEscaped rest body) : body.map unescape = rest := by
  induction h with
  | nil => rfl
  | cons hl _ ih => rw [List.map_cons, hl.unescape, ih]

theorem isLineEnd_of_all (h : line.all (!isLineEnd ·) = true) :
    ∀ c ∈ line, isLineEnd c = false := by
  simpa using h

theorem lines_signedText (tail : Text) (hheader : ∀ c ∈ header, isLineEnd c = false)
    (harmor : ∀ l ∈ armor, ∀ c ∈ l, isLineEnd c = false)
    (hbody : ∀ l ∈ body, ∀ c ∈ l, isLineEnd c = false) :
    lines (signedText header armor body tail) =
      header :: armor ++ [] :: (body ++ signatureHeader :: lines tail) := by
  have hj : signedText header armor body tail =
      unlines (header :: armor ++ [] :: (body ++ [signatureHeader])) ++ tail := by
    have hs : header :: armor ++ [] :: body ++ [signatureHeader, tail] =
        (header :: armor ++ [] :: (body ++ [signatureHeader])) ++ [tail] := by simp
    rw [signedText, hs, join_append_singleton _ _ (by simp), ← join_lineFeed (by simp)]
    rfl
  rw [hj, lines_unlines_append_of_lines]
  · simp
  · intro l hl
    simp only [List.cons_append, List.mem_cons, List.mem_append, List.not_mem_nil, or_false] at hl
    rcases hl with rfl | hl | rfl | hl | rfl
    · exact hheader
    · exact harmor l hl
    · simp
    · exact hbody l hl
    · exact isLineEnd_of_all (by cbv)

theorem body?_eq (hfront : ∀ l ∈ armor, isBlankText l = false) (hbody : signatureHeader ∉ body) :
    body? (armor ++ [] :: (body ++ signatureHeader :: rest)) = some body := by
  have hdrop : (armor ++ [] :: (body ++ signatureHeader :: rest)).dropWhile (!isBlankText ·) =
      [] :: (body ++ signatureHeader :: rest) := by
    rw [List.dropWhile_append_of_pos (by simpa using hfront),
      List.dropWhile_cons_of_neg (by simp [isBlankText])]
  have htake : (body ++ signatureHeader :: rest).takeWhile (· != signatureHeader) = body := by
    have hne : ∀ l ∈ body, (l != signatureHeader) = true := by
      intro l hl
      rw [bne_iff_ne]
      rintro rfl
      exact hbody hl
    rw [List.takeWhile_append_of_pos hne, List.takeWhile_cons_of_neg (by simp), List.append_nil]
  rw [body?, hdrop]
  simp only
  rw [if_pos (by simp), htake]

theorem contents?_signedText (hheader : trim header = messageHeader)
    (hline : ∀ c ∈ header, isLineEnd c = false)
    (harmor : ∀ l ∈ armor, isBlankText l = false ∧ ∀ c ∈ l, isLineEnd c = false)
    (hbody : List.Forall₂ IsEscaped (lines t) body) :
    contents? (signedText header armor body tail) = some (join "\n" (lines t) ++ ['\n']) := by
  have hescaped : ∀ l ∈ body, l ≠ signatureHeader ∧ ∀ c ∈ l, isLineEnd c = false := by
    intro l hl
    obtain ⟨line, hm, he⟩ := Outcome.exists_of_forall₂ hbody l hl
    exact ⟨he.ne_signatureHeader, he.isLineEnd fun c hc => (mem_lines hm c hc).1⟩
  have hlines := lines_signedText tail hline (fun l hl => (harmor l hl).2)
    fun l hl => (hescaped l hl).2
  have hblank : ∀ l ∈ header :: armor, isBlankText l = false := by
    rw [List.forall_mem_cons]
    refine ⟨?_, fun l hl => (harmor l hl).1⟩
    by_contra hb
    rw [trim_eq_nil_of_isBlankText (by simpa using hb)] at hheader
    exact absurd hheader (by decide)
  have hsigned : isSigned (signedText header armor body tail) = true := by
    rw [isSigned, hlines]
    simp [hheader]
  rw [contents?, if_pos hsigned, hlines,
    body?_eq hblank fun hm => (hescaped _ hm).1 rfl, Option.map_some, map_unescape hbody]

end Clearsigned

namespace SourceControl

open Clearsigned

def IsUnsigned (t : Text) : Prop :=
  ∀ line, (lines t).head? = some line → trim line ≠ messageHeader

theorem read_of_isUnsigned {t : Text} (h : IsUnsigned t) :
    read t = readParagraphs t >>= ofParagraphs := by
  have hs : isSigned t = false := by
    rw [isSigned]
    cases hl : (lines t).head? with
    | none => rfl
    | some line => simpa using h line hl
  rw [read, contents?, hs, if_neg Bool.false_ne_true]

/-- Neither the armor nor what stands after the signature line has an effect. -/
theorem parse_signedText (t header tail : Text) (armor body : List Text) (ht : IsUnsigned t)
    (hheader : trim header = messageHeader ∧ ∀ c ∈ header, isLineEnd c = false)
    (harmor : ∀ l ∈ armor, isBlankText l = false ∧ ∀ c ∈ l, isLineEnd c = false)
    (hbody : List.Forall₂ IsEscaped (lines t) body) :
    parse (signedText header armor body tail) = parse t := by
  have hread : read (signedText header armor body tail) = read t := by
    rw [read_of_isUnsigned ht, read, contents?_signedText hheader.1 hheader.2 harmor hbody]
    simp only [readParagraphs, Paragraph.readAll_join_lines]
  rw [parse, parse, hread]

def signedSample : Text :=
  "\n-Note: x\nSource: a\nVersion: 1-2\nFiles:\n -----BEGIN PGP SIGNATURE-----\n\n"

def escapedSample : List Text :=
  ["", "- -Note: x", "- Source: a", "Version: 1-2", "Files:", " -----BEGIN PGP SIGNATURE-----",
    ""].map String.toList

theorem parse_signedText_sample :
    (parse signedSample).result.toOption.map
        (fun r => (r.source, r.version? "version", r.items "files")) =
      some ("a".toList, some ⟨0, "1", "2"⟩, ["-----BEGIN PGP SIGNATURE-----".toList]) ∧
      parse (signedText ("\t".toList ++ messageHeader) ["Hash: SHA512".toList] escapedSample
        "x\n-----END PGP SIGNATURE-----\n\nSource: b\n".toList) = parse signedSample := by
  have hlines : lines signedSample = ["", "-Note: x", "Source: a", "Version: 1-2", "Files:",
      " -----BEGIN PGP SIGNATURE-----", ""].map String.toList := by
    cbv
  have ht : IsUnsigned signedSample := by
    rw [IsUnsigned, hlines]
    decide
  have hread : (parse signedSample).result = readParagraphs signedSample >>= ofParagraphs := by
    rw [← read_of_isUnsigned ht]
    exact Logged.result_reported _ _
  refine ⟨?_, parse_signedText _ _ _ _ _ ht ⟨by cbv, isLineEnd_of_all (by cbv)⟩ ?_ ?_⟩
  · rw [hread]
    cbv
  · rw [List.forall_mem_singleton]
    exact ⟨by cbv, isLineEnd_of_all (by cbv)⟩
  · rw [hlines]
    exact .cons (.plain _ (by decide)) <| .cons (.escaped _) <| .cons (.escaped _) <|
      .cons (.plain _ (by decide)) <| .cons (.plain _ (by decide)) <|
      .cons (.plain _ (by decide)) <| .cons (.plain _ (by decide)) .nil

end SourceControl

end DebianPackaging
