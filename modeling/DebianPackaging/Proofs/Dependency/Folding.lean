import DebianPackaging.Proofs.Dependency.Reading
import DebianPackaging.Proofs.Text.Folding

namespace DebianPackaging

open Text Outcome

variable {t u : Text}

namespace Version

theorem parseTrimmed_of_blank (strict : Bool) (h : t.any isBlank = true) :
    parseTrimmed strict t = .error .embeddedBlank := by
  cases t with
  | nil => cases h
  | cons c t => rw [parseTrimmed, if_neg (by simp), if_pos h]

/-- White space in the middle is refused, and that at the ends is trimmed off. -/
theorem agree_parse (h : Refolds t u) : Agree (fun _ _ => True) Eq (parse t) (parse u) := by
  have htrim := h.trim
  rw [parse, parse, parseWith, parseWith]
  cases hb : (trim t).any isBlank with
  | true =>
      rw [parseTrimmed_of_blank false hb, parseTrimmed_of_blank false (htrim.any_isBlank_eq ▸ hb)]
      exact .error trivial
  | false =>
      rw [htrim.eq_of_plain fun c hc => by simpa using List.any_eq_false.mp hb c hc]
      cases parseTrimmed false (trim u) with
      | error => exact .error trivial
      | ok v => exact .ok rfl

end Version

namespace Dependency

variable {α β : Type} {R : α → β → Prop} {inner inner' : Text} {b : Bracket} {c : Char}

/-- Faults of one kind, or results in a relation. -/
def SameKind (R : α → β → Prop) : Except ParseFault α → Except ParseFault β → Prop :=
  Agree (fun fault fault' => fault.kind = fault'.kind) R

theorem SameKind.of_eq {x y : Except ParseFault α} (h : x = y) : SameKind Eq x y :=
  Agree.of_eq (fun _ => rfl) (fun _ => rfl) h

section Brackets

theorem checkInner_congr (h : Refolds inner inner') : b.checkInner inner = b.checkInner inner' := by
  have hany := h.any_eq (p := (b.forbidden.contains ·)) fun c hc =>
    b.isBlank_of_mem c (List.mem_cons_of_mem _ (List.contains_iff_mem.mp hc))
  rw [Bracket.checkInner, Bracket.checkInner, hany]

theorem sameKind_readConstraint (h : Refolds inner inner') :
    SameKind Eq (readConstraint inner) (readConstraint inner') := by
  obtain ⟨hop, hversion⟩ := h.trimLeft.takeWhile_dropWhile fun _ => isBlank_of_isOperatorChar
  have hbound := Version.agree_parse hversion.trim
  rw [readConstraint, readConstraint]
  simp only [hop]
  split
  · exact .error rfl
  · generalize Version.parse (trim ((trimLeft inner).dropWhile isOperatorChar)) = x at hbound ⊢
    generalize Version.parse (trim ((trimLeft inner').dropWhile isOperatorChar)) = y at hbound ⊢
    cases hbound with
    | error => exact .error rfl
    | ok hv => exact .ok (by rw [hv])

theorem readArchitectures_congr (h : Refolds inner inner') :
    readArchitectures inner = readArchitectures inner' := by
  rw [readArchitectures, readArchitectures, h.words_eq]

theorem readGroup_congr (h : Refolds inner inner') : readGroup inner = readGroup inner' := by
  rw [readGroup, readGroup, h.words_eq]

theorem sameKind_add (h : Refolds inner inner') (s : Sections) (b : Bracket) :
    SameKind Eq (s.add b inner) (s.add b inner') := by
  cases b with
  | round =>
      rw [Sections.add, Sections.add]
      split
      · exact .error rfl
      split
      · exact .error rfl
      refine (SameKind.of_eq (checkInner_congr h)).bind fun _ _ _ => ?_
      refine (sameKind_readConstraint h).bind fun constraint _ hc => ?_
      exact .ok (by rw [hc])
  | square =>
      apply SameKind.of_eq
      rw [Sections.add, Sections.add, checkInner_congr h, readArchitectures_congr h]
  | angle =>
      apply SameKind.of_eq
      rw [Sections.add, Sections.add, checkInner_congr h, readGroup_congr h]

theorem readSections_unclosed (s : Sections) (hn : b.closer ∉ t) :
    readSections s (b.opener :: t) = .error (.missingCloser b.closer) := by
  rw [readSections, b.isBlank_opener, b.ofOpener?_opener, if_neg Bool.false_ne_true]
  simp only
  split
  · rfl
  · rename_i hc
    rw [cut_eq_none_iff.mpr hn] at hc
    cases hc

theorem readSections_of_not_opener (s : Sections) (hc : isBlank c = false)
    (ho : Bracket.ofOpener? c = none) (t : Text) : readSections s (c :: t) =
      .error (if c ∈ [')', ']', '>'] then .unmatchedDelimiter c else .unexpectedText (c :: t)) := by
  rw [readSections, hc, if_neg Bool.false_ne_true]
  simp only [ho]

theorem sameKind_readSections (h : Refolds t u) (s : Sections) :
    SameKind Eq (readSections s t) (readSections s u) := by
  -- A run of white space is passed over at once, and so is what stands between two brackets.
  induction hn : t.length using Nat.strong_induction_on generalizing t u s with
  | _ n ih =>
      cases h with
      | nil => exact .of_eq rfl
      | @blank run run' t u hr hr' h =>
          rw [readSections_append_of_isBlankText hr.2, readSections_append_of_isBlankText hr'.2]
          have hpos := List.length_pos_of_ne_nil hr.1
          rw [List.length_append] at hn
          exact ih t.length (by omega) h s rfl
      | @plain t u c hc h =>
          cases ho : Bracket.ofOpener? c with
          | none =>
              rw [readSections_of_not_opener s hc ho, readSections_of_not_opener s hc ho]
              refine .error ?_
              split <;> rfl
          | some b =>
              obtain rfl := Bracket.opener_of_ofOpener? ho
              rcases h.cut_eq b.isBlank_closer with ⟨ht, hu⟩ | ⟨_, rest, _, rest', ht, hu, hi, hr⟩
              · rw [readSections_unclosed s (cut_eq_none_iff.mp ht),
                  readSections_unclosed s (cut_eq_none_iff.mp hu)]
                exact .error rfl
              · have hlt := cut_length ht
                obtain ⟨rfl, hm⟩ := cut_eq_some ht
                obtain ⟨rfl, hm'⟩ := cut_eq_some hu
                rw [readSections_opener s hm, readSections_opener s hm']
                rw [List.length_cons] at hn
                refine (sameKind_add hi s b).bind fun s' _ hs => ?_
                rw [← hs]
                exact ih rest.length (by omega) hr s' rfl

end Brackets

section Possibility

theorem readName_cons (hc : c ≠ '$') (t : Text) : readName (c :: t) =
    if c.isAlphanum then .ok (c :: t.takeWhile isNameChar, t.dropWhile isNameChar)
    else .error .missingName := by
  rw [readName]
  intro _ he
  exact absurd he hc

theorem sameKind_readName (h : Refolds t u) (hd : '$' ∉ t) :
    SameKind (fun p q => p.1 = q.1 ∧ Refolds p.2 q.2) (readName t) (readName u) := by
  have hblank : ∀ {run} t, IsRun run → readName (run ++ t) = .error .missingName := by
    intro run t hr
    obtain ⟨c, rest, rfl, hc⟩ := hr.exists_cons
    have hne : c ≠ '$' := by
      rintro rfl
      exact absurd hc (by decide)
    have hname : ¬c.isAlphanum = true := fun ha =>
      Bool.noConfusion (hc.symm.trans (isBlank_of_isAlphanum ha))
    rw [List.cons_append, readName_cons hne, if_neg hname]
  cases h with
  | nil => exact .error rfl
  | blank hr hr' h =>
      rw [hblank _ hr, hblank _ hr']
      exact .error rfl
  | @plain t u c hc h =>
      have hne : c ≠ '$' := fun he => hd (by simp [he])
      rw [readName_cons hne, readName_cons hne]
      split
      · obtain ⟨htake, hdrop⟩ := h.takeWhile_dropWhile fun _ => isBlank_of_isNameChar
        exact .ok ⟨congrArg (c :: ·) htake, hdrop⟩
      · exact .error rfl

theorem readQualifier_of_head? (h : t.head? ≠ some ':') : readQualifier t = (none, t) := by
  cases t with
  | nil => rfl
  | cons c t =>
      rw [readQualifier]
      intro rest he
      exact absurd (congrArg some (List.cons.inj he).1) h

theorem readQualifier_refolds (h : Refolds t u) :
    (readQualifier t).1 = (readQualifier u).1 ∧ Refolds (readQualifier t).2 (readQualifier u).2 := by
  have hblank : ∀ {run} t, IsRun run → readQualifier (run ++ t) = (none, run ++ t) := by
    intro run t hr
    obtain ⟨c, rest, rfl, hc⟩ := hr.exists_cons
    apply readQualifier_of_head?
    rintro ⟨⟩
    exact absurd hc (by decide)
  cases h with
  | nil => exact ⟨rfl, .nil⟩
  | blank hr hr' h =>
      rw [hblank _ hr, hblank _ hr']
      exact ⟨rfl, .blank hr hr' h⟩
  | @plain t u c hc h =>
      by_cases hcolon : c = ':'
      · subst hcolon
        obtain ⟨htake, hdrop⟩ := h.takeWhile_dropWhile fun _ hq =>
          isBlank_of_isNameChar (isNameChar_of_isQualifierChar hq)
        rw [readQualifier, readQualifier, htake]
        split
        · exact ⟨rfl, .plain hc h⟩
        · exact ⟨rfl, hdrop⟩
      · rw [readQualifier_of_head? (by simpa using hcolon),
          readQualifier_of_head? (by simpa using hcolon)]
        exact ⟨rfl, .plain hc h⟩

theorem sameKind_readPossibility (h : Refolds t u) (hd : '$' ∉ t) :
    SameKind Eq (readPossibility t) (readPossibility u) := by
  have hd' : '$' ∉ trim t := fun hm => hd (mem_of_mem_trim hm)
  rw [readPossibility, readPossibility]
  refine (sameKind_readName h.trim hd').bind fun p q hpq => ?_
  obtain ⟨name, rest⟩ := p
  obtain ⟨name', rest'⟩ := q
  obtain ⟨rfl, hrest⟩ := hpq
  have hqualifiers := readQualifier_refolds hrest
  rcases hq : readQualifier rest with ⟨qualifier, sections⟩
  rcases hq' : readQualifier rest' with ⟨qualifier', sections'⟩
  rw [hq, hq'] at hqualifiers
  obtain ⟨rfl, hsections⟩ := hqualifiers
  simp only [hq, hq']
  refine (sameKind_readSections hsections .empty).bind fun s s' hs => .ok ?_
  rw [hs]

end Possibility

section Field

theorem forall₂_refolds_splitOn (h : Refolds t u) (hd : '$' ∉ t) (hc : isBlank c = false) :
    List.Forall₂ (fun piece piece' => '$' ∉ piece ∧ Refolds piece piece') (t.splitOn c)
      (u.splitOn c) :=
  (List.forall₂_and_left _ _).mpr
    ⟨fun _ hp hm => hd (mem_of_mem_splitOn hp hm), h.splitOn hc⟩

theorem sameKind_readRelation (h : Refolds t u) (hd : '$' ∉ t) :
    SameKind Eq (readRelation t) (readRelation u) := by
  have hpieces := forall₂_refolds_splitOn (c := '|') h hd (by decide)
  have hread := Agree.mapM hpieces fun piece piece' hp => sameKind_readPossibility hp.2 hp.1
  rwa [List.forall₂_eq_eq_eq] at hread

theorem sameKind_read (h : Refolds t u) (hd : '$' ∉ t) : SameKind Eq (read t) (read u) := by
  have hpieces := forall₂_refolds_splitOn (c := ',') h hd (by decide)
  have hkept := List.rel_filter (p := (!isBlankText ·)) (q := (!isBlankText ·))
    (fun piece piece' hp => by simp only [hp.2.isBlankText_eq]) hpieces
  have hread := Agree.mapM hkept fun piece piece' hp => sameKind_readRelation hp.2 hp.1
  rwa [List.forall₂_eq_eq_eq] at hread

theorem mapError_kind_parse (t : Text) :
    (parse t).mapError (·.fault.kind) = (read t).mapError ParseFault.kind := by
  rw [parse]
  cases read t <;> rfl

/-- Without substitution variables, other white space changes neither what a field says nor the kind
of fault for which it cannot be read. -/
theorem parse_refolds (t u : Text) (h : Refolds t u) (hd : '$' ∉ t) :
    (parse t).mapError (·.fault.kind) = (parse u).mapError (·.fault.kind) := by
  rw [mapError_kind_parse, mapError_kind_parse]
  exact (sameKind_read h hd).mapError_eq

def lineSample : Text := "a:any (>= 1.0) [ !i386 ] | b , c <p !q>"

def linesSample : Text := "a:any\n (>=\t1.0)\n [\n!i386 ]\n | b\n, c <p\n !q>"

theorem parse_refolds_lines :
    Refolds lineSample linesSample ∧ '$' ∉ lineSample ∧
      (parse linesSample).mapError (·.fault.kind) = .ok
        [[⟨"a".toList, some "any".toList, some ⟨">=".toList, ⟨0, "1.0".toList, []⟩⟩,
            ⟨[⟨"base".toList, "gnu".toList, "linux".toList, "i386".toList⟩], true⟩, []⟩,
          ⟨"b".toList, none, none, .unrestricted, []⟩],
        [⟨"c".toList, none, none, .unrestricted, [[⟨"p".toList, false⟩, ⟨"q".toList, true⟩]]⟩]] := by
  have hrefolds : Refolds lineSample linesSample := by decide
  have hplain : '$' ∉ lineSample := by decide
  refine ⟨hrefolds, hplain, ?_⟩
  rw [← parse_refolds lineSample linesSample hrefolds hplain]
  cbv

/-- Substitution variables keep the white space in their names. -/
example : Refolds "$\x7ba b\x7d" "$\x7ba\nb\x7d" ∧
    (parse "$\x7ba b\x7d").map (·.flatten.map Possibility.name) = .ok ["$\x7ba b\x7d".toList] ∧
    (parse "$\x7ba\nb\x7d").map (·.flatten.map Possibility.name) =
      .ok ["$\x7ba\nb\x7d".toList] :=
  ⟨by decide, by cbv, by cbv⟩

end Field

end Dependency

end DebianPackaging
