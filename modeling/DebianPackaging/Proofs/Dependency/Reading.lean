import DebianPackaging.Proofs.Dependency.Section

namespace DebianPackaging.Dependency

open Text Outcome

variable {t u rest name : Text} {s : Sections} {xs : List (Bracket × Text)} {p : Possibility}
  {r : Relation} {d : Dependency} {c : Char}

section Name

theorem isBlank_of_isAlphanum (h : c.isAlphanum = true) : isBlank c = false := by
  rw [Char.isAlphanum, Bool.or_eq_true, isAlpha_iff_toNat, isDigit_iff_toNat] at h
  exact isBlank_of_toNat (by omega)

theorem isBlank_of_isNameChar (h : isNameChar c = true) : isBlank c = false := by
  simp only [isNameChar, Bool.or_eq_true, decide_eq_true_eq, List.mem_cons, List.not_mem_nil,
    or_false] at h
  rcases h with h | rfl | rfl | rfl | rfl
  · exact isBlank_of_isAlphanum h
  all_goals decide

theorem isNameChar_of_isQualifierChar (h : isQualifierChar c = true) : isNameChar c = true := by
  rw [isQualifierChar, Bool.or_eq_true, decide_eq_true_eq] at h
  rcases h with h | rfl
  · rw [isNameChar, h, Bool.true_or]
  · decide

theorem IsPossibilityName.ends (h : IsPossibilityName name) :
    (∃ c rest, name = c :: rest ∧ isBlank c = false) ∧ EndsPlain name := by
  rcases h with ⟨inner, rfl, -⟩ | ⟨c, rest, rfl, hc, hrest⟩
  · exact ⟨⟨'$', _, rfl, by decide⟩, endsPlain_concat _ (by decide)⟩
  · refine ⟨⟨c, rest, rfl, isBlank_of_isAlphanum hc⟩, endsPlain_of_forall fun d hd => ?_⟩
    rcases List.mem_cons.mp hd with rfl | hd
    · exact isBlank_of_isAlphanum hc
    · exact isBlank_of_isNameChar (hrest d hd)

theorem IsPossibilityName.startsPlain (h : IsPossibilityName name) :
    name ≠ [] ∧ StartsPlain name := by
  obtain ⟨⟨c, rest, rfl, hc⟩, -⟩ := IsPossibilityName.ends h
  exact ⟨by simp, startsPlain_cons hc rest⟩

theorem endsPlain_qualifierText {qualifier : Option Text} (h : ∀ q ∈ qualifier, IsQualifier q) :
    EndsPlain (qualifierText qualifier) := by
  cases qualifier with
  | none => simp [qualifierText, EndsPlain]
  | some q =>
      refine endsPlain_of_forall fun c hc => ?_
      rcases List.mem_cons.mp hc with rfl | hc
      · decide
      · exact isBlank_of_isNameChar (isNameChar_of_isQualifierChar ((h q rfl).2 c hc))

theorem readName_sound (h : readName t = .ok (name, rest)) :
    IsPossibilityName name ∧ t = name ++ rest := by
  unfold readName at h
  split at h
  · split at h
    · cases h
    · rename_i inner rest' hc
      cases h
      obtain ⟨rfl, hn⟩ := cut_eq_some hc
      exact ⟨Or.inl ⟨inner, rfl, hn⟩, by simp⟩
  · split at h
    · rename_i c rest' _ ha
      cases h
      refine ⟨Or.inr ⟨c, _, rfl, ha, fun d hd => ?_⟩, ?_⟩
      · exact (List.mem_takeWhile_imp hd)
      · rw [List.cons_append, List.takeWhile_append_dropWhile]
    · cases h
  · cases h

theorem readName_append (h : IsPossibilityName name)
    (hrest : ∀ c, rest.head? = some c → isNameChar c = false) :
    readName (name ++ rest) = .ok (name, rest) := by
  rcases h with ⟨inner, rfl, hn⟩ | ⟨c, tail, rfl, hc, htail⟩
  · have ht : '$' :: '{' :: inner ++ ['}'] ++ rest = '$' :: '{' :: (inner ++ '}' :: rest) := by
      simp
    rw [ht, readName, cut_append hn]
  · obtain ⟨htake, hdrop⟩ := takeWhile_append_of_head? htail hrest
    have hne : c ≠ '$' := by
      rintro rfl
      exact absurd hc (by decide)
    rw [List.cons_append, readName, if_pos hc, htake, hdrop]
    intro _ he
    exact absurd he hne

theorem readQualifier_sound {qualifier : Option Text} (h : readQualifier t = (qualifier, rest)) :
    ∀ q ∈ qualifier, IsQualifier q := by
  unfold readQualifier at h
  split at h
  · split at h
    · cases h
      simp
    · rename_i hne
      cases h
      intro q hq
      rw [Option.mem_some_iff] at hq
      subst hq
      exact ⟨by simpa using hne, fun c hc => List.mem_takeWhile_imp hc⟩
  · cases h
    simp

theorem readQualifier_text {qualifier : Option Text} (h : readQualifier t = (qualifier, rest)) :
    t = qualifierText qualifier ++ rest := by
  unfold readQualifier at h
  split at h
  · split at h
    · cases h
      rfl
    · cases h
      rw [qualifierText, List.cons_append, List.takeWhile_append_dropWhile]
  · cases h
    rfl

theorem readQualifier_append {qualifier : Option Text} (h : ∀ q ∈ qualifier, IsQualifier q)
    (hrest : ∀ c, rest.head? = some c → isQualifierChar c = false ∧ c ≠ ':') :
    readQualifier (qualifierText qualifier ++ rest) = (qualifier, rest) := by
  cases qualifier with
  | none =>
      cases rest with
      | nil => rfl
      | cons c rest =>
          rw [qualifierText, List.nil_append, readQualifier]
          rintro rest' he
          exact (hrest c rfl).2 (List.cons.inj he).1
  | some q =>
      obtain ⟨hne, hq⟩ := h q rfl
      obtain ⟨htake, hdrop⟩ := takeWhile_append_of_head? hq fun c hc => (hrest c hc).1
      rw [qualifierText, List.cons_append, readQualifier, htake, hdrop, if_neg (by simpa using hne)]

end Name

section Possibility

theorem IsSectioned.append_blank (h : IsSectioned xs t) (hr : isBlankText rest = true) :
    IsSectioned xs (t ++ rest) := by
  induction h with
  | blank h =>
      apply IsSectioned.blank
      rw [isBlankText, List.all_append, Bool.and_eq_true]
      exact ⟨h, hr⟩
  | bracket b inner hbefore _ ih =>
      rw [List.append_assoc, List.cons_append, List.append_assoc, List.cons_append]
      exact .bracket b inner hbefore ih

theorem Bracket.isBlank_closer (b : Bracket) : isBlank b.closer = false := by
  cases b <;> decide

theorem IsSectioned.exists_endsPlain (h : IsSectioned xs t) : ∃ body after,
    t = body ++ after ∧ isBlankText after = true ∧ IsSectioned xs body ∧ EndsPlain body := by
  induction h with
  | @blank t h => exact ⟨[], t, rfl, h, .blank rfl, by simp [EndsPlain]⟩
  | @bracket before rest xs b inner hbefore _ ih =>
      obtain ⟨body, after, rfl, hafter, hbody, hends⟩ := ih
      refine ⟨before ++ b.opener :: (inner ++ b.closer :: body), after, by simp, hafter,
        .bracket b inner hbefore hbody, ?_⟩
      have hfront : EndsPlain (before ++ b.opener :: inner ++ [b.closer]) :=
        endsPlain_concat _ b.isBlank_closer
      have hall := hfront.append hends
      simpa using hall

theorem IsSectioned.head? {c : Char} (h : IsSectioned xs t) (hc : t.head? = some c) :
    isBlank c = true ∨ ∃ b : Bracket, c = b.opener := by
  cases h with
  | blank h => exact Or.inl (List.all_eq_true.mp h c (List.mem_of_mem_head? hc))
  | @bracket before rest xs b inner hbefore _ =>
      cases before with
      | nil => exact Or.inr ⟨b, (Option.some.inj hc).symm⟩
      | cons d before =>
          rw [← Option.some.inj hc]
          exact Or.inl (List.all_eq_true.mp hbefore d List.mem_cons_self)

/-- What may stand after a name and its qualifier is part of neither. -/
theorem IsSectioned.stops {c : Char} (h : IsSectioned xs t) (hc : t.head? = some c) :
    isNameChar c = false ∧ c ≠ ':' := by
  rcases h.head? hc with hb | ⟨b, rfl⟩
  · refine ⟨?_, ?_⟩
    · by_contra hn
      rw [isBlank_of_isNameChar (by simpa using hn)] at hb
      cases hb
    · rintro rfl
      exact absurd hb (by decide)
  · cases b <;> decide

theorem readPossibility_eq_ok_iff : readPossibility t = .ok p ↔ IsPossibility IsMarks t p := by
  constructor
  · intro h
    rw [readPossibility] at h
    obtain ⟨⟨name, u⟩, hn, h⟩ := bind_eq_ok_iff.mp h
    obtain ⟨hname, ht⟩ := readName_sound hn
    rcases hq : readQualifier u with ⟨qualifier, rest⟩
    simp only [hq] at h
    obtain ⟨s, hs, h⟩ := bind_eq_ok_iff.mp h
    obtain ⟨xs, hx, hh⟩ := readSections_eq_ok_iff.mp hs
    obtain ⟨before, after, hbefore, hafter, htrim⟩ := exists_trim t
    cases h
    refine ⟨before, rest ++ after, xs, s, hbefore, ?_, hname, readQualifier_sound hq,
      hx.append_blank hafter, hh, rfl, rfl, rfl⟩
    rw [htrim, ht, readQualifier_text hq]
    simp only [List.append_assoc]
  · rintro ⟨before, rest, xs, s, hbefore, rfl, hname, hqualifier, hx, hs, hc, ha, hg⟩
    obtain ⟨body, after, rfl, hafter, hbody, hends⟩ := hx.exists_endsPlain
    have htrim : trim (before ++ (p.name ++ (qualifierText p.qualifier ++ (body ++ after)))) =
        p.name ++ (qualifierText p.qualifier ++ body) := by
      have happend : p.name ++ (qualifierText p.qualifier ++ (body ++ after)) =
          p.name ++ (qualifierText p.qualifier ++ body) ++ after := by simp
      rw [trim_append_of_isBlankText hbefore, happend, trim_append_right_of_isBlankText hafter]
      obtain ⟨hne, hstart⟩ := IsPossibilityName.startsPlain hname
      have hname' := (IsPossibilityName.ends hname).2
      refine trim_eq_self_of_ends (hstart.append hne _) ?_
      exact hname'.append ((endsPlain_qualifierText hqualifier).append hends)
    have hn : readName (p.name ++ (qualifierText p.qualifier ++ body)) =
        .ok (p.name, qualifierText p.qualifier ++ body) := by
      refine readName_append hname fun c hc => ?_
      cases hq : p.qualifier with
      | none =>
          rw [hq] at hc
          exact (hbody.stops hc).1
      | some q =>
          rw [hq] at hc
          rw [← Option.some.inj hc]
          decide
    have hq : readQualifier (qualifierText p.qualifier ++ body) = (p.qualifier, body) := by
      refine readQualifier_append hqualifier fun c hc => ⟨?_, (hbody.stops hc).2⟩
      by_contra hqual
      have := isNameChar_of_isQualifierChar (by simpa using hqual)
      rw [(hbody.stops hc).1] at this
      cases this
    rw [readPossibility, htrim]
    refine bind_eq_ok_iff.mpr ⟨_, hn, ?_⟩
    simp only [hq]
    refine bind_eq_ok_iff.mpr ⟨s, readSections_eq_ok_iff.mpr ⟨xs, hbody, hs⟩, ?_⟩
    rw [← hc, ← ha, ← hg]

theorem readPossibility_congr (h : trim t = trim u) : readPossibility t = readPossibility u := by
  rw [readPossibility, h, readPossibility]

end Possibility

theorem readRelation_eq_ok_iff : readRelation t = .ok r ↔ IsRelation IsMarks t r := by
  rw [readRelation, mapM_eq_ok_iff]
  simp only [readPossibility_eq_ok_iff]
  constructor
  · intro h
    exact ⟨_, splitOn_eq_iff.mp rfl, h⟩
  · rintro ⟨pieces, hs, hf⟩
    rwa [splitOn_eq_iff.mpr hs]

theorem parse_eq_ok_iff_isField : parse t = .ok d ↔ IsField IsMarks t d := by
  rw [parse, mapError_eq_ok_iff, read, mapM_eq_ok_iff]
  simp only [readRelation_eq_ok_iff]
  constructor
  · intro h
    exact ⟨_, splitOn_eq_iff.mp rfl, h⟩
  · rintro ⟨pieces, hs, hf⟩
    rwa [splitOn_eq_iff.mpr hs]

/-- An architecture list with one member has one mark, or none. -/
theorem IsArchitectureList.count_le {a : Architecture} {negated : Bool}
    (h : IsArchitectureList IsMark t ⟨[a], negated⟩) : t.count '!' ≤ 1 := by
  obtain ⟨-, ws, hs, hf⟩ := h
  obtain ⟨w, rest, hm, hrest, rfl⟩ := List.forall₂_cons_right_iff.mp hf
  cases hrest
  have hw := hs.isWord w List.mem_cons_self
  rw [hs.count_eq (by decide)]
  cases hm with
  | plain hp => simp [List.count_eq_zero.mpr (mark_not_mem hp hw.2)]
  | negated hmark hp =>
      rw [hmark] at hw ⊢
      have hname := mark_not_mem hp fun c hc => hw.2 c (List.mem_append_right _ hc)
      simp [List.count_eq_zero.mpr hname]

theorem IsPossibility.count_le {a : Architecture} {negated : Bool}
    (h : IsPossibility IsMark t ⟨name, none, none, ⟨[a], negated⟩, []⟩) :
    t.count '!' ≤ name.count '!' + 1 := by
  obtain ⟨before, rest, xs, s, hbefore, rfl, -, -, hx, hs, hc, ha, hg⟩ := h
  obtain ⟨rounds, squares, angles, rfl, hround, hsquare, hangle⟩ := hs
  have hmark : isBlank '!' = false := by decide
  have hbrackets : ∀ b : Bracket, '!' ≠ b.opener ∧ '!' ≠ b.closer := by
    intro b
    cases b <;> decide
  rw [← hc] at hround
  rw [← hg] at hangle
  cases hround
  cases hangle
  cases hf : s.architectures with
  | none =>
      rw [hf] at ha
      cases ha
  | some filter =>
      rw [hf] at ha hsquare
      cases ha
      obtain ⟨x, rest', ⟨-, hl⟩, hrest, rfl⟩ := List.forall₂_cons_right_iff.mp hsquare
      cases hrest
      have hle := hl.count_le
      rw [List.count_append, List.count_append, List.count_append,
        count_eq_zero_of_isBlankText hbefore hmark, hx.count_eq hmark hbrackets]
      simp only [qualifierText, List.nil_append, List.append_nil, List.count_nil, List.map_cons,
        List.map_nil, List.sum_cons, List.sum_nil]
      omega

/-- Texts of the grammar are read as the fields that they say. An architecture may have more than
one mark before it; where no two marks meet, it has one. -/
theorem parse_iff_isField (text : Text) (d : Dependency) :
    (parse text = .ok d ↔ IsField IsMarks text d) ∧
      (¬['!', '!'] <:+: text → (parse text = .ok d ↔ IsField IsMark text d)) := by
  refine ⟨parse_eq_ok_iff_isField, fun hn => ?_⟩
  rw [parse_eq_ok_iff_isField]
  constructor
  · intro h
    exact h.mono fun m hm hmarks => isMark_of_isMarks hmarks fun hi => hn (hi.trans hm)
  · intro h
    exact h.mono fun m _ => isMarks_of_isMark

theorem parse_iff_isField_negated :
    IsField IsMark " ,a:any(>= 1:2-3~x) [ !i386 !any-arm]<!p q>< r> | $\x7bb\x7d\n," 
      [[⟨"a".toList, some "any".toList, some ⟨">=".toList, ⟨1, "2".toList, "3~x".toList⟩⟩,
          ⟨[⟨"base".toList, "gnu".toList, "linux".toList, "i386".toList⟩,
            ⟨"any".toList, "any".toList, "any".toList, "arm".toList⟩], true⟩,
          [[⟨"p".toList, true⟩, ⟨"q".toList, false⟩], [⟨"r".toList, false⟩]]⟩,
        ⟨"$\x7bb\x7d".toList, none, none, .unrestricted, []⟩]] :=
  ((parse_iff_isField _ _).2 (by decide)).mp (by cbv)

theorem parse_twoMarks : (∃ d, parse "foo [!!amd64]" = .ok d) ∧
    ∀ d, ¬IsField IsMark "foo [!!amd64]" d := by
  have hread : parse "foo [!!amd64]" = .ok [[⟨"foo".toList, none, none,
      ⟨[⟨"base".toList, "gnu".toList, "linux".toList, "amd64".toList⟩], true⟩, []⟩]] := by
    cbv
  refine ⟨⟨_, hread⟩, fun d h => ?_⟩
  have hd := parse_eq_ok_iff_isField.mpr (h.mono fun m _ => isMarks_of_isMark)
  rw [hread] at hd
  cases hd
  obtain ⟨pieces, hs, hf⟩ := h
  have hpieces : pieces.filter (!isBlankText ·) = ["foo [!!amd64]".toList] := by
    rw [← splitOn_eq_iff.mpr hs]
    cbv
  rw [hpieces] at hf
  obtain ⟨pieces, hs, hf⟩ := (List.forall₂_cons.mp hf).1
  have hpieces : pieces = ["foo [!!amd64]".toList] := by
    rw [← splitOn_eq_iff.mpr hs]
    cbv
  rw [hpieces] at hf
  have hle := (List.forall₂_cons.mp hf).1.count_le
  exact absurd hle (by decide)

end DebianPackaging.Dependency
