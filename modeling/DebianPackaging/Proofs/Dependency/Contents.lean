import DebianPackaging.Proofs.Architecture.Name
import DebianPackaging.Proofs.Dependency.Grammar
import DebianPackaging.Proofs.Version.Grammar

namespace DebianPackaging.Dependency

open Text Outcome

variable {α : Type} {R : Text → α → Prop} {t inner token name : Text} {as : List α}
  {s : Sections} {b : Bracket} {xs : List (Bracket × Text)} {p : Char → Bool} {c : Char}

theorem not_mem_of_forall (h : ∀ c ∈ t, p c = true) (hc : p c = false) : c ∉ t := fun hm =>
  Bool.noConfusion ((h c hm).symm.trans hc)

section Constraint

theorem isBlank_of_isOperatorChar (h : isOperatorChar c = true) : isBlank c = false := by
  simp only [isOperatorChar, decide_eq_true_eq, List.mem_cons, List.not_mem_nil, or_false] at h
  rcases h with rfl | rfl | rfl <;> decide

theorem ofSymbol?_eq_some_iff {op : Operator} :
    Operator.ofSymbol? t = some op ↔ op.symbol = t := by
  constructor
  · intro h
    simpa using List.find?_some h
  · rintro rfl
    cases op <;> rfl

theorem symbol_chars (op : Operator) :
    op.symbol ≠ [] ∧ ∀ c ∈ op.symbol, isOperatorChar c = true := by
  cases op <;> simp [Operator.symbol, isOperatorChar]

theorem isOperatorChar_of_isReleaseChar {c : Char} (h : Version.isReleaseChar c = true) :
    isOperatorChar c = false := by
  by_contra ho
  rw [Bool.not_eq_false, isOperatorChar, decide_eq_true_eq] at ho
  simp only [List.mem_cons, List.not_mem_nil, or_false] at ho
  rcases ho with rfl | rfl | rfl <;> exact absurd h (by decide)

theorem isOperatorChar_of_isBlank {c : Char} (h : isBlank c = true) : isOperatorChar c = false := by
  by_contra ho
  rw [isBlank_of_isOperatorChar (by simpa using ho)] at h
  cases h

theorem parse_trim {v : Version} : Version.parse (trim t) = .ok v ↔ Version.parse t = .ok v := by
  rw [Version.parse, Version.parse, Version.parseWith, Version.parseWith, mapError_eq_ok_iff,
    mapError_eq_ok_iff, trim_trim]

theorem readConstraint_eq_ok_iff {constraint : VersionConstraint} :
    readConstraint inner = .ok constraint ↔ IsConstraint inner constraint := by
  constructor
  · intro h
    rw [readConstraint, ite_error_eq_ok_iff] at h
    obtain ⟨hop, h⟩ := h
    rw [Option.isNone_iff_eq_none, ← ne_eq, Option.ne_none_iff_exists'] at hop
    obtain ⟨op, hop⟩ := hop
    rw [ofSymbol?_eq_some_iff] at hop
    split at h
    · rename_i bound hv
      cases h
      refine ⟨inner.takeWhile isBlank, _, op, ?_, ?_, hop.symm, parse_trim.mp hv⟩
      · exact List.all_eq_true.mpr fun c hc => List.mem_takeWhile_imp hc
      · rw [hop, List.takeWhile_append_dropWhile, trimLeft, List.takeWhile_append_dropWhile]
    · cases h
  · rintro ⟨before, version, op, hbefore, rfl, hop, hv⟩
    obtain ⟨hne, hchars⟩ := symbol_chars op
    obtain ⟨c, symbol, hsymbol⟩ := List.exists_cons_of_ne_nil hne
    have hc : isBlank c = false := isBlank_of_isOperatorChar (hchars c (by simp [hsymbol]))
    have hleft : trimLeft (before ++ (op.symbol ++ version)) = op.symbol ++ version := by
      rw [trimLeft_append_of_isBlankText hbefore, hsymbol]
      exact trimLeft_of_startsPlain (startsPlain_cons hc _)
    have hstop : ∀ c, version.head? = some c → isOperatorChar c = false := by
      intro c hc
      rcases Version.isReleaseChar_of_parse hv c (List.mem_of_mem_head? hc) with hb | hr
      · exact isOperatorChar_of_isBlank hb
      · exact isOperatorChar_of_isReleaseChar hr
    obtain ⟨htake, hdrop⟩ := takeWhile_append_of_head? hchars hstop
    rw [readConstraint, hleft, htake, hdrop, ofSymbol?_eq_some_iff.mpr rfl, if_neg (by simp),
      parse_trim.mpr hv, ← hop]

end Constraint

section Lists

theorem isNegated_of_not_mem (h : '!' ∉ name) : isNegated name = false := by
  cases name with
  | nil => rfl
  | cons c name =>
      have hc : c ≠ '!' := fun he => h (by simp [he])
      simpa [isNegated] using hc

theorem mark_not_mem {a : Architecture} (h : Architecture.parse name = .ok a)
    (hb : ∀ c ∈ name, isBlank c = false) : '!' ∉ name := by
  intro hm
  rcases Architecture.isPartChar_of_parse h hb '!' hm with hc | hc
  · exact absurd hc (by decide)
  · exact absurd hc (by decide)

theorem dropWhile_of_isNegated (h : isNegated name = false) : name.dropWhile (· == '!') = name := by
  cases name with
  | nil => rfl
  | cons c name => exact List.dropWhile_cons_of_neg (by simpa [isNegated] using h)

theorem readMember_eq_ok_iff {negated : Bool} {a : Architecture} (hw : IsWord token) :
    readMember negated token = .ok a ↔ IsMember IsMarks negated token a := by
  rw [readMember, ite_error_eq_ok_iff, mapError_eq_ok_iff, bne_iff_ne, not_not]
  constructor
  · rintro ⟨rfl, hp⟩
    cases hn : isNegated token with
    | false =>
        rw [hn, if_neg Bool.false_ne_true] at hp
        exact .plain hp
    | true =>
        rw [hn, if_pos rfl] at hp
        obtain ⟨rest, rfl⟩ := List.head?_eq_some_iff.mp (beq_iff_eq.mp hn)
        rw [← List.takeWhile_append_dropWhile (p := (· == '!')) (l := '!' :: rest)]
        refine .negated ⟨by simp, fun c hc => ?_⟩ hp
        simpa using List.mem_takeWhile_imp hc
  · intro h
    cases h with
    | plain hp =>
        have hn := isNegated_of_not_mem (mark_not_mem hp hw.2)
        exact ⟨hn, by rwa [if_neg Bool.false_ne_true]⟩
    | @negated mark name _ hm hp =>
        have hn := isNegated_of_not_mem (mark_not_mem hp fun c hc =>
          hw.2 c (List.mem_append_right _ hc))
        obtain ⟨hne, hmark⟩ := hm
        refine ⟨?_, ?_⟩
        · obtain ⟨c, mark, rfl⟩ := List.exists_cons_of_ne_nil hne
          rw [hmark c List.mem_cons_self]
          rfl
        · rwa [if_pos rfl, List.dropWhile_append_of_pos (by simpa using hmark),
            dropWhile_of_isNegated hn]

theorem readArchitectures_eq_ok_iff {filter : ArchitectureFilter} :
    readArchitectures inner = .ok filter ↔ IsArchitectureList IsMarks inner filter := by
  have hread : ∀ {ws : List Text} {negated : Bool} {as : List Architecture}, IsSpaced ws inner →
      (ws.mapM (readMember negated) = .ok as ↔ List.Forall₂ (IsMember IsMarks negated) ws as) := by
    intro ws negated as hs
    rw [mapM_eq_ok_iff]
    exact forall₂_congr_of_mem fun w hw a => readMember_eq_ok_iff (hs.isWord w hw)
  constructor
  · intro h
    unfold readArchitectures at h
    split at h
    · cases h
    · rename_i token tokens hw
      obtain ⟨as, hm, rfl⟩ := map_eq_ok_iff.mp h
      have hs := words_eq_iff.mp hw
      exact ⟨mapM_ne_nil hm (by simp), _, hs, (hread hs).mp hm⟩
  · rintro ⟨hne, ws, hs, hf⟩
    obtain ⟨a, as, has⟩ := List.exists_cons_of_ne_nil hne
    have hm := (hread hs).mpr hf
    rw [has] at hf
    obtain ⟨token, tokens, hfirst, -, rfl⟩ := List.forall₂_cons_right_iff.mp hf
    have hn : isNegated token = filter.negated := by
      have hr := (readMember_eq_ok_iff (hs.isWord token List.mem_cons_self)).mpr hfirst
      rw [readMember, ite_error_eq_ok_iff] at hr
      simpa using hr.1
    rw [readArchitectures, words_eq_iff.mpr hs]
    simp only [hn, hm]
    rfl

theorem isProfile_chars (h : isProfile t = true) : t ≠ [] ∧ ∀ c ∈ t, isProfileChar c = true := by
  rw [isProfile, Bool.and_eq_true, List.all_eq_true] at h
  refine ⟨?_, h.2⟩
  rintro rfl
  exact Bool.noConfusion h.1

theorem readTerm_eq_ok_iff {term : ProfileTerm} :
    readTerm token = .ok term ↔ IsTerm token term := by
  constructor
  · intro h
    rw [readTerm] at h
    cases hn : isNegated token with
    | false =>
        simp only [hn, if_neg Bool.false_ne_true] at h
        split at h
        · rename_i hp
          cases h
          exact .plain hp
        · cases h
    | true =>
        simp only [hn, if_pos] at h
        obtain ⟨profile, rfl⟩ := List.head?_eq_some_iff.mp (beq_iff_eq.mp hn)
        split at h
        · rename_i hp
          cases h
          exact .negated hp
        · cases h
  · intro h
    cases h with
    | plain hp =>
        have hn : isNegated token = false :=
          isNegated_of_not_mem (not_mem_of_forall (isProfile_chars hp).2 (by decide))
        simp [readTerm, hn, hp]
    | negated hp => simp [readTerm, isNegated, hp]

theorem readGroup_eq_ok_iff {group : List ProfileTerm} :
    readGroup inner = .ok group ↔ IsList IsTerm inner group := by
  have hread : ∀ {ws : List Text}, ws.mapM readTerm = .ok group ↔ List.Forall₂ IsTerm ws group := by
    intro ws
    rw [mapM_eq_ok_iff]
    exact forall₂_congr_of_mem fun w _ term => readTerm_eq_ok_iff
  constructor
  · intro h
    unfold readGroup at h
    split at h
    · cases h
    · rename_i hne
      exact ⟨mapM_ne_nil h fun hw => hne hw, _, words_eq_iff.mp rfl, hread.mp h⟩
  · rintro ⟨hne, ws, hs, hf⟩
    obtain ⟨term, terms, rfl⟩ := List.exists_cons_of_ne_nil hne
    have hm := hread.mpr hf
    obtain ⟨token, tokens, -, -, rfl⟩ := List.forall₂_cons_right_iff.mp hf
    rw [readGroup, words_eq_iff.mpr hs]
    exact hm

end Lists

section Inner

def Bracket.isInnerChar : Bracket → Char → Bool
  | .round, c => isOperatorChar c || Version.isReleaseChar c || c == ' '
  | .square, c => Architecture.isPartChar c || c == '-' || c == '!' || c == ' '
  | .angle, c => isProfileChar c || c == '!' || c == ' '

theorem Bracket.isInnerChar_eq_false (b : Bracket) :
    ∀ c ∈ ',' :: '|' :: b.closer :: b.forbidden, b.isInnerChar c = false := by
  cases b <;> simp [forbidden, closer] <;> decide

def Bracket.IsInner (b : Bracket) (t : Text) : Prop :=
  ∀ c ∈ t, isBlank c = true ∨ b.isInnerChar c = true

theorem Bracket.isBlank_of_mem (b : Bracket) :
    ∀ c ∈ b.closer :: b.forbidden, isBlank c = false := by
  cases b <;> simp [closer, forbidden] <;> decide

theorem Bracket.IsInner.not_mem {c : Char} (h : b.IsInner inner)
    (hc : c ∈ b.closer :: b.forbidden) : c ∉ inner := by
  intro hm
  rcases h c hm with hb | hi
  · rw [b.isBlank_of_mem c hc] at hb
    cases hb
  · rw [b.isInnerChar_eq_false c (by simp at hc ⊢; tauto)] at hi
    cases hi

theorem Bracket.IsInner.checkInner (h : b.IsInner inner) : b.checkInner inner = .ok () := by
  have hany : inner.any (b.forbidden.contains ·) = false := by
    rw [List.any_eq_false]
    intro c hc hf
    exact h.not_mem (List.mem_cons_of_mem _ (List.contains_iff_mem.mp hf)) hc
  rw [Bracket.checkInner, hany]
  rfl

theorem IsConstraint.isInner {constraint : VersionConstraint} (h : IsConstraint t constraint) :
    Bracket.round.IsInner t := by
  obtain ⟨before, version, op, hbefore, rfl, -, hv⟩ := h
  intro c hc
  rw [List.mem_append, List.mem_append] at hc
  rcases hc with hc | hc | hc
  · exact Or.inl (List.all_eq_true.mp hbefore c hc)
  · exact Or.inr (by simp [Bracket.isInnerChar, (symbol_chars op).2 c hc])
  · rcases Version.isReleaseChar_of_parse hv c hc with hb | hr
    · exact Or.inl hb
    · exact Or.inr (by simp [Bracket.isInnerChar, hr])

theorem IsList.isInner (h : IsList R t as)
    (hw : ∀ w, IsWord w → ∀ a, R w a → b.IsInner w) : b.IsInner t := by
  obtain ⟨-, ws, hs, hf⟩ := h
  intro c hc
  rcases hs.mem hc with hb | ⟨w, hm, hc⟩
  · exact Or.inl hb
  · obtain ⟨a, -, hr⟩ := exists_of_forall₂ hf.flip w hm
    exact hw w (hs.isWord w hm) a hr c hc

theorem isInner_of_isName {a : Architecture} (h : Architecture.parse name = .ok a)
    (hb : ∀ c ∈ name, isBlank c = false) : Bracket.square.IsInner name := by
  intro c hc
  rcases Architecture.isPartChar_of_parse h hb c hc with hp | rfl
  · exact Or.inr (by simp [Bracket.isInnerChar, hp])
  · exact Or.inr (by decide)

theorem IsMember.isInner {negated : Bool} {a : Architecture} (h : IsMember IsMarks negated token a)
    (hw : IsWord token) : Bracket.square.IsInner token := by
  cases h with
  | plain hp => exact isInner_of_isName hp hw.2
  | @negated mark name _ hm hp =>
      intro c hc
      rcases List.mem_append.mp hc with hc | hc
      · rw [hm.2 c hc]
        exact Or.inr (by decide)
      · exact isInner_of_isName hp (fun d hd => hw.2 d (List.mem_append_right _ hd)) c hc

theorem IsArchitectureList.isInner {filter : ArchitectureFilter}
    (h : IsArchitectureList IsMarks t filter) : Bracket.square.IsInner t :=
  IsList.isInner h fun _ hw _ hm => hm.isInner hw

theorem isInner_of_isTerms {group : List ProfileTerm} (h : IsList IsTerm t group) :
    Bracket.angle.IsInner t := by
  refine h.isInner fun w _ term ht c hc => Or.inr ?_
  cases ht with
  | plain hp => simp [Bracket.isInnerChar, (isProfile_chars hp).2 c hc]
  | negated hp =>
      rcases List.mem_cons.mp hc with rfl | hc
      · decide
      · simp [Bracket.isInnerChar, (isProfile_chars hp).2 c hc]

theorem Holds.isInner (h : Holds IsMarks xs s) : ∀ x ∈ xs, x.1.IsInner x.2 := by
  obtain ⟨rounds, squares, angles, rfl, hr, hq, ha⟩ := h
  intro x hx
  rw [List.mem_append, List.mem_append] at hx
  rcases hx with hx | hx | hx
  · obtain ⟨constraint, -, hb, hc⟩ := exists_of_forall₂ hr.flip x hx
    exact hb ▸ hc.isInner
  · obtain ⟨filter, -, hb, hf⟩ := exists_of_forall₂ hq.flip x hx
    exact hb ▸ hf.isInner
  · obtain ⟨group, -, hb, hg⟩ := exists_of_forall₂ ha.flip x hx
    exact hb ▸ isInner_of_isTerms hg

end Inner

end DebianPackaging.Dependency
