import DebianPackaging.Proofs.Dependency.WellFormed

namespace DebianPackaging.Dependency

open Text Outcome

variable {t : Text} {xs : List (Bracket × Text)} {p : Possibility} {r : Relation} {d : Dependency}
  {c : Char}

section Constraint

variable {constraint : VersionConstraint}

def constraintText (constraint : VersionConstraint) : Text :=
  constraint.operator ++ ' ' :: constraint.bound.render

theorem operator_chars (h : constraint.WellFormed) :
    constraint.operator ≠ [] ∧ ∀ c ∈ constraint.operator, isOperatorChar c = true := by
  obtain ⟨op, hop⟩ := Option.isSome_iff_exists.mp h.1
  have hs : op.symbol = constraint.operator := by simpa using List.find?_some hop
  rw [← hs]
  cases op <;> simp [Operator.symbol, isOperatorChar]

theorem isConstraint_constraintText (h : constraint.WellFormed) :
    IsConstraint (constraintText constraint) constraint := by
  obtain ⟨op, hop⟩ := Option.isSome_iff_exists.mp h.1
  rw [ofSymbol?_eq_some_iff] at hop
  refine ⟨[], ' ' :: constraint.bound.render, op, rfl, ?_, hop.symm, parse_trim.mp ?_⟩
  · rw [hop]
    rfl
  · rw [trim_space]
    exact parse_trim.mpr (Version.parse_render h.2)

theorem isInnerChar_constraintText (h : constraint.WellFormed) :
    ∀ c ∈ constraintText constraint, Bracket.round.isInnerChar c = true := by
  intro c hc
  rcases List.mem_append.mp hc with hc | hc
  · simp [Bracket.isInnerChar, (operator_chars h).2 c hc]
  · rcases List.mem_cons.mp hc with rfl | hc
    · decide
    · simp [Bracket.isInnerChar, h.2.isReleaseChar_of_mem_render c hc]

end Constraint

section Architectures

variable {filter : ArchitectureFilter} {a : Architecture} {negated : Bool}

def memberText (negated : Bool) (a : Architecture) : Text :=
  (if negated then ['!'] else []) ++ a.render

def architecturesText (filter : ArchitectureFilter) : Text :=
  join " " (filter.architectures.map (memberText filter.negated))

theorem memberText_chars (h : a.Plain) : ∀ c ∈ memberText negated a,
    Architecture.isPartChar c = true ∨ c = '-' ∨ c = '!' := by
  intro c hc
  rcases List.mem_append.mp hc with hc | hc
  · split at hc
    · exact Or.inr (Or.inr (List.mem_singleton.mp hc))
    · cases hc
  · rcases h.mem_render c hc with hc | hc
    · exact Or.inl hc
    · exact Or.inr (Or.inl hc)

theorem isWord_memberText (h : a.Plain) : IsWord (memberText negated a) := by
  refine ⟨fun hn => h.render_ne_nil (List.append_eq_nil_iff.mp hn).2, fun c hc => ?_⟩
  rcases memberText_chars h c hc with hc | rfl | rfl
  · have := Architecture.isPartChar_toNat hc
    exact isBlank_of_toNat (by omega)
  · decide
  · decide

theorem isMember_memberText (h : a.Plain) : IsMember IsMarks negated (memberText negated a) a := by
  cases negated with
  | false => exact .plain h.parse_render
  | true => exact .negated (isMarks_of_isMark rfl) h.parse_render

theorem isArchitectureList_architecturesText (h : filter.WellFormed) :
    IsArchitectureList IsMarks (architecturesText filter) filter := by
  refine ⟨h.1, filter.architectures.map (memberText filter.negated), ?_, ?_⟩
  · apply words_eq_iff.mp
    apply words_join
    intro w hw
    obtain ⟨a, ha, rfl⟩ := List.mem_map.mp hw
    exact isWord_memberText (h.2 a ha)
  · rw [List.forall₂_map_left_iff, List.forall₂_same]
    exact fun a ha => isMember_memberText (h.2 a ha)

theorem isInnerChar_architecturesText (h : filter.WellFormed) :
    ∀ c ∈ architecturesText filter, Bracket.square.isInnerChar c = true := by
  intro c hc
  rcases mem_join hc with hc | ⟨t, ht, hc⟩
  · rw [List.mem_singleton.mp hc]
    decide
  · obtain ⟨a, ha, rfl⟩ := List.mem_map.mp ht
    rcases memberText_chars (h.2 a ha) c hc with hc | rfl | rfl
    · simp [Bracket.isInnerChar, hc]
    · decide
    · decide

end Architectures

section Group

variable {term : ProfileTerm} {group : List ProfileTerm}

def groupText (group : List ProfileTerm) : Text :=
  join " " (group.map ProfileTerm.render)

theorem termRender_chars (h : isProfile term.profile = true) :
    ∀ c ∈ term.render, isProfileChar c = true ∨ c = '!' := by
  intro c hc
  rcases List.mem_append.mp hc with hc | hc
  · split at hc
    · exact Or.inr (List.mem_singleton.mp hc)
    · cases hc
  · exact Or.inl ((isProfile_chars h).2 c hc)

theorem isProfileChar_toNat (h : isProfileChar c = true) : 33 ≤ c.toNat ∧ c.toNat ≤ 126 := by
  simp only [isProfileChar, Char.isLower, Bool.or_eq_true, Bool.and_eq_true, isDigit_iff_toNat,
    decide_eq_true_eq, List.mem_cons, List.not_mem_nil, or_false, UInt32.le_iff_toNat_le] at h
  rcases h with (⟨h1, h2⟩ | h) | rfl | rfl | rfl
  · exact ⟨le_trans (by decide) h1, le_trans h2 (by decide)⟩
  · omega
  all_goals decide

theorem isTerm_render (h : isProfile term.profile = true) : IsTerm term.render term := by
  obtain ⟨profile, negated⟩ := term
  cases negated with
  | false => exact .plain h
  | true => exact .negated h

theorem isTerms_groupText (h : IsProfileGroup group) : IsList IsTerm (groupText group) group := by
  refine ⟨h.1, group.map ProfileTerm.render, ?_, ?_⟩
  · apply words_eq_iff.mp
    apply words_join
    intro w hw
    obtain ⟨term, ht, rfl⟩ := List.mem_map.mp hw
    refine ⟨fun hn => (isProfile_chars (h.2 term ht)).1 (List.append_eq_nil_iff.mp hn).2,
      fun c hc => ?_⟩
    rcases termRender_chars (h.2 term ht) c hc with hc | rfl
    · exact isBlank_of_toNat (isProfileChar_toNat hc)
    · decide
  · rw [List.forall₂_map_left_iff, List.forall₂_same]
    exact fun term ht => isTerm_render (h.2 term ht)

theorem isInnerChar_groupText (h : IsProfileGroup group) :
    ∀ c ∈ groupText group, Bracket.angle.isInnerChar c = true := by
  intro c hc
  rcases mem_join hc with hc | ⟨t, ht, hc⟩
  · rw [List.mem_singleton.mp hc]
    decide
  · obtain ⟨term, hterm, rfl⟩ := List.mem_map.mp ht
    rcases termRender_chars (h.2 term hterm) c hc with hc | rfl
    · simp [Bracket.isInnerChar, hc]
    · decide

end Group

section Sections

def sectionText (b : Bracket) (inner : Text) : Text :=
  ' ' :: b.opener :: inner ++ [b.closer]

def constraintSections : Option VersionConstraint → List (Bracket × Text)
  | some constraint => [(.round, constraintText constraint)]
  | none => []

def architectureSections (filter : ArchitectureFilter) : List (Bracket × Text) :=
  if filter.architectures.isEmpty then [] else [(.square, architecturesText filter)]

def sections (p : Possibility) : List (Bracket × Text) :=
  constraintSections p.constraint ++ architectureSections p.architectures ++
    p.profileGroups.map fun group => (.angle, groupText group)

def sectionsText (xs : List (Bracket × Text)) : Text :=
  xs.flatMap fun x => sectionText x.1 x.2

theorem isInnerChar_of_mem_sections (h : p.WellFormed) :
    ∀ x ∈ sections p, ∀ c ∈ x.2, x.1.isInnerChar c = true := by
  intro x hx
  simp only [sections, List.mem_append, List.mem_map] at hx
  rcases hx with (hx | hx) | ⟨group, hg, rfl⟩
  · cases hc : p.constraint with
    | none =>
        rw [hc] at hx
        cases hx
    | some constraint =>
        rw [hc] at hx
        rw [List.mem_singleton.mp hx]
        exact isInnerChar_constraintText (h.constraint constraint hc)
  · rcases h.architectures with hu | hw
    · rw [hu] at hx
      cases hx
    · rw [architectureSections, if_neg (by simpa using hw.1), List.mem_singleton] at hx
      rw [hx]
      exact isInnerChar_architecturesText hw
  · exact isInnerChar_groupText (h.groups group hg)

theorem isSectioned_sectionsText (xs : List (Bracket × Text)) : IsSectioned xs (sectionsText xs) := by
  have hspace : isBlankText [' '] = true := by decide
  induction xs with
  | nil => exact .blank rfl
  | cons x xs ih =>
      obtain ⟨b, inner⟩ := x
      have ht : sectionsText ((b, inner) :: xs) =
          [' '] ++ b.opener :: (inner ++ b.closer :: sectionsText xs) := by
        simp [sectionsText, sectionText]
      rw [ht]
      exact .bracket b inner hspace ih

/-- The sections of a possibility say what it restricts. -/
theorem holds_sections (h : p.WellFormed) : ∃ s, Holds IsMarks (sections p) s ∧
    s.constraint = p.constraint ∧ s.architectures.getD .unrestricted = p.architectures ∧
      s.profileGroups = p.profileGroups := by
  obtain ⟨filter, hfilter, hsquare⟩ : ∃ filter : Option ArchitectureFilter,
      filter.getD .unrestricted = p.architectures ∧
        List.Forall₂ (IsSection .square (IsArchitectureList IsMarks))
          (architectureSections p.architectures) filter.toList := by
    rcases h.architectures with hu | hw
    · rw [hu]
      exact ⟨none, rfl, .nil⟩
    · refine ⟨some p.architectures, rfl, ?_⟩
      rw [architectureSections, if_neg (by simpa using hw.1)]
      exact .cons ⟨rfl, isArchitectureList_architecturesText hw⟩ .nil
  refine ⟨⟨p.constraint, filter, p.profileGroups⟩, ?_, rfl, hfilter, rfl⟩
  refine ⟨_, _, _, List.append_assoc _ _ _, ?_, hsquare, ?_⟩
  · cases hc : p.constraint with
    | none => exact .nil
    | some constraint =>
        exact .cons ⟨rfl, isConstraint_constraintText (h.constraint constraint hc)⟩ .nil
  · rw [List.forall₂_map_left_iff, List.forall₂_same]
    exact fun group hg => ⟨rfl, isTerms_groupText (h.groups group hg)⟩

end Sections

section Render

theorem render_eq_append (p : Possibility) :
    p.render = p.name ++ (p.qualifier.elim [] fun q => if q.isEmpty then [] else ':' :: q) ++
      (p.constraint.elim [] fun constraint => ' ' :: constraint.render) ++
      (if p.architectures.architectures.isEmpty then [] else ' ' :: p.architectures.render) ++
      p.profileGroups.flatMap Possibility.renderGroup := by
  rcases p with ⟨name, _ | q, _ | constraint, architectures, groups⟩ <;> rfl

theorem render_eq (h : p.WellFormed) :
    p.render = p.name ++ (qualifierText p.qualifier ++ sectionsText (sections p)) := by
  have hqualifier : (p.qualifier.elim [] fun q => if q.isEmpty then [] else ':' :: q) =
      qualifierText p.qualifier := by
    cases hq : p.qualifier with
    | none => rfl
    | some q => exact if_neg (by simpa using (h.qualifier q hq).1)
  have hconstraint : (p.constraint.elim [] fun constraint => ' ' :: constraint.render) =
      sectionsText (constraintSections p.constraint) := by
    cases p.constraint with
    | none => rfl
    | some constraint =>
        simp [VersionConstraint.render, sectionsText, constraintSections, sectionText,
          constraintText, Bracket.opener, Bracket.closer]
  have harchitectures :
      (if p.architectures.architectures.isEmpty then [] else ' ' :: p.architectures.render) =
        sectionsText (architectureSections p.architectures) := by
    rw [architectureSections, ArchitectureFilter.render]
    split
    · rfl
    · rw [sectionsText, List.flatMap_singleton]
      rfl
  have hgroups : p.profileGroups.flatMap Possibility.renderGroup =
      sectionsText (p.profileGroups.map fun group => (.angle, groupText group)) := by
    rw [sectionsText, List.flatMap_map]
    rfl
  rw [render_eq_append, hqualifier, hconstraint, harchitectures, hgroups, sections]
  simp [sectionsText]

theorem endsPlain_sectionsText (xs : List (Bracket × Text)) : EndsPlain (sectionsText xs) := by
  induction xs with
  | nil => simp [sectionsText, EndsPlain]
  | cons x xs ih =>
      rw [sectionsText, List.flatMap_cons]
      refine EndsPlain.append (endsPlain_concat _ ?_) ih
      cases x.1 <;> decide

theorem trim_render (h : p.WellFormed) : trim p.render = p.render := by
  obtain ⟨⟨first, rest, hname, hfirst⟩, hends⟩ := IsPossibilityName.ends h.name
  rw [render_eq h]
  refine trim_eq_self_of_ends (fun c hc => ?_) ?_
  · rw [hname] at hc
    rwa [← Option.some.inj hc]
  · exact hends.append ((endsPlain_qualifierText h.qualifier).append (endsPlain_sectionsText _))

theorem not_mem_sectionsText (h : ∀ x ∈ xs, ∀ c ∈ x.2, x.1.isInnerChar c = true)
    (hc : c = ',' ∨ c = '|') : c ∉ sectionsText xs := by
  intro hm
  obtain ⟨⟨b, inner⟩, hx, hm⟩ := List.mem_flatMap.mp hm
  simp only [sectionText, List.mem_append, List.mem_cons, List.not_mem_nil, or_false] at hm
  have hopen : c ≠ b.opener := by
    rcases hc with rfl | rfl <;> cases b <;> decide
  have hclose : c ≠ b.closer := by
    rcases hc with rfl | rfl <;> cases b <;> decide
  rcases hm with (rfl | hm | hm) | hm
  · simp at hc
  · exact hopen hm
  · refine not_mem_of_forall (h _ hx) (b.isInnerChar_eq_false c ?_) hm
    rcases hc with rfl | rfl <;> simp
  · exact hclose hm

/-- Nothing that is rendered ends a possibility or a relation. -/
theorem not_mem_render (h : p.WellFormed) (hc : c = ',' ∨ c = '|') : c ∉ p.render := by
  have hname : c ∉ p.name := by
    rcases hc with rfl | rfl
    · exact h.comma_not_mem
    · exact h.bar_not_mem
  have hqualifier : c ∉ qualifierText p.qualifier := by
    cases hq : p.qualifier with
    | none => exact List.not_mem_nil
    | some q =>
        have hchars := (h.qualifier q hq).2
        have hq : isQualifierChar c = false := by rcases hc with rfl | rfl <;> decide
        rw [qualifierText, List.mem_cons, not_or]
        exact ⟨by rcases hc with rfl | rfl <;> decide, not_mem_of_forall hchars hq⟩
  rw [render_eq h, List.mem_append, List.mem_append, not_or, not_or]
  exact ⟨hname, hqualifier, not_mem_sectionsText (isInnerChar_of_mem_sections h) hc⟩

theorem isPossibility_render (h : p.WellFormed) : IsPossibility IsMarks p.render p := by
  obtain ⟨s, hs, hconstraint, harchitectures, hgroups⟩ := holds_sections h
  refine ⟨[], _, sections p, s, rfl, render_eq h, h.name, h.qualifier, isSectioned_sectionsText _, hs,
    hconstraint.symm, harchitectures.symm, hgroups.symm⟩

theorem readPossibility_render (h : p.WellFormed) : readPossibility p.render = .ok p :=
  readPossibility_eq_ok_iff.mpr (isPossibility_render h)

theorem readRelation_render (h : r.WellFormed) (before : Text) (hb : isBlankText before = true)
    (hbar : '|' ∉ before) : readRelation (before ++ r.render) = .ok r := by
  obtain ⟨hne, hp⟩ := h
  have hread : (r.map Possibility.render).mapM readPossibility = .ok r := by
    rw [mapM_eq_ok_iff, List.forall₂_map_left_iff, List.forall₂_same]
    exact fun p hm => readPossibility_render (hp p hm)
  rw [← hread, readRelation]
  apply mapM_congr_of_map_eq (fun t u => readPossibility_congr)
  cases r with
  | nil => exact absurd rfl hne
  | cons p r =>
      have hbars : ∀ q ∈ p :: r, '|' ∉ q.render := fun q hq =>
        not_mem_render (hp q hq) (Or.inr rfl)
      have hfirst : '|' ∉ before ++ p.render := by simp [hbar, hbars p List.mem_cons_self]
      have hrest : ∀ t ∈ r.map Possibility.render, '|' ∉ t := by
        intro t ht
        obtain ⟨q, hq, rfl⟩ := List.mem_map.mp ht
        exact hbars q (List.mem_cons_of_mem _ hq)
      have hspace : isBlankText [' '] = true := by decide
      have hsplit := map_trim_splitOn_join hspace hspace (by decide) (by decide) hfirst hrest
      rw [Relation.render, List.map_cons, append_join_cons]
      refine hsplit.trans ?_
      rw [List.map_cons, List.map_cons, trim_append_of_isBlankText hb]

theorem comma_not_mem_render (h : r.WellFormed) : ',' ∉ r.render := by
  intro hm
  rcases mem_join hm with hm | ⟨t, ht, hm⟩
  · exact absurd hm (by decide)
  · obtain ⟨p, hp, rfl⟩ := List.mem_map.mp ht
    exact not_mem_render (h.2 p hp) (Or.inl rfl) hm

theorem isBlankText_render (h : r.WellFormed) (before : Text) :
    isBlankText (before ++ r.render) = false := by
  obtain ⟨hne, hp⟩ := h
  obtain ⟨p, r, rfl⟩ := List.exists_cons_of_ne_nil hne
  have hw := hp p List.mem_cons_self
  obtain ⟨⟨c, rest, hname, hc⟩, -⟩ := IsPossibilityName.ends hw.name
  obtain ⟨more, hmore⟩ := join_cons " | " p.render (r.map Possibility.render)
  have hmem : c ∈ before ++ Relation.render (p :: r) := by
    rw [Relation.render, List.map_cons, hmore, render_eq hw, hname]
    simp
  rw [isBlankText, List.all_eq_false]
  exact ⟨c, hmem, by simp [hc]⟩

theorem read_render (h : d.WellFormed) : read d.render = .ok d := by
  cases d with
  | nil => cbv
  | cons r d =>
      have hcomma : ∀ t ∈ d.map Relation.render, ',' ∉ t := by
        intro t ht
        obtain ⟨r', hr, rfl⟩ := List.mem_map.mp ht
        exact comma_not_mem_render (h r' (List.mem_cons_of_mem _ hr))
      have hsplit : (Dependency.render (r :: d)).splitOn ',' =
          r.render :: (d.map Relation.render).map ([' '] ++ ·) :=
        splitOn_join (by decide) (comma_not_mem_render (h r List.mem_cons_self)) hcomma
      have hblank : ∀ t ∈ r.render :: (d.map Relation.render).map ([' '] ++ ·),
          (!isBlankText t) = true := by
        intro t ht
        rcases List.mem_cons.mp ht with rfl | ht
        · simpa using isBlankText_render (h r List.mem_cons_self) []
        · obtain ⟨u, hu, rfl⟩ := List.mem_map.mp ht
          obtain ⟨r', hr, rfl⟩ := List.mem_map.mp hu
          rw [isBlankText_render (h r' (List.mem_cons_of_mem _ hr))]
          rfl
      rw [read, hsplit, List.filter_eq_self.mpr hblank, mapM_eq_ok_iff]
      refine List.Forall₂.cons ?_ ?_
      · exact readRelation_render (h r List.mem_cons_self) [] rfl List.not_mem_nil
      · rw [List.map_map, List.forall₂_map_left_iff, List.forall₂_same]
        exact fun r' hr =>
          readRelation_render (h r' (List.mem_cons_of_mem _ hr)) [' '] (by decide) (by decide)

theorem parse_render (h : d.WellFormed) : parse d.render = .ok d := by
  rw [parse, mapError_eq_ok_iff]
  exact read_render h

/-- A field that was read is read as the same after it was written. -/
theorem parse_render_of_parse (text : Text) (d : Dependency) (h : parse text = .ok d) :
    parse d.render = .ok d :=
  parse_render (wellFormed_of_parse h)

theorem parse_render_of_parse_substvar :
    ∃ d, parse " , $\x7ba [ (b\n>\x7d:any(>=1:2-3~x)|c[ !i386 !any-arm ]<!p q>< r>,," = .ok d ∧
      d.render = "$\x7ba [ (b\n>\x7d:any (>= 1:2-3~x) | c [!i386 !any-arm] <!p q> <r>".toList ∧
      parse d.render = .ok d := by
  have h : parse " , $\x7ba [ (b\n>\x7d:any(>=1:2-3~x)|c[ !i386 !any-arm ]<!p q>< r>,," = .ok
      [[⟨"$\x7ba [ (b\n>\x7d".toList, some "any".toList,
          some ⟨">=".toList, ⟨1, "2".toList, "3~x".toList⟩⟩, .unrestricted, []⟩,
        ⟨"c".toList, none, none,
          ⟨[⟨"base".toList, "gnu".toList, "linux".toList, "i386".toList⟩,
            ⟨"any".toList, "any".toList, "any".toList, "arm".toList⟩], true⟩,
          [[⟨"p".toList, true⟩, ⟨"q".toList, false⟩], [⟨"r".toList, false⟩]]⟩]] := by
    cbv
  exact ⟨_, h, by cbv, parse_render_of_parse _ _ h⟩

end Render

end DebianPackaging.Dependency
