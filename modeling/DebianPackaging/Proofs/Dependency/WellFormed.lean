import DebianPackaging.Proofs.Dependency.Reading
import DebianPackaging.Proofs.Version.WellFormed

namespace DebianPackaging

open Text Outcome

def VersionConstraint.WellFormed (c : VersionConstraint) : Prop :=
  (Operator.ofSymbol? c.operator).isSome = true ∧ c.bound.WellFormed

def ArchitectureFilter.WellFormed (f : ArchitectureFilter) : Prop :=
  f.architectures ≠ [] ∧ ∀ a ∈ f.architectures, a.Plain

def IsProfileGroup (group : List ProfileTerm) : Prop :=
  group ≠ [] ∧ ∀ term ∈ group, Dependency.isProfile term.profile = true

/-- What a possibility needs to be written between commas and bars. -/
structure Possibility.WellFormed (p : Possibility) : Prop where
  name : IsPossibilityName p.name
  comma_not_mem : ',' ∉ p.name
  bar_not_mem : '|' ∉ p.name
  qualifier : ∀ qualifier ∈ p.qualifier, IsQualifier qualifier
  constraint : ∀ constraint ∈ p.constraint, constraint.WellFormed
  architectures : p.architectures = .unrestricted ∨ p.architectures.WellFormed
  groups : ∀ group ∈ p.profileGroups, IsProfileGroup group

def Relation.WellFormed (r : Relation) : Prop :=
  r ≠ [] ∧ ∀ p ∈ r, p.WellFormed

def Dependency.WellFormed (d : Dependency) : Prop :=
  ∀ r ∈ d, Relation.WellFormed r

namespace Dependency

variable {t w : Text} {negates : Text → Prop} {s : Sections} {xs : List (Bracket × Text)}

theorem IsConstraint.wellFormed {constraint : VersionConstraint} (h : IsConstraint t constraint) :
    constraint.WellFormed := by
  obtain ⟨_, _, op, -, -, hop, hv⟩ := h
  rw [VersionConstraint.WellFormed, hop, ofSymbol?_eq_some_iff.mpr rfl]
  exact ⟨rfl, Version.wellFormed_of_parseWith hv⟩

theorem IsMember.isPlain {negated : Bool} {a : Architecture} (h : IsMember negates negated w a)
    (hw : IsWord w) : a.Plain := by
  cases h with
  | plain hp => exact Architecture.plain_of_parse hp hw.2
  | negated _ hp =>
      exact Architecture.plain_of_parse hp fun c hc => hw.2 c (List.mem_append_right _ hc)

theorem IsArchitectureList.wellFormed {filter : ArchitectureFilter}
    (h : IsArchitectureList negates t filter) : filter.WellFormed := by
  obtain ⟨hne, ws, hs, hf⟩ := h
  refine ⟨hne, fun a ha => ?_⟩
  obtain ⟨w, hw, hm⟩ := exists_of_forall₂ hf a ha
  exact hm.isPlain (hs.isWord w hw)

theorem isProfileGroup_of_isTerms {group : List ProfileTerm} (h : IsList IsTerm t group) :
    IsProfileGroup group := by
  obtain ⟨hne, ws, -, hf⟩ := h
  refine ⟨hne, fun term ht => ?_⟩
  obtain ⟨w, -, hw⟩ := exists_of_forall₂ hf term ht
  cases hw with
  | plain hp => exact hp
  | negated hp => exact hp

theorem IsPossibility.wellFormed {p : Possibility} (h : IsPossibility negates t p) (hc : ',' ∉ t)
    (hb : '|' ∉ t) : p.WellFormed := by
  obtain ⟨before, rest, xs, s, -, rfl, hname, hqualifier, -, hs, hconstraint, hfilter, hgroups⟩ := h
  obtain ⟨rounds, squares, angles, -, hround, hsquare, hangle⟩ := hs
  constructor
  · exact hname
  · exact fun hm => hc (by simp [hm])
  · exact fun hm => hb (by simp [hm])
  · exact hqualifier
  · intro constraint hm
    rw [hconstraint] at hm
    obtain ⟨x, -, -, hx⟩ := exists_of_forall₂ hround constraint (Option.mem_toList.mpr hm)
    exact hx.wellFormed
  · rw [hfilter]
    cases hf : s.architectures with
    | none => exact Or.inl rfl
    | some filter =>
        obtain ⟨x, -, -, hx⟩ := exists_of_forall₂ hsquare filter (Option.mem_toList.mpr hf)
        exact Or.inr hx.wellFormed
  · intro group hm
    rw [hgroups] at hm
    obtain ⟨x, -, -, hx⟩ := exists_of_forall₂ hangle group hm
    exact isProfileGroup_of_isTerms hx

theorem IsRelation.wellFormed {r : Relation} (h : IsRelation negates t r) (hc : ',' ∉ t) :
    Relation.WellFormed r := by
  obtain ⟨pieces, hs, hf⟩ := h
  constructor
  · rintro rfl
    cases hf
    exact hs.1 rfl
  · intro p hp
    obtain ⟨piece, hm, hpiece⟩ := exists_of_forall₂ hf p hp
    exact hpiece.wellFormed (fun hmem => hc ((hs.isInfix hm).subset hmem)) (hs.2.1 piece hm)

theorem IsField.wellFormed {d : Dependency} (h : IsField negates t d) : d.WellFormed := by
  obtain ⟨pieces, hs, hf⟩ := h
  intro r hr
  obtain ⟨piece, hm, hpiece⟩ := exists_of_forall₂ hf r hr
  exact hpiece.wellFormed (hs.2.1 piece (List.mem_filter.mp hm).1)

theorem wellFormed_of_parse {d : Dependency} (h : parse t = .ok d) : d.WellFormed :=
  (parse_eq_ok_iff_isField.mp h).wellFormed

end Dependency

end DebianPackaging
