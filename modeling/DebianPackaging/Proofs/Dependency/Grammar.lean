import DebianPackaging.Dependency.Parse
import DebianPackaging.Proofs.Outcome
import DebianPackaging.Proofs.Text.Words

namespace DebianPackaging

open Text Outcome

def IsPossibilityName (name : Text) : Prop :=
  (∃ inner, name = '$' :: '{' :: inner ++ ['}'] ∧ '}' ∉ inner) ∨
    ∃ c rest, name = c :: rest ∧ c.isAlphanum = true ∧ ∀ d ∈ rest, Dependency.isNameChar d = true

def IsQualifier (qualifier : Text) : Prop :=
  qualifier ≠ [] ∧ ∀ c ∈ qualifier, Dependency.isQualifierChar c = true

namespace Dependency

variable {α : Type} {R S : Text → α → Prop} {P Q : Text → Prop} {negates : Text → Prop}
  {t w : Text} {as : List α} {xs : List (Bracket × Text)} {x : Bracket × Text} {s : Sections}

section Language

def IsConstraint (t : Text) (constraint : VersionConstraint) : Prop :=
  ∃ before version, ∃ op : Operator, isBlankText before = true ∧
    t = before ++ (op.symbol ++ version) ∧ constraint.operator = op.symbol ∧
    Version.parse version = .ok constraint.bound

def IsList (R : Text → α → Prop) (t : Text) (as : List α) : Prop :=
  as ≠ [] ∧ ∃ ws, IsSpaced ws t ∧ List.Forall₂ R ws as

inductive IsMember (negates : Text → Prop) : Bool → Text → Architecture → Prop
  | plain {name : Text} {a : Architecture} (h : Architecture.parse name = .ok a) :
      IsMember negates false name a
  | negated {mark name : Text} {a : Architecture} (hm : negates mark)
      (h : Architecture.parse name = .ok a) : IsMember negates true (mark ++ name) a

/-- Either all members are plain or all are negated. -/
def IsArchitectureList (negates : Text → Prop) (t : Text) (filter : ArchitectureFilter) : Prop :=
  IsList (IsMember negates filter.negated) t filter.architectures

inductive IsTerm : Text → ProfileTerm → Prop
  | plain {profile : Text} (h : isProfile profile = true) : IsTerm profile ⟨profile, false⟩
  | negated {profile : Text} (h : isProfile profile = true) :
      IsTerm ('!' :: profile) ⟨profile, true⟩

def Bracket.opener : Bracket → Char
  | .round => '('
  | .square => '['
  | .angle => '<'

/-- Texts in brackets, with white space before each and after the last. -/
inductive IsSectioned : List (Bracket × Text) → Text → Prop
  | blank {t : Text} (h : isBlankText t = true) : IsSectioned [] t
  | bracket {before rest : Text} {xs : List (Bracket × Text)} (b : Bracket) (inner : Text)
      (hbefore : isBlankText before = true) (h : IsSectioned xs rest) :
      IsSectioned ((b, inner) :: xs) (before ++ b.opener :: (inner ++ b.closer :: rest))

def IsSection (b : Bracket) (R : Text → α → Prop) (x : Bracket × Text) (a : α) : Prop :=
  x.1 = b ∧ R x.2 a

/-- At most one version constraint, then at most one architecture list, then groups of profiles. -/
def Holds (negates : Text → Prop) (xs : List (Bracket × Text)) (s : Sections) : Prop :=
  ∃ rounds squares angles, xs = rounds ++ (squares ++ angles) ∧
    List.Forall₂ (IsSection .round IsConstraint) rounds s.constraint.toList ∧
    List.Forall₂ (IsSection .square (IsArchitectureList negates)) squares s.architectures.toList ∧
    List.Forall₂ (IsSection .angle (IsList IsTerm)) angles s.profileGroups

def qualifierText : Option Text → Text
  | some qualifier => ':' :: qualifier
  | none => []

def IsPossibility (negates : Text → Prop) (t : Text) (p : Possibility) : Prop :=
  ∃ before rest xs s, isBlankText before = true ∧
    t = before ++ (p.name ++ (qualifierText p.qualifier ++ rest)) ∧ IsPossibilityName p.name ∧
    (∀ q ∈ p.qualifier, IsQualifier q) ∧ IsSectioned xs rest ∧ Holds negates xs s ∧
    p.constraint = s.constraint ∧ p.architectures = s.architectures.getD .unrestricted ∧
    p.profileGroups = s.profileGroups

def IsRelation (negates : Text → Prop) (t : Text) (r : Relation) : Prop :=
  ∃ pieces, IsSeparated '|' pieces t ∧ List.Forall₂ (IsPossibility negates) pieces r

/-- Blank pieces between commas say nothing. -/
def IsField (negates : Text → Prop) (t : Text) (d : Dependency) : Prop :=
  ∃ pieces, IsSeparated ',' pieces t ∧
    List.Forall₂ (IsRelation negates) (pieces.filter (!isBlankText ·)) d

def IsMark (t : Text) : Prop := t = ['!']

def IsMarks (t : Text) : Prop := t ≠ [] ∧ ∀ c ∈ t, c = '!'

end Language

section Monotone

theorem IsList.mono (hl : IsList R t as) (h : ∀ w, w <:+: t → ∀ a, R w a → S w a) :
    IsList S t as := by
  obtain ⟨hne, ws, hs, hf⟩ := hl
  exact ⟨hne, ws, hs, forall₂_imp_of_mem (fun w hw => h w (hs.isInfix hw)) hf⟩

theorem IsMember.mono {negated : Bool} {a : Architecture} (hm : IsMember P negated w a)
    (h : ∀ m, m <:+: w → P m → Q m) : IsMember Q negated w a := by
  cases hm with
  | plain hp => exact .plain hp
  | @negated mark name _ hmark hp =>
      exact .negated (h mark (List.prefix_append mark name).isInfix hmark) hp

theorem IsArchitectureList.mono {filter : ArchitectureFilter} (hl : IsArchitectureList P t filter)
    (h : ∀ m, m <:+: t → P m → Q m) : IsArchitectureList Q t filter :=
  IsList.mono hl fun _ hw _ hm => hm.mono fun m hi => h m (hi.trans hw)

theorem IsSectioned.isInfix (h : IsSectioned xs t) (hx : x ∈ xs) : x.2 <:+: t := by
  induction h with
  | blank => cases hx
  | @bracket before rest xs b inner _ _ ih =>
      rcases List.mem_cons.mp hx with rfl | hx
      · exact ⟨before ++ [b.opener], b.closer :: rest, by simp⟩
      · exact (ih hx).trans ⟨before ++ b.opener :: (inner ++ [b.closer]), [], by simp⟩

theorem Holds.mono (hs : Holds P xs s) (h : ∀ x ∈ xs, ∀ m, m <:+: x.2 → P m → Q m) :
    Holds Q xs s := by
  obtain ⟨rounds, squares, angles, rfl, hr, hq, ha⟩ := hs
  refine ⟨rounds, squares, angles, rfl, hr, forall₂_imp_of_mem (fun x hx f hf => ?_) hq, ha⟩
  exact ⟨hf.1, hf.2.mono (h x (by simp [hx]))⟩

theorem IsPossibility.mono {p : Possibility} (hp : IsPossibility P t p)
    (h : ∀ m, m <:+: t → P m → Q m) : IsPossibility Q t p := by
  obtain ⟨before, rest, xs, s, hb, rfl, hname, hqualifier, hx, hs, hparts⟩ := hp
  refine ⟨before, rest, xs, s, hb, rfl, hname, hqualifier, hx, hs.mono fun x hm m hi => ?_, hparts⟩
  apply h
  refine (hi.trans (hx.isInfix hm)).trans ?_
  simp only [← List.append_assoc]
  exact (List.suffix_append _ rest).isInfix

theorem IsRelation.mono {r : Relation} (hr : IsRelation P t r) (h : ∀ m, m <:+: t → P m → Q m) :
    IsRelation Q t r := by
  obtain ⟨pieces, hs, hf⟩ := hr
  refine ⟨pieces, hs, forall₂_imp_of_mem (fun w hw p hp => ?_) hf⟩
  exact hp.mono fun m hm => h m (hm.trans (hs.isInfix hw))

/-- Among what may negate, only stretches of the text matter for it. -/
theorem IsField.mono {d : Dependency} (hd : IsField P t d) (h : ∀ m, m <:+: t → P m → Q m) :
    IsField Q t d := by
  obtain ⟨pieces, hs, hf⟩ := hd
  refine ⟨pieces, hs, forall₂_imp_of_mem (fun w hw r hr => ?_) hf⟩
  exact hr.mono fun m hm => h m (hm.trans (hs.isInfix (List.mem_filter.mp hw).1))

theorem isMarks_of_isMark (h : IsMark t) : IsMarks t := by
  rw [h]
  exact ⟨by simp, by simp⟩

theorem isMark_of_isMarks (h : IsMarks t) (hn : ¬['!', '!'] <:+: t) : IsMark t := by
  obtain ⟨hne, hall⟩ := h
  match t, hne with
  | [c], _ => rw [hall c List.mem_cons_self]; rfl
  | c :: d :: rest, _ =>
      rw [hall c (by simp), hall d (by simp)] at hn
      exact absurd (List.prefix_append ['!', '!'] rest).isInfix hn

end Monotone

theorem IsSectioned.count_eq {c : Char} (h : IsSectioned xs t) (hc : isBlank c = false)
    (hb : ∀ b : Bracket, c ≠ b.opener ∧ c ≠ b.closer) :
    t.count c = (xs.map fun x => x.2.count c).sum := by
  induction h with
  | blank h => exact count_eq_zero_of_isBlankText h hc
  | bracket b inner hbefore _ ih =>
      rw [List.count_append, List.count_cons_of_ne (hb b).1.symm, List.count_append,
        List.count_cons_of_ne (hb b).2.symm, count_eq_zero_of_isBlankText hbefore hc, ih,
        List.map_cons, List.sum_cons, Nat.zero_add]

end Dependency

end DebianPackaging
