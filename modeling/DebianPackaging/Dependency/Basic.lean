import DebianPackaging.Architecture.Filter
import DebianPackaging.Version.Order

namespace DebianPackaging

open Text

/-- The relation operators. `<` and `>` are the old spellings of `<=` and `>=`. -/
inductive Operator
  | earlier
  | earlierOrEqual
  | exactly
  | laterOrEqual
  | later
  | oldEarlierOrEqual
  | oldLaterOrEqual
deriving DecidableEq, Repr

namespace Operator

def all : List Operator :=
  [.earlier, .earlierOrEqual, .exactly, .laterOrEqual, .later, .oldEarlierOrEqual,
    .oldLaterOrEqual]

def symbol : Operator → Text
  | .earlier => "<<"
  | .earlierOrEqual => "<="
  | .exactly => "="
  | .laterOrEqual => ">="
  | .later => ">>"
  | .oldEarlierOrEqual => "<"
  | .oldLaterOrEqual => ">"

def ofSymbol? (t : Text) : Option Operator :=
  all.find? fun op => op.symbol = t

def admits : Operator → Ordering → Bool
  | .earlier, o => o.isLT
  | .earlierOrEqual, o | .oldEarlierOrEqual, o => o.isLE
  | .exactly, o => o.isEq
  | .laterOrEqual, o | .oldLaterOrEqual, o => o.isGE
  | .later, o => o.isGT

end Operator

structure VersionConstraint where
  operator : Text
  bound : Version
deriving DecidableEq, Repr

namespace VersionConstraint

/-- Undefined for an operator that is none. -/
def satisfiedBy? (c : VersionConstraint) (v : Version) : Option Bool :=
  (Operator.ofSymbol? c.operator).map (·.admits (compare v c.bound))

def render (c : VersionConstraint) : Text :=
  '(' :: c.operator ++ ' ' :: c.bound.render ++ [')']

end VersionConstraint

structure ProfileTerm where
  profile : Text
  negated : Bool
deriving DecidableEq, Repr

namespace ProfileTerm

def holds (t : ProfileTerm) (active : List Text) : Bool :=
  active.contains t.profile != t.negated

def render (t : ProfileTerm) : Text :=
  (if t.negated then ['!'] else []) ++ t.profile

end ProfileTerm

/-- A package or a substitution variable, with what restricts it. The profile groups are
alternatives, and all terms of a group must hold. -/
structure Possibility where
  name : Text
  qualifier : Option Text
  constraint : Option VersionConstraint
  architectures : ArchitectureFilter
  profileGroups : List (List ProfileTerm)
deriving DecidableEq, Repr

namespace Possibility

def isSubstvar (p : Possibility) : Bool :=
  ['$', '{'].isPrefixOf p.name && p.name.getLast? == some '}'

def substvar? (p : Possibility) : Option Text :=
  if p.isSubstvar then some (p.name.drop 2).dropLast else none

def renderGroup (group : List ProfileTerm) : Text :=
  ' ' :: '<' :: join " " (group.map ProfileTerm.render) ++ ['>']

def render (p : Possibility) : Text :=
  p.name ++
    (match p.qualifier with
    | some qualifier => if qualifier.isEmpty then [] else ':' :: qualifier
    | none => []) ++
    (match p.constraint with
    | some constraint => ' ' :: constraint.render
    | none => []) ++
    (if p.architectures.architectures.isEmpty then [] else ' ' :: p.architectures.render) ++
    p.profileGroups.flatMap renderGroup

end Possibility

abbrev Relation := List Possibility

def Relation.render (r : Relation) : Text :=
  join " | " (r.map Possibility.render)

abbrev Dependency := List Relation

def Dependency.render (d : Dependency) : Text :=
  join ", " (d.map Relation.render)

end DebianPackaging
