import DebianPackaging.Architecture.Name

namespace DebianPackaging

open Text

/-- The architectures of a list, all of them negated or none. The empty list restricts nothing. -/
structure ArchitectureFilter where
  architectures : List Architecture
  negated : Bool
deriving DecidableEq, Repr

namespace ArchitectureFilter

def unrestricted : ArchitectureFilter := ⟨[], false⟩

def admits (f : ArchitectureFilter) (a : Architecture) : Bool :=
  f.architectures.isEmpty || (f.architectures.any (·.agrees a) != f.negated)

def render (f : ArchitectureFilter) : Text :=
  if f.architectures.isEmpty then
    []
  else
    '[' :: join " " (f.architectures.map fun a => (if f.negated then ['!'] else []) ++ a.render) ++
      [']']

end ArchitectureFilter

end DebianPackaging
