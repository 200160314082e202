import DebianPackaging.Text.Basic

namespace DebianPackaging

open Text

structure Path where
  /-- Slashes in front: none in a path from the working directory, one or two in one from the root. -/
  slashes : Nat
  names : List Text
deriving DecidableEq, Repr

namespace Path

def parentName : Text := ".."

/-- More than two slashes in front mean one. -/
def slashesBefore (t : Text) : Nat :=
  let slashes := (t.takeWhile (· = '/')).length
  if slashes < 3 then slashes else 1

def ofText (t : Text) : Path :=
  ⟨slashesBefore t, (t.splitOn '/').filter fun name => !name.isEmpty && name != ['.']⟩

def isAbsolute (p : Path) : Bool :=
  p.slashes != 0

def render (p : Path) : Text :=
  if !p.isAbsolute && p.names.isEmpty then ['.']
  else List.replicate p.slashes '/' ++ join "/" p.names

/-- One step from a directory, given by its names from the root. Above the root there is nothing. -/
def step (dir : List Text) (name : Text) : List Text :=
  if name = parentName then dir.dropLast else dir ++ [name]

def start (cwd : List Text) (p : Path) : List Text :=
  if p.isAbsolute then [] else cwd

def resolve (cwd : List Text) (p : Path) : List Text :=
  p.names.foldl step (p.start cwd)

def ofRoot (names : List Text) : Path :=
  ⟨1, names⟩

def upward (dir : List Text) : List (List Text) :=
  (List.range (dir.length + 1)).map fun n => dir.take (dir.length - n)

end Path

end DebianPackaging
