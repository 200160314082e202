import DebianPackaging.Text.Basic

namespace DebianPackaging.Yaml

open Text

def breakRanges : List (Nat × Nat) :=
  [(0x0a, 0x0a), (0x0d, 0x0d), (0x85, 0x85), (0x2028, 0x2029)]

def isBreak (c : Char) : Bool :=
  inRanges breakRanges c

def isSeparator (c : Char) : Bool :=
  c = ' ' || c = '\t' || isBreak c

def atSeparator (t : Text) : Bool :=
  t.head?.all isSeparator

/-- A key of a block map or the dash of a list item may stand only where the place is `fresh`: on a new
line, or after the dash of another item. -/
structure Cursor where
  rest : Text
  line : Nat
  column : Nat
  fresh : Bool
deriving DecidableEq, Repr

namespace Cursor

def atEnd (c : Cursor) : Bool :=
  c.rest.isEmpty

def step (c : Cursor) : Cursor :=
  match c.rest with
  | [] => c
  | d :: rest =>
      if isBreak d then ⟨rest, c.line + 1, 0, c.fresh⟩ else ⟨rest, c.line, c.column + 1, c.fresh⟩

def advance : Nat → Cursor → Cursor
  | 0, c => c
  | n + 1, c => advance n c.step

def passTo (c : Cursor) (rest : Text) : Cursor :=
  { advance (c.rest.length - rest.length) c with fresh := false }

def refresh (c : Cursor) : Cursor :=
  { c with fresh := true }

def passIndicator (c : Cursor) : Cursor :=
  c.passTo c.rest.tail

/-- Spaces, comments and line breaks up to the next token. In a block a new line is fresh. -/
def skip (block comment : Bool) (line column : Nat) (fresh : Bool) : Text → Cursor
  | [] => ⟨[], line, column, fresh⟩
  | c :: rest =>
      if isBreak c then skip block false (line + 1) 0 (fresh || block) rest
      else if comment || c = ' ' then skip block comment line (column + 1) fresh rest
      else if c = '#' then skip block true line (column + 1) fresh rest
      else ⟨c :: rest, line, column, fresh⟩

def gap (c : Cursor) (block : Bool) : Cursor :=
  skip block false c.line c.column c.fresh c.rest

def atAny (c : Cursor) (choices : List Char) : Bool :=
  c.rest.head?.any (choices.contains ·)

/-- A dash, a question mark or a colon comes next, and marks a list item, a key or a value of a block. -/
def atIndicator (c : Cursor) (mark : Char) : Bool :=
  c.rest.head? = some mark && atSeparator c.rest.tail

end Cursor

end DebianPackaging.Yaml
