import DebianPackaging.Text.Quoted

namespace DebianPackaging.Json

open Text

inductive Value
  | null
  | bool (b : Bool)
  | text (t : Text)
  | list (items : List Value)
  | object (members : List (Text × Value))

namespace Value

def texts (ts : List Text) : Value := .list (ts.map .text)

end Value

def letterEscapes : List (Char × Char) :=
  [('"', '"'), ('\\', '\\'), ('\n', 'n'), ('\r', 'r'), ('\t', 't'), (Char.ofNat 0x0c, 'f'),
    (Char.ofNat 0x08, 'b')]

def units16 (n : Nat) : List Nat :=
  if n < 0x10000 then [n]
  else [0xd800 + (n - 0x10000) / 0x400, 0xdc00 + (n - 0x10000) % 0x400]

def escapeChar (c : Char) : Text :=
  match letterEscapes.lookup c with
  | some letter => ['\\', letter]
  | none =>
      if ' ' ≤ c && c ≤ '~' then [c]
      else (units16 c.toNat).flatMap fun unit => '\\' :: 'u' :: hex 4 unit

def quoteText (t : Text) : Text :=
  '"' :: t.flatMap escapeChar ++ ['"']

def lineAt (indent : Nat) : Text :=
  '\n' :: List.replicate indent ' '

def bracket (opening closing : Char) (indent : Nat) (members : List Text) : Text :=
  if members.isEmpty then [opening, closing]
  else
    opening :: join [','] (members.map fun m => lineAt (indent + 2) ++ m) ++ lineAt indent ++
      [closing]

mutual

/-- The text of a value that stands in a line with the given indentation. -/
def Value.render (indent : Nat) : Value → Text
  | .null => "null"
  | .bool b => if b then "true" else "false"
  | .text t => quoteText t
  | .list items => bracket '[' ']' indent (renderItems (indent + 2) items)
  | .object members => bracket '\x7b' '\x7d' indent (renderMembers (indent + 2) members)

def renderItems (indent : Nat) : List Value → List Text
  | [] => []
  | item :: more => item.render indent :: renderItems indent more

def renderMembers (indent : Nat) : List (Text × Value) → List Text
  | [] => []
  | (name, value) :: more =>
      (quoteText name ++ ':' :: ' ' :: value.render indent) :: renderMembers indent more

end

end DebianPackaging.Json
