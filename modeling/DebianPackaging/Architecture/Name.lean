import DebianPackaging.Architecture.Alias
import DebianPackaging.Text.Quoted

namespace DebianPackaging.Architecture

open Text

inductive ParseFault
  | blank
  | notExpandable (name : Text)
  | mixedAll (name : Text)
deriving DecidableEq, Repr

structure ParseError where
  fault : ParseFault
  text : Text
deriving DecidableEq, Repr

def ParseError.message (e : ParseError) : String :=
  match e.fault with
  | .blank => "architecture name is empty"
  | .notExpandable name => s!"cannot expand architecture name {quoted name}"
  | .mixedAll name => s!"'all' cannot be combined with other components: {quoted name}"

def split (name : Text) : List Text :=
  name.splitOn '-'

/-- A name that starts with `any` stands for `any` in all the components before it, too. -/
def padAny (parts : List Text) : List Text :=
  if parts.head? = some anyPart then List.replicate (4 - parts.length) anyPart ++ parts else parts

/-- Leading components that a name leaves out: the base ABI, the GNU library and Linux. -/
def ofParts? : List Text → Option Architecture
  | [cpu] => some ⟨"base", "gnu", "linux", cpu⟩
  | [os, cpu] => some ⟨"base", "gnu", os, cpu⟩
  | [libc, os, cpu] => some ⟨"base", libc, os, cpu⟩
  | [abi, libc, os, cpu] => some ⟨abi, libc, os, cpu⟩
  | _ => none

def expand? (parts : List Text) : Option Architecture :=
  (Alias.table.findSome? (·.expand? (padAny parts))).or (ofParts? (padAny parts))

def isPartChar (c : Char) : Bool :=
  c.isLower || c.isDigit || c = '_'

/-- A part of a name, which may end in one line feed. -/
def isPart (t : Text) : Bool :=
  let body := if t.getLast? = some '\n' then t.dropLast else t
  !body.isEmpty && body.all isPartChar

def parseTrimmed (name : Text) : Except ParseFault Architecture :=
  if name.isEmpty then .error .blank
  else if name = allPart then .ok all
  else if !(split name).all isPart then .error (.notExpandable name)
  else
    match expand? (split name) with
    | none => .error (.notExpandable name)
    | some a => if (split name).contains allPart then .error (.mixedAll name) else .ok a

def parse (text : Text) : Except ParseError Architecture :=
  (parseTrimmed (trim text)).mapError (⟨·, text⟩)

def parseList (text : Text) : Except ParseError (List Architecture) :=
  (words text).mapM parse

def dropAny : List Text → List Text
  | part :: next :: rest => if next = anyPart then dropAny (next :: rest) else part :: next :: rest
  | parts => parts

def candidates (a : Architecture) : List (List Text) :=
  (Alias.table.filter fun row => row.long a.cpu = a).map (·.short a.cpu) ++
    (if a.abi = anyPart then [dropAny a.components] else []) ++
    (if a.abi = "base".toList then
      (if a.libc = "gnu".toList then [[a.os, a.cpu]] else []) ++ [[a.libc, a.os, a.cpu]]
    else [])

def render (a : Architecture) : Text :=
  if a.isAll then
    allPart
  else
    (((candidates a).map (join "-")).find? fun name => expand? (split name) = some a).getD
      (join "-" a.components)

end DebianPackaging.Architecture
