import DebianPackaging.Paragraph.Basic

namespace DebianPackaging.Paragraph

open Text

inductive ReadError
  | notAField (line : Nat) (text : Text)
  | orphanContinuation (line : Nat)
  | duplicateField (name : Text)
deriving DecidableEq, Repr

def ReadError.message : ReadError → String
  | .notAField line text => s!"line {line}: expected 'Field: value': {quoted text}"
  | .orphanContinuation line => s!"line {line}: continuation line without a field"
  | .duplicateField name => s!"duplicate field {quoted name}"

def isComment (line : Text) : Bool :=
  line.head? == some '#'

def isContinuation (line : Text) : Bool :=
  line.head? == some ' ' || line.head? == some '\t'

def blocks (t : Text) : List (List (Text × Nat)) :=
  ((((lines t).zipIdx 1).filter (!isComment ·.1)).splitOnP (isBlankText ·.1)).filter
    (!·.isEmpty)

structure OpenField where
  name : Text
  lines : List Text
deriving DecidableEq, Repr

def OpenField.close (f : OpenField) : Field :=
  ⟨f.name, trim (join "\n" f.lines.reverse)⟩

def readField? (line : Text) : Option OpenField :=
  match cut ':' line with
  | none => none
  | some (name, value) =>
      if (trim name).isEmpty || (trim name).any isBlank then none
      else some ⟨trim name, [trim value]⟩

/-- A lone dot stands for an empty line. -/
def continuation (line : Text) : Text :=
  if trim line = ['.'] then [] else trim line

/-- Adds a line to the fields read so far, the last field first. -/
def readLine (read : List OpenField) (line : Text × Nat) : Except ReadError (List OpenField) :=
  if isContinuation line.1 then
    match read with
    | [] => .error (.orphanContinuation line.2)
    | f :: fs => .ok (⟨f.name, continuation line.1 :: f.lines⟩ :: fs)
  else
    match readField? line.1 with
    | some f => .ok (f :: read)
    | none => .error (.notAField line.2 line.1)

def readBlock (block : List (Text × Nat)) : Except ReadError Paragraph := do
  let read ← block.foldlM readLine []
  (ofFields (read.reverse.map OpenField.close)).mapError (.duplicateField ·.name)

def readAll (t : Text) : Except ReadError (List Paragraph) :=
  (blocks t).mapM readBlock

end DebianPackaging.Paragraph
