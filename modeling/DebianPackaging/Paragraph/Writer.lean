import DebianPackaging.Paragraph.Basic

namespace DebianPackaging.Paragraph

open Text

/-- A field name that cannot be written so that it is read again. -/
structure WriteError where
  name : Text
deriving DecidableEq, Repr

def WriteError.message (e : WriteError) : String :=
  s!"cannot write field name {quoted e.name}"

def isWritableName (name : Text) : Bool :=
  !name.isEmpty && name.head? != some '#' && !name.any fun c => isBlank c || c = ':'

def foldedLine (line : Text) : Text :=
  ' ' :: if (trim line).isEmpty then ['.'] else trim line

/-- Only line feeds fold a value. -/
def fieldLines (f : Field) : List Text :=
  match (trim f.value).splitOn '\n' with
  | [] => []
  | first :: rest => trimRight (f.name ++ ": ".toList ++ trim first) :: rest.map foldedLine

def writeField (f : Field) : Except WriteError (List Text) :=
  if isWritableName f.name then .ok (fieldLines f) else .error ⟨f.name⟩

def write (fields : List Field) : Except WriteError Text :=
  (fields.mapM writeField).map fun written => join "\n" written.flatten ++ ['\n']

def writeAll (paragraphs : List (List Field)) : Except WriteError Text :=
  (paragraphs.mapM write).map (join "\n")

end DebianPackaging.Paragraph
