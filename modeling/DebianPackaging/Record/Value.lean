import DebianPackaging.Dependency.Parse
import DebianPackaging.Text.LowerCase

namespace DebianPackaging

open Text

inductive FieldKind
  | text
  | items
  | flag
  | lines
  | version
  | dependency
  | architecture
  | architectures
deriving DecidableEq, Repr

inductive FieldValue
  | text (t : Text)
  | flag (b : Bool)
  | items (ts : List Text)
  | version (v : Version)
  | dependency (d : Dependency)
  | architecture (a : Architecture)
  | architectures (as : List Architecture)
deriving DecidableEq, Repr

inductive ValueError
  | notYesOrNo (text : Text)
  | version (cause : Version.ParseError)
  | dependency (cause : Dependency.ParseError)
  | architecture (cause : Architecture.ParseError)
deriving DecidableEq, Repr

def ValueError.message : ValueError → String
  | .notYesOrNo text => s!"expected 'yes' or 'no', got {quoted text}"
  | .version cause => cause.message
  | .dependency cause => cause.message
  | .architecture cause => cause.message

def parseItems (t : Text) : List Text :=
  ((t.splitOn ',').map trim).filter (!·.isEmpty)

def parseLines (t : Text) : List Text :=
  ((lines t).map trim).filter (!·.isEmpty)

def parseFlag (t : Text) : Except ValueError Bool :=
  let answer := lower (trim t)
  if answer = "yes".toList then .ok true
  else if answer.isEmpty || answer = "no".toList then .ok false
  else .error (.notYesOrNo t)

def FieldKind.parse : FieldKind → Text → Except ValueError FieldValue
  | .text, t => .ok (.text t)
  | .items, t => .ok (.items (parseItems t))
  | .flag, t => (parseFlag t).map .flag
  | .lines, t => .ok (.items (parseLines t))
  | .version, t => (Version.parse t).map .version |>.mapError .version
  | .dependency, t => (Dependency.parse t).map .dependency |>.mapError .dependency
  | .architecture, t => (Architecture.parse t).map .architecture |>.mapError .architecture
  | .architectures, t => (Architecture.parseList t).map .architectures |>.mapError .architecture

/-- The value of a field that is not there. A version and an architecture have none. -/
def FieldKind.absent? : FieldKind → Option FieldValue
  | .text => some (.text [])
  | .items | .lines => some (.items [])
  | .flag => some (.flag false)
  | .dependency => some (.dependency [])
  | .architectures => some (.architectures [])
  | .version | .architecture => none

inductive Layout
  | plain
  | commas
  | words
  | lines
  | yesNo
deriving DecidableEq, Repr

def FieldKind.layout : FieldKind → Layout
  | .items => .commas
  | .lines => .lines
  | .flag => .yesNo
  | .text | .version | .dependency | .architecture | .architectures => .plain

namespace FieldValue

def isEmpty : FieldValue → Bool
  | .text t => t.isEmpty
  | .flag b => !b
  | .items ts => ts.isEmpty
  | .dependency d => d.isEmpty
  | .architectures as => as.isEmpty
  | .version _ | .architecture _ => false

/-- Members in round brackets; a single one keeps a comma after it. -/
def bracketed (members : List Text) : Text :=
  '(' :: join ", " members ++ (if members.length = 1 then [','] else []) ++ [')']

def plain : FieldValue → Text
  | .text t => t
  | .flag b => if b then "True" else "False"
  | .items ts => bracketed (ts.map quote)
  | .version v => v.render
  | .dependency d => Dependency.render d
  | .architecture a => a.render
  | .architectures as => bracketed (as.map Architecture.render)

def members : FieldValue → List Text
  | .text t => t.map ([·])
  | .items ts => ts
  | .dependency d => d.map Relation.render
  | .architectures as => as.map Architecture.render
  | value => [value.plain]

end FieldValue

def Layout.render : Layout → FieldValue → Text
  | .plain, value => value.plain
  | .commas, value => join ", " value.members
  | .words, value => join " " value.members
  | .lines, value => join "\n" value.members
  | .yesNo, value => if value.isEmpty then "no" else "yes"

end DebianPackaging
