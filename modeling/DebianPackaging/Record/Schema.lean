import DebianPackaging.Paragraph.Basic
import DebianPackaging.Record.Value
import DebianPackaging.Table

namespace DebianPackaging

open Text

structure FieldRule where
  name : Text
  kind : FieldKind
  required : Bool
  layout : Layout
deriving DecidableEq, Repr

namespace FieldRule

def optional (name : String) (kind : FieldKind := .text) : FieldRule :=
  ⟨name, kind, false, kind.layout⟩

def needed (name : String) (kind : FieldKind := .text) : FieldRule :=
  ⟨name, kind, true, kind.layout⟩

def asWords (r : FieldRule) : FieldRule :=
  { r with layout := .words }

def slot (r : FieldRule) : Text :=
  (lower r.name).map fun c => if c = '-' then '_' else c

end FieldRule

abbrev Schema := List FieldRule

abbrev Values := List (Text × FieldValue)

inductive DecodeError
  | missingField (name : Text)
  | badField (name : Text) (cause : ValueError)
deriving DecidableEq, Repr

def DecodeError.message : DecodeError → String
  | .missingField name => s!"missing required field {quoted name}"
  | .badField name cause => s!"field {quoted name}: {cause.message}"

namespace FieldRule

def parse (r : FieldRule) (t : Text) : Except DecodeError (Text × FieldValue) :=
  match r.kind.parse t with
  | .ok value => .ok (r.slot, value)
  | .error cause => .error (.badField r.name cause)

def decode (r : FieldRule) (p : Paragraph) : Except DecodeError (Text × FieldValue) :=
  match p.get? r.name with
  | some text => r.parse text
  | none => if r.required then .error (.missingField r.name) else r.parse []

end FieldRule

namespace Schema

def decode (s : Schema) (p : Paragraph) : Except DecodeError Values :=
  (s.mapM (FieldRule.decode · p)).map Table.ofRows

/-- Fields of the values; empty ones only where they are required. -/
def fields (s : Schema) (values : Values) : List Field :=
  s.filterMap fun r =>
    (values.lookup r.slot).bind fun value =>
      if value.isEmpty && !r.required then none else some ⟨r.name, r.layout.render value⟩

/-- Fails with the first field that two rules name. -/
def encode (s : Schema) (values : Values) : Except Field Paragraph :=
  Paragraph.ofFields (s.fields values)

end Schema

end DebianPackaging
