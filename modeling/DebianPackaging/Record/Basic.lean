import DebianPackaging.Dependency.Select
import DebianPackaging.Record.Kind

namespace DebianPackaging

open Text

structure Record where
  kind : RecordKind
  values : Values
  paragraph : Paragraph
deriving DecidableEq

namespace Record

def decode (kind : RecordKind) (p : Paragraph) : Except DecodeError Record :=
  (kind.schema.decode p).map fun values => ⟨kind, values, p⟩

def encode (r : Record) : Except Field Paragraph :=
  r.kind.schema.encode r.values

/-- A record that was read from no paragraph. Values that are not given are taken as absent. -/
def ofValues (kind : RecordKind) (given : Values) : Record :=
  ⟨kind, kind.schema.filterMap fun rule =>
      ((given.lookup rule.slot).or rule.kind.absent?).map (rule.slot, ·), .empty⟩

def sameValues (r s : Record) : Bool :=
  r.kind = s.kind && r.values = s.values

def text (r : Record) (slot : Text) : Text :=
  match r.values.lookup slot with
  | some (.text t) => t
  | _ => []

def items (r : Record) (slot : Text) : List Text :=
  match r.values.lookup slot with
  | some (.items ts) => ts
  | _ => []

def flag (r : Record) (slot : Text) : Bool :=
  match r.values.lookup slot with
  | some (.flag b) => b
  | _ => false

def version? (r : Record) (slot : Text) : Option Version :=
  match r.values.lookup slot with
  | some (.version v) => some v
  | _ => none

def dependency (r : Record) (slot : Text) : Dependency :=
  match r.values.lookup slot with
  | some (.dependency d) => d
  | _ => []

def architectures (r : Record) (slot : Text) : List Architecture :=
  match r.values.lookup slot with
  | some (.architectures as) => as
  | some (.architecture a) => [a]
  | _ => []

def source (r : Record) : Text := r.text "source"

def package (r : Record) : Text := r.text "package"

def maintainers (r : Record) : List Text :=
  r.items "uploaders" ++ [r.text "maintainer"].filter (!·.isEmpty)

/-- The source package of a binary one: the name before a version in brackets, or its own name. -/
def sourcePackage (r : Record) : Text :=
  let name := trim (r.source.takeWhile (· != '('))
  if name.isEmpty then r.package else name

/-- Packages for all architectures are built on every one. -/
def buildsOn (r : Record) (host : Architecture) : Bool :=
  (r.architectures "architecture").any fun a => a.isAll || a.agrees host

structure NotARelationship where
  name : Text
  kind : RecordKind
deriving DecidableEq, Repr

def NotARelationship.message (e : NotARelationship) : String :=
  s!"{quoted e.name} is not a relationship field of {e.kind.title}"

def relationship (r : Record) (name : Text) : Except NotARelationship Dependency :=
  match r.kind.schema.find? fun rule =>
      lower rule.name = lower name && rule.kind = .dependency with
  | some rule => .ok (r.dependency rule.slot)
  | none => .error ⟨name, r.kind⟩

end Record

end DebianPackaging
