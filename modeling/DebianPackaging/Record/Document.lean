import DebianPackaging.Log
import DebianPackaging.Paragraph.Reader
import DebianPackaging.Record.Basic
import DebianPackaging.Record.Clearsigned

namespace DebianPackaging

open Text

inductive DocumentError
  | paragraph (cause : Paragraph.ReadError)
  | record (cause : DecodeError)
  | noSourceParagraph
  | notOneParagraph (count : Nat)
  | incompleteArmor
deriving DecidableEq, Repr

def DocumentError.message : DocumentError → String
  | .paragraph cause => cause.message
  | .record cause => cause.message
  | .noSourceParagraph => "control file has no source paragraph"
  | .notOneParagraph count => s!"expected one paragraph in .dsc, found {count}"
  | .incompleteArmor => "incomplete OpenPGP armor"

def controlTopic : String := "CONTROL"

structure Control where
  source : Record
  binaries : List Record
deriving DecidableEq

def readParagraphs (t : Text) : Except DocumentError (List Paragraph) :=
  (Paragraph.readAll t).mapError .paragraph

def readRecord (kind : RecordKind) (p : Paragraph) : Except DocumentError Record :=
  (Record.decode kind p).mapError .record

def readRecords (kind : RecordKind) (ps : List Paragraph) : Except DocumentError (List Record) :=
  ps.mapM (readRecord kind)

namespace Control

def ofParagraphs : List Paragraph → Except DocumentError Control
  | [] => .error .noSourceParagraph
  | p :: ps => do
      let source ← readRecord .source p
      let binaries ← readRecords .binary ps
      .ok ⟨source, binaries⟩

def read (t : Text) : Except DocumentError Control := do
  ofParagraphs (← readParagraphs t)

def records (c : Control) : List Record :=
  c.source :: c.binaries

def summary (c : Control) : Log.Entry :=
  .debug controlTopic
    s!"Source {string c.source.source} with {c.binaries.length} binary package(s)"

def parse (t : Text) : Logged DocumentError Control := do
  let c ← .ofExcept (read t)
  .report c.summary
  return c

end Control

namespace SourceControl

def ofParagraphs : List Paragraph → Except DocumentError Record
  | [p] => readRecord .sourceControl p
  | ps => .error (.notOneParagraph ps.length)

def read (t : Text) : Except DocumentError Record := do
  match Clearsigned.contents? t with
  | none => .error .incompleteArmor
  | some contents => ofParagraphs (← readParagraphs contents)

def summary (r : Record) : Log.Entry :=
  let version := ((r.version? "version").map Version.render).getD []
  .debug controlTopic s!"Parsed {string r.source}_{string version}.dsc"

def parse (t : Text) : Logged DocumentError Record := do
  let r ← .ofExcept (read t)
  .report (summary r)
  return r

end SourceControl

inductive Index
  | sources
  | packages
deriving DecidableEq, Repr

namespace Index

def kind : Index → RecordKind
  | .sources => .sourceIndex
  | .packages => .binaryIndex

def title : Index → String
  | .sources => "Sources"
  | .packages => "Packages"

def read (i : Index) (t : Text) : Except DocumentError (List Record) := do
  readRecords i.kind (← readParagraphs t)

def parse (i : Index) (t : Text) : Logged DocumentError (List Record) := do
  let rs ← .ofExcept (i.read t)
  .report (.debug controlTopic s!"Parsed {rs.length} {i.title} entries")
  return rs

end Index

end DebianPackaging
