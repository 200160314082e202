import DebianPackaging.Files.Tree
import DebianPackaging.Record.Document

namespace DebianPackaging

open Text

inductive LoadError
  | file (cause : FileError)
  | document (cause : DocumentError)
deriving DecidableEq, Repr

def LoadError.message : LoadError → String
  | .file cause => cause.message
  | .document cause => cause.message

def loadText (w : Workspace) (p : Path) : Logged LoadError Text :=
  .ofExcept ((w.read p).mapError .file)

/-- Reading a control file is announced even if there is no such file. -/
def Control.load (w : Workspace) (p : Path) : Logged LoadError Control := do
  .report (.verbose controlTopic s!"Reading: {string p.render}")
  let t ← loadText w p
  (Control.parse t).mapError .document

def Index.load (i : Index) (w : Workspace) (p : Path) : Logged LoadError (List Record) := do
  let t ← loadText w p
  (i.parse t).mapError .document

end DebianPackaging
