import DebianPackaging.Files.Path
import DebianPackaging.Text.Quoted

namespace DebianPackaging

open Text

inductive FileNode
  | file (bytes : ByteArray)
  | directory

abbrev FileTree := List (List Text × FileNode)

inductive FileFault
  | notFound
  | notADirectory
  | isADirectory
  | notUtf8
deriving DecidableEq, Repr

structure FileError where
  fault : FileFault
  path : Path
deriving DecidableEq, Repr

def FileFault.description : FileFault → String
  | .notFound => "[Errno 2] No such file or directory"
  | .notADirectory => "[Errno 20] Not a directory"
  | .isADirectory => "[Errno 21] Is a directory"
  | .notUtf8 => "invalid UTF-8"

def FileError.message (e : FileError) : String :=
  s!"{e.fault.description}: {quoted e.path.render}"

namespace FileTree

def node? (t : FileTree) (names : List Text) : Option FileNode :=
  match t.find? fun entry => entry.1 = names with
  | some entry => some entry.2
  | none =>
      if names.isEmpty || t.any fun entry => names.isPrefixOf entry.1 then some .directory else none

/-- Follows names from a directory. Every place on the way must be a directory. -/
def walk (t : FileTree) (dir : List Text) : List Text → Except FileFault FileNode
  | [] =>
      match t.node? dir with
      | some node => .ok node
      | none => .error .notFound
  | name :: names =>
      match t.node? dir with
      | some .directory => walk t (Path.step dir name) names
      | some (.file _) => .error .notADirectory
      | none => .error .notFound

end FileTree

def unifyLineEnds : Text → Text
  | [] => []
  | '\r' :: '\n' :: rest => '\n' :: unifyLineEnds rest
  | '\r' :: rest => '\n' :: unifyLineEnds rest
  | c :: rest => c :: unifyLineEnds rest

structure Workspace where
  tree : FileTree
  cwd : List Text

namespace Workspace

def node (w : Workspace) (p : Path) : Except FileFault FileNode :=
  w.tree.walk (p.start w.cwd) p.names

def contains (w : Workspace) (p : Path) : Bool :=
  (w.node p).isOk

def isFile (w : Workspace) (p : Path) : Bool :=
  match w.node p with
  | .ok (.file _) => true
  | _ => false

def readFile (w : Workspace) (p : Path) : Except FileFault Text :=
  match w.node p with
  | .error fault => .error fault
  | .ok .directory => .error .isADirectory
  | .ok (.file bytes) =>
      match String.fromUTF8? bytes with
      | some s => .ok (unifyLineEnds s.toList)
      | none => .error .notUtf8

def read (w : Workspace) (p : Path) : Except FileError Text :=
  (w.readFile p).mapError (⟨·, p⟩)

end Workspace

end DebianPackaging
