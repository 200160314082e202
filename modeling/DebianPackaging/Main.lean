import DebianPackaging.CommandLine.Run

namespace DebianPackaging.CommandLine

/-- Every argument may be a path, or end in one after an equals sign. -/
def argumentPaths (args : List Text) : List Path :=
  (args ++ args.filterMap fun t => (Text.cut '=' t).map Prod.snd).map Path.ofText

def settingsPaths (cwd : List Text) : List Path :=
  (Path.upward cwd).map fun dir => .ofRoot (dir ++ [Settings.fileName])

def placesOn (p : Path) : List Path :=
  (List.range (p.names.length + 1)).map fun n => ⟨p.slashes, p.names.take n⟩

def readNode (cwd : List Text) (p : Path) : IO FileTree := do
  let file := (← IO.currentDir) / p.render.string
  let names := p.resolve cwd
  if ← file.isDir then
    return [(names, .directory)]
  if ← file.pathExists then
    return [(names, .file (← IO.FS.readBinFile file))]
  return []

def readTree (cwd : List Text) (args : List Text) : IO FileTree := do
  let places := (argumentPaths args ++ settingsPaths cwd).flatMap placesOn
  return (← places.mapM (readNode cwd)).flatten

end DebianPackaging.CommandLine

open DebianPackaging in
def main (args : List String) : IO UInt32 := do
  let args := args.map String.toList
  let cwd := (Path.ofText (← IO.currentDir).toString).names
  let tree ← CommandLine.readTree cwd args
  match CommandLine.run ⟨tree, cwd⟩ args with
  | .ok outcome =>
      IO.print outcome.output
      return outcome.status.toUInt32
  | .error e =>
      IO.eprintln e.message
      return 1
