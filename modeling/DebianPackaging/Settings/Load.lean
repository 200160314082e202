import DebianPackaging.Files.Tree
import DebianPackaging.Log
import DebianPackaging.Settings.Basic
import DebianPackaging.Settings.Overlay
import DebianPackaging.Yaml.Reader
import DebianPackaging.Yaml.Writer

namespace DebianPackaging

open Text Yaml

inductive SettingsError
  | notFound (path : Path)
  | notYaml (path : Path)
  | emptyFile (path : Path)
  | notAMap (path : Path)
  | fault (cause : SettingsFault)
  | file (cause : FileError)
deriving DecidableEq, Repr

def SettingsError.message : SettingsError → String
  | .notFound path => s!"file not found: {string path.render}"
  | .notYaml path => s!"Error parsing YAML: {string path.render}"
  | .emptyFile path => s!"YAML file is empty: {string path.render}"
  | .notAMap path => s!"top-level YAML must be a mapping (dict): {string path.render}"
  | .fault cause => cause.message
  | .file cause => cause.message

namespace Settings

def topic : String := "CONFIG"

def fileName : Text := ".debmeta.yaml"

def projectFile? (w : Workspace) (dir : List Text) : Option Path :=
  ((Path.upward dir).map fun above => Path.ofRoot (above ++ [fileName])).find? w.isFile

def checkLayer (p : Path) (t : Text) : Except SettingsError Value :=
  match Yaml.read t with
  | none => .error (.notYaml p)
  | some (.scalar .null) => .error (.emptyFile p)
  | some (.map rows) => .ok (.map rows)
  | some _ => .error (.notAMap p)

def readLayer (w : Workspace) (p : Path) : Except SettingsError Value := do
  if w.contains p then
    checkLayer p (← (w.read p).mapError .file)
  else
    .error (.notFound p)

def describe (v : Value) : List Log.Entry :=
  ((v.lines 0).filter (!isBlankText ·)).map fun line => .debug topic s!"  {string line}"

def loadLayer (w : Workspace) (p : Path) : Logged SettingsError Value := do
  .report (.verbose topic s!"Loading: {string p.render}")
  let v ← .ofExcept (readLayer w p)
  .reportAll (describe v)
  return v

def projectLayer (w : Workspace) (dir : List Text) : Logged SettingsError (List Value) :=
  match projectFile? w dir with
  | some p => do return [← loadLayer w p]
  | none => do
      .report (.debug topic s!"No {string fileName} found above {string (Path.ofRoot dir).render}")
      return []

def extraLayer (w : Workspace) (extra : Option Path) : Logged SettingsError (List Value) :=
  match extra with
  | some p => do return [← loadLayer w (.ofRoot (p.resolve w.cwd))]
  | none => return []

def checked (v : Value) : Except SettingsError Value :=
  match fault? v with
  | some cause => .error (.fault cause)
  | none => .ok v

/-- The settings that hold in a directory: the defaults, the nearest project file above it and the file
asked for, each laid over the one before. -/
def load (w : Workspace) (dir : List Text) (extra : Option Path) : Logged SettingsError Value := do
  let layers := (← projectLayer w dir) ++ (← extraLayer w extra)
  .report (.verbose topic s!"Deep merged {layers.length + 1} layer(s)")
  .ofExcept (checked (layers.foldl Value.overlay defaults.toValue))

end Settings

end DebianPackaging
