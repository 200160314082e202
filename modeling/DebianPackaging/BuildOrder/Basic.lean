import DebianPackaging.BuildOrder.BuildSet
import DebianPackaging.Graph.Layering
import DebianPackaging.Record.File
import DebianPackaging.Settings.Load

namespace DebianPackaging

open Text

structure BuildOrder where
  generations : List (List Text)
  /-- What no source of the set provides, sorted. -/
  external : List Text
  host : Architecture
deriving DecidableEq, Repr

namespace BuildOrder

inductive Error
  | settings (cause : SettingsError)
  | host (cause : Architecture.ParseError)
  | field (cause : Record.NotARelationship)
  | load (cause : LoadError)
  | declaredTwice (name : Text) (first second : Path)
  | cycle (cause : Graph.Cycle)
deriving DecidableEq, Repr

def Error.message : Error → String
  | .settings cause => cause.message
  | .host cause => s!"host_arch: {cause.message}"
  | .field cause =>
      s!"build_order.fields: {quoted cause.name} is not a source relationship field"
  | .load cause => cause.message
  | .declaredTwice name first second =>
      s!"source package {quoted name} declared in both {string first.render} and {string second.render}"
  | .cycle cause => cause.message

def topic : String := "ORDER"

def order (b : BuildOrder) : List Text :=
  b.generations.flatten

def parseHost (s : Settings) : Logged Error Architecture :=
  .ofExcept ((Architecture.parse s.hostArchitecture).mapError .host)

def reportHost (s : Settings) (host : Architecture) : List Log.Entry :=
  .verbose Settings.topic s!"Host architecture: {string host.render}" ::
    if s.buildProfiles.isEmpty then []
    else [.verbose Settings.topic s!"Build profiles: {Graph.commaSeparated s.buildProfiles}"]

def addSource (w : Workspace) (earlier : List (Path × Control)) (p : Path) :
    Logged Error (List (Path × Control)) := do
  let c ← (Control.load w p).mapError .load
  match earlier.find? fun other => other.2.name = c.name with
  | some other => .ofExcept (.error (.declaredTwice c.name other.1 p))
  | none => return earlier ++ [(p, c)]

def loadSources (w : Workspace) (paths : List Path) : Logged Error (List Control) := do
  return (← paths.foldlM (addSource w) []).map Prod.snd

/-- A binary package that does not count as one of its source is reported. -/
def reportOffer (s : BuildSet) (o : Offer) : Option Log.Entry :=
  if !o.built then
    some (.verbose topic
      s!"{string o.binary} ({string o.source}) is not built on {string s.host.render}")
  else
    ((s.provider? o.binary).filter (· != o.source)).map fun first =>
      .verbose topic
        s!"{string o.binary} is built by both {string first} and {string o.source}; using {string first}"

def reportOwn (s : BuildSet) (c : Control) (needed : List Text) : List Log.Entry :=
  (needed.filter fun name => s.target? name = some c.name).map fun name =>
    .verbose topic s!"{string c.name}: ignoring dependency on own {string name}"

def reportTargets (c : Control) (targets : List Text) : Log.Entry :=
  let shown := if targets.isEmpty then "(none)" else Graph.commaSeparated targets
  .debug topic s!"{string c.name} -> {shown}"

def needs (s : BuildSet) (c : Control) : Logged Error (Control × List Text) := do
  let needed ← .ofExcept ((s.neededNames c).mapError .field)
  .reportAll (reportOwn s c needed ++ [reportTargets c (s.targets c needed)])
  return (c, needed)

def graph (s : BuildSet) (rows : List (Control × List Text)) : Graph :=
  .ofRows (rows.map fun row => (row.1.name, s.targets row.1 row.2))

def externalNames (s : BuildSet) (rows : List (Control × List Text)) : List Text :=
  sort (rows.flatMap fun row => s.external row.2).eraseDups

def announce (index : Int) (message : String) : Logged Error Unit :=
  .report (.step index 3 message)

def ofSet (s : BuildSet) : Logged Error BuildOrder := do
  .reportAll (s.offers.filterMap (reportOffer s))
  let rows ← s.sources.mapM (needs s)
  announce 3 "Sorting build order..."
  let generations ← (graph s rows).logGenerations.mapError .cycle
  return ⟨generations, externalNames s rows, s.host⟩

def compute (w : Workspace) (paths : List Path) (settings : Logged Error Settings) :
    Logged Error BuildOrder := do
  announce 1 "Loading configuration..."
  let s ← settings
  let host ← parseHost s
  .reportAll (reportHost s host)
  announce 2 "Parsing control files..."
  let sources ← loadSources w paths
  ofSet ⟨sources, host, s⟩

def localSettings (w : Workspace) : Logged Error Settings := do
  return .ofValue (← (Settings.load w w.cwd none).mapError .settings)

end BuildOrder

end DebianPackaging
