import DebianPackaging.BuildOrder.Basic
import DebianPackaging.CommandLine.Command
import DebianPackaging.Json.Basic
import DebianPackaging.Version.Key

namespace DebianPackaging.CommandLine

open Text

inductive CommandError
  | settings (cause : SettingsError)
  | version (cause : Version.ParseError)
  | architecture (cause : Architecture.ParseError)
  | dependency (cause : Dependency.ParseError)
  | load (cause : LoadError)
  | order (cause : BuildOrder.Error)
deriving DecidableEq, Repr

namespace CommandError

def message : CommandError → String
  | .settings cause => cause.message
  | .version cause => cause.message
  | .architecture cause => cause.message
  | .dependency cause => cause.message
  | .load cause => cause.message
  | .order cause => cause.message

def fileError? : CommandError → Option FileError
  | .settings (.file cause) | .order (.settings (.file cause)) => some cause
  | .load (.file cause) | .order (.load (.file cause)) => some cause
  | _ => none

def advice : CommandError → List Text
  | .order (.cycle _) => ["No build order exists; break the cycle and try again."]
  | _ => []

def report (e : CommandError) : List Text :=
  s!"Error: {e.message}".toList :: e.advice

end CommandError

abbrev Output := Logged CommandError (List Text)

def loadSettings (w : Workspace) (config : Option Text) : Logged CommandError Settings := do
  return .ofValue (← (Settings.load w w.cwd (config.map Path.ofText)).mapError .settings)

def parseVersion (strict : Bool) (t : Text) : Logged CommandError Version :=
  .ofExcept ((Version.parseWith strict t).mapError .version)

def parseArchitecture (t : Text) : Logged CommandError Architecture :=
  .ofExcept ((Architecture.parse t).mapError .architecture)

def parseOptional (t : Option Text) : Logged CommandError (Option Architecture) :=
  match t with
  | some name => do return some (← parseArchitecture name)
  | none => return none

def parseDependency (t : Text) : Logged CommandError Dependency :=
  .ofExcept ((Dependency.parse t).mapError .dependency)

def rule : Text :=
  List.replicate 70 '='

def column (name : String) (value : Text) : Text :=
  name.toList ++ ':' :: List.replicate (16 - name.length) ' ' ++ value

def yesNo (b : Bool) : Text :=
  if b then "yes" else "no"

def describeVersion (v : Version) : List Text :=
  [
    rule, "VERSION", rule,
    column "Version" v.render,
    column "Epoch" (ofInt v.epoch),
    column "Upstream" v.release,
    column "Revision" (if v.revision.isEmpty then "(native)" else v.revision),
    column "Comparable" v.key,
    rule]

def runVersion (s : Settings) (t : Text) (strict : Bool) : Output := do
  return describeVersion (← parseVersion (strict || s.strictVersions) t)

def orderSign : Ordering → Text
  | .lt => "<"
  | .eq => "="
  | .gt => ">"

def runCompare (s : Settings) (first second : Text) : Output := do
  let v ← parseVersion s.strictVersions first
  let w ← parseVersion s.strictVersions second
  return [first ++ ' ' :: orderSign (compare v w) ++ ' ' :: second]

def describeArchitecture (a : Architecture) : List Text :=
  [
    column "Name" a.render,
    column "Tuple" (join "-" a.components),
    column "Wildcard" (yesNo a.isWildcard)]

def describeMatch (a pattern : Architecture) : Text :=
  "Matches ".toList ++ pattern.render ++ ':' :: ' ' :: yesNo (a.agrees pattern)

def runArchitecture (t : Text) (pattern : Option Text) : Output := do
  let a ← parseArchitecture t
  let other ← parseOptional pattern
  return describeArchitecture a ++ other.toList.map (describeMatch a)

def constraintJson (c : VersionConstraint) : Json.Value :=
  .object [("operator", .text c.operator), ("version", .text c.bound.render)]

def possibilityJson (p : Possibility) : Json.Value :=
  .object [
    ("name", .text p.name),
    ("arch_qualifier", (p.qualifier.map .text).getD .null),
    ("version", (p.constraint.map constraintJson).getD .null),
    ("architectures", .texts (p.architectures.architectures.map Architecture.render)),
    ("negated", .bool p.architectures.negated),
    ("restrictions", .list (p.profileGroups.map fun group =>
      .texts (group.map ProfileTerm.render))),
    ("substvar", .bool p.isSubstvar)]

def dependencyJson (d : Dependency) : Json.Value :=
  .list (d.map fun relation => .list (relation.map possibilityJson))

def runDependency (t : Text) (architecture : Option Text) (profiles : Option (List Text)) :
    Output := do
  let d ← parseDependency t
  match ← parseOptional architecture with
  | none => return [(dependencyJson d).render 0]
  | some a => return (d.select a profiles).map Possibility.render

def sourceJson (r : Record) : Json.Value :=
  .object [
    ("source", .text r.source),
    ("maintainers", .texts r.maintainers),
    ("section", .text (r.text "section")),
    ("priority", .text (r.text "priority")),
    ("standards_version", .text (r.text "standards_version")),
    ("build_depends", dependencyJson (r.dependency "build_depends")),
    ("build_depends_arch", dependencyJson (r.dependency "build_depends_arch")),
    ("build_depends_indep", dependencyJson (r.dependency "build_depends_indep"))]

def binaryJson (r : Record) : Json.Value :=
  .object [
    ("package", .text r.package),
    ("architecture", .texts ((r.architectures "architecture").map Architecture.render)),
    ("essential", .bool (r.flag "essential")),
    ("depends", dependencyJson (r.dependency "depends")),
    ("pre_depends", dependencyJson (r.dependency "pre_depends")),
    ("substvars", .texts ((r.dependency "depends").substvars.filterMap Possibility.substvar?))]

def controlJson (c : Control) : Json.Value :=
  .object [("source", sourceJson c.source), ("binaries", .list (c.binaries.map binaryJson))]

def runControl (w : Workspace) (file : Text) : Output := do
  let c ← (Control.load w (.ofText file)).mapError .load
  return [(controlJson c).render 0]

def describeOrder (b : BuildOrder) : List Text :=
  [[], rule, s!"BUILD ORDER ({string b.host.render})".toList, rule] ++
    (b.generations.mapIdx fun i names =>
      s!"Generation {i}:    {Graph.commaSeparated names}".toList) ++
    (if b.external.isEmpty then [] else [column "External" (join ", " b.external)]) ++
    [rule, []] ++ b.order

/-- What the command line asks for goes before the settings. -/
def orderSettings (s : Settings) (architecture : Option Text) (profiles : Option (List Text)) :
    Settings :=
  { s with
    hostArchitecture := architecture.getD s.hostArchitecture
    buildProfiles := profiles.getD s.buildProfiles }

def runOrder (w : Workspace) (s : Settings) (files : List Text) : Output := do
  let b ← (BuildOrder.compute w (files.map Path.ofText) (pure s)).mapError .order
  return describeOrder b

def perform (w : Workspace) (s : Settings) : Command → Output
  | .version text strict => runVersion s text strict
  | .compare first second => runCompare s first second
  | .architecture text pattern => runArchitecture text pattern
  | .dependency text architecture profiles => runDependency text architecture profiles
  | .control file => runControl w file
  | .order files architecture profiles =>
      runOrder w (orderSettings s architecture profiles) files

def Command.reportsFiles : Command → Bool
  | .control _ | .order _ _ _ => true
  | _ => false

/-- Whether a command ends with a message for an error. No command does so for a file in a wrong
encoding. -/
def Command.reports (c : Command) (e : CommandError) : Bool :=
  e.fileError?.all fun cause => c.reportsFiles && cause.fault != .notUtf8

structure Outcome where
  status : Nat
  output : String
deriving DecidableEq, Repr

def unlines (ls : List Text) : String :=
  string (ls.flatMap (· ++ ['\n']))

def Invocation.output (w : Workspace) (i : Invocation) : Output := do
  perform w (← loadSettings w i.config) i.command

/-- The messages of a run come before its lines. -/
def Invocation.run (w : Workspace) (i : Invocation) : Except CommandError Outcome :=
  let done := i.output w
  match done.result with
  | .ok ls => .ok ⟨0, i.level.output done.log ++ unlines ls⟩
  | .error e =>
      if i.command.reports e then .ok ⟨1, i.level.output done.log ++ unlines e.report⟩
      else .error e

def programVersion : Text := "debmeta 0.1.0"

def run (w : Workspace) (args : List Text) : Except CommandError Outcome :=
  match Invocation.read args with
  | .ok i => i.run w
  | .error .help => .ok ⟨0, ""⟩
  | .error .version => .ok ⟨0, unlines [programVersion]⟩
  | .error .usage => .ok ⟨2, ""⟩

end DebianPackaging.CommandLine
