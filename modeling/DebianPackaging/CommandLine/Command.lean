import DebianPackaging.CommandLine.Argument
import DebianPackaging.Log

namespace DebianPackaging.CommandLine

open Text

inductive Command
  | version (text : Text) (strict : Bool)
  | compare (first second : Text)
  | architecture (text : Text) (pattern : Option Text)
  | dependency (text : Text) (architecture : Option Text) (profiles : Option (List Text))
  | control (file : Text)
  | order (files : List Text) (architecture : Option Text) (profiles : Option (List Text))
deriving DecidableEq, Repr

structure Invocation where
  command : Command
  config : Option Text
  level : Log.Level
deriving DecidableEq, Repr

structure CommandRule where
  name : Text
  options : SwitchTable
  arity : Arity
  ofArguments : Arguments → Option Command

def helpOptions : SwitchTable :=
  [("-h", .help), ("--help", .help)]

def reportOptions : SwitchTable :=
  [("-v", .verbose), ("--verbose", .verbose), ("-d", .debug), ("--debug", .debug)]

def commonOptions : SwitchTable :=
  helpOptions ++ ("--config".toList, .config) :: reportOptions

def selectionOptions : SwitchTable :=
  [("--arch", .architecture), ("--profile", .profile)]

def versionRule : CommandRule where
  name := "version"
  options := ("--strict".toList, .strict) :: commonOptions
  arity := .exactly 1
  ofArguments a := a.words.head?.map fun text => .version text (a.has .strict)

def compareRule : CommandRule where
  name := "compare"
  options := commonOptions
  arity := .exactly 2
  ofArguments a :=
    match a.words with
    | [first, second] => some (.compare first second)
    | _ => none

def architectureRule : CommandRule where
  name := "arch"
  options := ("--match".toList, .pattern) :: commonOptions
  arity := .exactly 1
  ofArguments a := a.words.head?.map fun text => .architecture text (a.value? .pattern)

def dependencyRule : CommandRule where
  name := "dependency"
  options := selectionOptions ++ commonOptions
  arity := .exactly 1
  ofArguments a :=
    a.words.head?.map fun text =>
      .dependency text (a.value? .architecture) (a.values? .profile)

def controlRule : CommandRule where
  name := "control"
  options := commonOptions
  arity := .exactly 1
  ofArguments a := a.words.head?.map .control

def orderRule : CommandRule where
  name := "order"
  options := selectionOptions ++ commonOptions
  arity := .oneRun
  ofArguments a := some (.order a.words (a.value? .architecture) (a.values? .profile))

def rules : List CommandRule :=
  [versionRule, compareRule, architectureRule, dependencyRule, controlRule, orderRule]

namespace Invocation

def ofRule (rule : CommandRule) (args : List Text) : Except Stop Invocation := do
  let a ← Arguments.read rule.options rule.arity args
  match rule.ofArguments a with
  | some command =>
      .ok ⟨command, a.value? .config, .ofFlags (a.has .verbose) (a.has .debug)⟩
  | none => .error .usage

def ofName (name : Text) (args : List Text) : Except Stop Invocation :=
  match rules.find? (·.name = name) with
  | some rule => ofRule rule args
  | none => .error .usage

def programOptions : SwitchTable :=
  ("--version".toList, .version) :: helpOptions

/-- Before the name of the command only help and the version of the program can be asked for. -/
def readFrom : List Text → Except Stop Invocation
  | [] => .error .usage
  | t :: rest =>
      if t = separator then
        .error .usage
      else
        match programOptions.classify t with
        | .word => ofName t rest
        | .unknown => do
            let _ ← readFrom rest
            .error .usage
        | .letters ss => do
            let _ ← ss.mapM flagPiece
            .error .usage
        | .switch s none => do
            let _ ← flagPiece s
            .error .usage
        | .switch _ (some _) | .ambiguous | .malformed => .error .usage

/-- No argument may be ambiguous to the program, whatever command it belongs to. -/
def read (args : List Text) : Except Stop Invocation :=
  if programOptions.isAmbiguous args then .error .usage else readFrom args

end Invocation

end DebianPackaging.CommandLine
