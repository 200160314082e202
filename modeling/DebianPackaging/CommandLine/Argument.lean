import DebianPackaging.Text.Basic

namespace DebianPackaging.CommandLine

open Text

inductive Switch
  | help
  | version
  | strict
  | verbose
  | debug
  | config
  | pattern
  | architecture
  | profile
deriving DecidableEq, Repr

def Switch.takesValue : Switch → Bool
  | .config | .pattern | .architecture | .profile => true
  | _ => false

abbrev SwitchTable := List (Text × Switch)

inductive Stop
  | help
  | version
  | usage
deriving DecidableEq, Repr

inductive Argument
  | word
  | switch (s : Switch) (attached : Option Text)
  /-- Options that share a hyphen. -/
  | letters (ss : List Switch)
  | unknown
  | ambiguous
  | malformed
deriving DecidableEq, Repr

def separator : Text := "--"

def isNegativeNumber (t : Text) : Bool :=
  t.head? = some '-' &&
    match cut '.' t.tail with
    | none => !t.tail.isEmpty && t.tail.all Char.isDigit
    | some (whole, fraction) =>
        whole.all Char.isDigit && !fraction.isEmpty && fraction.all Char.isDigit

namespace SwitchTable

def splitValue (t : Text) : Text × Option Text :=
  match cut '=' t with
  | some (name, value) => (name, some value)
  | none => (t, none)

def completions (table : SwitchTable) (t : Text) : List Switch :=
  if ['-', '-'].isPrefixOf t then
    (table.filter fun row => (splitValue t).1.isPrefixOf row.1).map Prod.snd
  else
    []

def letters (table : SwitchTable) (t : Text) : Argument :=
  match t.mapM fun c => table.lookup ['-', c] with
  | some ss => .letters ss
  | none => .malformed

/-- An option with a text behind an equals sign. It is the value of the option or, after a letter that
takes none, stands for more letters. -/
def assigned (table : SwitchTable) (name : Text) (s : Switch) (value : Text) : Argument :=
  if s.takesValue || value.isEmpty || ['-', '-'].isPrefixOf name then .switch s (some value)
  else table.letters (name.tail ++ value)

def leftover (t : Text) : Argument :=
  if isNegativeNumber t || ' ' ∈ t then .word else .unknown

def abbreviation (table : SwitchTable) (t : Text) : Argument :=
  match table.completions t with
  | [s] => .switch s (splitValue t).2
  | [] =>
      if (table.lookup (t.take 2)).isSome then table.letters t.tail else leftover t
  | _ => .ambiguous

def classify (table : SwitchTable) (t : Text) : Argument :=
  if t.head? ≠ some '-' || t = ['-'] then
    .word
  else
    let (name, value?) := splitValue t
    match table.lookup t, table.lookup name, value? with
    | some s, _, _ => .switch s none
    | none, some s, some value => table.assigned name s value
    | none, _, _ => table.abbreviation t

/-- Some argument before the separator may be meant as more than one option. -/
def isAmbiguous (table : SwitchTable) (args : List Text) : Bool :=
  (args.takeWhile (· ≠ separator)).any fun t => table.classify t = .ambiguous

end SwitchTable

/-- An argument with its role. The value of an option that takes none is empty. -/
inductive Piece
  | word (t : Text)
  | given (s : Switch) (value : Text)
  | unknown
  | separator
deriving DecidableEq, Repr

def flagPiece : Switch → Except Stop Piece
  | .help => .error .help
  | .version => .error .version
  | s => .ok (.given s [])

def pieces (table : SwitchTable) : List Text → Except Stop (List Piece)
  | [] => .ok []
  | t :: rest =>
      if t = separator then
        .ok (.separator :: rest.map .word)
      else
        match table.classify t with
        | .word => do return .word t :: (← pieces table rest)
        | .unknown => do return .unknown :: (← pieces table rest)
        | .ambiguous | .malformed => .error .usage
        | .letters ss => do return (← ss.mapM flagPiece) ++ (← pieces table rest)
        | .switch s attached =>
            if s.takesValue then
              match attached with
              | some value => do return .given s value :: (← pieces table rest)
              | none =>
                  match rest with
                  | [] => .error .usage
                  | value :: more =>
                      if value ≠ separator && table.classify value = .word then do
                        return .given s value :: (← pieces table more)
                      else
                        .error .usage
            else if attached.isSome then
              .error .usage
            else do
              let flag ← flagPiece s
              return flag :: (← pieces table rest)

/-- How many words a command takes: so many, or one run of them that no option interrupts. -/
inductive Arity
  | exactly (n : Nat)
  | oneRun
deriving DecidableEq, Repr

structure Arguments where
  words : List Text
  options : List (Switch × Text)
deriving DecidableEq, Repr

namespace Arguments

def isOption : Piece → Bool
  | .given _ _ | .unknown => true
  | _ => false

def word? : Piece → Option Text
  | .word t => some t
  | _ => none

def option? : Piece → Option (Switch × Text)
  | .given s value => some (s, value)
  | _ => none

def runs (ps : List Piece) : List (List Piece) :=
  (ps.splitOnP isOption).filter fun run => !run.isEmpty

def fits (arity : Arity) (ps : List Piece) : Bool :=
  match arity with
  | .exactly n => (ps.filterMap word?).length = n
  | .oneRun => (runs ps).length = 1

/-- Every option must be known, and `--` must stand beside a word. -/
def ofPieces (arity : Arity) (ps : List Piece) : Except Stop Arguments :=
  if !ps.contains .unknown && (runs ps).all (·.any fun p => (word? p).isSome) && fits arity ps then
    .ok ⟨ps.filterMap word?, ps.filterMap option?⟩
  else
    .error .usage

def read (table : SwitchTable) (arity : Arity) (args : List Text) : Except Stop Arguments := do
  if table.isAmbiguous args then
    .error .usage
  else
    ofPieces arity (← pieces table args)

def has (a : Arguments) (s : Switch) : Bool :=
  a.options.any (·.1 = s)

def values (a : Arguments) (s : Switch) : List Text :=
  (a.options.filter (·.1 = s)).map Prod.snd

def value? (a : Arguments) (s : Switch) : Option Text :=
  (a.values s).getLast?.filter (!·.isEmpty)

def values? (a : Arguments) (s : Switch) : Option (List Text) :=
  if a.has s then some (a.values s) else none

end Arguments

end DebianPackaging.CommandLine
