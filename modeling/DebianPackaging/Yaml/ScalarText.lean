import DebianPackaging.Yaml.Cursor
import DebianPackaging.Yaml.Number

namespace DebianPackaging.Yaml

open Text

def moreBreaks (isSpace : Char → Bool) (column : Nat) : Text → Text × Nat × Text
  | [] => ([], column, [])
  | c :: rest =>
      if isBreak c then
        let more := moreBreaks isSpace 0 rest
        (c :: more.1, more.2)
      else if isSpace c then
        moreBreaks isSpace (column + 1) rest
      else
        ([], column, c :: rest)

def isPlainBreak (c : Char) : Bool :=
  c = '\n' || c = '\r' || c = Char.ofNat 0x85

def keepBreak (c : Char) : Char :=
  if isPlainBreak c then '\n' else c

def fold (first : Char) (more : Text) : Text :=
  if !isPlainBreak first then first :: more.map keepBreak
  else if more.isEmpty then [' ']
  else more.map keepBreak

structure Space where
  /-- What it stands for. -/
  meaning : Text
  /-- The column of what follows, if that is on another line. -/
  indent : Option Nat
  rest : Text

def space (isSpace : Char → Bool) (t : Text) : Space :=
  match t.dropWhile isSpace with
  | c :: rest =>
      if isBreak c then
        let more := moreBreaks isSpace 0 rest
        ⟨fold c more.1, some more.2.1, more.2.2⟩
      else
        ⟨t.takeWhile isSpace, none, c :: rest⟩
  | [] => ⟨t.takeWhile isSpace, none, []⟩

def indicators : Text := "-?:,[]{}#&*!|>'\"%@`"

def flowIndicators : Text := ",?[]{}"

/-- A plain scalar starts with no indicator, but a dash, and in a block also a question mark or a
colon, may come before a character that is no separator. -/
def startsPlain (block : Bool) : Text → Bool
  | [] => false
  | c :: rest =>
      if c ∈ indicators then !atSeparator rest && (c = '-' || (block && (c = '?' || c = ':')))
      else !isSeparator c

def endsPlain (block : Bool) : Text → Bool
  | [] => true
  | c :: rest =>
      isSeparator c || (!block && c ∈ flowIndicators) ||
        (c = ':' && (atSeparator rest || (!block && rest.head?.any (· ∈ flowIndicators))))

def plainRun (block : Bool) : Text → Text × Text
  | [] => ([], [])
  | c :: rest =>
      if endsPlain block (c :: rest) then
        ([], c :: rest)
      else
        let run := plainRun block rest
        (c :: run.1, run.2)

/-- A plain scalar goes on after white space unless a comment follows, or, in a block, a line that is
indented by less than `indent`. -/
def goesOn (block : Bool) (indent : Nat) (s : Space) : Bool :=
  !s.meaning.isEmpty && s.rest.head? != some '#' && !endsPlain block s.rest &&
    !(block && s.indent.any (· < indent))

def plainFrom (block : Bool) (indent : Nat) : Nat → Text → Text × Text
  | 0, t => ([], t)
  | fuel + 1, t =>
      let run := plainRun block t
      let s := space (· = ' ') run.2
      if goesOn block indent s then
        let more := plainFrom block indent fuel s.rest
        (run.1 ++ s.meaning ++ more.1, more.2)
      else
        run

def plainText (block : Bool) (indent : Nat) (t : Text) : Text × Text :=
  plainFrom block indent t.length t

def escapes : List (Char × Nat) :=
  [('0', 0x00), ('a', 0x07), ('b', 0x08), ('t', 0x09), ('\t', 0x09), ('n', 0x0a), ('v', 0x0b),
    ('f', 0x0c), ('r', 0x0d), ('e', 0x1b), (' ', 0x20), ('"', 0x22), ('\\', 0x5c), ('/', 0x2f),
    ('N', 0x85), ('_', 0xa0), ('L', 0x2028), ('P', 0x2029)]

def hexEscapes : List (Char × Nat) :=
  [('x', 2), ('u', 4), ('U', 8)]

def hexChar? (width : Nat) (t : Text) : Option Char :=
  let digits := t.take width
  let n := ofDigits 16 digits
  if digits.length = width && digits.all (isDigitOf 16) && n.isValidChar then some (Char.ofNat n)
  else none

def isTabOrSpace (c : Char) : Bool :=
  c = ' ' || c = '\t'

/-- What an escape after its backslash stands for, and what comes after it. An escaped line break and
the spaces after it stand for nothing. -/
def escape? : Text → Option (Text × Text)
  | [] => none
  | c :: rest =>
      if isBreak c then
        let more := moreBreaks isTabOrSpace 0 rest
        some (more.1.map keepBreak, more.2.2)
      else
        match escapes.lookup c, hexEscapes.lookup c with
        | some n, _ => some ([Char.ofNat n], rest)
        | none, some width => (hexChar? width rest).map fun d => ([d], rest.drop width)
        | none, none => none

def quotedFrom (quote : Char) : Nat → Text → Option (Text × Text)
  | 0, _ => none
  | _, [] => none
  | fuel + 1, c :: rest =>
      let goOn (meaning rest : Text) : Option (Text × Text) :=
        (quotedFrom quote fuel rest).map fun more => (meaning ++ more.1, more.2)
      if c = quote then
        if quote = '\'' && rest.head? = some '\'' then goOn ['\''] rest.tail else some ([], rest)
      else if c = '\\' && quote = '"' then
        (escape? rest).bind fun e => goOn e.1 e.2
      else if isSeparator c then
        let s := space isTabOrSpace (c :: rest)
        goOn s.meaning s.rest
      else
        goOn [c] rest

/-- The text of a quoted scalar, from behind its opening quote, and what comes after the closing one.
A quote in single quotes is doubled. -/
def quotedText? (quote : Char) (t : Text) : Option (Text × Text) :=
  quotedFrom quote (t.length + 1) t

end DebianPackaging.Yaml
