import DebianPackaging.Text.Quoted
import DebianPackaging.Yaml.Scalar
import DebianPackaging.Yaml.ScalarText

namespace DebianPackaging.Yaml

open Text

def startsLikeMarker (t : Text) : Bool :=
  ['-', '-', '-'].isPrefixOf t || ['.', '.', '.'].isPrefixOf t

def isPlainText (t : Text) : Bool :=
  startsPlain true t && plainText true 0 t = (t, []) && Scalar.ofPlain t = .text t &&
    !isForeign t && !startsLikeMarker t

def isAsciiPrintable (c : Char) : Bool :=
  ' ' ≤ c && c ≤ '~'

/-- A line break beside a space, or a character outside of printable ASCII, can only be written with an
escape. -/
def needsEscapes : Text → Bool
  | [] => false
  | c :: rest =>
      !(isAsciiPrintable c || c = '\n') || (c = ' ' && rest.head? = some '\n') ||
        (c = '\n' && rest.head? = some ' ') || needsEscapes rest

def quotesTwice (t : Text) : Text :=
  t.flatMap fun c => if c = '\'' then ['\'', '\''] else [c]

def singleQuoted (t : Text) : Text :=
  '\'' :: quotesTwice t ++ ['\'']

def upperHex (width n : Nat) : Text :=
  (hex width n).map Char.toUpper

def writtenEscapes : List (Char × Char) :=
  (escapes.filter fun e => e.1 ∉ ['\t', ' ', '/']).map fun e => (Char.ofNat e.2, e.1)

def escapeChar (c : Char) : Text :=
  match writtenEscapes.lookup c with
  | some letter => ['\\', letter]
  | none =>
      if isAsciiPrintable c then [c]
      else if c.toNat ≤ 0xff then '\\' :: 'x' :: upperHex 2 c.toNat
      else if c.toNat ≤ 0xffff then '\\' :: 'u' :: upperHex 4 c.toNat
      else '\\' :: 'U' :: upperHex 8 c.toNat

def doubleQuoted (t : Text) : Text :=
  '"' :: t.flatMap escapeChar ++ ['"']

abbrev Lines := List Text

def onFirst (before : Text) : Lines → Lines
  | [] => [before]
  | line :: more => (before ++ line) :: more

def indented (ls : Lines) : Lines :=
  ls.map fun line => if line.isEmpty then [] else ' ' :: ' ' :: line

def hang (before : Text) : Lines → Lines
  | [] => [before]
  | line :: more => (before ++ line) :: indented more

def lineWidth : Nat := 80

/-- Where a text stands: the column of its first character, and that of its further lines. -/
structure Position where
  column : Nat
  margin : Nat

namespace Position

def skip (p : Position) (n : Nat) : Position :=
  { p with column := p.column + n }

def nextLine (p : Position) : Position :=
  { p with column := p.margin }

def isFull (p : Position) : Bool :=
  lineWidth < p.column

end Position

def isInWord (c : Option Char) : Bool :=
  c.any (· != ' ')

/-- The lines of a text behind the character `last`, up to a closing quote. A full line is broken at the
next space between words, and is read as that space. A line break of the text is no such space, so the
first one of several on end is written twice. -/
def wordLines (closing : Text) (p : Position) (last : Option Char) : Text → Lines
  | [] => [closing]
  | c :: rest =>
      if c = '\n' then
        (if last = some '\n' then [[]] else [[], []]) ++ wordLines closing p.nextLine (some c) rest
      else if c = ' ' && p.isFull && isInWord last && isInWord rest.head? then
        [] :: wordLines closing p.nextLine (some c) rest
      else
        onFirst [c] (wordLines closing (p.skip 1) (some c) rest)

def guardSpace (t : Text) : Text :=
  if t.head? = some ' ' then ['\\'] else []

/-- The lines of a text in double quotes, of which a backslash ends all but the last. A full line is
broken before the next space, or beside an escape, but neither before the second character nor behind
the last but one. -/
def escapedLines (p : Position) (first afterEscape : Bool) : Text → Lines
  | [] => [['"']]
  | c :: rest =>
      let written := escapeChar c
      let inner := !first && !rest.isEmpty
      if written = [c] then
        if inner && p.isFull && (c = ' ' || afterEscape) then
          let guard := guardSpace (c :: rest)
          ['\\'] :: onFirst (guard ++ [c])
            (escapedLines (p.nextLine.skip (guard.length + 1)) false false rest)
        else
          onFirst [c] (escapedLines (p.skip 1) false false rest)
      else
        let behind := p.skip written.length
        if inner && lineWidth + 1 < behind.column then
          let guard := guardSpace rest
          (written ++ ['\\']) :: onFirst guard
            (escapedLines (p.nextLine.skip guard.length) false true rest)
        else
          onFirst written (escapedLines behind false true rest)

def textLines (p : Position) (t : Text) : Lines :=
  if needsEscapes t then onFirst ['"'] (escapedLines (p.skip 1) true false t)
  else if isPlainText t then wordLines [] p none t
  else onFirst ['\''] (wordLines ['\''] (p.skip 1) none (quotesTwice t))

namespace Scalar

def lines (p : Position) : Scalar → Lines
  | .text t => textLines p t
  | s => [s.plain]

def typeName : Scalar → Text
  | .null => "!!null"
  | .bool _ => "!!bool"
  | .int _ => "!!int"
  | .decimal .. => "!!float"
  | .text _ => "!!str"

/-- A simple key stands on one line before its colon. It is not empty, holds no line break and is not
too long. -/
def isSimpleKey (s : Scalar) : Bool :=
  !s.plain.isEmpty && s.plain.all (fun c => c = '\r' || !isBreak c) &&
    s.typeName.length + s.plain.length < 128

def keyText : Scalar → Text
  | .text t =>
      if needsEscapes t then doubleQuoted t
      else if isPlainText t then t
      else singleQuoted t
  | s => s.plain

end Scalar

mutual

def Value.lines (column : Nat) : Value → Lines
  | .scalar s => s.lines ⟨column, column⟩
  | .list [] => [['[', ']']]
  | .list items => itemLines column items
  | .map [] => [['\x7b', '\x7d']]
  | .map rows => rowLines column rows

def itemLines (column : Nat) : List Value → Lines
  | [] => []
  | item :: more => hang ['-', ' '] (item.lines (column + 2)) ++ itemLines column more

def rowLines (column : Nat) : List Row → Lines
  | [] => []
  | (key, value) :: more =>
      (if key.isSimpleKey then
        valueLines column key.keyText value
      else
        hang ['?', ' '] (key.lines ⟨column + 2, column + 2⟩) ++
          hang [':', ' '] (value.lines (column + 2))) ++ rowLines column more

def valueLines (column : Nat) (key : Text) : Value → Lines
  | .scalar s => hang (key ++ [':', ' ']) (s.lines ⟨column + key.length + 2, column + 2⟩)
  | .list [] => [key ++ [':', ' ', '[', ']']]
  | .list items => (key ++ [':']) :: itemLines column items
  | .map [] => [key ++ [':', ' ', '\x7b', '\x7d']]
  | .map rows => (key ++ [':']) :: indented (rowLines (column + 2) rows)

end

end DebianPackaging.Yaml
