import DebianPackaging.Dependency.Basic
import DebianPackaging.Version.Parse

namespace DebianPackaging.Dependency

open Text

inductive ParseFault
  | missingCloser (closer : Char)
  | missingName
  | nestedDelimiter
  | unmatchedDelimiter (closer : Char)
  | secondConstraint
  | lateConstraint
  | lateArchitectures
  | badOperator (operator : Text)
  | badVersion (cause : Version.ParseError)
  | noArchitectures
  | mixedNegation
  | badArchitecture (token : Text) (cause : Architecture.ParseError)
  | noProfiles
  | badProfile (token : Text)
  | unexpectedText (rest : Text)
deriving DecidableEq, Repr

inductive FaultKind
  | unmatchedDelimiter
  | duplicateConstraint
  | badOperator
  | inconsistentNegation
  | badArchitecture
  | badVersion
  | missingName
  | unexpectedText
deriving DecidableEq, Repr

def ParseFault.kind : ParseFault → FaultKind
  | .missingCloser _ | .nestedDelimiter | .unmatchedDelimiter _ => .unmatchedDelimiter
  | .missingName => .missingName
  | .secondConstraint => .duplicateConstraint
  | .badOperator _ => .badOperator
  | .badVersion _ => .badVersion
  | .noArchitectures | .badArchitecture _ _ => .badArchitecture
  | .mixedNegation => .inconsistentNegation
  | .lateConstraint | .lateArchitectures | .noProfiles | .badProfile _ | .unexpectedText _ =>
      .unexpectedText

def ParseFault.message : ParseFault → String
  | .missingCloser closer => s!"missing {quoted [closer]}"
  | .missingName => "missing package name"
  | .nestedDelimiter => "nested or unbalanced delimiter"
  | .unmatchedDelimiter closer => s!"unmatched {quoted [closer]}"
  | .secondConstraint => "more than one version constraint"
  | .lateConstraint => "version constraint after architecture or profile list"
  | .lateArchitectures => "unexpected architecture list"
  | .badOperator operator => s!"bad relation operator {quoted operator}"
  | .badVersion cause => s!"bad version ({cause.message})"
  | .noArchitectures => "empty architecture list"
  | .mixedNegation => "architecture list mixes negated and plain entries"
  | .badArchitecture token _ => s!"bad architecture {quoted token}"
  | .noProfiles => "empty build profile list"
  | .badProfile token => s!"bad build profile {quoted token}"
  | .unexpectedText rest => s!"unexpected text {quoted rest}"

structure ParseError where
  fault : ParseFault
  text : Text
deriving DecidableEq, Repr

def ParseError.message (e : ParseError) : String :=
  s!"{e.fault.message} in {quoted e.text}"

inductive Bracket
  | round
  | square
  | angle
deriving DecidableEq, Repr

namespace Bracket

def closer : Bracket → Char
  | .round => ')'
  | .square => ']'
  | .angle => '>'

def ofOpener? : Char → Option Bracket
  | '(' => some .round
  | '[' => some .square
  | '<' => some .angle
  | _ => none

def forbidden : Bracket → List Char
  | .round => ['(', ')', '[', ']']
  | .square | .angle => ['(', ')', '[', ']', '<', '>']

def checkInner (b : Bracket) (inner : Text) : Except ParseFault Unit :=
  if inner.any (b.forbidden.contains ·) then .error .nestedDelimiter else .ok ()

end Bracket

def isNameChar (c : Char) : Bool :=
  c.isAlphanum || c ∈ ['+', '.', '_', '-']

def isQualifierChar (c : Char) : Bool :=
  c.isAlphanum || c = '-'

def isOperatorChar (c : Char) : Bool :=
  c ∈ ['<', '>', '=']

def isProfileChar (c : Char) : Bool :=
  c.isLower || c.isDigit || c ∈ ['.', '+', '-']

def isProfile (t : Text) : Bool :=
  t.head?.any (fun c => c.isLower || c.isDigit) && t.all isProfileChar

/-- A package name, or a substitution variable up to its closing brace; and the text after it. -/
def readName : Text → Except ParseFault (Text × Text)
  | '$' :: '{' :: rest =>
      match cut '}' rest with
      | none => .error (.missingCloser '}')
      | some (inner, rest) => .ok ('$' :: '{' :: inner ++ ['}'], rest)
  | c :: rest =>
      if c.isAlphanum then
        .ok (c :: rest.takeWhile isNameChar, rest.dropWhile isNameChar)
      else
        .error .missingName
  | [] => .error .missingName

/-- A colon that no qualifier follows is left in place. -/
def readQualifier : Text → Option Text × Text
  | ':' :: rest =>
      if (rest.takeWhile isQualifierChar).isEmpty then
        (none, ':' :: rest)
      else
        (some (rest.takeWhile isQualifierChar), rest.dropWhile isQualifierChar)
  | t => (none, t)

def readConstraint (inner : Text) : Except ParseFault VersionConstraint :=
  let operator := (trimLeft inner).takeWhile isOperatorChar
  let version := (trimLeft inner).dropWhile isOperatorChar
  if (Operator.ofSymbol? operator).isNone then
    .error (.badOperator operator)
  else
    match Version.parse (trim version) with
    | .ok bound => .ok ⟨operator, bound⟩
    | .error cause => .error (.badVersion cause)

def isNegated (token : Text) : Bool :=
  token.head? == some '!'

def readMember (negated : Bool) (token : Text) : Except ParseFault Architecture :=
  if isNegated token != negated then
    .error .mixedNegation
  else
    (Architecture.parse (if negated then token.dropWhile (· == '!') else token)).mapError
      (.badArchitecture token)

/-- The first entry says whether the whole list is negated. -/
def readArchitectures (inner : Text) : Except ParseFault ArchitectureFilter :=
  match words inner with
  | [] => .error .noArchitectures
  | token :: tokens =>
      ((token :: tokens).mapM (readMember (isNegated token))).map (⟨·, isNegated token⟩)

def readTerm (token : Text) : Except ParseFault ProfileTerm :=
  let profile := if isNegated token then token.tail else token
  if isProfile profile then .ok ⟨profile, isNegated token⟩ else .error (.badProfile token)

def readGroup (inner : Text) : Except ParseFault (List ProfileTerm) :=
  match words inner with
  | [] => .error .noProfiles
  | tokens => tokens.mapM readTerm

structure Sections where
  constraint : Option VersionConstraint
  architectures : Option ArchitectureFilter
  profileGroups : List (List ProfileTerm)
deriving DecidableEq, Repr

namespace Sections

def empty : Sections := ⟨none, none, []⟩

/-- The constraint comes first and the profile groups last. -/
def add (s : Sections) (b : Bracket) (inner : Text) : Except ParseFault Sections :=
  match b with
  | .round =>
      if s.constraint.isSome then .error .secondConstraint
      else if s.architectures.isSome || !s.profileGroups.isEmpty then .error .lateConstraint
      else do
        b.checkInner inner
        let constraint ← readConstraint inner
        .ok { s with constraint := some constraint }
  | .square =>
      if s.architectures.isSome || !s.profileGroups.isEmpty then .error .lateArchitectures
      else do
        b.checkInner inner
        let architectures ← readArchitectures inner
        .ok { s with architectures := some architectures }
  | .angle => do
      b.checkInner inner
      let group ← readGroup inner
      .ok { s with profileGroups := s.profileGroups ++ [group] }

end Sections

def readSections (s : Sections) (t : Text) : Except ParseFault Sections :=
  match t with
  | [] => .ok s
  | c :: rest =>
      if isBlank c then
        readSections s rest
      else
        match Bracket.ofOpener? c with
        | none =>
            .error (if c ∈ [')', ']', '>'] then .unmatchedDelimiter c else .unexpectedText (c :: rest))
        | some b =>
            match _h : cut b.closer rest with
            | none => .error (.missingCloser b.closer)
            | some (inner, rest) => do
                let s ← s.add b inner
                readSections s rest
termination_by t.length
decreasing_by
  · simp
  · have := cut_length _h
    simp only [List.length_cons]
    omega

def readPossibility (t : Text) : Except ParseFault Possibility := do
  let (name, t) ← readName (trim t)
  let (qualifier, t) := readQualifier t
  let s ← readSections .empty t
  .ok {
    name, qualifier
    constraint := s.constraint
    architectures := s.architectures.getD .unrestricted
    profileGroups := s.profileGroups }

def readRelation (t : Text) : Except ParseFault Relation :=
  (t.splitOn '|').mapM readPossibility

/-- Blank stretches between commas are passed over. -/
def read (t : Text) : Except ParseFault Dependency :=
  ((t.splitOn ',').filter (!isBlankText ·)).mapM readRelation

def parse (text : Text) : Except ParseError Dependency :=
  (read text).mapError (⟨·, text⟩)

end DebianPackaging.Dependency
