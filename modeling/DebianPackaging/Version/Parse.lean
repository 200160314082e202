import DebianPackaging.Text.Quoted
import DebianPackaging.Version.Basic
import DebianPackaging.Version.Chunk

namespace DebianPackaging.Version

open Text

def maxEpochDigits : Nat := 8

def maxDigitRun : Nat := 25

inductive ParseFault
  | blankText
  | embeddedBlank
  | badEpoch
  | emptyRevision
  | emptyRelease
  | badRelease (release : Text)
  | badRevision (revision : Text)
  | releaseNotNumeric (release : Text)
  | longDigitRun (length : Nat)
deriving DecidableEq, Repr

structure ParseError where
  fault : ParseFault
  text : Text
deriving DecidableEq, Repr

def ParseError.message (e : ParseError) : String :=
  match e.fault with
  | .blankText => "version string is empty"
  | .embeddedBlank => s!"version string contains whitespace: {quoted e.text}"
  | .badEpoch => s!"epoch must be 1-{maxEpochDigits} decimal digits in {quoted e.text}"
  | .emptyRevision => s!"revision is empty in {quoted e.text}"
  | .emptyRelease => s!"upstream version is empty in {quoted e.text}"
  | .badRelease release => s!"invalid character in upstream version {quoted release}"
  | .badRevision revision => s!"invalid character in revision {quoted revision}"
  | .releaseNotNumeric release => s!"upstream version must start with a digit: {quoted release}"
  | .longDigitRun length =>
      s!"digit run of {length} digits exceeds {maxDigitRun} in {quoted e.text}"

def isReleaseChar (c : Char) : Bool :=
  c.isAlphanum || c ∈ ['.', '+', '-', ':', '~']

def isRevisionChar (c : Char) : Bool :=
  c.isAlphanum || c ∈ ['.', '+', '~']

def isEpoch (t : Text) : Bool :=
  !t.isEmpty && t.all Char.isDigit && t.length ≤ maxEpochDigits

def longRun? (t : Text) : Option Nat :=
  ((chunks t).map (·.digits.length)).find? (maxDigitRun < ·)

def splitEpoch (t : Text) : Except ParseFault (Int × Text) :=
  match cut ':' t with
  | none => .ok (0, t)
  | some (epoch, rest) => if isEpoch epoch then .ok (toNat epoch, rest) else .error .badEpoch

def splitRevision (t : Text) : Except ParseFault (Text × Text) :=
  match cutLast '-' t with
  | none => .ok (t, [])
  | some (release, revision) =>
      if revision.isEmpty then .error .emptyRevision else .ok (release, revision)

/-- The conditions on the parts of a version, in the order in which they are reported. -/
def checkParts (strict : Bool) (v : Version) : Except ParseFault Version :=
  if v.release.isEmpty then .error .emptyRelease
  else if !v.release.all isReleaseChar then .error (.badRelease v.release)
  else if !v.revision.all isRevisionChar then .error (.badRevision v.revision)
  else if strict && !(v.release.head?.any Char.isDigit) then .error (.releaseNotNumeric v.release)
  else
    match (longRun? v.release).or (longRun? v.revision) with
    | some length => .error (.longDigitRun length)
    | none => .ok v

def parseTrimmed (strict : Bool) (t : Text) : Except ParseFault Version :=
  if t.isEmpty then .error .blankText
  else if t.any isBlank then .error .embeddedBlank
  else do
    let (epoch, rest) ← splitEpoch t
    let (release, revision) ← splitRevision rest
    checkParts strict ⟨epoch, release, revision⟩

/-- The epoch ends at the first colon and the revision starts after the last hyphen. A strict reader
wants the release to start with a digit. -/
def parseWith (strict : Bool) (text : Text) : Except ParseError Version :=
  (parseTrimmed strict (trim text)).mapError (⟨·, text⟩)

def parse (text : Text) : Except ParseError Version :=
  parseWith false text

end DebianPackaging.Version
