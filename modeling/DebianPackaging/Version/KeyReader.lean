import DebianPackaging.Outcome
import DebianPackaging.Version.Key
import DebianPackaging.Version.Parse

namespace DebianPackaging.Version

open Text Outcome

inductive KeyFault
  | endOfInput
  | missing (mark : Char)
  | badCount
  | badDigits
  | leadingZero
  | unexpected (c : Char)
  | emptyText
  | epochText
  | trailingData
  | invalid (cause : ParseError)
  | ambiguous (rendered : Text)
deriving DecidableEq, Repr

structure KeyError where
  fault : KeyFault
  text : Text
  offset : Nat
deriving DecidableEq, Repr

def KeyFault.message : KeyFault → String
  | .endOfInput => "unexpected end of input"
  | .missing mark => s!"expected {quoted [mark]}"
  | .badCount => "bad length byte"
  | .badDigits => "bad digit run"
  | .leadingZero => "digit run has a leading zero"
  | .unexpected c => s!"unexpected byte {quoted [c]}"
  | .emptyText => "empty non-digit run"
  | .epochText => "epoch contains non-digits"
  | .trailingData => "trailing data"
  | .invalid cause => s!"decodes to an invalid version: {cause.message}"
  | .ambiguous rendered => s!"decodes ambiguously to {quoted rendered}"

def KeyError.message (e : KeyError) : String :=
  s!"invalid comparable string {quoted e.text} at offset {e.offset}: {e.fault.message}"

/-- A fault, and the text from where it was met. -/
structure KeyStop where
  fault : KeyFault
  rest : Text
deriving DecidableEq, Repr

def readMark (mark : Char) : Text → Except KeyStop (Unit × Text)
  | [] => .error ⟨.endOfInput, []⟩
  | c :: rest => if c = mark then .ok ((), rest) else .error ⟨.missing mark, c :: rest⟩

def readCount : Text → Except KeyStop (Nat × Text)
  | [] => .error ⟨.endOfInput, []⟩
  | c :: rest =>
      if 'a'.toNat ≤ c.toNat ∧ c.toNat ≤ 'a'.toNat + maxDigitRun then
        .ok (c.toNat - 'a'.toNat, rest)
      else
        .error ⟨.badCount, c :: rest⟩

def readDigits (n : Nat) (t : Text) : Except KeyStop (Text × Text) :=
  if (t.take n).length ≠ n || !(t.take n).all Char.isDigit then .error ⟨.badDigits, t⟩
  else if (t.take n).head? = some '0' then .error ⟨.leadingZero, t⟩
  else .ok (t.take n, t.drop n)

def unkeyChar? : Char → Option Char
  | '!' => some '~'
  | '{' => some '+'
  | '|' => some '-'
  | '}' => some '.'
  | '~' => some ':'
  | c => if c.isAlpha then some c else none

def readText : Text → Except KeyStop (Text × Text)
  | [] => .error ⟨.endOfInput, []⟩
  | c :: rest =>
      if c = '%' then
        .ok ([], c :: rest)
      else
        match unkeyChar? c with
        | none => .error ⟨.unexpected c, c :: rest⟩
        | some d => (readText rest).map fun (text, rest) => (d :: text, rest)

/-- A chunk with its significant digits only. Only the first chunk of a field may lack the text. -/
def readChunk (isFirst : Bool) (t : Text) : Except KeyStop (Chunk × Text) := do
  let (text, t) ← readText t
  if text.isEmpty && !isFirst then
    .error ⟨.emptyText, t⟩
  else
    let (_, t) ← readMark '%' t
    let (n, t) ← readCount t
    let (digits, t) ← readDigits n t
    .ok (⟨text, digits⟩, t)

theorem readMark_length {mark : Char} {t rest : Text} {u : Unit}
    (h : readMark mark t = .ok (u, rest)) : rest.length < t.length := by
  cases t with
  | nil => cases h
  | cons c t =>
      simp only [readMark] at h
      split at h <;> cases h
      simp

theorem readCount_length {t rest : Text} {n : Nat} (h : readCount t = .ok (n, rest)) :
    rest.length < t.length := by
  cases t with
  | nil => cases h
  | cons c t =>
      simp only [readCount] at h
      split at h <;> cases h
      simp

theorem readDigits_length {n : Nat} {t digits rest : Text}
    (h : readDigits n t = .ok (digits, rest)) : rest.length ≤ t.length := by
  simp only [readDigits] at h
  split at h
  · cases h
  · split at h <;> cases h
    simp

theorem readText_length {t text rest : Text} (h : readText t = .ok (text, rest)) :
    rest.length ≤ t.length := by
  induction t generalizing text rest with
  | nil => cases h
  | cons c t ih =>
      simp only [readText] at h
      split at h
      · cases h; simp
      · split at h
        · cases h
        · obtain ⟨⟨_, _⟩, ht, h⟩ := map_eq_ok_iff.mp h
          cases h
          exact Nat.le_succ_of_le (ih ht)

theorem readChunk_length {isFirst : Bool} {t rest : Text} {k : Chunk}
    (h : readChunk isFirst t = .ok (k, rest)) : rest.length < t.length := by
  obtain ⟨⟨_, _⟩, htext, h⟩ := bind_eq_ok_iff.mp h
  obtain ⟨-, h⟩ := ite_error_eq_ok_iff.mp h
  obtain ⟨⟨_, _⟩, hmark, h⟩ := bind_eq_ok_iff.mp h
  obtain ⟨⟨_, _⟩, hcount, h⟩ := bind_eq_ok_iff.mp h
  obtain ⟨⟨_, _⟩, hdigits, h⟩ := bind_eq_ok_iff.mp h
  cases h
  have := readText_length htext
  have := readMark_length hmark
  have := readCount_length hcount
  have := readDigits_length hdigits
  omega

def readField (isFirst : Bool) (t : Text) : Except KeyStop (List Chunk × Text) :=
  match _h : readChunk isFirst t with
  | .error e => .error e
  | .ok (_, []) => .error ⟨.endOfInput, []⟩
  | .ok (k, c :: rest) =>
      if c = '#' then
        .ok ([k], rest)
      else
        (readField false (c :: rest)).map fun (ks, rest) => (k :: ks, rest)
termination_by t.length
decreasing_by exact readChunk_length _h

def readSpelling : List Chunk → Text → Except KeyStop (Text × Text)
  | [], t => .ok ([], t)
  | k :: ks, t => do
      let (zeros, t) ← readCount t
      let (spelling, t) ← readSpelling ks t
      .ok (k.text ++ List.replicate zeros '0' ++ k.digits ++ spelling, t)

def readParts (t : Text) : Except KeyStop Version := do
  let (epoch, t) ← readChunk true t
  if !epoch.text.isEmpty then
    .error ⟨.epochText, t⟩
  else
    let (_, t) ← readMark '#' t
    let (release, t) ← readField true t
    let (revision, t) ← readField true t
    let (release, t) ← readSpelling release t
    let (revision, t) ← readSpelling revision t
    if t.isEmpty then .ok ⟨toNat epoch.digits, release, revision⟩ else .error ⟨.trailingData, t⟩

/-- A version as read from a key is written and read again: only then is the key one of ours. -/
def confirm (v : Version) : Except KeyFault Version :=
  match parse v.render with
  | .error cause => .error (.invalid cause)
  | .ok w => if w = v then .ok v else .error (.ambiguous v.render)

def ofKey (text : Text) : Except KeyError Version :=
  match readParts text with
  | .error stop => .error ⟨stop.fault, text, text.length - stop.rest.length⟩
  | .ok v => (confirm v).mapError (⟨·, text, text.length⟩)

end DebianPackaging.Version
