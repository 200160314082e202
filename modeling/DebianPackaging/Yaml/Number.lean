import DebianPackaging.Text.Basic

namespace DebianPackaging.Yaml

open Text

def hexDigit? (c : Char) : Option Nat :=
  if c.isDigit then some (c.toNat - 0x30)
  else if 'a' ≤ c && c ≤ 'f' then some (c.toNat - 0x57)
  else if 'A' ≤ c && c ≤ 'F' then some (c.toNat - 0x37)
  else none

def isDigitOf (base : Nat) (c : Char) : Bool :=
  (hexDigit? c).any (· < base)

def areDigits (base : Nat) (t : Text) : Bool :=
  t.all fun c => c = '_' || isDigitOf base c

def ofDigits (base : Nat) (t : Text) : Nat :=
  (t.filterMap hexDigit?).foldl (fun n d => base * n + d) 0

def digits? (base : Nat) (t : Text) : Option Nat :=
  if !t.isEmpty && areDigits base t then some (ofDigits base t) else none

def isSign (c : Char) : Bool :=
  c = '-' || c = '+'

def unsigned (t : Text) : Text :=
  if t.head?.any isSign then t.tail else t

def signed (t : Text) (n : Nat) : Int :=
  if t.head? = some '-' then -n else n

def isRun (t : Text) : Bool :=
  t.head?.any Char.isDigit && areDigits 10 t

def isSixtieth : Text → Bool
  | [c] => c.isDigit
  | [c, d] => c.isDigit && c < '6' && d.isDigit
  | _ => false

/-- A whole number that starts with a zero is in base eight, unless a letter says otherwise. -/
def whole? : Text → Option Nat
  | '0' :: 'b' :: digits => digits? 2 digits
  | '0' :: 'x' :: digits => digits? 16 digits
  | '0' :: digits => digits? 8 ('0' :: digits)
  | t =>
      match t.splitOn ':' with
      | [] => none
      | first :: more =>
          if isRun first && more.all isSixtieth then
            some (more.foldl (fun n sixtieth => 60 * n + ofDigits 10 sixtieth) (ofDigits 10 first))
          else
            none

def int? (t : Text) : Option Int :=
  (whole? (unsigned t)).map (signed t)

/-- What stands before and after the decimal point. Where nothing stands before it there is no sign. -/
def pointParts? (t : Text) : Option (Text × Text) :=
  (cut '.' (unsigned t)).filter fun (whole, fraction) =>
    if whole.isEmpty then isRun fraction && unsigned t = t
    else isRun whole && areDigits 10 fraction

def isSexagesimal (t : Text) : Bool :=
  (cut '.' (unsigned t)).any fun (whole, fraction) =>
    match whole.splitOn ':' with
    | first :: second :: more =>
        isRun first && (second :: more).all isSixtieth && areDigits 10 fraction
    | _ => false

def isExponential (t : Text) : Bool :=
  let mark (c : Char) : Bool := c = 'e' || c = 'E'
  match t.dropWhile (!mark ·) with
  | _ :: sign :: power =>
      (pointParts? (t.takeWhile (!mark ·))).isSome && isSign sign && !power.isEmpty &&
        power.all Char.isDigit
  | _ => false

end DebianPackaging.Yaml
