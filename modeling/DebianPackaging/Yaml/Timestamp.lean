import DebianPackaging.Yaml.Number

namespace DebianPackaging.Yaml

open Text

def afterDigits? (least most : Nat) (t : Text) : Option Text :=
  let length := (t.takeWhile Char.isDigit).length
  if least ≤ length && length ≤ most then some (t.dropWhile Char.isDigit) else none

def after? (c : Char) (t : Text) : Option Text :=
  if t.head? = some c then some t.tail else none

def afterDate? (least : Nat) (t : Text) : Option Text := do
  let month ← after? '-' (← afterDigits? 4 4 t)
  let day ← after? '-' (← afterDigits? least 2 month)
  afterDigits? least 2 day

def afterDivider? : Text → Option Text
  | [] => none
  | c :: rest =>
      if c = 'T' || c = 't' then some rest
      else if c = ' ' then some (rest.dropWhile (· = ' '))
      else none

def afterTime? (t : Text) : Option Text := do
  let minutes ← after? ':' (← afterDigits? 1 2 t)
  let seconds ← after? ':' (← afterDigits? 2 2 minutes)
  let rest ← afterDigits? 2 2 seconds
  return match after? '.' rest with
    | some fraction => fraction.dropWhile Char.isDigit
    | none => rest

def isZone : Text → Bool
  | [] => false
  | c :: rest =>
      if isSign c then
        match afterDigits? 1 2 rest with
        | some [] => true
        | some (':' :: minutes) => afterDigits? 2 2 minutes = some []
        | _ => false
      else
        c = 'Z' && rest.isEmpty

/-- A date alone has two digits for its month and its day. -/
def isTimestamp (t : Text) : Bool :=
  afterDate? 2 t = some [] ||
    (((afterDate? 1 t).bind afterDivider?).bind afterTime?).any fun zone =>
      zone.isEmpty || isZone (zone.dropWhile (· = ' '))

end DebianPackaging.Yaml
