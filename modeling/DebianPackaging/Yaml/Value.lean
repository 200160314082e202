import DebianPackaging.Text.Basic

namespace DebianPackaging.Yaml

open Text

/-- A decimal fraction is its digits as one number, with the count of those after the point. -/
inductive Scalar
  | null
  | bool (b : Bool)
  | int (i : Int)
  | decimal (digits : Int) (places : Nat)
  | text (t : Text)
deriving DecidableEq, Repr

/-- What a scalar counts as where it is a key: a truth value is the number one or zero, and a fraction
that is whole is that whole number. -/
def Scalar.asKey : Scalar → Scalar
  | .bool b => .int (if b then 1 else 0)
  | .decimal digits places =>
      let one : Int := Nat.pow 10 places
      if digits % one = 0 then .int (digits / one) else .decimal digits places
  | s => s

inductive Value
  | scalar (s : Scalar)
  | list (items : List Value)
  | map (rows : List (Scalar × Value))

abbrev Row := Scalar × Value

def valueAt? (key : Scalar) (rows : List Row) : Option Value :=
  (rows.find? (·.1.asKey = key.asKey)).map Prod.snd

/-- Puts the value of a row in the place of the one with the same key, which keeps its spelling, or the
row at the end. -/
def putRow (row : Row) (rows : List Row) : List Row :=
  if (valueAt? row.1 rows).isSome then
    rows.map fun r => if r.1.asKey = row.1.asKey then (r.1, row.2) else r
  else
    rows ++ [row]

namespace Value

def null : Value := .scalar .null

instance : Inhabited Value := ⟨null⟩

def bool (b : Bool) : Value := .scalar (.bool b)

def text (t : Text) : Value := .scalar (.text t)

def ofRows (rows : List Row) : Value :=
  .map (rows.foldl (fun table row => putRow row table) [])

def texts (ts : List Text) : Value := .list (ts.map text)

def field? (v : Value) (key : Text) : Option Value :=
  match v with
  | .map rows => valueAt? (.text key) rows
  | _ => none

def text? : Value → Option Text
  | .scalar (.text t) => some t
  | _ => none

def bool? : Value → Option Bool
  | .scalar (.bool b) => some b
  | _ => none

def texts? : Value → Option (List Text)
  | .list items => items.mapM text?
  | _ => none

def rows? : Value → Option (List Row)
  | .map rows => some rows
  | _ => none

def isMap : Value → Bool
  | .map _ => true
  | _ => false

end Value

end DebianPackaging.Yaml
