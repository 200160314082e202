import DebianPackaging.Yaml.Scalar

namespace DebianPackaging.Yaml

open Text

inductive Node
  | plain (t : Text)
  | quoted (t : Text)
  | list (items : List Node)
  | map (rows : List (Node × Node))

/-- The rows of a map, or of the maps in a list, of which the last one comes first. -/
def Value.mergedRows? : Value → Option (List Row)
  | .map rows => some rows
  | .list maps => (maps.mapM rows?).map fun parts => parts.reverse.flatten
  | .scalar _ => none

namespace Node

def empty : Node := .plain []

def isMerge : Node → Bool
  | .plain t => t = mergeMark
  | _ => false

def key? : Node → Option Scalar
  | .plain t => some (.ofPlain t)
  | .quoted t => some (.text t)
  | _ => none

mutual

/-- The marks of merged and of default values stand for no value. -/
def value? : Node → Option Value
  | .plain t => if t = mergeMark || t = defaultMark then none else some (.scalar (.ofPlain t))
  | .quoted t => some (.text t)
  | .list items => (itemValues? items).map .list
  | .map rows => (rowValues? rows).map fun (merged, own) => .ofRows (merged ++ own)

def itemValues? : List Node → Option (List Value)
  | [] => some []
  | item :: more => do
      let value ← item.value?
      let values ← itemValues? more
      return value :: values

def rowValues? : List (Node × Node) → Option (List Row × List Row)
  | [] => some ([], [])
  | (key, node) :: more => do
      let value ← node.value?
      let (merged, own) ← rowValues? more
      if key.isMerge then
        return ((← value.mergedRows?) ++ merged, own)
      return (merged, (← key.key?, value) :: own)

end

end Node

end DebianPackaging.Yaml
