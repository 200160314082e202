import DebianPackaging.Yaml.Value

namespace DebianPackaging.Yaml.Value

mutual

/-- A row that only one of two maps has is kept, and the rows of the lower one come first. -/
def overlay : Value → Value → Value
  | .map lower, .map upper =>
      .map (overlayRows lower upper ++ upper.filter fun row => (valueAt? row.1 lower).isNone)
  | _, upper => upper

def overlayRows : List Row → List Row → List Row
  | [], _ => []
  | (key, value) :: rows, upper =>
      (key, match valueAt? key upper with
        | some above => overlay value above
        | none => value) :: overlayRows rows upper

end

end DebianPackaging.Yaml.Value
