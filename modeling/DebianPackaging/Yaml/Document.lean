import DebianPackaging.Yaml.Cursor

namespace DebianPackaging.Yaml

open Text

inductive Marker
  | opening
  | closing
deriving DecidableEq, Repr

def Marker.mark : Marker → Text
  | .opening => "---"
  | .closing => "..."

/-- What follows the mark on its line. A mark counts only before a separator. -/
def Marker.after? (m : Marker) (line : Text) : Option Text :=
  if m.mark.isPrefixOf line && atSeparator (line.drop 3) then some (line.drop 3) else none

def marker? (line : Text) : Option (Marker × Text) :=
  ((Marker.opening.after? line).map (.opening, ·)).or
    ((Marker.closing.after? line).map (.closing, ·))

def fullLines : Text → List Text
  | [] => []
  | c :: rest =>
      if isBreak c then
        [c] :: fullLines rest
      else
        match fullLines rest with
        | [] => [[c]]
        | line :: more => (c :: line) :: more

/-- The text before the first marker, and every marker with the text up to the next one. -/
def segments : List Text → Text × List (Marker × Text)
  | [] => ([], [])
  | line :: more =>
      let s := segments more
      match marker? line with
      | some (m, after) => ([], (m, after ++ s.1) :: s.2)
      | none => (line ++ s.1, s.2)

def isGap (t : Text) : Bool :=
  ((⟨t, 0, 0, true⟩ : Cursor).gap true).atEnd

def isTrailer (s : Marker × Text) : Bool :=
  s.1 = .closing && isGap s.2

/-- A stream is read only if it holds one document. -/
def documentStart? (t : Text) : Option Cursor :=
  match segments (fullLines t) with
  | (body, []) => some ⟨body, 0, 0, true⟩
  | (before, (.opening, body) :: more) =>
      if isGap before && more.all isTrailer then some ⟨body, 0, 3, false⟩ else none
  | (body, (.closing, after) :: more) =>
      if !isGap body && isGap after && more.all isTrailer then some ⟨body, 0, 0, true⟩ else none

end DebianPackaging.Yaml
