import DebianPackaging.Text.Basic

namespace DebianPackaging

open Text

/-- A version number. An epoch of zero and an empty revision stand for absent ones. -/
structure Version where
  epoch : Int
  release : Text
  revision : Text
deriving DecidableEq, Repr

namespace Version

def isNative (v : Version) : Bool :=
  v.revision.isEmpty

/-- A colon in the release needs an epoch before it, even one of zero. -/
def showsEpoch (v : Version) : Bool :=
  v.epoch != 0 || v.release.contains ':'

def render (v : Version) : Text :=
  (if v.showsEpoch then ofInt v.epoch ++ [':'] else []) ++ v.release ++
    (if v.isNative then [] else '-' :: v.revision)

end Version

end DebianPackaging
