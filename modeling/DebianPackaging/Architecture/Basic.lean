import DebianPackaging.Text.Basic

namespace DebianPackaging

open Text

structure Architecture where
  abi : Text
  libc : Text
  os : Text
  cpu : Text
deriving DecidableEq, Repr

namespace Architecture

def anyPart : Text := "any"

def allPart : Text := "all"

def all : Architecture := ⟨allPart, allPart, allPart, allPart⟩

def any : Architecture := ⟨anyPart, anyPart, anyPart, anyPart⟩

def components (a : Architecture) : List Text :=
  [a.abi, a.libc, a.os, a.cpu]

def isAll (a : Architecture) : Bool :=
  a.cpu == allPart

def isWildcard (a : Architecture) : Bool :=
  !a.isAll && a.components.contains anyPart

def isConcrete (a : Architecture) : Bool :=
  !a.isAll && !a.isWildcard

def partFits (part pattern : Text) : Bool :=
  part == pattern || pattern == anyPart

/-- Agreement with a pattern in every component. No CPU pattern takes in `all`. -/
def fits (a pattern : Architecture) : Bool :=
  (a.cpu == pattern.cpu || (!a.isAll && pattern.cpu == anyPart)) &&
    partFits a.os pattern.os && partFits a.libc pattern.libc && partFits a.abi pattern.abi

/-- Either side may be a wildcard, but two wildcards never agree. -/
def agrees (a b : Architecture) : Bool :=
  if a.isWildcard then !b.isWildcard && b.fits a else a.fits b

end Architecture

end DebianPackaging
