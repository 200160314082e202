import DebianPackaging.Text.Basic

namespace DebianPackaging

open Text

/-- A run of non-digits and the run of digits after it. -/
structure Chunk where
  text : Text
  digits : Text
deriving DecidableEq, Repr

def significant (digits : Text) : Text :=
  digits.dropWhile (· == '0')

namespace Chunk

def zeros (k : Chunk) : Nat :=
  (k.digits.takeWhile (· == '0')).length

def toText (k : Chunk) : Text :=
  k.text ++ k.digits

def push (c : Char) : List Chunk → List Chunk
  | [] => [if c.isDigit then ⟨[], [c]⟩ else ⟨[c], []⟩]
  | k :: ks =>
      if !c.isDigit then ⟨c :: k.text, k.digits⟩ :: ks
      else if k.text.isEmpty then ⟨[], c :: k.digits⟩ :: ks
      else ⟨[], [c]⟩ :: k :: ks

end Chunk

def chunks (t : Text) : List Chunk :=
  t.foldr Chunk.push [⟨[], []⟩]

theorem chunks_cons (c : Char) (t : Text) : chunks (c :: t) = Chunk.push c (chunks t) :=
  rfl

end DebianPackaging
