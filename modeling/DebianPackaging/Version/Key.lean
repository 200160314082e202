import DebianPackaging.Version.Basic
import DebianPackaging.Version.Chunk

namespace DebianPackaging.Version

open Text

def keyChar : Char → Char
  | '~' => '!'
  | '+' => '{'
  | '-' => '|'
  | '.' => '}'
  | ':' => '~'
  | c => c

/-- Counts are letters: `a` for none, `b` for one and so on. -/
def countChar (n : Nat) : Char :=
  Char.ofNat ('a'.toNat + n)

def keyChunk (k : Chunk) : Text :=
  k.text.map keyChar ++
    '%' :: countChar (significant k.digits).length :: significant k.digits

def keyField (ks : List Chunk) : Text :=
  ks.flatMap keyChunk ++ ['#']

def keyZeros (ks : List Chunk) : Text :=
  ks.map fun k => countChar k.zeros

def keyBody (v : Version) : Text :=
  keyField [⟨[], ofInt v.epoch⟩] ++ keyField (chunks v.release) ++ keyField (chunks v.revision)

/-- Epoch, release and revision as chunks, each closed by `#`, and behind them the counts of the
leading zeros that were left out. -/
def key (v : Version) : Text :=
  keyBody v ++ keyZeros (chunks v.release ++ chunks v.revision)

end DebianPackaging.Version
