import DebianPackaging.Version.Basic
import DebianPackaging.Version.Chunk

namespace DebianPackaging.Version

open Text

/-- A tilde weighs less than the end of a run, letters weigh more, and all else more than letters. -/
def weight (c : Char) : Int :=
  if c.isDigit then 0
  else if c = '~' then -1
  else if c.isAlpha then c.toNat
  else c.toNat + 256

inductive Progress
  | decided (o : Ordering)
  | remaining (a b : Text)
deriving DecidableEq, Repr

def compareNonDigits : Text → Text → Progress
  | [], [] => .remaining [] []
  | [], d :: b =>
      if d.isDigit then .remaining [] (d :: b) else .decided (compare 0 (weight d))
  | c :: a, [] =>
      if c.isDigit then .remaining (c :: a) [] else .decided (compare (weight c) 0)
  | c :: a, d :: b =>
      if c.isDigit && d.isDigit then
        .remaining (c :: a) (d :: b)
      else
        match compare (weight c) (weight d) with
        | .eq => compareNonDigits a b
        | o => .decided o

/-- Digit runs without leading zeros: the longer one is the larger number. -/
def compareSignificant (a b : Text) : Ordering :=
  (compare a.length b.length).then (List.compareLex compare a b)

def leadingDigits (t : Text) : Text :=
  t.takeWhile Char.isDigit

def comparePass (a b : Text) : Progress :=
  match compareNonDigits a b with
  | .decided o => .decided o
  | .remaining a b =>
      match compareSignificant (significant (leadingDigits a)) (significant (leadingDigits b)) with
      | .eq => .remaining (a.dropWhile Char.isDigit) (b.dropWhile Char.isDigit)
      | o => .decided o

theorem compareNonDigits_remaining {a b a' b' : Text} (h : compareNonDigits a b = .remaining a' b') :
    a' <:+ a ∧ b' <:+ b ∧ (a'.head?.all Char.isDigit ∧ b'.head?.all Char.isDigit) := by
  fun_induction compareNonDigits a b with
  | case1 => cases h; simp
  | case2 => cases h; simp_all
  | case3 => cases h
  | case4 => cases h; simp_all
  | case5 => cases h
  | case6 => cases h; simp_all
  | case7 c a d b _ _ ih =>
      obtain ⟨ha, hb, hd⟩ := ih h
      exact ⟨ha.trans (List.suffix_cons c a), hb.trans (List.suffix_cons d b), hd⟩
  | case8 => cases h

theorem length_dropWhile_lt {t : Text} (hd : t.head?.all Char.isDigit) (hne : t ≠ []) :
    (t.dropWhile Char.isDigit).length < t.length := by
  cases t with
  | nil => exact absurd rfl hne
  | cons c t =>
      have hc : c.isDigit = true := by simpa using hd
      simp only [List.dropWhile_cons, hc, if_true, List.length_cons]
      have := (List.dropWhile_suffix Char.isDigit (l := t)).length_le
      omega

theorem comparePass_remaining {a b a' b' : Text} (h : comparePass a b = .remaining a' b')
    (hne : ¬(a = [] ∧ b = [])) : a'.length + b'.length < a.length + b.length := by
  unfold comparePass at h
  split at h
  · cases h
  · rename_i x y hxy
    obtain ⟨hx, hy, hdx, hdy⟩ := compareNonDigits_remaining hxy
    split at h
    · cases h
      have hx' : x = [] ∨ (x.dropWhile Char.isDigit).length < x.length :=
        (Decidable.em (x = [])).imp_right (length_dropWhile_lt hdx)
      have hy' : y = [] ∨ (y.dropWhile Char.isDigit).length < y.length :=
        (Decidable.em (y = [])).imp_right (length_dropWhile_lt hdy)
      have hlx := hx.length_le
      have hly := hy.length_le
      have hpos : a.length + b.length ≠ 0 := by simpa [Nat.add_eq_zero_iff] using hne
      rcases hx' with rfl | hx'
      · rcases hy' with rfl | hy'
        · simpa using Nat.pos_of_ne_zero hpos
        · simp only [List.dropWhile_nil, List.length_nil]
          omega
      · rcases hy' with rfl | hy'
        · simp only [List.dropWhile_nil, List.length_nil]
          omega
        · omega
    · cases h

def comparePart (a b : Text) : Ordering :=
  if _h : a = [] ∧ b = [] then
    .eq
  else
    match _hp : comparePass a b with
    | .decided o => o
    | .remaining a' b' => comparePart a' b'
termination_by a.length + b.length
decreasing_by exact comparePass_remaining _hp _h

protected def compare (v w : Version) : Ordering :=
  (compare v.epoch w.epoch).then
    ((comparePart v.release w.release).then (comparePart v.revision w.revision))

instance : Ord Version := ⟨Version.compare⟩

end DebianPackaging.Version
