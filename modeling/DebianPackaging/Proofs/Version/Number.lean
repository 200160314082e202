import DebianPackaging.Proofs.Text.Basic
import DebianPackaging.Version.Order

namespace DebianPackaging.Version

open Text

theorem toNat_cons (c : Char) (x : Text) :
    toNat (c :: x) = 10 ^ x.length * (c.toNat - 48) + toNat x := by
  simp only [Text.toNat, Nat.ofDigitChars_cons, Nat.mul_zero, Nat.zero_add, Char.reduceToNat]
  rw [Nat.ofDigitChars_eq_ofDigitChars_zero]

theorem toNat_lt {x : Text} (hx : ∀ c ∈ x, c.isDigit = true) : toNat x < 10 ^ x.length := by
  induction x with
  | nil => decide
  | cons c x ih =>
      have hc := isDigit_iff_toNat.mp (hx c (by simp))
      have ih := ih fun d hd => hx d (by simp [hd])
      have hm : 10 ^ x.length * (c.toNat - 48) ≤ 10 ^ x.length * 9 := Nat.mul_le_mul_left _ (by omega)
      rw [toNat_cons, List.length_cons, Nat.pow_succ]
      omega

theorem le_toNat {c : Char} {x : Text} (hc : c.isDigit = true) (h0 : c ≠ '0') :
    10 ^ x.length ≤ toNat (c :: x) := by
  have hd := isDigit_iff_toNat.mp hc
  have hn : c.toNat ≠ 48 := fun h => h0 (Char.toNat_inj.mp h)
  have hm : 10 ^ x.length * 1 ≤ 10 ^ x.length * (c.toNat - 48) := Nat.mul_le_mul_left _ (by omega)
  rw [toNat_cons]
  omega

theorem toNat_significant (x : Text) : toNat (significant x) = toNat x := by
  induction x with
  | nil => rfl
  | cons c x ih =>
      by_cases hc : c = '0'
      · subst hc
        rw [toNat_cons, ← ih]
        simp [significant]
      · simp [significant, hc]

theorem isDigit_significant {x : Text} (hx : ∀ c ∈ x, c.isDigit = true) :
    ∀ c ∈ significant x, c.isDigit = true :=
  fun c hc => hx c (List.dropWhile_subset _ hc)

theorem significant_head {x y : Text} {c : Char} (h : significant x = c :: y) : c ≠ '0' := by
  have hn := List.head?_dropWhile_not (· == '0') x
  rw [← significant, h] at hn
  simpa using hn

theorem compare_mul_add {n a b x y : Nat} (hx : x < n) (hy : y < n) :
    compare (n * a + x) (n * b + y) = (compare a b).then (compare x y) := by
  have step {a b x y : Nat} (hx : x < n) (h : a < b) : n * a + x < n * b + y := by
    have hm : n * (a + 1) ≤ n * b := Nat.mul_le_mul_left _ h
    rw [Nat.mul_add] at hm
    omega
  rcases Nat.lt_trichotomy a b with h | rfl | h
  · rw [Nat.compare_eq_lt.mpr h, Nat.compare_eq_lt.mpr (step hx h)]
    rfl
  · simp only [Nat.compare_eq_ite_lt, Nat.add_lt_add_iff_left, Nat.lt_irrefl, if_false,
      Ordering.eq_then]
  · rw [Nat.compare_eq_gt.mpr h, Nat.compare_eq_gt.mpr (step hy h)]
    rfl

theorem compare_digit {c d : Char} (hc : c.isDigit = true) (hd : d.isDigit = true) :
    compare (c.toNat - 48) (d.toNat - 48) = compare c d := by
  have hc := isDigit_iff_toNat.mp hc
  have hd := isDigit_iff_toNat.mp hd
  have hlt : c.toNat - 48 < d.toNat - 48 ↔ c.toNat < d.toNat := by omega
  have heq : c.toNat - 48 = d.toNat - 48 ↔ c.toNat = d.toNat := by omega
  simp only [compare, compareOfLessAndEq, Char.lt_def, UInt32.lt_iff_toNat_lt, Char.toNat_val,
    ← Char.toNat_inj, hlt, heq]

theorem compareLex_eq_compare_toNat {x y : Text} (hx : ∀ c ∈ x, c.isDigit = true)
    (hy : ∀ c ∈ y, c.isDigit = true) (hl : x.length = y.length) :
    List.compareLex compare x y = compare (toNat x) (toNat y) := by
  induction x generalizing y with
  | nil => simp [List.length_eq_zero_iff.mp hl.symm, List.compareLex_nil_nil]
  | cons c x ih =>
      cases y with
      | nil => simp at hl
      | cons d y =>
          have hx' : ∀ e ∈ x, e.isDigit = true := fun e he => hx e (by simp [he])
          have hy' : ∀ e ∈ y, e.isDigit = true := fun e he => hy e (by simp [he])
          have hl' : x.length = y.length := by simpa using hl
          rw [List.compareLex_cons_cons, ih hx' hy' hl', toNat_cons, toNat_cons, hl',
            compare_mul_add (hl' ▸ toNat_lt hx') (toNat_lt hy'),
            compare_digit (hx c (by simp)) (hy d (by simp))]

/-- A longer run without leading zeros stands for a larger number. -/
theorem toNat_significant_lt {x y : Text} (hx : ∀ c ∈ x, c.isDigit = true)
    (hy : ∀ c ∈ y, c.isDigit = true) (hl : (significant x).length < (significant y).length) :
    toNat x < toNat y := by
  rw [← toNat_significant x, ← toNat_significant y]
  cases hs : significant y with
  | nil => simp [hs] at hl
  | cons d z =>
      have hd := isDigit_significant hy d (by simp [hs])
      rw [hs, List.length_cons] at hl
      calc toNat (significant x) < 10 ^ (significant x).length := toNat_lt (isDigit_significant hx)
        _ ≤ 10 ^ z.length := Nat.pow_le_pow_right (by decide) (by omega)
        _ ≤ toNat (d :: z) := le_toNat hd (significant_head hs)

theorem compareSignificant_eq_compare_toNat {x y : Text} (hx : ∀ c ∈ x, c.isDigit = true)
    (hy : ∀ c ∈ y, c.isDigit = true) :
    compareSignificant (significant x) (significant y) = compare (toNat x) (toNat y) := by
  rw [compareSignificant]
  rcases Nat.lt_trichotomy (significant x).length (significant y).length with hl | hl | hl
  · rw [Nat.compare_eq_lt.mpr hl, Nat.compare_eq_lt.mpr (toNat_significant_lt hx hy hl)]
    rfl
  · rw [Nat.compare_eq_eq.mpr hl, Ordering.eq_then,
      compareLex_eq_compare_toNat (isDigit_significant hx) (isDigit_significant hy) hl,
      toNat_significant, toNat_significant]
  · rw [Nat.compare_eq_gt.mpr hl, Nat.compare_eq_gt.mpr (toNat_significant_lt hy hx hl)]
    rfl

end DebianPackaging.Version
