import Mathlib
import DebianPackaging.Text.Basic

namespace DebianPackaging.Text

theorem cut_eq_none_iff {c : Char} {t : Text} : cut c t = none ↔ c ∉ t := by
  induction t with
  | nil => simp [cut]
  | cons d t ih =>
      by_cases hd : d = c
      · simp [cut, hd]
      · simp [cut, hd, ih, Ne.symm hd]

theorem cut_append {c : Char} {before : Text} (h : c ∉ before) (after : Text) :
    cut c (before ++ c :: after) = some (before, after) := by
  induction before with
  | nil => simp [cut]
  | cons d before ih =>
      simp only [List.mem_cons, not_or] at h
      simp [cut, Ne.symm h.1, ih h.2]

theorem cutLast_eq_none_iff {c : Char} {t : Text} : cutLast c t = none ↔ c ∉ t := by
  simp [cutLast, cut_eq_none_iff]

theorem cutLast_append {c : Char} (before : Text) {after : Text} (h : c ∉ after) :
    cutLast c (before ++ c :: after) = some (before, after) := by
  have hr : (before ++ c :: after).reverse = after.reverse ++ c :: before.reverse := by simp
  rw [cutLast, hr, cut_append (by simpa using h)]
  simp

theorem cutLast_eq_some_iff {c : Char} {t before after : Text} :
    cutLast c t = some (before, after) ↔ t = before ++ c :: after ∧ c ∉ after := by
  constructor
  · intro h
    rw [cutLast, Option.map_eq_some_iff] at h
    obtain ⟨⟨back, front⟩, hcut, hparts⟩ := h
    obtain ⟨ht, hn⟩ := cut_eq_some hcut
    cases hparts
    refine ⟨?_, by simpa using hn⟩
    rw [← List.reverse_reverse t, ht]
    simp
  · rintro ⟨rfl, hn⟩
    exact cutLast_append before hn

/-- The text up to its last `c`, and with it; nothing when there is none. -/
def throughLast (c : Char) (t : Text) : Text := (t.reverse.dropWhile (· != c)).reverse

theorem throughLast_append {c : Char} (before : Text) {after : Text} (h : c ∉ after) :
    throughLast c (before ++ c :: after) = before ++ [c] := by
  have ha : ∀ d ∈ after.reverse, (d != c) = true := by
    intro d hd
    have hn : d ≠ c := fun he => h (by simpa [he] using hd)
    simpa using hn
  have hr : (before ++ c :: after).reverse = after.reverse ++ c :: before.reverse := by simp
  rw [throughLast, hr, List.dropWhile_append_of_pos ha, List.dropWhile_cons_of_neg (by simp)]
  simp

theorem compare_eq_lt_iff {a b : Text} : compare a b = .lt ↔ a < b := by
  induction a generalizing b with
  | nil =>
      cases b with
      | nil => decide
      | cons d b => simp [List.compare_nil_cons]
  | cons c a ih =>
      cases b with
      | nil => simp [List.compare_cons_nil]
      | cons d b =>
          have hc : compare c d = .lt ↔ c < d := compareOfLessAndEq_eq_lt
          rw [List.compare_cons_cons, Ordering.then_eq_lt, List.cons_lt_cons_iff, hc, ih,
            Std.LawfulEqOrd.compare_eq_iff_eq]

theorem sort_strict {ts : List Text} (h : ts.Nodup) : (sort ts).Pairwise (· < ·) := by
  have hn : (sort ts).Pairwise (· ≠ ·) := (sort_perm ts).nodup_iff.mpr h
  refine ((sort_sorted ts).and hn).imp ?_
  rintro a b ⟨hab, hne⟩
  rcases lt_trichotomy a b with hlt | heq | hgt
  · exact hlt
  · exact absurd heq hne
  · exact absurd hgt hab

theorem trimLeft_eq_self {t : Text} (h : ∀ c ∈ t, isBlank c = false) : trimLeft t = t := by
  cases t with
  | nil => rfl
  | cons c t => rw [trimLeft, List.dropWhile_cons_of_neg (by simp [h c (by simp)])]

theorem trim_eq_self {t : Text} (h : ∀ c ∈ t, isBlank c = false) : trim t = t := by
  have hr : trimLeft t.reverse = t.reverse := trimLeft_eq_self fun c hc => h c (by simpa using hc)
  rw [trim, trimLeft_eq_self h, trimRight, ← trimLeft, hr, List.reverse_reverse]

theorem takeWhile_append_of_head? {p : Char → Bool} {t rest : Text} (h : ∀ c ∈ t, p c = true)
    (hrest : ∀ c, rest.head? = some c → p c = false) :
    (t ++ rest).takeWhile p = t ∧ (t ++ rest).dropWhile p = rest := by
  rw [List.takeWhile_append_of_pos h, List.dropWhile_append_of_pos h]
  cases rest with
  | nil => simp
  | cons c rest => simp [hrest c rfl]

theorem isDigit_iff_toNat {c : Char} : c.isDigit = true ↔ 48 ≤ c.toNat ∧ c.toNat ≤ 57 :=
  Char.isDigit_iff_toNat

theorem isAlpha_iff_toNat {c : Char} :
    c.isAlpha = true ↔ 65 ≤ c.toNat ∧ c.toNat ≤ 90 ∨ 97 ≤ c.toNat ∧ c.toNat ≤ 122 := by
  simp [Char.isAlpha, Char.isUpper, Char.isLower, UInt32.le_iff_toNat_le]

/-- No printable character of ASCII but the space is white space. -/
theorem isBlank_of_toNat {c : Char} (h : 33 ≤ c.toNat ∧ c.toNat ≤ 126) : isBlank c = false := by
  simp only [isBlank, inRanges, blankRanges, List.any_cons, List.any_nil, Bool.or_false,
    Bool.or_eq_false_iff, Bool.and_eq_false_iff, decide_eq_false_iff_not, Nat.not_le]
  omega

theorem ofInt_of_nonneg {i : Int} (hi : 0 ≤ i) : ofInt i = ofNat i.toNat := by
  cases i with
  | ofNat n => rfl
  | negSucc n => omega

theorem isDigit_of_mem_ofNat {n : Nat} {c : Char} (hc : c ∈ ofNat n) : c.isDigit = true :=
  Nat.isDigit_of_mem_toDigits (by decide) (by decide) hc

theorem ofNat_ne_nil (n : Nat) : ofNat n ≠ [] := Nat.toDigits_ne_nil

theorem length_ofNat_le_iff {n k : Nat} (hk : 0 < k) : (ofNat n).length ≤ k ↔ n < 10 ^ k :=
  Nat.length_toDigits_le_iff (by decide) hk

end DebianPackaging.Text
