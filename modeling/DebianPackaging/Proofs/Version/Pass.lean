import DebianPackaging.Proofs.Text.Basic
import DebianPackaging.Proofs.Version.Chunk

namespace DebianPackaging.Version

open Text

theorem weight_digit {c : Char} (hc : c.isDigit = true) : weight c = 0 := by
  simp [weight, hc]

theorem weight_letter {c : Char} (hc : c.isAlpha = true) : weight c = c.toNat := by
  have ha := isAlpha_iff_toNat.mp hc
  have hd : c.isDigit ≠ true := by
    intro hd
    have := Char.isDigit_iff_toNat.mp hd
    simp only [Char.reduceToNat] at this
    omega
  have ht : c ≠ '~' := by rintro rfl; simp at ha
  simp [weight, hd, ht, hc]

theorem weight_other {c : Char} (hd : c.isDigit = false) (ht : c ≠ '~') (hc : c.isAlpha = false) :
    weight c = c.toNat + 256 := by
  simp [weight, hd, ht, hc]

theorem weight_cases {c : Char} (hd : c.isDigit = false) :
    c = '~' ∧ weight c = -1 ∨ weight c = c.toNat ∧ 65 ≤ c.toNat ∧ c.toNat ≤ 122 ∨
      weight c = c.toNat + 256 := by
  by_cases ht : c = '~'
  · exact .inl ⟨ht, by rw [ht]; rfl⟩
  · by_cases ha : c.isAlpha
    · have := isAlpha_iff_toNat.mp ha
      exact .inr (.inl ⟨weight_letter ha, by omega⟩)
    · exact .inr (.inr (weight_other hd ht (by simpa using ha)))

theorem weight_ne_zero {c : Char} (hc : c.isDigit = false) : weight c ≠ 0 := by
  rcases weight_cases hc with ⟨-, h⟩ | ⟨h, hl, -⟩ | h <;> omega

theorem compare_zero_weight_ne {c : Char} (hc : c.isDigit = false) : compare 0 (weight c) ≠ .eq := by
  simpa using (weight_ne_zero hc).symm

theorem compare_weight_zero_ne {c : Char} (hc : c.isDigit = false) : compare (weight c) 0 ≠ .eq := by
  simpa using weight_ne_zero hc

theorem weight_injective {c d : Char} (hc : c.isDigit = false) (hd : d.isDigit = false)
    (h : weight c = weight d) : c = d := by
  rcases weight_cases hc with ⟨rfl, h₁⟩ | h₁ <;> rcases weight_cases hd with ⟨rfl, h₂⟩ | h₂
  · rfl
  · omega
  · omega
  · exact Char.toNat_inj.mp (by omega)

theorem weight_eq_zero_iff {c : Char} : weight c = 0 ↔ c.isDigit = true := by
  cases hc : c.isDigit with
  | false => simpa using weight_ne_zero hc
  | true => simpa using weight_digit hc

/-- Digits apart, characters of one weight are the same. -/
theorem eq_of_weight_eq {c d : Char} (h : c.isDigit = false ∨ d.isDigit = false)
    (hw : weight c = weight d) : c = d ∧ c.isDigit = false := by
  have hcd : c.isDigit = d.isDigit := by
    rw [Bool.eq_iff_iff, ← weight_eq_zero_iff, ← weight_eq_zero_iff, hw]
  have hd : d.isDigit = false := by simpa [hcd] using h
  have hc : c.isDigit = false := hcd.trans hd
  exact ⟨weight_injective hc hd hw, hc⟩

/-- The weights of a run of non-digits, closed by the weight of its end. -/
def runWeights (x : Text) : List Int := x.map weight ++ [0]

theorem runWeights_cons (c : Char) (x : Text) : runWeights (c :: x) = weight c :: runWeights x := rfl

def headWeight : Text → Int
  | [] => 0
  | c :: _ => weight c

theorem runWeights_leadingText (t : Text) :
    ∃ ws, runWeights (leadingText t) = headWeight t :: ws := by
  cases t with
  | nil => exact ⟨[], rfl⟩
  | cons c t =>
      by_cases hc : c.isDigit
      · exact ⟨[], by rw [leadingText_digit t hc, headWeight, weight_digit hc]; rfl⟩
      · exact ⟨_, by rw [leadingText_cons t (by simpa using hc), runWeights_cons, headWeight]⟩

theorem then_of_ne_eq {o : Ordering} (h : o ≠ .eq) (p : Ordering) : o.then p = o := by
  cases o with
  | eq => exact absurd rfl h
  | lt | gt => rfl

theorem compare_runWeights_of_ne {a b : Text} (h : compare (headWeight a) (headWeight b) ≠ .eq) :
    compare (runWeights (leadingText a)) (runWeights (leadingText b)) =
      compare (headWeight a) (headWeight b) := by
  obtain ⟨ws, ha⟩ := runWeights_leadingText a
  obtain ⟨us, hb⟩ := runWeights_leadingText b
  rw [ha, hb, List.compare_cons_cons, then_of_ne_eq h]

def Progress.after (o : Ordering) (a b : Text) : Progress :=
  match o with
  | .eq => .remaining a b
  | o => .decided o

theorem Progress.after_ne_eq {o : Ordering} (ho : o ≠ .eq) (a b : Text) : after o a b = .decided o := by
  cases o with
  | eq => exact absurd rfl ho
  | lt | gt => rfl

theorem compareNonDigits_eq (a b : Text) :
    compareNonDigits a b =
      .after (compare (runWeights (leadingText a)) (runWeights (leadingText b)))
        (pastText a) (pastText b) := by
  -- Where the weights at the start differ, the pass ends there.
  have stops {a b : Text} (h : compare (headWeight a) (headWeight b) ≠ .eq) :
      Progress.decided (compare (headWeight a) (headWeight b)) =
        .after (compare (runWeights (leadingText a)) (runWeights (leadingText b)))
          (pastText a) (pastText b) := by
    rw [compare_runWeights_of_ne h, Progress.after_ne_eq h]
  fun_induction compareNonDigits a b with
  | case1 => rfl
  | case2 d b hd => rw [leadingText_digit b hd, pastText_digit b hd]; rfl
  | case3 d b hd =>
      exact stops (a := []) (b := d :: b) (compare_zero_weight_ne (by simpa using hd))
  | case4 c a hc => rw [leadingText_digit a hc, pastText_digit a hc]; rfl
  | case5 c a hc =>
      exact stops (a := c :: a) (b := []) (compare_weight_zero_ne (by simpa using hc))
  | case6 c a d b h =>
      obtain ⟨hc, hd⟩ := Bool.and_eq_true_iff.mp h
      rw [leadingText_digit a hc, leadingText_digit b hd, pastText_digit a hc, pastText_digit b hd]
      rfl
  | case7 c a d b h he ih =>
      obtain ⟨rfl, hc⟩ := eq_of_weight_eq (Bool.and_eq_false_iff.mp (Bool.eq_false_iff.mpr h))
        (by simpa using he)
      rw [leadingText_cons a hc, leadingText_cons b hc, pastText_cons a hc, pastText_cons b hc,
        runWeights_cons, runWeights_cons, List.compare_cons_cons, he, Ordering.eq_then, ih]
  | case8 c a d b h ho => exact stops (a := c :: a) (b := d :: b) ho

def compareChunk (k l : Chunk) : Ordering :=
  (compare (runWeights k.text) (runWeights l.text)).then
    (compareSignificant (significant k.digits) (significant l.digits))

theorem comparePass_eq (a b : Text) :
    comparePass a b =
      .after (compareChunk (firstChunk a) (firstChunk b)) (pastChunk a) (pastChunk b) := by
  simp only [comparePass, compareNonDigits_eq, compareChunk, firstChunk, pastChunk]
  generalize compare (runWeights (leadingText a)) (runWeights (leadingText b)) = o
  cases o with
  | eq | lt | gt => rfl

theorem comparePart_nil_nil : comparePart [] [] = .eq := by
  rw [comparePart, dif_pos ⟨rfl, rfl⟩]

theorem comparePart_eq (a b : Text) :
    comparePart a b =
      (compareChunk (firstChunk a) (firstChunk b)).then (comparePart (pastChunk a) (pastChunk b)) := by
  by_cases h : a = [] ∧ b = []
  · obtain ⟨rfl, rfl⟩ := h
    rw [pastChunk_nil, comparePart_nil_nil]
    rfl
  · rw [comparePart, dif_neg h]
    split
    next o ho =>
      rw [comparePass_eq] at ho
      cases hc : compareChunk (firstChunk a) (firstChunk b) with
      | eq => rw [hc] at ho; cases ho
      | lt | gt => rw [hc] at ho; cases ho; rfl
    next a' b' hp =>
      rw [comparePass_eq] at hp
      cases hc : compareChunk (firstChunk a) (firstChunk b) with
      | eq => rw [hc] at hp; cases hp; rfl
      | lt | gt => rw [hc] at hp; cases hp

theorem comparePart_of_headWeight_ne {a b : Text} (h : compare (headWeight a) (headWeight b) ≠ .eq) :
    comparePart a b = compare (headWeight a) (headWeight b) := by
  rw [comparePart_eq, compareChunk, firstChunk, firstChunk, compare_runWeights_of_ne h,
    then_of_ne_eq h, then_of_ne_eq h]

theorem comparePart_nil_cons {c : Char} (hc : c.isDigit = false) (r : Text) :
    comparePart [] (c :: r) = compare 0 (weight c) :=
  comparePart_of_headWeight_ne (a := []) (b := c :: r) (compare_zero_weight_ne hc)

theorem comparePart_cons_nil {c : Char} (hc : c.isDigit = false) (r : Text) :
    comparePart (c :: r) [] = compare (weight c) 0 :=
  comparePart_of_headWeight_ne (a := c :: r) (b := []) (compare_weight_zero_ne hc)

end DebianPackaging.Version
