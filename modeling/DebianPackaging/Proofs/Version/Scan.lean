import DebianPackaging.Proofs.Version.Pass

namespace DebianPackaging.Version.Scan

open Text

inductive Loop
  | passes
  | nonDigits
  | leftZeros
  | rightZeros
  | digits
deriving DecidableEq, Repr

/-- Where a scan stands, with the order of the first digits that were found to differ. -/
structure State where
  loop : Loop
  left : Nat
  right : Nat
  first : Ordering
deriving DecidableEq, Repr

inductive Turn
  | verdict (o : Ordering)
  | next (s : State)
deriving DecidableEq, Repr

def start : State := ⟨.passes, 0, 0, .eq⟩

def standsOn (p : Char → Bool) (t : Text) (i : Nat) : Bool := t[i]?.any p

def isNonDigit (c : Char) : Bool := !c.isDigit

def isZero (c : Char) : Bool := c == '0'

def weightAt (t : Text) (i : Nat) : Int := t[i]?.elim 0 weight

def digitAt? (t : Text) (i : Nat) : Option Char := t[i]?.filter Char.isDigit

/-- In the loop over non-digits both cursors move on, although one of them alone may stand on a
character. -/
def step (a b : Text) (s : State) : Turn :=
  match s.loop with
  | .passes =>
      if s.left < a.length ∨ s.right < b.length then .next { s with loop := .nonDigits }
      else .verdict .eq
  | .nonDigits =>
      if standsOn isNonDigit a s.left || standsOn isNonDigit b s.right then
        match compare (weightAt a s.left) (weightAt b s.right) with
        | .eq => .next { s with left := s.left + 1, right := s.right + 1 }
        | o => .verdict o
      else .next { s with loop := .leftZeros }
  | .leftZeros =>
      if standsOn isZero a s.left then .next { s with left := s.left + 1 }
      else .next { s with loop := .rightZeros }
  | .rightZeros =>
      if standsOn isZero b s.right then .next { s with right := s.right + 1 }
      else .next { s with loop := .digits, first := .eq }
  | .digits =>
      match digitAt? a s.left, digitAt? b s.right with
      | some c, some d =>
          .next ⟨.digits, s.left + 1, s.right + 1, s.first.then (compare c d)⟩
      | some _, none => .verdict .gt
      | none, some _ => .verdict .lt
      | none, none =>
          match s.first with
          | .eq => .next { s with loop := .passes }
          | o => .verdict o

def Reaches (a b : Text) : State → State → Prop :=
  Relation.ReflTransGen fun s s' => step a b s = .next s'

/-- How the pass ends in which a scan stands: with a verdict or where the next pass begins. -/
inductive PassEnds (a b : Text) : State → Turn → Prop
  | verdict {s : State} {o : Ordering} : step a b s = .verdict o → PassEnds a b s (.verdict o)
  | next {s s' : State} : step a b s = .next s' → s'.loop = .passes → PassEnds a b s (.next s')
  | more {s s' : State} {turn : Turn} : step a b s = .next s' → s'.loop ≠ .passes →
      PassEnds a b s' turn → PassEnds a b s turn

def State.InRange (s : State) (a b : Text) : Prop :=
  s.left ≤ a.length ∧ s.right ≤ b.length

variable {a b t x y : Text} {i j : Nat} {s s' : State} {f o : Ordering} {turn turn' : Turn}
  {p : Char → Bool} {c : Char}

section Step

/-- Nothing but the same non-digit weighs the same as a non-digit, not even the end of a text. -/
theorem same_nonDigit (h : standsOn isNonDigit a i = true ∨ standsOn isNonDigit b j = true)
    (hw : weightAt a i = weightAt b j) :
    ∃ c, c.isDigit = false ∧ a[i]? = some c ∧ b[j]? = some c := by
  simp only [standsOn, weightAt] at h hw
  cases ha : a[i]? with
  | none =>
      cases hb : b[j]? with
      | none => simp [ha, hb] at h
      | some d =>
          have hd : d.isDigit = false := by simpa [ha, hb, isNonDigit] using h
          rw [ha, hb] at hw
          exact absurd hw.symm (weight_ne_zero hd)
  | some c =>
      cases hb : b[j]? with
      | none =>
          have hc : c.isDigit = false := by simpa [ha, hb, isNonDigit] using h
          rw [ha, hb] at hw
          exact absurd hw (weight_ne_zero hc)
      | some d =>
          rw [ha, hb] at hw
          obtain ⟨rfl, hc⟩ := eq_of_weight_eq (by simpa [ha, hb, isNonDigit] using h) hw
          exact ⟨c, hc, rfl, rfl⟩

inductive Advances (a b : Text) : State → State → Prop
  | enter {s : State} {loop : Loop} {f : Ordering} : loop ≠ s.loop →
      Advances a b s ⟨loop, s.left, s.right, f⟩
  | nonDigits {i j : Nat} {f : Ordering} {c : Char} : c.isDigit = false → a[i]? = some c →
      b[j]? = some c → Advances a b ⟨.nonDigits, i, j, f⟩ ⟨.nonDigits, i + 1, j + 1, f⟩
  | leftZero {i j : Nat} {f : Ordering} : a[i]? = some '0' →
      Advances a b ⟨.leftZeros, i, j, f⟩ ⟨.leftZeros, i + 1, j, f⟩
  | rightZero {i j : Nat} {f : Ordering} : b[j]? = some '0' →
      Advances a b ⟨.rightZeros, i, j, f⟩ ⟨.rightZeros, i, j + 1, f⟩
  | digits {i j : Nat} {f : Ordering} {c d : Char} : a[i]? = some c → b[j]? = some d →
      Advances a b ⟨.digits, i, j, f⟩ ⟨.digits, i + 1, j + 1, f.then (compare c d)⟩

theorem getElem?_of_standsOn_zero (h : standsOn isZero t i = true) : t[i]? = some '0' := by
  simpa [standsOn, isZero, Option.any_eq_true] using h

theorem step_advances (h : step a b s = .next s') : Advances a b s s' := by
  obtain ⟨loop, i, j, f⟩ := s
  cases loop with
  | passes =>
      simp only [step] at h
      split at h
      · cases h
        exact .enter (by simp)
      · cases h
  | nonDigits =>
      simp only [step] at h
      split at h
      next hc =>
        split at h
        next he =>
          cases h
          obtain ⟨c, hd, ha, hb⟩ := same_nonDigit (by simpa using hc)
            (Std.LawfulEqOrd.compare_eq_iff_eq.mp he)
          exact .nonDigits hd ha hb
        next => cases h
      next =>
        cases h
        exact .enter (by simp)
  | leftZeros =>
      simp only [step] at h
      split at h
      next hz =>
        cases h
        exact .leftZero (getElem?_of_standsOn_zero hz)
      next =>
        cases h
        exact .enter (by simp)
  | rightZeros =>
      simp only [step] at h
      split at h
      next hz =>
        cases h
        exact .rightZero (getElem?_of_standsOn_zero hz)
      next =>
        cases h
        exact .enter (by simp)
  | digits =>
      simp only [step] at h
      split at h
      next c d hc hd =>
        cases h
        exact .digits (Option.filter_eq_some_iff.mp hc).1 (Option.filter_eq_some_iff.mp hd).1
      next => cases h
      next => cases h
      next =>
        split at h
        · cases h
          exact .enter (by simp)
        · cases h

theorem advance_nonDigits (hl : s.loop = .nonDigits) (h : step a b s = .next s')
    (hl' : s'.loop = .nonDigits) :
    s'.left = s.left + 1 ∧ s'.right = s.right + 1 ∧
      ∃ c, c.isDigit = false ∧ a[s.left]? = some c ∧ b[s.right]? = some c := by
  cases step_advances h with
  | enter hne => exact absurd (hl'.trans hl.symm) hne
  | nonDigits hc ha hb => exact ⟨rfl, rfl, _, hc, ha, hb⟩
  | leftZero | rightZero | digits => cases hl

theorem lt_of_getElem?_eq_some (h : t[i]? = some c) : i < t.length :=
  (List.getElem?_eq_some_iff.mp h).1

theorem step_inRange (h : step a b s = .next s') (hs : s.InRange a b) : s'.InRange a b := by
  cases step_advances h with
  | enter => exact hs
  | nonDigits _ ha hb | digits ha hb =>
      exact ⟨lt_of_getElem?_eq_some ha, lt_of_getElem?_eq_some hb⟩
  | leftZero ha => exact ⟨lt_of_getElem?_eq_some ha, hs.2⟩
  | rightZero hb => exact ⟨hs.1, lt_of_getElem?_eq_some hb⟩

theorem reaches_inRange (h : Reaches a b s s') (hs : s.InRange a b) : s'.InRange a b := by
  induction h with
  | refl => exact hs
  | tail _ hstep ih => exact step_inRange hstep ih

end Step

section Ends

theorem PassEnds.unique (h : PassEnds a b s turn) (h' : PassEnds a b s turn') : turn = turn' := by
  induction h with
  | verdict hs =>
      cases h' with
      | verdict hs' | next hs' | more hs' => simp_all
  | next hs hl =>
      cases h' with
      | verdict hs' | next hs' | more hs' => simp_all
  | more hs hl _ ih =>
      cases h' with
      | verdict hs' | next hs' => simp_all
      | more hs' _ h' =>
          rw [hs] at hs'
          exact ih (Turn.next.inj hs' ▸ h')

theorem PassEnds.reaches (h : PassEnds a b s turn) : ∃ s', Reaches a b s s' ∧ step a b s' = turn := by
  induction h with
  | verdict hs => exact ⟨_, .refl, hs⟩
  | next hs => exact ⟨_, .refl, hs⟩
  | more hs _ _ ih =>
      obtain ⟨last, hlast, hturn⟩ := ih
      exact ⟨last, hlast.head hs, hturn⟩

def Ends (a b : Text) (s : State) : Progress → Prop
  | .decided o => PassEnds a b s (.verdict o)
  | .remaining x y =>
      ∃ i j, PassEnds a b s (.next ⟨.passes, i, j, .eq⟩) ∧ a.drop i = x ∧ b.drop j = y

theorem Ends.more {progress : Progress} (h : Ends a b s' progress) (hs : step a b s = .next s')
    (hl : s'.loop ≠ .passes) : Ends a b s progress := by
  cases progress with
  | decided o => exact PassEnds.more hs hl h
  | remaining x y =>
      obtain ⟨i, j, hp, hx, hy⟩ := h
      exact ⟨i, j, hp.more hs hl, hx, hy⟩

end Ends

section Rests

theorem getElem?_of_drop (h : t.drop i = c :: x) : t[i]? = some c := by
  rw [← List.head?_drop, h, List.head?_cons]

theorem getElem?_of_drop_nil (h : t.drop i = []) : t[i]? = none := by
  rw [← List.head?_drop, h, List.head?_nil]

theorem drop_succ_of_drop (h : t.drop i = c :: x) : t.drop (i + 1) = x := by
  rw [← List.tail_drop, h, List.tail_cons]

/-- A loop that moves one cursor on over `p` stops where the rest has no more of `p` in front. -/
theorem cursor_induction {motive : Nat → Prop}
    (next : ∀ i, standsOn p t i = true → motive (i + 1) → motive i)
    (stop : ∀ j, t.drop j = x.dropWhile p → standsOn p t j = false → motive j)
    (hx : t.drop i = x) : motive i := by
  induction x generalizing i with
  | nil => exact stop i hx (by simp [standsOn, getElem?_of_drop_nil hx])
  | cons c x ih =>
      have hc : standsOn p t i = p c := by simp [standsOn, getElem?_of_drop hx]
      cases hp : p c with
      | true =>
          rw [List.dropWhile_cons_of_pos hp] at stop
          exact next i (hc.trans hp) (ih stop (drop_succ_of_drop hx))
      | false =>
          rw [List.dropWhile_cons_of_neg (by simp [hp])] at stop
          exact stop i hx (hc.trans hp)

theorem digitAt?_eq (hx : t.drop i = x) : digitAt? t i = (leadingDigits x).head? := by
  rw [digitAt?, ← List.head?_drop, hx, leadingDigits, List.head?_takeWhile]

theorem dropWhile_of_leadingDigits (h : leadingDigits x = []) : x.dropWhile Char.isDigit = x := by
  have hx : leadingDigits x ++ x.dropWhile Char.isDigit = x := List.takeWhile_append_dropWhile
  rwa [h, List.nil_append] at hx

theorem leadingDigits_eq_cons {l : Text} (h : leadingDigits x = c :: l) :
    ∃ x', x = c :: x' ∧ c.isDigit = true ∧ leadingDigits x' = l := by
  cases x with
  | nil => cases h
  | cons d x =>
      cases hd : d.isDigit with
      | false => simp [leadingDigits, hd] at h
      | true =>
          simp only [leadingDigits, List.takeWhile_cons_of_pos hd, List.cons.injEq] at h
          obtain ⟨rfl, rfl⟩ := h
          exact ⟨x, rfl, hd, rfl⟩

/-- What the numbers in front of two rests decide, once the zeros in front of them are gone. -/
def afterNumbers (f : Ordering) (x y : Text) : Progress :=
  .after ((compare (leadingDigits x).length (leadingDigits y).length).then
      (f.then (List.compareLex compare (leadingDigits x) (leadingDigits y))))
    (x.dropWhile Char.isDigit) (y.dropWhile Char.isDigit)

theorem compare_add_one (m n : Nat) : compare (m + 1) (n + 1) = compare m n := by
  simp only [compare, compareOfLessAndEq, Nat.add_lt_add_iff_right, Nat.add_right_cancel_iff]

theorem afterNumbers_cons (hc : c.isDigit = true) {d : Char} (hd : d.isDigit = true) :
    afterNumbers f (c :: x) (d :: y) = afterNumbers (f.then (compare c d)) x y := by
  simp only [afterNumbers, leadingDigits, List.takeWhile_cons_of_pos hc,
    List.takeWhile_cons_of_pos hd, List.dropWhile_cons_of_pos hc, List.dropWhile_cons_of_pos hd,
    List.length_cons, compare_add_one, List.compareLex_cons_cons, Ordering.then_assoc]

theorem afterNumbers_of_compare (h : compare (leadingDigits x).length (leadingDigits y).length = o)
    (ho : o ≠ .eq) : afterNumbers f x y = .decided o := by
  rw [afterNumbers, h, then_of_ne_eq ho, Progress.after_ne_eq ho]

theorem ends_digits (hx : a.drop i = x) (hy : b.drop j = y) :
    Ends a b ⟨.digits, i, j, f⟩ (afterNumbers f x y) := by
  have hi := digitAt?_eq hx
  have hj := digitAt?_eq hy
  induction hl : leadingDigits x generalizing x y i j f with
  | nil =>
      rw [hl] at hi
      cases hr : leadingDigits y with
      | nil =>
          rw [hr] at hj
          rw [afterNumbers, hl, hr, dropWhile_of_leadingDigits hl, dropWhile_of_leadingDigits hr]
          cases f with
          | eq => exact ⟨i, j, .next (by simp [step, hi, hj]) rfl, hx, hy⟩
          | lt | gt => exact .verdict (by simp [step, hi, hj])
      | cons d m =>
          rw [hr] at hj
          have hlt : (leadingDigits x).length < (leadingDigits y).length := by simp [hl, hr]
          rw [afterNumbers_of_compare (Nat.compare_eq_lt.mpr hlt) (by simp)]
          exact .verdict (by simp [step, hi, hj])
  | cons c l ih =>
      rw [hl] at hi
      cases hr : leadingDigits y with
      | nil =>
          rw [hr] at hj
          have hgt : (leadingDigits y).length < (leadingDigits x).length := by simp [hl, hr]
          rw [afterNumbers_of_compare (Nat.compare_eq_gt.mpr hgt) (by simp)]
          exact .verdict (by simp [step, hi, hj])
      | cons d m =>
          rw [hr] at hj
          obtain ⟨x', rfl, hc, hl'⟩ := leadingDigits_eq_cons hl
          obtain ⟨y', rfl, hd, -⟩ := leadingDigits_eq_cons hr
          have ha := drop_succ_of_drop hx
          have hb := drop_succ_of_drop hy
          rw [afterNumbers_cons hc hd]
          exact (ih ha hb (digitAt?_eq ha) (digitAt?_eq hb) hl').more (by simp [step, hi, hj])
            (by simp)

theorem ends_rightZeros (hx : a.drop i = x) (hy : b.drop j = y) :
    Ends a b ⟨.rightZeros, i, j, f⟩ (afterNumbers .eq x (y.dropWhile isZero)) := by
  refine cursor_induction (p := isZero) (motive := fun j => Ends a b ⟨.rightZeros, i, j, f⟩ _)
    (fun j hz h => ?_) (fun j hj hz => ?_) hy
  · exact h.more (by simp [step, hz]) (by simp)
  · exact (ends_digits hx hj).more (by simp [step, hz]) (by simp)

theorem ends_leftZeros (hx : a.drop i = x) (hy : b.drop j = y) :
    Ends a b ⟨.leftZeros, i, j, f⟩ (afterNumbers .eq (x.dropWhile isZero) (y.dropWhile isZero)) := by
  refine cursor_induction (p := isZero) (motive := fun i => Ends a b ⟨.leftZeros, i, j, f⟩ _)
    (fun i hz h => ?_) (fun i hi hz => ?_) hx
  · exact h.more (by simp [step, hz]) (by simp)
  · exact (ends_rightZeros (f := f) hi hy).more (by simp [step, hz]) (by simp)

theorem dropWhile_isZero_isDigit (x : Text) :
    leadingDigits (x.dropWhile isZero) = significant (leadingDigits x) ∧
      (x.dropWhile isZero).dropWhile Char.isDigit = x.dropWhile Char.isDigit := by
  induction x with
  | nil => exact ⟨rfl, rfl⟩
  | cons c x ih =>
      by_cases hz : c = '0'
      · subst hz
        simpa [leadingDigits, significant, isZero] using ih
      · rw [List.dropWhile_cons_of_neg (by simpa [isZero] using hz)]
        refine ⟨?_, rfl⟩
        cases hd : c.isDigit with
        | false => simp [leadingDigits, hd, significant]
        | true => simp [leadingDigits, hd, significant, hz]

/-- What a pass over non-digits and numbers decides, in terms of `comparePass`. -/
theorem comparePass_eq_afterNumbers (x y : Text) :
    comparePass x y = match compareNonDigits x y with
      | .decided o => .decided o
      | .remaining x y => afterNumbers .eq (x.dropWhile isZero) (y.dropWhile isZero) := by
  rw [comparePass]
  cases compareNonDigits x y with
  | decided o => rfl
  | remaining x y =>
      obtain ⟨hlx, hdx⟩ := dropWhile_isZero_isDigit x
      obtain ⟨hly, hdy⟩ := dropWhile_isZero_isDigit y
      simp only [afterNumbers, hlx, hly, hdx, hdy, Ordering.eq_then, compareSignificant]
      split
      · rename_i h
        rw [h]
        rfl
      · rename_i h
        rw [Progress.after_ne_eq h]

theorem standsOn_eq (hx : t.drop i = x) : standsOn p t i = x.head?.any p := by
  rw [standsOn, ← List.head?_drop, hx]

theorem weightAt_eq (hx : t.drop i = x) : weightAt t i = headWeight x := by
  rw [weightAt, ← List.head?_drop, hx]
  cases x <;> rfl

section NonDigits

variable (hx : a.drop i = x) (hy : b.drop j = y)

include hx hy

/-- Past the non-digits in front of both rests their numbers decide. -/
theorem ends_of_digitsFirst (h : (x.head?.any isNonDigit || y.head?.any isNonDigit) = false) :
    Ends a b ⟨.nonDigits, i, j, f⟩
      (afterNumbers .eq (x.dropWhile isZero) (y.dropWhile isZero)) := by
  refine (ends_leftZeros (f := f) hx hy).more ?_ (by simp)
  simp [step, standsOn_eq hx, standsOn_eq hy, h]

theorem ends_of_headWeight_ne (h : (x.head?.any isNonDigit || y.head?.any isNonDigit) = true)
    (ho : compare (headWeight x) (headWeight y) ≠ .eq) :
    Ends a b ⟨.nonDigits, i, j, f⟩ (.decided (compare (headWeight x) (headWeight y))) := by
  refine .verdict ?_
  simp only [step, standsOn_eq hx, standsOn_eq hy, weightAt_eq hx, weightAt_eq hy, h, if_true]

end NonDigits

theorem ends_nonDigits (hx : a.drop i = x) (hy : b.drop j = y) :
    Ends a b ⟨.nonDigits, i, j, f⟩ (comparePass x y) := by
  rw [comparePass_eq_afterNumbers]
  fun_induction compareNonDigits x y generalizing i j with
  | case1 => exact ends_of_digitsFirst hx hy rfl
  | case2 d y hd => exact ends_of_digitsFirst hx hy (by simp [isNonDigit, hd])
  | case3 d y hd =>
      have hd : d.isDigit = false := by simpa using hd
      exact ends_of_headWeight_ne hx hy (by simp [isNonDigit, hd]) (compare_zero_weight_ne hd)
  | case4 c x hc => exact ends_of_digitsFirst hx hy (by simp [isNonDigit, hc])
  | case5 c x hc =>
      have hc : c.isDigit = false := by simpa using hc
      exact ends_of_headWeight_ne hx hy (by simp [isNonDigit, hc]) (compare_weight_zero_ne hc)
  | case6 c x d y h =>
      exact ends_of_digitsFirst hx hy (by simpa [isNonDigit] using h)
  | case7 c x d y h he ih =>
      have hcd : (isNonDigit c || isNonDigit d) = true := by
        simpa [isNonDigit, ← Bool.not_and] using h
      refine (ih (drop_succ_of_drop hx) (drop_succ_of_drop hy)).more ?_ (by simp)
      simp [step, standsOn_eq hx, standsOn_eq hy, weightAt_eq hx, weightAt_eq hy, headWeight, hcd, he]
  | case8 c x d y h ho =>
      have hcd : (isNonDigit c || isNonDigit d) = true := by
        simpa [isNonDigit, ← Bool.not_and] using h
      exact ends_of_headWeight_ne hx hy (by simpa using hcd) ho

theorem step_passes (h : x ≠ [] ∨ y ≠ []) (hx : a.drop i = x) (hy : b.drop j = y) :
    step a b ⟨.passes, i, j, f⟩ = .next ⟨.nonDigits, i, j, f⟩ := by
  rw [← hx, ← hy, Ne, Ne, List.drop_eq_nil_iff, List.drop_eq_nil_iff, Nat.not_le, Nat.not_le] at h
  simp [step, h]

/-- A pass of the scan is a pass over the rests behind its cursors. -/
theorem ends_passes (h : x ≠ [] ∨ y ≠ []) (hx : a.drop i = x) (hy : b.drop j = y) :
    Ends a b ⟨.passes, i, j, f⟩ (comparePass x y) :=
  (ends_nonDigits hx hy).more (step_passes h hx hy) (by simp)

end Rests

section Run

theorem step_passes_nil (hx : a.drop i = []) (hy : b.drop j = []) :
    step a b ⟨.passes, i, j, f⟩ = .verdict .eq := by
  rw [List.drop_eq_nil_iff] at hx hy
  simp [step, Nat.not_lt.mpr hx, Nat.not_lt.mpr hy]

/-- From the start of a pass on, the scan ends with the order of the rests. -/
theorem exists_verdict (hx : a.drop i = x) (hy : b.drop j = y) :
    ∃ s, Reaches a b ⟨.passes, i, j, f⟩ s ∧ step a b s = .verdict (comparePart x y) := by
  fun_induction comparePart x y generalizing i j f with
  | case1 x y h =>
      obtain ⟨rfl, rfl⟩ := h
      exact ⟨_, .refl, step_passes_nil hx hy⟩
  | case2 x y h o hp =>
      have hends := ends_passes (f := f) (by tauto) hx hy
      rw [hp] at hends
      exact hends.reaches
  | case3 x y h x' y' hp ih =>
      have hends := ends_passes (f := f) (by tauto) hx hy
      rw [hp] at hends
      obtain ⟨i', j', hpass, hx', hy'⟩ := hends
      obtain ⟨last, hlast, hstep⟩ := hpass.reaches
      obtain ⟨s, hs, hverdict⟩ := ih (f := .eq) hx' hy'
      exact ⟨s, (hlast.tail hstep).trans hs, hverdict⟩

theorem pass_progress (hs : s.loop = .passes) (hr : s.InRange a b) :
    ∃ turn, PassEnds a b s turn ∧
      ∀ s', turn = .next s' → s.left + s.right < s'.left + s'.right := by
  obtain ⟨loop, i, j, f⟩ := s
  obtain rfl : loop = .passes := hs
  by_cases h : a.drop i ≠ [] ∨ b.drop j ≠ []
  · have hends := ends_passes (f := f) h rfl rfl
    cases hp : comparePass (a.drop i) (b.drop j) with
    | decided o =>
        rw [hp] at hends
        exact ⟨_, hends, by simp⟩
    | remaining x y =>
        rw [hp] at hends
        obtain ⟨i', j', hpass, rfl, rfl⟩ := hends
        have hshorter := comparePass_remaining hp (by tauto)
        simp only [List.length_drop] at hshorter
        obtain ⟨hi, hj⟩ := hr
        refine ⟨_, hpass, fun s' hs' => ?_⟩
        rw [← Turn.next.inj hs']
        dsimp only at hi hj ⊢
        omega
  · simp only [not_or, not_not] at h
    exact ⟨_, .verdict (step_passes_nil h.1 h.2), by simp⟩

end Run

/-- The cursors of a scan stay within the texts. In the loop over non-digits they move on together, from
the same non-digit. Each pass ends, with a verdict or further on, and in the end the scan returns the
order of the texts. -/
theorem scan_terminates (a b : Text) :
    (∀ s, Reaches a b start s →
      s.InRange a b ∧
      (∀ s', s.loop = .nonDigits → step a b s = .next s' → s'.loop = .nonDigits →
        s'.left = s.left + 1 ∧ s'.right = s.right + 1 ∧
          ∃ c, c.isDigit = false ∧ a[s.left]? = some c ∧ b[s.right]? = some c) ∧
      (s.loop = .passes → (∃ turn, PassEnds a b s turn) ∧
        ∀ s', PassEnds a b s (.next s') → s.left + s.right < s'.left + s'.right)) ∧
    ∃ s, Reaches a b start s ∧ step a b s = .verdict (comparePart a b) := by
  refine ⟨fun s h => ?_, exists_verdict (by rfl) (by rfl)⟩
  have hrange := reaches_inRange h ⟨Nat.zero_le _, Nat.zero_le _⟩
  refine ⟨hrange, fun s' => advance_nonDigits, fun hs => ?_⟩
  obtain ⟨turn, hturn, hprogress⟩ := pass_progress hs hrange
  exact ⟨⟨turn, hturn⟩, fun s' h' => hprogress s' (hturn.unique h')⟩

/-- Past the numbers `1` and `01`, where both cursors stand on a point. -/
theorem scan_terminates_point :
    Reaches "1.0~" "01." start ⟨.nonDigits, 1, 2, .eq⟩ ∧
      (⟨.nonDigits, 1, 2, .eq⟩ : State).InRange "1.0~" "01." ∧
      ∃ c : Char, c.isDigit = false ∧ "1.0~".toList[1]? = some c ∧ "01.".toList[2]? = some c := by
  have h : Reaches "1.0~" "01." start ⟨.nonDigits, 1, 2, .eq⟩ := by
    refine .head (b := ⟨.nonDigits, 0, 0, .eq⟩) rfl ?_
    refine .head (b := ⟨.leftZeros, 0, 0, .eq⟩) rfl ?_
    refine .head (b := ⟨.rightZeros, 0, 0, .eq⟩) rfl ?_
    refine .head (b := ⟨.rightZeros, 0, 1, .eq⟩) rfl ?_
    refine .head (b := ⟨.digits, 0, 1, .eq⟩) rfl ?_
    refine .head (b := ⟨.digits, 1, 2, .eq⟩) rfl ?_
    refine .head (b := ⟨.passes, 1, 2, .eq⟩) rfl ?_
    exact .single rfl
  obtain ⟨hrange, hadvance, -⟩ := (scan_terminates "1.0~" "01.").1 _ h
  obtain ⟨-, -, hc⟩ := hadvance ⟨.nonDigits, 2, 3, .eq⟩ rfl rfl rfl
  exact ⟨h, hrange, hc⟩

end DebianPackaging.Version.Scan
