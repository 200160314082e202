import DebianPackaging.Proofs.Outcome
import DebianPackaging.Proofs.Version.Number
import DebianPackaging.Proofs.Version.Order
import DebianPackaging.Version.KeyReader

namespace DebianPackaging.Version

open Text Outcome

def isTextChar (c : Char) : Bool :=
  c.isAlpha || c ∈ ['.', '+', '-', ':', '~']

theorem isReleaseChar_eq (c : Char) : isReleaseChar c = (isTextChar c || c.isDigit) := by
  simp only [isReleaseChar, isTextChar, Char.isAlphanum, Bool.or_right_comm]

theorem isTextChar_cases {c : Char} (hc : isTextChar c = true) :
    c.isAlpha = true ∨ c = '.' ∨ c = '+' ∨ c = '-' ∨ c = ':' ∨ c = '~' := by
  simpa [isTextChar] using hc

theorem keyChar_letter {c : Char} (hc : c.isAlpha = true) : keyChar c = c := by
  unfold keyChar
  split <;> first | rfl | exact absurd hc (by decide)

theorem unkeyChar?_letter {c : Char} (hc : c.isAlpha = true) : unkeyChar? c = some c := by
  unfold unkeyChar?
  split
  case h_6 => rw [if_pos hc]
  all_goals exact absurd hc (by decide)

theorem not_isDigit_of_isTextChar {c : Char} (hc : isTextChar c = true) : c.isDigit = false := by
  rcases isTextChar_cases hc with h | rfl | rfl | rfl | rfl | rfl
  · have ha := isAlpha_iff_toNat.mp h
    refine Bool.eq_false_iff.mpr fun hd => ?_
    have := isDigit_iff_toNat.mp hd
    omega
  all_goals rfl

theorem unkeyChar?_keyChar {c : Char} (hc : isTextChar c = true) :
    unkeyChar? (keyChar c) = some c := by
  rcases isTextChar_cases hc with h | rfl | rfl | rfl | rfl | rfl
  · rw [keyChar_letter h, unkeyChar?_letter h]
  all_goals rfl

theorem keyChar_ne_marks {c : Char} (hc : isTextChar c = true) : keyChar c ≠ '%' ∧ keyChar c ≠ '#' := by
  rcases isTextChar_cases hc with h | rfl | rfl | rfl | rfl | rfl
  · rw [keyChar_letter h]
    exact ⟨by rintro rfl; simp at h, by rintro rfl; simp at h⟩
  all_goals decide

theorem unkeyChar?_eq_some {c d : Char} (h : unkeyChar? c = some d) :
    isTextChar d = true ∧ keyChar d = c := by
  unfold unkeyChar? at h
  split at h
  case h_6 =>
    split at h
    next ha =>
      cases h
      exact ⟨by simp [isTextChar, ha], keyChar_letter ha⟩
    next => cases h
  all_goals
    cases h
    exact ⟨by decide, rfl⟩

theorem toNat_countChar : ∀ n ≤ maxDigitRun, (countChar n).toNat = 'a'.toNat + n := by
  decide

theorem readText_append {x : Text} (hx : ∀ c ∈ x, isTextChar c = true) (rest : Text) :
    readText (x.map keyChar ++ '%' :: rest) = .ok (x, '%' :: rest) := by
  induction x with
  | nil => simp [readText]
  | cons c x ih =>
      have hc := hx c (by simp)
      simp [readText, (keyChar_ne_marks hc).1, unkeyChar?_keyChar hc, ih fun d hd => hx d (by simp [hd]),
        Except.map]

theorem readText_sound {t x rest : Text} (h : readText t = .ok (x, rest)) :
    t = x.map keyChar ++ rest ∧ ∀ c ∈ x, isTextChar c = true := by
  induction t generalizing x rest with
  | nil => cases h
  | cons c t ih =>
      simp only [readText] at h
      split at h
      · cases h
        simp
      · split at h
        · cases h
        next d hd =>
          obtain ⟨⟨y, r⟩, hy, he⟩ := map_eq_ok_iff.mp h
          obtain ⟨rfl, rfl⟩ := Prod.mk.inj he
          obtain ⟨ht, hc⟩ := ih hy
          obtain ⟨hd, hk⟩ := unkeyChar?_eq_some hd
          refine ⟨by rw [List.map_cons, hk, List.cons_append, ← ht], ?_⟩
          intro e he
          rcases List.mem_cons.mp he with rfl | he
          · exact hd
          · exact hc e he

theorem readMark_cons (c : Char) (rest : Text) : readMark c (c :: rest) = .ok ((), rest) := by
  simp [readMark]

theorem readMark_sound {c : Char} {t rest : Text} {u : Unit} (h : readMark c t = .ok (u, rest)) :
    t = c :: rest := by
  cases t with
  | nil => cases h
  | cons d t =>
      simp only [readMark] at h
      split at h
      next hd => cases h; rw [hd]
      next => cases h

theorem readCount_cons {n : Nat} (hn : n ≤ maxDigitRun) (rest : Text) :
    readCount (countChar n :: rest) = .ok (n, rest) := by
  have hc := toNat_countChar n hn
  rw [readCount, if_pos (by omega), hc, Nat.add_sub_cancel_left]

theorem readCount_sound {t rest : Text} {n : Nat} (h : readCount t = .ok (n, rest)) :
    t = countChar n :: rest ∧ n ≤ maxDigitRun := by
  cases t with
  | nil => cases h
  | cons c t =>
      simp only [readCount] at h
      split at h
      next hc =>
        cases h
        have hn : c.toNat - 'a'.toNat ≤ maxDigitRun := by omega
        refine ⟨?_, hn⟩
        rw [List.cons.injEq]
        refine ⟨Char.toNat_inj.mp ?_, rfl⟩
        rw [toNat_countChar _ hn]
        omega
      next => cases h

theorem readDigits_append {x : Text} (hx : ∀ c ∈ x, c.isDigit = true) (h0 : x.head? ≠ some '0')
    (rest : Text) : readDigits x.length (x ++ rest) = .ok (x, rest) := by
  have ha : x.all Char.isDigit = true := List.all_eq_true.mpr hx
  simp [readDigits, ha, h0]

theorem readDigits_sound {n : Nat} {t x rest : Text} (h : readDigits n t = .ok (x, rest)) :
    t = x ++ rest ∧ x.length = n ∧ (∀ c ∈ x, c.isDigit = true) ∧ x.head? ≠ some '0' := by
  simp only [readDigits, ite_error_eq_ok_iff, Except.ok.injEq, Prod.mk.injEq] at h
  obtain ⟨hd, h0, rfl, rfl⟩ := h
  simp only [Bool.or_eq_true, decide_eq_true_eq, not_or, Bool.not_eq_true', Bool.not_eq_false,
    Decidable.not_not, List.all_eq_true] at hd
  exact ⟨(List.take_append_drop n t).symm, hd.1, hd.2, h0⟩

theorem significant_eq_self {x : Text} (h : x.head? ≠ some '0') : significant x = x := by
  cases x with
  | nil => rfl
  | cons c x =>
      have hc : c ≠ '0' := fun he => h (by rw [he]; rfl)
      rw [significant, List.dropWhile_cons_of_neg (by simpa using hc)]

theorem significant_head? (x : Text) : (significant x).head? ≠ some '0' := by
  cases hs : significant x with
  | nil => simp
  | cons c y => simpa using significant_head hs

theorem replicate_zeros_append (k : Chunk) :
    List.replicate k.zeros '0' ++ significant k.digits = k.digits := by
  have hz : k.digits.takeWhile (· == '0') = List.replicate k.zeros '0' := by
    refine List.eq_replicate_iff.mpr ⟨rfl, fun c hc => ?_⟩
    simpa using List.all_eq_true.mp List.all_takeWhile c hc
  rw [← hz, significant, List.takeWhile_append_dropWhile]

def padded (n : Nat) (k : Chunk) : Chunk := ⟨k.text, List.replicate n '0' ++ k.digits⟩

theorem toText_padded (n : Nat) (k : Chunk) :
    (padded n k).toText = k.text ++ List.replicate n '0' ++ k.digits :=
  (List.append_assoc _ _ _).symm

theorem padded_zeros_stripped (k : Chunk) : padded k.zeros k.stripped = k := by
  rw [padded, Chunk.stripped, replicate_zeros_append]

theorem stripped_padded (n : Nat) {k : Chunk} (h : k.digits.head? ≠ some '0') :
    (padded n k).stripped = k := by
  have hs : significant (padded n k).digits = k.digits := by
    rw [significant, padded, List.dropWhile_append_of_pos (by simp)]
    exact significant_eq_self h
  rw [Chunk.stripped, hs]
  rfl

theorem zeros_padded (n : Nat) {k : Chunk} (h : k.digits.head? ≠ some '0') :
    (padded n k).zeros = n := by
  have hl := congrArg List.length (replicate_zeros_append (padded n k))
  have hs : significant (padded n k).digits = k.digits := congrArg Chunk.digits (stripped_padded n h)
  rw [hs, padded, List.length_append, List.length_append, List.length_replicate,
    List.length_replicate] at hl
  exact Nat.add_right_cancel hl

/-- What a key can hold of a chunk. -/
structure Fits (k : Chunk) : Prop where
  text : ∀ c ∈ k.text, isTextChar c = true
  digits : ∀ c ∈ k.digits, c.isDigit = true
  length_le : k.digits.length ≤ maxDigitRun

theorem Fits.zeros_le {k : Chunk} (h : Fits k) : k.zeros ≤ maxDigitRun := by
  refine Nat.le_trans ?_ h.length_le
  exact (List.takeWhile_prefix _).length_le

theorem Fits.significant_le {k : Chunk} (h : Fits k) :
    (significant k.digits).length ≤ maxDigitRun :=
  Nat.le_trans (List.length_dropWhile_le _ _) h.length_le

theorem readChunk_append {isFirst : Bool} {k : Chunk} (hk : Fits k)
    (ht : isFirst = true ∨ k.text ≠ []) (rest : Text) :
    readChunk isFirst (keyChunk k ++ rest) = .ok (k.stripped, rest) := by
  have he : ¬(k.text.isEmpty && !isFirst) = true := by
    rcases ht with ht | ht
    · simp [ht]
    · simp [ht]
  rw [keyChunk, List.append_assoc, List.cons_append, List.cons_append, readChunk]
  refine bind_eq_ok_iff.mpr ⟨_, readText_append hk.text _, ?_⟩
  refine ite_error_eq_ok_iff.mpr ⟨he, ?_⟩
  refine bind_eq_ok_iff.mpr ⟨_, readMark_cons '%' _, ?_⟩
  refine bind_eq_ok_iff.mpr ⟨_, readCount_cons hk.significant_le _, ?_⟩
  refine bind_eq_ok_iff.mpr ⟨(significant k.digits, rest), ?_, rfl⟩
  exact readDigits_append (isDigit_significant hk.digits) (significant_head? _) rest

structure IsBare (k : Chunk) : Prop where
  text : ∀ c ∈ k.text, isTextChar c = true
  digits : ∀ c ∈ k.digits, c.isDigit = true
  head : k.digits.head? ≠ some '0'

theorem readChunk_sound {isFirst : Bool} {t rest : Text} {k : Chunk}
    (h : readChunk isFirst t = .ok (k, rest)) :
    t = keyChunk k ++ rest ∧ IsBare k ∧ (isFirst = true ∨ k.text ≠ []) := by
  obtain ⟨⟨x, t₁⟩, hx, h⟩ := bind_eq_ok_iff.mp h
  obtain ⟨he, h⟩ := ite_error_eq_ok_iff.mp h
  obtain ⟨⟨u, t₂⟩, hm, h⟩ := bind_eq_ok_iff.mp h
  obtain ⟨⟨n, t₃⟩, hn, h⟩ := bind_eq_ok_iff.mp h
  obtain ⟨⟨d, t₄⟩, hd, h⟩ := bind_eq_ok_iff.mp h
  cases h
  obtain ⟨rfl, htext⟩ := readText_sound hx
  obtain rfl := readMark_sound hm
  obtain ⟨rfl, hle⟩ := readCount_sound hn
  obtain ⟨rfl, hlen, hdigits, hhead⟩ := readDigits_sound hd
  refine ⟨?_, ⟨htext, hdigits, hhead⟩, ?_⟩
  · rw [keyChunk, significant_eq_self hhead, hlen]
    simp
  · cases isFirst with
    | true => exact .inl rfl
    | false => exact .inr (by simpa using he)

end DebianPackaging.Version
