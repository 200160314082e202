namespace DebianPackaging

abbrev Text := List Char

instance : Coe String Text := ⟨String.toList⟩

namespace Text

def string (t : Text) : String :=
  String.ofList t

def inRanges (ranges : List (Nat × Nat)) (c : Char) : Bool :=
  ranges.any fun r => r.1 ≤ c.toNat && c.toNat ≤ r.2

def blankRanges : List (Nat × Nat) :=
  [(0x09, 0x0d), (0x1c, 0x20), (0x85, 0x85), (0xa0, 0xa0), (0x1680, 0x1680), (0x2000, 0x200a),
    (0x2028, 0x2029), (0x202f, 0x202f), (0x205f, 0x205f), (0x3000, 0x3000)]

def isBlank (c : Char) : Bool :=
  inRanges blankRanges c

def lineEndRanges : List (Nat × Nat) :=
  [(0x0a, 0x0d), (0x1c, 0x1e), (0x85, 0x85), (0x2028, 0x2029)]

def isLineEnd (c : Char) : Bool :=
  inRanges lineEndRanges c

def trimLeft (t : Text) : Text :=
  t.dropWhile isBlank

def trimRight (t : Text) : Text :=
  (t.reverse.dropWhile isBlank).reverse

def trim (t : Text) : Text :=
  trimRight (trimLeft t)

def isBlankText (t : Text) : Bool :=
  t.all isBlank

def words (t : Text) : List Text :=
  (t.splitOnP isBlank).filter fun w => !w.isEmpty

/-- The lines of a text. A carriage return and a line feed together end one line, and a line end
at the end of the text opens no further line. -/
def lines : Text → List Text
  | [] => []
  | '\r' :: '\n' :: rest => [] :: lines rest
  | c :: rest =>
      if isLineEnd c then
        [] :: lines rest
      else
        match lines rest with
        | [] => [[c]]
        | line :: more => (c :: line) :: more

def cut (c : Char) : Text → Option (Text × Text)
  | [] => none
  | d :: rest =>
      if d = c then
        some ([], rest)
      else
        (cut c rest).map fun parts => (d :: parts.1, parts.2)

def cutLast (c : Char) (t : Text) : Option (Text × Text) :=
  (cut c t.reverse).map fun parts => (parts.2.reverse, parts.1.reverse)

def join (separator : Text) (parts : List Text) : Text :=
  separator.intercalate parts

def sort (ts : List Text) : List Text :=
  ts.mergeSort fun a b => !decide (b < a)

def ofNat (n : Nat) : Text :=
  Nat.toDigits 10 n

def ofInt : Int → Text
  | .ofNat n => ofNat n
  | .negSucc n => '-' :: ofNat (n + 1)

/-- The number that a run of decimal digits stands for; the empty run stands for zero. -/
def toNat (digits : Text) : Nat :=
  Nat.ofDigitChars 10 digits 0

theorem cut_eq_some {c : Char} {t before after : Text} (h : cut c t = some (before, after)) :
    t = before ++ c :: after ∧ c ∉ before := by
  induction t generalizing before with
  | nil => simp [cut] at h
  | cons d rest ih =>
      by_cases hd : d = c
      · simp only [cut, hd, if_true, Option.some.injEq, Prod.mk.injEq] at h
        obtain ⟨rfl, rfl⟩ := h
        simp [hd]
      · simp only [cut, hd, if_false, Option.map_eq_some_iff, Prod.mk.injEq] at h
        obtain ⟨⟨b, a⟩, hb, rfl, rfl⟩ := h
        obtain ⟨rfl, hn⟩ := ih hb
        exact ⟨rfl, by simp [hn, Ne.symm hd]⟩

theorem cut_length {c : Char} {t before after : Text} (h : cut c t = some (before, after)) :
    after.length < t.length := by
  obtain ⟨rfl, -⟩ := cut_eq_some h
  simp only [List.length_append, List.length_cons]
  omega

theorem toNat_ofNat (n : Nat) : toNat (ofNat n) = n :=
  Nat.ofDigitChars_toDigits (by decide) (by decide)

theorem sort_perm (ts : List Text) : (sort ts).Perm ts :=
  List.mergeSort_perm ts _

theorem mem_sort {t : Text} {ts : List Text} : t ∈ sort ts ↔ t ∈ ts :=
  (sort_perm ts).mem_iff

theorem sort_nil : sort [] = [] :=
  List.Perm.eq_nil (sort_perm [])

theorem sort_ne_nil {ts : List Text} (h : ts ≠ []) : sort ts ≠ [] := fun hs =>
  h (List.Perm.eq_nil (hs ▸ (sort_perm ts).symm))

theorem sort_sorted (ts : List Text) : (sort ts).Pairwise fun a b => ¬b < a := by
  have trans : ∀ a b c : Text, (!decide (b < a)) = true → (!decide (c < b)) = true →
      (!decide (c < a)) = true := by
    intro a b c hab hbc
    simp only [Bool.not_eq_true', decide_eq_false_iff_not, List.not_lt] at *
    exact List.le_trans hab hbc
  have total : ∀ a b : Text, (!decide (b < a) || !decide (a < b)) = true := by
    intro a b
    simp only [Bool.or_eq_true, Bool.not_eq_true', decide_eq_false_iff_not, List.not_lt]
    exact List.le_total a b
  simpa [sort] using List.pairwise_mergeSort trans total ts

theorem sort_eq_of_perm {ts us : List Text} (h : ts.Perm us) : sort ts = sort us := by
  refine List.Perm.eq_of_pairwise (fun a b _ _ hab hba => ?_) (sort_sorted ts) (sort_sorted us)
    ((sort_perm ts).trans (h.trans (sort_perm us).symm))
  exact List.le_antisymm (List.not_lt.mp hab) (List.not_lt.mp hba)

end Text

end DebianPackaging
