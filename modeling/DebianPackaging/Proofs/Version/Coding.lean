import DebianPackaging.Proofs.Version.Pass

namespace DebianPackaging.Version

open Text

/-- The symbols of a coding, and which characters and counts it can write in order. The ends of a
run and of a field take the place of the weight zero. -/
structure Coding (α : Type) [Ord α] where
  char : Char → α
  digit : Char → α
  count : Nat → α
  runEnd : α
  fieldEnd : α
  IsChar : Char → Prop
  IsCount : Nat → Prop
  not_isDigit : ∀ {c}, IsChar c → c.isDigit = false
  compare_char : ∀ {c d}, IsChar c → IsChar d →
    compare (char c) (char d) = compare (weight c) (weight d)
  compare_runEnd : ∀ {c}, IsChar c → compare (char c) runEnd = compare (weight c) 0
  compare_fieldEnd : ∀ {c}, IsChar c → compare (char c) fieldEnd = compare (weight c) 0
  compare_count : ∀ {m n}, IsCount m → IsCount n → compare (count m) (count n) = compare m n
  compare_digit : ∀ c d, compare (digit c) (digit d) = compare c d

namespace Coding

variable {α : Type} [Ord α] (C : Coding α)

def chunk (k : Chunk) : List α :=
  k.text.map C.char ++
    C.runEnd :: C.count (significant k.digits).length :: (significant k.digits).map C.digit

def field (ks : List Chunk) : List α := ks.flatMap C.chunk ++ [C.fieldEnd]

structure Writes (k : Chunk) : Prop where
  text : ∀ c ∈ k.text, C.IsChar c
  count : C.IsCount (significant k.digits).length

theorem field_cons (k : Chunk) (ks : List Chunk) : C.field (k :: ks) = C.chunk k ++ C.field ks := by
  simp [field]

theorem field_chunks_cons {c : Char} (hc : c.isDigit = false) (r : Text) :
    ∃ u, C.field (chunks (c :: r)) = C.char c :: u := by
  rw [chunks_eq, field_cons, chunk, firstChunk, leadingText_cons r hc]
  exact ⟨_, rfl⟩

theorem isChar_head {c : Char} {r : Text} (h : ∀ k ∈ chunks (c :: r), C.Writes k)
    (hc : c.isDigit = false) : C.IsChar c := by
  rw [chunks_eq] at h
  exact (h (firstChunk (c :: r)) (by simp)).text c (by simp [firstChunk, leadingText_cons r hc])

theorem compare_append_of_length_eq {x y : List α} (h : x.length = y.length) (s t : List α) :
    compare (x ++ s) (y ++ t) = (compare x y).then (compare s t) := by
  induction x generalizing y with
  | nil =>
      cases y with
      | nil => rfl
      | cons d y => simp at h
  | cons c x ih =>
      cases y with
      | nil => simp at h
      | cons d y =>
          simp only [List.cons_append, List.compare_cons_cons, Ordering.then_assoc,
            ih (by simpa using h)]

theorem compare_map_digit (x y : Text) :
    compare (x.map C.digit) (y.map C.digit) = List.compareLex compare x y := by
  induction x generalizing y with
  | nil => cases y <;> rfl
  | cons c x ih =>
      cases y with
      | nil => rfl
      | cons d y =>
          rw [List.map_cons, List.map_cons, List.compare_cons_cons, List.compareLex_cons_cons,
            C.compare_digit, ih]

theorem compare_number {x y : Text} (hx : C.IsCount x.length) (hy : C.IsCount y.length)
    (s t : List α) :
    compare (C.count x.length :: (x.map C.digit ++ s)) (C.count y.length :: (y.map C.digit ++ t)) =
      (compareSignificant x y).then (compare s t) := by
  rw [List.compare_cons_cons, C.compare_count hx hy, compareSignificant, Ordering.then_assoc]
  by_cases h : x.length = y.length
  · rw [compare_append_of_length_eq (by simpa using h), compare_map_digit]
  · cases hc : compare x.length y.length with
    | eq => exact absurd (Nat.compare_eq_eq.mp hc) h
    | lt | gt => rfl

/-- A field that ends is ordered against one that goes on by the character that goes on. -/
theorem compare_field_cons_nil {c : Char} {r : Text} (hc : c.isDigit = false)
    (h : ∀ k ∈ chunks (c :: r), C.Writes k) (s t : List α) :
    compare (C.field (chunks (c :: r)) ++ s) (C.field [] ++ t) =
      (comparePart (c :: r) []).then (compare s t) := by
  have hn := compare_weight_zero_ne hc
  obtain ⟨u, hu⟩ := C.field_chunks_cons hc r
  rw [hu, comparePart_cons_nil hc, then_of_ne_eq hn, field, List.flatMap_nil, List.nil_append,
    List.cons_append, List.cons_append, List.compare_cons_cons,
    C.compare_fieldEnd (C.isChar_head h hc), then_of_ne_eq hn]

section

variable [Std.OrientedOrd α]

theorem compare_swap {x y : α} {m n : Int} (h : compare x y = compare m n) :
    compare y x = compare n m := by
  rw [Std.OrientedOrd.eq_swap, h, ← Std.OrientedOrd.eq_swap]

theorem compare_text {x y : Text} (hx : ∀ c ∈ x, C.IsChar c) (hy : ∀ c ∈ y, C.IsChar c)
    (s t : List α) :
    compare (x.map C.char ++ C.runEnd :: s) (y.map C.char ++ C.runEnd :: t) =
      (compare (runWeights x) (runWeights y)).then (compare s t) := by
  induction x generalizing y with
  | nil =>
      cases y with
      | nil => simp [List.compare_cons_cons, runWeights]
      | cons d y =>
          have hd := hy d (by simp)
          have hn := compare_zero_weight_ne (C.not_isDigit hd)
          simp only [List.map_nil, List.nil_append, List.map_cons, List.cons_append, runWeights,
            List.compare_cons_cons, compare_swap (C.compare_runEnd hd), then_of_ne_eq hn]
  | cons c x ih =>
      have hc := hx c (by simp)
      cases y with
      | nil =>
          have hn := compare_weight_zero_ne (C.not_isDigit hc)
          simp only [List.map_nil, List.nil_append, List.map_cons, List.cons_append, runWeights,
            List.compare_cons_cons, C.compare_runEnd hc, then_of_ne_eq hn]
      | cons d y =>
          have ih := ih (fun e he => hx e (by simp [he])) (y := y) fun e he => hy e (by simp [he])
          simp only [List.map_cons, List.cons_append, List.compare_cons_cons, runWeights_cons,
            C.compare_char hc (hy d (by simp)), ih, Ordering.then_assoc]

theorem compare_chunk {k l : Chunk} (hk : C.Writes k) (hl : C.Writes l) (s t : List α) :
    compare (C.chunk k ++ s) (C.chunk l ++ t) = (compareChunk k l).then (compare s t) := by
  simp only [chunk, List.append_assoc, List.cons_append, compareChunk]
  rw [C.compare_text hk.text hl.text, C.compare_number hk.count hl.count, Ordering.then_assoc]

theorem compare_field_nil_cons {c : Char} {r : Text} (hc : c.isDigit = false)
    (h : ∀ k ∈ chunks (c :: r), C.Writes k) (s t : List α) :
    compare (C.field [] ++ s) (C.field (chunks (c :: r)) ++ t) =
      (comparePart [] (c :: r)).then (compare s t) := by
  have hn := compare_zero_weight_ne hc
  obtain ⟨u, hu⟩ := C.field_chunks_cons hc r
  rw [hu, comparePart_nil_cons hc, then_of_ne_eq hn, field, List.flatMap_nil, List.nil_append,
    List.cons_append, List.cons_append, List.compare_cons_cons,
    compare_swap (C.compare_fieldEnd (C.isChar_head h hc)), then_of_ne_eq hn]

/-- Fields are ordered as the texts that they write, and the first difference of two fields comes
before their ends. -/
theorem compare_field {a b : Text} (ha : ∀ k ∈ chunks a, C.Writes k) (hb : ∀ k ∈ chunks b, C.Writes k)
    (s t : List α) :
    compare (C.field (chunks a) ++ s) (C.field (chunks b) ++ t) =
      (comparePart a b).then (compare s t) := by
  induction a, b using chunk_induction with
  | step a b ih =>
      rw [chunks_eq] at ha hb
      rw [chunks_eq a, chunks_eq b, field_cons, field_cons, comparePart_eq, List.append_assoc,
        List.append_assoc, C.compare_chunk (ha _ (by simp)) (hb _ (by simp)), Ordering.then_assoc]
      congr 1
      have ha' : ∀ k ∈ moreChunks (pastChunk a), C.Writes k := fun k hk => ha k (by simp [hk])
      have hb' : ∀ k ∈ moreChunks (pastChunk b), C.Writes k := fun k hk => hb k (by simp [hk])
      cases hpa : pastChunk a with
      | nil =>
          cases hpb : pastChunk b with
          | nil => simp [moreChunks, field, List.compare_cons_cons, comparePart_nil_nil]
          | cons d r =>
              rw [hpb] at hb'
              exact C.compare_field_nil_cons (pastChunk_head hpb) hb' s t
      | cons c q =>
          rw [hpa] at ha'
          cases hpb : pastChunk b with
          | nil => exact C.compare_field_cons_nil (pastChunk_head hpa) ha' s t
          | cons d r =>
              rw [hpa, hpb] at ih
              rw [hpb] at hb'
              exact ih (.inl (by simp)) ha' hb'

end

end Coding

end DebianPackaging.Version
