import DebianPackaging.Proofs.Version.Coding

namespace DebianPackaging

def Chunk.stripped (k : Chunk) : Chunk := ⟨k.text, significant k.digits⟩

namespace Version

open Text

theorem compare_natCast (m n : Nat) : compare (m : Int) n = compare m n := by
  simp only [compare, compareOfLessAndEq, Int.ofNat_lt, Int.natCast_inj]

theorem compare_eq_of_toNat {c d : Char} {m n : Int} (hlt : c.toNat < d.toNat ↔ m < n)
    (heq : c.toNat = d.toNat ↔ m = n) : compare c d = compare m n := by
  simp only [compare, compareOfLessAndEq, Char.lt_def, UInt32.lt_iff_toNat_lt, Char.toNat_val,
    ← Char.toNat_inj, hlt, heq]

theorem compare_toNat (c d : Char) : compare (c.toNat : Int) d.toNat = compare c d :=
  (compare_eq_of_toNat (by omega) (by omega)).symm

/-- Texts written as their weights. The end of a run and that of a field both weigh nothing: what
went before tells them apart. -/
def rankCoding : Coding Int where
  char := weight
  digit c := c.toNat
  count n := n
  runEnd := 0
  fieldEnd := 0
  IsChar c := c.isDigit = false
  IsCount _ := True
  not_isDigit h := h
  compare_char _ _ := rfl
  compare_runEnd _ := rfl
  compare_fieldEnd _ := rfl
  compare_count _ _ := compare_natCast _ _
  compare_digit := compare_toNat

def rank (t : Text) : List Int := rankCoding.field (chunks t)

theorem rankCoding_writes {t : Text} : ∀ k ∈ chunks t, rankCoding.Writes k :=
  fun k hk => ⟨((isCut_chunks t).isChunk k hk).text, trivial⟩

theorem comparePart_eq_compare_rank (a b : Text) : comparePart a b = compare (rank a) (rank b) := by
  have h := rankCoding.compare_field (a := a) (b := b) rankCoding_writes rankCoding_writes [] []
  simpa [rank] using h.symm

theorem compare_eq_compare_rank (v w : Version) :
    compare v w = (compare v.epoch w.epoch).then
      ((compare (rank v.release) (rank w.release)).then
        (compare (rank v.revision) (rank w.revision))) := by
  rw [← comparePart_eq_compare_rank, ← comparePart_eq_compare_rank]
  rfl

instance : Std.TransOrd Version :=
  have h : (compare : Version → Version → Ordering) =
      compareLex (compareOn epoch) (compareLex (compareOn fun v => rank v.release)
        (compareOn fun v => rank v.revision)) := by
    funext v w
    exact compare_eq_compare_rank v w
  show Std.TransCmp compare from h ▸ inferInstance

theorem map_weight_injective {x y : Text} (hx : ∀ c ∈ x, c.isDigit = false)
    (hy : ∀ c ∈ y, c.isDigit = false) (h : x.map weight = y.map weight) : x = y := by
  induction x generalizing y with
  | nil => simpa using h.symm
  | cons c x ih =>
      cases y with
      | nil => simp at h
      | cons d y =>
          simp only [List.map_cons, List.cons.injEq] at h
          rw [weight_injective (hx c (by simp)) (hy d (by simp)) h.1,
            ih (fun e he => hx e (by simp [he])) (fun e he => hy e (by simp [he])) h.2]

theorem compareSignificant_eq_eq_iff (x y : Text) : compareSignificant x y = .eq ↔ x = y := by
  rw [compareSignificant, Ordering.then_eq_eq, Std.LawfulEqCmp.compare_eq_iff_eq,
    Std.LawfulEqCmp.compare_eq_iff_eq]
  exact ⟨fun h => h.2, fun h => ⟨by rw [h], h⟩⟩

theorem compareChunk_eq_eq_iff {k l : Chunk} (hk : IsChunk k) (hl : IsChunk l) :
    compareChunk k l = .eq ↔ k.stripped = l.stripped := by
  rw [compareChunk, Ordering.then_eq_eq, compareSignificant_eq_eq_iff,
    Std.LawfulEqCmp.compare_eq_iff_eq, Chunk.stripped, Chunk.stripped, Chunk.mk.injEq, runWeights,
    runWeights, List.append_cancel_right_eq]
  constructor
  · rintro ⟨ht, hd⟩
    exact ⟨map_weight_injective hk.text hl.text ht, hd⟩
  · rintro ⟨ht, hd⟩
    exact ⟨by rw [ht], hd⟩

theorem comparePart_eq_eq_iff (a b : Text) :
    comparePart a b = .eq ↔ (chunks a).map Chunk.stripped = (chunks b).map Chunk.stripped := by
  induction a, b using chunk_induction with
  | step a b ih =>
      rw [comparePart_eq, chunks_eq a, chunks_eq b, List.map_cons, List.map_cons, List.cons.injEq,
        Ordering.then_eq_eq, compareChunk_eq_eq_iff (isChunk_firstChunk a) (isChunk_firstChunk b)]
      refine and_congr_right fun _ => ?_
      cases hpa : pastChunk a with
      | nil =>
          cases hpb : pastChunk b with
          | nil => simp [moreChunks, comparePart_nil_nil]
          | cons d r =>
              have hd := pastChunk_head hpb
              rw [comparePart_nil_cons hd]
              simp [compare_zero_weight_ne hd, moreChunks, (isCut_chunks (d :: r)).ne_nil]
      | cons c q =>
          cases hpb : pastChunk b with
          | nil =>
              have hc := pastChunk_head hpa
              rw [comparePart_cons_nil hc]
              simp [compare_weight_zero_ne hc, moreChunks, (isCut_chunks (c :: q)).ne_nil]
          | cons d r =>
              rw [hpa, hpb] at ih
              exact ih (.inl (by simp))

/-- Versions are in a total preorder, whose equivalence looks at epochs and at chunks without their
leading zeros. -/
theorem compare_totalPreorder (u v w : Version) :
    compare v v = .eq ∧
    compare v w = (compare w v).swap ∧
    ((compare u v).isLE → (compare v w).isLE → (compare u w).isLE) ∧
    (compare v w = .eq ↔
      v.epoch = w.epoch ∧
      (chunks v.release).map Chunk.stripped = (chunks w.release).map Chunk.stripped ∧
      (chunks v.revision).map Chunk.stripped = (chunks w.revision).map Chunk.stripped) := by
  refine ⟨Std.ReflOrd.compare_self, Std.OrientedOrd.eq_swap, Std.TransOrd.isLE_trans, ?_⟩
  rw [compare_eq_compare_rank, ← comparePart_eq_compare_rank, ← comparePart_eq_compare_rank,
    Ordering.then_eq_eq, Ordering.then_eq_eq, Std.LawfulEqOrd.compare_eq_iff_eq,
    comparePart_eq_eq_iff, comparePart_eq_eq_iff]

end Version

end DebianPackaging
