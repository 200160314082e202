import DebianPackaging.Proofs.Version.KeyStep
import DebianPackaging.Proofs.Version.WellFormed

namespace DebianPackaging.Version

open Text Outcome

/-- The chunks of a field. None but the one that starts it may lack the text. -/
inductive IsField : Bool → List Chunk → Prop
  | last {isFirst : Bool} {k : Chunk} : isFirst = true ∨ k.text ≠ [] → IsField isFirst [k]
  | more {isFirst : Bool} {k : Chunk} {ks : List Chunk} :
      isFirst = true ∨ k.text ≠ [] → IsField false ks → IsField isFirst (k :: ks)

theorem IsField.ne_nil {isFirst : Bool} {ks : List Chunk} (h : IsField isFirst ks) : ks ≠ [] := by
  cases h <;> simp

theorem IsField.text_ne_nil {ks : List Chunk} (h : IsField false ks) : ∀ k ∈ ks, k.text ≠ [] := by
  generalize hf : false = isFirst at h
  induction h with
  | last hk => simpa [← hf] using hk
  | more hk _ ih =>
      intro l hl
      rcases List.mem_cons.mp hl with rfl | hl
      · simpa [← hf] using hk
      · exact ih rfl l hl

theorem IsField.tail_text_ne_nil {isFirst : Bool} {ks : List Chunk} (h : IsField isFirst ks) :
    ∀ k ∈ ks.tail, k.text ≠ [] := by
  cases h with
  | last => simp
  | more _ hks => exact hks.text_ne_nil

theorem isField_of_text_ne_nil {isFirst : Bool} {k : Chunk} {ks : List Chunk}
    (hk : isFirst = true ∨ k.text ≠ []) (hks : ∀ l ∈ ks, l.text ≠ []) : IsField isFirst (k :: ks) := by
  induction ks generalizing isFirst k with
  | nil => exact .last hk
  | cons l ks ih =>
      exact .more hk (ih (.inr (hks l (by simp))) fun m hm => hks m (by simp [hm]))

theorem IsCut.isField {ks : List Chunk} {t : Text} (h : IsCut ks t) : IsField true ks := by
  cases ks with
  | nil => exact absurd rfl h.ne_nil
  | cons k ks => exact isField_of_text_ne_nil (.inl rfl) h.text_ne_nil

theorem keyField_cons (k : Chunk) (ks : List Chunk) :
    keyField (k :: ks) = keyChunk k ++ keyField ks := by
  simp [keyField]

theorem keyField_head {ks : List Chunk} (h : IsField false ks) (hf : ∀ k ∈ ks, Fits k) :
    ∃ c t, keyField ks = c :: t ∧ c ≠ '#' := by
  cases ks with
  | nil => exact absurd rfl h.ne_nil
  | cons k ks =>
      cases hk : k.text with
      | nil => exact absurd hk (h.text_ne_nil k (by simp))
      | cons c x =>
          have hc := (hf k (by simp)).text c (by simp [hk])
          exact ⟨_, _, by rw [keyField_cons, keyChunk, hk]; rfl, (keyChar_ne_marks hc).2⟩

theorem readField_eq (isFirst : Bool) (t : Text) :
    readField isFirst t = readChunk isFirst t >>= fun (k, rest) =>
      match rest with
      | [] => .error ⟨.endOfInput, []⟩
      | c :: rest =>
          if c = '#' then .ok ([k], rest)
          else (readField false (c :: rest)).map fun (ks, rest) => (k :: ks, rest) := by
  rw [readField]
  split
  next h => rw [h]; rfl
  next h => rw [h]; rfl
  next h => rw [h]; rfl

theorem readField_append {isFirst : Bool} {ks : List Chunk} (h : IsField isFirst ks)
    (hf : ∀ k ∈ ks, Fits k) (rest : Text) :
    readField isFirst (keyField ks ++ rest) = .ok (ks.map Chunk.stripped, rest) := by
  induction h with
  | @last isFirst k hk =>
      rw [readField_eq, keyField_cons, List.append_assoc]
      exact bind_eq_ok_iff.mpr ⟨_, readChunk_append (hf k (by simp)) hk _, rfl⟩
  | @more isFirst k ks hk hks ih =>
      have hf' : ∀ l ∈ ks, Fits l := fun l hl => hf l (by simp [hl])
      obtain ⟨c, t, hc, hn⟩ := keyField_head hks hf'
      have ih := ih hf'
      rw [readField_eq, keyField_cons, List.append_assoc]
      refine bind_eq_ok_iff.mpr ⟨_, readChunk_append (hf k (by simp)) hk _, ?_⟩
      rw [hc, List.cons_append] at ih ⊢
      rw [List.map_cons]
      simp only [if_neg hn, ih, Except.map]

theorem readField_sound {isFirst : Bool} {t rest : Text} {ks : List Chunk}
    (h : readField isFirst t = .ok (ks, rest)) :
    t = keyField ks ++ rest ∧ IsField isFirst ks ∧ ∀ k ∈ ks, IsBare k := by
  fun_induction readField isFirst t generalizing ks rest with
  | case1 => cases h
  | case2 => cases h
  | case3 isFirst t k rest' hk =>
      cases h
      obtain ⟨ht, hb, hx⟩ := readChunk_sound hk
      refine ⟨?_, .last hx, by simpa using hb⟩
      rw [ht, keyField_cons]
      simp [keyField]
  | case4 isFirst t k c rest' hk hc ih =>
      obtain ⟨⟨ls, r⟩, hl, he⟩ := map_eq_ok_iff.mp h
      obtain ⟨rfl, rfl⟩ := Prod.mk.inj he
      obtain ⟨ht, hb, hx⟩ := readChunk_sound hk
      obtain ⟨hr, hf, hbs⟩ := ih hl
      refine ⟨by rw [ht, hr, keyField_cons, List.append_assoc], .more hx hf, ?_⟩
      intro l hl
      rcases List.mem_cons.mp hl with rfl | hl
      · exact hb
      · exact hbs l hl

theorem readSpelling_append {ks : List Chunk} (h : ∀ k ∈ ks, k.zeros ≤ maxDigitRun) (rest : Text) :
    readSpelling (ks.map Chunk.stripped) (keyZeros ks ++ rest) =
      .ok (ks.flatMap Chunk.toText, rest) := by
  induction ks with
  | nil => rfl
  | cons k ks ih =>
      have ih := ih fun l hl => h l (by simp [hl])
      rw [List.map_cons, keyZeros, List.map_cons, List.cons_append, readSpelling, ← keyZeros]
      refine bind_eq_ok_iff.mpr ⟨_, readCount_cons (h k (by simp)) _, ?_⟩
      refine bind_eq_ok_iff.mpr ⟨_, ih, ?_⟩
      rw [← toText_padded, padded_zeros_stripped, List.flatMap_cons]

theorem readSpelling_sound {ks : List Chunk} (hb : ∀ k ∈ ks, IsBare k) {t x rest : Text}
    (h : readSpelling ks t = .ok (x, rest)) :
    ∃ ls : List Chunk, ls.map Chunk.stripped = ks ∧ t = keyZeros ls ++ rest ∧
      x = ls.flatMap Chunk.toText := by
  induction ks generalizing t x rest with
  | nil =>
      cases h
      exact ⟨[], rfl, rfl, rfl⟩
  | cons k ks ih =>
      obtain ⟨⟨n, t₁⟩, hn, h⟩ := bind_eq_ok_iff.mp h
      obtain ⟨⟨y, t₂⟩, hy, h⟩ := bind_eq_ok_iff.mp h
      cases h
      obtain ⟨ls, hls, rfl, rfl⟩ := ih (fun l hl => hb l (by simp [hl])) hy
      have hk := (hb k (by simp)).head
      refine ⟨padded n k :: ls, by rw [List.map_cons, stripped_padded n hk, hls], ?_, ?_⟩
      · rw [(readCount_sound hn).1, keyZeros, keyZeros, List.map_cons, zeros_padded n hk,
          List.cons_append]
      · rw [← toText_padded, List.flatMap_cons]

/-- The key that writes the given chunks in place of those of a version. -/
def cutKey (epoch : Int) (ks ls : List Chunk) : Text :=
  keyField [⟨[], ofInt epoch⟩] ++ keyField ks ++ keyField ls ++ keyZeros (ks ++ ls)

theorem key_eq_cutKey (v : Version) : v.key = cutKey v.epoch (chunks v.release) (chunks v.revision) :=
  rfl

theorem cutKey_eq (epoch : Int) (ks ls : List Chunk) :
    cutKey epoch ks ls = keyChunk ⟨[], ofInt epoch⟩ ++
      '#' :: (keyField ks ++ (keyField ls ++ (keyZeros ks ++ keyZeros ls))) := by
  simp [cutKey, keyField, keyZeros]

theorem IsCut.fits {ks : List Chunk} {t : Text} (h : IsCut ks t) (hc : ∀ c ∈ t, isReleaseChar c = true)
    (hr : ∀ k ∈ chunks t, k.digits.length ≤ maxDigitRun) : ∀ k ∈ ks, Fits k := by
  intro k hk
  refine ⟨fun c hm => ?_, (h.isChunk k hk).digits, ?_⟩
  · have ht : c ∈ t := by
      rw [← h.toText, List.mem_flatMap]
      exact ⟨k, hk, List.mem_append_left _ hm⟩
    simpa [isReleaseChar_eq, (h.isChunk k hk).text c hm] using hc c ht
  · rcases h.digits_mem hk with he | ⟨l, hl, he⟩
    · simp [he]
    · exact he ▸ hr l hl

namespace WellFormed

variable {v : Version} (h : v.WellFormed)

include h

theorem fits_release {ks : List Chunk} (hks : IsCut ks v.release) : ∀ k ∈ ks, Fits k :=
  hks.fits h.release_chars h.release_runs

theorem fits_revision {ls : List Chunk} (hls : IsCut ls v.revision) : ∀ k ∈ ls, Fits k :=
  hls.fits (fun c hc => isReleaseChar_of_isRevisionChar (h.revision_chars c hc)) h.revision_runs

theorem fits_epoch : Fits ⟨[], ofInt v.epoch⟩ := by
  rw [ofInt_of_nonneg h.epoch_nonneg]
  exact ⟨by simp, fun c hc => isDigit_of_mem_ofNat hc, Nat.le_trans h.length_epoch (by decide)⟩

theorem toNat_epoch : (toNat (significant (ofInt v.epoch)) : Int) = v.epoch := by
  rw [toNat_significant, ofInt_of_nonneg h.epoch_nonneg, toNat_ofNat,
    Int.toNat_of_nonneg h.epoch_nonneg]

theorem readParts_cutKey {ks ls : List Chunk} (hks : IsCut ks v.release) (hls : IsCut ls v.revision) :
    readParts (cutKey v.epoch ks ls) = .ok v := by
  have hfk := h.fits_release hks
  have hfl := h.fits_revision hls
  have hz := readSpelling_append (fun l hl => (hfl l hl).zeros_le) []
  rw [List.append_nil] at hz
  rw [cutKey_eq, readParts]
  refine bind_eq_ok_iff.mpr ⟨_, readChunk_append h.fits_epoch (.inl rfl) _, ?_⟩
  refine ite_error_eq_ok_iff.mpr ⟨by simp [Chunk.stripped], ?_⟩
  refine bind_eq_ok_iff.mpr ⟨_, readMark_cons '#' _, ?_⟩
  refine bind_eq_ok_iff.mpr ⟨_, readField_append hks.isField hfk _, ?_⟩
  refine bind_eq_ok_iff.mpr ⟨_, readField_append hls.isField hfl _, ?_⟩
  refine bind_eq_ok_iff.mpr ⟨_, readSpelling_append (fun k hk => (hfk k hk).zeros_le) _, ?_⟩
  refine bind_eq_ok_iff.mpr ⟨_, hz, ?_⟩
  simp only [List.isEmpty_nil, if_true, Chunk.stripped, h.toNat_epoch, hks.toText, hls.toText]

end WellFormed

theorem IsBare.isChunk {k : Chunk} (h : IsBare k.stripped) : IsChunk k := by
  refine ⟨fun c hc => not_isDigit_of_isTextChar (h.text c hc), fun c hc => ?_⟩
  rw [← replicate_zeros_append k] at hc
  rcases List.mem_append.mp hc with hc | hc
  · rw [List.eq_of_mem_replicate hc]
    rfl
  · exact h.digits c hc

theorem isCut_of_isField {ks : List Chunk} (hf : IsField true (ks.map Chunk.stripped))
    (hb : ∀ k ∈ ks.map Chunk.stripped, IsBare k) : IsCut ks (ks.flatMap Chunk.toText) where
  ne_nil := by simpa using hf.ne_nil
  isChunk k hk := (hb _ (List.mem_map_of_mem hk)).isChunk
  text_ne_nil k hk := by
    have hm : k.stripped ∈ (ks.map Chunk.stripped).tail := by
      rw [← List.map_tail]
      exact List.mem_map_of_mem hk
    exact hf.tail_text_ne_nil k.stripped hm
  toText := rfl

theorem keyChunk_stripped (k : Chunk) : keyChunk k.stripped = keyChunk k := by
  rw [keyChunk, Chunk.stripped, significant_eq_self (significant_head? _), keyChunk]

theorem keyField_stripped (ks : List Chunk) : keyField (ks.map Chunk.stripped) = keyField ks := by
  simp only [keyField, List.flatMap_map, keyChunk_stripped]

theorem significant_ofInt_toNat {x : Text} (hx : ∀ c ∈ x, c.isDigit = true) :
    significant (ofInt (toNat x)) = significant x := by
  have hd : ∀ c ∈ ofNat (toNat x), c.isDigit = true := fun c hc => isDigit_of_mem_ofNat hc
  rw [← compareSignificant_eq_eq_iff]
  show compareSignificant (significant (ofNat (toNat x))) (significant x) = .eq
  rw [compareSignificant_eq_compare_toNat hd hx, toNat_ofNat, Nat.compare_eq_eq]

theorem readParts_sound {t : Text} {v : Version} (h : readParts t = .ok v) :
    ∃ ks ls, IsCut ks v.release ∧ IsCut ls v.revision ∧ t = cutKey v.epoch ks ls := by
  obtain ⟨⟨k, t₁⟩, hk, h⟩ := bind_eq_ok_iff.mp h
  obtain ⟨hke, h⟩ := ite_error_eq_ok_iff.mp h
  obtain ⟨⟨u, t₂⟩, hm, h⟩ := bind_eq_ok_iff.mp h
  obtain ⟨⟨rs, t₃⟩, hr, h⟩ := bind_eq_ok_iff.mp h
  obtain ⟨⟨ss, t₄⟩, hs, h⟩ := bind_eq_ok_iff.mp h
  obtain ⟨⟨release, t₅⟩, hrel, h⟩ := bind_eq_ok_iff.mp h
  obtain ⟨⟨revision, t₆⟩, hrev, h⟩ := bind_eq_ok_iff.mp h
  obtain ⟨rfl, hb, -⟩ := readChunk_sound hk
  obtain rfl := readMark_sound hm
  obtain ⟨rfl, hrf, hrb⟩ := readField_sound hr
  obtain ⟨rfl, hsf, hsb⟩ := readField_sound hs
  obtain ⟨ks, rfl, rfl, rfl⟩ := readSpelling_sound hrb hrel
  obtain ⟨ls, rfl, rfl, rfl⟩ := readSpelling_sound hsb hrev
  cases t₆ with
  | cons c t => cases h
  | nil =>
      cases h
      refine ⟨ks, ls, isCut_of_isField hrf hrb, isCut_of_isField hsf hsb, ?_⟩
      have he : keyChunk ⟨[], ofInt (toNat k.digits)⟩ = keyChunk k := by
        have hn : k.text = [] := by simpa using hke
        rw [keyChunk, keyChunk, significant_ofInt_toNat hb.digits, hn]
      rw [cutKey_eq, he, keyField_stripped, keyField_stripped, List.append_nil]

theorem ofKey_eq_ok_iff {t : Text} {v : Version} :
    ofKey t = .ok v ↔ v.WellFormed ∧
      ∃ ks ls, IsCut ks v.release ∧ IsCut ls v.revision ∧ t = cutKey v.epoch ks ls := by
  constructor
  · intro h
    unfold ofKey at h
    split at h
    next => cases h
    next w hw =>
      rw [mapError_eq_ok_iff, confirm] at h
      split at h
      next => cases h
      next u hu =>
        split at h
        next he =>
          cases h
          exact ⟨he ▸ wellFormed_of_parseWith hu, readParts_sound hw⟩
        next => cases h
  · rintro ⟨h, ks, ls, hks, hls, rfl⟩
    rw [ofKey, h.readParts_cutKey hks hls]
    simp only [confirm, parse_render h, if_true, Except.mapError]

end DebianPackaging.Version
