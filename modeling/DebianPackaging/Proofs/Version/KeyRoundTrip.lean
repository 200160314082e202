import DebianPackaging.Proofs.Version.KeyReading

namespace DebianPackaging.Version

open Text

theorem countChar_injective {m n : Nat} (hm : m ≤ maxDigitRun) (hn : n ≤ maxDigitRun)
    (h : countChar m = countChar n) : m = n := by
  have hc := congrArg Char.toNat h
  rw [toNat_countChar m hm, toNat_countChar n hn] at hc
  exact Nat.add_left_cancel hc

theorem keyField_append_inj {ks ls : List Chunk} (hk : IsField true ks) (hl : IsField true ls)
    (hfk : ∀ k ∈ ks, Fits k) (hfl : ∀ l ∈ ls, Fits l) {s t : Text}
    (h : keyField ks ++ s = keyField ls ++ t) :
    ks.map Chunk.stripped = ls.map Chunk.stripped ∧ s = t := by
  have hr := readField_append hk hfk s
  rw [h, readField_append hl hfl t] at hr
  obtain ⟨hm, ht⟩ := Prod.mk.inj (Except.ok.inj hr)
  exact ⟨hm.symm, ht.symm⟩

theorem eq_of_keyZeros_eq {ks ls : List Chunk} (hfk : ∀ k ∈ ks, Fits k) (hfl : ∀ l ∈ ls, Fits l)
    (hs : ks.map Chunk.stripped = ls.map Chunk.stripped) (hz : keyZeros ks = keyZeros ls) : ks = ls := by
  induction ks generalizing ls with
  | nil => simpa using hs.symm
  | cons k ks ih =>
      cases ls with
      | nil => simp at hs
      | cons l ls =>
          obtain ⟨hsk, hss⟩ := List.cons.inj hs
          obtain ⟨hzk, hzs⟩ := List.cons.inj hz
          have hn := countChar_injective (hfk k (by simp)).zeros_le (hfl l (by simp)).zeros_le hzk
          have hkl : k = l := by
            rw [← padded_zeros_stripped k, ← padded_zeros_stripped l, hsk, hn]
          rw [hkl, ih (fun m hm => hfk m (by simp [hm])) (fun m hm => hfl m (by simp [hm])) hss hzs]

theorem cutKey_injective {v : Version} (h : v.WellFormed) {ks ls ks' ls' : List Chunk}
    (hks : IsCut ks v.release) (hls : IsCut ls v.revision)
    (hks' : IsCut ks' v.release) (hls' : IsCut ls' v.revision)
    (he : cutKey v.epoch ks ls = cutKey v.epoch ks' ls') : ks = ks' ∧ ls = ls' := by
  have hfk := h.fits_release hks
  have hfl := h.fits_revision hls
  have hfk' := h.fits_release hks'
  have hfl' := h.fits_revision hls'
  simp only [cutKey, List.append_assoc] at he
  obtain ⟨hk, he⟩ := keyField_append_inj hks.isField hks'.isField hfk hfk' (List.append_cancel_left he)
  obtain ⟨hl, he⟩ := keyField_append_inj hls.isField hls'.isField hfl hfl' he
  have ha : ks ++ ls = ks' ++ ls' := by
    refine eq_of_keyZeros_eq ?_ ?_ (by rw [List.map_append, List.map_append, hk, hl]) he
    · exact List.forall_mem_append.mpr ⟨hfk, hfl⟩
    · exact List.forall_mem_append.mpr ⟨hfk', hfl'⟩
  exact List.append_inj ha (by simpa using congrArg List.length hk)

theorem key_eq_cutKey_iff {v : Version} (h : v.WellFormed) {ks ls : List Chunk}
    (hks : IsCut ks v.release) (hls : IsCut ls v.revision) :
    v.key = cutKey v.epoch ks ls ↔ IsTight ks ∧ IsTight ls := by
  constructor
  · intro he
    obtain ⟨rfl, rfl⟩ := cutKey_injective h (isCut_chunks _) (isCut_chunks _) hks hls he
    exact ⟨isTight_chunks _, isTight_chunks _⟩
  · rintro ⟨hk, hl⟩
    rw [key_eq_cutKey, hks.eq_chunks hk, hls.eq_chunks hl]

theorem WellFormed.ofKey_eq_ok {v : Version} (h : v.WellFormed) : ofKey v.key = .ok v :=
  ofKey_eq_ok_iff.mpr ⟨h, _, _, isCut_chunks _, isCut_chunks _, key_eq_cutKey v⟩

/-- Every version that can be read is read back from its key, as it was spelled. -/
theorem ofKey_key {v : Version} (h : v.Readable) : ofKey v.key = .ok v := by
  rw [readable_iff] at h
  exact h.ofKey_eq_ok

theorem ofKey_key_leadingZeros :
    Readable ⟨1, "2.010".toList, "0".toList⟩ ∧
      ofKey (key ⟨1, "2.010".toList, "0".toList⟩) = .ok ⟨1, "2.010".toList, "0".toList⟩ := by
  have h : Readable ⟨1, "2.010".toList, "0".toList⟩ := ⟨false, "1:2.010-0".toList, rfl⟩
  exact ⟨h, ofKey_key h⟩

/-- A text is read as a version when it writes any cuts of the release and of the revision. It is the
key of that version, and the key of a version at all, only when the cuts are tight. -/
theorem ofKey_reads_cuts (text : Text) (v : Version) :
    (ofKey text = .ok v ↔
      v.Readable ∧ ∃ ks ls, IsCut ks v.release ∧ IsCut ls v.revision ∧ text = cutKey v.epoch ks ls) ∧
    (v.Readable → ∀ ks ls, IsCut ks v.release → IsCut ls v.revision → text = cutKey v.epoch ks ls →
      (v.key = text ↔ IsTight ks ∧ IsTight ls)) ∧
    (ofKey text = .ok v → ((∃ w : Version, w.Readable ∧ w.key = text) ↔ v.key = text)) := by
  simp only [readable_iff]
  refine ⟨ofKey_eq_ok_iff, ?_, ?_⟩
  · rintro h ks ls hks hls rfl
    exact key_eq_cutKey_iff h hks hls
  · intro h
    constructor
    · rintro ⟨w, hw, rfl⟩
      have he : Except.ok w = Except.ok v := hw.ofKey_eq_ok.symm.trans h
      rw [Except.ok.inj he]
    · intro he
      exact ⟨v, (ofKey_eq_ok_iff.mp h).1, he⟩

/-- The release `ab` cut in two: read all the same, and not a key. -/
theorem ofKey_reads_loose_cut :
    ofKey "%a#a%ab%a#%a#aaa".toList = .ok ⟨0, "ab".toList, []⟩ ∧
      key ⟨0, "ab".toList, []⟩ ≠ "%a#a%ab%a#%a#aaa".toList :=
  ⟨by cbv, by decide⟩

end DebianPackaging.Version
