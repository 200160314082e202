import Mathlib.Data.List.TakeWhile
import DebianPackaging.Version.Order

namespace DebianPackaging.Version

open Text

def leadingText (t : Text) : Text := t.takeWhile fun c => !c.isDigit

def pastText (t : Text) : Text := t.dropWhile fun c => !c.isDigit

def firstChunk (t : Text) : Chunk := ⟨leadingText t, leadingDigits (pastText t)⟩

def pastChunk (t : Text) : Text := (pastText t).dropWhile Char.isDigit

theorem leadingText_append_pastText (t : Text) : leadingText t ++ pastText t = t :=
  List.takeWhile_append_dropWhile

theorem leadingText_cons {c : Char} (t : Text) (hc : c.isDigit = false) :
    leadingText (c :: t) = c :: leadingText t := by
  simp [leadingText, hc]

theorem pastText_cons {c : Char} (t : Text) (hc : c.isDigit = false) :
    pastText (c :: t) = pastText t := by
  simp [pastText, hc]

theorem leadingText_digit {c : Char} (t : Text) (hc : c.isDigit = true) :
    leadingText (c :: t) = [] := by
  simp [leadingText, hc]

theorem pastText_digit {c : Char} (t : Text) (hc : c.isDigit = true) :
    pastText (c :: t) = c :: t := by
  simp [pastText, hc]

theorem not_isDigit_of_mem_leadingText {c : Char} {t : Text} (hc : c ∈ leadingText t) :
    c.isDigit = false := by
  have h := List.all_takeWhile (p := fun c : Char => !c.isDigit) (l := t)
  simpa using List.all_eq_true.mp h c hc

theorem isDigit_of_mem_leadingDigits {c : Char} {t : Text} (hc : c ∈ leadingDigits t) :
    c.isDigit = true :=
  List.all_eq_true.mp (List.all_takeWhile (p := Char.isDigit) (l := t)) c hc

theorem firstChunk_append_pastChunk (t : Text) : (firstChunk t).toText ++ pastChunk t = t := by
  simp only [firstChunk, pastChunk, Chunk.toText, leadingDigits, List.append_assoc,
    List.takeWhile_append_dropWhile, leadingText_append_pastText]

theorem pastChunk_head {t r : Text} {c : Char} (h : pastChunk t = c :: r) : c.isDigit = false := by
  have hn := List.head?_dropWhile_not Char.isDigit (pastText t)
  rw [← pastChunk, h] at hn
  exact hn

theorem pastChunk_length {t : Text} (ht : t ≠ []) : (pastChunk t).length < t.length := by
  cases t with
  | nil => exact absurd rfl ht
  | cons c t =>
      by_cases hc : c.isDigit
      · rw [pastChunk, pastText_digit t hc]
        exact length_dropWhile_lt (by simpa using hc) (by simp)
      · have h := List.length_dropWhile_le (fun c => !c.isDigit) t
        have h' := List.length_dropWhile_le Char.isDigit (pastText t)
        rw [pastChunk, pastText_cons t (by simpa using hc), List.length_cons]
        rw [pastText] at h' ⊢
        omega

@[simp] theorem firstChunk_nil : firstChunk [] = ⟨[], []⟩ := rfl

@[simp] theorem pastChunk_nil : pastChunk [] = [] := rfl

theorem pastChunk_length_le (t : Text) : (pastChunk t).length ≤ t.length := by
  cases t with
  | nil => simp
  | cons c t => exact Nat.le_of_lt (pastChunk_length (by simp))

/-- Induction over the chunks of two texts at once, the exhausted one padded with empty chunks. -/
theorem chunk_induction {motive : Text → Text → Prop}
    (step : ∀ a b, (pastChunk a ≠ [] ∨ pastChunk b ≠ [] → motive (pastChunk a) (pastChunk b)) →
      motive a b) (a b : Text) : motive a b := by
  induction hn : a.length + b.length using Nat.strongRecOn generalizing a b with
  | ind n ih =>
      refine step a b fun h => ih _ ?_ _ _ rfl
      have ha := pastChunk_length_le a
      have hb := pastChunk_length_le b
      rcases h with h | h
      · have := pastChunk_length (t := a) fun he => h (by rw [he, pastChunk_nil])
        omega
      · have := pastChunk_length (t := b) fun he => h (by rw [he, pastChunk_nil])
        omega

theorem chunk_induction_single {motive : Text → Prop}
    (step : ∀ t, (pastChunk t ≠ [] → motive (pastChunk t)) → motive t) (t : Text) : motive t :=
  chunk_induction (motive := fun t _ => motive t) (fun t _ ih => step t fun h => ih (.inl h)) t t

def moreChunks : Text → List Chunk
  | [] => []
  | c :: t => chunks (c :: t)

theorem moreChunks_eq {t : Text} (ht : t ≠ []) : moreChunks t = chunks t := by
  cases t with
  | nil => exact absurd rfl ht
  | cons c t => rfl

theorem chunks_eq (t : Text) : chunks t = firstChunk t :: moreChunks (pastChunk t) := by
  induction t with
  | nil => rfl
  | cons c t ih =>
      by_cases hc : c.isDigit
      · cases t with
        | nil =>
            simp [chunks, Chunk.push, firstChunk, pastChunk, leadingText, pastText, leadingDigits,
              moreChunks, hc]
        | cons d t =>
            by_cases hd : d.isDigit
            · rw [chunks_cons, ih]
              simp [Chunk.push, firstChunk, pastChunk, leadingText, pastText, leadingDigits, hc, hd]
            · have hp : pastChunk (c :: d :: t) = d :: t := by simp [pastChunk, pastText, hc, hd]
              have hf : firstChunk (c :: d :: t) = ⟨[], [c]⟩ := by
                simp [firstChunk, leadingText, pastText, leadingDigits, hc, hd]
              have ht : (firstChunk (d :: t)).text.isEmpty = false := by
                simp [firstChunk, leadingText, hd]
              rw [hp, hf, moreChunks, chunks_cons, ih]
              simp [Chunk.push, hc, ht]
      · have hf : c.isDigit = false := by simpa using hc
        rw [chunks_cons, ih]
        simp [Chunk.push, firstChunk, pastChunk, leadingText_cons t hf, pastText_cons t hf, hf]

structure IsChunk (k : Chunk) : Prop where
  text : ∀ c ∈ k.text, c.isDigit = false
  digits : ∀ c ∈ k.digits, c.isDigit = true

/-- A way to write a text as chunks. Only the first of them may lack the text. -/
structure IsCut (ks : List Chunk) (t : Text) : Prop where
  ne_nil : ks ≠ []
  isChunk : ∀ k ∈ ks, IsChunk k
  text_ne_nil : ∀ k ∈ ks.tail, k.text ≠ []
  toText : ks.flatMap Chunk.toText = t

/-- Only the last chunk may lack the digits. -/
def IsTight (ks : List Chunk) : Prop := ∀ k ∈ ks.dropLast, k.digits ≠ []

theorem isChunk_firstChunk (t : Text) : IsChunk (firstChunk t) :=
  ⟨fun _ hc => not_isDigit_of_mem_leadingText hc, fun _ hc => isDigit_of_mem_leadingDigits hc⟩

theorem firstChunk_text_ne_nil {c : Char} {t : Text} (hc : c.isDigit = false) :
    (firstChunk (c :: t)).text ≠ [] := by
  simp [firstChunk, leadingText_cons t hc]

theorem firstChunk_digits_ne_nil {t : Text} (ht : pastChunk t ≠ []) : (firstChunk t).digits ≠ [] := by
  intro hd
  have hp : pastChunk t = pastText t := by
    have h := List.takeWhile_append_dropWhile (p := Char.isDigit) (l := pastText t)
    rw [← leadingDigits, show leadingDigits (pastText t) = [] from hd] at h
    exact h
  cases he : pastText t with
  | nil => exact ht (hp.trans he)
  | cons c r =>
      have hn := pastChunk_head (hp.trans he)
      have h := List.head?_dropWhile_not (fun c : Char => !c.isDigit) t
      rw [← pastText, he] at h
      simp [hn] at h

theorem isCut_chunks (t : Text) : IsCut (chunks t) t := by
  induction t using chunk_induction_single with
  | step a ih =>
      have hf := firstChunk_append_pastChunk a
      rw [chunks_eq]
      cases hp : pastChunk a with
      | nil =>
          rw [hp] at hf
          exact ⟨by simp, by simpa [moreChunks] using isChunk_firstChunk a, by simp [moreChunks],
            by simpa [moreChunks] using hf⟩
      | cons c r =>
          have hr := ih (by simp [hp])
          rw [hp] at hr hf
          refine ⟨by simp, ?_, ?_, ?_⟩
          · rintro k (_ | ⟨_, hk⟩)
            · exact isChunk_firstChunk a
            · exact hr.isChunk k hk
          · intro k hk
            have hc := pastChunk_head hp
            rw [moreChunks, List.tail_cons, chunks_eq] at hk
            rcases List.mem_cons.mp hk with rfl | hk
            · exact firstChunk_text_ne_nil hc
            · refine hr.text_ne_nil k ?_
              rwa [chunks_eq, List.tail_cons]
          · rw [moreChunks, List.flatMap_cons, hr.toText, hf]

theorem isTight_chunks (t : Text) : IsTight (chunks t) := by
  induction t using chunk_induction_single with
  | step a ih =>
      rw [chunks_eq]
      cases hp : pastChunk a with
      | nil => simp [IsTight, moreChunks]
      | cons c r =>
          have hr := ih (by simp [hp])
          rw [hp] at hr
          intro k hk
          rw [moreChunks, List.dropLast_cons_of_ne_nil (isCut_chunks _).ne_nil] at hk
          rcases List.mem_cons.mp hk with rfl | hk
          · exact firstChunk_digits_ne_nil (by simp [hp])
          · exact hr k hk

theorem pastText_append {x r : Text} (hx : ∀ c ∈ x, c.isDigit = false) :
    leadingText (x ++ r) = x ++ leadingText r ∧ pastText (x ++ r) = pastText r := by
  induction x with
  | nil => exact ⟨rfl, rfl⟩
  | cons c x ih =>
      obtain ⟨hl, hp⟩ := ih fun d hd => hx d (by simp [hd])
      have hc := hx c (by simp)
      exact ⟨by simp [leadingText_cons _ hc, hl], by simpa [pastText_cons _ hc] using hp⟩

theorem leadingDigits_append {x r : Text} (hx : ∀ c ∈ x, c.isDigit = true)
    (hr : ∀ c ∈ r.head?, c.isDigit = false) :
    leadingDigits (x ++ r) = x ∧ (x ++ r).dropWhile Char.isDigit = r := by
  have hn : leadingDigits r = [] ∧ r.dropWhile Char.isDigit = r := by
    cases r with
    | nil => exact ⟨rfl, rfl⟩
    | cons c r => simp [leadingDigits, hr c rfl]
  exact ⟨by rw [leadingDigits, List.takeWhile_append_of_pos hx, ← leadingDigits, hn.1, List.append_nil],
    by rw [List.dropWhile_append_of_pos hx, hn.2]⟩

/-- A chunk in front is the first one, unless its text would run on for want of digits. -/
theorem firstChunk_append {k : Chunk} {r : Text} (hk : IsChunk k)
    (hr : ∀ c ∈ r.head?, c.isDigit = false) (hd : k.digits = [] → r = []) :
    firstChunk (k.toText ++ r) = k ∧ pastChunk (k.toText ++ r) = r := by
  have hs : leadingText (k.digits ++ r) = [] ∧ pastText (k.digits ++ r) = k.digits ++ r := by
    cases h : k.digits with
    | nil => simp [hd h, leadingText, pastText]
    | cons c x =>
        have hc := hk.digits c (by simp [h])
        exact ⟨leadingText_digit _ hc, pastText_digit _ hc⟩
  obtain ⟨hl, hp⟩ := pastText_append (r := k.digits ++ r) hk.text
  obtain ⟨hld, hpd⟩ := leadingDigits_append hk.digits hr
  rw [hs.1, List.append_nil] at hl
  rw [hs.2] at hp
  simp only [firstChunk, pastChunk, Chunk.toText, List.append_assoc, hl, hp, hld, hpd, and_self]

theorem chunks_append {k : Chunk} {r : Text} (hk : IsChunk k)
    (hr : ∀ c ∈ r.head?, c.isDigit = false) (hd : k.digits = [] → r = []) :
    chunks (k.toText ++ r) = k :: moreChunks r := by
  obtain ⟨hf, hp⟩ := firstChunk_append hk hr hd
  rw [chunks_eq, hf, hp]

theorem IsCut.tail {k : Chunk} {ks : List Chunk} {t : Text} (h : IsCut (k :: ks) t) (hks : ks ≠ []) :
    IsCut ks (ks.flatMap Chunk.toText) where
  ne_nil := hks
  isChunk l hl := h.isChunk l (by simp [hl])
  text_ne_nil l hl := h.text_ne_nil l (List.mem_of_mem_tail hl)
  toText := rfl

theorem IsCut.head_tail {k : Chunk} {ks : List Chunk} {t : Text} (h : IsCut (k :: ks) t) :
    ∀ c ∈ (ks.flatMap Chunk.toText).head?, c.isDigit = false := by
  cases ks with
  | nil => simp
  | cons l ks =>
      cases hl : l.text with
      | nil => exact absurd hl (h.text_ne_nil l (by simp))
      | cons c x =>
          have hc := (h.isChunk l (by simp)).text c (by simp [hl])
          simp [Chunk.toText, hl, hc]

theorem IsCut.tail_ne_nil {k : Chunk} {ks : List Chunk} {t : Text} (h : IsCut (k :: ks) t)
    (hks : ks ≠ []) : ks.flatMap Chunk.toText ≠ [] := by
  cases ks with
  | nil => exact absurd rfl hks
  | cons l ks =>
      have hl := h.text_ne_nil l (by simp)
      simp [Chunk.toText, hl]

theorem chunks_text_append {x : Text} (hx : ∀ c ∈ x, c.isDigit = false) (r : Text) :
    chunks (x ++ r) = ⟨x ++ (firstChunk r).text, (firstChunk r).digits⟩ :: moreChunks (pastChunk r) := by
  obtain ⟨hl, hp⟩ := pastText_append (r := r) hx
  rw [chunks_eq]
  simp only [firstChunk, pastChunk, hl, hp]

/-- The first chunk of a cut is the first one of the text, unless for want of digits its text runs on
into the next chunk. -/
theorem IsCut.chunks_cases {k : Chunk} {ks : List Chunk} {t : Text} (h : IsCut (k :: ks) t) :
    chunks t = k :: moreChunks (ks.flatMap Chunk.toText) ∨
      k.digits = [] ∧ ks ≠ [] ∧ ∃ l ls, chunks (ks.flatMap Chunk.toText) = l :: ls ∧
        chunks t = ⟨k.text ++ l.text, l.digits⟩ :: ls := by
  have hk := h.isChunk k (by simp)
  have ht := h.toText
  rw [List.flatMap_cons] at ht
  by_cases hd : k.digits = [] → ks.flatMap Chunk.toText = []
  · left
    rw [← ht, chunks_append hk h.head_tail hd]
  · obtain ⟨hd, hne⟩ := Classical.not_imp.mp hd
    refine .inr ⟨hd, ?_, _, _, chunks_eq _, ?_⟩
    · rintro rfl
      exact hne rfl
    · rw [← ht, Chunk.toText, hd, List.append_nil, chunks_text_append hk.text]

/-- There is one tight cut of a text. -/
theorem IsCut.eq_chunks {ks : List Chunk} {t : Text} (h : IsCut ks t) (ht : IsTight ks) :
    ks = chunks t := by
  induction ks generalizing t with
  | nil => exact absurd rfl h.ne_nil
  | cons k ks ih =>
      rcases h.chunks_cases with hc | ⟨hd, hks, -⟩
      · rw [hc]
        cases ks with
        | nil => rfl
        | cons l ks =>
            have hs := ih (h.tail (by simp)) fun m hm => ht m (by simp [List.dropLast, hm])
            rw [moreChunks_eq (h.tail_ne_nil (by simp)), ← hs]
      · exact absurd hd (ht k (by simp [List.dropLast_cons_of_ne_nil hks]))

/-- A cut has no runs of digits but those of the text. -/
theorem IsCut.digits_mem {ks : List Chunk} {t : Text} (h : IsCut ks t) {k : Chunk} (hk : k ∈ ks) :
    k.digits = [] ∨ ∃ l ∈ chunks t, l.digits = k.digits := by
  induction ks generalizing t with
  | nil => cases hk
  | cons m ks ih =>
      rcases h.chunks_cases with hc | ⟨hd, -, l, ls, hl, hc⟩
      · rw [hc]
        rcases List.mem_cons.mp hk with rfl | hk
        · exact .inr ⟨k, by simp, rfl⟩
        · have hs := h.tail (List.ne_nil_of_mem hk)
          rcases ih hs hk with he | ⟨l, hl, he⟩
          · exact .inl he
          · refine .inr ⟨l, ?_, he⟩
            rw [moreChunks_eq (h.tail_ne_nil (List.ne_nil_of_mem hk))]
            exact List.mem_cons_of_mem _ hl
      · rcases List.mem_cons.mp hk with rfl | hk
        · exact .inl hd
        · rcases ih (h.tail (List.ne_nil_of_mem hk)) hk with he | ⟨n, hn, he⟩
          · exact .inl he
          · right
            rw [hc]
            rw [hl] at hn
            rcases List.mem_cons.mp hn with rfl | hn
            · exact ⟨_, List.mem_cons_self, he⟩
            · exact ⟨n, List.mem_cons_of_mem _ hn, he⟩

end DebianPackaging.Version
