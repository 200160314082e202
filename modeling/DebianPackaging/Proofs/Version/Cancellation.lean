import DebianPackaging.Proofs.Version.Order

namespace DebianPackaging.Version

open Text

variable {s t u x : Text} {c : Char} {k : Chunk}

def NoDigitFirst (t : Text) : Prop := ∀ c ∈ t.head?, c.isDigit = false

def NoDigitLast (t : Text) : Prop := ∀ c ∈ t.getLast?, c.isDigit = false

theorem noDigitFirst_nil : NoDigitFirst [] := by simp [NoDigitFirst]

theorem noDigitFirst_cons (hc : c.isDigit = false) (t : Text) : NoDigitFirst (c :: t) := by
  simpa [NoDigitFirst] using hc

theorem noDigitFirst_pastChunk_append (hne : pastChunk s ≠ []) (t : Text) :
    NoDigitFirst (pastChunk s ++ t) := by
  obtain ⟨c, r, hr⟩ := List.exists_cons_of_ne_nil hne
  rw [hr]
  exact noDigitFirst_cons (pastChunk_head hr) (r ++ t)

/-- No number goes on from `s` into `t` or into `u`. -/
def CutsNoNumber (s t u : Text) : Prop :=
  NoDigitLast s ∨ NoDigitFirst t ∧ NoDigitFirst u

theorem CutsNoNumber.suffix (h : CutsNoNumber (x ++ s) t u) (hne : s ≠ []) : CutsNoNumber s t u := by
  rwa [CutsNoNumber, NoDigitLast, List.getLast?_append_of_ne_nil x hne] at h

theorem comparePart_cons_cons (hc : c.isDigit = false) (t u : Text) :
    comparePart (c :: t) (c :: u) = comparePart t u := by
  rw [comparePart_eq (c :: t), comparePart_eq t]
  simp only [compareChunk, firstChunk, pastChunk, leadingText_cons _ hc, pastText_cons _ hc,
    runWeights_cons, List.compare_cons_cons, Std.ReflCmp.compare_self, Ordering.eq_then]

theorem comparePart_text_append (hx : ∀ c ∈ x, c.isDigit = false) (t u : Text) :
    comparePart (x ++ t) (x ++ u) = comparePart t u := by
  induction x with
  | nil => rfl
  | cons c x ih =>
      rw [List.cons_append, List.cons_append, comparePart_cons_cons (hx c List.mem_cons_self)]
      exact ih fun d hd => hx d (List.mem_cons_of_mem c hd)

/-- A pass over a chunk with a number leaves what stands behind it. -/
theorem comparePart_chunk_append (hk : IsChunk k) (hd : k.digits ≠ []) (ht : NoDigitFirst t)
    (hu : NoDigitFirst u) : comparePart (k.toText ++ t) (k.toText ++ u) = comparePart t u := by
  obtain ⟨hft, hpt⟩ := firstChunk_append hk ht fun h => absurd h hd
  obtain ⟨hfu, hpu⟩ := firstChunk_append hk hu fun h => absurd h hd
  rw [comparePart_eq, hft, hfu, hpt, hpu, (compareChunk_eq_eq_iff hk hk).mpr rfl, Ordering.eq_then]

theorem CutsNoNumber.of_digits (hk : IsChunk k) (hd : k.digits ≠ [])
    (h : CutsNoNumber k.toText t u) : NoDigitFirst t ∧ NoDigitFirst u := by
  obtain ⟨digits, c, hc⟩ := (List.eq_nil_or_concat' k.digits).resolve_left hd
  refine h.resolve_left fun hl => ?_
  have hlast : c ∈ k.toText.getLast? := by
    rw [Chunk.toText, hc, ← List.append_assoc]
    exact List.getLast?_concat
  have hdigit := hk.digits c (by simp [hc])
  rw [hl c hlast] at hdigit
  cases hdigit

/-- What a whole prefix leaves, by induction on its chunks. -/
theorem comparePart_append_append (h : CutsNoNumber s t u) :
    comparePart (s ++ t) (s ++ u) = comparePart t u := by
  induction s using chunk_induction_single with
  | step s ih =>
      have hk := isChunk_firstChunk s
      have hs := firstChunk_append_pastChunk s
      rw [← hs] at h ⊢
      by_cases hp : pastChunk s = []
      · rw [hp, List.append_nil] at h ⊢
        by_cases hd : (firstChunk s).digits = []
        -- The prefix ends in a run of non-digits, which may go on in `t` and `u`.
        · rw [Chunk.toText, hd, List.append_nil]
          exact comparePart_text_append hk.text t u
        · obtain ⟨ht, hu⟩ := h.of_digits hk hd
          exact comparePart_chunk_append hk hd ht hu
      · have hd := firstChunk_digits_ne_nil hp
        have hfirst := noDigitFirst_pastChunk_append hp
        rw [List.append_assoc, List.append_assoc,
          comparePart_chunk_append hk hd (hfirst t) (hfirst u)]
        exact ih hp (h.suffix hp)

theorem weight_pos (hc : c.isDigit = false) (ht : c ≠ '~') : 0 < weight c := by
  rcases weight_cases hc with ⟨rfl, -⟩ | ⟨h, hl, -⟩ | h
  · exact absurd rfl ht
  · omega
  · omega

/-- A prefix that cuts no number cancels. A tilde behind a text makes it smaller, any other non-digit
greater. -/
theorem comparePart_append_left (s t u : Text) :
    (CutsNoNumber s t u → comparePart (s ++ t) (s ++ u) = comparePart t u) ∧
    comparePart (s ++ '~' :: t) s = .lt ∧
    ∀ c, c.isDigit = false → c ≠ '~' → comparePart (s ++ c :: t) s = .gt := by
  have hbehind : ∀ c, c.isDigit = false → comparePart (s ++ c :: t) s = compare (weight c) 0 := by
    intro c hc
    have h := comparePart_append_append (s := s) (.inr ⟨noDigitFirst_cons hc t, noDigitFirst_nil⟩)
    rwa [List.append_nil, comparePart_cons_nil hc] at h
  refine ⟨comparePart_append_append, ?_, fun c hc ht => ?_⟩
  · rw [hbehind '~' (by decide)]
    rfl
  · rw [hbehind c hc]
    exact Std.compare_eq_gt.mpr (weight_pos hc ht)

/-- Behind a digit a zero counts, although it does not by itself. -/
example : comparePart "0" "" = .eq ∧ comparePart "10" "1" = .gt := by cbv

theorem comparePart_append_left_prerelease :
    CutsNoNumber "1.09" "~1" "+1" ∧
      comparePart "1.09~1" "1.09+1" = comparePart "~1" "+1" ∧
      comparePart "1.09~1" "1.09" = .lt ∧ comparePart "1.09+1" "1.09" = .gt := by
  have hcuts : CutsNoNumber "1.09" "~1" "+1" :=
    .inr ⟨noDigitFirst_cons (by decide) _, noDigitFirst_cons (by decide) _⟩
  have hcancel := (comparePart_append_left "1.09" "~1" "+1").1 hcuts
  obtain ⟨-, hsmaller, hgreater⟩ := comparePart_append_left "1.09" "1" []
  exact ⟨hcuts, hcancel, hsmaller, hgreater '+' (by decide) (by decide)⟩

end DebianPackaging.Version
