import DebianPackaging.Proofs.Version.Chunk

namespace DebianPackaging.Version.ChunkSearch

open Text

/-- Where a search stands. After an empty match the next one may not be empty. -/
structure State where
  found : List Chunk
  rest : Text
  afterEmpty : Bool
deriving DecidableEq, Repr

def start (t : Text) : State := ⟨[], t, false⟩

def emptyChunk : Chunk := ⟨[], []⟩

def isEmpty (k : Chunk) : Bool := k.text.isEmpty && k.digits.isEmpty

def next? (s : State) : Option State :=
  let k := firstChunk s.rest
  if s.afterEmpty && isEmpty k then none
  else some ⟨s.found ++ [k], pastChunk s.rest, isEmpty k⟩

variable {t : Text} {k : Chunk} {s s' : State}

theorem eq_emptyChunk_of_isEmpty (h : isEmpty k = true) : k = emptyChunk := by
  obtain ⟨x, d⟩ := k
  simpa [isEmpty, emptyChunk] using h

section Step

theorem isEmpty_firstChunk_iff : isEmpty (firstChunk t) = true ↔ t = [] := by
  constructor
  · intro h
    have hp := firstChunk_append_pastChunk t
    rw [eq_emptyChunk_of_isEmpty h] at hp
    refine Classical.byContradiction fun ht => ?_
    have hshorter := pastChunk_length ht
    rw [show pastChunk t = t from hp] at hshorter
    exact Nat.lt_irrefl _ hshorter
  · rintro rfl
    rfl

theorem isEmpty_firstChunk (ht : t ≠ []) : isEmpty (firstChunk t) = false := by
  rwa [← Bool.not_eq_true, isEmpty_firstChunk_iff]

/-- What a search finds next: a chunk as long as there is a rest, and then one empty match. -/
inductive Finds : State → State → Prop
  | chunk {found : List Chunk} {rest : Text} {afterEmpty : Bool} : rest ≠ [] →
      Finds ⟨found, rest, afterEmpty⟩ ⟨found ++ [firstChunk rest], pastChunk rest, false⟩
  | empty {found : List Chunk} : Finds ⟨found, [], false⟩ ⟨found ++ [emptyChunk], [], true⟩

theorem next?_finds (h : next? s = some s') : Finds s s' := by
  obtain ⟨found, rest, afterEmpty⟩ := s
  simp only [next?, Option.ite_none_left_eq_some, Option.some.injEq] at h
  obtain ⟨hempty, rfl⟩ := h
  by_cases hr : rest = []
  · subst hr
    have hafter : afterEmpty = false := by simpa [isEmpty] using hempty
    subst hafter
    exact .empty
  · rw [isEmpty_firstChunk hr]
    exact .chunk hr

theorem of_next?_eq_none (h : next? s = none) : s.afterEmpty = true ∧ s.rest = [] := by
  simpa [next?, isEmpty_firstChunk_iff] using h

def State.size (s : State) : Nat := 2 * s.rest.length + if s.afterEmpty then 0 else 1

theorem next?_size (h : next? s = some s') : s'.size < s.size := by
  cases next?_finds h with
  | empty => simp [State.size]
  | chunk hr =>
      have hshorter := pastChunk_length hr
      simp only [State.size, Bool.false_eq_true, if_false]
      omega

end Step

section Run

def run (s : State) : List Chunk :=
  match _h : next? s with
  | none => s.found
  | some s' => run s'
termination_by s.size
decreasing_by exact next?_size _h

/-- What a search keeps: behind the matches found so far come the chunks of the rest, and then, unless it
has been found, the empty match at the end. -/
structure Tracks (t : Text) (s : State) : Prop where
  ends : s.afterEmpty = true → s.rest = []
  matches_eq : s.found ++ moreChunks s.rest ++ (if s.afterEmpty then [] else [emptyChunk]) =
    moreChunks t ++ [emptyChunk]

theorem tracks_start (t : Text) : Tracks t (start t) := ⟨by simp [start], rfl⟩

theorem Tracks.next (hs : Tracks t s) (h : next? s = some s') : Tracks t s' := by
  obtain ⟨hends, hall⟩ := hs
  cases next?_finds h with
  | empty => exact ⟨fun _ => rfl, by simpa [moreChunks] using hall⟩
  | @chunk found rest afterEmpty hr =>
      -- The empty match stands at the end, so there is no rest behind it.
      have hafter : afterEmpty = false := by
        cases afterEmpty with
        | false => rfl
        | true => exact absurd (hends rfl) hr
      refine ⟨by simp, ?_⟩
      simpa [moreChunks_eq hr, chunks_eq rest, hafter] using hall

theorem run_eq (hs : Tracks t s) : run s = moreChunks t ++ [emptyChunk] := by
  fun_induction run s with
  | case1 s h =>
      obtain ⟨hafter, hrest⟩ := of_next?_eq_none h
      simpa [hafter, hrest, moreChunks] using hs.matches_eq
  | case2 s s' h ih => exact ih (hs.next h)

example : run (start "1.0~") = [⟨[], "1"⟩, ⟨".", "0"⟩, ⟨"~", []⟩, emptyChunk] := by cbv

end Run

/-- The matches that are not empty; where there are none the text is one empty chunk. -/
def search (t : Text) : List Chunk :=
  let found := (run (start t)).filter fun k => !isEmpty k
  if found.isEmpty then [emptyChunk] else found

theorem not_isEmpty_of_mem_moreChunks (hk : k ∈ moreChunks t) : isEmpty k = false := by
  cases t with
  | nil => cases hk
  | cons c t =>
      have htail := (isCut_chunks (c :: t)).text_ne_nil
      rw [moreChunks, chunks_eq] at hk
      rw [chunks_eq, List.tail_cons] at htail
      rcases List.mem_cons.mp hk with rfl | hk
      · exact isEmpty_firstChunk (List.cons_ne_nil c t)
      · simp [isEmpty, htail k hk]

theorem search_eq_chunks (t : Text) : search t = chunks t := by
  have hfound : (run (start t)).filter (fun k => !isEmpty k) = moreChunks t := by
    rw [run_eq (tracks_start t), List.filter_append,
      List.filter_eq_self.mpr fun k hk => by simp [not_isEmpty_of_mem_moreChunks hk]]
    simp [isEmpty, emptyChunk]
  simp only [search, hfound]
  by_cases ht : t = []
  · rw [ht]
    rfl
  · rw [moreChunks_eq ht, if_neg (by simpa using (isCut_chunks t).ne_nil)]

/-- The matches of a search that are not empty are the chunks of the text, and no other list of chunks
cuts the text so that only the first chunk may lack the text and only the last one the digits. -/
theorem chunks_unique (t : Text) :
    search t = chunks t ∧ ∀ ks, ks = chunks t ↔ IsCut ks t ∧ IsTight ks := by
  refine ⟨search_eq_chunks t, fun ks => ⟨?_, fun h => h.1.eq_chunks h.2⟩⟩
  rintro rfl
  exact ⟨isCut_chunks t, isTight_chunks t⟩

end DebianPackaging.Version.ChunkSearch
