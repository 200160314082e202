import DebianPackaging.Proofs.Dependency.RoundTrip
import DebianPackaging.Proofs.Text.Lines
import DebianPackaging.Proofs.Text.Trim
import DebianPackaging.Record.Value

namespace DebianPackaging

open Text Outcome

variable {kind : FieldKind} {v : FieldValue} {t u : Text} {ts : List Text}

structure IsItem (t : Text) : Prop where
  ne_nil : t ≠ []
  trimmed : trim t = t
  comma_not_mem : ',' ∉ t

theorem isItem_of_mem_parseItems (h : t ∈ parseItems u) : IsItem t := by
  obtain ⟨ht, hne⟩ := List.mem_filter.mp h
  obtain ⟨piece, hpiece, rfl⟩ := List.mem_map.mp ht
  refine ⟨by simpa using hne, trim_trim piece, fun hm => ?_⟩
  exact not_mem_of_mem_splitOn hpiece (mem_of_mem_trim hm)

theorem parseItems_join (h : ∀ t ∈ ts, IsItem t) : parseItems (join ", " ts) = ts := by
  cases ts with
  | nil => rfl
  | cons t ts =>
      obtain ⟨ht, hts⟩ := List.forall_mem_cons.mp h
      have hnone : isBlankText [] = true := rfl
      have hspace : isBlankText [' '] = true := by decide
      have hsplit := map_trim_splitOn_join hnone hspace (by decide) (by decide) ht.comma_not_mem
        fun u hu => (hts u hu).comma_not_mem
      have htrim : (t :: ts).map trim = t :: ts :=
        (List.map_congr_left fun u hu => (h u hu).trimmed).trans (List.map_id _)
      have hne : ∀ u ∈ t :: ts, (!u.isEmpty) = true := fun u hu => by simpa using (h u hu).ne_nil
      rw [htrim] at hsplit
      exact (congrArg _ hsplit).trans (List.filter_eq_self.mpr hne)

structure IsValueLine (t : Text) : Prop where
  ne_nil : t ≠ []
  trimmed : trim t = t
  chars : ∀ c ∈ t, isLineEnd c = false

theorem isValueLine_of_mem_parseLines (h : t ∈ parseLines u) : IsValueLine t := by
  obtain ⟨ht, hne⟩ := List.mem_filter.mp h
  obtain ⟨l, hl, rfl⟩ := List.mem_map.mp ht
  exact ⟨by simpa using hne, trim_trim l, fun c hc => (mem_lines hl c (mem_of_mem_trim hc)).1⟩

theorem parseLines_join (h : ∀ t ∈ ts, IsValueLine t) : parseLines (join "\n" ts) = ts := by
  have htrim : ts.map trim = ts :=
    (List.map_congr_left fun t ht => (h t ht).trimmed).trans (List.map_id _)
  have hne : ∀ t ∈ ts, (!t.isEmpty) = true := fun t ht => by simpa using (h t ht).ne_nil
  rw [parseLines, lines_join fun t ht => ⟨(h t ht).ne_nil, (h t ht).chars⟩, htrim]
  exact List.filter_eq_self.mpr hne

section Architectures

variable {as : List Architecture}

theorem plain_of_parseList (h : Architecture.parseList t = .ok as) : ∀ a ∈ as, a.Plain := by
  intro a ha
  obtain ⟨word, hw, hp⟩ := exists_of_mem_mapM h a ha
  exact Architecture.plain_of_parse hp fun c hc => ((mem_words hw).2 c hc).1

theorem isBlank_of_mem_render {a : Architecture} (h : a.Plain) :
    ∀ c ∈ a.render, isBlank c = false := by
  intro c hc
  rcases h.mem_render c hc with hp | rfl
  · have hn := Architecture.isPartChar_toNat hp
    exact isBlank_of_toNat ⟨hn.1, hn.2.1⟩
  · decide

theorem parseList_join (h : ∀ a ∈ as, a.Plain) :
    Architecture.parseList (join " " (as.map Architecture.render)) = .ok as := by
  have hwords : ∀ w ∈ as.map Architecture.render, w ≠ [] ∧ ∀ c ∈ w, isBlank c = false := by
    rw [List.forall_mem_map]
    exact fun a ha => ⟨(h a ha).render_ne_nil, isBlank_of_mem_render (h a ha)⟩
  rw [Architecture.parseList, words_join hwords, mapM_eq_ok_iff, List.forall₂_map_left_iff,
    List.forall₂_same]
  exact fun a ha => (h a ha).parse_render

end Architectures

def FieldKind.readLayout : FieldKind → Layout
  | .architectures => .words
  | kind => kind.layout

theorem parse_eq_ok_iff {α ε : Type} {x : Except ε α} {f : α → FieldValue} {g : ε → ValueError} :
    (x.map f |>.mapError g) = .ok v ↔ ∃ a, x = .ok a ∧ f a = v := by
  rw [mapError_eq_ok_iff, map_eq_ok_iff]

/-- What was read is laid out so that it is read again. -/
theorem FieldKind.parse_render (h : kind.parse t = .ok v) :
    kind.parse (kind.readLayout.render v) = .ok v := by
  cases kind with
  | text =>
      cases h
      rfl
  | items =>
      cases h
      have hj : parseItems (join ", " (parseItems t)) = parseItems t :=
        parseItems_join fun u hu => isItem_of_mem_parseItems hu
      exact congrArg (fun ts => Except.ok (FieldValue.items ts)) hj
  | flag =>
      obtain ⟨b, -, rfl⟩ := map_eq_ok_iff.mp h
      cases b <;> cbv
  | lines =>
      cases h
      have hj : parseLines (join "\n" (parseLines t)) = parseLines t :=
        parseLines_join fun u hu => isValueLine_of_mem_parseLines hu
      exact congrArg (fun ts => Except.ok (FieldValue.items ts)) hj
  | version =>
      obtain ⟨version, hv, rfl⟩ := parse_eq_ok_iff.mp h
      have hw := Version.wellFormed_of_parseWith hv
      exact parse_eq_ok_iff.mpr ⟨version, Version.parse_render hw, rfl⟩
  | dependency =>
      obtain ⟨d, hd, rfl⟩ := parse_eq_ok_iff.mp h
      have hw := Dependency.wellFormed_of_parse hd
      exact parse_eq_ok_iff.mpr ⟨d, Dependency.parse_render hw, rfl⟩
  | architecture =>
      obtain ⟨a, ha, rfl⟩ := parse_eq_ok_iff.mp h
      exact parse_eq_ok_iff.mpr ⟨a, Architecture.parse_render ha, rfl⟩
  | architectures =>
      obtain ⟨as, has, rfl⟩ := parse_eq_ok_iff.mp h
      exact parse_eq_ok_iff.mpr ⟨as, parseList_join (plain_of_parseList has), rfl⟩

/-- An empty value is the one that is read of the empty text. -/
theorem FieldKind.parse_nil (h : kind.parse t = .ok v) (he : v.isEmpty = true) :
    kind.parse [] = .ok v := by
  cases kind with
  | text =>
      cases h
      rw [List.isEmpty_iff.mp he]
      rfl
  | items =>
      cases h
      rw [List.isEmpty_iff.mp he]
      rfl
  | flag =>
      obtain ⟨b, -, rfl⟩ := map_eq_ok_iff.mp h
      rw [FieldValue.isEmpty, Bool.not_eq_true'] at he
      rw [he]
      cbv
  | lines =>
      cases h
      rw [List.isEmpty_iff.mp he]
      rfl
  | version =>
      obtain ⟨version, -, rfl⟩ := parse_eq_ok_iff.mp h
      cases he
  | dependency =>
      obtain ⟨d, -, rfl⟩ := parse_eq_ok_iff.mp h
      rw [List.isEmpty_iff.mp he]
      cbv
  | architecture =>
      obtain ⟨a, -, rfl⟩ := parse_eq_ok_iff.mp h
      cases he
  | architectures =>
      obtain ⟨as, -, rfl⟩ := parse_eq_ok_iff.mp h
      rw [List.isEmpty_iff.mp he]
      rfl

end DebianPackaging
