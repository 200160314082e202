import DebianPackaging.Proofs.Architecture.Shortest

namespace DebianPackaging.Architecture

open Text Outcome

variable {a : Architecture} {parts : List Text} {part : Text}

def IsToken (t : Text) : Prop :=
  t ≠ [] ∧ ∀ c ∈ t, c.isLower = true ∨ c.isDigit = true ∨ c = '_'

section Token

theorem isToken_iff : IsToken part ↔ part ≠ [] ∧ ∀ c ∈ part, isPartChar c = true := by
  simp [IsToken, isPartChar, or_assoc]

theorem IsToken.lineFeed_not_mem (h : IsToken part) : '\n' ∉ part := fun hm =>
  absurd (h.2 '\n' hm) (by decide)

theorem isToken_allPart : IsToken allPart :=
  isToken_iff.mpr ⟨by decide, plain_all.chars allPart List.mem_cons_self⟩

theorem isToken_of_isPart (h : isPart part = true) (hl : part.getLast? ≠ some '\n') :
    IsToken part := by
  obtain ⟨c, rest, rfl, -⟩ := head_isPartChar h
  exact isToken_iff.mpr ⟨by simp, isPartChar_of_getLast? h hl⟩

theorem isToken_of_isConventional (h : IsConventional part) : IsToken part :=
  isToken_of_isPart (isPart_of_isConventional h) (last_of_isConventional h)

theorem exists_token_of_isPart (h : isPart part = true) :
    ∃ token, IsToken token ∧ (part = token ∨ part = token ++ ['\n']) := by
  by_cases hl : part.getLast? = some '\n'
  · obtain ⟨token, rfl⟩ := List.getLast?_eq_some_iff.mp hl
    refine ⟨token, isToken_iff.mpr ?_, Or.inr rfl⟩
    simpa [isPart] using h
  · exact ⟨part, isToken_of_isPart h hl, Or.inl rfl⟩

end Token

section Name

/-- Every part of a name is a component, or else a conventional part. -/
theorem names_of_expand? (h : expand? parts = some a) (hne : parts ≠ []) : a.Names parts := by
  by_cases hany : parts.head? = some anyPart
  · exact names_of_suffix hne ⟨_, (components_eq_of_any hany h).symm⟩
  · rcases mem_candidates_of_expand? hany h with rfl | hp
    · exact names_of_suffix hne List.suffix_rfl
    · exact names_candidates hp

theorem IsName.tokens_iff (h : IsName parts) (he : expand? parts = some a) :
    (∀ part ∈ a.components, IsToken part) ↔ ∀ part ∈ parts, '\n' ∉ part := by
  constructor
  · intro htoken part hp
    rcases (names_of_expand? he h.ne_nil).mem part hp with hc | hconv
    · exact (htoken part hc).lineFeed_not_mem
    · exact (isToken_of_isConventional hconv).lineFeed_not_mem
  · intro hn part hc
    rcases mem_components_of_expand? he part hc with hp | hconv
    · exact isToken_of_isPart (h.part part hp) fun hl => hn part hp (List.mem_of_getLast? hl)
    · exact isToken_of_isConventional hconv

theorem lineFeed_not_mem_iff {name : Text} :
    (∀ part ∈ split name, '\n' ∉ part) ↔ '\n' ∉ name := by
  have hj : join "-" (split name) = name := List.intercalate_splitOn '-'
  constructor
  · intro h hn
    rw [← hj] at hn
    obtain ⟨part, hp, hn⟩ := (mem_join hn).resolve_left (by decide)
    exact h part hp hn
  · exact fun h part hp hn => h (mem_of_mem_splitOn hp hn)

end Name

section Kind

theorem eq_all_or_all_not_mem (h : a = all ∨ a.WellFormed) :
    (∀ part ∈ a.components, part = allPart) ∨ allPart ∉ a.components := by
  rcases h with rfl | h
  · exact Or.inl (by simp [all, components])
  · exact Or.inr fun hm => h.ne_all allPart hm rfl

theorem isAll_iff (h : a = all ∨ a.WellFormed) : a.isAll = true ↔ a = all := by
  rcases h with rfl | h
  · simp [isAll, all]
  · have hall := h.isAll_eq_false
    have hne : a ≠ all := by
      rintro rfl
      cases hall
    simp [hall, hne]

theorem count_kinds (a : Architecture) :
    [a.isAll, a.isWildcard, a.isConcrete].count true = 1 := by
  cases h : a.isAll with
  | true => simp [isWildcard, isConcrete, h]
  | false => cases hw : a.isWildcard <;> simp [isConcrete, h, hw]

end Kind

/-- The components of an architecture that was read are tokens, the line feeds apart that the name
holds. All of them are `all` or none is, and the architecture is of one kind. -/
theorem parse_components (text : Text) (a : Architecture) (h : parse text = .ok a) :
    (∀ part ∈ a.components, ∃ token, IsToken token ∧ (part = token ∨ part = token ++ ['\n'])) ∧
    ((∀ part ∈ a.components, IsToken part) ↔ '\n' ∉ trim text) ∧
    ((∀ part ∈ a.components, part = allPart) ∨ allPart ∉ a.components) ∧
    [a.isAll, a.isWildcard, a.isConcrete].count true = 1 ∧
    (a.isAll = true ↔ a = all) := by
  have hr := parse_eq_ok h
  refine ⟨fun part hp => ?_, ?_, eq_all_or_all_not_mem hr, count_kinds a, isAll_iff hr⟩
  · rcases hr with rfl | hw
    · obtain rfl : part = allPart := by simpa [all, components] using hp
      exact ⟨allPart, isToken_allPart, Or.inl rfl⟩
    · exact exists_token_of_isPart (hw.part part hp)
  · rcases parse_cases h with ⟨htrim, rfl⟩ | ⟨hname, he⟩
    · have hn := isToken_allPart.lineFeed_not_mem
      simp [htrim, hn, all, components, isToken_allPart]
    · rw [hname.tokens_iff he, lineFeed_not_mem_iff]

theorem parse_components_wildcard : parse " any\n-any-amd64\n" = .ok
      ⟨"base".toList, "any\n".toList, anyPart, "amd64".toList⟩ ∧
    ¬(∀ part ∈ [("base" : Text), "any\n", anyPart, "amd64"], IsToken part) ∧
    allPart ∉ [("base" : Text), "any\n", anyPart, "amd64"] := by
  have h : parse " any\n-any-amd64\n" = .ok
      ⟨"base".toList, "any\n".toList, anyPart, "amd64".toList⟩ := by cbv
  obtain ⟨-, htoken, hall, -, -⟩ := parse_components _ _ h
  refine ⟨h, fun ht => htoken.mp ht (by decide), hall.resolve_left fun ha => ?_⟩
  exact absurd (ha "base" List.mem_cons_self) (by decide)

/-- A line feed behind a part is kept. -/
theorem parse_components_lineFeed :
    ¬∀ (text : Text) (a : Architecture), parse text = .ok a →
      ∀ part ∈ a.components, IsToken part := by
  intro h
  have hread : parse "linux\n-amd64" = .ok
      ⟨"base".toList, "gnu".toList, "linux\n".toList, "amd64".toList⟩ := by cbv
  have htoken := h _ _ hread "linux\n" (by simp [components])
  exact htoken.lineFeed_not_mem (by decide)

end DebianPackaging.Architecture
