import DebianPackaging.Proofs.Architecture.Components

namespace DebianPackaging.Architecture

open Text Outcome

variable {a : Architecture} {parts : List Text} {row : Alias} {text cpu : Text}

theorem any_mem_padAny (parts : List Text) : anyPart ∈ padAny parts ↔ anyPart ∈ parts := by
  constructor
  · intro h
    rcases mem_padAny h with h | -
    · exact h
    · unfold padAny at h
      split at h
      · rename_i hhead
        exact List.mem_of_mem_head? hhead
      · exact h
  · intro h
    unfold padAny
    split
    · exact List.mem_append_right _ h
    · exact h

theorem any_not_mem_fixed (hrow : row ∈ Alias.table) : anyPart ∉ row.fixed := by
  have h : (Alias.table.all fun row => !row.fixed.contains anyPart) = true := by cbv
  simpa using List.all_eq_true.mp h row hrow

/-- An alias leaves nothing open but the CPU that it takes from the name. -/
theorem any_mem_long_iff (hrow : row ∈ Alias.table) :
    anyPart ∈ (row.long cpu).components ↔ anyPart ∈ row.short cpu := by
  have hfixed := any_not_mem_fixed hrow
  simp only [Alias.fixed, List.mem_append, List.mem_cons, List.not_mem_nil, or_false, not_or,
    Option.mem_toList] at hfixed
  obtain ⟨⟨⟨habi, hlibc, hos⟩, hcpu⟩, hnames⟩ := hfixed
  cases hc : row.cpu with
  | some cpu' =>
      have hcpu' : anyPart ≠ cpu' := fun he => hcpu (by rw [hc, he])
      simp [Alias.long, Alias.short, components, hc, habi, hlibc, hos, hcpu', hnames]
  | none => simp [Alias.long, Alias.short, components, hc, habi, hlibc, hos, hnames]

theorem any_mem_ofParts?_iff (h : ofParts? parts = some a) :
    anyPart ∈ a.components ↔ anyPart ∈ parts := by
  have hbase : anyPart ≠ "base".toList := by decide
  have hgnu : anyPart ≠ "gnu".toList := by decide
  have hlinux : anyPart ≠ "linux".toList := by decide
  unfold ofParts? at h
  split at h <;> simp only [Option.some.injEq, reduceCtorEq] at h <;> subst h <;>
    simp only [components, List.mem_cons, List.not_mem_nil, or_false] <;> tauto

/-- Expanding a name neither adds an `any` to a name without one nor loses one. -/
theorem any_mem_components_iff (h : expand? parts = some a) :
    anyPart ∈ a.components ↔ anyPart ∈ parts := by
  rw [← any_mem_padAny parts]
  rcases expand?_eq_some h with ⟨row, hrow, h⟩ | h
  · obtain ⟨cpu, -, hs, rfl⟩ := expand?_alias h
    rw [any_mem_long_iff hrow, hs]
  · exact any_mem_ofParts?_iff h

theorem isWildcard_iff_any_mem (h : parse text = .ok a) :
    a.isWildcard = true ↔ anyPart ∈ split (trim text) := by
  rcases parse_cases h with ⟨htrim, rfl⟩ | ⟨hname, he⟩
  · have hsplit : split allPart = [allPart] := by cbv
    rw [htrim, hsplit]
    decide
  · rw [← any_mem_components_iff he]
    simp [isWildcard, (hname.wellFormed he).isAll_eq_false]

theorem isWildcard_eq_false_iff (h : a = all ∨ a.WellFormed) :
    a.isWildcard = false ↔ a = all ∨ a.isConcrete = true := by
  rw [← isAll_iff h]
  cases hall : a.isAll with
  | true => simp [isWildcard, hall]
  | false => simp [isConcrete, hall]

end DebianPackaging.Architecture
