import Mathlib
import DebianPackaging.Architecture.Name
import DebianPackaging.Proofs.Outcome
import DebianPackaging.Proofs.Text.Split

namespace DebianPackaging.Architecture

open Text Outcome

def isPlainPart (t : Text) : Bool :=
  !t.isEmpty && t.all isPartChar && t != allPart

def Alias.fixed (row : Alias) : List Text :=
  [row.abi, row.libc, row.os] ++ row.cpu.toList ++ row.names

def impliedParts : List Text :=
  [anyPart, "base".toList, "gnu".toList, "linux".toList]

def IsConventional (part : Text) : Prop :=
  part ∈ impliedParts ∨ ∃ row ∈ Alias.table, part ∈ row.fixed

variable {a : Architecture} {parts : List Text} {part : Text} {row : Alias}

theorem isPlainPart_of_isConventional (h : IsConventional part) : isPlainPart part = true := by
  have hi : impliedParts.all isPlainPart = true := by cbv
  have ht : (Alias.table.all fun row => row.fixed.all isPlainPart) = true := by cbv
  rcases h with h | ⟨row, hrow, h⟩
  · exact List.all_eq_true.mp hi part h
  · exact List.all_eq_true.mp (List.all_eq_true.mp ht row hrow) part h

theorem short_length (hrow : row ∈ Alias.table) (cpu : Text) : (row.short cpu).length < 4 := by
  have h : (Alias.table.all fun row => decide ((row.short []).length < 4)) = true := by cbv
  have hs := List.all_eq_true.mp h row hrow
  have he : (row.short cpu).length = (row.short []).length := by
    unfold Alias.short
    cases row.cpu <;> simp
  rw [he]
  exact of_decide_eq_true hs

theorem expand?_alias (h : row.expand? parts = some a) :
    ∃ cpu, parts.getLast? = some cpu ∧ row.short cpu = parts ∧ row.long cpu = a := by
  obtain ⟨cpu, hc, hr⟩ := Option.bind_eq_some_iff.mp h
  split at hr
  · rename_i hs
    exact ⟨cpu, hc, hs, Option.some.inj hr⟩
  · cases hr

theorem mem_padAny (h : part ∈ padAny parts) : part ∈ parts ∨ part = anyPart := by
  unfold padAny at h
  split at h
  · rcases List.mem_append.mp h with h | h
    · exact Or.inr (List.eq_of_mem_replicate h)
    · exact Or.inl h
  · exact Or.inl h

theorem getLast?_padAny (parts : List Text) : (padAny parts).getLast? = parts.getLast? := by
  unfold padAny
  split
  · rename_i h
    cases parts with
    | nil => simp at h
    | cons part parts => rw [List.getLast?_append_cons]
  · rfl

theorem expand?_eq_some (h : expand? parts = some a) :
    (∃ row ∈ Alias.table, row.expand? (padAny parts) = some a) ∨
      ofParts? (padAny parts) = some a := by
  rcases Option.or_eq_some_iff.mp h with h | ⟨-, h⟩
  · exact Or.inl (List.exists_of_findSome?_eq_some h)
  · exact Or.inr h

theorem mem_components_long {cpu : Text} (hrow : row ∈ Alias.table)
    (h : part ∈ (row.long cpu).components) : part = cpu ∨ IsConventional part := by
  have hfixed : part ∈ [row.abi, row.libc, row.os] ++ row.cpu.toList → IsConventional part :=
    fun hm => Or.inr ⟨row, hrow, List.mem_append_left _ hm⟩
  simp only [Alias.long, components, List.mem_cons, List.not_mem_nil, or_false] at h
  cases hc : row.cpu with
  | none =>
      simp only [hc, Option.getD_none] at h
      rcases h with h | h | h | h
      · exact Or.inr (hfixed (by simp [h]))
      · exact Or.inr (hfixed (by simp [h]))
      · exact Or.inr (hfixed (by simp [h]))
      · exact Or.inl h
  | some cpu' =>
      simp only [hc, Option.getD_some] at h
      exact Or.inr (hfixed (by simp [hc, h]))

theorem isConventional_implied (h : part ∈ impliedParts) : IsConventional part := Or.inl h

theorem mem_components_ofParts? (h : ofParts? parts = some a) :
    ∀ part ∈ a.components, part ∈ parts ∨ IsConventional part := by
  intro part hpart
  have himplied : part = "base".toList ∨ part = "gnu".toList ∨ part = "linux".toList →
      IsConventional part := fun h => Or.inl (by simp [impliedParts]; tauto)
  unfold ofParts? at h
  split at h <;> simp only [Option.some.injEq, reduceCtorEq] at h <;> subst h <;>
    simp only [components, List.mem_cons, List.not_mem_nil, or_false] at hpart ⊢ <;> tauto

/-- What a name is read as has the parts of the name, and conventional ones. -/
theorem mem_components_of_expand? (h : expand? parts = some a) :
    ∀ part ∈ a.components, part ∈ parts ∨ IsConventional part := by
  have hpad : ∀ part, part ∈ padAny parts ∨ IsConventional part →
      part ∈ parts ∨ IsConventional part := by
    rintro part (h | h)
    · rcases mem_padAny h with h | rfl
      · exact Or.inl h
      · exact Or.inr (isConventional_implied (by simp [impliedParts]))
    · exact Or.inr h
  intro part hpart
  apply hpad
  rcases expand?_eq_some h with ⟨row, hrow, h⟩ | h
  · obtain ⟨cpu, hc, -, rfl⟩ := expand?_alias h
    rcases mem_components_long hrow hpart with rfl | hconv
    · exact Or.inl (List.mem_of_getLast? hc)
    · exact Or.inr hconv
  · exact mem_components_ofParts? h part hpart

theorem cpu_of_expand? (h : expand? parts = some a) :
    parts.getLast? = some a.cpu ∨ IsConventional a.cpu := by
  rw [← getLast?_padAny]
  rcases expand?_eq_some h with ⟨row, hrow, h⟩ | h
  · obtain ⟨cpu, hc, -, rfl⟩ := expand?_alias h
    have hm : (row.long cpu).cpu ∈ (row.long cpu).components := by simp [components]
    rcases mem_components_long hrow hm with he | hconv
    · exact Or.inl (by rw [hc, he])
    · exact Or.inr hconv
  · unfold ofParts? at h
    split at h <;> simp_all <;> subst h <;> simp_all

theorem isPartChar_toNat {c : Char} (h : isPartChar c = true) :
    33 ≤ c.toNat ∧ c.toNat ≤ 126 ∧ c.toNat ≠ 45 := by
  simp only [isPartChar, Char.isLower, Bool.or_eq_true, Bool.and_eq_true, decide_eq_true_eq,
    ge_iff_le, UInt32.le_iff_toNat_le, isDigit_iff_toNat] at h
  rcases h with (h | h) | rfl
  · have h₁ : 97 ≤ c.toNat := h.1
    have h₂ : c.toNat ≤ 122 := h.2
    omega
  · omega
  · decide

theorem isPart_of_chars (hne : part ≠ []) (h : ∀ c ∈ part, isPartChar c = true) :
    isPart part = true := by
  have hl : part.getLast? ≠ some '\n' := fun hl =>
    absurd (h '\n' (List.mem_of_getLast? hl)) (by decide)
  simpa [isPart, hl, hne] using h

theorem isPart_of_isConventional (h : IsConventional part) : isPart part = true := by
  have hp := isPlainPart_of_isConventional h
  simp only [isPlainPart, Bool.and_eq_true, Bool.not_eq_true', List.isEmpty_eq_false_iff,
    List.all_eq_true] at hp
  exact isPart_of_chars hp.1.1 hp.1.2

theorem isPartChar_of_isConventional (h : IsConventional part) :
    ∀ c ∈ part, isPartChar c = true := by
  have hp := isPlainPart_of_isConventional h
  simp only [isPlainPart, Bool.and_eq_true, List.all_eq_true] at hp
  exact hp.1.2

theorem ne_all_of_isConventional (h : IsConventional part) : part ≠ allPart := by
  have hp := isPlainPart_of_isConventional h
  simp only [isPlainPart, Bool.and_eq_true, bne_iff_ne] at hp
  exact hp.2

theorem isPartChar_of_getLast? (h : isPart part = true) (hl : part.getLast? ≠ some '\n') :
    ∀ c ∈ part, isPartChar c = true := by
  simp only [isPart, hl, if_false, Bool.and_eq_true, List.all_eq_true] at h
  exact h.2

theorem head_isPartChar (h : isPart part = true) :
    ∃ c rest, part = c :: rest ∧ isPartChar c = true := by
  unfold isPart at h
  split at h
  · rename_i hl
    obtain ⟨body, rfl⟩ := List.getLast?_eq_some_iff.mp hl
    cases body with
    | nil => simp at h
    | cons c body =>
        simp only [List.dropLast_concat, List.isEmpty_cons, Bool.not_false, Bool.true_and,
          List.all_cons, Bool.and_eq_true] at h
        exact ⟨c, _, rfl, h.1⟩
  · cases part with
    | nil => simp at h
    | cons c part =>
        simp only [List.isEmpty_cons, Bool.not_false, Bool.true_and, List.all_cons,
          Bool.and_eq_true] at h
        exact ⟨c, part, rfl, h.1⟩

theorem hyphen_not_mem (h : isPart part = true) : '-' ∉ part := by
  intro hm
  unfold isPart at h
  split at h
  · rename_i hl
    obtain ⟨body, rfl⟩ := List.getLast?_eq_some_iff.mp hl
    rcases List.mem_append.mp hm with hm | hm
    · simp only [List.dropLast_concat, Bool.and_eq_true, List.all_eq_true] at h
      exact absurd (h.2 '-' hm) (by decide)
    · exact absurd (List.mem_singleton.mp hm) (by decide)
  · simp only [Bool.and_eq_true, List.all_eq_true] at h
    exact absurd (h.2 '-' hm) (by decide)

theorem split_join (hne : parts ≠ []) (h : ∀ part ∈ parts, isPart part = true) :
    split (join "-" parts) = parts :=
  List.splitOn_intercalate '-' (fun part hp => hyphen_not_mem (h part hp)) hne

/-- Parts that are read when they are written with hyphens between them. -/
structure IsName (parts : List Text) : Prop where
  ne_nil : parts ≠ []
  part : ∀ part ∈ parts, isPart part = true
  ne_all : ∀ part ∈ parts, part ≠ allPart
  last : ∀ part, parts.getLast? = some part → part.getLast? ≠ some '\n'

theorem IsName.join_ne_nil (h : IsName parts) : join "-" parts ≠ [] := by
  cases parts with
  | nil => exact absurd rfl h.ne_nil
  | cons part parts =>
      obtain ⟨c, rest, rfl, -⟩ := head_isPartChar (h.part part (by simp))
      obtain ⟨after, ha⟩ := join_cons "-" (c :: rest) parts
      rw [ha]
      simp

theorem IsName.trim_join (h : IsName parts) : trim (join "-" parts) = join "-" parts := by
  have hblank : ∀ c, isPartChar c = true → isBlank c = false := fun c hc =>
    isBlank_of_toNat ⟨(isPartChar_toNat hc).1, (isPartChar_toNat hc).2.1⟩
  apply trim_eq_self_of_ends
  · intro c hc
    cases parts with
    | nil => exact absurd rfl h.ne_nil
    | cons part parts =>
        obtain ⟨d, rest, rfl, hd⟩ := head_isPartChar (h.part part (by simp))
        obtain ⟨after, ha⟩ := join_cons "-" (d :: rest) parts
        rw [ha, List.cons_append, List.head?_cons, Option.some.injEq] at hc
        exact hc ▸ hblank d hd
  · intro c hc
    obtain ⟨front, part, rfl⟩ := List.eq_nil_or_concat' parts |>.resolve_left h.ne_nil
    obtain ⟨before, hb⟩ := join_concat "-" part front
    have hlast := h.last part (by simp)
    have hpart := h.part part (by simp)
    have hne : part ≠ [] := by
      obtain ⟨d, rest, rfl, -⟩ := head_isPartChar hpart
      simp
    rw [hb, List.getLast?_append_of_ne_nil _ hne] at hc
    exact hblank c (isPartChar_of_getLast? hpart hlast c (List.mem_of_getLast? hc))

theorem IsName.parse_join (h : IsName parts) (he : expand? parts = some a) :
    parse (join "-" parts) = .ok a := by
  have hs := split_join h.ne_nil h.part
  have hmem : allPart ∉ parts := fun hm => h.ne_all allPart hm rfl
  have hall : join "-" parts ≠ allPart := by
    intro hj
    apply hmem
    rw [← hs, hj, show split allPart = [allPart] by cbv]
    exact List.mem_singleton_self allPart
  have hparts : parts.all Architecture.isPart = true := List.all_eq_true.mpr h.part
  rw [parse, mapError_eq_ok_iff, h.trim_join, parseTrimmed, if_neg (by simpa using h.join_ne_nil),
    if_neg hall, hs, hparts, he]
  simp [hmem]

/-- An architecture whose components are parts that are read. -/
structure WellFormed (a : Architecture) : Prop where
  part : ∀ part ∈ a.components, isPart part = true
  ne_all : ∀ part ∈ a.components, part ≠ allPart
  last : a.cpu.getLast? ≠ some '\n'

theorem WellFormed.isAll_eq_false (h : a.WellFormed) : a.isAll = false := by
  simpa [isAll] using h.ne_all a.cpu (by simp [components])

theorem last_of_isConventional (h : IsConventional part) : part.getLast? ≠ some '\n' := fun hl =>
  absurd (isPartChar_of_isConventional h '\n' (List.mem_of_getLast? hl)) (by decide)

theorem IsName.wellFormed (h : IsName parts) (he : expand? parts = some a) : a.WellFormed := by
  constructor
  · intro part hp
    rcases mem_components_of_expand? he part hp with hp | hp
    · exact h.part part hp
    · exact isPart_of_isConventional hp
  · intro part hp
    rcases mem_components_of_expand? he part hp with hp | hp
    · exact h.ne_all part hp
    · exact ne_all_of_isConventional hp
  · rcases cpu_of_expand? he with hc | hc
    · exact h.last a.cpu hc
    · exact last_of_isConventional hc

/-- A name for an architecture holds its components and conventional parts, the CPU last. -/
structure Names (a : Architecture) (parts : List Text) : Prop where
  ne_nil : parts ≠ []
  mem : ∀ part ∈ parts, part ∈ a.components ∨ IsConventional part
  last : ∀ part, parts.getLast? = some part → part = a.cpu ∨ IsConventional part

theorem Names.isName (hn : a.Names parts) (h : a.WellFormed) : IsName parts := by
  refine ⟨hn.ne_nil, fun part hp => ?_, fun part hp => ?_, fun part hl => ?_⟩
  · rcases hn.mem part hp with hp | hp
    · exact h.part part hp
    · exact isPart_of_isConventional hp
  · rcases hn.mem part hp with hp | hp
    · exact h.ne_all part hp
    · exact ne_all_of_isConventional hp
  · rcases hn.last part hl with rfl | hp
    · exact h.last
    · exact last_of_isConventional hp

theorem names_of_suffix (hne : parts ≠ []) (hs : parts <:+ a.components) : a.Names parts := by
  refine ⟨hne, fun part hp => Or.inl (hs.subset hp), fun part hl => Or.inl ?_⟩
  obtain ⟨front, hf⟩ := hs
  have hc : a.components.getLast? = some part := by
    rw [← hf, List.getLast?_append_of_ne_nil front hne, hl]
  simpa [components] using hc.symm

theorem dropAny_suffix (parts : List Text) : dropAny parts <:+ parts := by
  fun_induction dropAny parts with
  | case1 part rest ih => exact ih.trans (List.suffix_cons part _)
  | case2 => exact List.suffix_rfl
  | case3 => exact List.suffix_rfl

theorem dropAny_ne_nil (h : parts ≠ []) : dropAny parts ≠ [] := by
  fun_induction dropAny parts with
  | case1 part rest ih => exact ih (by simp)
  | case2 => exact h
  | case3 => exact h

theorem names_short (hrow : row ∈ Alias.table) : a.Names (row.short a.cpu) := by
  have hne : (Alias.table.all fun row => !(row.short []).isEmpty) = true := by cbv
  have hs := List.all_eq_true.mp hne row hrow
  have hconv : ∀ part ∈ row.names, IsConventional part := fun part hp =>
    Or.inr ⟨row, hrow, List.mem_append_right _ hp⟩
  unfold Alias.short at hs ⊢
  cases hc : row.cpu with
  | some cpu =>
      rw [hc] at hs
      exact ⟨by simpa using hs, fun part hp => Or.inr (hconv part hp),
        fun part hl => Or.inr (hconv part (List.mem_of_getLast? hl))⟩
  | none =>
      refine ⟨by simp, fun part hp => ?_, fun part hl => Or.inl (by simpa using hl.symm)⟩
      rcases List.mem_append.mp hp with hp | hp
      · exact Or.inr (hconv part hp)
      · rw [List.mem_singleton.mp hp]
        exact Or.inl (by simp [components])

theorem mem_candidates_iff : parts ∈ candidates a ↔
    (∃ row ∈ Alias.table, row.long a.cpu = a ∧ row.short a.cpu = parts) ∨
    (a.abi = anyPart ∧ parts = dropAny a.components) ∨
    (a.abi = "base".toList ∧ (a.libc = "gnu".toList ∧ parts = [a.os, a.cpu] ∨
      parts = [a.libc, a.os, a.cpu])) := by
  simp only [candidates, List.mem_append, List.mem_map, List.mem_filter, List.mem_ite_nil_right,
    List.mem_singleton, decide_eq_true_eq, and_assoc, or_assoc]

theorem names_candidates (h : parts ∈ candidates a) : a.Names parts := by
  rcases mem_candidates_iff.mp h with ⟨row, hrow, -, rfl⟩ | ⟨-, rfl⟩ | ⟨-, ⟨-, rfl⟩ | rfl⟩
  · exact names_short hrow
  · exact names_of_suffix (dropAny_ne_nil (by simp [components])) (dropAny_suffix _)
  · exact names_of_suffix (by simp) ⟨[a.abi, a.libc], rfl⟩
  · exact names_of_suffix (by simp) ⟨[a.abi], rfl⟩

theorem expand?_components (a : Architecture) : expand? a.components = some a := by
  have hpad : padAny a.components = a.components := by
    unfold padAny
    split <;> simp [components]
  have hnone : Alias.table.findSome? (·.expand? a.components) = none := by
    rw [List.findSome?_eq_none_iff]
    intro row hrow
    rw [Option.eq_none_iff_forall_ne_some]
    intro b hb
    obtain ⟨cpu, -, hs, -⟩ := expand?_alias hb
    have := short_length hrow cpu
    simp [hs, components] at this
  rw [expand?, hpad, hnone]
  rfl

def conventionalParts (a : Architecture) : List Text :=
  ((candidates a).find? fun parts => expand? parts = some a).getD a.components

theorem conventionalParts_cases (a : Architecture) :
    conventionalParts a ∈ candidates a ∨ conventionalParts a = a.components := by
  unfold conventionalParts
  cases hf : (candidates a).find? fun parts => expand? parts = some a with
  | none => exact Or.inr rfl
  | some parts => exact Or.inl (List.mem_of_find?_eq_some hf)

theorem names_conventionalParts (a : Architecture) : a.Names (conventionalParts a) := by
  rcases conventionalParts_cases a with h | h
  · exact names_candidates h
  · rw [h]
    exact names_of_suffix (by simp [components]) List.suffix_rfl

theorem expand?_conventionalParts (a : Architecture) : expand? (conventionalParts a) = some a := by
  unfold conventionalParts
  cases hf : (candidates a).find? fun parts => expand? parts = some a with
  | none => exact expand?_components a
  | some parts => simpa using List.find?_some hf

theorem split_join_candidates (h : a.WellFormed) (hp : parts ∈ candidates a) :
    split (join "-" parts) = parts :=
  split_join ((names_candidates hp).isName h).ne_nil ((names_candidates hp).isName h).part

theorem render_eq (h : a.WellFormed) : a.render = join "-" (conventionalParts a) := by
  have hfind : ((candidates a).map (join "-")).find? (fun name => expand? (split name) = some a) =
      ((candidates a).find? fun parts => expand? parts = some a).map (join "-") := by
    rw [List.find?_map]
    congr 1
    apply List.find?_congr
    intro parts hp
    rw [Function.comp_apply, split_join_candidates h hp]
  rw [render, h.isAll_eq_false, if_neg (by simp), hfind, conventionalParts]
  cases (candidates a).find? fun parts => expand? parts = some a with
  | none => rfl
  | some parts => rfl

theorem WellFormed.parse_render (h : a.WellFormed) : parse a.render = .ok a := by
  rw [render_eq h]
  exact ((names_conventionalParts a).isName h).parse_join (expand?_conventionalParts a)

theorem isName_split {name : Text} (hp : (split name).all Architecture.isPart = true)
    (ha : (split name).contains allPart = false) (hl : name.getLast? ≠ some '\n') :
    IsName (split name) := by
  have hj : join "-" (split name) = name := List.intercalate_splitOn '-'
  refine ⟨List.splitOn_ne_nil _ _, List.all_eq_true.mp hp, ?_, ?_⟩
  · rintro part hpart rfl
    simp [hpart] at ha
  · intro part hpart he
    obtain ⟨front, hf⟩ := List.getLast?_eq_some_iff.mp hpart
    obtain ⟨before, hb⟩ := join_concat "-" part front
    have hne : part ≠ [] := by
      rintro rfl
      simp at he
    rw [← hf, hj] at hb
    rw [hb, List.getLast?_append_of_ne_nil _ hne] at hl
    exact hl he

theorem parse_cases {text : Text} (h : parse text = .ok a) :
    (trim text = allPart ∧ a = all) ∨
      (IsName (split (trim text)) ∧ expand? (split (trim text)) = some a) := by
  rw [parse, mapError_eq_ok_iff, parseTrimmed, ite_error_eq_ok_iff] at h
  obtain ⟨-, h⟩ := h
  split at h
  · rename_i hall
    exact Or.inl ⟨hall, (Except.ok.inj h).symm⟩
  · rw [ite_error_eq_ok_iff] at h
    obtain ⟨hp, h⟩ := h
    split at h
    · cases h
    · rename_i b he
      rw [ite_error_eq_ok_iff] at h
      obtain ⟨ha, h⟩ := h
      cases h
      have hl : (trim text).getLast? ≠ some '\n' := fun hl =>
        absurd (endsPlain_trim text _ hl) (by decide)
      exact Or.inr ⟨isName_split (by simpa using hp) (by simpa using ha) hl, he⟩

theorem parse_eq_ok {text : Text} (h : parse text = .ok a) : a = all ∨ a.WellFormed := by
  rcases parse_cases h with ⟨-, rfl⟩ | ⟨hname, he⟩
  · exact Or.inl rfl
  · exact Or.inr (hname.wellFormed he)

/-- What was read is written so that it is read again. -/
theorem parse_render {text : Text} (h : parse text = .ok a) : parse a.render = .ok a := by
  rcases parse_eq_ok h with rfl | h
  · cbv
  · exact h.parse_render

structure Plain (a : Architecture) : Prop where
  readable : a = all ∨ a.WellFormed
  chars : ∀ part ∈ a.components, ∀ c ∈ part, isPartChar c = true

theorem plain_all : Plain all := by
  have h : (all.components.all (List.all · isPartChar)) = true := by cbv
  refine ⟨Or.inl rfl, fun part hp c hc => ?_⟩
  exact List.all_eq_true.mp (List.all_eq_true.mp h part hp) c hc

theorem isPartChar_of_isPart (h : isPart part = true) (hn : '\n' ∉ part) :
    ∀ c ∈ part, isPartChar c = true :=
  isPartChar_of_getLast? h fun hl => hn (List.mem_of_getLast? hl)

theorem plain_of_parse {text : Text} (h : parse text = .ok a)
    (hb : ∀ c ∈ text, isBlank c = false) : a.Plain := by
  refine ⟨parse_eq_ok h, ?_⟩
  rcases parse_cases h with ⟨-, rfl⟩ | ⟨hname, he⟩
  · exact plain_all.chars
  · intro part hpart
    rcases mem_components_of_expand? he part hpart with hpart | hconv
    · apply isPartChar_of_isPart (hname.part part hpart)
      intro hn
      exact absurd (hb '\n' (mem_of_mem_trim (mem_of_mem_splitOn hpart hn))) (by decide)
    · exact isPartChar_of_isConventional hconv

theorem isPartChar_of_parse {name : Text} (h : parse name = .ok a)
    (hb : ∀ c ∈ name, isBlank c = false) : ∀ c ∈ name, isPartChar c = true ∨ c = '-' := by
  intro c hc
  have htrim : trim name = name := trim_eq_self hb
  rcases parse_cases h with ⟨hall, rfl⟩ | ⟨hname, -⟩
  · rw [htrim] at hall
    rw [hall] at hc
    exact Or.inl (plain_all.chars allPart (by simp [all, components]) c hc)
  · rw [htrim] at hname
    have hj : join "-" (split name) = name := List.intercalate_splitOn '-'
    rw [← hj] at hc
    rcases mem_join hc with hm | ⟨part, hp, hm⟩
    · exact Or.inr (by simpa using hm)
    · refine Or.inl (isPartChar_of_isPart (hname.part part hp) (fun hn => ?_) c hm)
      exact absurd (hb '\n' (mem_of_mem_splitOn hp hn)) (by decide)

theorem Plain.mem_render (h : a.Plain) : ∀ c ∈ a.render, isPartChar c = true ∨ c = '-' := by
  intro c hc
  rcases h.readable with rfl | hw
  · have ha : all.render = allPart := by cbv
    rw [ha] at hc
    exact Or.inl (h.chars allPart (by simp [all, components]) c hc)
  · rw [render_eq hw] at hc
    rcases mem_join hc with hc | ⟨part, hp, hc⟩
    · exact Or.inr (by simpa using hc)
    · rcases (names_conventionalParts a).mem part hp with hp | hconv
      · exact Or.inl (h.chars part hp c hc)
      · exact Or.inl (isPartChar_of_isConventional hconv c hc)

theorem Plain.render_ne_nil (h : a.Plain) : a.render ≠ [] := by
  rcases h.readable with rfl | hw
  · have ha : all.render = allPart := by cbv
    rw [ha]
    decide
  · rw [render_eq hw]
    exact ((names_conventionalParts a).isName hw).join_ne_nil

theorem Plain.parse_render (h : a.Plain) : parse a.render = .ok a := by
  rcases h.readable with rfl | hw
  · cbv
  · exact hw.parse_render

end DebianPackaging.Architecture
