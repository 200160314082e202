import DebianPackaging.Proofs.Architecture.Name

namespace DebianPackaging.Architecture

open Text Outcome

variable {a : Architecture} {parts others : List Text} {row other : Alias} {cpu t : Text}

/-- At most as many parts and as many characters. -/
def NotLonger (parts others : List Text) : Prop :=
  parts.length ≤ others.length ∧ (join "-" parts).length ≤ (join "-" others).length

theorem NotLonger.refl (parts : List Text) : NotLonger parts parts := ⟨le_rfl, le_rfl⟩

theorem NotLonger.trans {names : List Text} (h : NotLonger parts names)
    (h' : NotLonger names others) : NotLonger parts others :=
  ⟨h.1.trans h'.1, h.2.trans h'.2⟩

theorem notLonger_of_suffix (hne : parts ≠ []) (h : parts <:+ others) : NotLonger parts others := by
  obtain ⟨front, rfl⟩ := h
  obtain ⟨before, hb⟩ := join_append_of_ne_nil hne "-" front
  constructor
  · rw [List.length_append]
    omega
  · rw [hb, List.length_append]
    omega

section Table

def Alias.clashes (row other : Alias) : Bool :=
  row.abi == other.abi && row.libc == other.libc && row.os == other.os &&
    (row.cpu.isNone || other.cpu.isNone || row.cpu == other.cpu)

theorem clashes_of_long_eq (h : row.long cpu = other.long cpu) : row.clashes other = true := by
  obtain ⟨habi, hlibc, hos, hcpu⟩ := (Architecture.mk.injEq ..).mp h
  rw [Alias.clashes, habi, hlibc, hos]
  cases hr : row.cpu with
  | none => simp
  | some c =>
      cases ho : other.cpu with
      | none => simp
      | some d =>
          rw [hr, ho] at hcpu
          simpa using hcpu

/-- No two aliases stand for one architecture. -/
theorem pairwise_long_ne (cpu : Text) :
    Alias.table.Pairwise fun row other => row.long cpu ≠ other.long cpu := by
  have h : Alias.table.Pairwise fun row other => row.clashes other = false := by
    decide
  refine h.imp fun hn he => ?_
  rw [clashes_of_long_eq he] at hn
  cases hn

theorem short_suffix {front : List Text} (h : row.names <:+ front ++ row.cpu.toList) (cpu : Text) :
    row.short cpu <:+ front ++ [row.cpu.getD cpu] := by
  unfold Alias.short
  cases hc : row.cpu with
  | some c => simpa [hc] using h
  | none =>
      rw [hc, Option.toList_none, List.append_nil] at h
      obtain ⟨before, rfl⟩ := h
      exact ⟨before, by simp⟩

theorem names_suffix_of_base (hrow : row ∈ Alias.table) (hbase : row.abi = "base".toList) :
    row.names <:+ [row.libc, row.os] ++ row.cpu.toList ∧
      (row.libc = "gnu".toList → row.names <:+ [row.os] ++ row.cpu.toList) := by
  have h : Alias.table.all (fun row => row.abi != "base".toList ||
      (row.names.isSuffixOf ([row.libc, row.os] ++ row.cpu.toList) &&
        (row.libc != "gnu".toList || row.names.isSuffixOf ([row.os] ++ row.cpu.toList)))) =
      true := by
    cbv
  have hr := List.all_eq_true.mp h row hrow
  simp only [hbase, bne_self_eq_false, Bool.false_or, Bool.and_eq_true,
    List.isSuffixOf_iff_suffix] at hr
  refine ⟨hr.1, fun hgnu => ?_⟩
  simpa [hgnu] using hr.2

/-- The other short names stand for one CPU each. -/
theorem short_notLonger_of_not_base (hrow : row ∈ Alias.table) (hbase : row.abi ≠ "base".toList)
    (cpu : Text) : NotLonger (row.short cpu) (row.long cpu).components := by
  have h : Alias.table.all (fun row => row.abi == "base".toList || row.cpu.elim false fun c =>
      decide (row.names.length ≤ 4 ∧ (join "-" row.names).length ≤
        (join "-" [row.abi, row.libc, row.os, c]).length)) = true := by
    cbv
  have hr := List.all_eq_true.mp h row hrow
  simp only [beq_eq_false_iff_ne.mpr hbase, Bool.false_or] at hr
  cases hc : row.cpu with
  | none => simp [hc] at hr
  | some c =>
      rw [hc, Option.elim_some, decide_eq_true_eq] at hr
      rw [Alias.short, Alias.long, hc]
      exact hr

theorem short_notLonger (hrow : row ∈ Alias.table) (h : row.long a.cpu = a) :
    NotLonger (row.short a.cpu) a.components ∧
      (a.abi = "base".toList → NotLonger (row.short a.cpu) [a.libc, a.os, a.cpu] ∧
        (a.libc = "gnu".toList → NotLonger (row.short a.cpu) [a.os, a.cpu])) := by
  have hne : row.short a.cpu ≠ [] := (names_short hrow).ne_nil
  obtain ⟨habi, hlibc, hos, hcpu⟩ := (Architecture.mk.injEq ..).mp h
  by_cases hbase : row.abi = "base".toList
  · obtain ⟨hnames, hgnu⟩ := names_suffix_of_base hrow hbase
    have hsuffix := short_suffix hnames a.cpu
    rw [hlibc, hos, hcpu] at hsuffix
    refine ⟨notLonger_of_suffix hne (hsuffix.trans (List.suffix_cons a.abi _)), fun _ =>
      ⟨notLonger_of_suffix hne hsuffix, fun hl => ?_⟩⟩
    have hsuffix' := short_suffix (hgnu (hlibc.trans hl)) a.cpu
    rw [hos, hcpu] at hsuffix'
    exact notLonger_of_suffix hne hsuffix'
  · refine ⟨?_, fun habi' => absurd (habi.trans habi') hbase⟩
    have hn := short_notLonger_of_not_base hrow hbase a.cpu
    rwa [h] at hn

theorem exists_row_short_cpu (cpu : Text) : ∃ row ∈ Alias.table, row.short cpu = [cpu] ∧
    row.long cpu = ⟨"base".toList, "gnu".toList, "linux".toList, cpu⟩ := by
  have h : Alias.table.any (fun row => row.abi == "base".toList && row.libc == "gnu".toList &&
      row.os == "linux".toList && row.cpu.isNone && row.names.isEmpty) = true := by
    cbv
  obtain ⟨row, hrow, hr⟩ := List.any_eq_true.mp h
  simp only [Bool.and_eq_true, beq_iff_eq, Option.isNone_iff_eq_none, List.isEmpty_iff] at hr
  obtain ⟨⟨⟨⟨habi, hlibc⟩, hos⟩, hcpu⟩, hnames⟩ := hr
  refine ⟨row, hrow, ?_, ?_⟩
  · rw [Alias.short, hcpu, hnames]
    rfl
  · rw [Alias.long, habi, hlibc, hos, hcpu]
    rfl

theorem abi_ne_any (hrow : row ∈ Alias.table) : row.abi ≠ anyPart := by
  have h : Alias.table.all (fun row => row.abi != anyPart) = true := by cbv
  simpa using List.all_eq_true.mp h row hrow

end Table

section Candidates

theorem dropAny_eq_replicate (h : parts.head? = some anyPart) :
    (dropAny parts).head? = some anyPart ∧
      ∃ n, parts = List.replicate n anyPart ++ dropAny parts := by
  fun_induction dropAny parts with
  | case1 part rest ih =>
      obtain ⟨hhead, n, hn⟩ := ih rfl
      refine ⟨hhead, n + 1, ?_⟩
      rw [List.replicate_succ, List.cons_append, ← hn, Option.some.inj h]
  | case2 => exact ⟨h, 0, rfl⟩
  | case3 => exact ⟨h, 0, rfl⟩

theorem dropAny_replicate_suffix (n : Nat) (h : parts.head? = some anyPart) :
    dropAny (List.replicate n anyPart ++ parts) <:+ parts := by
  induction n with
  | zero => exact dropAny_suffix parts
  | succ n ih =>
      obtain ⟨rest, hr⟩ : ∃ rest, List.replicate n anyPart ++ parts = anyPart :: rest := by
        cases n with
        | zero =>
            obtain ⟨rest, rfl⟩ := List.head?_eq_some_iff.mp h
            exact ⟨rest, rfl⟩
        | succ n => exact ⟨_, rfl⟩
      rw [hr] at ih
      rw [List.replicate_succ, List.cons_append, hr, dropAny, if_pos rfl]
      exact ih

theorem padAny_dropAny (h : a.abi = anyPart) : padAny (dropAny a.components) = a.components := by
  have hcomponents : a.components.head? = some anyPart := by rw [← h]; rfl
  obtain ⟨hhead, n, hn⟩ := dropAny_eq_replicate hcomponents
  have hlength : 4 - (dropAny a.components).length = n := by
    have hl := congrArg List.length hn
    rw [List.length_append, List.length_replicate] at hl
    have : a.components.length = 4 := rfl
    omega
  rw [padAny, if_pos hhead, hlength, ← hn]

theorem expand?_congr (h : padAny parts = padAny others) : expand? parts = expand? others := by
  rw [expand?, h, expand?]

theorem expand?_dropAny (h : a.abi = anyPart) : expand? (dropAny a.components) = some a := by
  have hpad : padAny a.components = a.components := by
    unfold padAny
    split
    · rfl
    · rfl
  rw [← expand?_components a]
  apply expand?_congr
  rw [padAny_dropAny h, hpad]

theorem notLonger_components (h : parts ∈ candidates a) : NotLonger parts a.components := by
  rcases mem_candidates_iff.mp h with ⟨row, hrow, hlong, rfl⟩ | ⟨-, rfl⟩ | ⟨-, ⟨-, rfl⟩ | rfl⟩
  · exact (short_notLonger hrow hlong).1
  · exact notLonger_of_suffix (dropAny_ne_nil (by simp [components])) (dropAny_suffix _)
  · exact notLonger_of_suffix (by simp) ⟨[a.abi, a.libc], rfl⟩
  · exact notLonger_of_suffix (by simp) ⟨[a.abi], rfl⟩

theorem pairwise_candidates (a : Architecture) : (candidates a).Pairwise NotLonger := by
  have hrows : ((Alias.table.filter fun row => row.long a.cpu = a).map (·.short a.cpu)).Pairwise
      NotLonger := by
    rw [List.pairwise_map, List.pairwise_filter]
    refine (pairwise_long_ne a.cpu).imp fun hne hr ho => ?_
    rw [decide_eq_true_eq] at hr ho
    exact absurd (hr.trans ho.symm) hne
  have hbase : ((if a.libc = "gnu".toList then [[a.os, a.cpu]] else []) ++
      [[a.libc, a.os, a.cpu]]).Pairwise NotLonger := by
    split
    · exact List.pairwise_pair.mpr (notLonger_of_suffix (by simp) ⟨[a.libc], rfl⟩)
    · exact List.pairwise_singleton _ _
  rw [candidates, List.append_assoc, List.pairwise_append, List.pairwise_append]
  refine ⟨hrows, ⟨?_, ?_, ?_⟩, ?_⟩
  · split
    · exact List.pairwise_singleton _ _
    · exact List.Pairwise.nil
  · split
    · exact hbase
    · exact List.Pairwise.nil
  · intro names hn others ho
    rw [List.mem_ite_nil_right] at hn ho
    rw [hn.1] at ho
    exact absurd ho.1 (by decide)
  · intro names hn others ho
    obtain ⟨row, hr, rfl⟩ := List.mem_map.mp hn
    obtain ⟨hrow, hlong⟩ := List.mem_filter.mp hr
    rw [decide_eq_true_eq] at hlong
    have habi : row.abi = a.abi := congrArg Architecture.abi hlong
    simp only [List.mem_append, List.mem_ite_nil_right, List.mem_singleton] at ho
    rcases ho with ⟨hany, -⟩ | ⟨hb, ⟨hgnu, rfl⟩ | rfl⟩
    · exact absurd (habi.trans hany) (abi_ne_any hrow)
    · exact ((short_notLonger hrow hlong).2 hb).2 hgnu
    · exact ((short_notLonger hrow hlong).2 hb).1

theorem ofParts?_eq_some (h : ofParts? parts = some a) : parts = a.components ∨
    (a.abi = "base".toList ∧ (parts = [a.libc, a.os, a.cpu] ∨
      (a.libc = "gnu".toList ∧ (parts = [a.os, a.cpu] ∨
        (a.os = "linux".toList ∧ parts = [a.cpu]))))) := by
  unfold ofParts? at h
  split at h <;> cases h <;> simp [components]

theorem components_eq_of_any (hany : parts.head? = some anyPart) (h : expand? parts = some a) :
    a.components = List.replicate (4 - parts.length) anyPart ++ parts := by
  have hpad : padAny parts = List.replicate (4 - parts.length) anyPart ++ parts := if_pos hany
  have hlength : 4 ≤ (padAny parts).length := by
    rw [hpad, List.length_append, List.length_replicate]
    omega
  rw [← hpad]
  rcases expand?_eq_some h with ⟨row, hrow, hr⟩ | ho
  · obtain ⟨cpu, -, hs, -⟩ := expand?_alias hr
    have := short_length hrow cpu
    rw [hs] at this
    omega
  · rcases ofParts?_eq_some ho with hp | ⟨-, hp | ⟨-, hp | ⟨-, hp⟩⟩⟩
    · exact hp.symm
    all_goals
      rw [hp] at hlength
      simp at hlength

theorem exists_candidate_of_any (hany : parts.head? = some anyPart) (h : expand? parts = some a) :
    ∃ names ∈ candidates a, expand? names = some a ∧ NotLonger names parts := by
  have hcomponents := components_eq_of_any hany h
  have habi : a.abi = anyPart := by
    have hhead : a.components.head? = some anyPart := by
      rw [hcomponents, List.head?_append, List.head?_replicate]
      split
      · simpa using hany
      · rfl
    exact Option.some.inj hhead
  refine ⟨dropAny a.components, mem_candidates_iff.mpr (Or.inr (Or.inl ⟨habi, rfl⟩)),
    expand?_dropAny habi, notLonger_of_suffix (dropAny_ne_nil (by simp [components])) ?_⟩
  rw [hcomponents]
  exact dropAny_replicate_suffix _ hany

theorem mem_candidates_of_expand? (hany : parts.head? ≠ some anyPart) (h : expand? parts = some a) :
    parts = a.components ∨ parts ∈ candidates a := by
  have hpad : padAny parts = parts := if_neg hany
  rw [mem_candidates_iff]
  rcases expand?_eq_some h with ⟨row, hrow, hr⟩ | ho
  · obtain ⟨cpu, -, hs, hlong⟩ := expand?_alias hr
    rw [hpad] at hs
    have hcpu : row.long a.cpu = a ∧ row.short a.cpu = row.short cpu := by
      rw [← hlong]
      unfold Alias.long Alias.short
      cases row.cpu with
      | none => exact ⟨rfl, rfl⟩
      | some c => exact ⟨rfl, rfl⟩
    exact Or.inr (Or.inl ⟨row, hrow, hcpu.1, hcpu.2.trans hs⟩)
  · rw [hpad] at ho
    rcases ofParts?_eq_some ho with hp | ⟨hbase, hp | ⟨hgnu, hp | ⟨hlinux, hp⟩⟩⟩
    · exact Or.inl hp
    · exact Or.inr (Or.inr (Or.inr ⟨hbase, Or.inr hp⟩))
    · exact Or.inr (Or.inr (Or.inr ⟨hbase, Or.inl ⟨hgnu, hp⟩⟩))
    · obtain ⟨row, hrow, hshort, hlong⟩ := exists_row_short_cpu a.cpu
      refine Or.inr (Or.inl ⟨row, hrow, ?_, hshort.trans hp.symm⟩)
      rw [hlong, ← hbase, ← hgnu, ← hlinux]

/-- Whatever name is read as an architecture, a candidate that is read as it is not longer. -/
theorem exists_candidate (h : expand? parts = some a) :
    parts = a.components ∨
      ∃ names ∈ candidates a, expand? names = some a ∧ NotLonger names parts := by
  by_cases hany : parts.head? = some anyPart
  · exact Or.inr (exists_candidate_of_any hany h)
  · rcases mem_candidates_of_expand? hany h with hp | hp
    · exact Or.inl hp
    · exact Or.inr ⟨parts, hp, h, .refl parts⟩

end Candidates

theorem rel_of_find?_of_pairwise {α : Type} {R : α → α → Prop} {q : α → Bool} {as : List α}
    {first b : α} (hrefl : ∀ b, R b b) (hp : as.Pairwise R) (hf : as.find? q = some first)
    (hb : b ∈ as) (hq : q b = true) : R first b := by
  obtain ⟨-, before, after, rfl, hbefore⟩ := List.find?_eq_some_iff_append.mp hf
  rcases List.mem_append.mp hb with hb | hb
  · have hn := hbefore b hb
    simp [hq] at hn
  · rcases List.mem_cons.mp hb with rfl | hb
    · exact hrefl b
    · exact (List.pairwise_cons.mp (List.pairwise_append.mp hp).2.1).1 b hb

theorem conventionalParts_notLonger (h : expand? parts = some a) :
    NotLonger (conventionalParts a) parts := by
  rw [conventionalParts]
  cases hf : (candidates a).find? fun parts => expand? parts = some a with
  | none =>
      rw [List.find?_eq_none] at hf
      rcases exists_candidate h with rfl | ⟨names, hn, he, -⟩
      · exact .refl _
      · exact absurd (by simpa using he) (hf names hn)
  | some first =>
      rcases exists_candidate h with rfl | ⟨names, hn, he, hle⟩
      · exact notLonger_components (List.mem_of_find?_eq_some hf)
      · have hpairwise := pairwise_candidates a
        have hfirst := rel_of_find?_of_pairwise .refl hpairwise hf hn (by simpa using he)
        exact hfirst.trans hle

/-- The name that is written is read as the same architecture, and no name that is read as it has
fewer parts or characters. -/
theorem render_shortest (text : Text) (a : Architecture) (h : parse text = .ok a) :
    parse a.render = .ok a ∧ ∀ other, parse other = .ok a →
      (split a.render).length ≤ (split (trim other)).length ∧
        a.render.length ≤ (trim other).length := by
  refine ⟨parse_render h, fun other ho => ?_⟩
  rcases parse_cases ho with ⟨htrim, rfl⟩ | ⟨hname, he⟩
  · rw [htrim, show all.render = allPart by cbv]
    exact ⟨le_rfl, le_rfl⟩
  · have hw := hname.wellFormed he
    have hn := (names_conventionalParts a).isName hw
    have hsplit := split_join hn.ne_nil hn.part
    have hj : join "-" (split (trim other)) = trim other := List.intercalate_splitOn '-'
    have hle := conventionalParts_notLonger he
    rw [NotLonger, hj] at hle
    rw [render_eq hw, hsplit]
    exact hle

theorem render_shortest_shadowed : parse " base-gnu-linux-armhf" = .ok
      ⟨"base".toList, "gnu".toList, "linux".toList, "armhf".toList⟩ ∧
    (⟨"base".toList, "gnu".toList, "linux".toList, "armhf".toList⟩ : Architecture).render =
      "linux-armhf".toList ∧
    ∀ other, parse other = .ok ⟨"base".toList, "gnu".toList, "linux".toList, "armhf".toList⟩ →
      (2 ≤ (split (trim other)).length ∧ 11 ≤ (trim other).length) := by
  have h : parse " base-gnu-linux-armhf" = .ok
      ⟨"base".toList, "gnu".toList, "linux".toList, "armhf".toList⟩ := by cbv
  have hr : (⟨"base".toList, "gnu".toList, "linux".toList, "armhf".toList⟩ : Architecture).render =
      "linux-armhf".toList := by cbv
  refine ⟨h, hr, fun other ho => ?_⟩
  have hle := (render_shortest _ _ h).2 other ho
  rw [hr] at hle
  exact hle

end DebianPackaging.Architecture
