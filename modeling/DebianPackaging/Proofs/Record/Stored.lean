import DebianPackaging.Proofs.Paragraph.Stored
import DebianPackaging.Proofs.Record.Value

namespace DebianPackaging

open Text Outcome Paragraph

variable {kind : FieldKind} {v : FieldValue} {t u : Text} {ts : List Text} {c : Char}

/-- Not items of which the last one ends in a lone dot. -/
def FieldValue.SurvivesFolding : FieldValue → Prop
  | .items ts => ∀ t ∈ ts.getLast?, ¬['\n', '.'] <:+ t
  | _ => True

instance (v : FieldValue) : Decidable v.SurvivesFolding :=
  match v with
  | .items ts => inferInstanceAs (Decidable (∀ t ∈ ts.getLast?, ¬['\n', '.'] <:+ t))
  | .text _ | .flag _ | .version _ | .dependency _ | .architecture _ | .architectures _ =>
      .isTrue trivial

section Items

theorem isPiece_of_mem_parseItems (ht : IsStored t) (h : u ∈ parseItems t) : IsPiece u := by
  obtain ⟨hm, -⟩ := List.mem_filter.mp h
  obtain ⟨piece, hpiece, rfl⟩ := List.mem_map.mp hm
  have hi := isItem_of_mem_parseItems h
  have hwithin : trim piece <:+: t := (infix_trim piece).trans (infix_of_mem_splitOn hpiece)
  exact ⟨hi.ne_nil, hi.trimmed, ht.isStorable.within hwithin⟩

theorem sum_count_parseItems_le (t : Text) :
    ((parseItems t).map (List.count '.')).sum ≤ t.count '.' := by
  have hcomma : ',' ≠ '.' := by decide
  rw [count_eq_sum_splitOn hcomma t, parseItems]
  refine (List.Sublist.sum_le_sum (List.filter_sublist.map _) (by simp)).trans ?_
  rw [List.map_map]
  exact List.sum_le_sum fun piece _ => count_trim_le piece '.'

theorem isLineEnd_of_mem_comma : ∀ c ∈ [',', ' '], isLineEnd c = false := by
  rw [List.forall_mem_cons, List.forall_mem_singleton]
  decide

theorem hasOnlyLineFeeds_joinItems (h : ∀ t ∈ ts, IsPiece t) : HasOnlyLineFeeds (join ", " ts) := by
  by_cases hnil : ts = []
  · rw [hnil]
    exact isStored_nil.lineFeeds
  · exact (isPiece_join hnil h isLineEnd_of_mem_comma).storable.hasOnlyLineFeeds

theorem parseItems_stored_iff (h : ∀ t ∈ ts, IsItem t ∧ IsPiece t) :
    parseItems (stored (join ", " ts)) = ts ↔ (FieldValue.items ts).SurvivesFolding := by
  have hpieces : ∀ t ∈ ts, IsPiece t := fun t ht => (h t ht).2
  have hiff : IsStored (join ", " ts) ↔ (FieldValue.items ts).SurvivesFolding :=
    isStored_join_iff hpieces (by decide) isLineEnd_of_mem_comma
  rw [← hiff]
  constructor
  · intro hread
    by_cases hnil : ts = []
    · rw [hnil]
      exact isStored_nil
    · have hp : IsPiece (join ", " ts) := isPiece_join hnil hpieces isLineEnd_of_mem_comma
      refine isStored_iff.mpr ⟨hp.storable, hp.trimmed, ?_⟩
      rintro ⟨before, hdot⟩
      -- Without the lone dot there are too few dots for the items.
      have hfeed : '\n' ∉ ['.'] := by decide
      have hm := mem_tail_splitOn hfeed before [] (Or.inl rfl)
      rw [List.append_nil, hdot] at hm
      have hlt := count_stored_lt hp.trimmed hm
      have hle := sum_count_parseItems_le (stored (join ", " ts))
      have hcount : (join ", " ts).count '.' = (ts.map (List.count '.')).sum :=
        count_join (by decide) ts
      rw [hread] at hle
      omega
  · intro hs
    rw [hs.stored_eq]
    exact parseItems_join fun t ht => (h t ht).1

end Items

section Lines

theorem trim_join_valueLines (h : ∀ t ∈ ts, IsValueLine t) :
    trim (join "\n" ts) = join "\n" ts := by
  have hne : ∀ t ∈ ts, ¬t.isEmpty = true := fun t ht => by simpa using (h t ht).ne_nil
  have hdrop : ts.dropWhile (·.isEmpty) = ts := by
    rw [List.dropWhile_eq_self_iff]
    exact fun hpos => hne _ (List.getElem_mem hpos)
  have hrdrop : ts.rdropWhile (·.isEmpty) = ts := by
    rw [List.rdropWhile_eq_self_iff]
    exact fun hnil => hne _ (List.getLast_mem hnil)
  rw [trim_join_lines fun t ht => (h t ht).trimmed, hdrop, hrdrop]

theorem isStored_join_parseLines (h : IsStored t) : IsStored (join "\n" (parseLines t)) := by
  have hv : ∀ u ∈ parseLines t, IsValueLine u := fun u hu => isValueLine_of_mem_parseLines hu
  have hsub : (lines t).Sublist (t.splitOn '\n') := (lines_prefix_splitOn h.lineFeeds).sublist
  have htrim : (lines t).map trim = lines t :=
    (List.map_congr_left fun l hl => h.lines l (hsub.subset hl)).trans (List.map_id _)
  have hlater : (parseLines t).Sublist (t.splitOn '\n') := by
    rw [parseLines, htrim]
    exact List.filter_sublist.trans hsub
  have hstored := isStored_trim_join (fun u hu => (hv u hu).trimmed) (fun u hu => (hv u hu).chars)
    fun hd => h.dots (hlater.tail.subset hd)
  rwa [trim_join_valueLines hv] at hstored

theorem survivesFolding_parseLines (t : Text) :
    (FieldValue.items (parseLines t)).SurvivesFolding := by
  intro u hu hdot
  have hv := isValueLine_of_mem_parseLines (List.mem_of_getLast? hu)
  exact absurd (hv.chars '\n' (hdot.subset (by simp))) (by decide)

end Lines

section Architectures

theorem isPartChar_of_mem_isPart {part : Text} (h : Architecture.isPart part = true) (hc : c ∈ part) :
    Architecture.isPartChar c = true ∨ c = '\n' := by
  by_cases hl : part.getLast? = some '\n'
  · obtain ⟨body, rfl⟩ := List.getLast?_eq_some_iff.mp hl
    simp only [Architecture.isPart, hl, if_true, List.dropLast_concat, Bool.and_eq_true,
      List.all_eq_true] at h
    rcases List.mem_append.mp hc with hc | hc
    · exact Or.inl (h.2 c hc)
    · exact Or.inr (List.mem_singleton.mp hc)
  · exact Or.inl (Architecture.isPartChar_of_getLast? h hl c hc)

theorem isStored_renderArchitecture {a : Architecture} (h : a = Architecture.all ∨ a.WellFormed) :
    IsStored a.render := by
  rcases h with rfl | hw
  · exact isStored_of_word (isBlank_of_mem_render Architecture.plain_all)
  · have hname := (Architecture.names_conventionalParts a).isName hw
    have hchars : ∀ c ∈ join "-" a.conventionalParts,
        Architecture.isPartChar c = true ∨ c = '\n' ∨ c = '-' := by
      intro c hc
      rcases mem_join hc with hc | ⟨part, hpart, hc⟩
      · exact Or.inr (Or.inr (by simpa using hc))
      · exact (isPartChar_of_mem_isPart (hname.part part hpart) hc).imp_right Or.inl
    rw [Architecture.render_eq hw]
    refine isStored_of_no_dot hname.trim_join (fun c hc hb => ?_) fun hd => ?_
    · rcases hchars c hc with hp | rfl | rfl
      · have hnat := Architecture.isPartChar_toNat hp
        rw [isBlank_of_toNat ⟨hnat.1, hnat.2.1⟩] at hb
        cases hb
      · rfl
      · exact absurd hb (by decide)
    · exact absurd (hchars '.' hd) (by decide)

theorem isStored_joinArchitectures {as : List Architecture} (h : ∀ a ∈ as, a.Plain) :
    IsStored (join " " (as.map Architecture.render)) := by
  have hwords : ∀ w ∈ as.map Architecture.render, w ≠ [] ∧ ∀ c ∈ w, isBlank c = false := by
    rw [List.forall_mem_map]
    exact fun a ha => ⟨(h a ha).render_ne_nil, isBlank_of_mem_render (h a ha)⟩
  have hline : ∀ c ∈ [' '], isLineEnd c = false := by
    rw [List.forall_mem_singleton]
    decide
  have hpieces : ∀ w ∈ as.map Architecture.render, IsPiece w := fun w hw =>
    isPiece_of_word (hwords w hw).1 (hwords w hw).2
  refine (isStored_join_iff hpieces (by simp) hline).mpr fun w hw hdot => ?_
  exact absurd ((hwords w (List.mem_of_getLast? hw)).2 '\n' (hdot.subset (by simp))) (by decide)

end Architectures

section Dependency

open Dependency

variable {p : Possibility} {r : Relation} {d : Dependency} {xs : List (Bracket × Text)}

theorem isLineEnd_of_isInnerChar {b : Bracket} (h : b.isInnerChar c = true) :
    isLineEnd c = false := by
  have hb : isBlank c = false ∨ c = ' ' ∨ c = '!' ∨ c = '-' := by
    cases b with
    | round =>
        simp only [Bracket.isInnerChar, Bool.or_eq_true, beq_iff_eq] at h
        rcases h with (h | h) | h
        · exact Or.inl (isBlank_of_isOperatorChar h)
        · exact Or.inl (isBlank_of_toNat (Version.isReleaseChar_printable h))
        · exact Or.inr (Or.inl h)
    | square =>
        simp only [Bracket.isInnerChar, Bool.or_eq_true, beq_iff_eq] at h
        rcases h with ((h | h) | h) | h
        · have hn := Architecture.isPartChar_toNat h
          exact Or.inl (isBlank_of_toNat ⟨hn.1, hn.2.1⟩)
        all_goals simp [h]
    | angle =>
        simp only [Bracket.isInnerChar, Bool.or_eq_true, beq_iff_eq] at h
        rcases h with (h | h) | h
        · exact Or.inl (isBlank_of_toNat (isProfileChar_toNat h))
        all_goals simp [h]
  rcases hb with hb | rfl | rfl | rfl
  · exact isLineEnd_of_isBlank hb
  all_goals decide

theorem isLineEnd_of_mem_sectionsText (h : ∀ x ∈ xs, ∀ c ∈ x.2, x.1.isInnerChar c = true) :
    ∀ c ∈ sectionsText xs, isLineEnd c = false := by
  intro c hc
  obtain ⟨⟨b, inner⟩, hx, hc⟩ := List.mem_flatMap.mp hc
  simp only [sectionText, List.mem_append, List.mem_cons, List.not_mem_nil, or_false] at hc
  rcases hc with (rfl | rfl | hc) | rfl
  · decide
  · cases b <;> decide
  · exact isLineEnd_of_isInnerChar (h _ hx c hc)
  · cases b <;> decide

theorem isLineEnd_of_mem_qualifierText {qualifier : Option Text}
    (h : ∀ q ∈ qualifier, IsQualifier q) : ∀ c ∈ qualifierText qualifier, isLineEnd c = false := by
  cases qualifier with
  | none => simp [qualifierText]
  | some q =>
      intro c hc
      rcases List.mem_cons.mp hc with rfl | hc
      · decide
      · exact isLineEnd_of_isBlank
          (isBlank_of_isNameChar (isNameChar_of_isQualifierChar ((h q rfl).2 c hc)))

theorem not_dot_suffix_name {name : Text} (h : IsPossibilityName name) :
    ¬['\n', '.'] <:+ name := by
  rcases h with ⟨inner, rfl, -⟩ | ⟨c, rest, rfl, hc, hrest⟩
  · intro hdot
    obtain ⟨front, hf, -⟩ := (List.suffix_concat_iff.mp hdot).resolve_left (by simp)
    have hlast := congrArg List.getLast? hf
    simp at hlast
  · intro hdot
    rcases List.mem_cons.mp (hdot.subset (List.mem_cons_self)) with rfl | hm
    · exact absurd hc (by decide)
    · exact absurd (hrest _ hm) (by decide)

/-- Substitution variables hold the line feeds of a possibility, and end in a brace. -/
theorem isPiece_renderPossibility (h : p.WellFormed) (hn : IsStorable p.name) :
    IsPiece p.render ∧ ¬['\n', '.'] <:+ p.render := by
  obtain ⟨⟨first, rest, hname, -⟩, hends⟩ := IsPossibilityName.ends h.name
  have hlast : p.name.getLast? ≠ some '\n' := fun hl => absurd (hends _ hl) (by decide)
  have htrim := trim_render h
  have htail : ∀ c ∈ qualifierText p.qualifier ++ sectionsText (sections p),
      isLineEnd c = false := by
    intro c hc
    rcases List.mem_append.mp hc with hc | hc
    · exact isLineEnd_of_mem_qualifierText h.qualifier c hc
    · exact isLineEnd_of_mem_sectionsText (isInnerChar_of_mem_sections h) c hc
  rw [render_eq h] at htrim ⊢
  generalize qualifierText p.qualifier ++ sectionsText (sections p) = tail at htrim htail ⊢
  have hfeed : '\n' ∉ tail := fun hm => absurd (htail _ hm) (by decide)
  refine ⟨⟨by simp [hname], htrim, hn.append (isStorable_of_line htail) hlast fun hh =>
    hfeed (List.mem_of_head? hh)⟩, ?_⟩
  by_cases hnil : tail = []
  · rw [hnil, List.append_nil]
    exact not_dot_suffix_name h.name
  · rw [dot_suffix_append_iff hnil hlast]
    exact fun hdot => hfeed (hdot.subset (by simp))

theorem isPiece_renderRelation (h : r.WellFormed) (hn : ∀ p ∈ r, IsStorable p.name) :
    IsPiece r.render ∧ ¬['\n', '.'] <:+ r.render := by
  have hline : ∀ c ∈ [' ', '|', ' '], isLineEnd c = false := by
    rw [List.forall_mem_cons, List.forall_mem_cons, List.forall_mem_singleton]
    decide
  have hp : ∀ t ∈ r.map Possibility.render, IsPiece t ∧ ¬['\n', '.'] <:+ t := by
    rw [List.forall_mem_map]
    exact fun p hp => isPiece_renderPossibility (h.2 p hp) (hn p hp)
  have hpieces : ∀ t ∈ r.map Possibility.render, IsPiece t := fun t ht => (hp t ht).1
  refine ⟨isPiece_join (by simpa using h.1) hpieces hline, ?_⟩
  refine (isStored_iff.mp ((isStored_join_iff hpieces (by simp) hline).mpr ?_)).2.2
  exact fun t ht => (hp t (List.mem_of_getLast? ht)).2

theorem isStored_renderDependency (h : d.WellFormed) (hn : ∀ r ∈ d, ∀ p ∈ r, IsStorable p.name) :
    IsStored (Dependency.render d) := by
  have hr : ∀ t ∈ d.map Relation.render, IsPiece t ∧ ¬['\n', '.'] <:+ t := by
    rw [List.forall_mem_map]
    exact fun r hr => isPiece_renderRelation (h r hr) (hn r hr)
  refine (isStored_join_iff (fun t ht => (hr t ht).1) (by decide) isLineEnd_of_mem_comma).mpr ?_
  exact fun t ht => (hr t (List.mem_of_getLast? ht)).2

theorem infix_name_of_parse (h : Dependency.parse t = .ok d) : ∀ r ∈ d, ∀ p ∈ r, p.name <:+: t := by
  rw [Dependency.parse, mapError_eq_ok_iff, Dependency.read] at h
  intro r hr p hp
  obtain ⟨stretch, hs, hread⟩ := exists_of_mem_mapM h r hr
  obtain ⟨piece, hpiece, hread⟩ := exists_of_mem_mapM hread p hp
  rw [readPossibility] at hread
  obtain ⟨⟨name, rest⟩, hname, hread⟩ := bind_eq_ok_iff.mp hread
  obtain ⟨sections, -, hread⟩ := bind_eq_ok_iff.mp hread
  cases hread
  obtain ⟨-, ht⟩ := readName_sound hname
  have hstart : name <+: trim piece := ⟨rest, ht.symm⟩
  have hstretch : stretch <:+: t := infix_of_mem_splitOn (List.mem_filter.mp hs).1
  exact hstart.isInfix.trans <| (infix_trim piece).trans <|
    (infix_of_mem_splitOn hpiece).trans hstretch

end Dependency

theorem isStored_render (h : kind.parse t = .ok v) (ht : IsStored t) (hk : kind ≠ .items) :
    IsStored (kind.readLayout.render v) ∧ v.SurvivesFolding := by
  cases kind with
  | text =>
      cases h
      exact ⟨ht, trivial⟩
  | items => exact absurd rfl hk
  | flag =>
      obtain ⟨b, -, rfl⟩ := map_eq_ok_iff.mp h
      have hword : ((FieldKind.flag.readLayout.render (.flag b)).all (!isBlank ·)) = true := by
        cases b <;> cbv
      exact ⟨isStored_of_word (by simpa using hword), trivial⟩
  | lines =>
      cases h
      exact ⟨isStored_join_parseLines ht, survivesFolding_parseLines t⟩
  | version =>
      obtain ⟨version, hv, rfl⟩ := parse_eq_ok_iff.mp h
      have hchars := (Version.wellFormed_of_parseWith hv).isReleaseChar_of_mem_render
      refine ⟨isStored_of_word fun c hc => ?_, trivial⟩
      exact isBlank_of_toNat (Version.isReleaseChar_printable (hchars c hc))
  | dependency =>
      obtain ⟨d, hd, rfl⟩ := parse_eq_ok_iff.mp h
      have hnames : ∀ r ∈ d, ∀ p ∈ r, IsStorable p.name := fun r hr p hp =>
        ht.isStorable.within (infix_name_of_parse hd r hr p hp)
      exact ⟨isStored_renderDependency (Dependency.wellFormed_of_parse hd) hnames, trivial⟩
  | architecture =>
      obtain ⟨a, ha, rfl⟩ := parse_eq_ok_iff.mp h
      exact ⟨isStored_renderArchitecture (Architecture.parse_eq_ok ha), trivial⟩
  | architectures =>
      obtain ⟨as, has, rfl⟩ := parse_eq_ok_iff.mp h
      exact ⟨isStored_joinArchitectures (plain_of_parseList has), trivial⟩

/-- What is read again of a value, after it was laid out and stored. -/
theorem FieldKind.parse_stored (h : kind.parse t = .ok v) (ht : IsStored t) :
    HasOnlyLineFeeds (kind.readLayout.render v) ∧
      ∃ v', kind.parse (stored (kind.readLayout.render v)) = .ok v' ∧
        (v' = v ↔ v.SurvivesFolding) := by
  by_cases hk : kind = .items
  · subst hk
    cases h
    have hitems : ∀ u ∈ parseItems t, IsItem u ∧ IsPiece u := fun u hu =>
      ⟨isItem_of_mem_parseItems hu, isPiece_of_mem_parseItems ht hu⟩
    refine ⟨?_, _, rfl, ?_⟩
    · exact hasOnlyLineFeeds_joinItems fun u hu => (hitems u hu).2
    · rw [FieldValue.items.injEq]
      exact parseItems_stored_iff hitems
  · obtain ⟨hs, hv⟩ := isStored_render h ht hk
    refine ⟨hs.lineFeeds, v, ?_, by simp [hv]⟩
    rw [hs.stored_eq]
    exact FieldKind.parse_render h

end DebianPackaging
