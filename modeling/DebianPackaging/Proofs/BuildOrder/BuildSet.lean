import DebianPackaging.BuildOrder.Basic
import DebianPackaging.Proofs.Outcome

namespace DebianPackaging

open Text Outcome

def IsSourceRelationship (field : Text) : Prop :=
  ∃ rule ∈ RecordKind.sourceSchema, lower rule.name = lower field ∧ rule.kind = .dependency

theorem isSourceRelationship_defaults :
    ∀ field ∈ Settings.defaults.orderFields, IsSourceRelationship field := by
  intro field hfield
  simp only [Settings.defaults, List.mem_cons, List.not_mem_nil, or_false] at hfield
  rcases hfield with rfl | rfl | rfl
  · exact ⟨.optional "Build-Depends" .dependency, by simp [RecordKind.sourceSchema], rfl, rfl⟩
  · exact ⟨.optional "Build-Depends-Arch" .dependency, by simp [RecordKind.sourceSchema], rfl, rfl⟩
  · exact ⟨.optional "Build-Depends-Indep" .dependency, by simp [RecordKind.sourceSchema], rfl, rfl⟩

namespace BuildSet

variable {s : BuildSet} {c : Control} {name source a b : Text} {needed : List Text}

/-- A configured field of the source asks for a package of this name, on the host and under the
active profiles. -/
def Asks (s : BuildSet) (c : Control) (name : Text) : Prop :=
  ∃ field ∈ s.settings.orderFields, ∃ d, c.source.relationship field = .ok d ∧
    ∃ p ∈ d.select s.host (some s.settings.buildProfiles), p.isSubstvar = false ∧ p.name = name

/-- The source has a binary package of this name which is built on the host, and such names count. -/
def Provides (s : BuildSet) (c : Control) (name : Text) : Prop :=
  s.settings.includeBinaryNames = true ∧
    ∃ binary ∈ c.binaries, binary.package = name ∧ binary.buildsOn s.host = true

def IsProvider (s : BuildSet) (name source : Text) : Prop :=
  ∃ before c after, s.sources = before ++ c :: after ∧ c.name = source ∧ s.Provides c name ∧
    ∀ e ∈ before, ¬s.Provides e name

/-- A source asks for another source, or for a name that is no source and that the other source is
the first to provide. -/
def DependsOn (s : BuildSet) (a b : Text) : Prop :=
  b ≠ a ∧ ∃ c ∈ s.sources, c.name = a ∧ ∃ name, s.Asks c name ∧
    (name ∈ s.names ∧ name = b ∨ name ∉ s.names ∧ s.IsProvider name b)

def IsExternal (s : BuildSet) (name : Text) : Prop :=
  (∃ c ∈ s.sources, s.Asks c name) ∧ name ∉ s.names ∧ ¬∃ source, s.IsProvider name source

theorem exists_relationship {field : Text} (h : IsSourceRelationship field)
    (hk : c.source.kind = .source) : ∃ d, c.source.relationship field = .ok d := by
  obtain ⟨rule, hr, hname, hkind⟩ := h
  have hsome : (c.source.kind.schema.find? fun rule =>
      lower rule.name = lower field && rule.kind = .dependency).isSome = true := by
    rw [List.find?_isSome, hk]
    exact ⟨rule, hr, by simp [hname, hkind]⟩
  obtain ⟨found, hfound⟩ := Option.isSome_iff_exists.mp hsome
  exact ⟨c.source.dependency found.slot, by rw [Record.relationship, hfound]⟩

theorem exists_neededNames (hf : ∀ field ∈ s.settings.orderFields, IsSourceRelationship field)
    (hk : c.source.kind = .source) : ∃ needed, s.neededNames c = .ok needed := by
  obtain ⟨namess, hn⟩ := exists_mapM_eq_ok (f := s.fieldNames c) fun field hfield => by
    obtain ⟨d, hd⟩ := exists_relationship (hf field hfield) hk
    rw [fieldNames, hd]
    exact ⟨_, rfl⟩
  exact ⟨namess.flatten, by rw [neededNames, hn]; rfl⟩

theorem mem_fieldNames {field : Text} {names : List Text} (h : s.fieldNames c field = .ok names) :
    name ∈ names ↔ ∃ d, c.source.relationship field = .ok d ∧
      ∃ p ∈ d.select s.host (some s.settings.buildProfiles), p.isSubstvar = false ∧ p.name = name := by
  obtain ⟨d, hd, rfl⟩ := map_eq_ok_iff.mp h
  rw [List.mem_map]
  constructor
  · rintro ⟨p, hp, hname⟩
    obtain ⟨hmem, hs⟩ := List.mem_filter.mp hp
    exact ⟨d, hd, p, hmem, by simpa using hs, hname⟩
  · rintro ⟨d', hd', p, hmem, hs, hname⟩
    rw [hd] at hd'
    cases hd'
    exact ⟨p, List.mem_filter.mpr ⟨hmem, by simp [hs]⟩, hname⟩

theorem mem_neededNames (h : s.neededNames c = .ok needed) : name ∈ needed ↔ s.Asks c name := by
  obtain ⟨namess, hn, rfl⟩ := map_eq_ok_iff.mp h
  rw [List.mem_flatten, Asks]
  constructor
  · rintro ⟨names, hmem, hname⟩
    obtain ⟨field, hfield, hok⟩ := exists_of_mem_mapM hn names hmem
    exact ⟨field, hfield, (mem_fieldNames hok).mp hname⟩
  · rintro ⟨field, hfield, hasks⟩
    obtain ⟨names, hmem, hok⟩ := exists_image_of_mapM hn field hfield
    exact ⟨names, hmem, (mem_fieldNames hok).mpr hasks⟩

section Providers

def meets (name : Text) (o : Offer) : Bool :=
  o.built && o.binary = name

theorem exists_offer_iff (hi : s.settings.includeBinaryNames = true) :
    (∃ o ∈ s.offersOf c, meets name o = true) ↔ s.Provides c name := by
  simp [offersOf, meets, Provides, hi, and_comm]

theorem find?_offersOf_eq_none_iff (hi : s.settings.includeBinaryNames = true) :
    (s.offersOf c).find? (meets name) = none ↔ ¬s.Provides c name := by
  rw [← exists_offer_iff hi, List.find?_eq_none]
  push Not
  rfl

theorem find?_offersOf_eq_some (hi : s.settings.includeBinaryNames = true) {o : Offer}
    (h : (s.offersOf c).find? (meets name) = some o) : o.source = c.name ∧ s.Provides c name := by
  have hmem := List.mem_of_find?_eq_some h
  refine ⟨?_, (exists_offer_iff hi).mp ⟨o, hmem, List.find?_some h⟩⟩
  obtain ⟨binary, -, rfl⟩ := List.mem_map.mp hmem
  rfl

theorem provider?_eq_some_iff : s.provider? name = some source ↔ s.IsProvider name source := by
  cases hi : s.settings.includeBinaryNames with
  | false => simp [provider?, offers, IsProvider, Provides, hi]
  | true =>
      have hfind : s.offers.find? (meets name) =
          s.sources.findSome? fun c => (s.offersOf c).find? (meets name) := by
        rw [offers, if_pos hi, List.find?_flatMap]
      change (s.offers.find? (meets name)).map Offer.source = some source ↔ _
      rw [hfind, Option.map_eq_some_iff]
      simp only [List.findSome?_eq_some_iff, find?_offersOf_eq_none_iff hi]
      constructor
      · rintro ⟨o, ⟨before, c, after, hs, ho, hbefore⟩, rfl⟩
        obtain ⟨hsource, hp⟩ := find?_offersOf_eq_some hi ho
        exact ⟨before, c, after, hs, hsource.symm, hp, hbefore⟩
      · rintro ⟨before, c, after, hs, rfl, hp, hbefore⟩
        obtain ⟨o, ho⟩ := Option.ne_none_iff_exists'.mp
          (mt (find?_offersOf_eq_none_iff hi).mp (not_not.mpr hp))
        exact ⟨o, ⟨before, c, after, hs, ho, hbefore⟩, (find?_offersOf_eq_some hi ho).1⟩

theorem IsProvider.mem_names (h : s.IsProvider name source) : source ∈ s.names := by
  obtain ⟨before, c, after, hs, rfl, -, -⟩ := h
  exact List.mem_map.mpr ⟨c, by simp [hs], rfl⟩

theorem target?_eq_some_iff : s.target? name = some b ↔
    name ∈ s.names ∧ name = b ∨ name ∉ s.names ∧ s.IsProvider name b := by
  rw [target?, ← provider?_eq_some_iff]
  by_cases hname : name ∈ s.names
  · simp [hname]
  · simp [hname]

theorem mem_names_of_target? (h : s.target? name = some b) : b ∈ s.names := by
  rcases target?_eq_some_iff.mp h with ⟨hname, rfl⟩ | ⟨-, hp⟩
  · exact hname
  · exact hp.mem_names

theorem target?_eq_none_iff :
    s.target? name = none ↔ name ∉ s.names ∧ ¬∃ source, s.IsProvider name source := by
  rw [Option.eq_none_iff_forall_ne_some]
  simp only [ne_eq, target?_eq_some_iff]
  by_cases hname : name ∈ s.names
  · simp [hname]
  · simp [hname]

end Providers

theorem mem_targets (h : s.neededNames c = .ok needed) :
    b ∈ s.targets c needed ↔ b ≠ c.name ∧ ∃ name, s.Asks c name ∧
      (name ∈ s.names ∧ name = b ∨ name ∉ s.names ∧ s.IsProvider name b) := by
  rw [targets, List.mem_filter, List.mem_filterMap, and_comm]
  simp only [bne_iff_ne, ne_eq, mem_neededNames h, target?_eq_some_iff]

theorem mem_external (h : s.neededNames c = .ok needed) :
    name ∈ s.external needed ↔
      s.Asks c name ∧ name ∉ s.names ∧ ¬∃ source, s.IsProvider name source := by
  rw [external, List.mem_filter, mem_neededNames h, Option.isNone_iff_eq_none, target?_eq_none_iff]

end BuildSet

end DebianPackaging
