import DebianPackaging.Proofs.Architecture.Wildcard
import DebianPackaging.Proofs.Record.Concatenation

namespace DebianPackaging

open Text Outcome Paragraph Architecture

variable {p : Paragraph} {r : Record} {name t : Text} {a : Architecture} {row : Text × FieldValue}
  {kind : RecordKind}

theorem exists_readRecord_iff :
    (∃ r, readRecord kind p = .ok r) ↔ ∀ rule ∈ kind.schema, ∃ row, rule.decode p = .ok row := by
  constructor
  · rintro ⟨r, hr⟩ rule hrule
    rw [readRecord, mapError_eq_ok_iff, Record.decode, map_eq_ok_iff] at hr
    obtain ⟨values, hd, -⟩ := hr
    obtain ⟨rows, hrows, -⟩ := map_eq_ok_iff.mp hd
    obtain ⟨row, -, hrow⟩ := exists_image_of_mapM hrows rule hrule
    exact ⟨row, hrow⟩
  · intro h
    obtain ⟨rows, hrows⟩ := exists_mapM_eq_ok h
    refine ⟨⟨kind, Table.ofRows rows, p⟩, ?_⟩
    rw [readRecord, mapError_eq_ok_iff, Record.decode, Schema.decode, hrows]
    rfl

theorem Index.exists_parse_iff {i : Index} : (∃ rs, (i.parse t).result = .ok rs) ↔
    ∃ ps, readAll t = .ok ps ∧ ∀ p ∈ ps, ∃ r, readRecord i.kind p = .ok r := by
  simp only [Index.parse_eq_ok_iff]
  constructor
  · rintro ⟨rs, ps, hps, hrs⟩
    refine ⟨ps, hps, fun p hp => ?_⟩
    obtain ⟨r, -, hr⟩ := exists_of_forall₂ hrs.flip p hp
    exact ⟨r, hr⟩
  · rintro ⟨ps, hps, h⟩
    obtain ⟨rs, hrs⟩ := exists_mapM_eq_ok h
    exact ⟨rs, ps, hps, mapM_eq_ok_iff.mp hrs⟩

structure Paragraph.NamesArchitecture (p : Paragraph) (name : Text) (a : Architecture) : Prop where
  field : p.get? "Architecture" = some name
  parse : Architecture.parse name = .ok a

namespace FieldRule

def architecture : FieldRule := .needed "Architecture" .architecture

theorem architecture_mem : architecture ∈ RecordKind.binaryIndex.schema := by
  decide

theorem architecture_parse_iff : architecture.parse t = .ok row ↔
    ∃ a, Architecture.parse t = .ok a ∧ row = (architecture.slot, .architecture a) := by
  rw [parse_eq_ok_iff, architecture, needed, FieldKind.parse]
  simp only [mapError_eq_ok_iff, map_eq_ok_iff]
  constructor
  · rintro ⟨_, ⟨a, ha, rfl⟩, hrow⟩
    exact ⟨a, ha, hrow⟩
  · rintro ⟨a, ha, hrow⟩
    exact ⟨_, ⟨a, ha, rfl⟩, hrow⟩

theorem architecture_decode_iff : architecture.decode p = .ok row ↔
    ∃ name a, p.NamesArchitecture name a ∧ row = (architecture.slot, .architecture a) := by
  rw [decode]
  cases hget : p.get? architecture.name with
  | none =>
      have hnone : ∀ name a, ¬p.NamesArchitecture name a := fun name a h => by
        cases hget.symm.trans h.field
      simp [hnone, architecture, needed]
  | some t =>
      constructor
      · intro h
        obtain ⟨a, ha, hrow⟩ := architecture_parse_iff.mp h
        exact ⟨t, a, ⟨hget, ha⟩, hrow⟩
      · rintro ⟨name, a, h, hrow⟩
        obtain rfl : name = t := Option.some.inj (h.field.symm.trans hget)
        exact architecture_parse_iff.mpr ⟨a, h.parse, hrow⟩

end FieldRule

/-- A paragraph is read as an entry whatever architecture it names. -/
theorem exists_entry_iff : (∃ r, readRecord .binaryIndex p = .ok r) ↔
    (∃ name a, p.NamesArchitecture name a) ∧
      ∀ rule ∈ RecordKind.binaryIndex.schema, rule ≠ .architecture →
        ∃ row, rule.decode p = .ok row := by
  rw [exists_readRecord_iff]
  constructor
  · intro h
    obtain ⟨row, hrow⟩ := h _ FieldRule.architecture_mem
    obtain ⟨name, a, hname, -⟩ := FieldRule.architecture_decode_iff.mp hrow
    exact ⟨⟨name, a, hname⟩, fun rule hrule _ => h rule hrule⟩
  · rintro ⟨⟨name, a, hname⟩, hrules⟩ rule hrule
    by_cases hr : rule = .architecture
    · subst hr
      exact ⟨_, FieldRule.architecture_decode_iff.mpr ⟨name, a, hname, rfl⟩⟩
    · exact hrules rule hrule hr

theorem namesArchitecture_of_readRecord (h : readRecord .binaryIndex p = .ok r) :
    ∃ name a, p.NamesArchitecture name a ∧ r.architectures "architecture" = [a] := by
  rw [readRecord, mapError_eq_ok_iff, Record.decode, map_eq_ok_iff] at h
  obtain ⟨values, hd, rfl⟩ := h
  have hrows := (RecordKind.lawful _).decode_eq_ok_iff.mp hd
  have hslots : (values.map Prod.fst).Nodup :=
    keys_of_forall₂ hrows ▸ (RecordKind.lawful _).slots
  obtain ⟨row, hmem, hrow⟩ := exists_of_forall₂ hrows.flip _ FieldRule.architecture_mem
  obtain ⟨name, a, hname, rfl⟩ := FieldRule.architecture_decode_iff.mp hrow
  have hlookup := Table.lookup_of_mem hslots hmem
  have hslot : FieldRule.architecture.slot = "architecture".toList := by cbv
  rw [hslot] at hlookup
  exact ⟨name, a, hname, by simp only [Record.architectures, hlookup]⟩

/-- The architecture that a paragraph names is the one that its entry holds. It is a wildcard by a part
of the name. -/
structure HoldsArchitecture (p : Paragraph) (r : Record) (name : Text) (a : Architecture) : Prop where
  names : p.NamesArchitecture name a
  holds : r.architectures "architecture" = [a]
  wildcard : a.isWildcard = true ↔ anyPart ∈ split (trim name)
  single : a.isWildcard = false ↔ a = all ∨ a.isConcrete = true

theorem holdsArchitecture_of_readRecord (h : readRecord .binaryIndex p = .ok r) :
    ∃ name a, HoldsArchitecture p r name a := by
  obtain ⟨name, a, hname, ha⟩ := namesArchitecture_of_readRecord h
  exact ⟨name, a, hname, ha, isWildcard_iff_any_mem hname.parse,
    isWildcard_eq_false_iff (parse_eq_ok hname.parse)⟩

theorem HoldsArchitecture.single_iff (h : HoldsArchitecture p r name a) :
    (∀ b ∈ r.architectures "architecture", b = all ∨ b.isConcrete = true) ↔
      ∀ t, p.get? "Architecture" = some t → anyPart ∉ split (trim t) := by
  simp only [h.holds, h.names.field, List.mem_singleton, forall_eq, Option.some.injEq, forall_eq',
    ← h.single, ← h.wildcard, Bool.not_eq_true]

namespace Index

/-- A text is an index of binary packages exactly when every paragraph names an architecture, of
whatever kind, and has the other fields of an entry. Each entry holds the architecture that its
paragraph names. All of these are concrete or `all` exactly when no name has a part `any`. -/
theorem packages_architectures (t : Text) :
    ((∃ entries, (packages.parse t).result = .ok entries) ↔
      ∃ ps, readAll t = .ok ps ∧ ∀ p ∈ ps, (∃ name a, p.NamesArchitecture name a) ∧
        ∀ rule ∈ RecordKind.binaryIndex.schema, rule ≠ .architecture →
          ∃ row, rule.decode p = .ok row) ∧
    ∀ entries, (packages.parse t).result = .ok entries →
      ∃ ps, readAll t = .ok ps ∧
        List.Forall₂ (fun p r => ∃ name a, HoldsArchitecture p r name a) ps entries ∧
        ((∀ r ∈ entries, ∀ a ∈ r.architectures "architecture", a = all ∨ a.isConcrete = true) ↔
          ∀ p ∈ ps, ∀ name, p.get? "Architecture" = some name → anyPart ∉ split (trim name)) := by
  constructor
  · rw [exists_parse_iff]
    exact exists_congr fun ps => and_congr_right fun _ => forall₂_congr fun p _ => exists_entry_iff
  · intro entries h
    obtain ⟨ps, hps, hrecords⟩ := parse_eq_ok_iff.mp h
    have hentries := hrecords.imp fun p r hr => holdsArchitecture_of_readRecord hr
    refine ⟨ps, hps, hentries, ?_, ?_⟩
    · intro hsingle p hp
      obtain ⟨r, hr, name, a, he⟩ := exists_of_forall₂ hentries.flip p hp
      exact he.single_iff.mp (hsingle r hr)
    · intro hnone r hr
      obtain ⟨p, hp, name, a, he⟩ := exists_of_forall₂ hentries r hr
      exact he.single_iff.mpr (hnone p hp)

def packagesSample : Text :=
  "Package:x\nVersion:1\nArchitecture:musl-linux-any\n\n".toList ++
    "ARCHITECTURE: all\nVersion:2\nPackage:y\n".toList

theorem packages_architectures_sample :
    ∃ entries ps, (packages.parse packagesSample).result = .ok entries ∧
      readAll packagesSample = .ok ps ∧
      List.Forall₂ (fun p r => ∃ name a, HoldsArchitecture p r name a) ps entries ∧
      entries.map (·.architectures "architecture") =
        [[⟨"base".toList, "musl".toList, "linux".toList, anyPart⟩], [all]] := by
  have hread : (packages.parse packagesSample).result.map
      (·.map (·.architectures "architecture")) =
        .ok [[⟨"base".toList, "musl".toList, "linux".toList, anyPart⟩], [all]] := by
    cbv
  obtain ⟨entries, he, ha⟩ := map_eq_ok_iff.mp hread
  obtain ⟨ps, hps, hentries, -⟩ := (packages_architectures packagesSample).2 entries he
  exact ⟨entries, ps, he, hps, hentries, ha⟩

/-- An entry may be for a wildcard. -/
theorem packages_wildcard_accepted :
    ¬∀ (t : Text) (entries : List Record), (packages.parse t).result = .ok entries →
      ∀ r ∈ entries, ∀ a ∈ r.architectures "architecture", a = all ∨ a.isConcrete = true := by
  intro h
  have hread : (packages.parse "Package: x\nVersion: 1\nArchitecture: any\n").result.map
      (·.map (·.architectures "architecture")) = .ok [[Architecture.any]] := by
    cbv
  obtain ⟨entries, he, ha⟩ := map_eq_ok_iff.mp hread
  obtain ⟨r, hr, hany⟩ := List.mem_map.mp (ha ▸ List.mem_singleton_self [Architecture.any])
  exact absurd (h _ _ he r hr _ (hany ▸ List.mem_singleton_self _)) (by decide)

end Index

end DebianPackaging
