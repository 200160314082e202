import DebianPackaging.Proofs.Paragraph.RoundTrip
import DebianPackaging.Proofs.Record.Value
import DebianPackaging.Record.Basic

namespace DebianPackaging

open Text Outcome

variable {s : Schema} {r : FieldRule} {p q : Paragraph} {values : Values} {row : Text × FieldValue}
  {v : FieldValue} {f : Field} {name t : Text} {kind : RecordKind}

/-- What values need of a schema to be encoded, written, read and decoded again. -/
structure Schema.Lawful (s : Schema) : Prop where
  layouts : ∀ r ∈ s, r.layout = r.kind.readLayout
  slots : (s.map FieldRule.slot).Nodup
  names : (s.map fun r => lower r.name).Nodup
  writable : ∀ r ∈ s, Paragraph.isWritableName r.name = true
  unsigned : ∀ r ∈ s, r.name.head? ≠ some '-'
  needed : ∃ r ∈ s, r.required = true

theorem RecordKind.lawful (kind : RecordKind) : kind.schema.Lawful where
  layouts := by cases kind <;> decide
  slots := by cases kind <;> (cbv; decide)
  names := by cases kind <;> (cbv; decide)
  writable := by cases kind <;> (cbv; decide)
  unsigned := by cases kind <;> decide
  needed := by cases kind <;> decide

theorem Paragraph.get?_eq_some_iff :
    p.get? name = some t ↔ ∃ f ∈ p.fields, f.key = lower name ∧ f.value = t := by
  rw [get?, Option.map_eq_some_iff]
  constructor
  · rintro ⟨f, hf, rfl⟩
    exact ⟨f, List.mem_of_find?_eq_some hf, by simpa using List.find?_some hf, rfl⟩
  · rintro ⟨f, hf, hk, rfl⟩
    cases hg : p.fields.find? fun f => f.key = lower name with
    | none =>
        rw [List.find?_eq_none] at hg
        exact absurd hk (by simpa using hg f hf)
    | some g =>
        have hkey : g.key = f.key := by
          have := List.find?_some hg
          rw [hk]
          simpa using this
        exact ⟨g, rfl, by
          rw [List.inj_on_of_nodup_map p.distinct (List.mem_of_find?_eq_some hg) hf hkey]⟩

section Decode

theorem FieldRule.parse_eq_ok_iff :
    r.parse t = .ok row ↔ ∃ v, r.kind.parse t = .ok v ∧ row = (r.slot, v) := by
  unfold parse
  cases r.kind.parse t with
  | error cause => simp
  | ok v => simp [eq_comm]

theorem FieldRule.exists_parse_of_decode (h : r.decode p = .ok row) :
    ∃ t v, r.kind.parse t = .ok v ∧ row = (r.slot, v) ∧ (p.get? r.name = some t ∨ t = []) := by
  unfold decode at h
  split at h
  · rename_i t ht
    obtain ⟨v, hv, hrow⟩ := parse_eq_ok_iff.mp h
    exact ⟨t, v, hv, hrow, Or.inl ht⟩
  · rw [ite_error_eq_ok_iff] at h
    obtain ⟨v, hv, hrow⟩ := parse_eq_ok_iff.mp h.2
    exact ⟨[], v, hv, hrow, Or.inr rfl⟩

theorem keys_of_forall₂ (h : List.Forall₂ (fun r row => r.decode p = .ok row) s values) :
    values.map Prod.fst = s.map FieldRule.slot := by
  rw [← List.forall₂_eq_eq_eq, List.forall₂_map_left_iff, List.forall₂_map_right_iff]
  refine h.flip.imp fun row r hrow => ?_
  obtain ⟨t, v, -, rfl, -⟩ := FieldRule.exists_parse_of_decode hrow
  rfl

theorem Schema.Lawful.decode_eq_ok_iff (h : s.Lawful) :
    s.decode p = .ok values ↔ List.Forall₂ (fun r row => r.decode p = .ok row) s values := by
  have hrows : ∀ rows : Values, List.Forall₂ (fun r row => r.decode p = .ok row) s rows →
      Table.ofRows rows = rows := fun rows hr =>
    Table.ofRows_eq_self (keys_of_forall₂ hr ▸ h.slots)
  rw [Schema.decode, map_eq_ok_iff]
  simp only [mapM_eq_ok_iff]
  constructor
  · rintro ⟨rows, hr, rfl⟩
    rwa [hrows rows hr]
  · intro hr
    exact ⟨values, hr, hrows values hr⟩

/-- Where the value of a rule is found, and of which text it was read. -/
structure FieldRule.Gives (s : Schema) (p : Paragraph) (values : Values) (r : FieldRule)
    (row : Text × FieldValue) : Prop where
  rule : r ∈ s
  slot : row.1 = r.slot
  lookup : values.lookup r.slot = some row.2
  read : ∃ t, r.kind.parse t = .ok row.2 ∧ (p.get? r.name = some t ∨ t = [])

theorem Schema.Lawful.gives (h : s.Lawful) (hd : s.decode p = .ok values) :
    List.Forall₂ (FieldRule.Gives s p values) s values := by
  have hrows := h.decode_eq_ok_iff.mp hd
  have hkeys := keys_of_forall₂ hrows
  have hmem : List.Forall₂ (fun r row => r ∈ s ∧ row ∈ values ∧ r.decode p = .ok row) s values := by
    have hr : List.Forall₂ (fun row r => row ∈ values ∧ r.decode p = .ok row) values s :=
      (List.forall₂_and_left _ _).mpr ⟨fun row hm => hm, hrows.flip⟩
    exact (List.forall₂_and_left _ _).mpr ⟨fun r hm => hm, hr.flip⟩
  refine hmem.imp fun r row ⟨hr, hm, hrow⟩ => ?_
  obtain ⟨t, v, hv, rfl, ht⟩ := FieldRule.exists_parse_of_decode hrow
  exact ⟨hr, rfl, Table.lookup_of_mem (hkeys ▸ h.slots) hm, t, hv, ht⟩

end Decode

section Encode

theorem Schema.mem_fields_iff : f ∈ s.fields values ↔ ∃ r ∈ s, ∃ v, values.lookup r.slot = some v ∧
    (v.isEmpty && !r.required) = false ∧ ⟨r.name, r.layout.render v⟩ = f := by
  simp only [fields, List.mem_filterMap, Option.bind_eq_some_iff, Option.ite_none_left_eq_some,
    Bool.not_eq_true, Option.some.injEq]

theorem Schema.Lawful.distinct_fields (h : s.Lawful) (values : Values) :
    ((s.fields values).map Field.key).Nodup := by
  have hnames := List.pairwise_map.mp h.names
  rw [List.Nodup, List.pairwise_map, Schema.fields, List.pairwise_filterMap]
  refine hnames.imp fun {r r'} hne f hf f' hf' => ?_
  have hname : ∀ {r : FieldRule} {f : Field}, ((values.lookup r.slot).bind fun value =>
      if value.isEmpty && !r.required then none else some ⟨r.name, r.layout.render value⟩) = some f →
      f.key = lower r.name := by
    intro r f hf
    obtain ⟨v, -, hf⟩ := Option.bind_eq_some_iff.mp hf
    rw [Option.ite_none_left_eq_some] at hf
    rw [← Option.some.inj hf.2, Field.key]
  rwa [hname hf, hname hf']

theorem Schema.Lawful.exists_encode (h : s.Lawful) (values : Values) :
    ∃ q : Paragraph, s.encode values = .ok q ∧ q.fields = s.fields values :=
  ⟨⟨s.fields values, h.distinct_fields values⟩, Paragraph.ofFields_eq_ok_iff.mpr rfl, rfl⟩

/-- What the fields of encoded values are read as, with their texts changed in any way. -/
theorem Schema.Lawful.decode_mapValues (h : s.Lawful) (hq : q.fields = s.fields values) (hr : r ∈ s)
    (hv : values.lookup r.slot = some v) (g : Text → Text) :
    r.decode (q.mapValues g) =
      r.parse (if v.isEmpty && !r.required then [] else g (r.layout.render v)) := by
  have hfield : ∀ {t}, (q.mapValues g).get? r.name = some t ↔
      (v.isEmpty && !r.required) = false ∧ g (r.layout.render v) = t := by
    intro t
    simp only [Paragraph.get?_eq_some_iff, Paragraph.mapValues, List.mem_map,
      exists_exists_and_eq_and, hq]
    constructor
    · rintro ⟨f, hf, hk, rfl⟩
      -- No other rule has the name in any case, so that the field is that of the rule.
      obtain ⟨r', hr', v', hv', hkept, rfl⟩ := Schema.mem_fields_iff.mp hf
      obtain rfl := List.inj_on_of_nodup_map h.names hr' hr hk
      obtain rfl := Option.some.inj (hv'.symm.trans hv)
      exact ⟨hkept, rfl⟩
    · rintro ⟨hkept, rfl⟩
      exact ⟨_, Schema.mem_fields_iff.mpr ⟨r, hr, v, hv, hkept, rfl⟩, rfl, rfl⟩
  rw [FieldRule.decode]
  cases hd : v.isEmpty && !r.required with
  | true =>
      have hnone : (q.mapValues g).get? r.name = none :=
        Option.eq_none_iff_forall_ne_some.mpr fun t ht => by simp [hfield, hd] at ht
      simp only [Bool.and_eq_true, Bool.not_eq_true'] at hd
      rw [hnone, hd.2]
      rfl
  | false =>
      rw [hfield.mpr ⟨hd, rfl⟩]
      rfl

end Encode

theorem Schema.Lawful.decode_encode (h : s.Lawful) (hd : s.decode p = .ok values) :
    ∃ q, s.encode values = .ok q ∧ s.decode q = .ok values := by
  obtain ⟨q, hq, hfields⟩ := h.exists_encode values
  refine ⟨q, hq, h.decode_eq_ok_iff.mpr ?_⟩
  refine (h.gives hd).imp fun r row hrow => ?_
  obtain ⟨t, ht, -⟩ := hrow.read
  have hdecode := h.decode_mapValues hfields hrow.rule hrow.lookup id
  rw [Paragraph.mapValues_eq_self fun f _ => rfl, h.layouts r hrow.rule] at hdecode
  rw [hdecode, FieldRule.parse_eq_ok_iff]
  refine ⟨row.2, ?_, Prod.ext hrow.slot rfl⟩
  split
  · rename_i hempty
    rw [Bool.and_eq_true] at hempty
    exact FieldKind.parse_nil ht hempty.1
  · exact FieldKind.parse_render ht

namespace Record

/-- A record that was decoded is encoded, and what is decoded of it is the same record. -/
theorem decode_encode_of_decode (kind : RecordKind) (p : Paragraph) (r : Record)
    (h : decode kind p = .ok r) :
    ∃ q r', r.encode = .ok q ∧ decode kind q = .ok r' ∧ r'.sameValues r = true := by
  obtain ⟨values, hd, rfl⟩ := map_eq_ok_iff.mp h
  obtain ⟨q, hq, hd'⟩ := kind.lawful.decode_encode hd
  exact ⟨q, ⟨kind, values, q⟩, hq, map_eq_ok_iff.mpr ⟨values, hd', rfl⟩, by simp [sameValues]⟩

def decodedSample : Paragraph :=
  ⟨[⟨"source", []⟩, ⟨"VERSION", " 0:1.0-2\n"⟩, ⟨"Architecture", "linux-any\u00a0all"⟩,
    ⟨"Binary", ", a\r, ,b\n .\n"⟩, ⟨"Files", "x\r\n\n y z\n"⟩, ⟨"Build-Depends", "a|$\x7b\n .\n\x7d,"⟩,
    ⟨"Origin", []⟩, ⟨"X", "y"⟩], by cbv; decide⟩

theorem decode_encode_of_decode_sample :
    ∃ r q r', decode .sourceControl decodedSample = .ok r ∧
      r.items "binary" = ["a".toList, "b\n .".toList] ∧ r.encode = .ok q ∧
      decode .sourceControl q = .ok r' ∧ r'.sameValues r = true := by
  have hb : (decode .sourceControl decodedSample).map (·.items "binary") =
      .ok ["a".toList, "b\n .".toList] := by
    cbv
  obtain ⟨r, hr, hitems⟩ := map_eq_ok_iff.mp hb
  obtain ⟨q, r', hq, hr', hs⟩ := decode_encode_of_decode .sourceControl decodedSample r hr
  exact ⟨r, q, r', hr, hitems, hq, hr', hs⟩

end Record

end DebianPackaging
