import DebianPackaging.Proofs.Log
import DebianPackaging.Proofs.Record.Schema
import DebianPackaging.Proofs.Record.Stored
import DebianPackaging.Record.Document

namespace DebianPackaging

open Text Outcome Paragraph

variable {s : Schema} {p q : Paragraph} {values : Values} {r : FieldRule}
  {row : Text × FieldValue} {t out : Text} {kind : RecordKind} {ps : List Paragraph}
  {rs : List Record}

section Decode

theorem survivesFolding_of_isEmpty {v : FieldValue} (h : v.isEmpty = true) : v.SurvivesFolding := by
  cases v with
  | items ts =>
      rw [List.isEmpty_iff.mp h]
      simp [FieldValue.SurvivesFolding]
  | _ => trivial

theorem FieldRule.Gives.parse (h : r.Gives s p values row) (hp : ∀ f ∈ p.fields, IsStored f.value) :
    ∃ t, IsStored t ∧ r.kind.parse t = .ok row.2 := by
  obtain ⟨t, ht, hget⟩ := h.read
  refine ⟨t, ?_, ht⟩
  rcases hget with hget | rfl
  · obtain ⟨f, hf, -, rfl⟩ := get?_eq_some_iff.mp hget
    exact hp f hf
  · exact isStored_nil

theorem FieldRule.Gives.decode_stored (h : r.Gives s p values row) (hs : s.Lawful)
    (hp : ∀ f ∈ p.fields, IsStored f.value) (hq : q.fields = s.fields values) :
    ∃ row', r.decode (q.mapValues stored) = .ok row' ∧ (row' = row ↔ row.2.SurvivesFolding) := by
  obtain ⟨t, ht, hparse⟩ := h.parse hp
  rw [hs.decode_mapValues hq h.rule h.lookup, hs.layouts r h.rule]
  split
  · rename_i hempty
    rw [Bool.and_eq_true] at hempty
    refine ⟨row, FieldRule.parse_eq_ok_iff.mpr ⟨row.2, FieldKind.parse_nil hparse hempty.1,
      Prod.ext h.slot rfl⟩, ?_⟩
    simp [survivesFolding_of_isEmpty hempty.1]
  · obtain ⟨-, v, hv, hsame⟩ := FieldKind.parse_stored hparse ht
    refine ⟨(r.slot, v), FieldRule.parse_eq_ok_iff.mpr ⟨v, hv, rfl⟩, ?_⟩
    rw [← hsame, Prod.ext_iff, h.slot]
    simp

/-- What is read again has the same values exactly when all of them survive folding. -/
theorem Schema.Lawful.decode_stored (h : s.Lawful) (hd : s.decode p = .ok values)
    (hp : ∀ f ∈ p.fields, IsStored f.value) (hq : q.fields = s.fields values) :
    ∃ values', s.decode (q.mapValues stored) = .ok values' ∧
      (values' = values ↔ ∀ row ∈ values, row.2.SurvivesFolding) := by
  obtain ⟨values', hvalues, hsame⟩ := exists_forall₂_iff <|
    (h.gives hd).imp fun r row hrow => hrow.decode_stored h hp hq
  rw [List.forall₂_eq_eq_eq] at hsame
  exact ⟨values', h.decode_eq_ok_iff.mpr hvalues, hsame⟩

end Decode

section Encode

/-- Fields of values that were read: they can be written, and they do not look like a signature. -/
theorem Schema.Lawful.mem_fields (h : s.Lawful) (hd : s.decode p = .ok values)
    (hp : ∀ f ∈ p.fields, IsStored f.value) : s.fields values ≠ [] ∧ ∀ f ∈ s.fields values,
      isWritableName f.name = true ∧ f.name.head? ≠ some '-' ∧ HasOnlyLineFeeds f.value := by
  have hgives : ∀ r ∈ s, ∃ row ∈ values, r.Gives s p values row :=
    exists_of_forall₂ (h.gives hd).flip
  constructor
  · obtain ⟨r, hr, hrequired⟩ := h.needed
    obtain ⟨row, -, hrow⟩ := hgives r hr
    have hkept : (row.2.isEmpty && !r.required) = false := by simp [hrequired]
    exact List.ne_nil_of_mem (mem_fields_iff.mpr ⟨r, hr, row.2, hrow.lookup, hkept, rfl⟩)
  · intro f hf
    obtain ⟨r, hr, v, hv, -, rfl⟩ := mem_fields_iff.mp hf
    obtain ⟨row, -, hrow⟩ := hgives r hr
    obtain rfl := Option.some.inj (hrow.lookup.symm.trans hv)
    obtain ⟨t, ht, hparse⟩ := hrow.parse hp
    rw [h.layouts r hr]
    exact ⟨h.writable r hr, h.unsigned r hr, (FieldKind.parse_stored hparse ht).1⟩

end Encode

namespace Record

/-- A record with the paragraph it is written as and the record that is read of that. -/
structure Rewritten (r : Record) (q : Paragraph) (r' : Record) : Prop where
  encode : r.encode = .ok q
  ne_nil : q.fields ≠ []
  field : ∀ f ∈ q.fields,
    isWritableName f.name = true ∧ f.name.head? ≠ some '-' ∧ HasOnlyLineFeeds f.value
  kind : r'.kind = r.kind
  decode : Record.decode r'.kind (q.mapValues stored) = .ok r'
  same : r'.sameValues r = true ↔ ∀ row ∈ r.values, row.2.SurvivesFolding

theorem exists_rewritten {r : Record} (h : decode kind p = .ok r)
    (hp : ∀ f ∈ p.fields, IsStored f.value) : ∃ q r', r.Rewritten q r' := by
  obtain ⟨values, hd, rfl⟩ := map_eq_ok_iff.mp h
  obtain ⟨q, hq, hfields⟩ := kind.lawful.exists_encode values
  obtain ⟨values', hd', hsame⟩ := kind.lawful.decode_stored hd hp hfields
  obtain ⟨hne, hfield⟩ := kind.lawful.mem_fields hd hp
  rw [← hfields] at hne hfield
  refine ⟨q, ⟨kind, values', q.mapValues stored⟩, hq, hne, hfield, rfl, ?_, ?_⟩
  · exact map_eq_ok_iff.mpr ⟨values', hd', rfl⟩
  · rw [← hsame]
    simp [sameValues]

theorem exists_rewritten_all (h : ∀ r ∈ rs, ∃ q r', r.Rewritten q r') :
    ∃ qs rs', rs.mapM encode = .ok qs ∧ (∀ q ∈ qs, ∃ r r', Rewritten r q r') ∧
      rs'.map Record.kind = rs.map Record.kind ∧
      List.Forall₂ (fun q r' => decode r'.kind (q.mapValues stored) = .ok r') qs rs' ∧
      (List.Forall₂ (fun r' r => r'.sameValues r = true) rs' rs ↔
        ∀ r ∈ rs, ∀ row ∈ r.values, row.2.SurvivesFolding) := by
  induction rs with
  | nil => exact ⟨[], [], rfl, by simp, rfl, .nil, by simp⟩
  | cons r rs ih =>
      obtain ⟨⟨q, r', hr⟩, hrs⟩ := List.forall_mem_cons.mp h
      obtain ⟨qs, rs', hqs, hmem, hkinds, hdecode, hsame⟩ := ih hrs
      refine ⟨q :: qs, r' :: rs', ?_, ?_, by simp [hr.kind, hkinds], .cons hr.decode hdecode, ?_⟩
      · exact mapM_eq_ok_iff.mpr (.cons hr.encode (mapM_eq_ok_iff.mp hqs))
      · exact List.forall_mem_cons.mpr ⟨⟨r, r', hr⟩, hmem⟩
      · rw [List.forall₂_cons, hr.same, hsame, List.forall_mem_cons]

end Record

inductive DocumentKind
  | control
  | sourceControl
  | index (i : Index)
deriving DecidableEq, Repr

namespace DocumentKind

variable {doc : DocumentKind}

def parse : DocumentKind → Text → Except DocumentError (List Record)
  | .control, t => (Control.parse t).result.map Control.records
  | .sourceControl, t => (SourceControl.parse t).result.map ([·])
  | .index i, t => (i.parse t).result

def Holds : DocumentKind → List RecordKind → Prop
  | .control, kinds => ∃ more, kinds = .source :: more ∧ ∀ kind ∈ more, kind = .binary
  | .sourceControl, kinds => kinds = [.sourceControl]
  | .index i, kinds => ∀ kind ∈ kinds, kind = i.kind

def contents? : DocumentKind → Text → Option Text
  | .sourceControl, t => Clearsigned.contents? t
  | .control, t | .index _, t => some t

theorem readRecord_eq_ok_iff {r : Record} :
    readRecord kind p = .ok r ↔ Record.decode r.kind p = .ok r ∧ r.kind = kind := by
  rw [readRecord, mapError_eq_ok_iff]
  constructor
  · intro h
    obtain ⟨values, -, rfl⟩ := map_eq_ok_iff.mp h
    exact ⟨h, rfl⟩
  · rintro ⟨h, rfl⟩
    exact h

theorem readRecords_eq_ok_iff : readRecords kind ps = .ok rs ↔
    List.Forall₂ (fun p (r : Record) => Record.decode r.kind p = .ok r) ps rs ∧
      ∀ k ∈ rs.map Record.kind, k = kind := by
  rw [readRecords, mapM_eq_ok_iff, List.forall_mem_map, ← forall₂_and_right]
  simp only [readRecord_eq_ok_iff]

theorem readParagraphs_eq_ok_iff : readParagraphs t = .ok ps ↔ readAll t = .ok ps :=
  mapError_eq_ok_iff

theorem controlRead_eq_ok_iff {c : Control} : Control.read t = .ok c ↔ ∃ ps, readAll t = .ok ps ∧
    List.Forall₂ (fun p (r : Record) => Record.decode r.kind p = .ok r) ps c.records ∧
    Holds .control (c.records.map Record.kind) := by
  rw [Control.read, bind_eq_ok_iff]
  simp only [readParagraphs_eq_ok_iff]
  refine exists_congr fun ps => and_congr_right fun _ => ?_
  cases ps with
  | nil => simp [Control.ofParagraphs, Control.records]
  | cons p ps =>
      simp only [Control.ofParagraphs, bind_eq_ok_iff, readRecord_eq_ok_iff,
        readRecords_eq_ok_iff, Control.records, List.forall₂_cons, Holds, List.map_cons]
      constructor
      · rintro ⟨source, ⟨hd, hk⟩, binaries, ⟨hds, hks⟩, hc⟩
        cases hc
        exact ⟨⟨hd, hds⟩, _, by rw [hk], hks⟩
      · rintro ⟨⟨hd, hds⟩, more, hk, hks⟩
        obtain ⟨hkind, rfl⟩ := List.cons.inj hk
        exact ⟨c.source, ⟨hd, hkind⟩, c.binaries, ⟨hds, hks⟩, rfl⟩

theorem sourceControlRead_eq_ok_iff {r : Record} : SourceControl.read t = .ok r ↔
    ∃ contents ps, Clearsigned.contents? t = some contents ∧ readAll contents = .ok ps ∧
      List.Forall₂ (fun p (r : Record) => Record.decode r.kind p = .ok r) ps [r] ∧
      Holds .sourceControl [r.kind] := by
  rw [SourceControl.read]
  cases Clearsigned.contents? t with
  | none => simp
  | some contents =>
      simp only [bind_eq_ok_iff, readParagraphs_eq_ok_iff, Option.some.injEq, exists_and_left,
        exists_eq_left']
      refine exists_congr fun ps => and_congr_right fun _ => ?_
      rcases ps with _ | ⟨p, _ | ⟨p', ps⟩⟩
      · simp [SourceControl.ofParagraphs]
      · simp [SourceControl.ofParagraphs, readRecord_eq_ok_iff, Holds]
      · simp [SourceControl.ofParagraphs]

theorem parse_eq_ok_iff : doc.parse t = .ok rs ↔ ∃ contents ps, doc.contents? t = some contents ∧
    readAll contents = .ok ps ∧
    List.Forall₂ (fun p (r : Record) => Record.decode r.kind p = .ok r) ps rs ∧
    doc.Holds (rs.map Record.kind) := by
  cases doc with
  | control =>
      have hresult : (Control.parse t).result = Control.read t := Logged.result_reported _ _
      simp only [parse, hresult, map_eq_ok_iff, controlRead_eq_ok_iff, contents?,
        Option.some.injEq, exists_and_left, exists_eq_left']
      constructor
      · rintro ⟨c, hc, rfl⟩
        exact hc
      · rintro ⟨ps, hread, hdecode, hholds⟩
        obtain ⟨more, hk, hmore⟩ := hholds
        obtain ⟨r, rs, rfl, -⟩ := List.map_eq_cons_iff.mp hk
        exact ⟨⟨r, rs⟩, ⟨ps, hread, hdecode, more, hk, hmore⟩, rfl⟩
  | sourceControl =>
      have hresult : (SourceControl.parse t).result = SourceControl.read t :=
        Logged.result_reported _ _
      simp only [parse, hresult, map_eq_ok_iff, sourceControlRead_eq_ok_iff, contents?]
      constructor
      · rintro ⟨r, hr, rfl⟩
        exact hr
      · rintro ⟨contents, ps, hcontents, hread, hdecode, hholds⟩
        obtain ⟨r, rfl, -⟩ := List.map_eq_singleton_iff.mp hholds
        exact ⟨r, ⟨contents, ps, hcontents, hread, hdecode, hholds⟩, rfl⟩
  | index i =>
      have hresult : (i.parse t).result = i.read t := Logged.result_reported _ _
      simp only [parse, hresult, Index.read, bind_eq_ok_iff, readParagraphs_eq_ok_iff,
        readRecords_eq_ok_iff, contents?, Option.some.injEq, exists_and_left, exists_eq_left', Holds]

theorem isSigned_cons {c : Char} (hb : isBlank c = false) (hc : c ≠ '-') (t : Text) :
    Clearsigned.isSigned (c :: t) = false := by
  rw [Clearsigned.isSigned, lines_cons (isLineEnd_of_isBlank hb), List.head?_cons,
    Option.any_some, decide_eq_false_iff_not, trim, trimLeft_of_startsPlain (startsPlain_cons hb _)]
  intro hheader
  obtain ⟨rest, hr⟩ := prefix_trimRight (c :: (lines t).headD [])
  rw [hheader] at hr
  exact hc (List.cons.inj hr).1.symm

theorem contents?_writeAll {qs : List Paragraph} (hne : ∀ q ∈ qs, q.fields ≠ [])
    (hf : ∀ q ∈ qs, ∀ f ∈ q.fields, f.name.head? ≠ some '-')
    (h : writeAll (qs.map Paragraph.fields) = .ok out) (doc : DocumentKind) :
    doc.contents? out = some out := by
  have hsigned : Clearsigned.isSigned out = false := by
    obtain ⟨hw, rfl⟩ := (writeAll_eq_ok_iff hne).mp h
    cases qs with
    | nil => rfl
    | cons q qs =>
        obtain ⟨f, fields, hq⟩ := List.exists_cons_of_ne_nil (hne q List.mem_cons_self)
        have hwf : isWritableName f.name = true := hw q List.mem_cons_self f (by simp [hq])
        have hhead := hf q List.mem_cons_self f (by simp [hq])
        obtain ⟨c, rest, hname, hb, -⟩ := exists_cons_of_isWritableName hwf
        obtain ⟨first, folded, -, hlines⟩ := exists_fieldLines f
        rw [hname] at hhead
        simp only [List.map_cons, hq]
        obtain ⟨more, hmore⟩ := join_cons "\n" (unlines (writtenLines (f :: fields)))
          (qs.map fun q => unlines (writtenLines q.fields))
        rw [hmore, writtenLines, List.flatMap_cons, hlines, List.cons_append, unlines_cons,
          headerLine, hname]
        exact isSigned_cons hb (by simpa using hhead) _
  cases doc with
  | sourceControl => rw [contents?, Clearsigned.contents?, hsigned, if_neg Bool.false_ne_true]
  | control => rfl
  | index => rfl

/-- The records of a document are encoded, written and read again, and have the same values exactly
when these survive folding. -/
theorem parse_writeAll_encode (doc : DocumentKind) (t : Text) (rs : List Record)
    (h : doc.parse t = .ok rs) :
    ∃ qs out rs', rs.mapM Record.encode = .ok qs ∧ writeAll (qs.map Paragraph.fields) = .ok out ∧
      doc.parse out = .ok rs' ∧
      (List.Forall₂ (fun r' r => r'.sameValues r = true) rs' rs ↔
        ∀ r ∈ rs, ∀ row ∈ r.values, row.2.SurvivesFolding) := by
  obtain ⟨contents, ps, -, hread, hdecode, hholds⟩ := parse_eq_ok_iff.mp h
  -- Each record is taken through encoding, writing and decoding by itself.
  have hrewritten : ∀ r ∈ rs, ∃ q r', r.Rewritten q r' := by
    intro r hr
    obtain ⟨p, hp, hd⟩ := exists_of_forall₂ hdecode r hr
    exact Record.exists_rewritten hd fun f hf => ((readAll_fields hread p hp).2 f hf).2
  obtain ⟨qs, rs', hqs, hmem, hkinds, hdecode', hsame⟩ := Record.exists_rewritten_all hrewritten
  have hne : ∀ q ∈ qs, q.fields ≠ [] := by
    intro q hq
    obtain ⟨r, r', hr⟩ := hmem q hq
    exact hr.ne_nil
  have hfield : ∀ q ∈ qs, ∀ f ∈ q.fields, isWritableName f.name = true ∧
      f.name.head? ≠ some '-' ∧ HasOnlyLineFeeds f.value := by
    intro q hq
    obtain ⟨r, r', hr⟩ := hmem q hq
    exact hr.field
  have hw : ∀ q ∈ qs, ∀ f ∈ q.fields, isWritableName f.name = true := fun q hq f hf =>
    (hfield q hq f hf).1
  -- What is written is one text, which is no signed one, and holds the same kinds of records.
  have hout := (writeAll_eq_ok_iff hne).mpr ⟨hw, rfl⟩
  have hcontents := contents?_writeAll hne (fun q hq f hf => (hfield q hq f hf).2.1) hout doc
  have hread' := readAll_writeAll hne hout fun q hq f hf => (hfield q hq f hf).2.2
  rw [← hkinds] at hholds
  exact ⟨qs, _, rs', hqs, hout, parse_eq_ok_iff.mpr ⟨_, _, hcontents, hread',
    List.forall₂_map_left_iff.mpr hdecode', hholds⟩, hsame⟩

def rewrittenSample : Text :=
  "Source: s\nUploaders: x\n .,\n y\n .\n z\nBuild-Depends: $\x7b\n .\n \x7d|b(>=1)\n\n".toList ++
    "Package: p\nArchitecture: any all\n".toList

theorem parse_writeAll_encode_sample : ∃ rs qs out rs', parse .control rewrittenSample = .ok rs ∧
    rs.mapM Record.encode = .ok qs ∧ writeAll (qs.map Paragraph.fields) = .ok out ∧
    parse .control out = .ok rs' ∧
    List.Forall₂ (fun r' r => r'.sameValues r = true) rs' rs := by
  have hparse : (parse .control rewrittenSample).map
      (fun rs => rs.all fun r => r.values.all fun row => decide row.2.SurvivesFolding) =
        .ok true := by
    cbv
  obtain ⟨rs, hrs, hall⟩ := map_eq_ok_iff.mp hparse
  obtain ⟨qs, out, rs', hqs, hout, hrs', hsame⟩ :=
    parse_writeAll_encode .control rewrittenSample rs hrs
  refine ⟨rs, qs, out, rs', hrs, hqs, hout, hrs', hsame.mpr fun r hr row hrow => ?_⟩
  exact of_decide_eq_true (List.all_eq_true.mp (List.all_eq_true.mp hall r hr) row hrow)

/-- The lone dot at the end of the last item is read as an empty line, and is lost. -/
theorem parse_writeAll_lost_dot :
    ¬∀ (doc : DocumentKind) (t : Text) (rs : List Record), doc.parse t = .ok rs →
      ∃ qs out rs', rs.mapM Record.encode = .ok qs ∧ writeAll (qs.map Paragraph.fields) = .ok out ∧
        doc.parse out = .ok rs' ∧
        List.Forall₂ (fun r' r => r'.sameValues r = true) rs' rs := by
  intro h
  have hlost : ((parse .control "Source: s\nUploaders: x\n .,\n").toOption.bind fun rs =>
      (rs.mapM Record.encode).toOption.bind fun qs =>
        (writeAll (qs.map Paragraph.fields)).toOption.bind fun out =>
          (parse .control out).toOption.map fun rs' =>
            (rs.map (·.items "uploaders"), rs'.map (·.items "uploaders"))) =
      some ([["x\n.".toList]], [["x".toList]]) := by
    cbv
  cases hrs : parse .control "Source: s\nUploaders: x\n .,\n" with
  | error e =>
      rw [hrs] at hlost
      cases hlost
  | ok rs =>
      obtain ⟨qs, out, rs', hqs, hout, hrs', hsame⟩ := h _ _ rs hrs
      simp only [hrs, hqs, hout, hrs', Except.toOption, Option.bind_some, Option.map_some,
        Option.some.injEq, Prod.mk.injEq] at hlost
      have hkept : rs'.map (·.items "uploaders") = rs.map (·.items "uploaders") := by
        rw [← List.forall₂_eq_eq_eq, List.forall₂_map_left_iff, List.forall₂_map_right_iff]
        refine hsame.imp fun r' r hr => ?_
        simp only [Record.sameValues, Bool.and_eq_true, decide_eq_true_eq] at hr
        rw [Record.items, Record.items, hr.2]
      rw [hkept, hlost.1] at hlost
      exact absurd hlost.2 (by decide)

end DocumentKind

end DebianPackaging
