import Mathlib
import DebianPackaging.Yaml.Reader

namespace DebianPackaging.Yaml

open Text

variable {key : Scalar} {row : Row} {rows more : List Row} {v : Value}

def rowKeys (rows : List Row) : List Scalar :=
  rows.map fun row => row.1.asKey

theorem rowKeys_append (rows more : List Row) :
    rowKeys (rows ++ more) = rowKeys rows ++ rowKeys more :=
  List.map_append

theorem rowKeys_put (row : Row) (rows : List Row) :
    rowKeys (rows.map fun r => if r.1.asKey = row.1.asKey then (r.1, row.2) else r) =
      rowKeys rows := by
  rw [rowKeys, List.map_map]
  refine List.map_congr_left fun r _ => ?_
  rw [Function.comp_apply]
  split <;> rfl

section Lookup

@[simp] theorem valueAt?_nil : valueAt? key [] = none := rfl

theorem valueAt?_cons : valueAt? key (row :: rows) =
    if row.1.asKey = key.asKey then some row.2 else valueAt? key rows := by
  unfold valueAt?
  by_cases h : row.1.asKey = key.asKey <;> simp [h]

theorem valueAt?_append :
    valueAt? key (rows ++ more) = (valueAt? key rows).or (valueAt? key more) := by
  simp only [valueAt?, List.find?_append, Option.map_or]

theorem valueAt?_congr {key' : Scalar} (h : key.asKey = key'.asKey) (rows : List Row) :
    valueAt? key rows = valueAt? key' rows := by
  unfold valueAt?
  rw [h]

theorem valueAt?_eq_none_iff : valueAt? key rows = none ↔ key.asKey ∉ rowKeys rows := by
  simp [valueAt?, rowKeys, List.find?_eq_none]

theorem exists_of_valueAt? (h : valueAt? key rows = some v) :
    ∃ row ∈ rows, row.1.asKey = key.asKey ∧ row.2 = v := by
  obtain ⟨row, hrow, hv⟩ := Option.map_eq_some_iff.mp h
  exact ⟨row, List.mem_of_find?_eq_some hrow, by simpa using List.find?_some hrow, hv⟩

theorem valueAt?_of_mem (hd : (rowKeys rows).Nodup) (h : row ∈ rows) :
    valueAt? row.1 rows = some row.2 := by
  cases hv : valueAt? row.1 rows with
  | none => exact absurd (List.mem_map_of_mem h) (valueAt?_eq_none_iff.mp hv)
  | some v =>
      obtain ⟨row', hrow', hkey, rfl⟩ := exists_of_valueAt? hv
      rw [List.inj_on_of_nodup_map hd hrow' h hkey]

end Lookup

/-- No map in the value has a key twice. -/
inductive Value.IsKeyed : Value → Prop
  | scalar (s : Scalar) : IsKeyed (.scalar s)
  | list {items : List Value} (h : ∀ v ∈ items, IsKeyed v) : IsKeyed (.list items)
  | map {rows : List Row} (hd : (rowKeys rows).Nodup) (h : ∀ row ∈ rows, IsKeyed row.2) :
      IsKeyed (.map rows)

namespace Value

theorem isKeyed_map_iff :
    (map rows).IsKeyed ↔ (rowKeys rows).Nodup ∧ ∀ row ∈ rows, row.2.IsKeyed := by
  constructor
  · rintro (_ | _ | ⟨hd, h⟩)
    exact ⟨hd, h⟩
  · rintro ⟨hd, h⟩
    exact .map hd h

theorem isKeyed_putRow (hrow : row.2.IsKeyed) (h : (map rows).IsKeyed) :
    (map (putRow row rows)).IsKeyed := by
  obtain ⟨hd, hrows⟩ := isKeyed_map_iff.mp h
  unfold putRow
  split
  · refine .map (rowKeys_put row rows ▸ hd) fun r hr => ?_
    obtain ⟨r', hr', rfl⟩ := List.mem_map.mp hr
    split
    · exact hrow
    · exact hrows r' hr'
  · rename_i hnew
    rw [Option.not_isSome_iff_eq_none, valueAt?_eq_none_iff] at hnew
    refine .map ?_ ?_
    · rw [rowKeys_append]
      exact hd.append (List.nodup_singleton _) (List.disjoint_singleton.mpr hnew)
    · rw [List.forall_mem_append, List.forall_mem_singleton]
      exact ⟨hrows, hrow⟩

theorem isKeyed_ofRows (h : ∀ row ∈ rows, row.2.IsKeyed) : (ofRows rows).IsKeyed := by
  suffices ∀ table, (map table).IsKeyed →
      (map (rows.foldl (fun table row => putRow row table) table)).IsKeyed from
    this [] (.map List.nodup_nil (by simp))
  induction rows with
  | nil => exact fun table htable => htable
  | cons row rows ih =>
      obtain ⟨hrow, hrows⟩ := List.forall_mem_cons.mp h
      exact fun table htable => ih hrows _ (isKeyed_putRow hrow htable)

theorem exists_of_mem_rows {items : List Value} {parts : List (List Row)}
    (h : items.mapM rows? = some parts) : ∀ part ∈ parts, .map part ∈ items := by
  induction items generalizing parts with
  | nil =>
      cases h
      simp
  | cons item items ih =>
      simp only [List.mapM_cons, Option.bind_eq_bind, Option.bind_eq_some_iff, Option.pure_def,
        Option.some.injEq] at h
      obtain ⟨part, hpart, parts, hparts, rfl⟩ := h
      have hitem : item = .map part := by
        cases item <;> cases hpart
        rfl
      rw [List.forall_mem_cons, hitem]
      exact ⟨List.mem_cons_self, fun q hq => List.mem_cons_of_mem _ (ih hparts q hq)⟩

theorem isKeyed_mergedRows? (hv : v.IsKeyed) (h : v.mergedRows? = some rows) :
    ∀ row ∈ rows, row.2.IsKeyed := by
  cases hv with
  | scalar s => cases h
  | map hd hrows =>
      cases h
      exact hrows
  | list hitems =>
      obtain ⟨parts, hparts, rfl⟩ := Option.map_eq_some_iff.mp h
      intro row hrow
      obtain ⟨part, hpart, hrow⟩ := List.mem_flatten.mp hrow
      have hitem := exists_of_mem_rows hparts part (List.mem_reverse.mp hpart)
      exact (isKeyed_map_iff.mp (hitems _ hitem)).2 row hrow

end Value

/-- The value that a node stands for is put together of rows, the last one of each key. -/
theorem Node.isKeyed_values :
    (∀ (n : Node) (v : Value), n.value? = some v → v.IsKeyed) ∧
    (∀ (nodes : List (Node × Node)) (parts : List Row × List Row),
      rowValues? nodes = some parts → ∀ row ∈ parts.1 ++ parts.2, row.2.IsKeyed) ∧
    ∀ (items : List Node) (vs : List Value), itemValues? items = some vs → ∀ v ∈ vs, v.IsKeyed := by
  apply value?.mutual_induct
  case case1 =>
    intro t ht v h
    rw [value?, if_pos ht] at h
    cases h
  case case2 =>
    intro t ht v h
    rw [value?, if_neg ht] at h
    cases h
    exact .scalar _
  case case3 =>
    intro t v h
    cases h
    exact .scalar _
  case case4 =>
    intro items ih v h
    obtain ⟨vs, hvs, rfl⟩ := Option.map_eq_some_iff.mp h
    exact .list (ih vs hvs)
  case case5 =>
    intro nodes ih v h
    obtain ⟨parts, hparts, rfl⟩ := Option.map_eq_some_iff.mp h
    exact Value.isKeyed_ofRows (ih parts hparts)
  case case6 =>
    intro vs h
    cases h
    simp
  case case7 =>
    intro item more ihitem ihmore vs h
    simp only [itemValues?, Option.bind_eq_bind, Option.bind_eq_some_iff, Option.pure_def,
      Option.some.injEq] at h
    obtain ⟨v, hv, vs, hvs, rfl⟩ := h
    exact List.forall_mem_cons.mpr ⟨ihitem v hv, ihmore vs hvs⟩
  case case8 =>
    intro parts h
    cases h
    simp
  case case9 =>
    intro key node more ihnode ihmore parts h
    simp only [rowValues?, Option.bind_eq_bind, Option.bind_eq_some_iff, Option.pure_def] at h
    obtain ⟨v, hv, ⟨merged, own⟩, hparts, h⟩ := h
    have hrows := List.forall_mem_append.mp (ihmore _ hparts)
    split at h
    · obtain ⟨rows, hmerged, h⟩ := Option.bind_eq_some_iff.mp h
      cases h
      simp only [List.forall_mem_append]
      exact ⟨⟨Value.isKeyed_mergedRows? (ihnode v hv) hmerged, hrows.1⟩, hrows.2⟩
    · obtain ⟨s, -, h⟩ := Option.bind_eq_some_iff.mp h
      cases h
      simp only [List.forall_mem_append, List.forall_mem_cons]
      exact ⟨hrows.1, ihnode v hv, hrows.2⟩

theorem isKeyed_read {t : Text} (h : read t = some v) : v.IsKeyed := by
  rw [read, Option.ite_none_right_eq_some] at h
  obtain ⟨start, -, hdoc⟩ := Option.bind_eq_some_iff.mp h.2
  simp only [readDocument] at hdoc
  split at hdoc
  · cases hdoc
    exact .scalar _
  · split at hdoc
    · rw [Option.ite_none_right_eq_some] at hdoc
      exact Node.isKeyed_values.1 _ _ hdoc.2
    · cases hdoc

end DebianPackaging.Yaml
