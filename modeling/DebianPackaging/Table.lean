namespace DebianPackaging.Table

variable {κ ν : Type}

def tabulate (keys : List κ) (f : κ → ν) : List (κ × ν) :=
  keys.map fun key => (key, f key)

theorem tabulate_keys (keys : List κ) (f : κ → ν) : (tabulate keys f).map Prod.fst = keys := by
  rw [tabulate, List.map_map]
  exact List.map_id keys

theorem tabulate_congr {keys : List κ} {f f' : κ → ν} (h : ∀ key ∈ keys, f key = f' key) :
    tabulate keys f = tabulate keys f' :=
  List.map_congr_left fun key hkey => by rw [h key hkey]

theorem filter_tabulate (keys : List κ) (f : κ → ν) (p : κ → Bool) :
    (tabulate keys f).filter (fun row => p row.1) = tabulate (keys.filter p) f := by
  rw [tabulate, tabulate, List.filter_map]
  rfl

theorem key_not_mem {before after : List (κ × ν)} {row : κ × ν}
    (h : ((before ++ row :: after).map Prod.fst).Nodup) : row.1 ∉ before.map Prod.fst := by
  rw [List.map_append, List.nodup_append] at h
  exact fun hmem => h.2.2 row.1 hmem row.1 (by simp) rfl

section Lookup

variable [BEq κ] [LawfulBEq κ]

theorem lookup_tabulate {keys : List κ} {key : κ} (f : κ → ν) (h : key ∈ keys) :
    (tabulate keys f).lookup key = some (f key) := by
  induction keys with
  | nil => cases h
  | cons k keys ih =>
      simp only [tabulate, List.map_cons, List.lookup_cons]
      by_cases hk : key = k
      · simp [hk]
      · rw [show (key == k) = false by simp [hk]]
        exact ih (List.mem_of_ne_of_mem hk h)

theorem mem_keys_of_lookup {rows : List (κ × ν)} {key : κ} {value : ν}
    (h : rows.lookup key = some value) : key ∈ rows.map Prod.fst := by
  obtain ⟨before, after, rfl, -⟩ := List.lookup_eq_some_iff.mp h
  simp

theorem lookup_of_mem {rows : List (κ × ν)} {row : κ × ν} (hd : (rows.map Prod.fst).Nodup)
    (h : row ∈ rows) : rows.lookup row.1 = some row.2 := by
  obtain ⟨before, after, rfl⟩ := List.append_of_mem h
  refine List.lookup_eq_some_iff.mpr ⟨before, after, rfl, fun r hr => ?_⟩
  have hne : row.1 ≠ r.1 := fun he => key_not_mem hd (he ▸ List.mem_map_of_mem hr)
  simpa using hne

end Lookup

variable [DecidableEq κ]

/-- Puts a row in the place of the one with the same key, or at the end. -/
def insert (row : κ × ν) (rows : List (κ × ν)) : List (κ × ν) :=
  if row.1 ∈ rows.map Prod.fst then
    rows.map fun r => if r.1 = row.1 then row else r
  else
    rows ++ [row]

/-- Of two rows with the same key the place of the first and the value of the last count. -/
def ofRows (rows : List (κ × ν)) : List (κ × ν) :=
  rows.foldl (fun table row => insert row table) []

theorem ofRows_eq_self {rows : List (κ × ν)} (h : (rows.map Prod.fst).Nodup) :
    ofRows rows = rows := by
  suffices ∀ table : List (κ × ν), ((table ++ rows).map Prod.fst).Nodup →
      rows.foldl (fun table row => insert row table) table = table ++ rows from this [] h
  clear h
  induction rows with
  | nil => simp
  | cons row rows ih =>
      intro table h
      rw [List.foldl_cons, insert, if_neg (key_not_mem h), ih (table ++ [row]) (by simpa using h),
        List.append_assoc, List.singleton_append]

theorem insert_length {rows : List (κ × ν)} {row : κ × ν} (h : row.1 ∈ rows.map Prod.fst) :
    (insert row rows).length = rows.length := by
  rw [insert, if_pos h, List.length_map]

theorem insert_tabulate {keys : List κ} {key : κ} (f : κ → ν) (value : ν) (h : key ∈ keys) :
    insert (key, value) (tabulate keys f) =
      tabulate keys fun k => if k = key then value else f k := by
  rw [insert, if_pos (by rwa [tabulate_keys]), tabulate, tabulate, List.map_map]
  refine List.map_congr_left fun k _ => ?_
  by_cases hk : k = key <;> simp [hk]

theorem insert_distinct {rows : List (κ × ν)} (row : κ × ν) (h : (rows.map Prod.fst).Nodup) :
    ((insert row rows).map Prod.fst).Nodup := by
  unfold insert
  split
  · have : (rows.map fun r => if r.1 = row.1 then row else r).map Prod.fst =
        rows.map Prod.fst := by
      rw [List.map_map]
      refine List.map_congr_left fun r _ => ?_
      simp only [Function.comp_apply]
      split <;> simp_all
    rwa [this]
  · rename_i hn
    rw [List.map_append, List.nodup_append]
    refine ⟨h, by simp, fun a ha b hb => ?_⟩
    simp only [List.map_cons, List.map_nil, List.mem_singleton] at hb
    subst hb
    exact fun hab => hn (hab ▸ ha)

theorem ofRows_distinct (rows : List (κ × ν)) : ((ofRows rows).map Prod.fst).Nodup := by
  suffices ∀ table : List (κ × ν), (table.map Prod.fst).Nodup →
      ((rows.foldl (fun table row => insert row table) table).map Prod.fst).Nodup from
    this [] (by simp)
  induction rows with
  | nil => exact fun _ h => h
  | cons row rows ih => exact fun table h => ih _ (insert_distinct row h)

end DebianPackaging.Table
