import DebianPackaging.Proofs.Yaml.Value
import DebianPackaging.Settings.Overlay

namespace DebianPackaging.Yaml.Value

variable {key : Scalar} {path : List Scalar} {rows lower upper : List Row} {v w low up : Value}

section Rows

def overlaid (lower upper : List Row) : List Row :=
  overlayRows lower upper ++ upper.filter fun row => (valueAt? row.1 lower).isNone

theorem overlay_map (lower upper : List Row) :
    overlay (.map lower) (.map upper) = .map (overlaid lower upper) := by
  rw [overlay, overlaid]

theorem overlay_of_not_maps (h : (low.isMap && up.isMap) = false) : overlay low up = up := by
  apply overlay.eq_2
  rintro lower upper rfl rfl
  cases h

/-- Either both values are maps, or the upper one takes the place of the lower. -/
theorem overlay_cases (low up : Value) :
    (∃ lower upper, low = .map lower ∧ up = .map upper) ∨
      (low.isMap && up.isMap) = false ∧ overlay low up = up := by
  cases h : low.isMap && up.isMap with
  | false => exact Or.inr ⟨rfl, overlay_of_not_maps h⟩
  | true =>
      rw [Bool.and_eq_true] at h
      cases low with
      | map lower =>
          cases up with
          | map upper => exact Or.inl ⟨lower, upper, rfl, rfl⟩
          | scalar s => cases h.2
          | list items => cases h.2
      | scalar s => cases h.1
      | list items => cases h.1

theorem overlayRows_eq_map (lower upper : List Row) : overlayRows lower upper =
    lower.map fun row => (row.1, (valueAt? row.1 upper).elim row.2 (overlay row.2)) := by
  induction lower with
  | nil => rw [overlayRows, List.map_nil]
  | cons row lower ih =>
      rw [overlayRows, ih, List.map_cons]
      cases valueAt? row.1 upper <;> rfl

theorem valueAt?_overlayRows : valueAt? key (overlayRows lower upper) =
    (valueAt? key lower).map fun v => (valueAt? key upper).elim v (overlay v) := by
  rw [overlayRows_eq_map]
  induction lower with
  | nil => rfl
  | cons row lower ih =>
      rw [List.map_cons, valueAt?_cons, valueAt?_cons]
      split
      · rename_i hkey
        rw [valueAt?_congr hkey, Option.map_some]
      · exact ih

theorem valueAt?_filter_new : valueAt? key (upper.filter fun row => (valueAt? row.1 lower).isNone) =
    if (valueAt? key lower).isNone then valueAt? key upper else none := by
  induction upper with
  | nil => simp
  | cons row upper ih =>
      rw [List.filter_cons, valueAt?_cons]
      by_cases hkey : row.1.asKey = key.asKey
      · rw [if_pos hkey, valueAt?_congr hkey]
        split
        · rw [valueAt?_cons, if_pos hkey]
        · rename_i hold
          rw [ih, if_neg hold]
      · rw [if_neg hkey]
        split
        · rw [valueAt?_cons, if_neg hkey, ih]
        · exact ih

theorem valueAt?_overlaid : valueAt? key (overlaid lower upper) =
    (valueAt? key lower).elim (valueAt? key upper) fun v =>
      some ((valueAt? key upper).elim v (overlay v)) := by
  rw [overlaid, valueAt?_append, valueAt?_overlayRows, valueAt?_filter_new]
  cases valueAt? key lower <;> simp

end Rows

section Path

def atPath? (v : Value) : List Scalar → Option Value
  | [] => some v
  | key :: path => (v.rows?.bind (valueAt? key)).bind (atPath? · path)

/-- Nothing stands at the path, and what stands above it is a map. -/
def LeavesOpen (v : Value) (path : List Scalar) : Prop :=
  v.atPath? path = none ∧
    ∀ above, above <+: path → above ≠ path → ∀ w, v.atPath? above = some w → w.isMap = true

theorem atPath?_map_cons : (map rows).atPath? (key :: path) =
    (valueAt? key rows).bind (atPath? · path) := rfl

theorem isMap_of_atPath?_cons (h : v.atPath? (key :: path) = some w) : v.isMap = true := by
  cases v with
  | map rows => rfl
  | scalar s => cases h
  | list items => cases h

theorem forall_above_cons {P : List Scalar → Prop} :
    (∀ above, above <+: key :: path → above ≠ key :: path → P above) ↔
      P [] ∧ ∀ above, above <+: path → above ≠ path → P (key :: above) := by
  constructor
  · intro h
    refine ⟨h [] List.nil_prefix (List.cons_ne_nil key path).symm, fun above hle hne => ?_⟩
    exact h (key :: above) (List.cons_prefix_cons.mpr ⟨rfl, hle⟩) (by simpa using hne)
  · rintro ⟨hnil, hcons⟩ (_ | ⟨key', above⟩) hle hne
    · exact hnil
    · obtain ⟨rfl, hrest⟩ := List.cons_prefix_cons.mp hle
      exact hcons above hrest (by simpa using hne)

theorem not_leavesOpen_nil : ¬v.LeavesOpen [] := by
  rintro ⟨h, -⟩
  cases h

theorem LeavesOpen.isMap (h : v.LeavesOpen (key :: path)) : v.isMap = true :=
  (forall_above_cons.mp h.2).1 v rfl

theorem leavesOpen_map_cons : (map rows).LeavesOpen (key :: path) ↔
    ∀ w, valueAt? key rows = some w → w.LeavesOpen path := by
  have hroot : ∀ w, (map rows).atPath? [] = some w → w.isMap = true := by
    rintro w ⟨⟩
    rfl
  rw [LeavesOpen, forall_above_cons, and_iff_right hroot]
  simp only [atPath?_map_cons]
  cases valueAt? key rows with
  | none => simp
  | some w => simp [LeavesOpen]

/-- What is no map comes from the upper value, or from the lower one where the upper leaves the path
open. -/
theorem atPath?_overlay_iff (hv : v.isMap = false) : (overlay low up).atPath? path = some v ↔
    up.atPath? path = some v ∨ low.atPath? path = some v ∧ up.LeavesOpen path := by
  -- The paths of two maps go on below the rows of one key; everything else is replaced as a whole.
  induction path generalizing low up with
  | nil =>
      simp only [not_leavesOpen_nil, and_false, or_false, atPath?, Option.some.injEq]
      obtain ⟨lower, upper, rfl, rfl⟩ | ⟨-, hover⟩ := overlay_cases low up
      · rw [overlay_map]
        constructor <;> (rintro rfl; cases hv)
      · rw [hover]
  | cons key path ih =>
      obtain ⟨lower, upper, rfl, rfl⟩ | ⟨hmaps, hover⟩ := overlay_cases low up
      · rw [overlay_map, leavesOpen_map_cons]
        simp only [atPath?_map_cons, valueAt?_overlaid]
        cases valueAt? key lower with
        | none => simp
        | some low =>
            cases valueAt? key upper with
            | none => simp
            | some up => simpa using ih
      · rw [hover, iff_self_or]
        rintro ⟨hlow, hopen⟩
        simp [isMap_of_atPath?_cons hlow, hopen.isMap] at hmaps

end Path

section Again

/-- Rows that take in all of the upper ones are left alone by these. -/
theorem overlay_map_eq_self
    (hrows : ∀ row ∈ rows, ∀ above, valueAt? row.1 upper = some above → overlay row.2 above = row.2)
    (hkeys : ∀ row ∈ upper, valueAt? row.1 rows ≠ none) :
    overlay (.map rows) (.map upper) = .map rows := by
  have hnew : (upper.filter fun row => (valueAt? row.1 rows).isNone) = [] := by
    rw [List.filter_eq_nil_iff]
    intro row hrow
    simpa using hkeys row hrow
  rw [overlay_map, overlaid, hnew, List.append_nil, overlayRows_eq_map, List.map_congr_left,
    List.map_id]
  intro row hrow
  cases ha : valueAt? row.1 upper with
  | none => rfl
  | some above => rw [Option.elim_some, hrows row hrow above ha, id]

theorem overlay_self_of_again (h : ∀ low, overlay (overlay low v) v = overlay low v) :
    overlay v v = v := by
  have hnull : overlay null v = v := overlay_of_not_maps rfl
  have hagain := h null
  rwa [hnull] at hagain

/-- What is laid over a value once more changes nothing. -/
theorem overlay_overlay (h : up.IsKeyed) (low : Value) :
    overlay (overlay low up) up = overlay low up := by
  induction h generalizing low with
  | scalar s => rw [overlay_of_not_maps (by simp [isMap]), overlay_of_not_maps (by simp [isMap])]
  | list h => rw [overlay_of_not_maps (by simp [isMap]), overlay_of_not_maps (by simp [isMap])]
  | @map upper hd h ih =>
      have habove : ∀ key above, valueAt? key upper = some above →
          ∀ low, overlay (overlay low above) above = overlay low above := by
        intro key above ha
        obtain ⟨row, hrow, -, rfl⟩ := exists_of_valueAt? ha
        exact ih row hrow
      have hself : ∀ row ∈ upper, ∀ above, valueAt? row.1 upper = some above →
          overlay row.2 above = row.2 := by
        intro row hrow above ha
        rw [valueAt?_of_mem hd hrow, Option.some.injEq] at ha
        subst ha
        exact overlay_self_of_again (ih row hrow)
      obtain ⟨lower, -, rfl, -⟩ | ⟨-, hover⟩ := overlay_cases low (.map upper)
      · rw [overlay_map]
        refine overlay_map_eq_self (fun row hrow above ha => ?_) fun row hrow => ?_
        · rcases List.mem_append.mp hrow with hrow | hrow
          · rw [overlayRows_eq_map] at hrow
            obtain ⟨r, -, rfl⟩ := List.mem_map.mp hrow
            simp only [ha, Option.elim_some]
            exact habove r.1 above ha r.2
          · exact hself row (List.mem_of_mem_filter hrow) above ha
        · rw [valueAt?_overlaid]
          cases valueAt? row.1 lower with
          | none => simp [valueAt?_of_mem hd hrow]
          | some v => simp
      · rw [hover]
        exact overlay_map_eq_self hself fun row hrow => by simp [valueAt?_of_mem hd hrow]

end Again

section Keyed

theorem rowKeys_overlayRows (lower upper : List Row) :
    rowKeys (overlayRows lower upper) = rowKeys lower := by
  rw [overlayRows_eq_map, rowKeys, List.map_map]
  rfl

theorem nodup_rowKeys_overlaid (hl : (rowKeys lower).Nodup) (hu : (rowKeys upper).Nodup) :
    (rowKeys (overlaid lower upper)).Nodup := by
  rw [overlaid, rowKeys_append, rowKeys_overlayRows, List.nodup_append]
  refine ⟨hl, hu.sublist (List.filter_sublist.map _), fun key hkey key' hkey' heq => ?_⟩
  obtain ⟨row, hrow, rfl⟩ := List.mem_map.mp hkey'
  have hnew := (List.mem_filter.mp hrow).2
  rw [Option.isNone_iff_eq_none, valueAt?_eq_none_iff] at hnew
  exact hnew (heq ▸ hkey)

theorem IsKeyed.overlay (hup : up.IsKeyed) (hlow : low.IsKeyed) : (overlay low up).IsKeyed := by
  induction hup generalizing low with
  | scalar s =>
      rw [overlay_of_not_maps (by simp [isMap])]
      exact .scalar s
  | list h =>
      rw [overlay_of_not_maps (by simp [isMap])]
      exact .list h
  | @map upper hd h ih =>
      obtain ⟨lower, -, rfl, -⟩ | ⟨-, hover⟩ := overlay_cases low (.map upper)
      · obtain ⟨hdlow, hrows⟩ := isKeyed_map_iff.mp hlow
        rw [overlay_map]
        refine .map (nodup_rowKeys_overlaid hdlow hd) (List.forall_mem_append.mpr ⟨?_, ?_⟩)
        · rw [overlayRows_eq_map, List.forall_mem_map]
          intro row hrow
          cases ha : valueAt? row.1 upper with
          | none => exact hrows row hrow
          | some above =>
              obtain ⟨r, hr, -, rfl⟩ := exists_of_valueAt? ha
              exact ih r hr (hrows row hrow)
        · exact fun row hrow => h row (List.mem_of_mem_filter hrow)
      · rw [hover]
        exact .map hd h

theorem isKeyed_foldl_overlay {layers : List Value} (h : ∀ v ∈ layers, v.IsKeyed)
    (hlow : low.IsKeyed) : (layers.foldl Value.overlay low).IsKeyed := by
  induction layers generalizing low with
  | nil => exact hlow
  | cons layer layers ih =>
      obtain ⟨hlayer, hlayers⟩ := List.forall_mem_cons.mp h
      exact ih hlayers (hlayer.overlay hlow)

end Keyed

/-- A value that is no map stands at a path of the result if it stands there in the upper map, or in the
lower one where the upper leaves the path open. Laying the upper map over the result once more leaves it
as it is. -/
theorem overlay_map_paths (lower upper : List Row) :
    (∀ (path : List Scalar) (v : Value), v.isMap = false →
      ((overlay (.map lower) (.map upper)).atPath? path = some v ↔
        (map upper).atPath? path = some v ∨
          (map lower).atPath? path = some v ∧ (map upper).LeavesOpen path)) ∧
    ((map upper).IsKeyed →
      overlay (overlay (.map lower) (.map upper)) (.map upper) =
        overlay (.map lower) (.map upper)) :=
  ⟨fun _ _ hv => atPath?_overlay_iff hv, fun h => overlay_overlay h _⟩

def lowerSample : List Row :=
  [(.text "a", .map [(.int 1, .text "x"), (.text "b", .texts ["y"])]),
    (.text "c", .map [(.null, .bool true)])]

/-- The key 1 is spelled as a truth value. -/
def upperSample : List Row :=
  [(.text "c", .list []), (.text "a", .map [(.bool true, .map [(.text "d", .null)])])]

theorem overlay_map_paths_sample :
    (overlay (.map lowerSample) (.map upperSample)).atPath? [.text "a", .text "b"] =
        some (.texts ["y"]) ∧
      (overlay (.map lowerSample) (.map upperSample)).atPath? [.text "a", .int 1, .text "d"] =
        some .null ∧
      (overlay (.map lowerSample) (.map upperSample)).atPath? [.text "c"] = some (.list []) ∧
      (map upperSample).IsKeyed ∧
      overlay (overlay (.map lowerSample) (.map upperSample)) (.map upperSample) =
        overlay (.map lowerSample) (.map upperSample) := by
  obtain ⟨hpaths, hagain⟩ := overlay_map_paths lowerSample upperSample
  have hkeyed : (map upperSample).IsKeyed := by
    simp [upperSample, isKeyed_map_iff, rowKeys, Scalar.asKey, null, IsKeyed.scalar, IsKeyed.list]
  have hopen : (map upperSample).LeavesOpen [.text "a", .text "b"] := by
    refine leavesOpen_map_cons.mpr fun w hw => ?_
    cases hw
    exact leavesOpen_map_cons.mpr fun w hw => by cases hw
  exact ⟨(hpaths _ _ rfl).mpr (Or.inr ⟨rfl, hopen⟩), (hpaths _ _ rfl).mpr (Or.inl rfl),
    (hpaths _ _ rfl).mpr (Or.inl rfl), hkeyed, hagain hkeyed⟩

end DebianPackaging.Yaml.Value
