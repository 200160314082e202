import DebianPackaging.Proofs.Log
import DebianPackaging.Proofs.Settings.Overlay
import DebianPackaging.Settings.Load

namespace DebianPackaging.Settings

open Text Outcome Yaml

variable {w : Workspace} {p : Path} {dir : List Text} {extra : Option Path} {v : Value}
  {layers : List Value}

theorem isKeyed_of_readLayer (h : readLayer w p = .ok v) : v.IsKeyed := by
  unfold readLayer at h
  split at h
  · obtain ⟨t, -, hlayer⟩ := bind_eq_ok_iff.mp h
    unfold checkLayer at hlayer
    split at hlayer <;> cases hlayer
    exact isKeyed_read ‹_›
  · cases h

theorem isKeyed_texts (ts : List Text) : (Value.texts ts).IsKeyed :=
  .list fun _ hv => by
    obtain ⟨t, -, rfl⟩ := List.mem_map.mp hv
    exact .scalar _

theorem isKeyed_toValue (s : Settings) : s.toValue.IsKeyed := by
  simp [toValue, Value.isKeyed_map_iff, rowKeys, Scalar.asKey, Value.text, Value.bool,
    Value.IsKeyed.scalar, isKeyed_texts]

theorem result_loadLayer (w : Workspace) (p : Path) : (loadLayer w p).result = readLayer w p := by
  simp only [loadLayer, Logged.result_bind, Logged.result_report, Logged.result_ofExcept,
    Logged.result_reportAll, Logged.result_pure]
  cases readLayer w p <;> rfl

theorem isKeyed_of_loadLayer
    (h : (do return [← loadLayer w p] : Logged SettingsError (List Value)).result = .ok layers) :
    ∀ v ∈ layers, v.IsKeyed := by
  rw [Logged.result_bind_eq_ok_iff] at h
  obtain ⟨v, hv, hlayers⟩ := h
  cases hlayers
  rw [result_loadLayer] at hv
  exact List.forall_mem_singleton.mpr (isKeyed_of_readLayer hv)

theorem isKeyed_of_projectLayer (h : (projectLayer w dir).result = .ok layers) :
    ∀ v ∈ layers, v.IsKeyed := by
  unfold projectLayer at h
  split at h
  · exact isKeyed_of_loadLayer h
  · cases h
    simp

theorem isKeyed_of_extraLayer (h : (extraLayer w extra).result = .ok layers) :
    ∀ v ∈ layers, v.IsKeyed := by
  unfold extraLayer at h
  split at h
  · exact isKeyed_of_loadLayer h
  · cases h
    simp

/-- The settings that hold have no key twice in any map. -/
theorem isKeyed_of_load (h : (load w dir extra).result = .ok v) : v.IsKeyed := by
  simp only [load, Logged.result_bind, Logged.result_ofExcept, bind_eq_ok_iff] at h
  obtain ⟨project, hproject, asked, hasked, -, -, hchecked⟩ := h
  unfold checked at hchecked
  split at hchecked <;> cases hchecked
  exact Value.isKeyed_foldl_overlay (List.forall_mem_append.mpr
    ⟨isKeyed_of_projectLayer hproject, isKeyed_of_extraLayer hasked⟩) (isKeyed_toValue _)

/-- Asking for the file that the project has gives the same settings. -/
theorem load_projectFile_again (w : Workspace) (dir : List Text) (p : Path)
    (h : projectFile? w dir = some (.ofRoot (p.resolve w.cwd))) :
    (load w dir (some p)).result = (load w dir none).result := by
  simp only [load, projectLayer, extraLayer, h, Logged.result_bind, Logged.result_report,
    Logged.result_ofExcept, Logged.result_pure, result_loadLayer]
  cases hv : readLayer w (.ofRoot (p.resolve w.cwd)) with
  | error e => rfl
  | ok v =>
      have hagain := Value.overlay_overlay (isKeyed_of_readLayer hv) defaults.toValue
      simp only [bind, Except.bind, List.cons_append, List.nil_append, List.foldl_cons,
        List.foldl_nil, hagain]

end DebianPackaging.Settings
