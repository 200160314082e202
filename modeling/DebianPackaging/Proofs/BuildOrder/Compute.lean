import DebianPackaging.Proofs.BuildOrder.Order

namespace DebianPackaging.BuildOrder

open Text Outcome

variable {w : Workspace} {paths : List Path} {p : Path} {sources : List Control} {c : Control}
  {earlier : List (Path × Control)}

theorem kind_of_load (h : (Control.load w p).result = .ok c) : c.source.kind = .source := by
  simp only [Control.load, Control.parse, Control.read, readParagraphs, Logged.result_bind_eq_ok_iff,
    Logged.result_report, Logged.result_mapError, mapError_eq_ok_iff, Logged.result_ofExcept,
    Logged.result_pure, Except.ok.injEq] at h
  obtain ⟨-, -, t, -, c', hread, -, -, rfl⟩ := h
  obtain ⟨paragraphs, -, hc⟩ := bind_eq_ok_iff.mp hread
  cases paragraphs with
  | nil => cases hc
  | cons paragraph paragraphs =>
      obtain ⟨source, hs, hc⟩ := bind_eq_ok_iff.mp hc
      obtain ⟨binaries, -, hc⟩ := bind_eq_ok_iff.mp hc
      cases hc
      rw [readRecord, mapError_eq_ok_iff, Record.decode, map_eq_ok_iff] at hs
      obtain ⟨values, -, rfl⟩ := hs
      rfl

theorem addSource_of_new (h : (Control.load w p).result = .ok c)
    (hn : c.name ∉ earlier.map fun other => other.2.name) :
    (addSource w earlier p).result = .ok (earlier ++ [(p, c)]) := by
  have hfind : earlier.find? (fun other => other.2.name = c.name) = none := by
    rw [List.find?_eq_none]
    intro other ho
    simp only [decide_eq_true_eq]
    exact fun he => hn (List.mem_map.mpr ⟨other, ho, he⟩)
  simp only [addSource, Logged.result_bind_eq_ok_iff, Logged.result_mapError, mapError_eq_ok_iff]
  exact ⟨c, h, by rw [hfind]; rfl⟩

/-- Control files of different sources are added one after the other. -/
theorem foldlM_addSource (earlier : List (Path × Control))
    (h : List.Forall₂ (fun p c => (Control.load w p).result = .ok c) paths sources)
    (hn : ((earlier.map fun other => other.2.name) ++ sources.map Control.name).Nodup) :
    ∃ loaded, (paths.foldlM (addSource w) earlier).result = .ok loaded ∧
      loaded.map Prod.snd = earlier.map Prod.snd ++ sources := by
  induction h generalizing earlier with
  | nil => exact ⟨earlier, rfl, by rw [List.append_nil]⟩
  | @cons p c paths sources hload _ ih =>
      have hnew : c.name ∉ earlier.map fun other => other.2.name := fun hm =>
        (List.nodup_append.mp hn).2.2 _ hm _ (by simp) rfl
      have hn' : (((earlier ++ [(p, c)]).map fun other => other.2.name) ++
          sources.map Control.name).Nodup := by
        simpa using hn
      obtain ⟨loaded, hl, hsnd⟩ := ih _ hn'
      refine ⟨loaded, ?_, by simpa using hsnd⟩
      rw [List.foldlM_cons, Logged.result_bind_eq_ok_iff]
      exact ⟨_, addSource_of_new hload hnew, hl⟩

theorem loadSources_of_distinct
    (h : paths.mapM (fun p => (Control.load w p).result) = .ok sources)
    (hn : (sources.map Control.name).Nodup) : (loadSources w paths).result = .ok sources := by
  obtain ⟨loaded, hl, hsnd⟩ := foldlM_addSource [] (mapM_eq_ok_iff.mp h) hn
  rw [loadSources, Logged.result_bind_eq_ok_iff]
  exact ⟨loaded, hl, by rw [hsnd]; rfl⟩

variable {settings : Logged Error Settings} {s : Settings} {host : Architecture}

theorem result_compute (hs : settings.result = .ok s)
    (hh : Architecture.parse s.hostArchitecture = .ok host)
    (hl : paths.mapM (fun p => (Control.load w p).result) = .ok sources)
    (hn : (sources.map Control.name).Nodup) :
    (compute w paths settings).result = (ofSet ⟨sources, host, s⟩).result := by
  have hhost : (parseHost s).result = .ok host := by
    rw [parseHost, Logged.result_ofExcept, hh]
    rfl
  simp only [compute, announce, Logged.result_bind, Logged.result_report, hs,
    Logged.result_reportAll, loadSources_of_distinct hl hn]
  change ((parseHost s).result >>= _) = _
  rw [hhost]
  rfl

/-- Control files have a build order exactly when their sources do not depend on each other in a
cycle, and what is computed is one. -/
theorem compute_isOrderOf (w : Workspace) (paths : List Path) (settings : Logged Error Settings)
    (s : Settings) (host : Architecture) (sources : List Control)
    (hs : settings.result = .ok s)
    (hh : Architecture.parse s.hostArchitecture = .ok host)
    (hf : ∀ field ∈ s.orderFields, IsSourceRelationship field)
    (hl : paths.mapM (fun p => (Control.load w p).result) = .ok sources)
    (hn : (sources.map Control.name).Nodup) :
    ((∃ o, (compute w paths settings).result = .ok o) ↔
        ¬∃ a, Relation.TransGen (BuildSet.DependsOn ⟨sources, host, s⟩) a a) ∧
      ∀ o, (compute w paths settings).result = .ok o → IsOrderOf o ⟨sources, host, s⟩ := by
  rw [result_compute hs hh hl hn]
  refine ofSet_isOrderOf (s := ⟨sources, host, s⟩) hn fun c hc => ?_
  obtain ⟨p, -, hload⟩ := exists_of_mem_mapM hl c hc
  exact BuildSet.exists_neededNames hf (kind_of_load hload)

section Sample

def sampleWorkspace : Workspace where
  tree := [
    (["app".toList], .file "Source: app\nBuild-Depends: liba, lib, gcc, $\x7bx\x7d\n".toUTF8),
    (["lib".toList], .file
      "Source: lib\nBuild-Depends: gcc\n\nPackage: liba\nArchitecture: any\n".toUTF8)]
  cwd := []

def samplePaths : List Path := [.ofText "app", .ofText "lib"]

def sampleHost : Architecture := ⟨"base".toList, "gnu".toList, "linux".toList, "amd64".toList⟩

theorem parse_sampleHost :
    Architecture.parse Settings.defaults.hostArchitecture = .ok sampleHost := by
  cbv

def brief (c : Control) : Text × Except Record.NotARelationship (List Text) × List Offer :=
  (c.name, BuildSet.neededNames ⟨[], sampleHost, .defaults⟩ c,
    BuildSet.offersOf ⟨[], sampleHost, .defaults⟩ c)

set_option maxRecDepth 4000 in
theorem brief_app : (Control.load sampleWorkspace (.ofText "app")).result.map brief =
    .ok ("app".toList, .ok ["liba".toList, "lib".toList, "gcc".toList], []) := by
  cbv

set_option maxRecDepth 4000 in
theorem brief_lib : (Control.load sampleWorkspace (.ofText "lib")).result.map brief =
    .ok ("lib".toList, .ok ["gcc".toList], [⟨"liba".toList, "lib".toList, true⟩]) := by
  cbv

theorem sample_computes :
    ∃ app lib,
      samplePaths.mapM (fun p => (Control.load sampleWorkspace p).result) = .ok [app, lib] ∧
      ([app, lib].map Control.name).Nodup ∧
      BuildSet.Asks ⟨[app, lib], sampleHost, .defaults⟩ app "lib" ∧
      (compute sampleWorkspace samplePaths (.ofExcept (.ok .defaults))).result =
        .ok ⟨[["lib".toList], ["app".toList]], ["gcc".toList], sampleHost⟩ := by
  obtain ⟨app, happ, hbrief⟩ := map_eq_ok_iff.mp brief_app
  obtain ⟨lib, hlib, hbrief'⟩ := map_eq_ok_iff.mp brief_lib
  simp only [brief, Prod.mk.injEq] at hbrief hbrief'
  obtain ⟨hname, hneeds, hoffers⟩ := hbrief
  obtain ⟨hname', hneeds', hoffers'⟩ := hbrief'
  have hl : samplePaths.mapM (fun p => (Control.load sampleWorkspace p).result) = .ok [app, lib] :=
    mapM_eq_ok_iff.mpr (.cons happ (.cons hlib .nil))
  have hn : ([app, lib].map Control.name).Nodup := by
    simp only [List.map_cons, List.map_nil, hname, hname']
    decide
  let s : BuildSet := ⟨[app, lib], sampleHost, .defaults⟩
  have hrows : IsRows s
      [(app, ["liba".toList, "lib".toList, "gcc".toList]), (lib, ["gcc".toList])] :=
    .cons ⟨rfl, hneeds⟩ (.cons ⟨rfl, hneeds'⟩ .nil)
  have hnames : s.names = ["app".toList, "lib".toList] := by
    rw [← hname, ← hname']
    rfl
  have hoffered : s.offers = [⟨"liba".toList, "lib".toList, true⟩] := by
    change s.offersOf app ++ (s.offersOf lib ++ []) = _
    rw [show s.offersOf app = [] from hoffers, List.nil_append, List.append_nil]
    exact hoffers'
  have htarget : s.target? = fun name =>
      if ["app".toList, "lib".toList].contains name then some name
      else if "liba".toList = name then some "lib".toList else none := by
    funext name
    rw [BuildSet.target?, hnames, BuildSet.provider?, hoffered]
    by_cases h : "liba".toList = name <;> simp [h]
  have hgraph : graph s [(app, ["liba".toList, "lib".toList, "gcc".toList]), (lib, ["gcc".toList])] =
      .ofRows [("app".toList, ["lib".toList, "lib".toList]), ("lib".toList, [])] := by
    simp only [graph, BuildSet.targets, htarget, hname, hname', List.map_cons, List.map_nil]
    cbv
  refine ⟨app, lib, hl, hn, (BuildSet.mem_neededNames (s := s) hneeds).mp (by simp), ?_⟩
  rw [result_compute rfl parse_sampleHost hl hn]
  refine (result_ofSet_eq_ok_iff hrows).mpr ⟨[["lib".toList], ["app".toList]], ?_, ?_⟩
  · rw [hgraph]
    cbv
  · simp only [externalNames, BuildSet.external, htarget]
    cbv

theorem compute_isOrderOf_sample :
    ∃ o sources,
      samplePaths.mapM (fun p => (Control.load sampleWorkspace p).result) = .ok sources ∧
      (compute sampleWorkspace samplePaths (.ofExcept (.ok .defaults))).result = .ok o ∧
      o.order = ["lib".toList, "app".toList] ∧ o.external = ["gcc".toList] ∧
      IsOrderOf o ⟨sources, sampleHost, .defaults⟩ := by
  obtain ⟨app, lib, hl, hn, -, hok⟩ := sample_computes
  exact ⟨_, [app, lib], hl, hok, rfl, rfl, (compute_isOrderOf _ _ _ _ _ _ rfl parse_sampleHost
    isSourceRelationship_defaults hl hn).2 _ hok⟩

/-- Names that sources ask for are not all external. -/
theorem external_omits_provided :
    ¬∀ (w : Workspace) (paths : List Path) (settings : Logged Error Settings) (s : Settings)
      (host : Architecture) (sources : List Control), settings.result = .ok s →
      Architecture.parse s.hostArchitecture = .ok host →
      (∀ field ∈ s.orderFields, IsSourceRelationship field) →
      paths.mapM (fun p => (Control.load w p).result) = .ok sources →
      (sources.map Control.name).Nodup →
      ∀ o, (compute w paths settings).result = .ok o →
        ∀ name, name ∈ o.external ↔
          ∃ c ∈ sources, BuildSet.Asks ⟨sources, host, s⟩ c name := by
  intro h
  obtain ⟨app, lib, hl, hn, hasks, hok⟩ := sample_computes
  have hiff := h _ _ _ _ _ _ rfl parse_sampleHost isSourceRelationship_defaults hl hn _ hok "lib"
  exact absurd (hiff.mpr ⟨app, List.mem_cons_self, hasks⟩) (by decide)

end Sample

end DebianPackaging.BuildOrder
