/-
The start of a workspace. The files with globals and the scripts of the units
are extracted by calls that run at the same time and share one store. No two
of them have one key, and so every order in which all calls come to their end
gives the workspace that is built one file after another.
-/
import ScriptAtlas.Proofs.RouteLaws
import ScriptAtlas.Proofs.SteadyCalls
import ScriptAtlas.Proofs.UnitOwnership
import ScriptAtlas.Workspace

namespace ScriptAtlas.Startup

open ScriptAtlas.Path

/-! ## The calls of a start -/

/-- The files with globals below a root. -/
def globalsFiles (t : FileTree) (c : Config) (root : String) : List String :=
  ((Discovery.find t c root c.isGlobalsFile).toOption).getD []

/-- The scripts of the units below a root, each once. -/
def unitFiles (t : FileTree) (c : Config) (root : String) : List String :=
  ((Units.find t c root).flatMap (Units.scriptsOf t c)).eraseDups

/-- The files that are extracted at the start, each by a call of its own. -/
def asked (t : FileTree) (c : Config) (root : String) : List String :=
  globalsFiles t c root ++ unitFiles t c root

/-- The folder of the cache that a file is kept in. -/
def folderOf (c : Config) (path : String) : String :=
  if c.isGlobalsFile path then globalsFolder else unitsFolder

/-- The path is that of a route. -/
def IsText (path : String) : Prop := (Route.ofPath path).Proper ∧ (Route.ofPath path).text = path

instance (path : String) : Decidable (IsText path) := inferInstanceAs (Decidable (_ ∧ _))

theorem isText_text {r : Route} (h : r.Proper) : IsText r.text := by
  rw [IsText, Route.ofPath_text h]
  exact ⟨h, rfl⟩

/-- The key of a file at the start. Paths that no walk finds get keys outside of the folders. -/
def startKey (c : Config) (root path : String) : String :=
  if IsText path then cacheKey (folderOf c path) root path else "/" ++ path

theorem folderOf_mem (c : Config) (path : String) : folderOf c path ∈ [globalsFolder, unitsFolder] := by
  unfold folderOf
  split <;> simp

theorem head?_cacheKey (c : Config) (root path : String) :
    (cacheKey (folderOf c path) root path).toList.head? ≠ some '/' := by
  unfold folderOf
  split <;> simp [cacheKey, globalsFolder, unitsFolder]

theorem startKey_injective (c : Config) (root : String) {p q : String}
    (h : startKey c root p = startKey c root q) : p = q := by
  have hother (path : String) : ("/" ++ path).toList.head? = some '/' := by simp
  unfold startKey at h
  by_cases hp : IsText p <;> by_cases hq : IsText q
  · rw [if_pos hp, if_pos hq, ← hp.2, ← hq.2] at h
    obtain ⟨-, hroute⟩ := cacheKey_injective hp.1 hq.1 (folderOf_mem c _) (folderOf_mem c _) h
    rw [← hp.2, ← hq.2, hroute]
  · rw [if_pos hp, if_neg hq] at h
    exact absurd (h ▸ hother q) (head?_cacheKey c root p)
  · rw [if_neg hp, if_pos hq] at h
    exact absurd (h ▸ hother p) (head?_cacheKey c root q)
  · rw [if_neg hp, if_neg hq] at h
    exact String.toList_inj.1 (by simpa using congrArg String.toList h)

/-- The calls at the start of a workspace, while no file is written. -/
def scene (t : FileTree) (c : Config) (root : String) : Cache.Scene where
  tree _ := t
  path i := ((asked t c root)[i]?).getD ""
  key := startKey c root
  fresh _ _ _ _ := .inl rfl
  key_inj _ _ h := startKey_injective c root h

theorem key_scene (t : FileTree) (c : Config) (root : String) : (scene t c root).key = startKey c root := rfl

theorem path_scene {t : FileTree} {c : Config} {root path : String} (h : path ∈ asked t c root) :
    (scene t c root).path ((asked t c root).idxOf path) = path := by
  show ((asked t c root)[(asked t c root).idxOf path]?).getD "" = path
  rw [List.getElem?_idxOf h, Option.getD_some]

theorem path_scene_cases (t : FileTree) (c : Config) (root : String) (i : Nat) :
    i < (asked t c root).length ∧ (scene t c root).path i ∈ asked t c root ∨
      (scene t c root).path i = "" := by
  by_cases hi : i < (asked t c root).length
  · refine .inl ⟨hi, ?_⟩
    show ((asked t c root)[i]?).getD "" ∈ asked t c root
    rw [List.getElem?_eq_getElem hi, Option.getD_some]
    exact List.getElem_mem hi
  · refine .inr ?_
    show ((asked t c root)[i]?).getD "" = ""
    rw [List.getElem?_eq_none (by omega), Option.getD_none]

/-- The world after steps of the calls of a start, in some order. -/
def after (t : FileTree) (c : Config) (root : String) (s : Store) (es : List Cache.Event) : Cache.World :=
  es.foldl (scene t c root).step { store := s }

/-- All calls of a start have come to their end. -/
def Finished (t : FileTree) (c : Config) (root : String) (w : Cache.World) : Prop :=
  ∀ i < (asked t c root).length, ∃ answer, (w.calls i).answer? = some answer

theorem finished_of_count {t : FileTree} {c : Config} {root : String} {s : Store} {es : List Cache.Event}
    (h : ∀ i < (asked t c root).length, 4 ≤ es.count (.act i)) :
    Finished t c root (after t c root s es) := by
  intro i hi
  have hleft : ((after t c root s es).calls i).left ≤ 4 - es.count (.act i) := Cache.Scene.left_foldl es
  have hcount := h i hi
  exact Cache.Scene.answer?_of_left (by omega)

theorem declared?_empty (t : FileTree) : t.declared? "" = none := rfl

section

variable {t : FileTree} (ht : t.Named) {c : Config} {r : Route} (hr : r.Proper)

include ht hr

theorem exists_route_of_unit {u : ProjectUnit} (hu : u ∈ Units.find t c r.text) :
    ∃ q : Route, q.Proper ∧ u.path = q.text := by
  obtain ⟨settings, hfound, hpath, -⟩ := Units.exists_settings_of_mem_find hu
  obtain ⟨hkeep, q, hq, rfl⟩ := Discovery.exists_route_of_mem_find ht hr hfound
  have hlast : q.getLast? = some c.settingsFile := by
    simpa [Config.isSettingsFile, Route.fileName?_text hq] using hkeep
  obtain ⟨folder, rfl⟩ := List.getLast?_eq_some_iff.1 hlast
  rw [Route.parent?_text hq.left (hq _ (by simp)), Option.getD_some] at hpath
  exact ⟨folder, hq.left, hpath⟩

theorem of_mem_globalsFiles {path : String} (h : path ∈ globalsFiles t c r.text) :
    c.isGlobalsFile path = true ∧ IsText path := by
  obtain ⟨hkeep, q, hq, rfl⟩ := Discovery.exists_route_of_mem_find ht hr h
  exact ⟨hkeep, isText_text hq⟩

theorem of_mem_unitFiles {path : String} (h : path ∈ unitFiles t c r.text) :
    c.isGlobalsFile path = false ∧ IsText path := by
  simp only [unitFiles, List.mem_eraseDups, List.mem_flatMap] at h
  obtain ⟨u, hu, hscript⟩ := h
  obtain ⟨folder, hfolder, hpath⟩ := exists_route_of_unit ht hr hu
  rw [Units.scriptsOf, hpath] at hscript
  obtain ⟨hkeep, q, hq, rfl⟩ := Discovery.exists_route_of_mem_find ht hfolder hscript
  simp only [Bool.and_eq_true, Bool.not_eq_true'] at hkeep
  exact ⟨hkeep.2, isText_text hq⟩

theorem startKey_of_mem_globalsFiles {path : String} (h : path ∈ globalsFiles t c r.text) :
    startKey c r.text path = cacheKey globalsFolder r.text path := by
  obtain ⟨hglobals, htext⟩ := of_mem_globalsFiles ht hr h
  rw [startKey, if_pos htext, folderOf, if_pos hglobals]

theorem startKey_of_mem_unitFiles {path : String} (h : path ∈ unitFiles t c r.text) :
    startKey c r.text path = cacheKey unitsFolder r.text path := by
  obtain ⟨hglobals, htext⟩ := of_mem_unitFiles ht hr h
  rw [startKey, if_pos htext, folderOf, hglobals]
  rfl

/-- The files with globals come in the order of their routes. -/
theorem exists_routes_globalsFiles (hord : t.InOrder) : ∃ routes : List Route,
    globalsFiles t c r.text = routes.map Route.text ∧ routes.Pairwise (· < ·) ∧
      ∀ q ∈ routes, q.Proper ∧ c.isGlobalsFile q.text = true :=
  Discovery.exists_routes_find ht hord hr

theorem nodup_asked (hord : t.InOrder) : (asked t c r.text).Nodup := by
  refine List.nodup_append.2 ⟨?_, ?_, fun p hp q hq heq => ?_⟩
  · obtain ⟨routes, hroutes, hsorted, hproper⟩ := exists_routes_globalsFiles (c := c) ht hr hord
    rw [hroutes]
    have hnodup : routes.Nodup := hsorted.imp fun hlt => hlt.ne
    exact hnodup.map_on fun q hq q' hq' => Route.text_injective (hproper q hq).1 (hproper q' hq').1
  · exact nodup_eraseDups _
  · subst heq
    have hglobals := (of_mem_globalsFiles ht hr hp).1
    rw [(of_mem_unitFiles ht hr hq).1] at hglobals
    cases hglobals

theorem nodup_keys (hord : t.InOrder) : ((asked t c r.text).map (startKey c r.text)).Nodup :=
  (nodup_asked ht hr hord).map fun _ _ h => startKey_injective c r.text h

end

/-! ## The workspace that calls make -/

/-- What the call for a path has answered. -/
def answerTo (t : FileTree) (c : Config) (root : String) (w : Cache.World) (path : String) :
    Option Declarations := (w.calls ((asked t c root).idxOf path)).answer?.join

/-- The units of a root with what their scripts declare. -/
def unitsWith (t : FileTree) (c : Config) (root : String) (declared? : String → Option Declarations) :
    Units where
  root := root
  units := Units.find t c root
  graph := UnitGraph.ofUnits ((Units.find t c root).map fun u => (u.name, u.references))
  files := (Units.find t c root).map fun u => (u.name, Units.scriptsOf t c u)
  declarations := (unitFiles t c root).filterMap fun path => (declared? path).map (path, ·)

/-- The index of a root with what its files with globals declare. -/
def indexWith (t : FileTree) (c : Config) (root : String) (declared? : String → Option Declarations) :
    SymbolIndex :=
  (SymbolIndex.ofCatalog (SymbolIndex.catalogOf t c)).installGlobals
    (Globals.merge ((globalsFiles t c root).filterMap declared?))

/-- The workspace made of the answers of the calls and the store that they leave. -/
def assemble (t : FileTree) (c : Config) (root : String) (database : Option Route) (w : Cache.World) :
    Workspace where
  root := root
  config := c
  database := database
  store := w.store
  index := indexWith t c root (answerTo t c root w)
  units := unitsWith t c root (answerTo t c root w)

/-- The store has for the files of a start what they declare, where it has something for their
stamps. -/
def Correct (t : FileTree) (c : Config) (root : String) (s : Store) : Prop :=
  (∀ path ∈ globalsFiles t c root, t.Backs s path (cacheKey globalsFolder root path)) ∧
    ∀ path ∈ unitFiles t c root, t.Backs s path (cacheKey unitsFolder root path)

section

variable {t : FileTree} (ht : t.Named) (hord : t.InOrder) {c : Config} {r : Route} (hr : r.Proper)
  {s : Store}

include ht hr

theorem backs_of_correct (hs : Correct t c r.text s) {path : String} (h : path ∈ asked t c r.text) :
    t.Backs s path (startKey c r.text path) := by
  rcases List.mem_append.1 h with h | h
  · rw [startKey_of_mem_globalsFiles ht hr h]
    exact hs.1 path h
  · rw [startKey_of_mem_unitFiles ht hr h]
    exact hs.2 path h

include hord

/-- Extracting some of the files of a start one after another, with the keys of one folder. -/
theorem foldl_extract_asked {β : Type} (f : String → Declarations → β) {folder : String}
    {paths : List String} (hsub : paths.Sublist (asked t c r.text))
    (hkey : ∀ path ∈ paths, startKey c r.text path = cacheKey folder r.text path)
    (hbacks : ∀ path ∈ paths, t.Backs s path (startKey c r.text path)) :
    paths.foldl (fun (found, s) path =>
        match t.extract s path (cacheKey folder r.text path) with
        | (some d, s) => (found ++ [f path d], s)
        | (none, s) => (found, s)) ([], s) =
      (paths.filterMap fun path => (t.declared? path).map (f path),
        storeAfter t (startKey c r.text) s paths) := by
  have hmap : paths.map (startKey c r.text) = paths.map (cacheKey folder r.text) := List.map_congr_left hkey
  have hnodup := (nodup_keys (c := c) ht hr hord).sublist (hsub.map (startKey c r.text))
  have hstore : storeAfter t (startKey c r.text) s paths = storeAfter t (cacheKey folder r.text) s paths :=
    List.foldl_ext _ _ s fun s path hpath => by rw [hkey path hpath]
  rw [hstore]
  exact foldl_extract f (hmap ▸ hnodup) (fun path hpath => hkey path hpath ▸ hbacks path hpath) []

theorem build_index (hs : Correct t c r.text s) : SymbolIndex.build t c r.text s =
    (indexWith t c r.text t.declared?, storeAfter t (startKey c r.text) s (globalsFiles t c r.text)) := by
  have hfound : SymbolIndex.extractGlobals t r.text s (globalsFiles t c r.text) =
      ((globalsFiles t c r.text).filterMap t.declared?,
        storeAfter t (startKey c r.text) s (globalsFiles t c r.text)) := by
    have hfold := foldl_extract_asked ht hord hr (s := s) (c := c) (fun _ d => d)
      (List.sublist_append_left _ _) (fun path hpath => startKey_of_mem_globalsFiles ht hr hpath)
      (fun path hpath => backs_of_correct ht hr hs (List.mem_append_left _ hpath))
    simp only [Option.map_id'] at hfold
    exact hfold
  have hpaths : ((Discovery.find t c r.text c.isGlobalsFile).toOption).getD [] =
      globalsFiles t c r.text := rfl
  simp only [SymbolIndex.build, hpaths, hfound]
  rfl

/-- The files with globals leave nothing under the keys of the scripts. -/
theorem backs_storeAfter (hs : Correct t c r.text s) {path : String} (h : path ∈ unitFiles t c r.text) :
    t.Backs (storeAfter t (startKey c r.text) s (globalsFiles t c r.text)) path
      (startKey c r.text path) := by
  refine (backs_of_correct ht hr hs (List.mem_append_right _ h)).congr ?_
  have hkeys := (nodup_keys (c := c) ht hr hord)
  rw [asked, List.map_append, List.nodup_append] at hkeys
  obtain ⟨hglobals, -, hdisjoint⟩ := hkeys
  refine ((settled_storeAfter hglobals s).other _ fun q hq he => ?_).symm
  exact hdisjoint _ (List.mem_map_of_mem hq) _ (List.mem_map_of_mem h) he

theorem build_units (hs : Correct t c r.text s) :
    Units.build t c r.text (storeAfter t (startKey c r.text) s (globalsFiles t c r.text)) =
      (unitsWith t c r.text t.declared?, storeAfter t (startKey c r.text) s (asked t c r.text)) := by
  have hfiles : (((Units.find t c r.text).map fun u =>
      (u.name, Units.scriptsOf t c u)).flatMap (·.2)).eraseDups = unitFiles t c r.text := by
    rw [List.flatMap_map]
    rfl
  have hfound : Units.extractAll t r.text (storeAfter t (startKey c r.text) s (globalsFiles t c r.text))
      (unitFiles t c r.text) = _ := foldl_extract_asked ht hord hr (c := c) Prod.mk
      (List.sublist_append_right _ _) (fun path hpath => startKey_of_mem_unitFiles ht hr hpath)
      (fun path hpath => backs_storeAfter ht hord hr hs hpath)
  have hstore : storeAfter t (startKey c r.text) s (asked t c r.text) =
      storeAfter t (startKey c r.text) (storeAfter t (startKey c r.text) s (globalsFiles t c r.text))
        (unitFiles t c r.text) := List.foldl_append
  simp only [Units.build, hfiles, hfound, hstore]
  rfl

/-- **The workspace that is built one file after another.** -/
theorem build_eq (hs : Correct t c r.text s) (database : Option Route) :
    Workspace.build t c r.text database s =
      { root := r.text, config := c, database := database
        store := storeAfter t (startKey c r.text) s (asked t c r.text)
        index := indexWith t c r.text t.declared?
        units := unitsWith t c r.text t.declared? } := by
  rw [Workspace.build, build_index ht hord hr hs]
  simp only [build_units ht hord hr hs]

/-! ## Every order of steps -/

/-- No two calls of a start ask for one file. -/
theorem path_scene_inj (i j : Nat) (h : (scene t c r.text).path i = (scene t c r.text).path j) :
    i = j ∨ t.declared? ((scene t c r.text).path i) = none := by
  rcases path_scene_cases t c r.text i with ⟨hi, -⟩ | hi
  · rcases path_scene_cases t c r.text j with ⟨hj, -⟩ | hj
    · have hij : (asked t c r.text)[i] = (asked t c r.text)[j] := by
        simpa [scene, List.getElem?_eq_getElem, hi, hj] using h
      exact .inl ((nodup_asked ht hr hord).getElem_inj_iff.1 hij)
    · exact .inr (by rw [h, hj, declared?_empty])
  · exact .inr (by rw [hi, declared?_empty])

theorem steady_after (es : List Cache.Event) : Steady (scene t c r.text) t s (after t c r.text s es) :=
  steady_run (fun _ => rfl) (path_scene_inj ht hord hr) es

theorem answerTo_eq (hs : Correct t c r.text s) {es : List Cache.Event}
    (hdone : Finished t c r.text (after t c r.text s es)) {path : String} (h : path ∈ asked t c r.text) :
    answerTo t c r.text (after t c r.text s es) path = t.declared? path ∧
      (after t c r.text s es).store.load (startKey c r.text path) =
        (t.extract s path (startKey c r.text path)).2.load (startKey c r.text path) := by
  have hpath := path_scene h
  obtain ⟨answer, hanswer⟩ := hdone _ (List.idxOf_lt_length_iff.2 h)
  have hsteady := steady_after (c := c) (s := s) ht hord hr es
  have hbacks : t.Backs s path ((scene t c r.text).key path) := backs_of_correct ht hr hs h
  have hend := hsteady.of_answered (by rwa [hpath]) (path_scene_inj ht hord hr) hanswer
  rw [hpath] at hend
  refine ⟨?_, hend.2⟩
  rw [answerTo, hanswer]
  exact hend.1

theorem settled_after (hs : Correct t c r.text s) {es : List Cache.Event}
    (hdone : Finished t c r.text (after t c r.text s es)) :
    Settled t (startKey c r.text) (asked t c r.text) s (after t c r.text s es).store := by
  have hsteady := steady_after (c := c) (s := s) ht hord hr es
  refine ⟨fun path hpath => (answerTo_eq ht hord hr hs hdone hpath).2, fun k hk => ?_⟩
  refine hsteady.unsaved k fun i hi => ?_
  rcases path_scene_cases t c r.text i with ⟨-, hmem⟩ | hempty
  · rw [key_scene] at hi
    exact absurd hi (hk _ hmem)
  · exact (hsteady.calls i).not_hasSaved (by rw [hempty, declared?_empty])

/-- **The order of steps makes no difference.** When all calls of a start have come to their end, the
workspace made of their answers and of the store is the one that is built one file after another. -/
theorem assemble_eq (hs : Correct t c r.text s) (hsorted : s.InOrder) {es : List Cache.Event}
    (hdone : Finished t c r.text (after t c r.text s es)) (database : Option Route) :
    assemble t c r.text database (after t c r.text s es) = Workspace.build t c r.text database s := by
  have hindex : indexWith t c r.text (answerTo t c r.text (after t c r.text s es)) =
      indexWith t c r.text t.declared? := by
    rw [indexWith, indexWith, List.filterMap_congr fun path hpath =>
      (answerTo_eq ht hord hr hs hdone (List.mem_append_left _ hpath)).1]
  have hunits : unitsWith t c r.text (answerTo t c r.text (after t c r.text s es)) =
      unitsWith t c r.text t.declared? := by
    rw [unitsWith, unitsWith, List.filterMap_congr fun path hpath => by
      rw [(answerTo_eq ht hord hr hs hdone (List.mem_append_right _ hpath)).1]]
  have hstore : (after t c r.text s es).store = storeAfter t (startKey c r.text) s (asked t c r.text) :=
    (inOrder_run (w := { store := s }) hsorted es).ext (inOrder_storeAfter hsorted)
      ((settled_after ht hord hr hs hdone).load_eq (settled_storeAfter (nodup_keys ht hr hord) s))
  rw [build_eq ht hord hr hs, assemble, hindex, hunits, hstore]

end

end ScriptAtlas.Startup
