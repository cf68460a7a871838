/-
Which unit a script belongs to. There are two answers: a unit lists the
scripts below its folder, and the owner of a path is the innermost unit with
the path in its folder and no folder of dependencies between them. They agree
on a script of a unit exactly when no other unit and no folder of dependencies
lies between the unit and the script.
-/
import Mathlib.Data.List.Nodup
import ScriptAtlas.Proofs.PathLaws
import ScriptAtlas.Units

namespace ScriptAtlas.Units

open ScriptAtlas.Path

/-! ## Names and folders of units -/

theorem distinct_step (units kept : List ProjectUnit) (hkept : (kept.map (·.name)).Nodup) :
    let all := units.foldl (fun kept u => if kept.any (·.name == u.name) then kept else kept ++ [u]) kept
    (all.map (·.name)).Nodup ∧ ∀ u ∈ all, u ∈ kept ∨ u ∈ units := by
  induction units generalizing kept with
  | nil => exact ⟨hkept, fun u hu => .inl hu⟩
  | cons v units ih =>
    simp only [List.foldl_cons]
    split
    · obtain ⟨hnames, hmem⟩ := ih kept hkept
      exact ⟨hnames, fun u hu => (hmem u hu).imp_right (List.mem_cons_of_mem v)⟩
    · rename_i hnew
      have hfresh : v.name ∉ kept.map (·.name) := by simpa using hnew
      have hnodup : ((kept ++ [v]).map (·.name)).Nodup := by
        rw [List.map_append, List.nodup_append]
        refine ⟨hkept, by simp, ?_⟩
        rintro a ha b hb rfl
        obtain rfl : a = v.name := List.mem_singleton.1 hb
        exact hfresh ha
      obtain ⟨hnames, hmem⟩ := ih (kept ++ [v]) hnodup
      refine ⟨hnames, fun u hu => ?_⟩
      rcases hmem u hu with hu | hu
      · rcases List.mem_append.1 hu with hu | hu
        · exact .inl hu
        · exact .inr (by simp [List.mem_singleton.1 hu])
      · exact .inr (List.mem_cons_of_mem v hu)

/-- The units of a workspace have names of their own. -/
theorem nodup_names_find (t : FileTree) (c : Config) (root : String) :
    ((find t c root).map (·.name)).Nodup := (distinct_step _ [] .nil).1

theorem eq_of_name_eq {units : List ProjectUnit} (h : (units.map (·.name)).Nodup) {u v : ProjectUnit}
    (hu : u ∈ units) (hv : v ∈ units) (huv : u.name = v.name) : u = v :=
  List.inj_on_of_nodup_map h hu hv huv

/-- The folder of a unit is the one its settings are in, and names it. -/
theorem path_of_ofSettings? {content settings : String} {u : ProjectUnit}
    (h : ProjectUnit.ofSettings? content settings = some u) :
    u.path = (parent? settings).getD "" ∧ u.name = (fileName? u.path).getD "" := by
  simp only [ProjectUnit.ofSettings?, Option.bind_eq_bind, Option.bind_eq_some_iff] at h
  obtain ⟨uuid, -, h⟩ := h
  split at h
  · simp at h
  · cases h
    simp only [and_self]

/-- A unit that is found is that of a settings file that is found. -/
theorem exists_settings_of_mem_find {t : FileTree} {c : Config} {root : String} {u : ProjectUnit}
    (hu : u ∈ find t c root) :
    ∃ settings ∈ ((Discovery.find t c root c.isSettingsFile).toOption).getD [],
      u.path = (parent? settings).getD "" ∧ u.name = (fileName? u.path).getD "" := by
  have hmem := (distinct_step _ [] .nil).2 u hu
  simp only [List.not_mem_nil, false_or, List.mem_filterMap] at hmem
  obtain ⟨settings, hfound, hunit⟩ := hmem
  simp only [unitAt?, Option.bind_eq_bind, Option.bind_eq_some_iff] at hunit
  obtain ⟨content, -, hunit⟩ := hunit
  exact ⟨settings, hfound, path_of_ofSettings? hunit⟩

/-- A unit found below an absolute root has an absolute path. -/
theorem isAbsolute_of_mem_find {t : FileTree} (ht : t.Named) {c : Config} {root : String}
    (hroot : isAbsolute root = true) {u : ProjectUnit} (hu : u ∈ find t c root) :
    isAbsolute u.path = true := by
  obtain ⟨settings, hfound, hpath, -⟩ := exists_settings_of_mem_find hu
  obtain ⟨hkeep, names, hnames, rfl⟩ := Discovery.exists_names_of_mem_find ht hfound
  have hfile : fileName? (Discovery.pathBelow root names) = some c.settingsFile := by
    simpa [Config.isSettingsFile] using hkeep
  obtain ⟨above, habove, habs⟩ := exists_parent? (Discovery.isAbsolute_pathBelow hroot hnames) hfile
  rw [habove, Option.getD_some] at hpath
  exact hpath ▸ habs

/-- Units of one workspace with the same folder are the same unit: the folder names them. -/
theorem eq_of_components_eq {t : FileTree} {c : Config} {root : String} {u v : ProjectUnit}
    (hu : u ∈ find t c root) (hv : v ∈ find t c root) (huv : components u.path = components v.path) :
    u = v := by
  obtain ⟨-, -, -, huname⟩ := exists_settings_of_mem_find hu
  obtain ⟨-, -, -, hvname⟩ := exists_settings_of_mem_find hv
  refine eq_of_name_eq (nodup_names_find t c root) hu hv ?_
  rw [huname, hvname, fileName?, fileName?, huv]

/-! ## The scripts of a unit -/

theorem files_build (t : FileTree) (c : Config) (root : String) (s : Store) :
    (build t c root s).1.files = (find t c root).map fun u => (u.name, scriptsOf t c u) := rfl

theorem filesOf_eq {us : Units} {t : FileTree} {c : Config} {root : String}
    (h : us.files = (find t c root).map fun u => (u.name, scriptsOf t c u)) (name : String) :
    us.filesOf name = (((find t c root).find? (·.name == name)).map (scriptsOf t c)).getD [] := by
  rw [filesOf, h]
  induction find t c root with
  | nil => rfl
  | cons u units ih =>
    by_cases hu : u.name = name
    · simp [hu]
    · simp only [List.map_cons, List.lookup_cons, List.find?_cons, beq_eq_false_iff_ne.2 hu,
        beq_eq_false_iff_ne.2 (Ne.symm hu), ih]

/-- A name with scripts is that of a unit, and they are the scripts below its folder. -/
theorem exists_unit_of_mem_filesOf {us : Units} {t : FileTree} {c : Config} {root : String}
    (h : us.files = (find t c root).map fun u => (u.name, scriptsOf t c u)) {name path : String}
    (hpath : path ∈ us.filesOf name) :
    ∃ u, (find t c root).find? (·.name == name) = some u ∧ path ∈ scriptsOf t c u := by
  rw [filesOf_eq h] at hpath
  cases hu : (find t c root).find? (·.name == name) with
  | none => simp [hu] at hpath
  | some u => exact ⟨u, rfl, by simpa [hu] using hpath⟩

/-- The scripts of a unit are listed under its name. -/
theorem filesOf_name {us : Units} {t : FileTree} {c : Config} {root : String}
    (h : us.files = (find t c root).map fun u => (u.name, scriptsOf t c u)) {u : ProjectUnit}
    (hu : u ∈ find t c root) : us.filesOf u.name = scriptsOf t c u := by
  have hfound : (find t c root).find? (·.name == u.name) = some u := by
    have hsome : ((find t c root).find? (·.name == u.name)).isSome := List.find?_isSome.2 ⟨u, hu, by simp⟩
    obtain ⟨v, hv⟩ := Option.isSome_iff_exists.1 hsome
    have hname : v.name = u.name := by simpa using List.find?_some hv
    rw [hv, eq_of_name_eq (nodup_names_find t c root) (List.mem_of_find?_eq_some hv) hu hname]
  rw [filesOf_eq h, hfound]
  rfl

theorem mem_of_byName? {us : Units} {name : String} {u : ProjectUnit} (h : us.byName? name = some u) :
    u ∈ us.units ∧ u.name = name :=
  ⟨List.mem_of_find?_eq_some h, by simpa using List.find?_some h⟩

/-! ## The owner of a path -/

/-- The path is below the folder of the unit, and no folder of dependencies is on the way to it. -/
def Holds (u : ProjectUnit) (path : String) : Prop :=
  ∃ below, components path = components u.path ++ below ∧
    ∀ d ∈ dependencyFolders, Component.name d ∉ below

/-- The unit holds the path, and no other unit has its folder on the way to it. -/
def Innermost (us : Units) (u : ProjectUnit) (path : String) : Prop :=
  Holds u path ∧ ∀ v ∈ us.units,
    components u.path <+: components v.path → components v.path <+: components path → v = u

theorem owns_iff {u : ProjectUnit} {path : String} : owns u path = true ↔ Holds u path := by
  unfold owns Holds
  simp only [← under?_eq_some_iff]
  cases hrest : under? u.path path with
  | none => simp
  | some rest =>
    have hany : (rest.any fun c => dependencyFolders.any fun d => c == .name d) = false ↔
        ∀ d ∈ dependencyFolders, Component.name d ∉ rest := by
      simp only [List.any_eq_false, beq_iff_eq, Bool.not_eq_true]
      exact ⟨fun h d hd hmem => h _ hmem d hd rfl, fun h c hc d hd he => h d hd (he ▸ hc)⟩
    simp [hany]

/-- A unit with its folder between that of another and a path that the other holds, holds it too. -/
theorem Holds.inner {u v : ProjectUnit} {path : String} (h : Holds u path)
    (huv : components u.path <+: components v.path) (hv : components v.path <+: components path) :
    Holds v path := by
  obtain ⟨below, hbelow, hfree⟩ := h
  obtain ⟨between, hbetween⟩ := huv
  obtain ⟨rest, hrest⟩ := hv
  refine ⟨rest, hrest.symm, fun d hd hmem => hfree d hd ?_⟩
  have hsplit : below = between ++ rest := by
    rw [← hrest, ← hbetween, List.append_assoc] at hbelow
    exact (List.append_cancel_left hbelow).symm
  simp [hsplit, hmem]

/-- A fold over units ends with one of them, or the one it started with, and none is deeper. -/
theorem foldl_deeper (units : List ProjectUnit) (b : ProjectUnit) :
    ∃ u ∈ b :: units, units.foldl deeper (some b) = some u ∧ ∀ v ∈ b :: units, depth v ≤ depth u := by
  induction units generalizing b with
  | nil => exact ⟨b, by simp⟩
  | cons w units ih =>
    rw [List.foldl_cons, deeper]
    split
    · obtain ⟨u, hu, hfold, hmax⟩ := ih b
      refine ⟨u, by grind, hfold, ?_⟩
      grind
    · obtain ⟨u, hu, hfold, hmax⟩ := ih w
      refine ⟨u, by grind, hfold, ?_⟩
      grind

/-- A path that some unit holds has an owner, which is the deepest unit that holds it. -/
theorem exists_owner? {us : Units} {path : String} {u : ProjectUnit} (hu : u ∈ us.units)
    (hheld : Holds u (join us.root path)) : ∃ w ∈ us.units, us.owner? path = some w ∧
      Holds w (join us.root path) ∧ ∀ v ∈ us.units, Holds v (join us.root path) → depth v ≤ depth w := by
  have hmem : ∀ v, v ∈ us.units.filter (owns · (join us.root path)) ↔
      v ∈ us.units ∧ Holds v (join us.root path) := by
    simp [owns_iff]
  rw [owner?]
  cases hfilter : us.units.filter (owns · (join us.root path)) with
  | nil =>
    rw [hfilter] at hmem
    simpa using (hmem u).2 ⟨hu, hheld⟩
  | cons b rest =>
    rw [hfilter] at hmem
    obtain ⟨w, hw, hfold, hmax⟩ := foldl_deeper rest b
    obtain ⟨hwmem, hwheld⟩ := (hmem w).1 hw
    exact ⟨w, hwmem, hfold, hwheld, fun v hv hheld => hmax v ((hmem v).2 ⟨hv, hheld⟩)⟩

/-- The owner of a path is a unit that holds it. -/
theorem holds_of_owner? {us : Units} {path : String} {u : ProjectUnit} (h : us.owner? path = some u) :
    u ∈ us.units ∧ Holds u (join us.root path) := by
  rw [owner?] at h
  cases hfilter : us.units.filter (owns · (join us.root path)) with
  | nil => simp [hfilter] at h
  | cons b rest =>
    obtain ⟨w, hw, hfold, -⟩ := foldl_deeper rest b
    rw [hfilter] at h
    obtain rfl : w = u := Option.some.inj (hfold.symm.trans h)
    rw [← hfilter] at hw
    simpa [owns_iff] using hw

theorem mem_of_owner? {us : Units} {path : String} (habs : isAbsolute path = true) {u : ProjectUnit}
    (h : us.owner? path = some u) : u ∈ us.units ∧ Holds u path := by
  have hheld := holds_of_owner? h
  rwa [join_of_isAbsolute habs] at hheld

/-- **The owner of a path** is the innermost unit that holds it. -/
theorem owner?_eq_some_iff {us : Units}
    (hfolders : ∀ u ∈ us.units, ∀ v ∈ us.units, components u.path = components v.path → u = v)
    {path : String} {u : ProjectUnit} (hu : u ∈ us.units) :
    us.owner? path = some u ↔ us.Innermost u (join us.root path) := by
  constructor
  · intro howner
    obtain ⟨-, hheld⟩ := holds_of_owner? howner
    obtain ⟨w, -, hw, -, hmax⟩ := exists_owner? hu hheld
    obtain rfl : w = u := Option.some.inj (hw.symm.trans howner)
    refine ⟨hheld, fun v hv hinner hpath => (hfolders w hu v hv ?_).symm⟩
    exact hinner.eq_of_length_le (hmax v hv (hheld.inner hinner hpath))
  · rintro ⟨hheld, hinner⟩
    obtain ⟨w, hw, howner, ⟨below, hbelow, -⟩, hmax⟩ := exists_owner? hu hheld
    have hwpath : components w.path <+: components (join us.root path) := ⟨below, hbelow.symm⟩
    obtain ⟨rest, hrest, -⟩ := id hheld
    -- both folders lie on one path, so the one that is not deeper is above the other
    have habove : components u.path <+: components w.path :=
      List.prefix_of_prefix_length_le ⟨rest, hrest.symm⟩ hwpath (hmax u hu hheld)
    rw [howner, hinner w hw habove hwpath]

/-! ## The owner of a script -/

section

variable {t : FileTree} (ht : t.Named) {root : String} (hroot : isAbsolute root = true) {c : Config}
  {s : Store}

include ht hroot

theorem isAbsolute_of_mem_filesOf {name path : String} (h : path ∈ (build t c root s).1.filesOf name) :
    ∃ u, (build t c root s).1.byName? name = some u ∧ isAbsolute path = true ∧
      components u.path <+: components path := by
  obtain ⟨u, hu, hscript⟩ := exists_unit_of_mem_filesOf (files_build t c root s) h
  obtain ⟨-, names, hnames, rfl⟩ := Discovery.exists_names_of_mem_find ht hscript
  have hfound : u ∈ find t c root := List.mem_of_find?_eq_some hu
  refine ⟨u, hu, Discovery.isAbsolute_pathBelow (isAbsolute_of_mem_find ht hroot hfound) hnames, ?_⟩
  exact ⟨names.map .name, (Discovery.components_pathBelow u.path hnames).symm⟩

theorem script_owner?_iff {name path : String} (h : path ∈ (build t c root s).1.filesOf name) :
    ∃ u, (build t c root s).1.byName? name = some u ∧ components u.path <+: components path ∧
      ((build t c root s).1.owner? path = some u ↔ (build t c root s).1.Innermost u path) := by
  obtain ⟨u, hu, habs, hbelow⟩ := isAbsolute_of_mem_filesOf ht hroot h
  refine ⟨u, hu, hbelow, ?_⟩
  rw [owner?_eq_some_iff (fun _ hu _ hv => eq_of_components_eq hu hv) (mem_of_byName? hu).1,
    join_of_isAbsolute habs]

end

theorem mem_visibleModules {us : Units} {unit : String} {m : ModuleRef} (h : m ∈ us.visibleModules unit) :
    m.unit ∈ us.graph.direct unit ∧ ∃ path ∈ us.filesOf m.unit, stem? path = some m.name := by
  simp only [visibleModules, List.mem_flatMap, List.mem_map, List.mem_filterMap] at h
  obtain ⟨origin, hvisible, name, ⟨path, hpath, hstem⟩, rfl⟩ := h
  exact ⟨hvisible, path, hpath, hstem⟩

/-- **The owner of a script of a unit.** A script that a unit lists lies below the folder of the
unit, and its owner is that unit exactly when the unit is innermost: no folder of dependencies and no
folder of another unit is on the way to the script. A module that can be seen names a unit with such a
script, and that unit owns the script under the same condition. -/
theorem owner_of_script_iff {t : FileTree} (ht : t.Named) {root : String} (hroot : isAbsolute root = true)
    (c : Config) (s : Store) (name : String) :
    let us := (build t c root s).1
    (∀ path ∈ us.filesOf name, ∃ u, us.byName? name = some u ∧ components u.path <+: components path ∧
      (us.owner? path = some u ↔ us.Innermost u path)) ∧
    ∀ m ∈ us.visibleModules name, ∃ path ∈ us.filesOf m.unit, stem? path = some m.name ∧
      ∃ u, us.byName? m.unit = some u ∧
        ((us.owner? path).map (·.name) = some m.unit ↔ us.Innermost u path) := by
  intro us
  refine ⟨fun path hpath => script_owner?_iff ht hroot hpath, fun m hm => ?_⟩
  obtain ⟨-, path, hpath, hstem⟩ := mem_visibleModules hm
  obtain ⟨u, hu, habs, -⟩ := isAbsolute_of_mem_filesOf ht hroot hpath
  obtain ⟨u', hu', -, howner⟩ := script_owner?_iff ht hroot hpath
  obtain rfl : u = u' := Option.some.inj (hu.symm.trans hu')
  refine ⟨path, hpath, hstem, u, hu, ?_⟩
  rw [← howner, Option.map_eq_some_iff]
  constructor
  · rintro ⟨w, hw, hname⟩
    have hwu : w.name = u.name := hname.trans (mem_of_byName? hu).2.symm
    rw [hw, eq_of_name_eq (nodup_names_find t c root) (mem_of_owner? habs hw).1 (mem_of_byName? hu).1 hwu]
  · exact fun h => ⟨u, h, (mem_of_byName? hu).2⟩

/-- A unit in the folder of another one, and a script in the inner folder. -/
def nestedUnits : FileTree where
  folders := [["ws"], ["ws", "crm"], ["ws", "crm", "web"]]
  files := [
    (["ws", "crm", "unit.obj"], ⟨.plain "uuid: \x221\x22".toUTF8.toList, 0⟩),
    (["ws", "crm", "web", "edit.js"], ⟨.plain "edit()".toUTF8.toList, 0⟩),
    (["ws", "crm", "web", "unit.obj"], ⟨.plain "uuid: \x224\x22".toUTF8.toList, 0⟩)]

/-- The configuration of that workspace. -/
def nestedConfig : Config := { settingsFile := "unit.obj", excluded := ["dist/**"] }

/-- The units of that workspace. -/
def nested : Units where
  root := "/ws"
  units := [
    ⟨"/ws/crm", "/ws/crm/unit.obj", "crm", [], "1"⟩,
    ⟨"/ws/crm/web", "/ws/crm/web/unit.obj", "web", [], "4"⟩]
  graph := {
    nodes := ["crm", "web"], places := [("web", 1), ("crm", 0)], declared := ["crm", "web"] }
  files := [("crm", ["/ws/crm/web/edit.js"]), ("web", ["/ws/crm/web/edit.js"])]
  declarations := [("/ws/crm/web/edit.js", {})]

theorem build_nestedUnits : (build nestedUnits nestedConfig "/ws" {}).1 = nested := by decide +kernel

/-- The outer unit lists the script of the inner one, and shows it as a module of its own, but the
inner one owns it. -/
theorem nestedUnits_listed_not_owned :
    let us := (build nestedUnits nestedConfig "/ws" {}).1
    "/ws/crm/web/edit.js" ∈ us.filesOf "crm" ∧ ⟨"edit", "crm"⟩ ∈ us.visibleModules "crm" ∧
      (us.owner? "/ws/crm/web/edit.js").map (·.name) = some "web" := by
  rw [build_nestedUnits]
  decide +kernel

/-- The inner unit is innermost, and owns the script. -/
theorem nestedUnits_owned_inside :
    let us := (build nestedUnits nestedConfig "/ws" {}).1
    (nestedUnits.Named ∧ isAbsolute "/ws" = true ∧ "/ws/crm/web/edit.js" ∈ us.filesOf "web") ∧
      ∃ u, us.byName? "web" = some u ∧ us.owner? "/ws/crm/web/edit.js" = some u ∧
        us.Innermost u "/ws/crm/web/edit.js" := by
  have hnamed : nestedUnits.Named := by decide +kernel
  have hroot : isAbsolute "/ws" = true := by decide +kernel
  have hlisted : "/ws/crm/web/edit.js" ∈ nested.filesOf "web" := by decide +kernel
  have howner : nested.owner? "/ws/crm/web/edit.js" = nested.byName? "web" := by decide +kernel
  have hscripts := (owner_of_script_iff hnamed hroot nestedConfig {} "web").1
  rw [build_nestedUnits] at hscripts ⊢
  obtain ⟨u, hu, -, hiff⟩ := hscripts _ hlisted
  exact ⟨⟨hnamed, hroot, hlisted⟩, u, hu, howner.trans hu, hiff.1 (howner.trans hu)⟩

end ScriptAtlas.Units
