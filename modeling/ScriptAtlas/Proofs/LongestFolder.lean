/-
The owner of a path by the lengths of folders. The folders that a path lies in are
starts of one path, so two of them of the same length are the same folder. The
units of a workspace have folders of their own, because a folder names its unit and
no two units have the same name. So of the units that hold a path one has a longer
folder than all others (`Longest`), and that is the owner, wherever it stands among
the units.

A folder of dependencies between a unit and the path takes the unit out, but not
one further in: what is between that one and the path is less.
-/
import ScriptAtlas.Proofs.UnitOwnership

namespace ScriptAtlas.Units

open ScriptAtlas.Path

variable {us : Units} {units units' : List ProjectUnit} {path : String} {u v : ProjectUnit}

/-- No two of the units have the same folder. -/
def DistinctFolders (units : List ProjectUnit) : Prop :=
  ∀ u ∈ units, ∀ v ∈ units, components u.path = components v.path → u = v

instance (units : List ProjectUnit) : Decidable (DistinctFolders units) :=
  inferInstanceAs (Decidable (∀ u ∈ units, ∀ v ∈ units, components u.path = components v.path → u = v))

theorem distinctFolders_build (t : FileTree) (c : Config) (root : String) (s : Store) :
    DistinctFolders (build t c root s).1.units :=
  fun _ hu _ hv => eq_of_components_eq hu hv

/-- The unit holds the path, and every other unit that does has a shorter folder. -/
structure Longest (units : List ProjectUnit) (path : String) (u : ProjectUnit) : Prop where
  mem : u ∈ units
  holds : Holds u path
  longest : ∀ v ∈ units, Holds v path → v ≠ u → (components v.path).length < (components u.path).length

theorem Longest.congr (h : ∀ u, u ∈ units ↔ u ∈ units') :
    Longest units path u ↔ Longest units' path u := by
  constructor
  · rintro ⟨hmem, hholds, hlongest⟩
    exact ⟨(h u).1 hmem, hholds, fun v hv => hlongest v ((h v).2 hv)⟩
  · rintro ⟨hmem, hholds, hlongest⟩
    exact ⟨(h u).2 hmem, hholds, fun v hv => hlongest v ((h v).1 hv)⟩

theorem Holds.leads (h : Holds u path) : components u.path <+: components path := by
  obtain ⟨below, hbelow, -⟩ := h
  exact ⟨below, hbelow.symm⟩

/-- Two units that hold one path have folders of different lengths. -/
theorem DistinctFolders.eq_of_length_eq (h : DistinctFolders units) (hu : u ∈ units) (hv : v ∈ units)
    (huheld : Holds u path) (hvheld : Holds v path)
    (hlength : (components u.path).length = (components v.path).length) : u = v := by
  have hlead := List.prefix_of_prefix_length_le huheld.leads hvheld.leads hlength.le
  exact h u hu v hv (hlead.eq_of_length hlength)

theorem owner?_eq_some_iff_longest (h : DistinctFolders us.units) :
    us.owner? path = some u ↔ Longest us.units (join us.root path) u := by
  constructor
  · intro howner
    obtain ⟨hu, hheld⟩ := holds_of_owner? howner
    obtain ⟨w, -, hw, -, hmax⟩ := exists_owner? hu hheld
    obtain rfl : w = u := Option.some.inj (hw.symm.trans howner)
    refine ⟨hu, hheld, fun v hv hvheld hne => lt_of_le_of_ne (hmax v hv hvheld) fun hlength => ?_⟩
    exact hne (h.eq_of_length_eq hv hu hvheld hheld hlength)
  · rintro ⟨hu, hheld, hlongest⟩
    obtain ⟨w, hw, howner, hwheld, hmax⟩ := exists_owner? hu hheld
    by_cases hwu : w = u
    · rw [howner, hwu]
    · exact absurd (hlongest w hw hwheld hwu) (Nat.not_lt.2 (hmax u hu hheld))

theorem owner?_eq_none_iff :
    us.owner? path = none ↔ ∀ u ∈ us.units, ¬ Holds u (join us.root path) := by
  constructor
  · intro hnone u hu hheld
    obtain ⟨w, -, howner, -⟩ := exists_owner? hu hheld
    rw [hnone] at howner
    cases howner
  · intro hfree
    refine Option.eq_none_iff_forall_not_mem.2 fun u howner => ?_
    obtain ⟨hu, hheld⟩ := holds_of_owner? howner
    exact hfree u hu hheld

theorem owner?_eq_of_perm (h : DistinctFolders us.units) (hperm : units.Perm us.units) :
    owner? { us with units := units } path = us.owner? path := by
  have hmem : ∀ u, u ∈ units ↔ u ∈ us.units := fun _ => hperm.mem_iff
  have hfolders : DistinctFolders units := fun u hu v hv => h u ((hmem u).1 hu) v ((hmem v).1 hv)
  refine Option.ext fun u => ?_
  rw [owner?_eq_some_iff_longest hfolders, owner?_eq_some_iff_longest h, Longest.congr hmem]

/-- A unit is passed over if the path is not in its folder. -/
theorem owner?_insert {w : ProjectUnit} {front back : List ProjectUnit} (hunits : us.units = front ++ back)
    (hw : ¬ components w.path <+: components (join us.root path)) :
    owner? { us with units := front ++ w :: back } path = us.owner? path := by
  have howns : ¬ owns w (join us.root path) = true := fun hheld => hw (owns_iff.1 hheld).leads
  have hfilter : (front ++ w :: back).filter (owns · (join us.root path)) =
      us.units.filter (owns · (join us.root path)) := by
    simp [hunits, howns]
  exact congrArg (List.foldl deeper none) hfilter

/-- **The owner of a path has the longest folder** of the units that have the path in their folder and no
folder of dependencies on the way to it, and a path without such a unit has no owner. The units of a
workspace have folders of their own; then there is only one such unit, so that it does not matter in
which order the units stand, or whether there are others that do not have the path in their folder. -/
theorem owner_has_longest_folder :
    (∀ t c root s, ((build t c root s).1.units.map (·.name)).Nodup ∧
      DistinctFolders (build t c root s).1.units) ∧
    ∀ us : Units, DistinctFolders us.units → ∀ path,
      (∀ u, us.owner? path = some u ↔ Longest us.units (join us.root path) u) ∧
      (us.owner? path = none ↔ ∀ u ∈ us.units, ¬ Holds u (join us.root path)) ∧
      (∀ units, units.Perm us.units → owner? { us with units := units } path = us.owner? path) ∧
      ∀ w front back, us.units = front ++ back →
        ¬ components w.path <+: components (join us.root path) →
          owner? { us with units := front ++ w :: back } path = us.owner? path := by
  refine ⟨fun t c root s => ⟨nodup_names_find t c root, distinctFolders_build t c root s⟩, ?_⟩
  intro us h path
  exact ⟨fun u => owner?_eq_some_iff_longest h, owner?_eq_none_iff, fun units => owner?_eq_of_perm h,
    fun w front back => owner?_insert⟩

/-- A unit in a folder of dependencies of another one. -/
def vendored : Units where
  root := "/ws"
  units := [
    ⟨"/ws/crm", "/ws/crm/unit.obj", "crm", [], "1"⟩,
    ⟨"/ws/crm/vendor/lib", "/ws/crm/vendor/lib/unit.obj", "lib", [], "2"⟩]

/-- The inner unit owns its files, the outer one none behind the folder of dependencies. -/
theorem vendored_owners :
    DistinctFolders vendored.units ∧
      (∃ u, vendored.owner? "crm/vendor/lib/a.js" = some u ∧ u.name = "lib" ∧
        Longest vendored.units "/ws/crm/vendor/lib/a.js" u) ∧
      vendored.owner? "crm/vendor/a.js" = none ∧
      owner? { vendored with units := vendored.units.reverse } "crm/vendor/lib/a.js" =
        vendored.owner? "crm/vendor/lib/a.js" ∧
      owner? { vendored with units := ⟨"/ws/cr", "/ws/cr/unit.obj", "cr", [], "3"⟩ :: vendored.units }
        "crm/a.js" = vendored.owner? "crm/a.js" := by
  have hfolders : DistinctFolders vendored.units := by decide +kernel
  obtain ⟨hsome, -, hperm, -⟩ := owner_has_longest_folder.2 vendored hfolders "crm/vendor/lib/a.js"
  obtain ⟨-, -, -, hinsert⟩ := owner_has_longest_folder.2 vendored hfolders "crm/a.js"
  have howner : vendored.owner? "crm/vendor/lib/a.js" =
      some ⟨"/ws/crm/vendor/lib", "/ws/crm/vendor/lib/unit.obj", "lib", [], "2"⟩ := by decide +kernel
  refine ⟨hfolders, ⟨_, howner, rfl, (hsome _).1 howner⟩, by decide +kernel, ?_, ?_⟩
  · exact hperm _ (List.reverse_perm _)
  · exact hinsert _ [] vendored.units rfl (by decide +kernel)

end ScriptAtlas.Units
