/-
What is listed of a store. A key is the name of a folder and the components of
a path with slashes between them, so it can be taken apart again: different
files have different keys (`Place.key_inj`). A folder is asked for by its name,
and what is listed are the keys that go on with a slash after the whole name.

A listing of everything below a folder is the listing of what is directly in
it, and those of its subfolders, one after another: what follows the folder in
a key has no slash, or it starts with the name of exactly one subfolder.
-/
import Mathlib.Data.List.Dedup
import Mathlib.Data.List.DropRight
import Mathlib.Data.List.Perm.Lattice
import ScriptAtlas.Proofs.PathLaws
import ScriptAtlas.Proofs.SteadyCalls

namespace ScriptAtlas

open Text

/-! ## Components that are names -/

namespace Path

/-- The component is a name, and not the root, a dot or two dots. -/
def Component.isName : Component → Bool
  | name _ => true
  | _ => false

/-- The path has components, and each of them is a name. -/
def Ordinary (path : String) : Prop :=
  components path ≠ [] ∧ ∀ c ∈ components path, c.isName = true

instance (path : String) : Decidable (Ordinary path) := inferInstanceAs (Decidable (_ ∧ _))

theorem isName_of_mem_bodyComponents {body : List Char} {n : String} (h : .name n ∈ bodyComponents body) :
    IsName n := by
  simp only [bodyComponents, List.mem_map, List.mem_filter, Bool.not_eq_true'] at h
  obtain ⟨piece, ⟨hpiece, hsilent⟩, hn⟩ := h
  unfold pieceComponent at hn
  split at hn
  · cases hn
  · rename_i hup
    obtain rfl := Component.name.inj hn
    exact isName_ofList (not_mem_of_mem_splitAtChar hpiece) hsilent (by simpa using hup)

theorem isName_of_mem_components {path n : String} (h : .name n ∈ components path) : IsName n := by
  rw [components_eq, charComponents, List.mem_append] at h
  rcases h with h | h
  · simp only [leadComponent] at h
    split at h
    · simp at h
    split at h <;> simp at h
  · exact isName_of_mem_bodyComponents h

theorem exists_map_name {cs : List Component} (h : ∀ c ∈ cs, c.isName = true) :
    ∃ names : List String, cs = names.map .name := by
  induction cs with
  | nil => exact ⟨[], rfl⟩
  | cons c cs ih =>
    obtain ⟨hc, hcs⟩ := List.forall_mem_cons.1 h
    obtain ⟨names, rfl⟩ := ih hcs
    cases c with
    | name n => exact ⟨n :: names, rfl⟩
    | _ => cases hc

/-- The components of such a path are one or more proper names. -/
theorem Ordinary.exists_names {path : String} (h : Ordinary path) :
    ∃ names : List String, names ≠ [] ∧ (∀ n ∈ names, IsName n) ∧ components path = names.map .name := by
  obtain ⟨names, hnames⟩ := exists_map_name h.2
  refine ⟨names, ?_, fun n hn => ?_, hnames⟩
  · rintro rfl
    exact h.1 hnames
  · exact isName_of_mem_components (hnames ▸ List.mem_map_of_mem hn)

end Path

namespace Store

/-! ## Keys -/

/-- A file and the folder of the store that it is kept in. -/
structure Place where
  folder : String
  path : String
  folder_ne : folder ≠ ""
  not_mem_folder : '/' ∉ folder.toList
  ordinary : Path.Ordinary path

/-- The key of the file. -/
def Place.key (p : Place) : String := keyOf p.folder p.path

/-- The pieces of a key between its slashes. -/
def pieces (key : String) : List (List Char) := splitAtChar '/' key.toList

/-- The pieces of the key of a file are the folder and the components of the path. -/
theorem Place.pieces_key (p : Place) :
    pieces p.key = p.folder.toList :: (Path.components p.path).map (·.text.toList) := by
  obtain ⟨names, hne, hnames, hcs⟩ := p.ordinary.exists_names
  have hkey : p.key.toList = joinWith ['/'] (p.folder.toList :: names.map String.toList) := by
    have hmap : names.map String.toList ≠ [] := by simpa using hne
    rw [joinWith_cons _ _ hmap]
    simp [Place.key, keyOf, hcs, Path.slashed, String.toList_intercalate, Function.comp_def,
      Path.Component.text, joinWith]
  have hslash : ∀ l ∈ p.folder.toList :: names.map String.toList, '/' ∉ l := by
    refine List.forall_mem_cons.2 ⟨p.not_mem_folder, fun l hl => ?_⟩
    obtain ⟨n, hn, rfl⟩ := List.mem_map.1 hl
    exact (hnames n hn).not_mem
  rw [pieces, hkey, splitAtChar_joinWith hslash (List.cons_ne_nil _ _), hcs, List.map_map]
  rfl

/-- No two slashes of a key are next to each other, and none is at either end. -/
def Whole (key : String) : Prop := ∀ l ∈ pieces key, l ≠ []

theorem Place.whole_key (p : Place) : Whole p.key := by
  obtain ⟨names, -, hnames, hcs⟩ := p.ordinary.exists_names
  intro l hl
  rw [p.pieces_key, hcs, List.mem_cons] at hl
  rcases hl with rfl | hl
  · simpa using p.folder_ne
  · simp only [List.map_map, List.mem_map, Function.comp_apply] at hl
    obtain ⟨n, hn, rfl⟩ := hl
    simpa [Path.Component.text] using (hnames n hn).1

/-- **Different files have different keys.** -/
theorem Place.key_inj {p q : Place} :
    p.key = q.key ↔ p.folder = q.folder ∧ Path.components p.path = Path.components q.path := by
  constructor
  · intro h
    have hpieces := congrArg pieces h
    obtain ⟨names, -, -, hp⟩ := p.ordinary.exists_names
    obtain ⟨names', -, -, hq⟩ := q.ordinary.exists_names
    rw [p.pieces_key, q.pieces_key, hp, hq, List.map_map, List.map_map] at hpieces
    obtain ⟨hfolder, hnames⟩ := List.cons.inj hpieces
    refine ⟨String.toList_inj.1 hfolder, ?_⟩
    have hinj : Function.Injective String.toList := fun _ _ he => String.toList_inj.1 he
    rw [hp, hq, hinj.list_map hnames]
  · rintro ⟨hfolder, hpath⟩
    simp only [Place.key, keyOf, hfolder, hpath]

/-! ## Folders -/

/-- The name of a folder, without the slashes at its end. -/
def folderName (folder : String) : String := String.ofList (folder.toList.rdropWhile (· == '/'))

/-- What the keys in a folder start with: its name and a slash. Every key is in the folder without a
name. -/
def lead (folder : String) : String :=
  if folderName folder = "" then "" else folderName folder ++ "/"

/-- The names of the subfolders that have keys in them. -/
def subfolders (s : Store) (folder : String) : List String :=
  ((s.listFolder folder true).filterMap fun key =>
    ((restInFolder? folder key).filter ('/' ∈ ·)).map fun rest =>
      String.ofList (rest.takeWhile (· != '/'))).dedup

section

variable {s : Store} {f key name : String} {rest : List Char} {recursive : Bool}

theorem restInFolder?_eq_some_iff : restInFolder? f key = some rest ↔ key = lead f ++ String.ofList rest := by
  have hname : (f.toList.reverse.dropWhile (· == '/')).reverse = (folderName f).toList :=
    String.toList_ofList.symm
  simp only [restInFolder?, hname, lead, List.isEmpty_iff, String.toList_eq_nil_iff, ← String.toList_inj]
  split <;> simp [dropLead?_eq_some_iff]

theorem inFolder_iff : inFolder f recursive key = true ↔
    ∃ rest : List Char, key = lead f ++ String.ofList rest ∧ rest ≠ [] ∧ (recursive = true ∨ '/' ∉ rest) := by
  simp only [← restInFolder?_eq_some_iff]
  unfold inFolder
  cases restInFolder? f key <;> simp

theorem mem_listFolder : key ∈ s.listFolder f recursive ↔ key ∈ s.entries.map (·.1) ∧
    ∃ rest : List Char, key = lead f ++ String.ofList rest ∧ rest ≠ [] ∧ (recursive = true ∨ '/' ∉ rest) := by
  rw [listFolder, Ordered.mem_sort, List.mem_filter, inFolder_iff]

/-- A key that goes on behind the name of a folder with anything but a slash is not in the folder. -/
theorem not_mem_listFolder_of_ne {more : String} (hf : folderName f ≠ "") (hmore : more ≠ "")
    (hslash : more.toList.head? ≠ some '/') (rest : String) :
    folderName f ++ more ++ "/" ++ rest ∉ s.listFolder f recursive := by
  intro h
  obtain ⟨-, tail, hkey, -, -⟩ := mem_listFolder.1 h
  have hchars := congrArg String.toList hkey
  simp only [lead, hf, if_false, String.toList_append, List.append_assoc, List.append_cancel_left_eq] at hchars
  obtain ⟨c, cs, hc⟩ := List.exists_cons_of_ne_nil (mt String.toList_eq_nil_iff.1 hmore)
  rw [hc] at hchars hslash
  have hfirst : c = '/' := (List.cons.inj hchars).1
  exact hslash (by rw [hfirst]; rfl)

/-! ## Subfolders -/

theorem takeWhile_piece {piece : List Char} (h : '/' ∉ piece) (tail : List Char) :
    (piece ++ '/' :: tail).takeWhile (· != '/') = piece :=
  takeWhile_run (fun _ hc => bne_iff_ne.2 fun he => h (he ▸ hc)) (stops_at (by simp))

theorem mem_subfolders : name ∈ s.subfolders f ↔ '/' ∉ name.toList ∧
    ∃ rest : List Char, lead f ++ String.ofList (name.toList ++ '/' :: rest) ∈ s.listFolder f true := by
  simp only [subfolders, List.mem_dedup, List.mem_filterMap, Option.map_eq_some_iff,
    Option.filter_eq_some_iff, restInFolder?_eq_some_iff, decide_eq_true_eq]
  constructor
  · rintro ⟨key, hkey, rest, ⟨rfl, hmem⟩, rfl⟩
    obtain ⟨piece, tail, rfl, hpiece⟩ := List.eq_append_cons_of_mem hmem
    rw [takeWhile_piece hpiece, String.toList_ofList]
    exact ⟨hpiece, tail, hkey⟩
  · rintro ⟨hname, rest, hkey⟩
    refine ⟨_, hkey, name.toList ++ '/' :: rest, ⟨rfl, by simp⟩, ?_⟩
    rw [takeWhile_piece hname, String.ofList_toList]

theorem append_slash (front name : String) (rest : List Char) :
    front ++ name ++ "/" ++ String.ofList rest = front ++ String.ofList (name.toList ++ '/' :: rest) := by
  apply String.toList_inj.1
  simp

/-- The name of a folder and that of one in it have a slash between them. -/
theorem lead_append (hne : name ≠ "") (hname : '/' ∉ name.toList) :
    lead (lead f ++ name) = lead f ++ name ++ "/" := by
  have hchars : name.toList ≠ [] := mt String.toList_eq_nil_iff.1 hne
  have hself : folderName (lead f ++ name) = lead f ++ name := by
    unfold folderName
    rw [List.rdropWhile_eq_self_iff.2, String.ofList_toList]
    intro hl hslash
    simp only [String.toList_append, List.getLast_append_of_ne_nil _ hchars] at hslash
    exact hname (beq_iff_eq.1 hslash ▸ List.getLast_mem hchars)
  have hempty : lead f ++ name ≠ "" := by simp [hne]
  rw [lead, hself, if_neg hempty]

theorem mem_listFolder_append (hne : name ≠ "") (hname : '/' ∉ name.toList) :
    key ∈ s.listFolder (lead f ++ name) true ↔ key ∈ s.entries.map (·.1) ∧
      ∃ rest : List Char, key = lead f ++ String.ofList (name.toList ++ '/' :: rest) ∧ rest ≠ [] := by
  simp only [mem_listFolder, lead_append hne hname, append_slash, true_or, and_true]

/-- What follows a folder in a whole key is whole. -/
theorem Whole.of_lead {rest : List Char} (h : Whole (lead f ++ String.ofList rest)) :
    ∀ l ∈ splitAtChar '/' rest, l ≠ [] := by
  intro l hl
  refine h l ?_
  unfold pieces lead
  split
  · simpa using hl
  · simp only [String.toList_append, String.toList_ofList, List.append_assoc]
    have hslash : "/".toList ++ rest = '/' :: rest := rfl
    rw [hslash, splitAtChar_append]
    exact List.mem_append_right _ hl

theorem Whole.rest_ne_nil (h : Whole (lead f ++ String.ofList rest)) : rest ≠ [] := by
  rintro rfl
  exact h.of_lead [] (List.mem_singleton.2 rfl) rfl

/-- Behind the name of a subfolder there is a rest too, and the name is not empty. -/
theorem Whole.of_subfolder {piece tail : List Char} (hpiece : '/' ∉ piece)
    (h : Whole (lead f ++ String.ofList (piece ++ '/' :: tail))) : piece ≠ [] ∧ tail ≠ [] := by
  have hpieces := h.of_lead
  rw [splitAtChar_append, splitAtChar_of_not_mem hpiece] at hpieces
  refine ⟨hpieces piece (by simp), ?_⟩
  rintro rfl
  exact hpieces [] (by simp [splitAtChar]) rfl

end

/-! ## The parts of a listing -/

/-- The keys stand in order, and each of them is whole. -/
structure Tidy (s : Store) : Prop where
  inOrder : s.InOrder
  whole : ∀ key ∈ s.entries.map (·.1), Whole key

/-- What is directly in a folder, and what is in its subfolders and below. -/
def parts (s : Store) (folder : String) : List (List String) :=
  s.listFolder folder false :: (s.subfolders folder).map fun name => s.listFolder (lead folder ++ name) true

section

variable {s : Store} {f key name : String} {recursive : Bool}

theorem pairwise_listFolder (h : s.InOrder) (f : String) (recursive : Bool) :
    (s.listFolder f recursive).Pairwise (· < ·) := by
  have hkeys : (s.entries.map (·.1)).Nodup := (List.pairwise_map.2 h).imp fun hlt => hlt.ne
  exact Ordered.pairwise_sort (hkeys.filter _)

theorem nodup_listFolder (h : s.InOrder) (f : String) (recursive : Bool) :
    (s.listFolder f recursive).Nodup :=
  (pairwise_listFolder h f recursive).imp fun hlt => hlt.ne

theorem append_ofList_inj {front : String} {rest rest' : List Char}
    (h : front ++ String.ofList rest = front ++ String.ofList rest') : rest = rest' := by
  have hchars := congrArg String.toList h
  simpa using hchars

namespace Tidy

variable (h : s.Tidy)

include h

theorem mem_listFolder_true : key ∈ s.listFolder f true ↔
    key ∈ s.entries.map (·.1) ∧ ∃ rest : String, key = lead f ++ rest := by
  rw [mem_listFolder]
  refine and_congr_right fun hkey => ⟨?_, ?_⟩
  · rintro ⟨rest, rfl, -⟩
    exact ⟨_, rfl⟩
  · rintro ⟨rest, rfl⟩
    have hwhole := h.whole _ hkey
    rw [← String.ofList_toList (s := rest)] at hwhole ⊢
    exact ⟨_, rfl, hwhole.rest_ne_nil, .inl rfl⟩

/-- What is in a subfolder or below. -/
theorem mem_subfolder (hname : name ∈ s.subfolders f) :
    key ∈ s.listFolder (lead f ++ name) true ↔ key ∈ s.entries.map (·.1) ∧
      ∃ rest : List Char, key = lead f ++ String.ofList (name.toList ++ '/' :: rest) := by
  obtain ⟨hslash, rest, hkey⟩ := mem_subfolders.1 hname
  have hwhole := h.whole _ (mem_listFolder.1 hkey).1
  have hne : name ≠ "" := mt String.toList_eq_nil_iff.2 (hwhole.of_subfolder hslash).1
  rw [mem_listFolder_append hne hslash]
  refine and_congr_right fun hmem => exists_congr fun rest => and_iff_left_of_imp ?_
  rintro rfl
  exact ((h.whole _ hmem).of_subfolder hslash).2

theorem mem_parts : key ∈ s.listFolder f true ↔ key ∈ (s.parts f).flatten := by
  simp only [parts, List.flatten_cons, List.mem_append, List.mem_flatten, List.mem_map,
    exists_exists_and_eq_and]
  constructor
  · intro hkey
    obtain ⟨hmem, rest, rfl, hne, -⟩ := mem_listFolder.1 hkey
    by_cases hslash : '/' ∈ rest
    · obtain ⟨piece, tail, rfl, hpiece⟩ := List.eq_append_cons_of_mem hslash
      have hsub : String.ofList piece ∈ s.subfolders f :=
        mem_subfolders.2 ⟨by simpa using hpiece, tail, by simpa using hkey⟩
      exact .inr ⟨_, hsub, (h.mem_subfolder hsub).2 ⟨hmem, tail, by simp⟩⟩
    · exact .inl (mem_listFolder.2 ⟨hmem, rest, rfl, hne, .inr hslash⟩)
  · rintro (hkey | ⟨name, hsub, hkey⟩)
    · obtain ⟨hmem, rest, rfl, hne, -⟩ := mem_listFolder.1 hkey
      exact mem_listFolder.2 ⟨hmem, rest, rfl, hne, .inl rfl⟩
    · obtain ⟨hmem, rest, rfl⟩ := (h.mem_subfolder hsub).1 hkey
      exact mem_listFolder.2 ⟨hmem, _, rfl, by simp, .inl rfl⟩

/-- **The parts have nothing in common**: what follows the folder has no slash, or it starts with one
name. -/
theorem disjoint_parts (f : String) : (s.parts f).Pairwise List.Disjoint := by
  refine List.pairwise_cons.2 ⟨?_, List.pairwise_map.2 ?_⟩
  · rintro _ hpart key hdirect hbelow
    obtain ⟨name, hsub, rfl⟩ := List.mem_map.1 hpart
    obtain ⟨-, rest, rfl, -, hslash⟩ := mem_listFolder.1 hdirect
    obtain ⟨-, tail, heq⟩ := (h.mem_subfolder hsub).1 hbelow
    obtain rfl := append_ofList_inj heq
    simp at hslash
  · refine (List.nodup_dedup _).imp_of_mem ?_
    intro name name' hsub hsub' hne key hkey hkey'
    obtain ⟨-, rest, rfl⟩ := (h.mem_subfolder hsub).1 hkey
    obtain ⟨-, rest', heq⟩ := (h.mem_subfolder hsub').1 hkey'
    have htake := congrArg (List.takeWhile (· != '/')) (append_ofList_inj heq)
    rw [takeWhile_piece (mem_subfolders.1 hsub).1, takeWhile_piece (mem_subfolders.1 hsub').1] at htake
    exact hne (String.toList_inj.1 htake)

/-- **A listing is made of its parts.** -/
theorem perm_parts (f : String) : (s.listFolder f true).Perm (s.parts f).flatten := by
  have hnodup : (s.parts f).flatten.Nodup := by
    refine List.nodup_flatten.2 ⟨?_, h.disjoint_parts f⟩
    refine List.forall_mem_cons.2 ⟨nodup_listFolder h.inOrder f false, fun part hpart => ?_⟩
    obtain ⟨name, -, rfl⟩ := List.mem_map.1 hpart
    exact nodup_listFolder h.inOrder _ true
  exact (List.perm_ext_iff_of_nodup (nodup_listFolder h.inOrder f true) hnodup).2 fun _ => h.mem_parts

end Tidy

end

/-! ## Files saved one after another -/

/-- The store after files were saved in it. -/
def afterSaves (s : Store) (saves : List (Place × Bytes)) : Store :=
  saves.foldl (fun s x => s.save x.1.key x.2) s

/-- The keys that files were saved under. -/
def savedKeys (saves : List (Place × Bytes)) : List String := saves.map (·.1.key)

theorem Tidy.save {s : Store} (h : s.Tidy) (p : Place) (bytes : Bytes) : (s.save p.key bytes).Tidy := by
  refine ⟨Ordered.pairwise_put h.inOrder, fun key hkey => ?_⟩
  rcases Ordered.mem_keys_put.1 hkey with rfl | hkey
  · exact p.whole_key
  · exact h.whole key hkey

theorem Tidy.afterSaves {s : Store} (h : s.Tidy) (saves : List (Place × Bytes)) :
    (s.afterSaves saves).Tidy := by
  induction saves generalizing s with
  | nil => exact h
  | cons x saves ih => exact ih (h.save x.1 x.2)

theorem tidy_empty : Tidy {} := ⟨.nil, List.forall_mem_nil _⟩

theorem mem_keys_afterSaves (s : Store) (saves : List (Place × Bytes)) (key : String) :
    key ∈ (s.afterSaves saves).entries.map (·.1) ↔ key ∈ savedKeys saves ∨ key ∈ s.entries.map (·.1) := by
  induction saves generalizing s with
  | nil => simp [afterSaves, savedKeys]
  | cons x saves ih =>
    have hcons : key ∈ savedKeys (x :: saves) ↔ key = x.1.key ∨ key ∈ savedKeys saves := List.mem_cons
    refine (ih (s.save x.1.key x.2)).trans ?_
    rw [Store.save, Ordered.mem_keys_put, hcons, or_assoc]
    exact or_left_comm

section

variable (saves : List (Place × Bytes)) (f : String)

theorem tidy_afterSaves : (afterSaves {} saves).Tidy := tidy_empty.afterSaves saves

theorem mem_listed (key : String) : key ∈ (afterSaves {} saves).listFolder f true ↔
    key ∈ savedKeys saves ∧ ∃ rest, key = lead f ++ rest := by
  have hkeys := mem_keys_afterSaves {} saves key
  rw [(tidy_afterSaves saves).mem_listFolder_true, hkeys]
  simp

theorem mem_subfolders_afterSaves (name : String) : name ∈ (afterSaves {} saves).subfolders f ↔
    '/' ∉ name.toList ∧ ∃ rest, lead f ++ name ++ "/" ++ rest ∈ savedKeys saves := by
  rw [mem_subfolders]
  refine and_congr_right fun _ => ⟨?_, ?_⟩
  · rintro ⟨rest, hkey⟩
    refine ⟨String.ofList rest, ?_⟩
    rw [append_slash]
    exact ((mem_listed saves f _).1 hkey).1
  · rintro ⟨rest, hkey⟩
    rw [← String.ofList_toList (s := rest), append_slash] at hkey
    exact ⟨rest.toList, (mem_listed saves f _).2 ⟨hkey, _, rfl⟩⟩

theorem lead_empty : lead "" = "" := by
  simp [lead, folderName]

theorem entries_stats : (afterSaves {} saves).stats.entries = (savedKeys saves).dedup.length := by
  have hall : ∀ key, key ∈ (afterSaves {} saves).keys "" ↔ key ∈ (savedKeys saves).dedup := by
    intro key
    rw [List.mem_dedup, keys, mem_listed, lead_empty]
    exact and_iff_left ⟨key, by rw [String.empty_append]⟩
  have hnodup := nodup_listFolder (tidy_afterSaves saves).inOrder "" true
  exact ((List.perm_ext_iff_of_nodup hnodup (List.nodup_dedup _)).2 hall).length_eq

end

/-- **Listings are exact.** After any saves, of files in folders with a name that has no slash: files
whose folders or components differ have different keys; what is listed below a folder, in order, are the
saved keys that start with its name and a slash, whatever slashes its name is written with at the end;
this is what is directly in the folder, and what is listed below each of the subfolders that have keys,
no key twice; keys of folders whose names go on where the name of the folder ends are not listed; and as
many entries are counted as there are different keys. -/
theorem listings_exact (saves : List (Place × Bytes)) :
    let s := afterSaves {} saves
    (∀ p q : Place, p.key = q.key ↔
      p.folder = q.folder ∧ Path.components p.path = Path.components q.path) ∧
    (∀ f, (s.listFolder f true).Pairwise (· < ·) ∧
      (∀ key, key ∈ s.listFolder f true ↔ key ∈ savedKeys saves ∧ ∃ rest, key = lead f ++ rest) ∧
      (∀ name, name ∈ s.subfolders f ↔
        '/' ∉ name.toList ∧ ∃ rest, lead f ++ name ++ "/" ++ rest ∈ savedKeys saves) ∧
      (s.subfolders f).Nodup ∧ (s.parts f).Pairwise List.Disjoint ∧
      (s.listFolder f true).Perm (s.parts f).flatten ∧
      (folderName f ≠ "" → ∀ more rest recursive, more ≠ "" → more.toList.head? ≠ some '/' →
        folderName f ++ more ++ "/" ++ rest ∉ s.listFolder f recursive)) ∧
    s.stats.entries = (savedKeys saves).dedup.length := by
  intro s
  have htidy : s.Tidy := tidy_afterSaves saves
  refine ⟨fun p q => Place.key_inj, fun f => ⟨pairwise_listFolder htidy.inOrder f true,
    mem_listed saves f, mem_subfolders_afterSaves saves f, List.nodup_dedup _, htidy.disjoint_parts f,
    htidy.perm_parts f, ?_⟩, entries_stats saves⟩
  intro hf more rest recursive hmore hslash
  exact not_mem_listFolder_of_ne hf hmore hslash rest

/-- Files of one folder, of a folder in it, and of one whose name goes on where its name ends. -/
def nearNames : List (Place × Bytes) :=
  [(⟨"units", "b.js", by decide, by decide, by decide⟩, [1]),
   (⟨"units2", "a.js", by decide, by decide, by decide⟩, []),
   (⟨"units", "forms//x.js", by decide, by decide, by decide⟩, [2]),
   (⟨"units", "forms/./x.js", by decide, by decide, by decide⟩, [3])]

theorem nearNames_listed :
    let s := afterSaves {} nearNames
    "units2/a.js" ∈ savedKeys nearNames ∧ "units2/a.js" ∉ s.listFolder "units" true ∧
      "units/forms/x.js" ∈ s.listFolder "units//" true ∧ "forms" ∈ s.subfolders "units/" ∧
      s.stats.entries = 3 := by
  intro s
  obtain ⟨-, hfolder, hstats⟩ := listings_exact nearNames
  obtain ⟨-, -, -, -, -, -, hnear⟩ := hfolder "units"
  obtain ⟨-, hlisted, -⟩ := hfolder "units//"
  obtain ⟨-, -, hsub, -⟩ := hfolder "units/"
  have hname : folderName "units" = "units" := by decide +kernel
  have hlead : lead "units//" = "units/" := by decide +kernel
  have hlead' : lead "units/" = "units/" := by decide +kernel
  refine ⟨by decide +kernel, ?_, (hlisted _).2 ⟨by decide +kernel, "forms/x.js", ?_⟩,
    (hsub _).2 ⟨by decide +kernel, "x.js", ?_⟩, hstats.trans (by decide +kernel)⟩
  · rw [hname] at hnear
    exact hnear (by decide) "2" "a.js" true (by decide) (by decide)
  · rw [hlead]
    rfl
  · rw [hlead']
    decide +kernel

end Store

end ScriptAtlas
