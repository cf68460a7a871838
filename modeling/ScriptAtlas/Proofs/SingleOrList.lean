/-
One value or a list of one: a catalog is read alike whichever is written. A
value that is no list, at a place where one or many are allowed, can be put in
a list of its own. `Edit`s say where such a place is, going down from the whole
document through the fields of records, each of which is an object or the list
of its values.

What makes this more than a look at `oneOrMany` is that a list can be read in
two ways, as many entries or as the values of one entry. So an edit inside a list
has to be harmless in both readings. It is, because a record is blind to fields
that it does not have (`Change.read_eq`), because the names of nested sections
differ, and because a list of one is no entry.
-/
import Mathlib.Data.List.Nodup
import ScriptAtlas.Catalog

namespace ScriptAtlas

namespace Record

/-! ## Edits -/

/-- What a value was, and what it becomes. -/
abbrev Edit := JsonValue → JsonValue → Prop

/-- Where one or many are allowed, a single value is put in a list, or one of the entries that are
there is edited. -/
inductive InOneOrMany (entry : Edit) : Edit
  | wrap {v : JsonValue} (h : ∀ items, v ≠ .array items) : InOneOrMany entry v (.array [v])
  | single {v v' : JsonValue} (h : entry v v') : InOneOrMany entry v v'
  | item (before after : List JsonValue) {v v' : JsonValue} (h : entry v v') :
    InOneOrMany entry (.array (before ++ v :: after)) (.array (before ++ v' :: after))

/-- In a record with these fields, the value of a field is edited. A list has no more items than
the record has fields. -/
inductive InField (fields : List Field) (name : String) (value : Edit) : Edit
  | member (before after : List (Option String × JsonValue)) {v v' : JsonValue} (h : value v v') :
    InField fields name value (.object (before ++ (some name, v) :: after))
      (.object (before ++ (some name, v') :: after))
  | item (before after : List JsonValue) {v v' : JsonValue}
    (hname : (fields.map (·.name))[before.length]? = some name)
    (hlen : before.length + after.length < fields.length) (h : value v v') :
    InField fields name value (.array (before ++ v :: after)) (.array (before ++ v' :: after))

/-! ## What the edit of a field does to the values that are read -/

/-- The second reading is the first one with another value for field `k`. -/
structure Sets (k : Nat) (x x' : JsonValue) (r r' : Option (List (Option JsonValue))) : Prop where
  eq : r' = r.map (·.set k (some x'))
  before : ∀ vs, r = some vs → vs[k]? = some (some x)

section

variable {fields : List Field} {name other : String} {x x' : JsonValue} {k : Nat}
  {r r' : Option (List (Option JsonValue))}

theorem Sets.none : Sets k x x' none none := ⟨rfl, nofun⟩

theorem Sets.head (r : Option (List (Option JsonValue))) :
    Sets 0 x x' (r.map (some x :: ·)) (r.map (some x' :: ·)) := by
  refine ⟨by cases r <;> rfl, fun vs h => ?_⟩
  obtain ⟨vs, -, rfl⟩ := Option.map_eq_some_iff.1 h
  rfl

theorem Sets.cons (h : Sets k x x' r r') (v : Option JsonValue) :
    Sets (k + 1) x x' (r.map (v :: ·)) (r'.map (v :: ·)) := by
  refine ⟨by rw [h.eq]; cases r <;> rfl, fun vs hvs => ?_⟩
  obtain ⟨vs, hr, rfl⟩ := Option.map_eq_some_iff.1 hvs
  exact h.before vs hr

/-- The values of fields among the members of an object. -/
def memberValues (fields : List Field) (members : List (Option String × JsonValue)) :
    Option (List (Option JsonValue)) :=
  fields.mapM fun f => single? (valuesOf f.name members)

theorem read_object (members : List (Option String × JsonValue)) : read fields (.object members) =
    if members.all (·.1.isSome) then memberValues fields members else none := rfl

theorem keys_edit (before after : List (Option String × JsonValue)) (x x' : JsonValue) :
    (before ++ (some name, x') :: after).all (·.1.isSome) =
      (before ++ (some name, x) :: after).all (·.1.isSome) := by
  simp

theorem memberValues_cons (f : Field) (members : List (Option String × JsonValue)) :
    memberValues (f :: fields) members = (single? (valuesOf f.name members)).bind fun v =>
      (memberValues fields members).map (v :: ·) := by
  simp only [memberValues, List.mapM_cons]
  cases single? (valuesOf f.name members) with
  | none => rfl
  | some v => cases fields.mapM fun f => single? (valuesOf f.name members) <;> rfl

theorem valuesOf_of_ne (h : other ≠ name) (before after : List (Option String × JsonValue))
    (x x' : JsonValue) : valuesOf other (before ++ (some name, x') :: after) =
      valuesOf other (before ++ (some name, x) :: after) := by
  have hne : (some name == some other) = false := by simpa using h.symm
  simp [valuesOf, hne]

/-- A field that is repeated has no value, neither before nor after the edit. -/
theorem single?_valuesOf (name : String) (before after : List (Option String × JsonValue)) :
    (∀ x, single? (valuesOf name (before ++ (some name, x) :: after)) = some (some x)) ∨
      ∀ x, single? (valuesOf name (before ++ (some name, x) :: after)) = none := by
  have hvalues (x : JsonValue) : valuesOf name (before ++ (some name, x) :: after) =
      valuesOf name before ++ x :: valuesOf name after := by
    simp [valuesOf]
  simp only [hvalues]
  match valuesOf name before, valuesOf name after with
  | [], [] => exact .inl fun _ => rfl
  | [], _ :: _ => exact .inr fun _ => rfl
  | [_], _ => exact .inr fun _ => rfl
  | _ :: _ :: _, _ => exact .inr fun _ => rfl

/-- A record is blind to a field that it does not have. -/
theorem memberValues_of_not_mem (h : name ∉ fields.map (·.name))
    (before after : List (Option String × JsonValue)) (x x' : JsonValue) :
    memberValues fields (before ++ (some name, x') :: after) =
      memberValues fields (before ++ (some name, x) :: after) := by
  induction fields with
  | nil => rfl
  | cons f fields ih =>
    simp only [List.map_cons, List.mem_cons, not_or] at h
    rw [memberValues_cons, memberValues_cons, valuesOf_of_ne (Ne.symm h.1), ih h.2]

/-- A record that has the field reads its new value, and the other fields as before. -/
theorem sets_memberValues (before after : List (Option String × JsonValue))
    (hd : (fields.map (·.name)).Nodup) (hk : (fields.map (·.name))[k]? = some name) :
    Sets k x x' (memberValues fields (before ++ (some name, x) :: after))
      (memberValues fields (before ++ (some name, x') :: after)) := by
  induction fields generalizing k with
  | nil => simp at hk
  | cons f fields ih =>
    rw [List.map_cons, List.nodup_cons] at hd
    rw [memberValues_cons, memberValues_cons]
    cases k with
    | zero =>
      obtain rfl : f.name = name := by simpa using hk
      rw [memberValues_of_not_mem hd.1 before after x x']
      rcases single?_valuesOf f.name before after with hone | hnone
      · rw [hone, hone]
        exact .head _
      · rw [hnone, hnone]
        exact .none
    | succ k =>
      have hk : (fields.map (·.name))[k]? = some name := by simpa using hk
      have hne : f.name ≠ name := fun he => hd.1 (he ▸ List.mem_of_getElem? hk)
      rw [valuesOf_of_ne hne before after x x']
      cases single? (valuesOf f.name (before ++ (some name, x) :: after)) with
      | none => exact .none
      | some v => exact (ih hd.2 hk).cons v

/-- The same of a record that is given as the list of its values. -/
theorem sets_fromList (before after : List JsonValue) : Sets before.length x x'
    (fromList fields (before ++ x :: after)) (fromList fields (before ++ x' :: after)) := by
  induction fields generalizing before with
  | nil => cases before <;> exact .none
  | cons f fields ih =>
    cases before with
    | nil => exact .head _
    | cons b before => exact (ih before).cons (some b)

end

theorem length_of_fromList : ∀ {fields : List Field} {items : List JsonValue}
    {vs : List (Option JsonValue)}, fromList fields items = some vs → vs.length = fields.length
  | [], [], _, h => by cases h; rfl
  | [], _ :: _, _, h => by cases h
  | f :: fields, items, vs, h => by
    obtain ⟨v, rest, vs, hvs, rfl⟩ : ∃ v rest vs', fromList fields rest = some vs' ∧ v :: vs' = vs := by
      cases items with
      | nil =>
        obtain ⟨-, h⟩ := Option.ite_none_right_eq_some.1 h
        obtain ⟨vs, hvs, h⟩ := Option.map_eq_some_iff.1 h
        exact ⟨none, [], vs, hvs, h⟩
      | cons x items =>
        obtain ⟨vs, hvs, h⟩ := Option.map_eq_some_iff.1 h
        exact ⟨some x, items, vs, hvs, h⟩
    rw [List.length_cons, List.length_cons, length_of_fromList hvs]

theorem length_of_memberValues {members : List (Option String × JsonValue)} :
    ∀ {fields : List Field} {vs : List (Option JsonValue)},
      memberValues fields members = some vs → vs.length = fields.length
  | [], _, h => by cases h; rfl
  | f :: fields, vs, h => by
    rw [memberValues_cons] at h
    obtain ⟨v, -, h⟩ := Option.bind_eq_some_iff.1 h
    obtain ⟨vs, hvs, rfl⟩ := Option.map_eq_some_iff.1 h
    rw [List.length_cons, List.length_cons, length_of_memberValues hvs]

/-- A record has one value for each of its fields. -/
theorem length_of_read {fields : List Field} {v : JsonValue} {vs : List (Option JsonValue)}
    (h : read fields v = some vs) : vs.length = fields.length := by
  cases v with
  | object members => exact length_of_memberValues (Option.ite_none_right_eq_some.1 h).2
  | array items => exact length_of_fromList h
  | _ => cases h

/-- **The edit of a field** changes the value that is read for it and no other. -/
theorem InField.sets {fields : List Field} {name : String} {value : Edit} {v v' : JsonValue}
    (h : InField fields name value v v') (hd : (fields.map (·.name)).Nodup) {k : Nat}
    (hk : (fields.map (·.name))[k]? = some name) :
    ∃ x x', value x x' ∧ Sets k x x' (read fields v) (read fields v') := by
  cases h with
  | @member before after x x' h =>
    refine ⟨x, x', h, ?_⟩
    rw [read_object, read_object, keys_edit before after x x']
    split
    · exact sets_memberValues before after hd hk
    · exact .none
  | @item before after x x' hname hlen h =>
    obtain rfl : k = before.length := by
      obtain ⟨hlt, hget⟩ := List.getElem?_eq_some_iff.1 hk
      obtain ⟨hlt', hget'⟩ := List.getElem?_eq_some_iff.1 hname
      exact (hd.getElem_inj_iff).1 (hget.trans hget'.symm)
    exact ⟨x, x', h, sets_fromList before after⟩

/-! ## Edits seen by other records -/

/-- What an edit looks like from outside: an object changes under a key, or a list of so many items
changes. -/
inductive Change (key : String) (least most : Nat) : Edit
  | object (before after : List (Option String × JsonValue)) (x x' : JsonValue) :
    Change key least most (.object (before ++ (some key, x) :: after))
      (.object (before ++ (some key, x') :: after))
  | array {items items' : List JsonValue} (h : items'.length = items.length)
    (hleast : least < items.length) (hmost : items.length ≤ most) :
    Change key least most (.array items) (.array items')

section

variable {fields : List Field} {name : String} {value : Edit} {least most : Nat}
  {v v' : JsonValue}

theorem InField.change (h : InField fields name value v v') (hd : (fields.map (·.name)).Nodup)
    {k : Nat} (hk : (fields.map (·.name))[k]? = some name) :
    Change name k fields.length v v' := by
  cases h with
  | member before after h => exact .object before after _ _
  | item before after hname hlen h =>
    obtain ⟨hlt, hget⟩ := List.getElem?_eq_some_iff.1 hk
    obtain ⟨hlt', hget'⟩ := List.getElem?_eq_some_iff.1 hname
    obtain rfl := (hd.getElem_inj_iff).1 (hget.trans hget'.symm)
    exact .array (by simp) (by simp) (by simp; omega)

/-- **A record is blind to an edit** under a key that it does not have, if it refuses lists of that
size. -/
theorem Change.read_eq (h : Change name least most v v') (hname : name ∉ fields.map (·.name))
    (hsize : ∀ items : List JsonValue, least < items.length → items.length ≤ most →
      fromList fields items = none) : read fields v' = read fields v := by
  cases h with
  | object before after x x' =>
    rw [read_object, read_object, keys_edit before after x x',
      memberValues_of_not_mem hname before after x x']
  | array h hleast hmost =>
    simp only [read]
    rw [hsize _ hleast hmost, hsize _ (h ▸ hleast) (h ▸ hmost)]

theorem fromList_of_lt : ∀ {fields : List Field} {items : List JsonValue},
    fields.length < items.length → fromList fields items = none
  | [], _ :: _, _ => rfl
  | _ :: fields, _ :: items, h => by
    simp only [List.length_cons, Nat.add_lt_add_iff_right] at h
    simp [fromList, fromList_of_lt h]

/-- A section has one field, so a list that is edited behind its first item is none. -/
theorem Change.read_single {f : Field} (h : Change name least most v v') (hname : name ≠ f.name)
    (hleast : 1 ≤ least) : read [f] v' = read [f] v :=
  h.read_eq (by simpa using hname) fun _ hl _ => fromList_of_lt (Nat.lt_of_le_of_lt hleast hl)

theorem Change.mono {least' most' : Nat} (h : Change name least most v v') (hl : least' ≤ least)
    (hm : most ≤ most') : Change name least' most' v v' := by
  cases h with
  | object before after x x' => exact .object before after x x'
  | array h hleast hmost => exact .array h (by omega) (by omega)

theorem Change.string?_eq (h : Change name least most v v') : string? v' = string? v := by
  cases h <;> rfl

theorem Change.text_eq (h : Change name least most v v') (hname : name ≠ "__cdata") :
    text v' = text v := by
  cases h with
  | object before after x x' =>
    simp only [text]
    rw [valuesOf_of_ne (Ne.symm hname) before after x x']
  | array => rfl

theorem Change.flag_eq (h : Change name least most v v') : flag (some v') = flag (some v) := by
  cases h <;> rfl

/-- What is changed is not null. -/
theorem Change.optional_eq {α : Type} {reader : JsonValue → Option α}
    (h : Change name least most v v') (hr : reader v' = reader v) :
    Record.optional reader (some v') = Record.optional reader (some v) := by
  cases h <;> simp [Record.optional, hr]

end

/-! ## One or many -/

/-- The entries of a value that is a list of them. -/
def many? {α : Type} (reader : JsonValue → Option α) : JsonValue → Option (List α)
  | .array items => items.mapM reader
  | _ => none

theorem oneOrMany_eq {α : Type} (reader : JsonValue → Option α) (v : JsonValue) :
    oneOrMany reader v = (many? reader v <|> (reader v).map ([·])) := by
  cases v <;> rfl

/-- A reader of entries does not see an edit of an entry, wherever the entry stands: alone, as one
of many, or as the value of a field in what could be an entry. -/
structure Blind {α : Type} (reader : JsonValue → Option α) (entry : Edit) : Prop where
  alone : ∀ {v v'}, entry v v' → reader v' = reader v
  asMany : ∀ {v v'}, entry v v' → many? reader v' = many? reader v
  asField : ∀ {v v'} (before after : List JsonValue), entry v v' →
    reader (.array (before ++ v' :: after)) = reader (.array (before ++ v :: after))
  ofOne : ∀ {v}, reader v = none → reader (.array [v]) = none

section

variable {α : Type} {reader : JsonValue → Option α} {entry : Edit} {v v' : JsonValue}

theorem mapM_edit (before after : List JsonValue) (h : reader v' = reader v) :
    (before ++ v' :: after).mapM reader = (before ++ v :: after).mapM reader := by
  rw [List.mapM_append, List.mapM_append, List.mapM_cons, List.mapM_cons, h]

theorem InField.many?_eq {fields : List Field} {name : String} {value : Edit}
    (h : InField fields name value v v') (hx : ∀ {x x'}, value x x' → reader x' = reader x) :
    many? reader v' = many? reader v := by
  cases h with
  | member => rfl
  | item before after _ _ h => exact mapM_edit before after (hx h)

/-- **One or many are read alike** before and after an edit. -/
theorem Blind.oneOrMany_eq (h : Blind reader entry) (hv : InOneOrMany entry v v') :
    oneOrMany reader v' = oneOrMany reader v := by
  rw [Record.oneOrMany_eq, Record.oneOrMany_eq]
  cases hv with
  | wrap hno =>
    cases hr : reader v with
    | none => simp [many?, hr, h.ofOne hr]
    | some a => simp [many?, hr]
  | single hv => rw [h.asMany hv, h.alone hv]
  | item before after hv =>
    rw [many?, many?, mapM_edit before after (h.alone hv), h.asField before after hv]

/-- Where entries have no places for edits, there is only the list of one to look at. -/
theorem Blind.of_leaf (h : ∀ v, reader v = none → reader (.array [v]) = none) :
    Blind reader fun _ _ => False :=
  ⟨nofun, nofun, nofun, fun {v} => h v⟩

end

end Record

namespace Catalog

open Record

/-! ## Places in a catalog -/

/-- In a section of entries, one or many of them. -/
def SectionEdit (name : String) (entry : Edit) : Edit :=
  InField [{ name, hasDefault := true }] name (InOneOrMany entry)

/-- In a section of descriptions, one or many texts. -/
def DescriptionsEdit : Edit :=
  InField [{ name := "description" }] "description" (InOneOrMany fun _ _ => False)

/-- The fields of a function. -/
def FunctionEntry.fields : List Field :=
  [{ name := "_name" }, { name := "parameters" }, { name := "return" }, { name := "descriptions" }]

/-- In a function, its parameters or its descriptions. -/
inductive FunctionEntry.Edited (v v' : JsonValue) : Prop
  | parameters (h : InField fields "parameters" (SectionEdit "parameter" fun _ _ => False) v v')
  | descriptions (h : InField fields "descriptions" DescriptionsEdit v v')

/-- The fields of a constant or property. -/
def MemberEntry.fields : List Field :=
  [{ name := "_name" }, { name := "return" }, { name := "descriptions" },
    { name := "_deprecated", hasDefault := true }, { name := "deprecated" }]

/-- In a constant or property, its descriptions. -/
def MemberEntry.Edited : Edit := InField fields "descriptions" DescriptionsEdit

/-- The fields of an object. -/
def ObjectEntry.fields : List Field :=
  [{ name := "_scriptingName" }, { name := "_qualifiedName" }, { name := "_extendsComponent" },
    { name := "description" }, { name := "functions" }, { name := "constants" },
    { name := "properties" }]

/-- In an object, its functions, constants or properties. -/
inductive ObjectEntry.Edited (v v' : JsonValue) : Prop
  | functions (h : InField fields "functions" (SectionEdit "function" FunctionEntry.Edited) v v')
  | constants (h : InField fields "constants" (SectionEdit "constant" MemberEntry.Edited) v v')
  | properties (h : InField fields "properties" (SectionEdit "property" MemberEntry.Edited) v v')

/-- In a document, the objects of the runtime section or something in one of them. -/
def DocumentEdit : Edit :=
  InField [{ name := "servoydoc" }] "servoydoc"
    (InField [{ name := "runtime" }] "runtime" (SectionEdit "object" ObjectEntry.Edited))

/-! ## Sections -/

section

variable {name : String} {v v' : JsonValue}

/-- A record with one field has only the value that is edited. -/
theorem read_single {f : Field} {value : Edit} (h : InField [f] f.name value v v') :
    ∃ x x', value x x' ∧ (read [f] v = none ∧ read [f] v' = none ∨
      read [f] v = some [some x] ∧ read [f] v' = some [some x']) := by
  obtain ⟨x, x', hx, hs⟩ := h.sets (by simp) (k := 0) (by simp)
  refine ⟨x, x', hx, ?_⟩
  rw [hs.eq]
  cases hr : read [f] v with
  | none => exact .inl ⟨rfl, rfl⟩
  | some vs =>
    match vs, length_of_read hr, hs.before vs hr with
    | [_], _, hat =>
      obtain rfl := Option.some.inj hat
      exact .inr ⟨rfl, rfl⟩

theorem SectionEdit.read_eq {α : Type} {reader : JsonValue → Option α} {entry : Edit}
    (hb : Blind reader entry) (h : SectionEdit name entry v v') :
    Catalog.section? name reader v' = Catalog.section? name reader v := by
  obtain ⟨x, x', hx, ⟨hr, hr'⟩ | ⟨hr, hr'⟩⟩ := read_single h
  · simp [section?, hr, hr']
  · simp [section?, hr, hr', listed, hb.oneOrMany_eq hx]

/-- Descriptions may also be null, which a list of null stands for. -/
theorem DescriptionsEdit.read_eq (h : DescriptionsEdit v v') : descriptions? v' = descriptions? v := by
  have hb : Blind (fun v => some (text v)) fun _ _ => False := .of_leaf nofun
  obtain ⟨x, x', hx, ⟨hr, hr'⟩ | ⟨hr, hr'⟩⟩ := read_single h
  · simp [descriptions?, hr, hr']
  · have hmany := hb.oneOrMany_eq hx
    cases hx with
    | wrap hno =>
      cases x with
      | null => simp [descriptions?, hr, hr', Record.optional, oneOrMany, text]
      | array items => exact absurd rfl (hno items)
      | _ => simp [descriptions?, hr, hr', Record.optional, hmany]
    | single h => exact h.elim
    | item _ _ h => exact h.elim

theorem SectionEdit.change {entry : Edit} (h : SectionEdit name entry v v') : Change name 0 1 v v' :=
  InField.change h (by simp) rfl

theorem DescriptionsEdit.change (h : DescriptionsEdit v v') : Change "description" 0 1 v v' :=
  InField.change h (by simp) rfl

theorem SectionEdit.field_eq {α : Type} {reader : JsonValue → Option α} {entry : Edit}
    (hb : Blind reader entry) (h : SectionEdit name entry v v') :
    sectionField name reader (some v') = sectionField name reader (some v) := by
  rw [sectionField, sectionField, h.change.optional_eq (h.read_eq hb)]

theorem DescriptionsEdit.field_eq (h : DescriptionsEdit v v') :
    descriptionsField (some v') = descriptionsField (some v) := by
  rw [descriptionsField, descriptionsField, h.change.optional_eq h.read_eq]

end

/-! ## Fields that see an edit meant for another record -/

section

variable {key name : String} {least most : Nat} {v v' : JsonValue}

theorem sectionField_change {α : Type} (reader : JsonValue → Option α)
    (h : Change key least most v v') (hkey : key ≠ name) (hl : 1 ≤ least) :
    sectionField name reader (some v') = sectionField name reader (some v) := by
  have hs : section? name reader v' = section? name reader v := by
    rw [section?, section?, h.read_single hkey hl]
  rw [sectionField, sectionField, h.optional_eq hs]

theorem returnField_change (h : Change key least most v v') (hkey : key ≠ "_typecode")
    (hl : 1 ≤ least) : returnField (some v') = returnField (some v) := by
  have hs : returnCode? v' = returnCode? v := by
    rw [returnCode?, returnCode?, h.read_single hkey hl]
  rw [returnField, returnField, h.optional_eq hs]

theorem descriptionsField_change (h : Change key least most v v') (hkey : key ≠ "description")
    (hl : 1 ≤ least) : descriptionsField (some v') = descriptionsField (some v) := by
  have hs : descriptions? v' = descriptions? v := by
    rw [descriptions?, descriptions?, h.read_single hkey hl]
  rw [descriptionsField, descriptionsField, h.optional_eq hs]

theorem textField_change (h : Change key least most v v') (hkey : key ≠ "__cdata") :
    textField (some v') = textField (some v) := h.text_eq hkey

end

/-! ## Entries -/

section

variable {v v' x x' : JsonValue} {k : Nat}

/-- A parameter has more fields than one, so a list of one is none. -/
theorem blind_param : Blind ParamEntry.read? fun _ _ => False := .of_leaf fun _ _ => rfl

namespace FunctionEntry

theorem nodup_fields : (fields.map (·.name)).Nodup := by decide

theorem fromList_of_one : ∀ items : List JsonValue, 0 < items.length → items.length ≤ 1 →
    fromList fields items = none
  | [_], _, _ => rfl

theorem read?_congr (h : read fields v' = read fields v) : read? v' = read? v := by
  rw [read?, read?, ← fields, h]

/-- A function is read alike when each of its fields is. -/
theorem read?_of_sets (h : Sets k x x' (read fields v) (read fields v'))
    (hname : k = 0 → string? x' = string? x)
    (hparams : k = 1 → sectionField "parameter" ParamEntry.read? (some x') =
      sectionField "parameter" ParamEntry.read? (some x))
    (hreturns : k = 2 → returnField (some x') = returnField (some x))
    (hdescriptions : k = 3 → descriptionsField (some x') = descriptionsField (some x)) :
    read? v' = read? v := by
  unfold read?
  rw [← fields, h.eq]
  cases hr : read fields v with
  | none => rfl
  | some vs =>
    match vs, length_of_read hr, k, h.before vs hr with
    | [_, _, _, _], _, 0, hat =>
      obtain rfl := Option.some.inj hat
      simp [required, hname]
    | [_, _, _, _], _, 1, hat =>
      obtain rfl := Option.some.inj hat
      simp [hparams]
    | [_, _, _, _], _, 2, hat =>
      obtain rfl := Option.some.inj hat
      simp [hreturns]
    | [_, _, _, _], _, 3, hat =>
      obtain rfl := Option.some.inj hat
      simp [hdescriptions]

theorem Edited.change (h : Edited v v') :
    ∃ key, (key = "parameters" ∨ key = "descriptions") ∧ Change key 1 4 v v' := by
  cases h with
  | parameters h => exact ⟨_, .inl rfl, h.change nodup_fields rfl⟩
  | descriptions h =>
    have hc : Change "descriptions" 3 4 v v' := h.change nodup_fields rfl
    exact ⟨_, .inr rfl, hc.mono (by omega) (by omega)⟩

theorem blind : Blind read? Edited where
  alone h := by
    cases h with
    | parameters h =>
      obtain ⟨x, x', hx, hs⟩ := h.sets nodup_fields (k := 1) rfl
      exact read?_of_sets hs nofun (fun _ => SectionEdit.field_eq blind_param hx) nofun nofun
    | descriptions h =>
      obtain ⟨x, x', hx, hs⟩ := h.sets nodup_fields (k := 3) rfl
      exact read?_of_sets hs nofun nofun nofun fun _ => DescriptionsEdit.field_eq hx
  asMany h := by
    cases h with
    | parameters h =>
      exact h.many?_eq fun hx => read?_congr (hx.change.read_eq (by decide) fromList_of_one)
    | descriptions h =>
      exact h.many?_eq fun hx => read?_congr (hx.change.read_eq (by decide) fromList_of_one)
  asField before after h := by
    obtain ⟨key, hkey, hc⟩ := h.change
    have hne : key ≠ "parameter" ∧ key ≠ "_typecode" ∧ key ≠ "description" := by
      rcases hkey with rfl | rfl <;> decide
    exact read?_of_sets (sets_fromList before after) (fun _ => hc.string?_eq)
      (fun _ => sectionField_change _ hc hne.1 (Nat.le_refl _))
      (fun _ => returnField_change hc hne.2.1 (Nat.le_refl _))
      (fun _ => descriptionsField_change hc hne.2.2 (Nat.le_refl _))
  ofOne _ := rfl

end FunctionEntry

namespace MemberEntry

theorem nodup_fields : (fields.map (·.name)).Nodup := by decide

theorem fromList_of_one : ∀ items : List JsonValue, 0 < items.length → items.length ≤ 1 →
    fromList fields items = none
  | [_], _, _ => rfl

theorem read?_congr (h : read fields v' = read fields v) : read? v' = read? v := by
  rw [read?, read?, ← fields, h]

/-- A constant or property is read alike when each of its fields is. -/
theorem read?_of_sets (h : Sets k x x' (read fields v) (read fields v'))
    (hname : k = 0 → string? x' = string? x)
    (hreturns : k = 1 → returnField (some x') = returnField (some x))
    (hdescriptions : k = 2 → descriptionsField (some x') = descriptionsField (some x))
    (hflag : k = 3 → flag (some x') = flag (some x))
    (htext : k = 4 → textField (some x') = textField (some x)) : read? v' = read? v := by
  unfold read?
  rw [← fields, h.eq]
  cases hr : read fields v with
  | none => rfl
  | some vs =>
    match vs, length_of_read hr, k, h.before vs hr with
    | [_, _, _, _, _], _, 0, hat =>
      obtain rfl := Option.some.inj hat
      simp [required, hname]
    | [_, _, _, _, _], _, 1, hat =>
      obtain rfl := Option.some.inj hat
      simp [hreturns]
    | [_, _, _, _, _], _, 2, hat =>
      obtain rfl := Option.some.inj hat
      simp [hdescriptions]
    | [_, _, _, _, _], _, 3, hat =>
      obtain rfl := Option.some.inj hat
      simp [hflag]
    | [_, _, _, _, _], _, 4, hat =>
      obtain rfl := Option.some.inj hat
      simp [htext]

theorem blind : Blind read? Edited where
  alone h := by
    obtain ⟨x, x', hx, hs⟩ := InField.sets h nodup_fields (k := 2) rfl
    exact read?_of_sets hs nofun nofun (fun _ => DescriptionsEdit.field_eq hx) nofun nofun
  asMany h :=
    InField.many?_eq h fun hx => read?_congr (hx.change.read_eq (by decide) fromList_of_one)
  asField before after h := by
    have hc : Change "descriptions" 2 5 _ _ := InField.change h nodup_fields rfl
    exact read?_of_sets (sets_fromList before after) (fun _ => hc.string?_eq)
      (fun _ => returnField_change hc (by decide) (by omega))
      (fun _ => descriptionsField_change hc (by decide) (by omega))
      (fun _ => hc.flag_eq) (fun _ => textField_change hc (by decide))
  ofOne _ := rfl

end MemberEntry

namespace ObjectEntry

theorem nodup_fields : (fields.map (·.name)).Nodup := by decide

theorem fromList_of_one : ∀ items : List JsonValue, 0 < items.length → items.length ≤ 1 →
    fromList fields items = none
  | [_], _, _ => rfl

theorem read?_congr (h : read fields v' = read fields v) : read? v' = read? v := by
  rw [read?, read?, ← fields, h]

/-- An object is read alike when each of its fields is. -/
theorem read?_of_sets (h : Sets k x x' (read fields v) (read fields v'))
    (hname : k < 3 → Record.optional string? (some x') = Record.optional string? (some x))
    (htext : k = 3 → textField (some x') = textField (some x))
    (hfunctions : k = 4 → sectionField "function" FunctionEntry.read? (some x') =
      sectionField "function" FunctionEntry.read? (some x))
    (hconstants : k = 5 → sectionField "constant" MemberEntry.read? (some x') =
      sectionField "constant" MemberEntry.read? (some x))
    (hproperties : k = 6 → sectionField "property" MemberEntry.read? (some x') =
      sectionField "property" MemberEntry.read? (some x)) : read? v' = read? v := by
  unfold read?
  rw [← fields, h.eq]
  cases hr : read fields v with
  | none => rfl
  | some vs =>
    match vs, length_of_read hr, k, h.before vs hr with
    | [_, _, _, _, _, _, _], _, 0, hat =>
      obtain rfl := Option.some.inj hat
      simp [hname]
    | [_, _, _, _, _, _, _], _, 1, hat =>
      obtain rfl := Option.some.inj hat
      simp [hname]
    | [_, _, _, _, _, _, _], _, 2, hat =>
      obtain rfl := Option.some.inj hat
      simp [hname]
    | [_, _, _, _, _, _, _], _, 3, hat =>
      obtain rfl := Option.some.inj hat
      simp [htext]
    | [_, _, _, _, _, _, _], _, 4, hat =>
      obtain rfl := Option.some.inj hat
      simp [hfunctions]
    | [_, _, _, _, _, _, _], _, 5, hat =>
      obtain rfl := Option.some.inj hat
      simp [hconstants]
    | [_, _, _, _, _, _, _], _, 6, hat =>
      obtain rfl := Option.some.inj hat
      simp [hproperties]

theorem Edited.change (h : Edited v v') :
    ∃ key, (key = "functions" ∨ key = "constants" ∨ key = "properties") ∧ Change key 4 7 v v' := by
  cases h with
  | functions h => exact ⟨_, .inl rfl, h.change nodup_fields rfl⟩
  | constants h =>
    have hc : Change "constants" 5 7 v v' := h.change nodup_fields rfl
    exact ⟨_, .inr (.inl rfl), hc.mono (by omega) (by omega)⟩
  | properties h =>
    have hc : Change "properties" 6 7 v v' := h.change nodup_fields rfl
    exact ⟨_, .inr (.inr rfl), hc.mono (by omega) (by omega)⟩

theorem blind : Blind read? Edited where
  alone h := by
    cases h with
    | functions h =>
      obtain ⟨x, x', hx, hs⟩ := h.sets nodup_fields (k := 4) rfl
      exact read?_of_sets hs (by omega) nofun (fun _ => hx.field_eq FunctionEntry.blind) nofun nofun
    | constants h =>
      obtain ⟨x, x', hx, hs⟩ := h.sets nodup_fields (k := 5) rfl
      exact read?_of_sets hs (by omega) nofun nofun (fun _ => hx.field_eq MemberEntry.blind) nofun
    | properties h =>
      obtain ⟨x, x', hx, hs⟩ := h.sets nodup_fields (k := 6) rfl
      exact read?_of_sets hs (by omega) nofun nofun nofun fun _ => hx.field_eq MemberEntry.blind
  asMany h := by
    cases h with
    | functions h | constants h | properties h =>
      exact h.many?_eq fun hx => read?_congr (hx.change.read_eq (by decide) fromList_of_one)
  asField before after h := by
    obtain ⟨key, hkey, hc⟩ := h.change
    have hne : key ≠ "__cdata" ∧ key ≠ "function" ∧ key ≠ "constant" ∧ key ≠ "property" := by
      rcases hkey with rfl | rfl | rfl <;> decide
    exact read?_of_sets (sets_fromList before after) (fun _ => hc.optional_eq hc.string?_eq)
      (fun _ => textField_change hc hne.1)
      (fun _ => sectionField_change _ hc hne.2.1 (by omega))
      (fun _ => sectionField_change _ hc hne.2.2.1 (by omega))
      (fun _ => sectionField_change _ hc hne.2.2.2 (by omega))
  ofOne _ := rfl

end ObjectEntry

end

end Catalog

/-! ## Soundness and depth -/

namespace JsonValue

theorem areSound_append : ∀ vs ws : List JsonValue, areSound (vs ++ ws) = (areSound vs && areSound ws)
  | [], _ => rfl
  | v :: vs, ws => by simp [areSound, areSound_append vs ws, Bool.and_assoc]

theorem membersSound_append : ∀ ms ns : List (Option String × JsonValue),
    membersSound (ms ++ ns) = (membersSound ms && membersSound ns)
  | [], _ => rfl
  | m :: ms, ns => by simp [membersSound, membersSound_append ms ns, Bool.and_assoc]

theorem depth_le_depths {v : JsonValue} : ∀ {vs : List JsonValue}, v ∈ vs → v.depth ≤ depths vs
  | w :: vs, h => by
    rw [depths]
    rcases List.mem_cons.1 h with rfl | h
    · exact Nat.le_max_left _ _
    · exact Nat.le_trans (depth_le_depths h) (Nat.le_max_right _ _)

theorem depth_le_memberDepths {m : Option String × JsonValue} :
    ∀ {ms : List (Option String × JsonValue)}, m ∈ ms → m.2.depth ≤ memberDepths ms
  | n :: ms, h => by
    rw [memberDepths]
    rcases List.mem_cons.1 h with rfl | h
    · exact Nat.le_max_left _ _
    · exact Nat.le_trans (depth_le_memberDepths h) (Nat.le_max_right _ _)

end JsonValue

namespace Record

section

variable {fields : List Field} {name : String} {value entry : Edit} {v v' x : JsonValue}

theorem InField.isSound_eq (h : InField fields name value v v')
    (hx : ∀ {x x'}, value x x' → x'.isSound = x.isSound) : v'.isSound = v.isSound := by
  cases h with
  | member before after h =>
    simp only [JsonValue.isSound, JsonValue.membersSound_append, JsonValue.membersSound, hx h]
  | item before after _ _ h =>
    simp only [JsonValue.isSound, JsonValue.areSound_append, JsonValue.areSound, hx h]

theorem InOneOrMany.isSound_eq (h : InOneOrMany entry v v')
    (hx : ∀ {x x'}, entry x x' → x'.isSound = x.isSound) : v'.isSound = v.isSound := by
  cases h with
  | wrap => simp [JsonValue.isSound, JsonValue.areSound]
  | single h => exact hx h
  | item before after h =>
    simp only [JsonValue.isSound, JsonValue.areSound_append, JsonValue.areSound, hx h]

theorem mem_of_fromList : ∀ {fields : List Field} {items : List JsonValue}
    {vs : List (Option JsonValue)}, fromList fields items = some vs → some x ∈ vs → x ∈ items
  | [], [], _, h, hx => by cases h; cases hx
  | [], _ :: _, _, h, _ => by cases h
  | f :: fields, [], _, h, hx => by
    obtain ⟨-, h⟩ := Option.ite_none_right_eq_some.1 h
    obtain ⟨vs, hvs, rfl⟩ := Option.map_eq_some_iff.1 h
    exact mem_of_fromList hvs (by simpa using hx)
  | f :: fields, w :: items, _, h, hx => by
    obtain ⟨vs, hvs, rfl⟩ := Option.map_eq_some_iff.1 h
    rcases List.mem_cons.1 hx with hx | hx
    · exact Option.some.inj hx ▸ List.mem_cons_self
    · exact List.mem_cons_of_mem _ (mem_of_fromList hvs hx)

theorem mem_of_memberValues {members : List (Option String × JsonValue)} :
    ∀ {fields : List Field} {vs : List (Option JsonValue)},
      memberValues fields members = some vs → some x ∈ vs → ∃ key, (key, x) ∈ members
  | [], _, h, hx => by cases h; cases hx
  | f :: fields, vs, h, hx => by
    rw [memberValues_cons] at h
    obtain ⟨v, hv, h⟩ := Option.bind_eq_some_iff.1 h
    obtain ⟨vs, hvs, rfl⟩ := Option.map_eq_some_iff.1 h
    rcases List.mem_cons.1 hx with rfl | hx
    · have hmem : x ∈ valuesOf f.name members := by
        match valuesOf f.name members, hv with
        | [y], hv => exact Option.some.inj (Option.some.inj hv) ▸ List.mem_singleton_self y
      obtain ⟨m, hm, rfl⟩ := List.mem_map.1 hmem
      exact ⟨m.1, List.mem_of_mem_filter hm⟩
    · exact mem_of_memberValues hvs hx

/-- The values of a record are less deep than the record. -/
theorem depth_lt_of_read {vs : List (Option JsonValue)} (h : read fields v = some vs)
    (hx : some x ∈ vs) : x.depth < v.depth := by
  cases v with
  | object members =>
    obtain ⟨key, hm⟩ := mem_of_memberValues (Option.ite_none_right_eq_some.1 h).2 hx
    exact Nat.lt_succ_of_le (JsonValue.depth_le_memberDepths hm)
  | array items => exact Nat.lt_succ_of_le (JsonValue.depth_le_depths (mem_of_fromList h hx))
  | _ => cases h

end

end Record

namespace Catalog

open Record

section

variable {name : String} {v v' : JsonValue}

theorem isSound_object (h : InOneOrMany ObjectEntry.Edited v v') : v'.isSound = v.isSound := by
  have leaf {x x' : JsonValue} (hx : InOneOrMany (fun _ _ => False) x x') : x'.isSound = x.isSound :=
    hx.isSound_eq False.elim
  have descriptions {x x' : JsonValue} (hx : DescriptionsEdit x x') : x'.isSound = x.isSound :=
    InField.isSound_eq hx leaf
  have function {x x' : JsonValue} (hx : FunctionEntry.Edited x x') : x'.isSound = x.isSound := by
    cases hx with
    | parameters hx => exact hx.isSound_eq fun hx => InField.isSound_eq hx leaf
    | descriptions hx => exact hx.isSound_eq descriptions
  have member {x x' : JsonValue} (hx : MemberEntry.Edited x x') : x'.isSound = x.isSound :=
    InField.isSound_eq hx descriptions
  refine h.isSound_eq fun hx => ?_
  cases hx with
  | functions hx => exact hx.isSound_eq fun hx => InField.isSound_eq hx fun hx => hx.isSound_eq function
  | constants hx => exact hx.isSound_eq fun hx => InField.isSound_eq hx fun hx => hx.isSound_eq member
  | properties hx => exact hx.isSound_eq fun hx => InField.isSound_eq hx fun hx => hx.isSound_eq member

/-! ## Documents -/

theorem runtime?_eq (h : SectionEdit "object" ObjectEntry.Edited v v')
    (hd : v.depth + 2 ≤ maxDepth) (hd' : v'.depth + 2 ≤ maxDepth) : runtime? v' = runtime? v := by
  obtain ⟨x, x', hx, ⟨hr, hr'⟩ | ⟨hr, hr'⟩⟩ := read_single h
  · simp [runtime?, hr, hr']
  · have hlt := depth_lt_of_read hr (List.mem_singleton_self _)
    have hlt' := depth_lt_of_read hr' (List.mem_singleton_self _)
    have hdeep : x.depth + 3 ≤ maxDepth := by omega
    have hdeep' : x'.depth + 3 ≤ maxDepth := by omega
    simp [runtime?, hr, hr', entries?, isSound_object hx, hdeep, hdeep',
      ObjectEntry.blind.oneOrMany_eq hx]

/-- A record whose one field holds a section is read alike if the section is. -/
theorem nested?_eq {value : Edit} {inner : JsonValue → Option (Option (List ObjectEntry))}
    (h : InField [{ name }] name value v v')
    (hx : ∀ {x x'}, value x x' → ∃ key, Change key 0 1 x x')
    (hinner : ∀ {x x'}, value x x' → x.depth < v.depth → x'.depth < v'.depth → inner x' = inner x) :
    nested? name inner v' = nested? name inner v := by
  obtain ⟨x, x', hvalue, ⟨hr, hr'⟩ | ⟨hr, hr'⟩⟩ := read_single h
  · simp [nested?, hr, hr']
  · obtain ⟨key, hc⟩ := hx hvalue
    have heq := hinner hvalue (depth_lt_of_read hr (List.mem_singleton_self _))
      (depth_lt_of_read hr' (List.mem_singleton_self _))
    simp [nested?, hr, hr', hc.optional_eq heq]

theorem root?_eq (h : DocumentEdit v v') (hd : v.depth ≤ maxDepth) (hd' : v'.depth ≤ maxDepth) :
    root? v' = root? v := by
  refine nested?_eq h (fun hx => ⟨_, InField.change hx (by simp) rfl⟩) fun hx hlt hlt' => ?_
  refine nested?_eq hx (fun hy => ⟨_, SectionEdit.change hy⟩) fun hy hlt₂ hlt₂' => ?_
  rw [runtime?_eq hy (by omega) (by omega)]

/-- **A single value and the list of it alone** mean the same in a catalog, at every place where one
or many are allowed: the objects of the runtime section, the functions, constants and properties of
an object, the parameters of a function, and the descriptions of all these. Either both texts give
the same objects and aliases, or both are refused. The documents are not nested too deep to be
read. -/
theorem single_or_list_alike (text text' : String) (v v' : JsonValue)
    (h : JsonValue.parse? text = some v) (h' : JsonValue.parse? text' = some v')
    (hedit : DocumentEdit v v') (hd : v.depth ≤ maxDepth) (hd' : v'.depth ≤ maxDepth) :
    Catalog.parse text' = Catalog.parse text := by
  have hroot : root? v' = root? v := root?_eq hedit hd hd'
  unfold Catalog.parse
  rw [h, h']
  simp only [ofJson, hroot]

/-- A catalog with one function whose section of parameters is the list of a value. All records
but the object are lists. -/
def listedFunction (v : JsonValue) : JsonValue :=
  let function := .array [.string "f", .array [v], .null, .null]
  .array [.array [.array [.object [(some "functions", .array [function])]]]]

/-- Its text for a parameter. -/
def parameterText : String :=
  "[[[\x7b\"functions\":[[\"f\",[\x7b\"_name\":\"a\"\x7d],null,null]]\x7d]]]"

/-- Its text for the list of that parameter. -/
def parametersText : String :=
  "[[[\x7b\"functions\":[[\"f\",[[\x7b\"_name\":\"a\"\x7d]],null,null]]\x7d]]]"

/-- A parameter on its own is read like a list of it, here in a function that is itself a list. -/
theorem listedParameter_alike :
    Catalog.parse parametersText = Catalog.parse parameterText ∧ (Catalog.parse parameterText).isOk := by
  have hsingle : JsonValue.parse? parameterText =
      some (listedFunction (.object [(some "_name", .string "a")])) := by
    simp [listedFunction, parameterText, JsonValue.parse?, JsonValue.readValue, JsonValue.readItems,
      JsonValue.readMembers, JsonValue.readString, JsonValue.skip, JsonValue.isBlank]
  have hlist : JsonValue.parse? parametersText =
      some (listedFunction (.array [.object [(some "_name", .string "a")]])) := by
    simp [listedFunction, parametersText, JsonValue.parse?, JsonValue.readValue, JsonValue.readItems,
      JsonValue.readMembers, JsonValue.readString, JsonValue.skip, JsonValue.isBlank]
  refine ⟨single_or_list_alike _ _ _ _ hsingle hlist ?_ (by decide) (by decide), ?_⟩
  · refine .item [] [] rfl (by decide) (.item [] [] rfl (by decide) (.item [] [] rfl (by decide) ?_))
    refine .single (.functions (.member [] [] (.item [] [] rfl (by decide) ?_)))
    refine .single (.parameters (.item [.string "f"] [.null, .null] rfl (by decide) ?_))
    exact .item [] [] rfl (by decide) (.wrap nofun)
  · simp only [Catalog.parse, hsingle]
    rfl

end

end Catalog

end ScriptAtlas
