/-
The order of the objects in a catalog does not matter, as long as no qualified
name ends another one. A type code is looked up by the first alias that ends it.
Of two aliases that end one code the shorter one ends the longer one, so if no
alias ends another, at most one of them is found for a code, in whatever order
they stand. The rest carries this through the decoder of codes, which strips
brackets and wrappings from a code on its way to a class name, through the
members of an object, and through the two readings of a list.
-/
import Mathlib.Data.List.Perm.Basic
import ScriptAtlas.Proofs.PlatformCodes
import ScriptAtlas.Proofs.SingleOrList

namespace ScriptAtlas

open Text

/-! ## Aliases -/

/-- If no two elements are looked for, it does not matter where the one stands that is. -/
theorem find?_eq_of_perm {α : Type} {p : α → Bool} {l l' : List α} (h : l.Perm l')
    (hone : l.Pairwise fun a b => ¬ (p a = true ∧ p b = true)) : l.find? p = l'.find? p := by
  induction h with
  | nil => rfl
  | cons a h ih => rw [List.find?_cons, List.find?_cons, ih (List.pairwise_cons.1 hone).2]
  | swap a b l =>
    have hab : ¬ (p b = true ∧ p a = true) := (List.pairwise_cons.1 hone).1 a List.mem_cons_self
    simp only [List.find?_cons]
    cases ha : p a with
    | false => rfl
    | true =>
      cases hb : p b with
      | false => rfl
      | true => exact absurd ⟨hb, ha⟩ hab
  | trans h h' ih ih' =>
    have hsymm : ∀ {a b : α}, ¬ (p a = true ∧ p b = true) → ¬ (p b = true ∧ p a = true) :=
      fun hab hba => hab hba.symm
    rw [ih hone, ih' ((h.pairwise_iff hsymm).1 hone)]

namespace AliasTable

/-- No qualified name ends another one. -/
def Unambiguous (t : AliasTable) : Prop :=
  t.entries.Pairwise fun a b => ¬ a.1.toList <:+ b.1.toList ∧ ¬ b.1.toList <:+ a.1.toList

/-- **The order of aliases does not matter** if none ends another. -/
theorem resolveSuffix_eq_of_perm {t t' : AliasTable} (h : t.entries.Perm t'.entries)
    (ht : t.Unambiguous) (code : String) : t.resolveSuffix code = t'.resolveSuffix code := by
  have hone : t.entries.Pairwise fun a b => ¬ (a.1.toList.isSuffixOf code.toList = true ∧
      b.1.toList.isSuffixOf code.toList = true) := by
    refine List.Pairwise.imp ?_ ht
    rintro a b ⟨hab, hba⟩ ⟨ha, hb⟩
    rw [List.isSuffixOf_iff_suffix] at ha hb
    rcases List.suffix_or_suffix_of_suffix ha hb with hends | hends
    · exact hab hends
    · exact hba hends
  rw [resolveSuffix, resolveSuffix, find?_eq_of_perm h hone]

end AliasTable

/-! ## Codes -/

namespace PlatformType

section

variable {t t' : AliasTable} (h : ∀ name, t.resolveSuffix name = t'.resolveSuffix name)

include h

theorem classType_congr (code : List Char) : classType code t = classType code t' := by
  simp only [classType, h]

/-- A code is decoded alike with aliases that give every name alike. -/
theorem decodeChars_congr (code : List Char) : decodeChars t code = decodeChars t' code := by
  fun_induction decodeChars t code with
  | case1 code hcode => rw [decodeChars_eq, hcode, decodeTrimmed]
  | case2 code r object hcode depth hobject ih =>
    simp [decodeChars_eq t' code, hcode, decodeTrimmed, hobject, ih, depth]
  | case3 code r hcode depth hno =>
    rw [decodeChars_eq t' code, hcode, decodeTrimmed, if_pos rfl]
    split
    · rename_i object hobject
      exact absurd hobject (hno object)
    · rfl
  | case4 code r object hobject hcode hne ih =>
    simp [decodeChars_eq t' code, hcode, decodeTrimmed, hobject, ih]
  | case5 code c r hcode hne object hobject hwrapped =>
    simp [decodeChars_eq t' code, hcode, decodeTrimmed, hobject, hne, hwrapped, classType_congr h]
  | case6 code c r hcode hne hno name hname =>
    simp [decodeChars_eq t' code, hcode, decodeTrimmed, hno, hne, hname]
  | case7 code c r hcode hne hno hname =>
    simp [decodeChars_eq t' code, hcode, decodeTrimmed, hno, hne, hname, classType_congr h]

end

end PlatformType

/-! ## Lists of values -/

namespace JsonValue

theorem depths_eq_of_perm {vs ws : List JsonValue} (h : vs.Perm ws) : depths vs = depths ws := by
  induction h with
  | nil => rfl
  | cons v h ih => rw [depths, depths, ih]
  | swap v w vs => simp only [depths, Nat.max_left_comm]
  | trans h h' ih ih' => exact ih.trans ih'

theorem areSound_eq_of_perm {vs ws : List JsonValue} (h : vs.Perm ws) : areSound vs = areSound ws := by
  induction h with
  | nil => rfl
  | cons v h ih => rw [areSound, areSound, ih]
  | swap v w vs => simp only [areSound, Bool.and_left_comm]
  | trans h h' ih ih' => exact ih.trans ih'

end JsonValue

/-- A list is read as a whole if each of its items can be. -/
theorem mapM_eq_ite {α β : Type} (f : α → Option β) (l : List α) :
    l.mapM f = if l.all (f · |>.isSome) then some (l.filterMap f) else none := by
  induction l with
  | nil => rfl
  | cons a l ih =>
    rw [List.mapM_cons, ih]
    cases ha : f a with
    | none => simp [ha]
    | some b => cases hl : l.all (f · |>.isSome) <;> simp [ha, hl]

namespace Catalog

open Record

/-! ## Objects -/

section

variable {t t' : AliasTable} (h : ∀ name, t.resolveSuffix name = t'.resolveSuffix name)

include h

theorem typeOf_congr : typeOf t = typeOf t' :=
  funext fun code => PlatformType.decodeChars_congr h (code.getD "any").toList

theorem objectOf_congr : objectOf t = objectOf t' := by
  have hparam : paramOf t = paramOf t' := funext fun e => by simp only [paramOf, typeOf_congr h]
  have hfunction : functionOf t = functionOf t' :=
    funext fun e => by simp only [functionOf, hparam, typeOf_congr h]
  have hmember : memberOf t = memberOf t' := funext fun e => by simp only [memberOf, typeOf_congr h]
  exact funext fun e => by simp only [objectOf, hfunction, hmember]

end

/-- The alias that an item of the list gives, if it has both names. -/
def aliasOf? (item : JsonValue) : Option (String × String) := do
  let e ← ObjectEntry.read? item
  pure (← e.qualifiedName, ← e.scriptingName)

/-- The object that an item of the list is, if scripts can use it. -/
def shown? (aliases : AliasTable) (item : JsonValue) : Option ScriptObject := do
  let e ← ObjectEntry.read? item
  if isExposed e then some (objectOf aliases e) else none

/-- The aliases that a list of items gives. -/
def aliasTable (items : List JsonValue) : AliasTable := ⟨items.filterMap aliasOf?⟩

theorem aliasesOf_filterMap (items : List JsonValue) :
    aliasesOf (items.filterMap ObjectEntry.read?) = aliasTable items := by
  rw [aliasesOf, List.filterMap_filterMap]
  rfl

theorem filterMap_shown? (t : AliasTable) (items : List JsonValue) :
    ((items.filterMap ObjectEntry.read?).filter isExposed).map (objectOf t) = items.filterMap (shown? t) := by
  induction items with
  | nil => rfl
  | cons item items ih =>
    cases hitem : ObjectEntry.read? item with
    | none => simpa [shown?, hitem] using ih
    | some e =>
      by_cases he : isExposed e = true
      · simpa [shown?, hitem, he] using ih
      · simpa [shown?, hitem, he] using ih

/-- The catalog of items, one by one. -/
theorem ofEntries_filterMap (items : List JsonValue) : ofEntries (items.filterMap ObjectEntry.read?) =
    { objects := items.filterMap (shown? (aliasTable items)), aliases := aliasTable items } := by
  rw [ofEntries, aliasesOf_filterMap, filterMap_shown?]

/-- **An item is the same object wherever it stands,** and wherever the others do. -/
theorem shown?_eq_of_perm {items items' : List JsonValue} (h : items.Perm items')
    (hnames : (aliasTable items).Unambiguous) : shown? (aliasTable items) = shown? (aliasTable items') := by
  have hentries : (aliasTable items).entries.Perm (aliasTable items').entries := h.filterMap aliasOf?
  have hresolve := AliasTable.resolveSuffix_eq_of_perm hentries hnames
  funext item
  rw [shown?, shown?, objectOf_congr hresolve]

/-- Objects are the entries of a list, never the values of one entry. -/
theorem read?_of_objects {items : List JsonValue}
    (h : ∀ item ∈ items, ∃ members, item = .object members) :
    ObjectEntry.read? (.array items) = none := by
  cases items with
  | nil => rfl
  | cons item items =>
    obtain ⟨members, rfl⟩ := h item List.mem_cons_self
    have hread : read ObjectEntry.fields (.array (.object members :: items)) =
        (fromList ObjectEntry.fields.tail items).map (some (.object members) :: ·) := rfl
    rw [ObjectEntry.read?, ← ObjectEntry.fields, hread]
    cases hrest : fromList ObjectEntry.fields.tail items with
    | none => rfl
    | some vs =>
      simp only [Option.map_some, Option.bind_eq_bind, Option.bind_some]
      split
      · rename_i h
        cases h
        rfl
      · rfl

/-- Every item can be read, numbers, texts and depth included. -/
def areEntries (items : List JsonValue) : Bool :=
  ((JsonValue.array items).isSound && (JsonValue.array items).depth + 3 ≤ maxDepth) &&
    items.all (ObjectEntry.read? · |>.isSome)

theorem areEntries_eq_of_perm {items items' : List JsonValue} (h : items.Perm items') :
    areEntries items = areEntries items' := by
  have hsound : (JsonValue.array items).isSound = (JsonValue.array items').isSound :=
    JsonValue.areSound_eq_of_perm h
  have hdepth : (JsonValue.array items).depth = (JsonValue.array items').depth :=
    congrArg (· + 1) (JsonValue.depths_eq_of_perm h)
  rw [areEntries, areEntries, hsound, hdepth, h.all_eq]

theorem entries?_of_objects {items : List JsonValue}
    (h : ∀ item ∈ items, ∃ members, item = .object members) : entries? (.array items) =
      if areEntries items then some (items.filterMap ObjectEntry.read?) else none := by
  have hmany : oneOrMany ObjectEntry.read? (.array items) = items.mapM ObjectEntry.read? := by
    rw [Record.oneOrMany_eq, read?_of_objects h]
    simp [many?]
  rw [entries?, hmany, mapM_eq_ite, ← ite_and]
  simp only [areEntries, Bool.and_eq_true]

/-! ## Documents -/

/-- The first document has the one list of objects in its runtime section, the second one the other,
and all else is the same. -/
def ObjectsReplaced (items items' : List JsonValue) : Edit :=
  InField [{ name := "servoydoc" }] "servoydoc"
    (InField [{ name := "runtime" }] "runtime"
      (InField [{ name := "object", hasDefault := true }] "object"
        fun v v' => v = .array items ∧ v' = .array items'))

section

variable {name : String} {v v' : JsonValue}

/-- A section that is there is looked into. -/
theorem nested?_of_read {x : JsonValue} (h : read [{ name }] v = some [some x]) (hx : x ≠ .null)
    (inner : JsonValue → Option (Option (List ObjectEntry))) : nested? name inner v = inner x := by
  have hoptional : Record.optional inner (some x) = (inner x).map some := by
    cases x with
    | null => exact absurd rfl hx
    | _ => rfl
  simp only [nested?, h, Option.bind_eq_bind, Option.bind_some, hoptional]
  cases inner x <;> rfl

theorem nested?_of_field {fields : List Field} {field : String} {value : Edit}
    (h : InField [{ name }] name (InField fields field value) v v')
    (inner : JsonValue → Option (Option (List ObjectEntry))) :
    (nested? name inner v = none ∧ nested? name inner v' = none) ∨
      ∃ x x', InField fields field value x x' ∧ nested? name inner v = inner x ∧
        nested? name inner v' = inner x' := by
  obtain ⟨x, x', hx, ⟨hr, hr'⟩ | ⟨hr, hr'⟩⟩ := read_single h
  · exact .inl ⟨by simp [nested?, hr], by simp [nested?, hr']⟩
  · have hnull : x ≠ .null ∧ x' ≠ .null := by
      cases hx with
      | member => simp
      | item => simp
    exact .inr ⟨x, x', hx, nested?_of_read hr hnull.1 inner, nested?_of_read hr' hnull.2 inner⟩

/-- Both documents are refused, or the two lists are looked at. -/
theorem root?_of_replaced {items items' : List JsonValue} (h : ObjectsReplaced items items' v v') :
    (root? v = none ∧ root? v' = none) ∨ (root? v = (entries? (.array items)).map some ∧
      root? v' = (entries? (.array items')).map some) := by
  obtain hnone | ⟨x, x', hx, hv, hv'⟩ :=
    nested?_of_field h (nested? "runtime" fun v => (runtime? v).map some)
  · exact .inl hnone
  obtain ⟨hn, hn'⟩ | ⟨y, y', hy, hw, hw'⟩ := nested?_of_field hx fun v => (runtime? v).map some
  · exact .inl ⟨hv.trans hn, hv'.trans hn'⟩
  obtain ⟨z, z', ⟨rfl, rfl⟩, ⟨hr, hr'⟩ | ⟨hr, hr'⟩⟩ := read_single hy
  · refine .inl ⟨hv.trans (hw.trans ?_), hv'.trans (hw'.trans ?_)⟩
    · simp [runtime?, hr]
    · simp [runtime?, hr']
  · refine .inr ⟨hv.trans (hw.trans ?_), hv'.trans (hw'.trans ?_)⟩
    · simp [runtime?, hr]
    · simp [runtime?, hr']

end

/-- **The order of objects in a catalog does not matter,** if no qualified name of an object with both
names ends that of another. An item of the list gives the same object in any order, functions, constants
and properties included, or is left out in any order; and the objects stand in the order of the items.
A catalog that is refused is refused in any order. -/
theorem objects_in_any_order (text text' : String) (v v' : JsonValue) (items items' : List JsonValue)
    (h : JsonValue.parse? text = some v) (h' : JsonValue.parse? text' = some v')
    (hdoc : ObjectsReplaced items items' v v') (hperm : items.Perm items')
    (hobjects : ∀ item ∈ items, ∃ members, item = .object members)
    (hnames : (aliasTable items).Unambiguous) :
    (Catalog.parse text = .error .malformed ∧ Catalog.parse text' = .error .malformed) ∨
      ∃ c c', Catalog.parse text = .ok c ∧ Catalog.parse text' = .ok c' ∧
        c.objects = items.filterMap (shown? c.aliases) ∧
        c'.objects = items'.filterMap (shown? c.aliases) := by
  have hobjects' : ∀ item ∈ items', ∃ members, item = .object members :=
    fun item hi => hobjects item (hperm.mem_iff.2 hi)
  have hparse : Catalog.parse text = ofJson v := by simp only [Catalog.parse, h]
  have hparse' : Catalog.parse text' = ofJson v' := by simp only [Catalog.parse, h']
  have hroot := root?_of_replaced hdoc
  rw [entries?_of_objects hobjects, entries?_of_objects hobjects', areEntries_eq_of_perm hperm] at hroot
  rw [hparse, hparse', ofJson, ofJson]
  obtain ⟨hv, hv'⟩ | ⟨hv, hv'⟩ := hroot
  · exact .inl ⟨by rw [hv], by rw [hv']⟩
  by_cases hall : areEntries items' = true
  · rw [if_pos hall] at hv hv'
    rw [hv, hv']
    refine .inr ⟨_, _, rfl, rfl, ?_⟩
    rw [ofEntries_filterMap, ofEntries_filterMap]
    exact ⟨rfl, by rw [shown?_eq_of_perm hperm hnames]⟩
  · rw [if_neg hall] at hv hv'
    exact .inl ⟨by rw [hv]; rfl, by rw [hv']; rfl⟩

/-- An object with a function that returns an array of the other object. -/
def referringText : String :=
  "\x7b\"_scriptingName\":\"a\",\"_qualifiedName\":\"A\",\"functions\":[[\"f\",null,[\"[LBb;\"],null]]\x7d"

/-- The object that is referred to. -/
def referredText : String := "\x7b\"_scriptingName\":\"b\",\"_qualifiedName\":\"Bb\"\x7d"

/-- A catalog with a list of two objects. All records around it are lists. -/
def listedText (first second : String) : String := "[[[[" ++ first ++ "," ++ second ++ "]]]]"

/-- The value of `referringText`. -/
def referringItem : JsonValue :=
  .object [(some "_scriptingName", .string "a"), (some "_qualifiedName", .string "A"),
    (some "functions", .array [.array [.string "f", .null, .array [.string "[LBb;"], .null]])]

/-- The value of `referredText`. -/
def referredItem : JsonValue :=
  .object [(some "_scriptingName", .string "b"), (some "_qualifiedName", .string "Bb")]

/-- The value of `listedText`. -/
def listedObjects (items : List JsonValue) : JsonValue := .array [.array [.array [.array items]]]

/-- A reference to a later object resolves like one to an earlier object. -/
theorem forwardReference_resolved : ∃ c c',
    Catalog.parse (listedText referringText referredText) = .ok c ∧
    Catalog.parse (listedText referredText referringText) = .ok c' ∧
    c'.objects = c.objects.reverse ∧ c.objects.map (·.name) = ["a", "b"] ∧
    c.objects.flatMap (·.functions.map (·.returns)) = [(TypeInfo.named "b").intoArray 1] := by
  have hforward : JsonValue.parse? (listedText referringText referredText) =
      some (listedObjects [referringItem, referredItem]) := by
    simp [listedText, referringText, referredText, listedObjects, referringItem, referredItem,
      JsonValue.parse?, JsonValue.readValue, JsonValue.readItems, JsonValue.readMembers,
      JsonValue.readString, JsonValue.skip, JsonValue.isBlank]
  have hbackward : JsonValue.parse? (listedText referredText referringText) =
      some (listedObjects [referredItem, referringItem]) := by
    simp [listedText, referringText, referredText, listedObjects, referringItem, referredItem,
      JsonValue.parse?, JsonValue.readValue, JsonValue.readItems, JsonValue.readMembers,
      JsonValue.readString, JsonValue.skip, JsonValue.isBlank]
  have hdoc : ObjectsReplaced [referringItem, referredItem] [referredItem, referringItem]
      (listedObjects [referringItem, referredItem]) (listedObjects [referredItem, referringItem]) :=
    .item [] [] rfl (by decide) (.item [] [] rfl (by decide) (.item [] [] rfl (by decide) ⟨rfl, rfl⟩))
  have hnames : (aliasTable [referringItem, referredItem]).Unambiguous := by
    have haliases : aliasTable [referringItem, referredItem] = ⟨[("A", "a"), ("Bb", "b")]⟩ := by
      decide +kernel
    rw [haliases, AliasTable.Unambiguous]
    decide
  have hobjects : ∀ item ∈ [referringItem, referredItem], ∃ members, item = .object members := by
    simp [referringItem, referredItem]
  have hread : (Catalog.parse (listedText referringText referredText)).toOption.map (fun c =>
      (c.objects.map (·.name), c.objects.flatMap (·.functions.map (·.returns)))) =
      some (["a", "b"], [typeOf ⟨[("A", "a"), ("Bb", "b")]⟩ (some "[LBb;")]) := by
    simp only [Catalog.parse, hforward]
    rfl
  have hreturn : typeOf ⟨[("A", "a"), ("Bb", "b")]⟩ (some "[LBb;") =
      (TypeInfo.named "b").intoArray 1 := by
    rw [typeOf, PlatformType.decode, PlatformType.decodeChars_eq]
    change (PlatformType.decodeChars _ ['B', 'b']).intoArray 1 = _
    rw [PlatformType.decodeChars_eq]
    rfl
  rw [hreturn] at hread
  obtain ⟨hrefused, -⟩ | ⟨c, c', hc, hc', hobj, hobj'⟩ := objects_in_any_order _ _ _ _ _ _ hforward
    hbackward hdoc (.swap _ _ []) hobjects hnames
  · rw [hrefused] at hread
    cases hread
  · rw [hc] at hread
    obtain ⟨hshown, hreturns⟩ := Prod.mk.inj (Option.some.inj hread)
    refine ⟨c, c', hc, hc', ?_, hshown, hreturns⟩
    rw [hobj', hobj, ← List.filterMap_reverse]
    rfl

end Catalog

end ScriptAtlas
