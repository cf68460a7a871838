/-
The display form of a type is a type expression, and reading it gives the type
back, as far as the form tells it: the mark for an optional value is not shown,
and one pair of brackets stands for any number of array levels (`shown`).

A type has a display form that can be read if its name is one that an expression
can hold in that place (`Readable`). An expression without quotes stands for such
a type: this goes by induction on how it was read (`Derives.readable`), since only
a quoted literal can bring in another name. The display form is then read by
other rules than those the expression was read by: arrays by the mark behind
them, unions and records as the plain names `any` and `unknown`.
-/
import ScriptAtlas.Proofs.TextLaws
import ScriptAtlas.Proofs.TypeForm
import ScriptAtlas.Proofs.TypeRoundTrip

namespace ScriptAtlas

open DocType Text

/-! ## What a display form tells -/

namespace TypeInfo

mutual

/-- The type as its display form tells it, at every level of generic arguments: not optional, and with
one array level if it has any. -/
def shown : TypeInfo → TypeInfo
  | ⟨name, _, isArray, arrayDepth, args, table⟩ =>
    ⟨name, false, isArray, if isArray then 1 else arrayDepth, shownAll args, table⟩

/-- Several types as their display forms tell them. -/
def shownAll : List TypeInfo → List TypeInfo
  | [] => []
  | t :: ts => shown t :: shownAll ts

end

theorem shownAll_eq_map (ts : List TypeInfo) : shownAll ts = ts.map shown := by
  induction ts with
  | nil => rfl
  | cons t ts ih => rw [shownAll, ih, List.map_cons]

@[simp] theorem name_shown (t : TypeInfo) : t.shown.name = t.name := by
  cases t
  rfl

@[simp] theorem dbTableRef_shown (t : TypeInfo) : t.shown.dbTableRef = t.dbTableRef := by
  cases t
  rfl

theorem genericArgs_shown (t : TypeInfo) : t.shown.genericArgs = t.genericArgs.map shown := by
  cases t
  exact shownAll_eq_map _

theorem tableOf_shownAll (ts : List TypeInfo) : tableOf (shownAll ts) = tableOf ts := by
  cases ts with
  | nil => rfl
  | cons t ts => simp [shownAll, tableOf]

/-! ## Types whose display forms can be read -/

/-- A name that stands for itself as an expression: a word that is not written in another case, or the
path of a table. -/
def IsPlain (name : String) : Prop :=
  (Dotted name.toList ∧ namedType name = .named name) ∨
    ∃ path, name.toList = "db:/".toList ++ path ∧ ∀ c ∈ path, isTableChar c = true

mutual

/-- The type without arguments has a plain name, one with arguments a name that can be applied; it has
array levels only as an array, and its table is that of its first argument. -/
def Readable : TypeInfo → Prop
  | ⟨name, _, isArray, arrayDepth, args, table⟩ =>
    (isArray = false → arrayDepth = 0) ∧ table = tableOf args ∧ (args = [] → IsPlain name) ∧
      (args ≠ [] → Dotted name.toList ∧ name ≠ "Array") ∧ AllReadable args

/-- The display forms of all the types can be read. -/
def AllReadable : List TypeInfo → Prop
  | [] => True
  | t :: ts => t.Readable ∧ AllReadable ts

end

section

variable {t : TypeInfo} {ts : List TypeInfo} {n : String}

theorem readable_named (h : IsPlain n) : (named n).Readable :=
  ⟨fun _ => rfl, rfl, fun _ => h, fun hne => absurd rfl hne, trivial⟩

theorem Readable.intoOptional (h : t.Readable) : t.intoOptional.Readable := by
  cases t
  exact h

theorem Readable.intoArray (h : t.Readable) : (t.intoArray 1).Readable := by
  cases t
  exact ⟨by simp, h.2⟩

/-- The names that are given to what is not a name. -/
theorem isPlain_of_mem (h : n ∈ "any" :: "unknown" :: "Function" :: primitives) : IsPlain n := by
  simp only [primitives, List.mem_cons, List.not_mem_nil, or_false] at h
  rcases h with rfl | rfl | rfl | rfl | rfl | rfl | rfl | rfl | rfl | rfl
  all_goals exact .inl ⟨.one ⟨_, _, rfl, by decide, List.all_eq_true.1 (by decide)⟩, by decide⟩

theorem readable_any : any.Readable := readable_named (isPlain_of_mem (by simp))

theorem readable_unknown : unknown.Readable := readable_named (isPlain_of_mem (by simp))

theorem readable_namedType (h : Dotted n.toList) : (namedType n).Readable := by
  by_cases harray : n = "Array"
  · rw [namedType, if_pos harray]
    exact readable_unknown.intoArray
  · unfold namedType
    rw [if_neg harray]
    extract_lets low
    split
    · rename_i hlow
      have hmem : low ∈ primitives := List.contains_iff_mem.1 hlow
      exact readable_named (isPlain_of_mem (by simp [hmem]))
    · rename_i hlow
      refine readable_named (.inl ⟨h, ?_⟩)
      rw [namedType, if_neg harray]
      exact if_neg hlow

theorem allReadable_iff : AllReadable ts ↔ ∀ t ∈ ts, t.Readable := by
  induction ts with
  | nil => simp [AllReadable]
  | cons t ts ih => simp [AllReadable, ih]

end

end TypeInfo

namespace DocType

open TypeInfo

/-! ## Expressions without quotes -/

section

variable {s r : List Char} {t : DocType} {ts : List DocType}

/-- There is no quote in the text. -/
def NoQuote (s : List Char) : Prop := '\x22' ∉ s ∧ '\x27' ∉ s

theorem NoQuote.of_suffix (h : NoQuote s) (hs : r <:+ s) : NoQuote r :=
  ⟨fun hmem => h.1 (hs.subset hmem), fun hmem => h.2 (hs.subset hmem)⟩

theorem types_eq_map (ts : List DocType) : types ts = ts.map type := by
  induction ts with
  | nil => rfl
  | cons t ts ih => rw [types, ih, List.map_cons]

theorem readable_firstType (h : ∀ t ∈ ts, t.type.Readable) : (firstType ts).Readable := by
  cases ts with
  | nil => exact readable_unknown
  | cons t ts => exact h t List.mem_cons_self

theorem readable_application {n : String} (hn : Dotted n.toList) (hne : ts ≠ [])
    (h : ∀ t ∈ ts, t.type.Readable) : (type (.application (.name n) ts)).Readable := by
  rw [type]
  split
  · exact (readable_firstType h).intoArray
  · rename_i harray
    rw [types_eq_map]
    refine ⟨fun _ => rfl, rfl, ?_, fun _ => ⟨hn, harray⟩, allReadable_iff.2 (by simpa using h)⟩
    simp [hne]

theorem readable_suffixed (h : t.type.Readable) (s : List Char) : (suffixed t s).1.type.Readable := by
  unfold suffixed
  fun_induction suffixes t s with
  | case1 t s r hs _ t' r' heq ih =>
    rw [heq] at ih
    exact ih (readable_application dotted_array (by simp) (by simpa using h))
  | case2 t s r hs _ t' r' heq ih =>
    rw [heq] at ih
    exact ih h.intoOptional
  | case3 => exact h

/-- **Without quotes, what is read stands for a type whose display form can be read.** By induction on
how it was read: the rule for quoted literals does not apply, and no other one lets a name through
that is neither a word nor the path of a table. -/
theorem Derives.readable {rule : Rule} (h : Derives rule s ts r) (hq : NoQuote s) :
    ∀ t ∈ ts, t.type.Readable := by
  induction h with
  | @union _ _ _ t ts ht _ iht ihts =>
    have hfirst := iht hq t List.mem_cons_self
    cases ts with
    | nil => exact List.forall_mem_singleton.2 hfirst
    | cons u us => exact List.forall_mem_singleton.2 readable_any
  | noMember | noItem => exact List.forall_mem_nil _
  | member h ht _ iht ihts =>
    have hq₁ := hq.of_suffix (suffix_of_tail? h)
    exact List.forall_mem_cons.2 ⟨iht hq₁ _ List.mem_cons_self, ihts (hq₁.of_suffix ht.suffix)⟩
  | item h ht _ iht ihts =>
    have hq₁ := hq.of_suffix (suffix_of_tail? h)
    exact List.forall_mem_cons.2 ⟨iht hq₁ _ List.mem_cons_self, ihts (hq₁.of_suffix ht.suffix)⟩
  | unknown => exact List.forall_mem_singleton.2 readable_unknown
  | nullable h _ _ iht =>
    have hread := iht (hq.of_suffix (suffix_of_tail? h)) _ List.mem_cons_self
    exact List.forall_mem_singleton.2 hread
  | required _ h _ iht => exact iht (hq.of_suffix (suffix_of_tail? h))
  | rest _ _ h _ iht =>
    exact iht (hq.of_suffix ((suffix_of_behind? h).trans (suffix_trimStart _)))
  | @posted _ r₁ _ t _ _ _ _ _ hu iht =>
    have hread := readable_suffixed (iht hq t List.mem_cons_self) r₁
    rw [hu] at hread
    exact List.forall_mem_singleton.2 hread
  | grouped hs _ _ iht => exact iht (hq.of_suffix (suffix_of_trimStart hs))
  | all => exact List.forall_mem_singleton.2 readable_any
  | quoted hs hquote =>
    have hmem := (suffix_trimStart _).subset (hs ▸ List.mem_cons_self)
    rcases hquote with rfl | rfl
    · exact absurd hmem hq.1
    · exact absurd hmem hq.2
  | record => exact List.forall_mem_singleton.2 readable_unknown
  | array hs _ ihts =>
    have hread := ihts (hq.of_suffix (suffix_of_trimStart hs))
    exact List.forall_mem_singleton.2 (readable_firstType hread).intoArray
  | @table _ s₁ _ =>
    refine List.forall_mem_singleton.2 (readable_named (.inr ⟨s₁.takeWhile isTableChar, ?_, ?_⟩))
    · exact String.toList_ofList
    · exact List.all_eq_true.1 List.all_takeWhile
  | named hs _ _ _ iht => exact iht (hq.of_suffix (hs ▸ suffix_trimStart _))
  | function | returning =>
    exact List.forall_mem_singleton.2 (readable_named (isPlain_of_mem (by simp)))
  | name _ hdotted =>
    refine List.forall_mem_singleton.2 (readable_namedType ?_)
    rwa [String.toList_ofList]
  | @application s r₀ _ _ _ _ _ hn hdotted _ hangle hts ihts =>
    have hread := ihts (hq.of_suffix ((suffix_of_angle? hangle).trans (suffix_of_dottedName hn)))
    refine List.forall_mem_singleton.2 (readable_application ?_ hts.ne_nil_of_list hread)
    rwa [String.toList_ofList]
  | list _ ht _ _ iht ihts =>
    exact List.forall_mem_cons.2 ⟨iht hq _ List.mem_cons_self, ihts (hq.of_suffix ht.suffix)⟩

theorem readable_of_parse? {e : String} (h : parse? e = some t) (hq : NoQuote e.toList) :
    t.type.Readable := by
  obtain ⟨r, hread, -⟩ := parse?_eq_some_iff.1 h
  exact hread.readable hq t List.mem_cons_self

end

/-! ## Reading what stands before the brackets -/

section

variable {base s rest : List Char} {n : String} {u : DocType}

/-- The text is read as `u` before the mark for an array and before whatever can follow a type. -/
structure ReadsBase (base : List Char) (u : DocType) : Prop where
  plain : Plain base
  primary : ∀ {rest}, Stops baseEnds rest → primary? (base ++ rest) = some (u, rest)

theorem readsBase_name (hn : Dotted n.toList) : ReadsBase n.toList (.name n) where
  plain := hn.plain
  primary := fun hrest =>
    primary?_name hn (hrest.mono (by decide)) (hrest.tail? (by decide) (by decide)) hrest.angle?

theorem readsBase_table {path : List Char} (hn : n.toList = "db:/".toList ++ path)
    (hpath : ∀ c ∈ path, isTableChar c = true) : ReadsBase n.toList (.stringLiteral n) := by
  have hlead (s : List Char) : "db:/".toList ++ s = 'd' :: 'b' :: ':' :: '/' :: s := rfl
  constructor
  · rw [hn, hlead]
    exact ⟨'d', _, rfl, by decide, by decide, by decide⟩
  · intro rest hrest
    have hstop : ∀ c ∈ rest.head?, isTableChar c = false := fun c hc =>
      not_mem_class (by decide +kernel) c (hrest c hc)
    have htrim : trimStart (n.toList ++ rest) = "db:/".toList ++ (path ++ rest) := by
      rw [hn, List.append_assoc, hlead]
      exact trimStart_cons (by decide)
    have hread := Derives.table htrim
    rw [takeWhile_run hpath hstop, dropWhile_run hpath hstop, ← hn, String.ofList_toList] at hread
    exact single_eq_some_iff.1 hread.read_eq

theorem ReadsBase.unary (h : ReadsBase base u) (hrest : Stops baseEnds rest) :
    unary? (base ++ rest) = some (suffixed u rest) := by
  rw [unary?_plain (h.plain.append rest), posted?, h.primary hrest]
  rfl

/-- A base and the mark for an array, if there is one. -/
theorem ReadsBase.union (h : ReadsBase base u) (isArray : Bool) (hrest : Stops typeEnds rest) :
    union? (base ++ (if isArray then ['[', ']'] else []) ++ rest) =
      some (if isArray then .application (.name "Array") [u] else u, rest) := by
  have hmember : Stops memberEnds rest := hrest.mono (by decide)
  rw [List.append_assoc]
  refine union?_of_unary? hrest ?_
  cases isArray with
  | false =>
    have hunary := h.unary (hrest.mono (by decide))
    rwa [hmember.suffixed] at hunary
  | true =>
    have hunary := h.unary (stops_cons (show '[' ∈ baseEnds by decide) : Stops _ ('[' :: ']' :: rest))
    rwa [suffixed_brackets, hmember.suffixed] at hunary

/-- A blank before a type is skipped. -/
theorem union?_blank (s : List Char) : union? (' ' :: s) = union? s := by
  have htrim : trimStart (' ' :: s) = trimStart s := rfl
  have htail (c : Char) : tail? c (' ' :: s) = tail? c s := by rw [tail?_eq, tail?_eq, htrim]
  have hposted : posted? (' ' :: s) = posted? s := by
    rw [posted?, posted?, primary?_eq, primary?_eq s, htrim]
  rw [union?_eq, union?_eq s, unary?_eq, unary?_eq s, htail, htail, htrim, hposted]

end

/-! ## Reading display forms -/

/-- **The display form is read** as an expression that stands for what it tells of the type. -/
structure ReadsAs (t : TypeInfo) (u : DocType) : Prop where
  type : u.type = t.shown
  whole : ∀ {rest}, Stops typeEnds rest → union? (t.text.toList ++ rest) = some (u, rest)

/-- The display forms of several types, with a comma and a blank before each. -/
def itemsText : List TypeInfo → List Char
  | [] => []
  | t :: ts => ',' :: ' ' :: (t.text.toList ++ itemsText ts)

/-- The display form up to the mark for an array. -/
def baseText (name : String) : List TypeInfo → List Char
  | [] => name.toList
  | t :: ts => name.toList ++ '<' :: (t.text.toList ++ (itemsText ts ++ ['>']))

section

variable {t : TypeInfo} {ts : List TypeInfo} {us : List DocType} {rest : List Char}

theorem toList_intercalate_texts (t : TypeInfo) (ts : List TypeInfo) :
    (", ".intercalate (texts (t :: ts))).toList = t.text.toList ++ itemsText ts := by
  induction ts generalizing t with
  | nil => simp [texts, itemsText]
  | cons u us ih =>
    have hcomma : ", ".toList = [',', ' '] := rfl
    rw [texts, texts, String.intercalate_cons_cons, String.toList_append, String.toList_append, ← texts,
      ih, hcomma, itemsText]
    simp

theorem toList_text (name : String) (opt isArray : Bool) (depth : UInt32) (args : List TypeInfo)
    (table : Option String) : (text ⟨name, opt, isArray, depth, args, table⟩).toList =
      baseText name args ++ (if isArray then ['[', ']'] else []) := by
  have hmark : (if isArray then "[]" else "").toList = if isArray then ['[', ']'] else [] := by
    cases isArray <;> rfl
  cases args with
  | nil =>
    rw [text, String.toList_append, hmark]
    simp [baseText]
  | cons t ts =>
    rw [text, String.toList_append, hmark, List.isEmpty_cons, if_neg (by decide)]
    simp only [String.toList_append, toList_intercalate_texts, baseText]
    simp

theorem stops_itemsText (ts : List TypeInfo) (hrest : Stops listEnds rest) :
    Stops typeEnds (itemsText ts ++ rest) := by
  cases ts with
  | nil => exact hrest.mono (by decide)
  | cons t ts => exact stops_cons (by decide)

theorem items?_itemsText (h : List.Forall₂ ReadsAs ts us) (hrest : Stops listEnds rest) :
    items? (itemsText ts ++ rest) = some (us, rest) := by
  induction h with
  | nil => rw [itemsText, List.nil_append, items?_eq, hrest.tail? (by decide) (by decide)]
  | @cons t u ts us hread _ ih =>
    rw [itemsText, List.cons_append, List.cons_append, List.append_assoc, items?_eq,
      tail?_self (by decide)]
    simp only [union?_blank, hread.whole (stops_itemsText ts hrest), ih, Option.bind_some,
      Option.map_some]

theorem types_eq_shownAll (h : List.Forall₂ ReadsAs ts us) : types us = shownAll ts := by
  induction h with
  | nil => rfl
  | cons hread _ ih => rw [types, shownAll, hread.type, ih]

theorem readsBase_application {n : String} {u : DocType} (hn : Dotted n.toList)
    (h : List.Forall₂ ReadsAs (t :: ts) (u :: us)) :
    ReadsBase (baseText n (t :: ts)) (.application (.name n) (u :: us)) := by
  obtain ⟨hread, hreads⟩ := List.forall₂_cons.1 h
  constructor
  · exact hn.plain.append _
  · intro rest hrest
    have hclose : Stops listEnds ('>' :: rest) := stops_cons (by decide)
    have hlist : list? '>' (t.text.toList ++ (itemsText ts ++ '>' :: rest)) = some (u :: us, rest) := by
      rw [list?_eq, hread.whole (stops_itemsText ts hclose), Option.bind_some,
        items?_itemsText hreads hclose, Option.bind_some, tail?_self (by decide)]
      rfl
    have htext : baseText n (t :: ts) ++ rest =
        n.toList ++ '<' :: (t.text.toList ++ (itemsText ts ++ '>' :: rest)) := by simp [baseText]
    rw [htext]
    exact primary?_application hn hlist

/-- The base of a display form stands for the type without its array levels. -/
theorem exists_readsBase {name : String} (hplain : ts = [] → IsPlain name)
    (hname : ts ≠ [] → Dotted name.toList ∧ name ≠ "Array") (h : List.Forall₂ ReadsAs ts us) :
    ∃ u, ReadsBase (baseText name ts) u ∧
      u.type = ⟨name, false, false, 0, shownAll ts, tableOf ts⟩ := by
  cases h with
  | nil =>
    rcases hplain rfl with ⟨hn, htype⟩ | ⟨path, hn, hpath⟩
    · exact ⟨.name name, readsBase_name hn, htype⟩
    · exact ⟨.stringLiteral name, readsBase_table hn hpath, rfl⟩
  | cons hread hreads =>
    obtain ⟨hn, harray⟩ := hname (by simp)
    have hall := List.Forall₂.cons hread hreads
    refine ⟨_, readsBase_application hn hall, ?_⟩
    rw [type, if_neg harray, types_eq_shownAll hall, ← tableOf_shownAll]

theorem ReadsBase.readsAs {name : String} {u : DocType} {opt isArray : Bool} {depth : UInt32}
    {table : Option String} (h : ReadsBase (baseText name ts) u)
    (htype : u.type = ⟨name, false, false, 0, shownAll ts, table⟩)
    (hdepth : isArray = false → depth = 0) :
    ReadsAs ⟨name, opt, isArray, depth, ts, table⟩
      (if isArray then .application (.name "Array") [u] else u) := by
  constructor
  · cases isArray with
    | false =>
      rw [hdepth rfl]
      exact htype
    | true =>
      have harray : type (.application (.name "Array") [u]) = u.type.intoArray 1 := by
        rw [type, if_pos rfl, firstType]
      exact harray.trans (htype ▸ rfl)
  · intro rest hrest
    rw [toList_text]
    exact h.union isArray hrest

end

mutual

/-- Every display form that can be read is read. The induction is on the type: the arguments have been
read as expressions, and the name before them is read as one that is applied to these. -/
theorem exists_readsAs : (t : TypeInfo) → t.Readable → ∃ u, ReadsAs t u
  | ⟨_, _, _, _, args, _⟩, ⟨hdepth, htable, hplain, hname, hargs⟩ => by
    obtain ⟨us, hus⟩ := exists_readsAs_all args hargs
    obtain ⟨u, hbase, htype⟩ := exists_readsBase hplain hname hus
    exact ⟨_, hbase.readsAs (htable ▸ htype) hdepth⟩

theorem exists_readsAs_all : (ts : List TypeInfo) → AllReadable ts → ∃ us, List.Forall₂ ReadsAs ts us
  | [], _ => ⟨[], .nil⟩
  | t :: ts, ⟨ht, hts⟩ => by
    obtain ⟨u, hu⟩ := exists_readsAs t ht
    obtain ⟨us, hus⟩ := exists_readsAs_all ts hts
    exact ⟨u :: us, .cons hu hus⟩

end

theorem readable_ofDoc {e : String} (hq : NoQuote e.toList) : (ofDoc e).Readable := by
  unfold ofDoc
  split
  · rename_i t h
    exact readable_of_parse? h hq
  · exact readable_unknown

/-- **Display forms are read back.** For an expression without quotes, the display form of its type can
be read, and stands for the same type up to what the form does not tell: name, table and generic
arguments are those of the type, none of them is optional, and arrays have one level. -/
theorem display_read_back (e : String) (hdouble : '\x22' ∉ e.toList) (hsingle : '\x27' ∉ e.toList) :
    (parse? (ofDoc e).text).isSome = true ∧ ofDoc (ofDoc e).text = (ofDoc e).shown ∧
      (ofDoc (ofDoc e).text).name = (ofDoc e).name ∧
      (ofDoc (ofDoc e).text).dbTableRef = (ofDoc e).dbTableRef ∧
      (ofDoc (ofDoc e).text).genericArgs = (ofDoc e).genericArgs.map shown := by
  obtain ⟨u, hu⟩ := exists_readsAs _ (readable_ofDoc ⟨hdouble, hsingle⟩)
  have hunion : union? (ofDoc e).text.toList = some (u, []) := by
    simpa using hu.whole stops_nil
  have hparse := parse?_of_union? hunion
  have hread : ofDoc (ofDoc e).text = (ofDoc e).shown := by
    rw [ofDoc, hparse]
    exact hu.type
  refine ⟨by rw [hparse]; rfl, hread, ?_⟩
  rw [hread]
  exact ⟨name_shown _, dbTableRef_shown _, genericArgs_shown _⟩

/-- The arguments of a type of rows: a table, and what the rows hold. -/
def rowArgs : List TypeInfo := [.named "db:/app/users", .named "string"]

theorem allReadable_rowArgs : AllReadable rowArgs := by
  have htable : IsPlain "db:/app/users" :=
    .inr ⟨"app/users".toList, rfl, List.all_eq_true.1 (by decide +kernel)⟩
  exact ⟨readable_named htable, readable_named (isPlain_of_mem (by simp [primitives])), trivial⟩

theorem rows_read_back :
    ofDoc "DataSet<db:/app/users, string>[][]=" =
        ⟨"DataSet", true, true, 2, rowArgs, some "app/users"⟩ ∧
      ofDoc "DataSet<db:/app/users, string>[]" =
        ⟨"DataSet", false, true, 1, rowArgs, some "app/users"⟩ := by
  have hname : Dotted "DataSet".toList := .one ⟨_, _, rfl, by decide, List.all_eq_true.1 (by decide)⟩
  obtain ⟨us, hus⟩ := exists_readsAs_all rowArgs allReadable_rowArgs
  obtain ⟨u, hbase, htype⟩ := exists_readsBase (by simp [rowArgs]) (fun _ => ⟨hname, by decide⟩) hus
  have htext : "DataSet<db:/app/users, string>[][]=".toList =
      baseText "DataSet" rowArgs ++ ['[', ']', '[', ']', '='] := by decide +kernel
  have hunion : union? "DataSet<db:/app/users, string>[][]=".toList =
      some (.optional (.application (.name "Array") [.application (.name "Array") [u]]), []) := by
    refine union?_of_unary? stops_nil ?_
    rw [htext, hbase.unary (stops_cons (by decide)), suffixed_brackets, suffixed_brackets,
      suffixed_equals, stops_nil.suffixed]
  have hrows : ofDoc "DataSet<db:/app/users, string>[][]=" =
      ⟨"DataSet", true, true, 2, rowArgs, some "app/users"⟩ := by
    rw [ofDoc, parse?_of_union? hunion]
    simp only [type, firstType, htype, if_true]
    decide +kernel
  have hback := (display_read_back "DataSet<db:/app/users, string>[][]=" (by decide) (by decide)).2.1
  rw [hrows] at hback
  exact ⟨hrows, hback⟩

end DocType

end ScriptAtlas
