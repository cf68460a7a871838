/-
Type expressions are read as they are written. `print` gives the text of an
expression. `Reads` says that it is read back in each of the places where it
can stand, and holds of every well-formed expression (`reads`). With the
soundness of the readers, they accept exactly the well-formed expressions.
-/
import ScriptAtlas.Proofs.TypeSoundness

namespace ScriptAtlas.DocType

open Text

/-! ## Writing -/

/-- The expression is a union. -/
def isUnion : DocType → Bool
  | union _ => true
  | _ => false

/-- The expression has its mark in front, or is a union. -/
def leadsWithMark : DocType → Bool
  | union _ | nullable _ | unknown => true
  | _ => false

/-- The text in parentheses, if it needs them. -/
def grouped (needed : Bool) (s : List Char) : List Char := if needed then '(' :: (s ++ [')']) else s

/-- The quote to put around a literal. -/
def quoteFor (s : List Char) : Char := if '\x22' ∈ s then '\x27' else '\x22'

/-- The text of a function type. -/
def functionText : List Char := "function".toList ++ ['(', ')']

mutual

/-- The text of an expression. -/
def print : DocType → List Char
  | name n => n.toList
  | application base args => print base ++ '<' :: (printList args ++ ['>'])
  | array items => '[' :: (printList items ++ [']'])
  | optional t => grouped t.leadsWithMark (print t) ++ ['=']
  | nullable t => '?' :: grouped t.isUnion (print t)
  | union items => printUnion items
  | stringLiteral v => quoteFor v.toList :: (v.toList ++ [quoteFor v.toList])
  | all => ['*']
  | unknown => ['?']
  | record => ['{', '}']
  | function => functionText

/-- Expressions with commas between them. -/
def printList : List DocType → List Char
  | [] => []
  | t :: ts => print t ++ printItems ts

/-- Expressions with a comma before each. -/
def printItems : List DocType → List Char
  | [] => []
  | t :: ts => ',' :: (print t ++ printItems ts)

/-- Expressions with bars between them. -/
def printUnion : List DocType → List Char
  | [] => []
  | t :: ts => grouped t.isUnion (print t) ++ printMembers ts

/-- Expressions with a bar before each. -/
def printMembers : List DocType → List Char
  | [] => []
  | t :: ts => '|' :: (grouped t.isUnion (print t) ++ printMembers ts)

end

/-! ## Where reading stops -/

/-- The text is over, or goes on with one of the marks. -/
def Stops (marks s : List Char) : Prop := ∀ c ∈ s.head?, c ∈ marks

/-- The marks after a type. -/
def typeEnds : List Char := ',' :: listEnds

/-- The marks after a member of a union. -/
def memberEnds : List Char := '|' :: typeEnds

/-- The marks after a type that has no mark after it yet. -/
def postEnds : List Char := '=' :: memberEnds

/-- The marks after a name or its arguments. -/
def baseEnds : List Char := '[' :: postEnds

/-- The marks after a name. -/
def nameEnds : List Char := '<' :: '(' :: baseEnds

/-- The text starts with none of the marks that end a type. -/
def Opens (s : List Char) : Prop := ∃ c r, s = c :: r ∧ isBlank c = false ∧ c ∉ postEnds

/-- The text starts with no mark that stands before a type, either. -/
def Plain (s : List Char) : Prop :=
  ∃ c r, s = c :: r ∧ isBlank c = false ∧ c ∉ postEnds ∧ c ∉ ['?', '!', '.']

section

variable {marks s r rest : List Char} {c : Char}

theorem Stops.mono {marks' : List Char} (h : Stops marks s) (hm : marks ⊆ marks') : Stops marks' s :=
  fun c hc => hm (h c hc)

theorem stops_cons (h : c ∈ marks) : Stops marks (c :: s) := by
  intro d hd
  obtain rfl : c = d := by simpa using hd
  exact h

theorem stops_nil : Stops marks [] := nofun

theorem Plain.opens (h : Plain s) : Opens s := by
  obtain ⟨c, r, hs, hb, hc, -⟩ := h
  exact ⟨c, r, hs, hb, hc⟩

theorem Plain.append (h : Plain s) (rest : List Char) : Plain (s ++ rest) := by
  obtain ⟨c, r, rfl, h⟩ := h
  exact ⟨c, r ++ rest, rfl, h⟩

theorem Opens.append (h : Opens s) (rest : List Char) : Opens (s ++ rest) := by
  obtain ⟨c, r, rfl, h⟩ := h
  exact ⟨c, r ++ rest, rfl, h⟩

/-- No mark is in the class of characters, if a look at each of them says so. -/
theorem not_mem_class {p : Char → Bool} (h : marks.all (!p ·) = true) : ∀ c ∈ marks, p c = false := by
  simpa using h

theorem isBlank_of_mem_baseEnds : ∀ c ∈ baseEnds, isBlank c = false := not_mem_class (by decide)

theorem isBlank_of_mem_listEnds : ∀ c ∈ listEnds, isBlank c = false := not_mem_class (by decide)

theorem isNameChar_of_mem_nameEnds : ∀ c ∈ nameEnds, isNameChar c = false :=
  not_mem_class (by decide +kernel)

theorem trimStart_cons (h : isBlank c = false) : trimStart (c :: s) = c :: s := by
  simp [trimStart, h]

theorem Stops.trimStart (h : Stops baseEnds s) : trimStart s = s := by
  cases s with
  | nil => rfl
  | cons c s => exact trimStart_cons (isBlank_of_mem_baseEnds c (h c rfl))

theorem tail?_self (h : isBlank c = false) : tail? c (c :: s) = some s := by
  rw [tail?_eq, trimStart_cons h]
  exact if_pos rfl

theorem tail?_cons_of_ne {d : Char} (h : isBlank d = false) (hne : d ≠ c) :
    tail? c (d :: s) = none := by
  rw [tail?_eq, trimStart_cons h]
  exact if_neg hne

theorem Stops.tail? (h : Stops marks s) (hm : marks ⊆ baseEnds) (hc : c ∉ marks) :
    tail? c s = none := by
  cases s with
  | nil => rfl
  | cons d s =>
    have hd := h d rfl
    exact tail?_cons_of_ne (isBlank_of_mem_baseEnds d (hm hd)) (by rintro rfl; exact hc hd)

theorem behind?_cons_of_ne {d : Char} {lead : List Char} (hne : c ≠ d) :
    behind? (c :: lead) (d :: s) = none := by
  rw [behind?_eq, if_neg]
  rintro ⟨t, ht⟩
  exact hne (List.cons.inj ht).1

theorem angle?_self : angle? ('<' :: s) = some s := by
  rw [angle?_eq, trimStart_cons (by decide), behind?_cons_of_ne (by decide), tail?_self (by decide)]
  rfl

theorem Stops.angle? (h : Stops baseEnds s) : angle? s = none := by
  rw [angle?_eq, h.trimStart, h.tail? (by simp) (by decide), Option.or_none]
  cases s with
  | nil => rfl
  | cons c s =>
    have hc := h c rfl
    exact behind?_cons_of_ne (by rintro rfl; revert hc; decide)

theorem Stops.suffixed (h : Stops memberEnds s) (t : DocType) : suffixed t s = (t, s) := by
  rw [suffixed_eq, (h.mono (by decide)).trimStart]
  split
  · exact absurd (h '[' rfl) (by decide)
  · exact absurd (h '=' rfl) (by decide)
  · rfl

theorem suffixed_equals (t : DocType) : suffixed t ('=' :: s) = suffixed (.optional t) s := by
  rw [suffixed_eq, trimStart_cons (by decide)]
  rfl

theorem suffixed_brackets (t : DocType) :
    suffixed t ('[' :: ']' :: s) = suffixed (.application (.name "Array") [t]) s := by
  rw [suffixed_eq, trimStart_cons (by decide)]
  rfl

/-! ## Reading names -/

theorem dropWhile_of_stops {p : Char → Bool} (h : ∀ d ∈ s.head?, p d = false) : s.dropWhile p = s := by
  cases s with
  | nil => rfl
  | cons d s => simp [h d rfl]

theorem takeWhile_of_stops {p : Char → Bool} (h : ∀ d ∈ s.head?, p d = false) : s.takeWhile p = [] := by
  cases s with
  | nil => rfl
  | cons d s => simp [h d rfl]

theorem dottedName_eq {n : List Char} (hn : Dotted n) (h : Stops nameEnds rest) :
    dottedName (n ++ rest) = (n, rest) := by
  have hstop : ∀ d ∈ rest.head?, isNameChar d = false := fun d hd =>
    isNameChar_of_mem_nameEnds d (h d hd)
  have hdot : ∀ r, rest ≠ '.' :: r := by
    rintro r rfl
    exact absurd (h '.' rfl) (by decide)
  -- a word is read up to whatever stops it
  have word {w x : List Char} (hw : IsWord w) (hx : ∀ d ∈ x.head?, isNameChar d = false) :
      (w ++ x).takeWhile isNameChar = w ∧ (w ++ x).dropWhile isNameChar = x := by
    rw [List.takeWhile_append_of_pos hw.all, List.dropWhile_append_of_pos hw.all,
      takeWhile_of_stops hx, dropWhile_of_stops hx, List.append_nil]
    exact ⟨rfl, rfl⟩
  induction hn with
  | one hw =>
    obtain ⟨htake, hdrop⟩ := word hw hstop
    rw [dottedName, htake]
    split
    · rename_i c r heq
      exact absurd (hdrop.symm.trans heq) (hdot _)
    · rw [hdrop]
  | more hw hs ih =>
    rename_i w s
    obtain ⟨c, r, hs', hc⟩ := hs.head
    obtain ⟨htake, hdrop⟩ := word hw (x := '.' :: (s ++ rest)) (by
      intro d hd
      obtain rfl : '.' = d := by simpa using hd
      decide)
    rw [List.append_assoc, List.cons_append, dottedName, htake]
    split
    · rename_i d r' heq
      obtain ⟨-, heq⟩ := List.cons.inj (hdrop.symm.trans heq)
      have hd : c = d := by
        rw [hs'] at heq
        exact (List.cons.inj heq).1
      rw [if_pos (hd ▸ hc), ← heq, ih]
    · rename_i hno
      exact absurd (by rw [hdrop, hs']; rfl) (hno c (r ++ rest))

theorem Dotted.all {n : List Char} (h : Dotted n) : ∀ d ∈ n, (isNameChar d || d == '.') = true := by
  induction h with
  | one hw => exact fun d hd => by rw [hw.all d hd, Bool.true_or]
  | more hw _ ih =>
    intro d hd
    rcases List.mem_append.1 hd with hd | hd
    · rw [hw.all d hd, Bool.true_or]
    · rcases List.mem_cons.1 hd with rfl | hd
      · exact Bool.or_true _
      · exact ih d hd

/-- A name is no path of a table, since the colon stands in no name. -/
theorem behind?_table {n : List Char} (hn : Dotted n) (h : Stops nameEnds rest) :
    behind? "db:/".toList (n ++ rest) = none := by
  rw [behind?_eq, if_neg]
  rintro ⟨t, ht⟩
  have hstop : ∀ d ∈ rest.head?, (isNameChar d || d == '.') = false := fun d hd => by
    have hmem := h d hd
    rw [isNameChar_of_mem_nameEnds d hmem, Bool.false_or, beq_eq_false_iff_ne]
    rintro rfl
    exact absurd hmem (by decide)
  have hdrop := congrArg (List.dropWhile fun d => isNameChar d || d == '.') ht
  rw [List.dropWhile_append_of_pos hn.all, dropWhile_of_stops hstop] at hdrop
  have hcolon : ("db:/".toList ++ t).dropWhile (fun d => isNameChar d || d == '.') = ':' :: '/' :: t := by
    rfl
  exact absurd (h ':' (by rw [← hdrop, hcolon]; rfl)) (by decide)

theorem Dotted.plain {n : List Char} (hn : Dotted n) : Plain n := by
  obtain ⟨c, r, rfl, hc⟩ := hn.head
  have hmark {marks : List Char} (h : ∀ d ∈ marks, isNameStart d = false) : c ∉ marks := by
    intro hmem
    rw [h c hmem] at hc
    cases hc
  exact ⟨c, r, rfl, isBlank_of_isNameStart hc, hmark (not_mem_class (by decide +kernel)),
    hmark (not_mem_class (by decide +kernel))⟩

theorem primary?_named {n : List Char} (hn : Dotted n) (h : Stops nameEnds rest) :
    primary? (n ++ rest) = named? (n ++ rest) := by
  have htable := behind?_table hn h
  obtain ⟨c, r, rfl, hc⟩ := hn.head
  exact primary?_of_isNameStart (trimStart_cons (isBlank_of_isNameStart hc)) hc htable

/-- A name that has neither arguments nor a signature behind it. -/
theorem primary?_name {n : String} (hn : Dotted n.toList) (hstop : Stops nameEnds rest)
    (hopen : tail? '(' rest = none) (hangle : angle? rest = none) :
    primary? (n.toList ++ rest) = some (.name n, rest) := by
  have hdotted := dottedName_eq hn hstop
  have hname := String.ofList_toList (s := n)
  obtain ⟨c, r, hcr, -⟩ := hn.head
  rw [primary?_named hn hstop, named?_eq, hdotted, hcr]
  rw [hcr] at hname
  have hparen : (if c :: r = "function".toList then tail? '(' rest else none) = none := by
    split
    · exact hopen
    · rfl
  simp only [hparen, hangle, hname]

/-- A name and its arguments. -/
theorem primary?_application {n : String} {ts : List DocType} (hn : Dotted n.toList)
    (h : list? '>' s = some (ts, rest)) :
    primary? (n.toList ++ '<' :: s) = some (.application (.name n) ts, rest) := by
  have hstop : Stops nameEnds ('<' :: s) := stops_cons (by decide)
  have hdotted := dottedName_eq hn hstop
  have hname := String.ofList_toList (s := n)
  obtain ⟨c, r, hcr, -⟩ := hn.head
  rw [primary?_named hn hstop, named?_eq, hdotted, hcr]
  rw [hcr] at hname
  have hparen : (if c :: r = "function".toList then tail? '(' ('<' :: s) else none) = none := by
    split
    · exact tail?_cons_of_ne (by decide) (by decide)
    · rfl
  simp only [hparen, angle?_self, h, hname, Option.map_some]

end

/-! ## Well-formed expressions are read back -/

/-- **The expression is read back** from its text, in each of the places where it can stand. -/
structure Reads (t : DocType) : Prop where
  opens : Opens (print t)
  /-- Before a mark. -/
  plain : Plain (grouped t.leadsWithMark (print t))
  posted : ∀ {rest}, Stops postEnds rest →
    posted? (grouped t.leadsWithMark (print t) ++ rest) = some (suffixed t rest)
  /-- Behind a mark, or in a union. -/
  operand : ∀ {rest}, Stops memberEnds rest →
    unary? (grouped t.isUnion (print t) ++ rest) = some (t, rest)
  /-- Elsewhere. -/
  whole : ∀ {rest}, Stops typeEnds rest → union? (print t ++ rest) = some (t, rest)

section

variable {t : DocType} {ts : List DocType} {s rest : List Char}

theorem unary?_plain (h : Plain s) : unary? s = posted? s := by
  obtain ⟨c, r, rfl, hb, -, hc⟩ := h
  simp only [List.mem_cons, not_or] at hc
  rw [unary?_eq, tail?_cons_of_ne hb hc.1, tail?_cons_of_ne hb hc.2.1, trimStart_cons hb,
    behind?_cons_of_ne (Ne.symm hc.2.2.1)]

theorem unary?_of_posted? (hs : Plain s) (hrest : Stops memberEnds rest)
    (h : posted? (s ++ rest) = some (suffixed t rest)) : unary? (s ++ rest) = some (t, rest) := by
  rw [unary?_plain (hs.append rest), h, hrest.suffixed]

theorem union?_of_unary? (hrest : Stops typeEnds rest) (h : unary? s = some (t, rest)) :
    union? s = some (t, rest) := by
  rw [union?_eq, h, Option.bind_some, members?_eq, hrest.tail? (by decide) (by decide)]
  rfl

theorem plain_paren : Plain ('(' :: s) := ⟨'(', s, rfl, by decide, by decide, by decide⟩

theorem posted?_paren (h : union? (s ++ ')' :: rest) = some (t, ')' :: rest)) :
    posted? (grouped true s ++ rest) = some (suffixed t rest) := by
  have hs : grouped true s ++ rest = '(' :: (s ++ ')' :: rest) := by simp [grouped]
  rw [posted?, primary?_eq, hs, trimStart_cons (by decide)]
  simp only [if_true, h, Option.bind_some, tail?_self (show isBlank ')' = false by decide)]
  rfl

/-- An expression without a mark in front is read back everywhere, if it is before a mark. -/
theorem reads_of_posted (ht : t.leadsWithMark = false) (hplain : Plain (print t))
    (h : ∀ {rest}, Stops postEnds rest → posted? (print t ++ rest) = some (suffixed t rest)) :
    Reads t := by
  have hunion : t.isUnion = false := by
    cases t <;> first | rfl | cases ht
  have hunary {rest : List Char} (hrest : Stops memberEnds rest) :
      unary? (print t ++ rest) = some (t, rest) :=
    unary?_of_posted? hplain hrest (h (hrest.mono (by decide)))
  constructor
  · exact hplain.opens
  · rwa [ht]
  · rw [ht]
    exact h
  · rw [hunion]
    exact hunary
  · intro rest hrest
    exact union?_of_unary? hrest (hunary (hrest.mono (by decide)))

/-- An expression that is read without marks is read back everywhere. -/
theorem reads_of_primary (ht : t.leadsWithMark = false) (hplain : Plain (print t))
    (h : ∀ {rest}, Stops postEnds rest → primary? (print t ++ rest) = some (t, rest)) : Reads t := by
  refine reads_of_posted ht hplain fun {rest} hrest => ?_
  rw [posted?, h hrest]
  rfl

/-- An expression with a mark in front is read back everywhere, if it is behind a mark. -/
theorem reads_of_operand (ht : t.leadsWithMark = true) (hunion : t.isUnion = false)
    (hopens : Opens (print t))
    (h : ∀ {rest}, Stops memberEnds rest → unary? (print t ++ rest) = some (t, rest)) :
    Reads t := by
  have hwhole {rest : List Char} (hrest : Stops typeEnds rest) :
      union? (print t ++ rest) = some (t, rest) :=
    union?_of_unary? hrest (h (hrest.mono (by decide)))
  constructor
  · exact hopens
  · rw [ht]
    exact plain_paren
  · intro rest _
    rw [ht]
    exact posted?_paren (hwhole (stops_cons (by decide)))
  · rw [hunion]
    exact h
  · exact hwhole

/-! ### Lists -/

theorem items?_printItems (h : ∀ t ∈ ts, Reads t) (hrest : Stops listEnds rest) :
    items? (printItems ts ++ rest) = some (ts, rest) := by
  induction ts with
  | nil =>
    rw [printItems, List.nil_append, items?_eq, hrest.tail? (by decide) (by decide)]
  | cons t ts ih =>
    have hmore : Stops typeEnds (printItems ts ++ rest) := by
      cases ts with
      | nil => exact hrest.mono (by decide)
      | cons u us => exact stops_cons (by decide)
    rw [printItems, List.cons_append, List.append_assoc, items?_eq, tail?_self (by decide)]
    simp only [(h t (by simp)).whole hmore, ih fun u hu => h u (by simp [hu]), Option.bind_some,
      Option.map_some]

theorem list?_printList {close : Char} (hclose : close ∈ listEnds) (hne : ts ≠ [])
    (h : ∀ t ∈ ts, Reads t) : list? close (printList ts ++ close :: rest) = some (ts, rest) := by
  have hblank := isBlank_of_mem_listEnds close hclose
  cases ts with
  | nil => exact absurd rfl hne
  | cons t ts =>
    have hmore : Stops typeEnds (printItems ts ++ close :: rest) := by
      cases ts with
      | nil => exact stops_cons (List.mem_cons_of_mem _ hclose)
      | cons u us => exact stops_cons (by decide)
    rw [printList, List.append_assoc, list?_eq, (h t (by simp)).whole hmore, Option.bind_some,
      items?_printItems (fun u hu => h u (by simp [hu])) (stops_cons hclose), Option.bind_some,
      tail?_self hblank]
    rfl

theorem members?_printMembers (h : ∀ t ∈ ts, Reads t) (hrest : Stops typeEnds rest) :
    members? (printMembers ts ++ rest) = some (ts, rest) := by
  induction ts with
  | nil =>
    rw [printMembers, List.nil_append, members?_eq, hrest.tail? (by decide) (by decide)]
  | cons t ts ih =>
    have hmore : Stops memberEnds (printMembers ts ++ rest) := by
      cases ts with
      | nil => exact hrest.mono (by decide)
      | cons u us => exact stops_cons (by decide)
    rw [printMembers, List.cons_append, List.append_assoc, members?_eq, tail?_self (by decide)]
    simp only [(h t (by simp)).operand hmore, ih fun u hu => h u (by simp [hu]), Option.bind_some,
      Option.map_some]

/-! ### The constructors -/

theorem reads_name {n : String} (hn : Dotted n.toList) : Reads (.name n) :=
  reads_of_primary rfl hn.plain fun hrest =>
    primary?_name hn (hrest.mono (by decide)) (hrest.tail? (by decide) (by decide))
      (hrest.mono (by decide)).angle?

theorem reads_application {n : String} (hn : Dotted n.toList) (hne : ts ≠ [])
    (hts : ∀ t ∈ ts, Reads t) : Reads (.application (.name n) ts) := by
  have hprint (rest : List Char) : print (.application (.name n) ts) ++ rest =
      n.toList ++ '<' :: (printList ts ++ '>' :: rest) := by simp [print]
  refine reads_of_primary rfl ?_ fun {rest} hrest => ?_
  · have := hn.plain.append ('<' :: (printList ts ++ '>' :: []))
    rwa [← hprint, List.append_nil] at this
  · rw [hprint]
    exact primary?_application hn (list?_printList (by decide) hne hts)

theorem reads_array (hne : ts ≠ []) (hts : ∀ t ∈ ts, Reads t) : Reads (.array ts) := by
  refine reads_of_primary rfl ⟨'[', _, rfl, by decide, by decide, by decide⟩
    fun {rest} hrest => ?_
  rw [print, List.cons_append, List.append_assoc, primary?_eq, trimStart_cons (by decide)]
  simp only [List.cons_append, List.nil_append, list?_printList (show ']' ∈ listEnds by decide) hne hts]
  rfl

theorem reads_optional (h : Reads t) : Reads (.optional t) := by
  refine reads_of_posted rfl ?_ fun {rest} hrest => ?_
  · rw [print]
    exact h.plain.append _
  · rw [print, List.append_assoc, List.cons_append, List.nil_append, h.posted (stops_cons (by decide)),
      suffixed_equals]

theorem opens_grouped {b : Bool} (h : Opens s) : Opens (grouped b s) := by
  cases b with
  | false => exact h
  | true => exact plain_paren.opens

theorem reads_nullable (h : Reads t) : Reads (.nullable t) := by
  refine reads_of_operand rfl rfl ⟨'?', _, rfl, by decide, by decide⟩ fun {rest} hrest => ?_
  obtain ⟨c, r, hcr, hb, hc⟩ := (opens_grouped (b := t.isUnion) h.opens).append rest
  have hends : endsUnknown (trimStart (grouped t.isUnion (print t) ++ rest)) = false := by
    rw [hcr, trimStart_cons hb]
    simpa [endsUnknown, postEnds, memberEnds, typeEnds, listEnds, and_assoc, and_comm, and_left_comm]
      using hc
  rw [print, List.cons_append, unary?_eq, tail?_self (by decide)]
  simp only [hends, h.operand hrest, Option.map_some]
  rfl

theorem reads_unknown : Reads .unknown := by
  refine reads_of_operand rfl rfl ⟨'?', _, rfl, by decide, by decide⟩ fun {rest} hrest => ?_
  have hends : endsUnknown (trimStart rest) = true := by
    rw [(hrest.mono (show memberEnds ⊆ baseEnds by decide)).trimStart]
    cases rest with
    | nil => rfl
    | cons c r =>
      have hc := hrest c rfl
      revert hc
      simp [endsUnknown, memberEnds, typeEnds, listEnds]
      grind
  rw [print, List.cons_append, unary?_eq, tail?_self (by decide)]
  simp only [List.nil_append, hends, if_true]

theorem reads_union (htwo : 2 ≤ ts.length) (hts : ∀ t ∈ ts, Reads t) : Reads (.union ts) := by
  match ts, htwo with
  | u :: v :: us, _ =>
    have hprint (rest : List Char) : print (.union (u :: v :: us)) ++ rest =
        grouped u.isUnion (print u) ++ (printMembers (v :: us) ++ rest) := by
      simp [print, printUnion]
    have hwhole {rest : List Char} (hrest : Stops typeEnds rest) :
        union? (print (.union (u :: v :: us)) ++ rest) = some (.union (u :: v :: us), rest) := by
      have hmore : Stops memberEnds (printMembers (v :: us) ++ rest) := stops_cons (by decide)
      have hmembers := members?_printMembers (fun w hw => hts w (List.mem_cons_of_mem _ hw)) hrest
      rw [hprint, union?_eq, (hts u (by simp)).operand hmore, Option.bind_some, hmembers]
      rfl
    have hposted {rest : List Char} :
        posted? (grouped true (print (.union (u :: v :: us))) ++ rest) =
          some (suffixed (.union (u :: v :: us)) rest) :=
      posted?_paren (hwhole (stops_cons (by decide)))
    constructor
    · have := (opens_grouped (b := u.isUnion) (hts u (by simp)).opens).append
        (printMembers (v :: us) ++ [])
      rwa [← hprint, List.append_nil] at this
    · exact plain_paren
    · exact fun _ => hposted
    · exact fun hrest => unary?_of_posted? plain_paren hrest hposted
    · exact hwhole

theorem quoteFor_cases (s : List Char) : quoteFor s = '\x22' ∨ quoteFor s = '\x27' := by
  unfold quoteFor
  split
  · exact .inr rfl
  · exact .inl rfl

theorem quoteFor_not_mem (h : '\x22' ∉ s ∨ '\x27' ∉ s) : quoteFor s ∉ s := by
  unfold quoteFor
  split
  · rename_i hmem
    exact h.resolve_left (not_not_intro hmem)
  · assumption

theorem reads_stringLiteral {v : String} (h : '\x22' ∉ v.toList ∨ '\x27' ∉ v.toList) :
    Reads (.stringLiteral v) := by
  have hmem := quoteFor_not_mem h
  have hcases := quoteFor_cases v.toList
  generalize hq : quoteFor v.toList = q at hmem hcases
  have hplain : ∀ s, Plain (q :: s) := fun s => by
    rcases hcases with rfl | rfl <;> exact ⟨_, s, rfl, by decide, by decide, by decide⟩
  have hblank : isBlank q = false := by
    rcases hcases with rfl | rfl <;> decide
  have hpos : ∀ c ∈ v.toList, (c != q) = true := fun c hc => by
    rw [bne_iff_ne]
    rintro rfl
    exact hmem hc
  refine reads_of_primary rfl (by rw [print, hq]; exact hplain _) fun {rest} hrest => ?_
  have htake : (v.toList ++ q :: rest).takeWhile (· != q) = v.toList := by
    rw [List.takeWhile_append_of_pos hpos]
    simp
  have hdrop : (v.toList ++ q :: rest).dropWhile (· != q) = q :: rest := by
    rw [List.dropWhile_append_of_pos hpos]
    simp
  have hne : q ≠ '(' ∧ q ≠ '*' := by
    rcases hcases with rfl | rfl <;> decide
  rw [print, hq, List.cons_append, List.append_assoc, primary?_eq, trimStart_cons hblank]
  simp only [List.cons_append, List.nil_append, if_neg hne.1, if_neg hne.2, if_pos hcases, htake, hdrop,
    String.ofList_toList]

theorem reads_all : Reads .all := by
  refine reads_of_primary rfl ⟨'*', _, rfl, by decide, by decide, by decide⟩
    fun {rest} hrest => ?_
  rw [print, List.cons_append, primary?_eq, trimStart_cons (by decide)]
  rfl

theorem reads_record : Reads .record := by
  refine reads_of_primary rfl ⟨'{', _, rfl, by decide, by decide, by decide⟩
    fun {rest} hrest => ?_
  rw [print, List.cons_append, primary?_eq, trimStart_cons (by decide)]
  rfl

theorem dotted_function : Dotted "function".toList :=
  .one ⟨'f', "unction".toList, rfl, by decide, List.all_eq_true.1 (by decide)⟩

theorem reads_function : Reads .function := by
  have hprint (rest : List Char) : print .function ++ rest = "function".toList ++ '(' :: ')' :: rest := by
    rw [print]
    exact List.append_assoc _ ['(', ')'] rest
  have hword := dotted_function
  have hnamed (s : List Char) := named?_eq s
  -- the word is kept closed: nothing here looks at its letters
  generalize "function".toList = w at hprint hword hnamed
  refine reads_of_primary rfl ?_ fun {rest} hrest => ?_
  · have := hword.plain.append ['(', ')']
    rwa [← hprint, List.append_nil] at this
  have hstop : Stops nameEnds ('(' :: ')' :: rest) := stops_cons (by decide)
  have hclosed : closed? '(' ')' 1 (')' :: rest) = some rest := rfl
  have hcolon : tail? ':' rest = none := hrest.tail? (by decide) (by decide)
  have hdotted := dottedName_eq hword hstop
  obtain ⟨c, r, hcr, -⟩ := hword.head
  rw [hprint, primary?_named hword hstop, hnamed, hdotted, hcr]
  simp only [if_true, tail?_self (show isBlank '(' = false by decide), hclosed, Option.bind_some, hcolon]

end

mutual

/-- **Every well-formed expression is read back**, by induction on the expression. -/
theorem reads : (t : DocType) → t.WellFormed → Reads t
  | .name _, h => reads_name h
  | .application _ ts, h => by
    obtain ⟨⟨n, rfl, hdotted⟩, hne, hts⟩ := h
    exact reads_application hdotted hne (reads_all_of ts hts)
  | .array ts, h => reads_array h.1 (reads_all_of ts h.2)
  | .optional t, h => reads_optional (reads t h)
  | .nullable t, h => reads_nullable (reads t h)
  | .union ts, h => reads_union h.1 (reads_all_of ts h.2)
  | .stringLiteral _, h => reads_stringLiteral h
  | .all, _ => reads_all
  | .unknown, _ => reads_unknown
  | .record, _ => reads_record
  | .function, _ => reads_function

theorem reads_all_of : (ts : List DocType) → AllWellFormed ts → ∀ t ∈ ts, Reads t
  | [], _ => nofun
  | t :: ts, h => List.forall_mem_cons.2 ⟨reads t h.1, reads_all_of ts h.2⟩

end

/-! ## The grammar -/

/-- **The reader accepts exactly the well-formed expressions.** What it reads is well formed, so that
only names are applied in it, and it reads every well-formed expression from its text. -/
theorem reader_accepts_grammar :
    (∀ e t, parse? e = some t →
      t.WellFormed ∧ ∀ base args, Within (.application base args) t → ∃ n, base = .name n) ∧
    ∀ t, t.WellFormed → parse? (String.ofList (print t)) = some t := by
  constructor
  · intro e t h
    rw [parse?_eq] at h
    obtain ⟨⟨u, r⟩, hu, h⟩ := Option.bind_eq_some_iff.1 h
    have hwell : t.WellFormed := by
      split at h
      · obtain rfl := Option.some.inj h
        exact (soundAt _).union hu
      · cases h
    refine ⟨hwell, fun base args hin => ?_⟩
    obtain ⟨⟨n, hn, -⟩, -⟩ := hin.wellFormed hwell
    exact ⟨n, hn⟩
  · intro t ht
    have hstop : Stops typeEnds [] := stops_nil
    have hwhole := (reads t ht).whole hstop
    rw [List.append_nil] at hwhole
    rw [parse?_eq, String.toList_ofList, hwhole]
    rfl

/-- An optional union of a nullable application and a literal with a quote in it. -/
def nestedType : DocType :=
  .optional (.union [.nullable (.application (.name "a.b") [.unknown, .array [.name "function"]]),
    .stringLiteral "it's"])

theorem nestedType_read_back :
    nestedType.WellFormed ∧ parse? "(?a.b<?,[function]>|\x22it's\x22)=" = some nestedType ∧
      ∀ base args, Within (.application base args) nestedType → ∃ n, base = .name n := by
  have hname : Dotted "a.b".toList :=
    .more (w := ['a']) (s := ['b']) ⟨'a', [], rfl, by decide, nofun⟩
      (.one ⟨'b', [], rfl, by decide, nofun⟩)
  have hwell : nestedType.WellFormed :=
    ⟨by decide, ⟨⟨_, rfl, hname⟩, by simp, trivial, ⟨by simp, dotted_function, trivial⟩, trivial⟩,
      .inl (by decide), trivial⟩
  have hread := reader_accepts_grammar.2 nestedType hwell
  have htext : String.ofList (print nestedType) = "(?a.b<?,[function]>|\x22it's\x22)=" := by
    decide +kernel
  rw [htext] at hread
  exact ⟨hwell, hread, (reader_accepts_grammar.1 _ _ hread).2⟩

end ScriptAtlas.DocType
