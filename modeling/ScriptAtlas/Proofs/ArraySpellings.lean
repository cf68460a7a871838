/-
Array spellings of a type expression. What is read at the end of a text is read in
the same way before a bracket that closes, so an expression can be put between the
brackets of each spelling of an array of it, and all of them stand for the same type.
-/
import ScriptAtlas.Proofs.TypeEndings

namespace ScriptAtlas.DocType

open Text

/-! ## The spellings -/

section

variable {e : String} {t : DocType} {s r : List Char}

/-- The ways to write an array of what an expression stands for. -/
def arraySpellings (e : String) : List String :=
  ["Array<" ++ e ++ ">", "Array.<" ++ e ++ ">", "[" ++ e ++ "]", "(" ++ e ++ ")[]"]

/-- A whole text, put before a closing bracket. -/
theorem Derives.closed (h : Derives .union s [t] r) (hr : trimStart r = []) {c : Char}
    (hc : c ∈ listEnds) (y : List Char) :
    Derives .union (s ++ c :: y) [t] (r ++ c :: y) ∧ tail? c (r ++ c :: y) = some y := by
  have hb := isBlank_of_mem_listEnds c hc
  have hne : c ≠ '=' := by rintro rfl; revert hc; decide
  refine ⟨h.append (fun _ hopen => ?_) (List.mem_cons_of_mem _ hc) y, ?_⟩
  · simp [hanging_iff hb, hr, hne] at hopen
  · rw [tail?_eq_some_iff, trimStart_append_stop hb, hr]
    rfl

theorem Derives.list_of_one (h : Derives .union s [t] r) (hr : trimStart r = []) {c : Char}
    (hc : c ∈ listEnds) (y : List Char) : Derives (.list c) (s ++ c :: y) [t] y := by
  have hb := isBlank_of_mem_listEnds c hc
  obtain ⟨hunion, hclose⟩ := h.closed hr hc y
  refine .list hc hunion (.noItem ?_) hclose
  rw [tail?_eq, trimStart_append_stop hb, hr]
  exact if_neg (by rintro rfl; revert hc; decide)

/-- A text that starts with no mark is read to its end by way of what it starts with. -/
theorem parse?_of_primary {u : DocType} (hs : Plain e.toList) (h : Derives .primary e.toList [t] r)
    (hu : suffixed t r = (u, [])) : parse? e = some u := by
  obtain ⟨c, l, hcl, hb, -, hc⟩ := hs
  simp only [List.mem_cons, not_or] at hc
  rw [hcl] at h
  have hunary : Derives .unary (c :: l) [u] [] :=
    .posted (tail?_cons_of_ne hb hc.1) (tail?_cons_of_ne hb hc.2.1)
      (by rw [trimStart_cons hb]; exact behind?_cons_of_ne (Ne.symm hc.2.2.1)) h hu
  exact parse?_eq_some_iff.2 ⟨[], hcl ▸ .union hunary (.noMember rfl), rfl⟩

theorem dottedName_array {rest : List Char} (hname : ∀ d ∈ rest.head?, isNameChar d = false)
    (hdot : ∀ d r, rest = '.' :: d :: r → isNameStart d = false) :
    dottedName ("Array".toList ++ rest) = ("Array".toList, rest) := by
  have hword : ∀ d ∈ "Array".toList, isNameChar d = true := List.all_eq_true.1 (by decide)
  have hdrop : ("Array".toList ++ rest).dropWhile isNameChar = rest := dropWhile_run hword hname
  rw [dottedName_stop (by rwa [hdrop]), hdrop, takeWhile_run hword hname]

/-- The name of arrays with one argument, whichever way it is opened. -/
theorem parse?_array_of {spelling : String} {rest : List Char}
    (hs : spelling.toList = "Array".toList ++ rest)
    (hn : dottedName ("Array".toList ++ rest) = ("Array".toList, rest))
    (hangle : angle? rest = some (e.toList ++ ['>'])) (h : Derives .union e.toList [t] r)
    (hr : trimStart r = []) : parse? spelling = some (.application (.name "Array") [t]) := by
  have hword : "Array".toList ++ rest = 'A' :: ("rray".toList ++ rest) := rfl
  have hopen : signature? ('A' :: "rray".toList) rest = none := if_neg (by decide)
  have hnamed := Derives.application hn dotted_array hopen hangle (h.list_of_one hr (by decide) [])
  rw [hword] at hs hnamed
  have hprimary : Derives .primary spelling.toList [.application (.name "Array") [t]] [] := by
    rw [hs]
    exact .named (trimStart_cons (by decide)) (by decide) (behind?_cons_of_ne (by decide)) hnamed
  exact parse?_of_primary ⟨'A', _, hs, by decide, by decide, by decide⟩ hprimary (stops_nil.suffixed _)

theorem parse?_tuple_of (h : Derives .union e.toList [t] r) (hr : trimStart r = []) :
    parse? ("[" ++ e ++ "]") = some (.array [t]) := by
  have hs : ("[" ++ e ++ "]").toList = '[' :: (e.toList ++ [']']) := by simp
  have hprimary : Derives .primary ("[" ++ e ++ "]").toList [.array [t]] [] := by
    rw [hs]
    exact .array (trimStart_cons (by decide)) (h.list_of_one hr (by decide) [])
  exact parse?_of_primary ⟨'[', _, hs, by decide, by decide, by decide⟩ hprimary (stops_nil.suffixed _)

theorem parse?_marked_of (h : Derives .union e.toList [t] r) (hr : trimStart r = []) :
    parse? ("(" ++ e ++ ")[]") = some (.application (.name "Array") [t]) := by
  have hs : ("(" ++ e ++ ")[]").toList = '(' :: (e.toList ++ ')' :: ['[', ']']) := by simp
  obtain ⟨hunion, hclose⟩ := h.closed hr (c := ')') (by decide) ['[', ']']
  have hprimary : Derives .primary ("(" ++ e ++ ")[]").toList [t] ['[', ']'] := by
    rw [hs]
    exact .grouped (trimStart_cons (by decide)) hunion hclose
  exact parse?_of_primary ⟨'(', _, hs, by decide, by decide, by decide⟩ hprimary
    ((suffixed_brackets t).trans (stops_nil.suffixed _))

end

/-- **All spellings of an array agree.** Whatever expression is read, each way to write an array of it
is read as well, and stands for the type of the expression with one more array level. -/
theorem array_spellings_agree (e : String) (t : DocType) (h : parse? e = some t) :
    ∀ spelling ∈ arraySpellings e, (parse? spelling).isSome = true ∧
      TypeInfo.ofDoc spelling = (TypeInfo.ofDoc e).intoArray 1 := by
  obtain ⟨r, hread, hr⟩ := parse?_eq_some_iff.1 h
  have hangle : parse? ("Array<" ++ e ++ ">") = some (.application (.name "Array") [t]) := by
    have hs : ("Array<" ++ e ++ ">").toList = "Array".toList ++ '<' :: (e.toList ++ ['>']) := by simp
    exact parse?_array_of hs (dottedName_array (stops_at (by decide)) (by simp)) angle?_self hread hr
  have hdotted : parse? ("Array.<" ++ e ++ ">") = some (.application (.name "Array") [t]) := by
    have hs : ("Array.<" ++ e ++ ">").toList = "Array".toList ++ '.' :: '<' :: (e.toList ++ ['>']) := by
      simp
    refine parse?_array_of hs (dottedName_array (stops_at (by decide)) ?_) ?_ hread hr
    · intro d l hdl
      obtain ⟨-, rfl, -⟩ : '.' = '.' ∧ '<' = d ∧ _ := by simpa using hdl
      decide
    · rw [angle?_eq, trimStart_cons (by decide)]
      exact Option.or_eq_some_iff.2 (.inl (behind?_self ['.', '<'] _))
  have htuple := parse?_tuple_of hread hr
  have hmarked := parse?_marked_of hread hr
  intro spelling hmem
  simp only [arraySpellings, List.mem_cons, List.not_mem_nil, or_false] at hmem
  rcases hmem with rfl | rfl | rfl | rfl
  · simp [hangle, TypeInfo.ofDoc, h, type, firstType]
  · simp [hdotted, TypeInfo.ofDoc, h, type, firstType]
  · simp [htuple, TypeInfo.ofDoc, h, type, firstType]
  · simp [hmarked, TypeInfo.ofDoc, h, type, firstType]

/-- A name that would start a function type before a parenthesis, and a question mark with nothing
behind it: both are told by what follows. -/
def lookaheadType : DocType := .union [.name "function", .unknown]

theorem lookaheadType_spellings :
    parse? "function|?" = some lookaheadType ∧
      ∀ spelling ∈ ["Array<function|?>", "Array.<function|?>", "[function|?]", "(function|?)[]"],
        (parse? spelling).isSome = true ∧ TypeInfo.ofDoc spelling = TypeInfo.any.intoArray 1 := by
  have hwell : lookaheadType.WellFormed := ⟨by decide, dotted_function, trivial, trivial⟩
  have hread : parse? "function|?" = some lookaheadType := by
    have hwhole := (reads lookaheadType hwell).whole stops_nil
    rw [List.append_nil] at hwhole
    refine parse?_of_union? ?_
    rwa [show "function|?".toList = print lookaheadType by decide +kernel]
  have htype : TypeInfo.ofDoc "function|?" = TypeInfo.any := by rw [TypeInfo.ofDoc, hread]; rfl
  have hspellings : arraySpellings "function|?" =
      ["Array<function|?>", "Array.<function|?>", "[function|?]", "(function|?)[]"] := by decide
  refine ⟨hread, ?_⟩
  rw [← hspellings, ← htype]
  exact array_spellings_agree "function|?" lookaheadType hread

end ScriptAtlas.DocType
