/-
The mark for an optional type behind a whole expression. The mark is looked for in
one place only, behind a type without marks in front. What an expression that has
the mark behind it is read as depends on how the expression ends: a question mark on
its own does not take the mark, so that the text is not read at all; where the type
that a function returns is written out it is this type that takes the mark, and as it
is not kept the mark is lost; everywhere else the mark makes the whole type optional
(`optional_mark_reaches_iff`).
-/
import ScriptAtlas.Proofs.TypeEndings

namespace ScriptAtlas.DocType

open Text

section

variable {s r : List Char} {t u : DocType}

/-! ## The marks after a type -/

/-- With the sign behind it, what is left over is a mark after a type. -/
theorem suffixed_sign (h : suffixed t s = (u, r)) (hr : trimStart r = []) :
    suffixed t (s ++ ['=']) = (.optional u, []) := by
  unfold suffixed at h
  fun_induction suffixes t s with
  | case1 t s r₁ hs _ t' r' heq ih =>
    rw [suffixed_eq, trimStart_append_of_cons hs]
    exact ih (by rwa [heq])
  | case2 t s r₁ hs _ t' r' heq ih =>
    rw [suffixed_eq, trimStart_append_of_cons hs]
    exact ih (by rwa [heq])
  | case3 t s _ _ =>
    obtain ⟨rfl, rfl⟩ := Prod.mk.inj h
    rw [suffixed_eq, trimStart_append_stop (by decide), hr]
    exact stops_nil.suffixed _

/-- Behind a type with all its marks there are no more of them. -/
theorem suffixed_of_suffixed (h : suffixed t s = (u, r)) (v : DocType) : suffixed v r = (v, r) := by
  unfold suffixed at h
  fun_induction suffixes t s with
  | case1 t s r₁ hs _ t' r' heq ih => exact ih (by rwa [heq])
  | case2 t s r₁ hs _ t' r' heq ih => exact ih (by rwa [heq])
  | case3 t s harray hopt =>
    obtain ⟨rfl, rfl⟩ := Prod.mk.inj h
    rw [suffixed_eq]
    split
    · rename_i l hs
      exact absurd hs (harray l)
    · rename_i l hs
      exact absurd hs (hopt l)
    · rfl

end

/-- Where a type could take marks, it has taken them all. -/
theorem Derives.suffixed_rest {s r : List Char} {t : DocType} (h : Derives .unary s [t] r)
    (hs : isLone s = false) (v : DocType) : suffixed v r = (v, r) := by
  cases h with
  | unknown h hend =>
    rw [isLone_of_some (markTail?_question h), isLone_of_endsUnknown hend] at hs
    cases hs
  | nullable h _ ht =>
    have hlt := length_of_tail? h
    rw [isLone_of_some (markTail?_question h)] at hs
    exact suffixed_rest ht hs v
  | required hnull h ht =>
    have hlt := length_of_tail? h
    rw [isLone_of_some (markTail?_exclamation hnull h)] at hs
    exact suffixed_rest ht hs v
  | rest hnull hreq h ht =>
    have hmark := markTail?_dots hnull hreq h
    have hlt := length_of_markTail? hmark
    rw [isLone_of_some hmark] at hs
    exact suffixed_rest ht hs v
  | posted _ _ _ _ hu => exact suffixed_of_suffixed hu v
termination_by s.length

/-! ## Function types -/

section

variable {s r ρ : List Char} {t u : DocType}

theorem exists_trimStart_of_returned? (h : returned? s = some ρ) : ∃ l, trimStart s = 'f' :: l := by
  obtain ⟨r₁, hopen, -⟩ := Option.bind_eq_some_iff.1 h
  have hword := (Option.ite_none_right_eq_some.1 hopen).1
  have happend := dottedName_append (trimStart s)
  rw [hword] at happend
  exact ⟨_, happend.symm⟩

theorem returned?_eq {n r₀ : List Char} (hn : dottedName (trimStart s) = (n, r₀)) :
    returned? s = (signature? n r₀).bind fun r => (closed? '(' ')' 1 r).bind (tail? ':') := by
  rw [returned?, hn]

/-- What is returned is read to where the function type ends, and with the sign behind it the function
type is read to where what is returned is. -/
theorem Derives.of_returned? (h : Derives .primary s [t] r) (hρ : returned? s = some ρ) :
    t = .function ∧ (∃ u, Derives .unary ρ [u] r) ∧
      ∀ {u x}, Derives .unary (ρ ++ ['=']) [u] x → Derives .primary (s ++ ['=']) [.function] x := by
  obtain ⟨l, hl⟩ := exists_trimStart_of_returned? hρ
  have hhead {c : Char} {s₁ : List Char} (hs : trimStart s = c :: s₁) : c = 'f' :=
    (List.cons.inj (hs.symm.trans hl)).1
  cases h with
  | grouped hs => exact absurd (hhead hs) (by decide)
  | all hs => exact absurd (hhead hs) (by decide)
  | quoted hs hq => exact absurd (hhead hs) (by rcases hq with rfl | rfl <;> decide)
  | record hs => exact absurd (hhead hs) (by decide)
  | array hs => exact absurd (hhead hs) (by decide)
  | table hs => exact absurd (hhead hs) (by decide)
  | named hs hc htable ht =>
    cases ht with
    | function hn hopen hr hcolon =>
      rw [returned?_eq (hs ▸ hn), hopen, Option.bind_some, hr, Option.bind_some, hcolon] at hρ
      cases hρ
    | returning hn hopen hr hcolon ht =>
      rw [returned?_eq (hs ▸ hn), hopen, Option.bind_some, hr, Option.bind_some, hcolon] at hρ
      obtain rfl := Option.some.inj hρ
      refine ⟨rfl, ⟨_, ht⟩, fun hu => ?_⟩
      refine .named (trimStart_append_of_cons hs _) hc (behind?_append_none (by decide) htable []) ?_
      refine .returning ?_ (signature?_append hopen _) (closed?_append hr _) (tail?_append hcolon _) hu
      rw [← List.cons_append, dottedName_append_stop (by decide +kernel) (by decide), hn]
    | name hn _ hopen =>
      rw [returned?_eq (hs ▸ hn), hopen] at hρ
      cases hρ
    | application hn _ hopen =>
      rw [returned?_eq (hs ▸ hn), hopen] at hρ
      cases hρ

end

/-! ## The sign behind an expression -/

/-- What becomes of a type when the sign is put behind it: it is made optional, unless the sign goes to
what a function returns. -/
structure Signed (core : List Char) (t u : DocType) : Prop where
  kept : OpenReturn core → u = t ∧ t.type = .named "Function"
  optional : ¬ OpenReturn core → u.type = t.type.intoOptional

/-- **A type that can take marks takes the sign.** -/
theorem Derives.sign {s r : List Char} {t : DocType} (h : Derives .unary s [t] r)
    (hr : trimStart r = []) (hs : isLone s = false) :
    ∃ u, Derives .unary (s ++ ['=']) [u] [] ∧ Signed (behindMarks s) t u := by
  have hnone {d : Char} (hd : '=' ≠ d) (h : tail? d s = none) : tail? d (s ++ ['=']) = none :=
    tail?_append_none (by decide) hd h []
  cases h with
  | unknown h hend =>
    rw [isLone_of_some (markTail?_question h), isLone_of_endsUnknown hend] at hs
    cases hs
  | nullable h hend ht =>
    have hmark := markTail?_question h
    have hlt := length_of_tail? h
    rw [isLone_of_some hmark] at hs
    obtain ⟨u, hu, hsigned⟩ := sign ht hr hs
    rw [behindMarks_of_some hmark]
    refine ⟨.nullable u, .nullable (tail?_append h _) ?_ hu, fun hopen => ?_, fun hopen => ?_⟩
    · exact (endsUnknown_append (by decide) _ []).trans hend
    · obtain ⟨rfl, htype⟩ := hsigned.kept hopen
      exact ⟨rfl, htype⟩
    · exact hsigned.optional hopen
  | required hnull h ht =>
    have hmark := markTail?_exclamation hnull h
    have hlt := length_of_tail? h
    rw [isLone_of_some hmark] at hs
    obtain ⟨u, hu, hsigned⟩ := sign ht hr hs
    rw [behindMarks_of_some hmark]
    exact ⟨u, .required (hnone (by decide) hnull) (tail?_append h _) hu, hsigned⟩
  | rest hnull hreq h ht =>
    have hmark := markTail?_dots hnull hreq h
    have hlt := length_of_markTail? hmark
    rw [isLone_of_some hmark] at hs
    obtain ⟨u, hu, hsigned⟩ := sign ht hr hs
    rw [behindMarks_of_some hmark]
    refine ⟨u, .rest (hnone (by decide) hnull) (hnone (by decide) hreq) ?_ hu, hsigned⟩
    rw [trimStart_append_stop (by decide), behind?_append h]
  | posted hnull hreq hrest ht hu =>
    have hmark : markTail? s = none := by rw [markTail?, hnull, hreq, hrest]; rfl
    have hdots : behind? ['.', '.', '.'] (trimStart (s ++ ['='])) = none := by
      rw [trimStart_append_stop (by decide)]
      exact behind?_append_none (by decide) hrest []
    rw [behindMarks_of_none hmark]
    by_cases hopen : OpenReturn s
    · -- What is returned takes the sign, as it has taken all other marks.
      obtain ⟨ρ, hρ, hlone⟩ := hopen
      obtain ⟨rfl, ⟨v, hv⟩, hsign⟩ := ht.of_returned? hρ
      obtain ⟨rfl, rfl⟩ := Prod.mk.inj ((hv.suffixed_rest hlone .function).symm.trans hu)
      have hlt := length_of_returned? hρ
      obtain ⟨w, hw, -⟩ := sign hv hr hlone
      refine ⟨.function, .posted (hnone (by decide) hnull) (hnone (by decide) hreq) hdots (hsign hw)
        (stops_nil.suffixed _), fun _ => ⟨rfl, rfl⟩, fun hclosed => ?_⟩
      exact absurd ⟨ρ, hρ, hlone⟩ hclosed
    · have happend := ht.append (fun h => absurd h hopen) (show '=' ∈ '=' :: listEnds by decide) []
      exact ⟨_, .posted (hnone (by decide) hnull) (hnone (by decide) hreq) hdots happend
        (suffixed_sign hu hr), fun h => absurd h hopen, fun _ => rfl⟩
termination_by s.length

/-! ## Whole texts -/

section

variable {e : String} {t : DocType} {s r : List Char}

/-- A lone question mark starts no function type. -/
theorem not_openReturn_of_isLone (h : isLone s = true) : ¬ OpenReturn (behindMarks s) := by
  rintro ⟨ρ, hρ, -⟩
  obtain ⟨l, hl⟩ := exists_trimStart_of_returned? hρ
  rw [isLone, hl] at h
  cases h

/-- An expression that is no union is read as one type. -/
theorem unary_of_parse? (h : parse? e = some t) (hunion : ∀ items, t ≠ .union items) :
    ∃ r, Derives .unary e.toList [t] r ∧ trimStart r = [] := by
  obtain ⟨r, hread, hr⟩ := parse?_eq_some_iff.1 h
  cases hread with
  | union ht hts =>
    cases hts with
    | noMember => exact ⟨r, ht, hr⟩
    | member => exact absurd rfl (hunion _)

theorem parse?_of_unary (h : Derives .unary e.toList [t] r) (hr : trimStart r = []) :
    parse? e = some t := by
  have hmembers : Derives .members r [] r := .noMember (by rw [tail?_eq, hr])
  exact parse?_eq_some_iff.2 ⟨r, .union h hmembers, hr⟩

theorem toList_sign (e : String) : (e ++ "=").toList = e.toList ++ ['='] := by simp

/-- Behind a lone question mark the sign is left over. -/
theorem parse?_sign_of_isLone (h : Derives .unary e.toList [t] r) (hr : trimStart r = [])
    (hlone : isLone e.toList = true) : parse? (e ++ "=") = none := by
  have hunary : Derives .unary (e.toList ++ ['=']) [t] (r ++ ['=']) :=
    h.append (fun hloose => by cases hlone.symm.trans hloose) (by decide) []
  have hrest : trimStart (r ++ ['=']) = ['='] := by rw [trimStart_append_stop (by decide), hr]; rfl
  have hmembers : Derives .members (r ++ ['=']) [] (r ++ ['=']) :=
    .noMember (by rw [tail?_eq, hrest]; rfl)
  rw [parse?_eq, toList_sign, union?_eq_some_iff.2 (.union hunary hmembers), Option.bind_some, hrest]
  rfl

theorem parse?_sign (h : Derives .unary e.toList [t] r) (hr : trimStart r = [])
    (hlone : isLone e.toList = false) :
    ∃ u, parse? (e ++ "=") = some u ∧ Signed (behindMarks e.toList) t u := by
  obtain ⟨u, hu, hsigned⟩ := h.sign hr hlone
  exact ⟨u, parse?_of_unary (toList_sign e ▸ hu) rfl, hsigned⟩

theorem ofDoc_of_parse? (h : parse? e = some t) : TypeInfo.ofDoc e = t.type := by
  rw [TypeInfo.ofDoc, h]

end

/-- **Where the mark for an optional type reaches the whole expression.** Put behind an expression
that is no union, the mark makes the whole type optional exactly when the expression does not end in a
question mark on its own, and is no function type that ends in what it returns, a lone question mark
apart. In the first of these cases the marked expression is not read at all; in the second it is read
as if there were no mark. -/
theorem optional_mark_reaches_iff (e : String) (t : DocType) (h : parse? e = some t)
    (hunion : ∀ items, t ≠ .union items) :
    ((parse? (e ++ "=")).isSome = true ∧
        TypeInfo.ofDoc (e ++ "=") = (TypeInfo.ofDoc e).intoOptional ↔
      isLone e.toList = false ∧ ¬ OpenReturn (behindMarks e.toList)) ∧
    (isLone e.toList = true → parse? (e ++ "=") = none) ∧
    (OpenReturn (behindMarks e.toList) → parse? (e ++ "=") = some t) := by
  obtain ⟨r, hread, hr⟩ := unary_of_parse? h hunion
  cases hlone : isLone e.toList with
  | true =>
    have hnone := parse?_sign_of_isLone hread hr hlone
    have hclosed := not_openReturn_of_isLone hlone
    simp [hnone, hclosed]
  | false =>
    obtain ⟨u, hu, hsigned⟩ := parse?_sign hread hr hlone
    rw [ofDoc_of_parse? hu, ofDoc_of_parse? h, hu]
    refine ⟨?_, fun h => absurd h Bool.false_ne_true, fun hopen => by rw [(hsigned.kept hopen).1]⟩
    by_cases hopen : OpenReturn (behindMarks e.toList)
    · -- The type of a function is not optional, so the mark is lost.
      obtain ⟨rfl, htype⟩ := hsigned.kept hopen
      rw [htype]
      simp [hopen, TypeInfo.named, TypeInfo.intoOptional]
    · simp [hopen, hsigned.optional hopen]

/-! ## Function types at work -/

/-- A function type without parameters up to what it returns. -/
def returningText (ρ : List Char) : List Char := 'f' :: ("unction".toList ++ '(' :: ')' :: ':' :: ρ)

section

variable {ρ r : List Char} {u : DocType}

theorem dottedName_returningText (ρ : List Char) :
    dottedName (returningText ρ) = ('f' :: "unction".toList, '(' :: ')' :: ':' :: ρ) := by
  have hword : "function".toList = 'f' :: "unction".toList := rfl
  have hread := dottedName_eq dotted_function
    (stops_cons (show '(' ∈ nameEnds by decide) (s := ')' :: ':' :: ρ))
  rwa [hword] at hread

theorem signature?_functionWord (s : List Char) :
    signature? ('f' :: "unction".toList) ('(' :: s) = some s :=
  (if_pos rfl).trans (tail?_self (by decide))

theorem closed?_empty (s : List Char) : closed? '(' ')' 1 (')' :: s) = some s := rfl

theorem returned?_returningText (ρ : List Char) : returned? (returningText ρ) = some ρ :=
  returned?_eq_some (dottedName_returningText ρ) (signature?_functionWord _) (closed?_empty _)
    (tail?_self (by decide))

theorem markTail?_returningText (ρ : List Char) : markTail? (returningText ρ) = none := by
  rw [markTail?, returningText, tail?_cons_of_ne (by decide) (by decide),
    tail?_cons_of_ne (by decide) (by decide), trimStart_cons (by decide),
    behind?_cons_of_ne (by decide)]
  rfl

theorem derives_returningText (h : Derives .unary ρ [u] r)
    (hr : suffixed .function r = (.function, r)) : Derives .unary (returningText ρ) [.function] r := by
  have hnamed : Derives .named (returningText ρ) [.function] r :=
    .returning (dottedName_returningText ρ) (signature?_functionWord _) (closed?_empty _)
      (tail?_self (by decide)) h
  have hprimary : Derives .primary (returningText ρ) [.function] r :=
    .named (trimStart_cons (by decide)) (by decide) (behind?_cons_of_ne (by decide)) hnamed
  refine .posted (tail?_cons_of_ne (by decide) (by decide)) (tail?_cons_of_ne (by decide) (by decide))
    ?_ hprimary hr
  rw [returningText, trimStart_cons (by decide)]
  exact behind?_cons_of_ne (by decide)

end

theorem derives_lone : Derives .unary ['?'] [.unknown] [] := .unknown (tail?_self (by decide)) rfl

theorem isLone_question : isLone ['?'] = true :=
  (isLone_of_some (markTail?_question (tail?_self (by decide)))).trans (isLone_of_endsUnknown rfl)

/-- A function that may be null and returns something unknown: what it returns is no place for the
mark, which therefore reaches the whole. -/
theorem returnsUnknown_optional :
    parse? "?function():?" = some (.nullable .function) ∧
      (parse? "?function():?=").isSome = true ∧
      TypeInfo.ofDoc "?function():?=" = (TypeInfo.ofDoc "?function():?").intoOptional := by
  have htext : "?function():?".toList = '?' :: returningText ['?'] := by decide
  have hfunction : trimStart (returningText ['?']) = returningText ['?'] := trimStart_cons (by decide)
  have hread : Derives .unary "?function():?".toList [.nullable .function] [] := by
    rw [htext]
    exact .nullable (tail?_self (by decide)) (by rw [hfunction]; rfl)
      (derives_returningText derives_lone (stops_nil.suffixed _))
  have hbehind : behindMarks "?function():?".toList = returningText ['?'] := by
    rw [htext, behindMarks_of_some (markTail?_question (tail?_self (by decide))),
      behindMarks_of_none (markTail?_returningText _)]
  have hparse := parse?_of_unary hread rfl
  have hunion (items : List DocType) : DocType.nullable .function ≠ .union items := by
    intro h
    cases h
  obtain ⟨hreaches, -, -⟩ := optional_mark_reaches_iff "?function():?" _ hparse hunion
  refine ⟨hparse, hreaches.2 ⟨?_, ?_⟩⟩
  · rw [isLone, hbehind, hfunction]
    rfl
  · rintro ⟨ρ, hρ, hlone⟩
    rw [hbehind, returned?_returningText] at hρ
    obtain rfl := Option.some.inj hρ
    cases isLone_question.symm.trans hlone

/-- The mark is not read behind a question mark on its own, and is lost where a function type ends in
what it returns. -/
theorem lone_and_returned_signs :
    parse? "?" = some .unknown ∧ parse? "?=" = none ∧
      parse? "function():*" = some .function ∧ parse? "function():*=" = some .function ∧
      TypeInfo.ofDoc "function():*=" ≠ (TypeInfo.ofDoc "function():*").intoOptional := by
  have htext : "function():*".toList = returningText ['*'] := by decide
  have hall : Derives .primary ['*'] [.all] [] := .all (trimStart_cons (by decide))
  have hlone : isLone ['*'] = false := isLone_of_primary rfl rfl rfl hall
  have hread : Derives .unary "function():*".toList [.function] [] := by
    rw [htext]
    exact derives_returningText (.posted rfl rfl rfl hall (stops_nil.suffixed _)) (stops_nil.suffixed _)
  have hbehind : behindMarks "function():*".toList = returningText ['*'] := by
    rw [htext, behindMarks_of_none (markTail?_returningText _)]
  have hopen : OpenReturn (behindMarks "function():*".toList) :=
    ⟨['*'], hbehind ▸ returned?_returningText _, hlone⟩
  have hnot : isLone "function():*".toList = false :=
    Bool.eq_false_iff.2 fun h => not_openReturn_of_isLone h hopen
  obtain ⟨u, hu, hsigned⟩ := parse?_sign hread rfl hnot
  have hquestion : Derives .unary "?".toList [.unknown] [] := derives_lone
  have hnone : parse? ("?" ++ "=") = none := parse?_sign_of_isLone hquestion rfl isLone_question
  have hparse : parse? "function():*" = some .function := parse?_of_unary hread rfl
  have hsame : parse? "function():*=" = some .function := by
    rw [(hsigned.kept hopen).1] at hu
    exact hu
  refine ⟨parse?_of_unary hquestion rfl, hnone, hparse, hsame, ?_⟩
  rw [ofDoc_of_parse? hparse, ofDoc_of_parse? hsame]
  decide

end ScriptAtlas.DocType
