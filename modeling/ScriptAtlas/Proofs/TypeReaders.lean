/-
The readers of type expressions, seen without the bounds that make them end.
`union?`, `unary?` and the others give what was read and what is left, and each
has one equation that says how it is put together from the others.
-/
import ScriptAtlas.DocType.Reader

namespace ScriptAtlas.DocType

open Text

section

variable {α : Type} {p : List Char → Prop}

/-- What was read and what is left, without what is known of its length. -/
def bare (o : Option (α × { r : List Char // p r })) : Option (α × List Char) :=
  o.map fun x => (x.1, x.2.1)

theorem rest_of_bare {o : Option (α × { r : List Char // p r })} {a : α} {r : List Char}
    (h : bare o = some (a, r)) : p r := by
  obtain ⟨⟨_, r', hr⟩, -, he⟩ := Option.map_eq_some_iff.1 h
  obtain ⟨-, rfl⟩ := Prod.mk.inj he
  exact hr

end

/-! ## Marks -/

/-- What follows the character, before which blanks may stand. -/
def tail? (c : Char) (s : List Char) : Option (List Char) := (eat? c s).map (·.1)

/-- What follows `lead`. -/
def behind? (lead s : List Char) : Option (List Char) := (after? lead s).map (·.1)

/-- What follows the bracket that closes. -/
def closed? (open_ close : Char) (depth : Nat) (s : List Char) : Option (List Char) :=
  (afterBalanced? open_ close depth s).map (·.1)

/-- What follows the mark that opens arguments. -/
def angle? (s : List Char) : Option (List Char) := (afterAngle? s).map (·.1)

/-- The type with the marks after it, and what is left. -/
def suffixed (t : DocType) (s : List Char) : DocType × List Char :=
  ((suffixes t s).1, (suffixes t s).2.1)

theorem tail?_eq (c : Char) (s : List Char) : tail? c s =
    match trimStart s with
    | [] => none
    | d :: r => if d = c then some r else none := by
  unfold tail? eat?
  split
  · rename_i h
    simp only [h, Option.map_none]
  · rename_i d r h
    simp only [h]
    split <;> rfl

theorem behind?_eq (lead s : List Char) :
    behind? lead s = if lead <+: s then some (s.drop lead.length) else none := by
  unfold behind? after?
  split <;> rfl

theorem angle?_eq (s : List Char) : angle? s = (behind? ['.', '<'] (trimStart s)).or (tail? '<' s) := by
  unfold angle? afterAngle? behind? tail?
  cases after? ['.', '<'] (trimStart s) <;> rfl

theorem suffixed_eq (t : DocType) (s : List Char) : suffixed t s =
    match trimStart s with
    | '[' :: ']' :: r => suffixed (.application (.name "Array") [t]) r
    | '=' :: r => suffixed (.optional t) r
    | _ => (t, s) := by
  unfold suffixed
  rw [suffixes]
  split
  · rename_i r h
    simp only [h]
  · rename_i r h
    simp only [h]
  · rename_i h h'
    split
    · rename_i r heq
      exact absurd heq (h r)
    · rename_i r heq
      exact absurd heq (h' r)
    · rfl

theorem length_of_tail? {c : Char} {s r : List Char} (h : tail? c s = some r) :
    r.length < s.length := by
  obtain ⟨r', -, rfl⟩ := Option.map_eq_some_iff.1 h
  exact r'.2

theorem length_of_behind? {lead s r : List Char} (h : behind? lead s = some r) :
    r.length + lead.length ≤ s.length := by
  obtain ⟨r', -, rfl⟩ := Option.map_eq_some_iff.1 h
  exact r'.2

theorem length_of_angle? {s r : List Char} (h : angle? s = some r) : r.length < s.length := by
  obtain ⟨r', -, rfl⟩ := Option.map_eq_some_iff.1 h
  exact r'.2

section

variable {c : Char} {lead s r : List Char}

theorem tail?_eq_some_iff : tail? c s = some r ↔ trimStart s = c :: r := by
  rw [tail?_eq]
  cases trimStart s with
  | nil => simp
  | cons d s => simp

/-! ## What is left -/

theorem suffix_trimStart (s : List Char) : trimStart s <:+ s := List.dropWhile_suffix _

theorem suffix_of_trimStart (h : trimStart s = c :: r) : r <:+ s :=
  (List.suffix_cons c r).trans (h ▸ suffix_trimStart s)

theorem length_of_trimStart (h : trimStart s = c :: r) : r.length < s.length := by
  have hlen := (suffix_trimStart s).length_le
  rw [h, List.length_cons] at hlen
  omega

theorem suffix_of_tail? (h : tail? c s = some r) : r <:+ s :=
  suffix_of_trimStart (tail?_eq_some_iff.1 h)

theorem suffix_of_behind? (h : behind? lead s = some r) : r <:+ s := by
  rw [behind?_eq] at h
  obtain ⟨-, hr⟩ := Option.ite_none_right_eq_some.1 h
  exact Option.some.inj hr ▸ List.drop_suffix _ _

theorem suffix_of_angle? (h : angle? s = some r) : r <:+ s := by
  rw [angle?_eq, Option.or_eq_some_iff] at h
  rcases h with h | ⟨-, h⟩
  · exact (suffix_of_behind? h).trans (suffix_trimStart s)
  · exact suffix_of_tail? h

theorem suffix_of_closed? {open_ close : Char} {depth : Nat}
    (h : closed? open_ close depth s = some r) : r <:+ s := by
  unfold closed? at h
  fun_induction afterBalanced? open_ close depth s with
  | case1 => cases h
  | case3 => exact Option.some.inj h ▸ List.suffix_cons _ _
  | case2 _ s ih | case4 _ s _ _ ih | case5 _ _ s _ _ ih =>
    rw [Option.map_map] at h
    exact (ih h).trans (List.suffix_cons _ _)

theorem suffix_of_dottedName {n : List Char} (h : dottedName s = (n, r)) : r <:+ s := by
  have happend := dottedName_append s
  rw [h] at happend
  exact ⟨n, happend⟩

theorem length_of_dottedName {n : List Char} (h : dottedName s = (c :: n, r)) :
    r.length < s.length := by
  have happend := congrArg List.length (dottedName_append s)
  simp only [h, List.length_append, List.length_cons] at happend
  omega

theorem suffix_suffixed (t : DocType) (s : List Char) : (suffixed t s).2 <:+ s := by
  unfold suffixed
  fun_induction suffixes t s with
  | case1 t s r hs _ t' r' heq ih =>
    rw [heq] at ih
    exact ih.trans ((List.suffix_cons _ _).trans (suffix_of_trimStart hs))
  | case2 t s r hs _ t' r' heq ih =>
    rw [heq] at ih
    exact ih.trans (suffix_of_trimStart hs)
  | case3 => exact List.suffix_rfl

end

/-! ## Readers -/

/-- Types separated by bars. -/
def union? (s : List Char) : Option (DocType × List Char) := bare (readUnion s)

/-- The further members of a union. -/
def members? (s : List Char) : Option (List DocType × List Char) := bare (readMembers s)

/-- A type behind its leading marks. -/
def unary? (s : List Char) : Option (DocType × List Char) := bare (readUnary s)

/-- A type without marks. -/
def primary? (s : List Char) : Option (DocType × List Char) := bare (readPrimary s)

/-- A type with the marks after it, without marks before it. -/
def posted? (s : List Char) : Option (DocType × List Char) :=
  (primary? s).map fun x => suffixed x.1 x.2

/-- A name, its arguments if it has any, or a function type. -/
def named? (s : List Char) : Option (DocType × List Char) := bare (readNamed s)

/-- Types separated by commas, up to and including `close`. -/
def list? (close : Char) (s : List Char) : Option (List DocType × List Char) := bare (readList close s)

/-- The further members of a list. -/
def items? (s : List Char) : Option (List DocType × List Char) := bare (readItems s)

theorem union?_eq (s : List Char) : union? s = (unary? s).bind fun x => (members? x.2).map fun y =>
    (if y.1.isEmpty then x.1 else .union (x.1 :: y.1), y.2) := by
  unfold union? unary?
  rw [readUnion]
  cases readUnary s with
  | none => rfl
  | some x =>
    simp only [members?, bare, Option.map_some, Option.bind_some]
    cases readMembers x.2.1 <;> rfl

theorem members?_eq (s : List Char) : members? s =
    match tail? '|' s with
    | none => some ([], s)
    | some r => (unary? r).bind fun x => (members? x.2).map fun y => (x.1 :: y.1, y.2) := by
  unfold members? tail? unary?
  rw [readMembers]
  cases eat? '|' s with
  | none => rfl
  | some r =>
    simp only [Option.map_some]
    cases readUnary r.1 with
    | none => rfl
    | some x =>
      simp only [bare, Option.map_some, Option.bind_some]
      cases readMembers x.2.1 <;> rfl

theorem unary?_eq (s : List Char) : unary? s =
    match tail? '?' s with
    | some r =>
      if endsUnknown (trimStart r) then some (.unknown, r)
      else (unary? r).map fun x => (.nullable x.1, x.2)
    | none =>
      match tail? '!' s with
      | some r => unary? r
      | none =>
        match behind? ['.', '.', '.'] (trimStart s) with
        | some r => unary? r
        | none => posted? s := by
  unfold unary? tail? behind? posted? primary? suffixed
  rw [readUnary]
  cases eat? '?' s with
  | some r =>
    simp only [Option.map_some]
    split
    · rfl
    · cases readUnary r.1 <;> rfl
  | none =>
    cases eat? '!' s with
    | some r =>
      simp only [Option.map_some, Option.map_none]
      cases readUnary r.1 <;> rfl
    | none =>
      cases after? ['.', '.', '.'] (trimStart s) with
      | some r =>
        simp only [Option.map_some, Option.map_none]
        cases readUnary r.1 <;> rfl
      | none =>
        simp only [Option.map_none]
        cases readPrimary s <;> rfl

theorem primary?_eq (s : List Char) : primary? s =
    match trimStart s with
    | [] => none
    | c :: r =>
      if c = '(' then (union? r).bind fun x => (tail? ')' x.2).map fun r' => (x.1, r')
      else if c = '*' then some (.all, r)
      else if c = '\x22' ∨ c = '\x27' then
        match r.dropWhile (· != c) with
        | [] => none
        | _ :: r' => some (.stringLiteral (String.ofList (r.takeWhile (· != c))), r')
      else if c = '{' then (closed? '{' '}' 1 r).map fun r' => (.record, r')
      else if c = '[' then (list? ']' r).map fun x => (.array x.1, x.2)
      else
        match behind? "db:/".toList (c :: r) with
        | some r' => some (.stringLiteral (String.ofList ("db:/".toList ++ r'.takeWhile isTableChar)),
            r'.dropWhile isTableChar)
        | none => if isNameStart c then named? (c :: r) else none := by
  unfold primary? trimStart
  rw [readPrimary]
  split
  · rename_i h
    simp only [h]
    rfl
  · rename_i c r h
    simp only [h]
    split
    · unfold union? tail?
      cases readUnion r with
      | none => rfl
      | some x =>
        simp only [bare, Option.map_some, Option.bind_some]
        cases eat? ')' x.2.1 <;> rfl
    split
    · rfl
    split
    · split
      · rename_i h'
        simp only [h']
        rfl
      · rename_i h'
        simp only [h']
        rfl
    split
    · unfold closed?
      cases afterBalanced? '{' '}' 1 r <;> rfl
    split
    · unfold list?
      cases readList ']' r <;> rfl
    unfold behind? named?
    cases after? "db:/".toList (c :: r) with
    | some r' => rfl
    | none =>
      simp only [Option.map_none]
      split
      · cases readNamed (c :: r) <;> rfl
      · rfl

theorem named?_eq (s : List Char) : named? s =
    match dottedName s with
    | ([], _) => none
    | (c :: n, r) =>
      match if c :: n = "function".toList then tail? '(' r else none with
      | some r₁ => (closed? '(' ')' 1 r₁).bind fun r₂ =>
        match tail? ':' r₂ with
        | none => some (.function, r₂)
        | some r₃ => (unary? r₃).map fun x => (.function, x.2)
      | none =>
        match angle? r with
        | none => some (.name (String.ofList (c :: n)), r)
        | some r₁ => (list? '>' r₁).map fun x =>
          (.application (.name (String.ofList (c :: n))) x.1, x.2) := by
  unfold named?
  rw [readNamed]
  split
  · rename_i h
    simp only [h]
    rfl
  · rename_i c n r h
    simp only [h]
    have opening : (if c :: n = "function".toList then tail? '(' r else none) =
        (if c :: n = "function".toList then eat? '(' r else none).map (·.1) := by
      split <;> rfl
    rw [opening]
    generalize (if c :: n = "function".toList then eat? '(' r else none) = opening
    cases opening with
    | some r₁ =>
      simp only [Option.map_some, closed?]
      cases afterBalanced? '(' ')' 1 r₁.1 with
      | none => rfl
      | some r₂ =>
        simp only [Option.map_some, Option.bind_some, tail?]
        cases eat? ':' r₂.1 with
        | none => rfl
        | some r₃ =>
          simp only [Option.map_some, unary?]
          cases readUnary r₃.1 <;> rfl
    | none =>
      simp only [Option.map_none, angle?]
      cases afterAngle? r with
      | none => rfl
      | some r₁ =>
        simp only [Option.map_some, list?]
        cases readList '>' r₁.1 <;> rfl

theorem list?_eq (close : Char) (s : List Char) : list? close s =
    (union? s).bind fun x => (items? x.2).bind fun y => (tail? close y.2).map fun r => (x.1 :: y.1, r) := by
  unfold list? union?
  rw [readList]
  cases readUnion s with
  | none => rfl
  | some x =>
    simp only [items?, bare, Option.map_some, Option.bind_some]
    cases readItems x.2.1 with
    | none => rfl
    | some y =>
      simp only [tail?, Option.map_some, Option.bind_some]
      cases eat? close y.2.1 <;> rfl

theorem items?_eq (s : List Char) : items? s =
    match tail? ',' s with
    | none => some ([], s)
    | some r => (union? r).bind fun x => (items? x.2).map fun y => (x.1 :: y.1, y.2) := by
  unfold items? tail? union?
  rw [readItems]
  cases eat? ',' s with
  | none => rfl
  | some r =>
    simp only [Option.map_some]
    cases readUnion r.1 with
    | none => rfl
    | some x =>
      simp only [bare, Option.map_some, Option.bind_some]
      cases readItems x.2.1 <;> rfl

theorem parse?_eq (expr : String) : parse? expr =
    (union? expr.toList).bind fun x => if (trimStart x.2).isEmpty then some x.1 else none := by
  unfold parse? union?
  cases readUnion expr.toList <;> rfl

theorem parse?_of_union? {expr : String} {t : DocType} (h : union? expr.toList = some (t, [])) :
    parse? expr = some t := by
  rw [parse?_eq, h]
  rfl

end ScriptAtlas.DocType
