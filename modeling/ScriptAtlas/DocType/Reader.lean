/-
Reading type expressions. Each reader takes the text from where it stands and
gives back what it read with what is left, which is always shorter: that is
why reading ends on every text. Blanks may stand before any token.
-/
import ScriptAtlas.DocType
import ScriptAtlas.Text.Blank
import ScriptAtlas.Text.Letter

namespace ScriptAtlas.DocType

open Text

/-- What is left of `s` after at least one character was read. -/
abbrev Rest (s : List Char) := { r : List Char // r.length < s.length }

theorem length_dropWhile_le (p : Char → Bool) (s : List Char) :
    (s.dropWhile p).length ≤ s.length :=
  (List.dropWhile_sublist p).length_le

/-- A name may start with this character. -/
def isNameStart (c : Char) : Bool := isLetter c || c == '_' || c == '$'

/-- A name may go on with this character. -/
def isNameChar (c : Char) : Bool := isLetterOrDigit c || c == '_' || c == '$'

/-- The path of a table may go on with this character. -/
def isTableChar (c : Char) : Bool :=
  isLetterOrDigit c || c == '_' || c == '/' || c == '-' || c == '.'

/-- After `lead`, which stands here. -/
def after? (lead : List Char) (s : List Char) : Option { r : List Char // r.length + lead.length ≤ s.length } :=
  if h : lead <+: s then
    some ⟨s.drop lead.length, by have := h.length_le; simp only [List.length_drop]; omega⟩
  else none

/-- After the character `c`, before which blanks may stand. -/
def eat? (c : Char) (s : List Char) : Option (Rest s) :=
  match h : trimStart s with
  | [] => none
  | d :: r =>
    if d = c then
      some ⟨r, by
        have := length_dropWhile_le isBlank s
        rw [trimStart] at h
        rw [h, List.length_cons] at this
        omega⟩
    else none

/-- After the mark that opens the arguments of a name, `<` or `.<`. -/
def afterAngle? (s : List Char) : Option (Rest s) :=
  match after? ['.', '<'] (trimStart s) with
  | some ⟨r, hr⟩ => some ⟨r, by
      have := length_dropWhile_le isBlank s
      simp only [List.length_cons, List.length_nil, trimStart] at hr
      omega⟩
  | none => eat? '<' s

/-- After the bracket that closes the one this text starts with, `depth` being open already. -/
def afterBalanced? (open_ close : Char) : Nat → (s : List Char) → Option (Rest s)
  | _, [] => none
  | depth, c :: s =>
    if c = open_ then
      (afterBalanced? open_ close (depth + 1) s).map fun r => ⟨r.1, Nat.lt_succ_of_lt r.2⟩
    else if c = close then
      if depth ≤ 1 then some ⟨s, Nat.lt_succ_self _⟩
      else (afterBalanced? open_ close (depth - 1) s).map fun r => ⟨r.1, Nat.lt_succ_of_lt r.2⟩
    else (afterBalanced? open_ close depth s).map fun r => ⟨r.1, Nat.lt_succ_of_lt r.2⟩

/-- A name and what follows it: identifiers joined by dots with nothing between. -/
def dottedName (s : List Char) : List Char × List Char :=
  match _h : s.dropWhile isNameChar with
  | '.' :: c :: r =>
    if isNameStart c then
      let (more, r') := dottedName (c :: r)
      (s.takeWhile isNameChar ++ '.' :: more, r')
    else (s.takeWhile isNameChar, '.' :: c :: r)
  | r => (s.takeWhile isNameChar, r)
termination_by s.length
decreasing_by
  have h1 := length_dropWhile_le isNameChar s
  rw [_h] at h1
  simp only [List.length_cons] at h1 ⊢
  omega

theorem dottedName_append (s : List Char) : (dottedName s).1 ++ (dottedName s).2 = s := by
  fun_induction dottedName s with
  | case1 s c r h hc more r' heq ih =>
    rw [heq] at ih
    simp only [List.append_assoc, List.cons_append, ih]
    rw [← h, List.takeWhile_append_dropWhile]
  | case2 s c r h hc => rw [← h, List.takeWhile_append_dropWhile]
  | case3 s => rw [List.takeWhile_append_dropWhile]

/-- A lone question mark stands before one of these, or at the end. -/
def endsUnknown (s : List Char) : Bool :=
  match s with
  | [] => true
  | c :: _ => c == ',' || c == '>' || c == ')' || c == ']' || c == '|' || c == '='

/-- The marks after a type: `[]` for an array of it and `=` for an optional one. -/
def suffixes (t : DocType) (s : List Char) : DocType × { r : List Char // r.length ≤ s.length } :=
  match h : trimStart s with
  | '[' :: ']' :: r =>
    have hr : r.length + 2 ≤ s.length := by
      have h1 := length_dropWhile_le isBlank s
      rw [trimStart] at h
      rw [h] at h1
      simp only [List.length_cons] at h1
      omega
    let (t', r') := suffixes (.application (.name "Array") [t]) r
    (t', ⟨r'.1, by have := r'.2; omega⟩)
  | '=' :: r =>
    have hr : r.length + 1 ≤ s.length := by
      have h1 := length_dropWhile_le isBlank s
      rw [trimStart] at h
      rw [h] at h1
      simp only [List.length_cons] at h1
      omega
    let (t', r') := suffixes (.optional t) r
    (t', ⟨r'.1, by have := r'.2; omega⟩)
  | _ => (t, ⟨s, Nat.le_refl _⟩)
termination_by s.length

mutual

/-- Types separated by bars; one alone is no union. -/
def readUnion (s : List Char) : Option (DocType × Rest s) :=
  match readUnary s with
  | none => none
  | some (t, ⟨r, hr⟩) =>
    match readMembers r with
    | none => none
    | some (ts, ⟨r', hr'⟩) =>
      some (if ts.isEmpty then t else .union (t :: ts), ⟨r', Nat.lt_of_le_of_lt hr' hr⟩)
termination_by (s.length, 4)

/-- The further members of a union. -/
def readMembers (s : List Char) : Option (List DocType × { r : List Char // r.length ≤ s.length }) :=
  match eat? '|' s with
  | none => some ([], ⟨s, Nat.le_refl _⟩)
  | some ⟨r, hr⟩ =>
    match readUnary r with
    | none => none
    | some (t, ⟨r', hr'⟩) =>
      match readMembers r' with
      | none => none
      | some (ts, ⟨r'', hr''⟩) => some (t :: ts, ⟨r'', by omega⟩)
termination_by (s.length, 0)

/-- A type behind its leading marks: `?`, `!` and three dots. -/
def readUnary (s : List Char) : Option (DocType × Rest s) :=
  match eat? '?' s with
  | some ⟨r, hr⟩ =>
    if endsUnknown (trimStart r) then some (.unknown, ⟨r, hr⟩)
    else match readUnary r with
      | none => none
      | some (t, ⟨r', hr'⟩) => some (.nullable t, ⟨r', by omega⟩)
  | none =>
    match eat? '!' s with
    | some ⟨r, hr⟩ =>
      match readUnary r with
      | none => none
      | some (t, ⟨r', hr'⟩) => some (t, ⟨r', by omega⟩)
    | none =>
      match after? ['.', '.', '.'] (trimStart s) with
      | some ⟨r, hr⟩ =>
        have hs := length_dropWhile_le isBlank s
        have hl : r.length < s.length := by
          simp only [List.length_cons, List.length_nil, trimStart] at hr; omega
        match readUnary r with
        | none => none
        | some (t, ⟨r', hr'⟩) => some (t, ⟨r', by omega⟩)
      | none =>
        match readPrimary s with
        | none => none
        | some (t, ⟨r, hr⟩) =>
          let (t', ⟨r', hr'⟩) := suffixes t r
          some (t', ⟨r', by omega⟩)
termination_by (s.length, 3)

/-- A type without marks. -/
def readPrimary (s : List Char) : Option (DocType × Rest s) :=
  have hs := length_dropWhile_le isBlank s
  match h : s.dropWhile isBlank with
  | [] => none
  | c :: r =>
    have hl : r.length < s.length := by rw [h, List.length_cons] at hs; omega
    if c = '(' then
      match readUnion r with
      | none => none
      | some (t, ⟨r', hr'⟩) =>
        match eat? ')' r' with
        | none => none
        | some ⟨r'', hr''⟩ => some (t, ⟨r'', by omega⟩)
    else if c = '*' then some (.all, ⟨r, hl⟩)
    else if c = '\x22' ∨ c = '\x27' then
      match h' : r.dropWhile (· != c) with
      | [] => none
      | _ :: r' =>
        some (.stringLiteral (String.ofList (r.takeWhile (· != c))), ⟨r', by
          have := length_dropWhile_le (· != c) r
          rw [h'] at this
          simp only [List.length_cons] at this
          omega⟩)
    else if c = '{' then
      match afterBalanced? '{' '}' 1 r with
      | none => none
      | some ⟨r', hr'⟩ => some (.record, ⟨r', by omega⟩)
    else if c = '[' then
      match readList ']' r with
      | none => none
      | some (ts, ⟨r', hr'⟩) => some (.array ts, ⟨r', by omega⟩)
    else
      match after? "db:/".toList (c :: r) with
      | some ⟨r', hr'⟩ =>
        some (.stringLiteral (String.ofList ("db:/".toList ++ r'.takeWhile isTableChar)),
          ⟨r'.dropWhile isTableChar, by
            have := length_dropWhile_le isTableChar r'
            rw [show "db:/".toList = ['d', 'b', ':', '/'] from rfl] at hr'
            simp only [List.length_cons, List.length_nil] at hr'
            omega⟩)
      | none => if isNameStart c then
          match readNamed (c :: r) with
          | none => none
          | some (t, ⟨r', hr'⟩) => some (t, ⟨r', by rw [h] at hs; omega⟩)
        else none
termination_by (s.length, 2)
decreasing_by
  all_goals first
    | (apply Prod.Lex.left; omega)
    | (rw [h] at hs; rcases Nat.lt_or_eq_of_le hs with hlt | heq
       · exact Prod.Lex.left _ _ hlt
       · rw [heq]; exact Prod.Lex.right _ (by omega))

/-- A name, its arguments if it has any, or a function type. -/
def readNamed (s : List Char) : Option (DocType × Rest s) :=
  match hn : dottedName s with
  | ([], _) => none
  | (c :: n, r) =>
    have hlt : r.length < s.length := by
      have h := congrArg List.length (dottedName_append s)
      rw [hn] at h
      simp only [List.length_append, List.length_cons] at h
      omega
    match if c :: n = "function".toList then eat? '(' r else none with
    | some ⟨r₁, h₁⟩ =>
      match afterBalanced? '(' ')' 1 r₁ with
      | none => none
      | some ⟨r₂, h₂⟩ =>
        match eat? ':' r₂ with
        | none => some (.function, ⟨r₂, by omega⟩)
        | some ⟨r₃, h₃⟩ =>
          match readUnary r₃ with
          | none => none
          | some (_, ⟨r₄, h₄⟩) => some (.function, ⟨r₄, by omega⟩)
    | none =>
      match afterAngle? r with
      | none => some (.name (String.ofList (c :: n)), ⟨r, hlt⟩)
      | some ⟨r₁, h₁⟩ =>
        match readList '>' r₁ with
        | none => none
        | some (ts, ⟨r₂, h₂⟩) =>
          some (.application (.name (String.ofList (c :: n))) ts, ⟨r₂, by omega⟩)
termination_by (s.length, 1)

/-- One or more types separated by commas, up to and including `close`. -/
def readList (close : Char) (s : List Char) : Option (List DocType × Rest s) :=
  match readUnion s with
  | none => none
  | some (t, ⟨r, hr⟩) =>
    match readItems r with
    | none => none
    | some (ts, ⟨r', hr'⟩) =>
      match eat? close r' with
      | none => none
      | some ⟨r'', hr''⟩ => some (t :: ts, ⟨r'', by omega⟩)
termination_by (s.length, 5)

/-- The further members of a list. -/
def readItems (s : List Char) : Option (List DocType × { r : List Char // r.length ≤ s.length }) :=
  match eat? ',' s with
  | none => some ([], ⟨s, Nat.le_refl _⟩)
  | some ⟨r, hr⟩ =>
    match readUnion r with
    | none => none
    | some (t, ⟨r', hr'⟩) =>
      match readItems r' with
      | none => none
      | some (ts, ⟨r'', hr''⟩) => some (t :: ts, ⟨r'', by omega⟩)
termination_by (s.length, 0)

end

/-- The expression a text holds, when the whole text is one. -/
def parse? (expr : String) : Option DocType :=
  match readUnion expr.toList with
  | some (t, r) => if (trimStart r.1).isEmpty then some t else none
  | none => none

end ScriptAtlas.DocType

namespace ScriptAtlas.TypeInfo

/-- The type a doc expression stands for; what cannot be read is `unknown`. -/
def ofDoc (expr : String) : TypeInfo :=
  match DocType.parse? expr with
  | some t => t.type
  | none => .unknown

end ScriptAtlas.TypeInfo
