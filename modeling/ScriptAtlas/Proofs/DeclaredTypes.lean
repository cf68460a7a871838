/-
The types in what a script declares. They come from the tags of doc comments, and
a doc comment stands in the script, so that no type expression is longer than the
script by more than a character (`length_of_mem_tags`). The types of such
expressions are well formed, and extraction only moves them around: into
parameters, which are optional exactly if their types are, into functions,
variables and classes, and into the scopes of a walk.
-/
import ScriptAtlas.Proofs.ScopeResolution
import ScriptAtlas.Proofs.TypeForm
import ScriptAtlas.Proofs.WholeText

namespace ScriptAtlas

/-! ## Well-formed declarations -/

/-- The type is well formed, and the parameter is optional exactly if its type is. -/
structure Param.WellFormed (p : Param) : Prop where
  type : p.type.WellFormed
  optional : p.optional = p.type.optional

/-- The types in a function are well formed. -/
structure Function.WellFormed (f : Function) : Prop where
  params : ∀ p ∈ f.params, p.WellFormed
  returns : f.returns.WellFormed

/-- The type of a variable is well formed. -/
def Variable.WellFormed (v : Variable) : Prop := v.type.WellFormed

/-- The types in a class are well formed. -/
structure Class.WellFormed (c : Class) : Prop where
  params : ∀ p ∈ c.params, p.WellFormed
  methods : ∀ f ∈ c.methods, f.WellFormed
  vars : ∀ v ∈ c.vars, v.WellFormed

/-- The types in declarations are well formed. -/
structure Declarations.WellFormed (d : Declarations) : Prop where
  functions : ∀ f ∈ d.functions, f.WellFormed
  vars : ∀ v ∈ d.vars, v.WellFormed
  classes : ∀ c ∈ d.classes, c.WellFormed

theorem Param.wellFormed_undocumented (name : String) (optional : Bool) :
    (Param.undocumented name optional).WellFormed := by
  cases optional with
  | false => exact ⟨TypeInfo.wellFormed_named _, rfl⟩
  | true => exact ⟨(TypeInfo.wellFormed_named _).intoOptional, rfl⟩

/-! ## How much text the lines hold -/

namespace Text

/-- The number of characters in lines, with one for the end of each. -/
def extent : List (List Char) → Nat
  | [] => 0
  | l :: ls => l.length + 1 + extent ls

theorem extent_le_of_sublist {ls ms : List (List Char)} (h : ls.Sublist ms) :
    extent ls ≤ extent ms := by
  induction h with
  | slnil => exact Nat.le_refl _
  | cons l _ ih => exact Nat.le_trans ih (Nat.le_add_left _ _)
  | cons_cons l _ ih => exact Nat.add_le_add_left ih _

theorem extent_map_le {f : List Char → List Char} (hf : ∀ l, (f l).length ≤ l.length) :
    ∀ ls : List (List Char), extent (ls.map f) ≤ extent ls
  | [] => Nat.le_refl _
  | l :: ls => Nat.add_le_add (Nat.succ_le_succ (hf l)) (extent_map_le hf ls)

theorem length_joinWith_le : ∀ ls : List (List Char), (joinWith ['\n'] ls).length ≤ extent ls
  | [] => Nat.zero_le _
  | [l] => by
    rw [joinWith, List.intercalate_singleton]
    exact Nat.le_succ _
  | l :: m :: ls => by
    have ih := length_joinWith_le (m :: ls)
    rw [joinWith, List.intercalate_cons_cons, ← joinWith, extent]
    simp only [List.length_append, List.length_singleton]
    omega

theorem length_lineBody_le (l : List Char) : (lineBody l).length ≤ l.length := by
  unfold lineBody
  split
  · exact (List.dropLast_sublist l).length_le
  · exact Nat.le_refl _

theorem extent_linesFrom_le (acc s : List Char) :
    extent (linesFrom acc s) ≤ acc.length + s.length + 1 := by
  -- `acc` is the line being read: its characters are counted before it ends.
  induction s generalizing acc with
  | nil =>
    unfold linesFrom
    split
    · exact Nat.zero_le _
    · simp [extent]
  | cons c s ih =>
    unfold linesFrom
    split
    · have hline := length_lineBody_le acc.reverse
      have hrest := ih []
      rw [List.length_reverse] at hline
      simp only [extent, List.length_cons, List.length_nil] at hrest ⊢
      omega
    · have hrest := ih (c :: acc)
      simp only [List.length_cons] at hrest ⊢
      omega

theorem length_trimStart_le (s : List Char) : (trimStart s).length ≤ s.length :=
  DocType.length_dropWhile_le isBlank s

theorem extent_map_lines_le {f : List Char → List Char} (hf : ∀ l, (f l).length ≤ l.length)
    (s : List Char) : extent ((lines s).map f) ≤ s.length + 1 := by
  have hlines := extent_linesFrom_le [] s
  rw [List.length_nil, Nat.zero_add] at hlines
  exact Nat.le_trans (extent_map_le hf _) hlines

theorem length_dropTail_le (tail s : List Char) :
    ((dropTail? tail s).getD s).length ≤ s.length := by
  unfold dropTail?
  split
  · exact (List.take_sublist _ _).length_le
  · exact Nat.le_refl _

theorem length_dropLead_le (lead s : List Char) :
    ((dropLead? lead s).getD s).length ≤ s.length := by
  unfold dropLead?
  split
  · exact (List.drop_sublist _ _).length_le
  · exact Nat.le_refl _

end Text

/-! ## Tags -/

open Text PlatformType

namespace DocTag

theorem length_of_splitClosing {open_ close : Char} {depth : Nat} {s inner after : List Char}
    (h : splitClosing open_ close depth s = some (inner, after)) :
    inner.length + after.length ≤ s.length := by
  fun_induction splitClosing open_ close depth s generalizing inner after with
  | case1 => cases h
  | case3 =>
    obtain ⟨rfl, rfl⟩ := Prod.mk.inj (Option.some.inj h)
    simp
  | case2 _ s ih | case4 _ s _ _ ih | case5 _ _ s _ _ ih =>
    obtain ⟨⟨a, b⟩, hab, h⟩ := Option.map_eq_some_iff.1 h
    obtain ⟨rfl, rfl⟩ := Prod.mk.inj h
    have hlen := ih hab
    simp only [List.length_cons]
    omega

theorem length_takeType (s : List Char) :
    (∀ t ∈ (takeType s).1, t.length ≤ s.length) ∧ (takeType s).2.length ≤ s.length := by
  unfold takeType
  split
  · rename_i s
    split
    · rename_i inner after h
      have hlen := length_of_splitClosing h
      have hinner := length_trim_le inner
      have hafter := length_trimStart_le after
      refine ⟨fun t ht => ?_, ?_⟩
      · obtain rfl := Option.some.inj ht
        simp only [List.length_cons]
        omega
      · simp only [List.length_cons]
        omega
    · refine ⟨fun t ht => ?_, Nat.zero_le _⟩
      obtain rfl := Option.some.inj ht
      exact Nat.le_succ_of_le (length_trim_le s)
  · exact ⟨nofun, Nat.le_refl _⟩

theorem length_takeWord (s : List Char) : ∀ w ∈ (takeWord s).1, w.length ≤ s.length := by
  intro w hw
  obtain ⟨-, hw⟩ := Option.ite_none_left_eq_some.1 hw
  exact Option.some.inj hw ▸ (List.takeWhile_sublist _).length_le

theorem length_of_mem_map {o : Option (List Char)} {n : Nat} (ho : ∀ t ∈ o, t.length ≤ n) :
    ∀ e ∈ o.map String.ofList, e.length ≤ n := by
  intro e he
  obtain ⟨t, ht, rfl⟩ := Option.map_eq_some_iff.1 he
  exact String.length_ofList ▸ ho t ht

/-- The type expression of a tag is no longer than its text. -/
theorem length_typeExpr_le (text : List Char) :
    ∀ e ∈ (parse text).typeExpr, e.length ≤ text.length := by
  unfold parse
  extract_lets body endsTitle title
  obtain ⟨htype, hrest⟩ := length_takeType (trimStart (body.dropWhile (!endsTitle ·)))
  have hlen : (trimStart (body.dropWhile (!endsTitle ·))).length ≤ text.length :=
    ((List.dropWhile_sublist _).trans ((List.dropWhile_sublist _).trans
      (List.dropWhile_sublist _))).length_le
  split
  rename_i type rest hpair
  rw [hpair] at htype hrest
  have hbraces : ∀ t ∈ type, t.length ≤ text.length := fun t ht => Nat.le_trans (htype t ht) hlen
  split
  · exact length_of_mem_map hbraces
  split
  · refine length_of_mem_map fun w hw => ?_
    exact Nat.le_trans (length_takeWord rest w hw) (Nat.le_trans hrest hlen)
  · exact length_of_mem_map hbraces

theorem wellFormed_type {t : DocTag} (h : ∀ e ∈ t.typeExpr, e.length < 2 ^ 32) :
    t.type.WellFormed := by
  unfold type
  split
  · rename_i expr he
    split
    · exact TypeInfo.wellFormed_named _
    · exact TypeInfo.wellFormed_ofDoc (h expr he)
  · exact TypeInfo.wellFormed_named _

end DocTag

/-! ## Doc comments -/

namespace DocComment

theorem length_dropGutter_le (l : List Char) : (dropGutter l).length ≤ l.length :=
  Nat.le_trans (length_dropLead_le _ _)
    (Nat.le_trans (length_dropLead_le _ _) (length_trimStart_le l))

theorem length_dropSlashes_le (l : List Char) : (dropSlashes l).length ≤ l.length :=
  Nat.le_trans (length_dropLead_le _ _)
    (Nat.le_trans (List.dropWhile_sublist _).length_le (length_trimStart_le l))

theorem extent_body_le (raw : List Char) : extent (body raw) ≤ raw.length + 1 := by
  have hraw := length_trim_le raw
  unfold body
  extract_lets text
  split
  · rename_i block hblock
    extract_lets inner lined
    have hlead := length_dropLead_le ['/', '*'] text
    rw [hblock, Option.getD_some] at hlead
    have hinner : inner.length ≤ block.length := (List.dropWhile_sublist _).length_le
    have hlined : lined.length ≤ inner.length := length_dropTail_le _ _
    have hlines := extent_map_lines_le length_dropGutter_le lined
    have htext : text.length ≤ raw.length := hraw
    omega
  · exact Nat.le_trans (extent_map_lines_le length_dropSlashes_le text) (Nat.succ_le_succ hraw)

theorem length_of_mem_tagTexts {ls : List (List Char)} :
    ∀ t ∈ tagTexts ls, t.length ≤ extent ls := by
  fun_induction tagTexts ls with
  | case1 => nofun
  | case2 l ls ih =>
    refine List.forall_mem_cons.2 ⟨Nat.le_trans (length_joinWith_le _) ?_, ?_⟩
    · exact extent_le_of_sublist
        ((List.filter_sublist.trans (List.takeWhile_sublist _)).cons_cons l)
    · intro t ht
      have hrest := extent_le_of_sublist (List.dropWhile_sublist (l := ls) (!startsTag ·))
      have hlen := ih t ht
      rw [extent]
      omega

/-- **No type expression is longer than its comment**, but for one character. -/
theorem length_of_mem_tags {raw : String} {t : DocTag} (ht : t ∈ (parse raw).tags) :
    ∀ e ∈ t.typeExpr, e.length ≤ raw.length + 1 := by
  intro e he
  obtain ⟨text, htext, rfl⟩ := List.mem_map.1 ht
  have hbody := extent_body_le raw.toList
  have htrim := extent_map_le length_trim_le (body raw.toList)
  have hdrop := extent_le_of_sublist
    (List.dropWhile_sublist (l := (body raw.toList).map trim) (!startsTag ·))
  have hlen := length_of_mem_tagTexts text htext
  have hexpr := DocTag.length_typeExpr_le text e he
  rw [String.length_toList] at hbody
  omega

/-- The types of the tags are well formed. -/
def WellFormed (d : DocComment) : Prop := ∀ t ∈ d.tags, t.type.WellFormed

theorem wellFormed_parse {raw : String} (h : raw.length + 1 < 2 ^ 32) : (parse raw).WellFormed :=
  fun _ ht => DocTag.wellFormed_type fun e he => Nat.lt_of_le_of_lt (length_of_mem_tags ht e he) h

section

variable {d : DocComment}

/-- What is documented of a parameter agrees: the mark on its name makes its type optional too. -/
theorem WellFormed.params (h : d.WellFormed) : ∀ p ∈ d.params, p.WellFormed := by
  intro p hp
  obtain ⟨t, ht, hp⟩ := List.mem_filterMap.1 hp
  obtain ⟨-, hp⟩ := Option.ite_none_right_eq_some.1 hp
  obtain ⟨name, -, rfl⟩ := Option.map_eq_some_iff.1 hp
  refine ⟨?_, rfl⟩
  dsimp only
  split
  · exact (h t ht).intoOptional
  · exact h t ht

theorem WellFormed.returns (h : d.WellFormed) : d.returns.WellFormed := by
  unfold DocComment.returns
  split
  · rename_i t ht
    exact h t (List.mem_of_find?_eq_some ht)
  · exact TypeInfo.wellFormed_named _

theorem WellFormed.declaredType (h : d.WellFormed) : ∀ t ∈ d.declaredType, t.WellFormed := by
  intro type htype
  obtain ⟨t, ht, rfl⟩ := Option.map_eq_some_iff.1 htype
  exact h t (List.mem_of_find?_eq_some ht)

end

end DocComment

/-! ## Extraction -/

namespace Extraction

open Script

theorem wellFormed_appendMissing {merged documented : List Param}
    (hm : ∀ p ∈ merged, p.WellFormed) (hd : ∀ p ∈ documented, p.WellFormed) :
    ∀ p ∈ appendMissing merged documented, p.WellFormed := by
  induction documented generalizing merged with
  | nil => exact hm
  | cons d ds ih =>
    obtain ⟨hd, hds⟩ := List.forall_mem_cons.1 hd
    unfold appendMissing
    split
    · exact ih hm hds
    · exact ih (List.forall_mem_append.2 ⟨hm, List.forall_mem_singleton.2 hd⟩) hds

theorem wellFormed_mergeParams {documented : List Param} (hd : ∀ p ∈ documented, p.WellFormed)
    (code : List CodeParam) : ∀ p ∈ mergeParams documented code, p.WellFormed := by
  refine wellFormed_appendMissing (fun p hp => ?_) hd
  obtain ⟨c, -, rfl⟩ := List.mem_map.1 hp
  cases hfind : documented.find? (·.name == c.name) with
  | none => exact Param.wellFormed_undocumented c.name c.optional
  | some p => exact hd p (List.mem_of_find?_eq_some hfind)

/-- The types in the doc comments of a script are well formed. -/
def Documented (s : Source) : Prop := ∀ n, ∀ d ∈ docFor s n, d.WellFormed

theorem documented_of_parse? {text : String} {s : Source} (h : Source.parse? text = some s)
    (hlen : text.length + 1 < 2 ^ 32) : Documented s := by
  intro n d hd
  obtain ⟨c, hc, rfl⟩ := Option.map_eq_some_iff.1 hd
  have hmem : c ∈ s.comments.comments :=
    List.mem_reverse.1 (List.mem_of_find?_eq_some (Option.filter_eq_some_iff.1 hc).1)
  have hle := (infix_of_mem_comments h hmem).length_le
  rw [String.length_toList, String.length_toList] at hle
  exact DocComment.wellFormed_parse (by omega)

section

variable {doc : Option DocComment} (hdoc : ∀ d ∈ doc, d.WellFormed)
include hdoc

theorem wellFormed_docParams : ∀ p ∈ (doc.map (·.params)).getD [], p.WellFormed := by
  cases doc with
  | none => nofun
  | some d => exact (hdoc d rfl).params

theorem wellFormed_functionOf (file name : String) (code : List CodeParam) (n : Node) :
    (functionOf file name doc code n).WellFormed where
  params := wellFormed_mergeParams (wellFormed_docParams hdoc) code
  returns := by
    cases doc with
    | none => exact TypeInfo.wellFormed_named _
    | some d => exact (hdoc d rfl).returns

theorem wellFormed_variableOf (file name : String) (n : Node) :
    (variableOf file name doc n).WellFormed := by
  unfold Variable.WellFormed variableOf
  cases htype : doc.bind (·.declaredType) with
  | none => exact TypeInfo.wellFormed_named _
  | some type =>
    obtain ⟨d, hd, htype⟩ := Option.bind_eq_some_iff.1 htype
    exact (hdoc d hd).declaredType type htype

end

section

variable {s : Source} (h : Documented s) (file : String)
include h

theorem wellFormed_classOf (name : String) (n : Node) (assigned : List SelfAssignment) :
    (classOf s file name n assigned).WellFormed where
  params := wellFormed_mergeParams (wellFormed_docParams (h n)) _
  methods := by
    intro f hf
    obtain ⟨a, -, hf⟩ := List.mem_filterMap.1 hf
    obtain ⟨-, hf⟩ := Option.ite_none_right_eq_some.1 hf
    exact Option.some.inj hf ▸ wellFormed_functionOf (h _) file _ _ _
  vars := by
    intro v hv
    obtain ⟨a, -, hv⟩ := List.mem_filterMap.1 hv
    obtain ⟨-, hv⟩ := Option.ite_none_right_eq_some.1 hv
    exact Option.some.inj hv ▸ wellFormed_variableOf (h _) file _ _

theorem wellFormed_ofFunction (n : Node) : (ofFunction s file n).WellFormed := by
  unfold ofFunction
  split
  · exact ⟨nofun, nofun, nofun⟩
  split
  · exact ⟨List.forall_mem_singleton.2 (wellFormed_functionOf (h n) file _ _ n), nofun, nofun⟩
  · exact ⟨nofun, nofun, List.forall_mem_singleton.2 (wellFormed_classOf h file _ n _)⟩

theorem wellFormed_of_ofDeclarator? {n : Node} {v : Variable}
    (hv : ofDeclarator? s file n = some v) : v.WellFormed := by
  unfold ofDeclarator? at hv
  obtain ⟨-, -, hv⟩ := Option.bind_eq_some_iff.1 hv
  obtain ⟨name, -, hv⟩ := Option.bind_eq_some_iff.1 hv
  obtain ⟨-, -, hv⟩ := Option.bind_eq_some_iff.1 hv
  exact Option.some.inj hv ▸ wellFormed_variableOf (h n) file _ n

theorem wellFormed_ofStatement (n : Node) : (ofStatement s file n).WellFormed := by
  unfold ofStatement
  split
  · exact wellFormed_ofFunction h file n
  · exact wellFormed_ofFunction h file n
  · refine ⟨nofun, fun v hv => ?_, nofun⟩
    obtain ⟨m, -, hv⟩ := List.mem_filterMap.1 hv
    exact wellFormed_of_ofDeclarator? h file hv
  · refine ⟨nofun, fun v hv => ?_, nofun⟩
    obtain ⟨m, -, hv⟩ := List.mem_filterMap.1 hv
    exact wellFormed_of_ofDeclarator? h file hv
  · exact ⟨nofun, nofun, nofun⟩

end

end Extraction

namespace Declarations

theorem WellFormed.append {a b : Declarations} (ha : a.WellFormed) (hb : b.WellFormed) :
    (a.append b).WellFormed where
  functions := List.forall_mem_append.2 ⟨ha.functions, hb.functions⟩
  vars := List.forall_mem_append.2 ⟨ha.vars, hb.vars⟩
  classes := List.forall_mem_append.2 ⟨ha.classes, hb.classes⟩

/-- **The types in what a script declares are well formed.** -/
theorem wellFormed_ofSource {s : Script.Source} (h : Extraction.Documented s) (file : String) :
    (ofSource s file).WellFormed := by
  have fold : ∀ (ns : List Script.Node) (d : Declarations), d.WellFormed →
      ((ns.map (Extraction.ofStatement s file)).foldl append d).WellFormed := by
    intro ns
    induction ns with
    | nil => exact fun d hd => hd
    | cons n ns ih =>
      exact fun d hd => ih _ (hd.append (Extraction.wellFormed_ofStatement h file n))
  exact fold s.root.named {} ⟨nofun, nofun, nofun⟩

end Declarations

/-! ## Scopes of a walk -/

theorem LiteralKind.wellFormed_type (k : LiteralKind) : k.type.WellFormed := by
  cases k <;> exact TypeInfo.wellFormed_named _

namespace ScopeStack

/-- The types that names are bound to are well formed. -/
def WellFormed (s : ScopeStack) : Prop := ∀ f ∈ s.top :: s.below, ∀ b ∈ f, b.2.WellFormed

section

variable {s : ScopeStack} {name : String} {type : TypeInfo}

theorem WellFormed.push (h : s.WellFormed) : s.push.WellFormed :=
  List.forall_mem_cons.2 ⟨h _ List.mem_cons_self, h⟩

theorem WellFormed.pop (h : s.WellFormed) : s.pop.WellFormed := by
  unfold ScopeStack.pop
  split
  · exact h
  · rename_i f fs hbelow
    have hall := (List.forall_mem_cons.1 h).2
    rwa [hbelow] at hall

theorem wellFormed_insert {f : Frame} (hf : ∀ b ∈ f, b.2.WellFormed) (ht : type.WellFormed) :
    ∀ b ∈ Frame.insert name type f, b.2.WellFormed := by
  induction f with
  | nil => exact List.forall_mem_singleton.2 ht
  | cons b f ih =>
    obtain ⟨hb, hf⟩ := List.forall_mem_cons.1 hf
    unfold Frame.insert
    split
    · exact List.forall_mem_cons.2 ⟨ht, hf⟩
    · exact List.forall_mem_cons.2 ⟨hb, ih hf⟩

theorem WellFormed.bind (h : s.WellFormed) (ht : type.WellFormed) :
    (s.bind name type).WellFormed := by
  obtain ⟨htop, hbelow⟩ := List.forall_mem_cons.1 h
  exact List.forall_mem_cons.2 ⟨wellFormed_insert htop ht, hbelow⟩

theorem mem_of_get? {f : Frame} (h : f.get? name = some type) : (name, type) ∈ f := by
  induction f with
  | nil => cases h
  | cons b f ih =>
    unfold Frame.get? at h
    split at h
    · rename_i hname
      exact hname ▸ Option.some.inj h ▸ List.mem_cons_self
    · exact List.mem_cons_of_mem _ (ih h)

theorem WellFormed.lookup (h : s.WellFormed) (ht : s.lookup name = some type) :
    type.WellFormed := by
  obtain ⟨f, hf, hget⟩ := List.exists_of_findSome?_eq_some ht
  exact h f hf _ (mem_of_get? hget)

end

end ScopeStack

namespace Diagnostic

open Script

/-- A type that the event binds a name to is well formed. -/
def Event.Typed : Event → Prop
  | .declare _ form => ∀ type ∈ form.bound?, type.WellFormed
  | _ => True

/-- The types that names are bound to on these sites are well formed. -/
def Typed (sites : List Site) : Prop := ∀ site ∈ sites, site.event.Typed

section

variable {t : Task} {w : Walk} {sites first rest : List Site} {form : Form}

theorem Event.Typed.run {e : Event} (h : e.Typed) (hw : w.scopes.WellFormed) :
    (e.run t w).scopes.WellFormed := by
  cases e with
  | enter => exact hw.push
  | leave => exact hw.pop
  | declare name form =>
    unfold Event.run
    dsimp only
    split
    · rename_i type htype
      exact hw.bind (h type htype)
    · exact hw
  | check call => exact checkCall_scopes t call w ▸ hw

theorem Typed.run (h : Typed sites) (hw : w.scopes.WellFormed) :
    (run t sites w).scopes.WellFormed := by
  induction sites generalizing w with
  | nil => exact hw
  | cons site sites ih =>
    obtain ⟨hsite, hsites⟩ := List.forall_mem_cons.1 h
    exact ih hsites (hsite.run hw)

/-- The types of arguments are well formed where those in scope are. -/
theorem wellFormed_actuals (hw : w.scopes.WellFormed) (call : Node) :
    ∀ type ∈ actuals w.scopes call, type.WellFormed := by
  intro type htype
  unfold actuals at htype
  cases hargs : call.child? .arguments with
  | none => simp [hargs] at htype
  | some args =>
    rw [hargs] at htype
    obtain ⟨n, -, rfl⟩ := List.mem_map.1 htype
    unfold actualType
    split
    · exact LiteralKind.wellFormed_type _
    · split
      · cases hlookup : w.scopes.lookup n.text with
        | none => exact TypeInfo.wellFormed_named _
        | some type => exact hw.lookup hlookup
      · exact TypeInfo.wellFormed_named _

@[simp] theorem typed_nil : Typed [] := nofun

@[simp] theorem typed_cons {site : Site} :
    Typed (site :: sites) ↔ site.event.Typed ∧ Typed sites := List.forall_mem_cons

@[simp] theorem typed_append : Typed (first ++ rest) ↔ Typed first ∧ Typed rest :=
  List.forall_mem_append

mutual

theorem typed_patternSites (hf : form.bound? = none) (here : Trail) :
    ∀ n : Node, Typed (patternSites form here n)
  | ⟨kind, role, start, stop, text, parts⟩ => by
    have single : Typed [⟨here, .declare text form⟩] := by simp [Event.Typed, hf]
    cases kind <;> simp only [patternSites]
    case identifier | shorthandPattern => exact single
    case arrayPattern | objectPattern | restPattern => exact typed_patternSitesAll hf here 0 parts
    case pairPattern | assignmentPattern | defaultedShorthand =>
      exact typed_patternSitesOf hf _ here 0 parts
    all_goals exact typed_nil

theorem typed_patternSitesAll (hf : form.bound? = none) (here : Trail) (i : Nat) :
    ∀ ns : List Node, Typed (patternSitesAll form here i ns)
  | [] => typed_nil
  | n :: ns => typed_append.2
      ⟨typed_patternSites hf _ n, typed_patternSitesAll hf here (i + 1) ns⟩

theorem typed_patternSitesOf (hf : form.bound? = none) (r : Role) (here : Trail) (i : Nat) :
    ∀ ns : List Node, Typed (patternSitesOf form r here i ns)
  | [] => typed_nil
  | n :: ns => by
    simp only [patternSitesOf]
    split
    · exact typed_patternSites hf _ n
    · exact typed_patternSitesOf hf r here (i + 1) ns

end

mutual

theorem typed_parameterSites (here : Trail) : ∀ n : Node, Typed (parameterSites here n)
  | ⟨kind, role, start, stop, text, parts⟩ => by
    cases kind <;> simp only [parameterSites]
    case identifier => simp [Event.Typed, Form.bound?, TypeInfo.any, TypeInfo.wellFormed_named]
    case restPattern => exact typed_parameterSitesAll here 0 parts
    all_goals exact typed_patternSites rfl here _

theorem typed_parameterSitesAll (here : Trail) (i : Nat) :
    ∀ ns : List Node, Typed (parameterSitesAll here i ns)
  | [] => typed_nil
  | n :: ns => typed_append.2 ⟨typed_parameterSites _ n, typed_parameterSitesAll here (i + 1) ns⟩

end

theorem typed_parameterSitesOf (r : Role) (here : Trail) (i : Nat) :
    ∀ ns : List Node, Typed (parameterSitesOf r here i ns)
  | [] => typed_nil
  | n :: ns => by
    simp only [parameterSitesOf]
    split
    · exact typed_parameterSites _ n
    · exact typed_parameterSitesOf r here (i + 1) ns

theorem typed_declaratorSites {declared : Option TypeInfo} (hd : ∀ type ∈ declared, type.WellFormed)
    (here : Trail) (n : Node) : Typed (declaratorSites declared here n) := by
  unfold declaratorSites
  split
  · exact typed_nil
  · split
    · refine typed_cons.2 ⟨fun type htype => ?_, typed_nil⟩
      cases declared with
      | some declared => exact hd type htype
      | none =>
        obtain ⟨k, -, rfl⟩ := Option.map_eq_some_iff.1 htype
        exact k.wellFormed_type
    · exact typed_patternSitesOf rfl _ here 0 n.parts

end

section

variable {s : Source}

theorem wellFormed_declared (h : Extraction.Documented s) (n : Node) :
    ∀ type ∈ (Extraction.docFor s n).bind (·.declaredType), type.WellFormed := by
  intro type htype
  obtain ⟨d, hd, htype⟩ := Option.bind_eq_some_iff.1 htype
  exact (h n d hd).declaredType type htype

mutual

/-- **Every type that a walk binds a name to is well formed.** -/
theorem typed_trace (h : Extraction.Documented s) (here : Trail) :
    ∀ n : Node, Typed (trace s here n)
  | ⟨kind, role, start, stop, text, parts⟩ => by
    have parts_typed := typed_traceAll h here 0 parts
    have function : Typed (⟨here, .enter⟩ :: (parameterSitesOf .parameter here 0 parts ++
        traceParameters s here 0 parts ++ traceRole s .body here 0 parts) ++ [⟨here, .leave⟩]) := by
      have single := typed_parameterSitesOf .parameter here 0 parts
      have params := typed_traceParameters h here 0 parts
      have body := typed_traceRole h .body here 0 parts
      simp [Event.Typed, single, params, body]
    cases kind <;> simp only [trace]
    case block => simp [Event.Typed, parts_typed]
    case varDeclaration | lexicalDeclaration =>
      exact typed_traceDeclarators h (wellFormed_declared h _) here 0 parts
    case functionDeclaration | generatorDeclaration | function | generator | arrow | method =>
      exact function
    case call => exact typed_cons.2 ⟨trivial, parts_typed⟩
    all_goals exact parts_typed
  termination_by structural n => n

theorem typed_traceAll (h : Extraction.Documented s) (here : Trail) (i : Nat) :
    ∀ ns : List Node, Typed (traceAll s here i ns)
  | [] => typed_nil
  | n :: ns => by
    refine typed_append.2 ⟨?_, typed_traceAll h here (i + 1) ns⟩
    split
    · exact typed_nil
    · exact typed_trace h _ n
  termination_by structural ns => ns

theorem typed_traceRole (h : Extraction.Documented s) (r : Role) (here : Trail) (i : Nat) :
    ∀ ns : List Node, Typed (traceRole s r here i ns)
  | [] => typed_nil
  | n :: ns => by
    simp only [traceRole]
    split
    · exact typed_trace h _ n
    · exact typed_traceRole h r here (i + 1) ns
  termination_by structural ns => ns

theorem typed_traceDeclarators (h : Extraction.Documented s) {declared : Option TypeInfo}
    (hd : ∀ type ∈ declared, type.WellFormed) (here : Trail) (i : Nat) :
    ∀ ns : List Node, Typed (traceDeclarators s declared here i ns)
  | [] => typed_nil
  | ⟨kind, role, start, stop, text, parts⟩ :: ns => by
    refine typed_append.2 ⟨?_, typed_traceDeclarators h hd here (i + 1) ns⟩
    split
    · exact typed_append.2 ⟨typed_traceRole h .value _ 0 parts, typed_declaratorSites hd _ _⟩
    · exact typed_nil
  termination_by structural ns => ns

theorem typed_traceParameters (h : Extraction.Documented s) (here : Trail) (i : Nat) :
    ∀ ns : List Node, Typed (traceParameters s here i ns)
  | [] => typed_nil
  | ⟨kind, role, start, stop, text, parts⟩ :: ns => by
    simp only [traceParameters]
    split
    · exact typed_traceParameterList h _ 0 parts
    · exact typed_traceParameters h here (i + 1) ns
  termination_by structural ns => ns

theorem typed_traceParameterList (h : Extraction.Documented s) (here : Trail) (i : Nat) :
    ∀ ns : List Node, Typed (traceParameterList s here i ns)
  | [] => typed_nil
  | ⟨kind, role, start, stop, text, parts⟩ :: ns => by
    refine typed_append.2 ⟨?_, typed_traceParameterList h here (i + 1) ns⟩
    split
    · exact typed_nil
    · exact typed_append.2
        ⟨typed_traceRole h .right _ 0 parts, typed_parameterSitesOf .left _ 0 parts⟩
    · exact typed_parameterSites _ _
  termination_by structural ns => ns

end

end

end Diagnostic

end ScriptAtlas
