/-
Who reads which doc comment. A declarator at the top level is looked at twice:
its variable is extracted, and its name is bound in the walk that checks calls.
Extraction takes the doc block above the line of the declarator, the walk the
one above the line of the whole declaration. On one line these are the same. On
different lines they are two comments, if there are any, so that the types
agree only by chance: `doc_types_agree_iff`.
-/
import ScriptAtlas.Proofs.DeclarationSites
import ScriptAtlas.Proofs.ScopeResolution
import ScriptAtlas.Proofs.TypeRoundTrip

namespace ScriptAtlas

open Script

namespace Extraction

/-- The type that the doc block above a line gives to what is declared there. -/
def typeAbove (s : Source) (line : Nat) : Option TypeInfo :=
  ((s.comments.attachedTo line).filter Comment.isDocBlock).bind fun c =>
    (DocComment.parse c.text).declaredType

variable {s : Source} {file : String} {line line' : Nat} {c c' : Comment} {n : Node}

theorem docFor_declaredType (s : Source) (n : Node) :
    (docFor s n).bind (·.declaredType) = typeAbove s n.start.line := by
  simp only [docFor, typeAbove, Source.commentFor, Option.bind_map]
  rfl

theorem exists_of_typeAbove {type : TypeInfo} (h : typeAbove s line = some type) :
    ∃ c, s.comments.attachedTo line = some c := by
  obtain ⟨c, hc, -⟩ := Option.bind_eq_some_iff.1 h
  exact ⟨c, (Option.filter_eq_some_iff.1 hc).1⟩

/-- A comment belongs to one line only. -/
theorem endLine_of_attachedTo {m : CommentMap} (h : m.attachedTo line = some c) :
    c.endLine + 1 = line := by
  have hfits := List.find?_some h
  simp only [Bool.and_eq_true, beq_iff_eq] at hfits
  exact hfits.2

theorem comment_ne {m : CommentMap} (hne : line ≠ line') (h : m.attachedTo line = some c)
    (h' : m.attachedTo line' = some c') : c ≠ c' := by
  rintro rfl
  exact hne ((endLine_of_attachedTo h).symm.trans (endLine_of_attachedTo h'))

/-- Two lines have the same documented type if they are one line, if neither has any, or if two
comments give it. -/
theorem typeAbove_eq_iff : typeAbove s line = typeAbove s line' ↔
    line = line' ∨ typeAbove s line = none ∧ typeAbove s line' = none ∨
      typeAbove s line = typeAbove s line' ∧ ∃ c c', s.comments.attachedTo line = some c ∧
        s.comments.attachedTo line' = some c' ∧ c ≠ c' := by
  constructor
  · intro h
    by_cases hline : line = line'
    · exact .inl hline
    · cases htype : typeAbove s line' with
      | none => exact .inr (.inl ⟨h.trans htype, rfl⟩)
      | some type =>
        obtain ⟨c, hc⟩ := exists_of_typeAbove (h.trans htype)
        obtain ⟨c', hc'⟩ := exists_of_typeAbove htype
        exact .inr (.inr ⟨h.trans htype, c, c', hc, hc', comment_ne hline hc hc'⟩)
  · rintro (rfl | ⟨h, h'⟩ | ⟨h, -⟩)
    · rfl
    · rw [h, h']
    · exact h

/-! ## What is extracted -/

/-- The variable of a declarator at the top level is extracted. -/
theorem mem_vars_ofSource {declaration : Node} {v : Variable} (hmem : declaration ∈ s.root.parts)
    (hkind : declaration.kind = .varDeclaration ∨ declaration.kind = .lexicalDeclaration)
    (hn : n ∈ declaration.parts) (hk : n.kind = .declarator) (hv : ofDeclarator? s file n = some v) :
    v ∈ (Declarations.ofSource s file).vars := by
  rw [ofDeclarator?_eq_ite] at hv
  obtain ⟨⟨-, hid⟩, he⟩ := Option.ite_none_right_eq_some.1 hv
  rw [vars_ofSource]
  exact List.mem_map.2
    ⟨n, mem_variableNodes.2 ⟨declaration, hmem, hkind, hn, hk, hid⟩, Option.some.inj he⟩

theorem ofDeclarator?_eq {name : Node} (hk : n.kind = .declarator) (hname : n.child? .name = some name)
    (hid : name.kind = .identifier) :
    ofDeclarator? s file n = some (variableOf file name.text (docFor s n) n) := by
  rw [ofDeclarator?_eq_ite, if_pos ⟨hk, by simp [hname, hid]⟩, variableEntry, nameOf, hname]
  rfl

end Extraction

namespace Diagnostic

/-! ## What is done at a declarator -/

section

variable {s : Source} {site : Site} {here : Trail}

theorem mem_traceAll {ns : List Node} {i : Nat} : site ∈ traceAll s here i ns ↔
    ∃ k n, ns[k]? = some n ∧ n.kind ≠ .comment ∧ site ∈ trace s (here ++ [i + k]) n := by
  induction ns generalizing i with
  | nil => simp [traceAll]
  | cons n ns ih =>
    simp only [traceAll, List.mem_append, ih]
    constructor
    · rintro (h | ⟨k, m, hm, hk, h⟩)
      · split at h
        · simp at h
        · rename_i hk
          exact ⟨0, n, rfl, hk, h⟩
      · exact ⟨k + 1, m, hm, hk, by rwa [← Nat.add_right_comm, Nat.add_assoc] at h⟩
    · rintro ⟨k, m, hm, hk, h⟩
      cases k with
      | zero =>
        obtain rfl : n = m := Option.some.inj hm
        exact .inl (by rwa [if_neg hk])
      | succ k => exact .inr ⟨k, m, hm, hk, by rwa [← Nat.add_right_comm, Nat.add_assoc]⟩

theorem mem_traceDeclarators {declared : Option TypeInfo} {ns : List Node} {i : Nat} :
    site ∈ traceDeclarators s declared here i ns ↔
      ∃ k n, ns[k]? = some n ∧ n.kind = .declarator ∧
        (site ∈ traceRole s .value (here ++ [i + k]) 0 n.parts ∨
          site ∈ declaratorSites declared (here ++ [i + k]) n) := by
  induction ns generalizing i with
  | nil => simp [traceDeclarators]
  | cons n ns ih =>
    obtain ⟨kind, role, start, stop, text, parts⟩ := n
    simp only [traceDeclarators, List.mem_append, ih]
    constructor
    · rintro (h | ⟨k, m, hm, hk, h⟩)
      · split at h
        · rename_i hk
          exact ⟨0, _, rfl, hk, List.mem_append.1 h⟩
        · simp at h
      · exact ⟨k + 1, m, hm, hk, by rwa [← Nat.add_right_comm, Nat.add_assoc] at h⟩
    · rintro ⟨k, m, hm, hk, h⟩
      cases k with
      | zero =>
        obtain rfl := Option.some.inj hm
        exact .inl (by rwa [if_pos hk, List.mem_append])
      | succ k => exact .inr ⟨k, m, hm, hk, by rwa [← Nat.add_right_comm, Nat.add_assoc]⟩

variable {i j : Nat} {declaration declarator name : Node}

theorem trace_root (hs : s.WellFormed) : trace s [] s.root = traceAll s [] 0 s.root.parts := by
  have hk := hs.kind
  generalize s.root = root at hk ⊢
  obtain ⟨kind, role, start, stop, text, parts⟩ := root
  obtain rfl : kind = .program := hk
  rfl

theorem trace_declaration
    (hkind : declaration.kind = .varDeclaration ∨ declaration.kind = .lexicalDeclaration) :
    trace s here declaration =
      traceDeclarators s (Extraction.typeAbove s declaration.start.line) here 0 declaration.parts := by
  rw [← Extraction.docFor_declaredType]
  obtain ⟨kind, role, start, stop, text, parts⟩ := declaration
  rcases hkind with rfl | rfl <;> rfl

theorem at?_root_part {k : Nat} {n : Node} (hn : s.root.parts[k]? = some n) : s.root.at? [k] = some n := by
  have hroot : s.root.at? [] = some s.root := rfl
  exact Node.at?_part hroot hn

/-- What is done at a place in a part of the script is done in walking that part. -/
theorem mem_trace_part (hs : s.WellFormed) {t : Trail}
    (hdeclaration : s.root.parts[i]? = some declaration) (hk : declaration.kind ≠ .comment)
    (ht : site.trail = i :: t) : site ∈ trace s [] s.root ↔ site ∈ trace s [i] declaration := by
  rw [trace_root hs, mem_traceAll]
  constructor
  · rintro ⟨k, n, hn, -, hsite⟩
    rw [List.nil_append, Nat.zero_add] at hsite
    have hlead : [k] <+: i :: t := ht ▸ (tidy_trace (opensAt_root hs) s n (at?_root_part hn)
      (Node.lawful_part hs.lawful hn)).within site hsite
    obtain rfl : k = i := (List.cons_prefix_cons.1 hlead).1
    obtain rfl : n = declaration := Option.some.inj (hn.symm.trans hdeclaration)
    exact hsite
  · intro hsite
    exact ⟨i, declaration, hdeclaration, hk, by rwa [List.nil_append, Nat.zero_add]⟩

theorem mem_declaratorSites {declared : Option TypeInfo} (hname : declarator.child? .name = some name)
    (hid : name.kind = .identifier) : site ∈ declaratorSites declared here declarator ↔
      site = ⟨here, .declare name.text (.declarator (declared.orElse fun _ =>
        ((declarator.child? .value).bind (·.kind.literal?)).map LiteralKind.type))⟩ := by
  simp only [declaratorSites, hname, hid, if_true, List.mem_singleton]

/-- **At a declarator** that names a variable one thing is done: the name is declared, with the type
that the doc block above the declaration gives or else with that of the literal. -/
theorem mem_trace_declarator (hs : s.WellFormed)
    (hdeclaration : s.root.parts[i]? = some declaration)
    (hkind : declaration.kind = .varDeclaration ∨ declaration.kind = .lexicalDeclaration)
    (hdeclarator : declaration.parts[j]? = some declarator) (hk : declarator.kind = .declarator)
    (hname : declarator.child? .name = some name) (hid : name.kind = .identifier) :
    site ∈ trace s [] s.root ∧ site.trail = [i, j] ↔ site = ⟨[i, j], .declare name.text (.declarator
      ((Extraction.typeAbove s declaration.start.line).orElse fun _ =>
        ((declarator.child? .value).bind (·.kind.literal?)).map LiteralKind.type))⟩ := by
  have hcomment : declaration.kind ≠ .comment := by rcases hkind with hk | hk <;> simp [hk]
  have hlawful := Node.lawful_part hs.lawful hdeclaration
  have hat := at?_root_part hdeclaration
  rw [← mem_declaratorSites hname hid]
  constructor
  · rintro ⟨hsite, ht⟩
    rw [mem_trace_part hs hdeclaration hcomment ht, trace_declaration hkind, mem_traceDeclarators] at hsite
    obtain ⟨k, n, hn, hnk, hsite⟩ := hsite
    rw [Nat.zero_add] at hsite
    have hatn := Node.at?_part hat hn
    -- whatever is done in part `k` is done at or below it
    have hsame (hlead : [i] ++ [k] <+: site.trail) : k = j := by simpa [ht] using hlead
    rcases hsite with hsite | hsite
    · have hparts : Node.AllLawful n.parts := Node.allLawful_iff.2 fun m hm => by
        obtain ⟨k, hm⟩ := List.mem_iff_getElem?.1 hm
        exact Node.lawful_part (Node.lawful_part hlawful hn) hm
      have hunder := (tidy_traceRole (opensAt_root hs) s .value hatn 0 n.parts rfl hparts).within site hsite
      obtain rfl := hsame hunder.below
      exact absurd (ht ▸ List.prefix_rfl) hunder.not_around_here
    · obtain rfl := hsame (names_declaratorSites _ hatn hnk site hsite).1
      obtain rfl : n = declarator := Option.some.inj (hn.symm.trans hdeclarator)
      exact hsite
  · intro hsite
    have ht : site.trail = [i, j] := by rw [(mem_declaratorSites hname hid).1 hsite]
    refine ⟨?_, ht⟩
    rw [mem_trace_part hs hdeclaration hcomment ht, trace_declaration hkind, mem_traceDeclarators]
    exact ⟨j, declarator, hdeclarator, hk, .inr (by simpa using hsite)⟩

end

/-- **The documented type of a variable.** Extraction gives a declarator at the top level the type of
the doc block above its own line; the walk binds its name to that of the doc block above the
declaration, or else to that of its literal. Both read the same type exactly if the declarator starts on
the line of the declaration, if neither line has a type, or if two different comments give one type. -/
theorem doc_types_agree_iff (text : String) (s : Source) (h : Source.parse? text = some s)
    (file : String) (index : SymbolIndex) (options : ResolveOptions) (i j : Nat)
    (declaration declarator name : Node) (hdeclaration : s.root.parts[i]? = some declaration)
    (hkind : declaration.kind = .varDeclaration ∨ declaration.kind = .lexicalDeclaration)
    (hdeclarator : declaration.parts[j]? = some declarator) (hk : declarator.kind = .declarator)
    (hname : declarator.child? .name = some name) (hid : name.kind = .identifier) :
    let extracted := Extraction.typeAbove s declarator.start.line
    let bound := Extraction.typeAbove s declaration.start.line
    let literal := ((declarator.child? .value).bind (·.kind.literal?)).map LiteralKind.type
    (∃ v, Extraction.ofDeclarator? s file declarator = some v ∧
      v ∈ (Declarations.ofSource s file).vars ∧ v.name = name.text ∧
        v.type = extracted.getD .unknown) ∧
    (visit ⟨s, index, options⟩ s.root {} = run ⟨s, index, options⟩ (trace s [] s.root) {} ∧
      ∀ site, site ∈ trace s [] s.root ∧ site.trail = [i, j] ↔
        site = ⟨[i, j], .declare name.text (.declarator (bound.orElse fun _ => literal))⟩) ∧
    ((∀ type, extracted = some type ↔ bound = some type) ↔
      declarator.start.line = declaration.start.line ∨ extracted = none ∧ bound = none ∨
        extracted = bound ∧ ∃ c c', s.commentFor declarator = some c ∧
          s.commentFor declaration = some c' ∧ c ≠ c') := by
  intro extracted bound literal
  refine ⟨⟨_, Extraction.ofDeclarator?_eq hk hname hid, ?_, rfl, ?_⟩,
    ⟨visit_eq_run _ [] s.root {}, fun site => ?_⟩, ?_⟩
  · exact Extraction.mem_vars_ofSource (List.mem_of_getElem? hdeclaration) hkind
      (List.mem_of_getElem? hdeclarator) hk (Extraction.ofDeclarator?_eq hk hname hid)
  · rw [Extraction.variableOf, Extraction.docFor_declaredType]
  · exact mem_trace_declarator (wellFormed_of_parse? h) hdeclaration hkind hdeclarator hk hname hid
  · rw [← Option.ext_iff]
    exact Extraction.typeAbove_eq_iff

/-! ## A doc block above a declaration, and one inside of it -/

/-- A comment with one tag on one line has the tag that the line holds. -/
theorem tags_of_body {raw : String} {line : List Char}
    (h : (DocComment.body raw.toList).map Text.trim = [line]) (ht : DocComment.startsTag line = true) :
    (DocComment.parse raw).tags = [DocTag.parse line] := by
  simp [DocComment.parse, h, ht, DocComment.tagTexts, Text.joinWith]

theorem ofDoc_string : TypeInfo.ofDoc "string" = .named "string" := by
  have hrest : "tring".toList.all DocType.isNameChar = true := by decide +kernel
  have hname : DocType.Dotted "string".toList :=
    .one ⟨'s', "tring".toList, rfl, by decide, List.all_eq_true.1 hrest⟩
  have hread := (DocType.reads (.name "string") hname).whole DocType.stops_nil
  rw [List.append_nil] at hread
  have hparse : DocType.parse? "string" = some (.name "string") := by
    rw [DocType.parse?_eq]
    exact (congrArg (Option.bind · _) hread).trans rfl
  rw [TypeInfo.ofDoc, hparse]
  rfl

/-- A doc block that says that something is a string. -/
def stringTag : String := "/** @type \x7bstring\x7d */"

theorem declaredType_stringTag : (DocComment.parse stringTag).declaredType = some (.named "string") := by
  have hbody : (DocComment.body stringTag.toList).map Text.trim = ["@type \x7bstring\x7d".toList] := by
    decide +kernel
  have htag : DocTag.parse "@type \x7bstring\x7d".toList =
      { title := "type", typeExpr := some "string" } := by decide +kernel
  simp only [DocComment.declaredType, DocComment.tag?, tags_of_body hbody (by decide), htag]
  rw [← ofDoc_string]
  rfl

theorem typeAbove_stringTag {s : Source} {line : Nat}
    (h : (s.comments.attachedTo line).map (·.text) = some stringTag) :
    Extraction.typeAbove s line = some (.named "string") := by
  obtain ⟨c, hc, htext⟩ := Option.map_eq_some_iff.1 h
  have hdoc : c.isDocBlock = true := by
    rw [Comment.isDocBlock, htext]
    decide
  rw [Extraction.typeAbove, hc, Option.filter_some_pos hdoc, Option.bind_some, htext,
    declaredType_stringTag]

/-- A declaration over several lines, with a doc block for its second variable. -/
def documentedBetween : String := "var a = 1,\n  " ++ stringTag ++ "\n  b = f();\ndb.get(b);\n"

/-- The doc block gives the extracted variable a type, and none to the name that is bound in the walk, so
that a call with the wrong type is not found fault with. -/
theorem documentedBetween_types_differ :
    ∃ s, Source.parse? documentedBetween = some s ∧
      (∃ v ∈ (Declarations.ofSource s "").vars, v.name = "b" ∧ v.type = .named "string") ∧
      declarations s.root [1] "b" (trace s [] s.root) = [.declarator none] ∧
      ofSource numberLookup {} s = [] := by
  have hfacts : (Source.parse? documentedBetween).bind (fun s => s.root.parts[0]?.bind fun n =>
      n.parts[2]?.bind fun d => (d.child? .name).map fun name =>
        ((n.kind, d.kind, name.kind, name.text),
          (s.comments.attachedTo d.start.line).map (·.text),
          declarations s.root [1] "b" (trace s [] s.root), ofSource numberLookup {} s)) =
      some ((.varDeclaration, .declarator, .identifier, "b"), some stringTag, [.declarator none], []) := by
    decide +kernel
  obtain ⟨s, h, hfacts⟩ := Option.bind_eq_some_iff.1 hfacts
  obtain ⟨n, hn, hfacts⟩ := Option.bind_eq_some_iff.1 hfacts
  obtain ⟨d, hd, hfacts⟩ := Option.bind_eq_some_iff.1 hfacts
  obtain ⟨name, hname, hfacts⟩ := Option.map_eq_some_iff.1 hfacts
  simp only [Prod.mk.injEq] at hfacts
  obtain ⟨⟨hkind, hk, hid, htext⟩, hcomment, hforms, hfound⟩ := hfacts
  refine ⟨s, h, ⟨_, Extraction.mem_vars_ofSource (List.mem_of_getElem? hn) (.inl hkind)
    (List.mem_of_getElem? hd) hk (Extraction.ofDeclarator?_eq hk hname hid), htext, ?_⟩, hforms, hfound⟩
  rw [Extraction.variableOf, Extraction.docFor_declaredType, typeAbove_stringTag hcomment]
  rfl

/-- A declaration on one line with a doc block above it. -/
def documentedAbove : String := stringTag ++ "\nlet a = 1, b = 2;"

theorem documentedAbove_types_agree :
    ∃ s, Source.parse? documentedAbove = some s ∧
      (∃ v ∈ (Declarations.ofSource s "").vars, v.name = "b" ∧ v.type = .named "string") ∧
      ⟨[1, 1], .declare "b" (.declarator (some (.named "string")))⟩ ∈ trace s [] s.root := by
  have hfacts : (Source.parse? documentedAbove).bind (fun s => s.root.parts[1]?.bind fun n =>
      n.parts[1]?.bind fun d => (d.child? .name).map fun name =>
        ((n.kind, d.kind, name.kind, name.text), d.start.line == n.start.line,
          (s.comments.attachedTo d.start.line).map (·.text))) =
      some ((.lexicalDeclaration, .declarator, .identifier, "b"), true, some stringTag) := by
    decide +kernel
  obtain ⟨s, h, hfacts⟩ := Option.bind_eq_some_iff.1 hfacts
  obtain ⟨n, hn, hfacts⟩ := Option.bind_eq_some_iff.1 hfacts
  obtain ⟨d, hd, hfacts⟩ := Option.bind_eq_some_iff.1 hfacts
  obtain ⟨name, hname, hfacts⟩ := Option.map_eq_some_iff.1 hfacts
  simp only [Prod.mk.injEq, beq_iff_eq] at hfacts
  obtain ⟨⟨hkind, hk, hid, htext⟩, hline, hcomment⟩ := hfacts
  have htype := typeAbove_stringTag hcomment
  obtain ⟨⟨v, -, hmem, hv, hvtype⟩, ⟨-, hsite⟩, hagree⟩ :=
    doc_types_agree_iff _ s h "" {} {} 1 1 n d name hn (.inr hkind) hd hk hname hid
  have hbound := (hagree.2 (.inl hline) _).1 htype
  rw [htype] at hvtype
  rw [htext, hbound] at hsite
  exact ⟨s, h, ⟨v, hmem, hv.trans htext, hvtype⟩, ((hsite _).2 rfl).1⟩

end Diagnostic

end ScriptAtlas
