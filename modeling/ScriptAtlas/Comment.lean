/-
Comments of a script, and the declaration each belongs to: the one that starts
on the line right below the comment's last line, provided that nothing but
blanks follows the comment on that line.
-/

namespace ScriptAtlas

/-- A comment with its delimiters, and the lines it covers, counted from 0. `endsLine` says that
no code follows on its last line. -/
structure Comment where
  text : String
  startLine : Nat
  endLine : Nat
  endsLine : Bool
  deriving DecidableEq, Repr, Inhabited

/-- The comment is a doc block. -/
def Comment.isDocBlock (c : Comment) : Bool :=
  "/**".toList.isPrefixOf c.text.toList && !"/**/".toList.isPrefixOf c.text.toList

/-- The comments of one script, in source order. -/
structure CommentMap where
  comments : List Comment := []
  deriving DecidableEq, Repr, Inhabited

namespace CommentMap

/-- The number of comments. -/
def size (m : CommentMap) : Nat := m.comments.length

/-- The comment that belongs to what starts on that line; of several the last. -/
def attachedTo (m : CommentMap) (line : Nat) : Option Comment :=
  m.comments.reverse.find? fun c => c.endsLine && c.endLine + 1 == line

end CommentMap

end ScriptAtlas
