/-
Repairs: the ways to go on with a text at which reading stops. Words can be
left out, so that the next word fits what is before them, or one word that
ends something can be put in. Each repair has a cost, and the best one is the
start of the cheapest way to the end of the text.
-/
import ScriptAtlas.Script.Lexeme

namespace ScriptAtlas.Script

namespace Lexeme

/-! ## Reading words -/

/-- Where reading of words stops: the words that whole statements take, and the word that does not
fit. -/
structure Halt where
  done : Nat
  stuck : Nat
  deriving DecidableEq, Repr, Inhabited

/-- Where reading stops, if not at the end. -/
def halt? (ls : List Lexeme) : Option Halt :=
  let input := Input.ofText (texts ls)
  let reply := script input
  let index (left : Nat) : Nat := min (indexAt (input.left - left) ls) (ls.length - 1)
  match reply.found with
  | none => some ⟨0, index reply.least⟩
  | some (_, rest) =>
    if rest.rest.isEmpty then none
    else
      let done := index rest.left
      some ⟨done, max done (index reply.least)⟩

/-- Reading goes more than `n` characters into `tail` after `before`. -/
def readsInto (before tail : List Char) (n : Nat) : Bool :=
  let input := Input.ofText (before ++ tail)
  input.left - (script input).least > before.length + n

/-- A statement can start after the text, on the same line. -/
def startsStatement (before : List Char) : Bool := readsInto before " for (;;".toList 6

/-- A member of a class can start after the text, on the same line. -/
def startsMember (before : List Char) : Bool := readsInto before " static \x7b".toList 8

/-- The word fits after the words, with no statement ended in between. A closing brace that can
follow where a semicolon can, but neither a statement nor a member, would end one. -/
def fits (before : List Lexeme) (next : Lexeme) (more : List Lexeme) : Bool :=
  let text := texts before ++ [' ']
  !before.any isOpen &&
    if next.text.isEmpty then before.isEmpty || startsStatement text && (pieces? text).isSome
    else
      readsInto text (next.text ++ texts (more.take 1)) 0 &&
        (next.text != ['\x7d'] || startsStatement text || startsMember text ||
          !readsInto text [';'] 0)

/-! ## The cost of leaving words out -/

/-- The text is one statement that needs no line break to end. -/
def isStatement (text : List Char) : Bool :=
  startsStatement text && ((pieces? text).map fun ps => (treeOf ps).parts.length) == some 1

/-- The text is one member of an object. -/
def isMember (text : List Char) : Bool :=
  let around := "(\x7b".toList ++ text ++ "\x7d)".toList
  match (pieces? around).map fun ps => (treeOf ps).ofKind .object with
  | some (n :: _) => n.parts.length == 1
  | _ => false

/-- Words that start no expression where they have their meaning. -/
def statementWords : List String :=
  ["var", "let", "const", "if", "else", "switch", "case", "default", "for", "while", "do", "try",
    "catch", "finally", "with", "break", "continue", "debugger", "return", "throw", "import",
    "export"]

/-- The words are one expression, list of parameters, member of an object or statement. -/
def isWhole (ls : List Lexeme) : Bool :=
  let text := body ls
  let leading := (ls.take 1).any fun l => statementWords.contains (String.ofList l.text)
  !leading && (pieces? ("0?".toList ++ text ++ ":0".toList)).isSome ||
    text.head? == some '(' &&
      (pieces? ("(function ".toList ++ text ++ "\x7b\x7d)".toList)).isSome ||
    isMember text || isStatement text

/-- The number of parts of the words that come first when `ends` tells the fewest parts of what
follows each of them. -/
def fewestParts (ls : List Lexeme) (ends : List Nat) : Nat :=
  let costs := ends.zipIdx.filterMap fun (rest, i) =>
    if i == 0 then some (rest + if (ls.take 1).any isOpen then 2 else 1)
    else if isWhole (ls.take (i + 1)) then some (rest + 1)
    else none
  costs.foldl min (2 * ls.length)

/-- The fewest parts of the words, and of what follows each of them. -/
def partCounts : List Lexeme → List Nat
  | [] => [0]
  | l :: ls =>
    let ends := partCounts ls
    fewestParts (l :: ls) ends :: ends

/-- The longest stretch of words whose parts are looked for. -/
def longestStretch : Nat := 16

/-- The number of parts that words make. -/
def partCount (ls : List Lexeme) : Nat :=
  if ls.length ≤ longestStretch then (partCounts ls).headD 0 else ls.length

/-- What it costs to leave out a text that has that many parts. -/
def lossOf (parts : Nat) (text : List Char) : Nat :=
  500 + 100 * parts + (String.ofList text).utf8ByteSize + 30 * text.count '\n'

end Lexeme

open Lexeme

/-! ## Repairs -/

/-- A way to go on: leave out the words from `first` to before `next`, or put a word in before
`place`. -/
inductive Repair where
  | leaveOut (first next : Nat)
  | putIn (place : Nat) (word : String)
  deriving DecidableEq, Repr, Inhabited

namespace Repair

/-- The words that can be put in. Of those that help only the first one is. -/
def closers : List String := ["0", "\x7d", ";", ")", "]"]

/-- The word helps when it is put in before word `place`. At the end of the text it has to end a
statement. -/
def helps (ls : List Lexeme) (place : Nat) (word : String) : Bool :=
  let before := ls.take place ++ [{ blank := [' '], text := word.toList }]
  match ls.drop place with
  | [] => false
  | next :: more =>
    if next.text.isEmpty then ["\x7d", ";"].contains word && startsStatement (texts before)
    else fits before next more

/-- Leave out all words. -/
def leaveOutAll (ls : List Lexeme) : Repair := leaveOut 0 (ls.length - 1)

/-- The repairs of words at which reading stops at word `stuck`: those near it, and the one that
leaves out all words. -/
def candidates (ls : List Lexeme) (stuck : Nat) : List Repair :=
  let firsts := 0 :: (List.range (stuck + 1)).filter fun i => 0 < i && stuck < i + 40
  let nexts := ((List.range 6).map (stuck + ·)).filter (· < ls.length)
  let cuts := firsts.flatMap fun i => (nexts.filter (i < ·)).map (leaveOut i)
  (closers.find? (helps ls stuck)).toList.map (putIn stuck) ++ cuts ++ [leaveOutAll ls]

/-- The repair makes reading go on. -/
def works (ls : List Lexeme) : Repair → Bool
  | leaveOut first next =>
    match ls.drop next with
    | [] => false
    | l :: more => fits (ls.take first) l more
  | putIn place word => helps ls place word

/-- The words that are left out: those that were read, and the others. -/
def lost (ls : List Lexeme) (stuck : Nat) : Repair → List Lexeme × List Lexeme
  | leaveOut first next => ((ls.take next).drop first).splitAt (stuck - first)
  | putIn .. => ([], [])

/-- The cost of putting a word in. -/
def gain : Nat := 610

/-- A bound from below for the cost. -/
def atLeast (ls : List Lexeme) (stuck : Nat) : Repair → Nat
  | putIn .. => gain
  | r =>
    let (read, others) := r.lost ls stuck
    lossOf (min read.length 1 + others.length) (body (read ++ others))

/-- The cost. Only words that were read make larger parts. -/
def cost (ls : List Lexeme) (stuck : Nat) : Repair → Nat
  | putIn .. => gain
  | r =>
    let (read, others) := r.lost ls stuck
    lossOf (partCount read + others.length) (body (read ++ others))

/-- The text before the place of the repair. -/
def lead (ls : List Lexeme) : Repair → List Char
  | leaveOut first _ => texts (ls.take first) ++ ((ls.drop first).head?.map gap).getD []
  | putIn place _ => texts (ls.take place) ++ ((ls.drop place).head?.map (·.notes)).getD []

/-- The words after the repair. -/
def result (ls : List Lexeme) : Repair → List Lexeme
  | leaveOut first next =>
    ls.take first ++ match ls.drop next with
      | [] => []
      | l :: more => { blank := [' '], text := l.text } :: more
  | putIn place word => ls.take place ++ { blank := [' '], text := word.toList } :: ls.drop place

/-- A way on: what it costs, how many words it leaves unread, and the text before its first
repair. -/
structure Way where
  cost : Nat := 0
  unread : Nat := 0
  lead : List Char := []
  deriving DecidableEq, Repr, Inhabited

/-- The cheaper way; of equally cheap ones the one that gets further, and then the one that starts
later. -/
def Way.better (a b : Way) : Way :=
  if b.cost < a.cost then b
  else if a.cost < b.cost then a
  else if b.unread < a.unread then b
  else if a.unread < b.unread then a
  else if a.lead.length ≤ b.lead.length then b
  else a

/-- The best way on, if one costs at most `limit`. It ends with the text or after `rounds`
repairs. -/
def best : (rounds : Nat) → (limit : Nat) → List Lexeme → Option Way
  | 0, _, ls => some { unread := ((halt? ls).map (ls.length - ·.stuck)).getD 0 }
  | n + 1, limit, ls =>
    match halt? ls with
    | none => some {}
    | some ⟨done, stuck⟩ =>
      let rest := ls.drop done
      let place := stuck - done
      let sorted := (candidates rest place).mergeSort
        fun a b => a.atLeast rest place ≤ b.atLeast rest place
      sorted.foldl (fun found r =>
        let bound := (found.map (·.cost)).getD limit
        if r.atLeast rest place > bound || !r.works rest then found
        else
          let here := r.cost rest place
          if here > bound then found
          else match best n (bound - here) (r.result rest) with
            | none => found
            | some after =>
              let lead := texts (ls.take done) ++ r.lead rest
              let way : Way := ⟨here + after.cost, after.unread, lead⟩
              if way.cost > bound then found
              else some ((found.map (·.better way)).getD way)) none

end Repair

end ScriptAtlas.Script
