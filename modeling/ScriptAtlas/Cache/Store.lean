/-
A store of bytes under keys. Keys are paths with slashes, so a store can be
asked for the keys of a folder: those that start with the folder and a slash.
Entries stand in the order of their keys, and a key has one entry.
-/
import ScriptAtlas.Cache.Codec
import ScriptAtlas.Ordered
import ScriptAtlas.Path
import ScriptAtlas.Text.Size

namespace ScriptAtlas

/-- Bytes under keys. -/
structure Store where
  entries : List (String × Bytes) := []
  deriving DecidableEq, Repr, Inhabited

namespace Store

/-- Store bytes under a key. -/
def save (s : Store) (key : String) (bytes : Bytes) : Store := ⟨Ordered.put key bytes s.entries⟩

/-- The bytes under a key. -/
def load (s : Store) (key : String) : Option Bytes := s.entries.lookup key

/-! ## Folders -/

/-- What a key has after a folder and its slash. Every key is in the folder without a name. -/
def restInFolder? (folder key : String) : Option (List Char) :=
  let name := (folder.toList.reverse.dropWhile (· == '/')).reverse
  if name.isEmpty then some key.toList else Text.dropLead? (name ++ ['/']) key.toList

/-- The key stands in the folder, or in a folder of it if asked for. -/
def inFolder (folder : String) (recursive : Bool) (key : String) : Bool :=
  match restInFolder? folder key with
  | none => false
  | some rest => !rest.isEmpty && (recursive || !rest.contains '/')

/-- The keys in a folder, in order. -/
def listFolder (s : Store) (folder : String) (recursive : Bool) : List String :=
  Ordered.sort ((s.entries.map (·.1)).filter (inFolder folder recursive))

/-- All keys in and below a folder, in order. -/
def keys (s : Store) (folder : String) : List String := s.listFolder folder true

/-- The key of a path in a folder: the folder and the components with a slash between them. -/
def keyOf (folder path : String) : String :=
  folder ++ "/" ++ Path.slashed (Path.components path)

/-! ## Size -/

/-- How much a store holds: the number of keys, and the bytes of keys and values. -/
structure Stats where
  entries : Nat
  bytes : Nat
  deriving DecidableEq, Repr, Inhabited

/-- What the store holds. An entry under the empty key does not count. -/
def stats (s : Store) : Stats where
  entries := (s.keys "").length
  bytes := (s.keys "").foldl (fun n k => n + k.utf8ByteSize + ((s.load k).getD []).length) 0

/-- The bytes for people to read. -/
def Stats.sizeText (s : Stats) : String := Text.sizeText s.bytes

/-! ## A store as bytes -/

/-- How a store is written: its entries in order. -/
def codec : Codec Store := (Codec.text.pair Codec.bytes).list.via Store.mk Store.entries

/-- The bytes of a store. -/
def encode? (s : Store) : Option Bytes := codec.write s

/-- The store that all of the bytes are. -/
def decode? (bytes : Bytes) : Option Store :=
  match codec.read bytes with
  | some (s, []) => some s
  | _ => none

end Store

end ScriptAtlas
