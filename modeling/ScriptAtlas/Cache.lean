/-
The extraction cache. A stored extraction is reused only while its file has
the stamp that it was stored under. The stamp is taken before the file is
read, and a file whose extraction fails leaves no entry.
-/
import ScriptAtlas.Cache.Record
import ScriptAtlas.Cache.Store

namespace ScriptAtlas

namespace Store

/-- An extraction that could not be stored. -/
inductive Fault where
  | unwritable
  deriving DecidableEq, Repr

/-- What is said of the fault. -/
def Fault.message : Fault → String
  | unwritable => "Failed to encode extraction record"

/-- The extraction stored under the key, if its file still has the stamp. -/
def get? (s : Store) (key : String) (stamp : FileStamp) : Option Declarations := do
  (← ExtractionRecord.decode? (← s.load key)).declarationsFor? stamp

/-- Store an extraction of a file that has the stamp. -/
def set (s : Store) (key : String) (stamp : FileStamp) (d : Declarations) : Except Fault Store :=
  match ExtractionRecord.encode? ⟨ExtractionRecord.currentFormat, stamp, d⟩ with
  | some bytes => .ok (s.save key bytes)
  | none => .error .unwritable

/-- The stored extraction of a file that may have a stamp. -/
def stored? (s : Store) (key : String) (stamp : Option FileStamp) : Option Declarations := do
  s.get? key (← stamp)

/-- Keep an extraction for later. Without a stamp, or if it cannot be stored, nothing changes. -/
def keep (s : Store) (key : String) (stamp : Option FileStamp) (d : Declarations) : Store :=
  match stamp with
  | none => s
  | some stamp =>
    match s.set key stamp d with
    | .ok changed => changed
    | .error _ => s

/-- What a file declares: the stored extraction, or else what reading it now gives, which is kept. -/
def getOrExtract (s : Store) (key : String) (stamp : Option FileStamp)
    (extract : Unit → Option Declarations) : Option Declarations × Store :=
  match s.stored? key stamp with
  | some d => (some d, s)
  | none =>
    match extract () with
    | none => (none, s)
    | some d => (some d, s.keep key stamp d)

end Store

/-- Where the entries of a store live: with the program that opened it, or in a database that it
leaves behind. -/
inductive Medium where
  | memory
  | database
  deriving DecidableEq, Repr, Inhabited

/-- What is found in a store that is closed and opened again. -/
def Medium.reopen (m : Medium) (s : Store) : Store :=
  match m with
  | memory => {}
  | database => s

/-! ## Folders of the cache -/

/-- The folder of files with globals. -/
def globalsFolder : String := "globals"

/-- The folder of the scripts of units. -/
def unitsFolder : String := "units"

end ScriptAtlas
