import RiAuth.Basic
import RiAuth.Lib.Program

/-!
# Transactions on the record store

Every record lives under the name `bucket/key`. A transaction callback is a program over those
names; the operations it is made of are the ones of `Tx`: `get`, `scan`, `scan_reverse` and the raw
write that `put` and `delete` end in. Stored bytes are a type variable `V`; `decode` turns them into
a record and fails on bytes that do not open or do not parse.
-/

namespace RiAuth.Store

/-- The name of a record. -/
def recordKey (bucket key : Text) : Text := bucket ++ '/' :: key

/-- A callback of `Store::read`, `Store::write` or `Store::prepared_write`. -/
abbrev Callback (V α : Type) := Program Text V Error α

namespace Tx

variable {V T : Type}

/-- `?` on a result inside a callback. -/
def lift {α : Type} (r : Result α) : Callback V α := .done r

/-- Read and decode one record. -/
def get (decode : Text → V → Result T) (bucket key : Text) : Callback V (Option T) := do
  match ← Program.read (recordKey bucket key) with
  | none => pure none
  | some bytes => return some (← lift (decode (recordKey bucket key) bytes))

end Tx

/-- `Store::write`: the callback runs alone and commits unless it fails. -/
def write {V α : Type} (f : Callback V α) (m : OrdMap Text V) : Result α × OrdMap Text V :=
  f.transact m

end RiAuth.Store
