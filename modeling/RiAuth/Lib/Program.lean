import RiAuth.Lib.OrdMap

/-!
# Programs over an ordered store

A program is a tree of point reads, point writes and range scans, each later operation free to
depend on what the earlier ones returned. A read may also hand the program an error; a program
may stop on it or go on (`Program.attempt`).

* `Program.run`       — the program run alone, reading and writing one map.
* `Program.transact`  — the same as a transaction: an error leaves the map unchanged.
-/

/-- A program over a store with names `K` and values `V`, failing with `E`, returning `α`. -/
inductive Program (K V E α : Type) where
  /-- The program is over. -/
  | done (result : Except E α)
  /-- Read one name. -/
  | get (name : K) (next : Except E (Option V) → Program K V E α)
  /-- Write one name; `none` deletes it. -/
  | put (name : K) (value : Option V) (next : Program K V E α)
  /-- Read a bounded range of names. -/
  | scan (range : OrdMap.Range K) (next : Except E (List (K × V)) → Program K V E α)

namespace Program

variable {K V E α β : Type}

/-- Run `p`, then `f` on its result; an error of `p` skips `f`. -/
protected def bind (p : Program K V E α) (f : α → Program K V E β) : Program K V E β :=
  match p with
  | done (.ok a) => f a
  | done (.error e) => done (.error e)
  | get name next => get name fun r => (next r).bind f
  | put name value next => put name value (next.bind f)
  | scan range next => scan range fun r => (next r).bind f

instance : Monad (Program K V E) where
  pure a := done (.ok a)
  bind := Program.bind

/-- Read one name. -/
def read (name : K) : Program K V E (Option V) := get name done

/-- Write one name. -/
def write (name : K) (value : Option V) : Program K V E Unit := put name value (done (.ok ()))

/-- Run a program and hand its error, if any, to the caller as a value. -/
def attempt : Program K V E α → Program K V E (Except E α)
  | done r => done (.ok r)
  | get name next => get name fun r => (next r).attempt
  | put name value next => put name value next.attempt
  | scan range next => scan range fun r => (next r).attempt

variable [LinearOrder K]

/-- The program run alone on a map: its result and the map it leaves. -/
def run : Program K V E α → OrdMap K V → Except E α × OrdMap K V
  | done r, m => (r, m)
  | get name next, m => (next (.ok (m.get? name))).run m
  | put name value next, m => next.run (m.set name value)
  | scan range next, m => (next (.ok (m.scan range))).run m

/-- The program as a transaction: its writes are kept when it succeeds and dropped when it
fails. -/
def transact (p : Program K V E α) (m : OrdMap K V) : Except E α × OrdMap K V :=
  match p.run m with
  | (.ok a, m') => (.ok a, m')
  | (.error e, _) => (.error e, m)

/-- A transaction that succeeds keeps what its run left. -/
theorem transact_of_run_ok {p : Program K V E α} {m m' : OrdMap K V} {a : α}
    (h : p.run m = (.ok a, m')) : p.transact m = (.ok a, m') := by
  rw [transact, h]

end Program
