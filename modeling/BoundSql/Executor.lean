import BoundSql.Sql.Compiled

/-!
# Execution

The boundary at which compiled queries leave the library. An `Executor` says
what running a text with parameters does to the state of a connection; the
functions here decide whether and with what it is called.

A query for another backend may run as long as both backends write their
markers alike, and its binds are then sent as the connection's backend sends
them.
-/

namespace BoundSql

/-- A connection: its backend, and how it runs a text with parameters. Running
gives the number of rows affected. -/
structure Executor (σ : Type) where
  backend : Backend
  run : String → List Wire → σ → Except Error Nat × σ

namespace Executor

variable {σ : Type}

/-- Runs a compiled query. -/
def execute (x : Executor σ) (q : Compiled) (state : σ) : Except Error Nat × σ :=
  if q.backend.markerStyle = x.backend.markerStyle then
    match q.paramsFor x.backend with
    | .ok params => x.run q.sql params state
    | .error e => (.error e, state)
  else (.error (.foreignFragment x.backend q.backend), state)

/-- Runs a statement about an advisory lock, if the backend has one. -/
def runAdvisory (x : Executor σ) (sql? : Option String) (state : σ) : Except Error Unit × σ :=
  match x.backend.require .advisoryLock, sql? with
  | .ok (), some sql =>
      let answer := x.run sql [] state
      (answer.1.map fun _ => (), answer.2)
  | _, _ => (.error (x.backend.lacks .advisoryLock), state)

/-- Takes the advisory lock `key`. -/
def lock (x : Executor σ) (key : Int64) : σ → Except Error Unit × σ :=
  x.runAdvisory (x.backend.lockSql? key)

/-- Gives the advisory lock `key` back. -/
def unlock (x : Executor σ) (key : Int64) : σ → Except Error Unit × σ :=
  x.runAdvisory (x.backend.unlockSql? key)

end Executor

/-- A text that was run, with its parameters. -/
structure Call where
  sql : String
  params : List Wire
  deriving DecidableEq, Repr

/-- A connection that only records, the latest call last. The number of rows
affected is the number of calls so far. -/
def Executor.recording (b : Backend) : Executor (List Call) where
  backend := b
  run sql params calls := (.ok (calls.length + 1), calls ++ [⟨sql, params⟩])

/-- A connection on which everything fails with the same text. -/
def Executor.failing (b : Backend) (text : String) : Executor (List Call) where
  backend := b
  run _ _ calls := (.error (.database text), calls)

end BoundSql
