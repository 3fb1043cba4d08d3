import BoundSql.Executor
import Mathlib.Data.List.Forall2

/-!
# What an executor is called with

A connection is asked for a list of things in turn: to run compiled queries, to
take advisory locks and to give them back. Every such request either reaches the
connection whole or does not reach it at all.

`Executor.Served` has one rule for each way a request can go and says in it when
the request goes that way, what the connection is called with, and what the
caller is told. `Executor.logged` is a connection together with a log of its
calls. The main statement is that the runs the rules allow are the run that
happens: for every connection, every list of requests and every state there is
one, and its calls are those in the log.
-/

namespace BoundSql

namespace Backend

variable {b : Backend} {e : Error}

/-- Only arrays cannot be sent, and only by a backend without them. -/
theorem encode_eq_error_iff {bind : Bind} :
    b.encode bind = .error e ↔
      (∃ a, bind = .array a) ∧ b.supports .arrays = false ∧ e = b.lacks .arrays := by
  cases bind with
  | array a => cases hs : b.supports .arrays <;> simp [encode, require, hs, eq_comm]
  | _ => simp [encode]

/-- What a list of binds is sent as, bind by bind. -/
theorem encodeAll_eq_ok_iff {binds : List Bind} {params : List Wire} :
    b.encodeAll binds = .ok params ↔
      List.Forall₂ (fun bind wire => b.encode bind = .ok wire) binds params := by
  induction binds generalizing params with
  | nil => simp [encodeAll, eq_comm]
  | cons bind rest ih =>
    simp only [encodeAll, List.forall₂_cons_left_iff, ← ih]
    cases b.encode bind with
    | error e => simp
    | ok wire => cases b.encodeAll rest <;> simp [Except.map, eq_comm]

/-- When binds cannot be sent: an array is among them and the backend has no
arrays. -/
def Refuses (b : Backend) (binds : List Bind) : Prop :=
  (∃ a, .array a ∈ binds) ∧ b.supports .arrays = false

/-- That is the only reason why they are not sent. -/
theorem encodeAll_eq_error_iff {binds : List Bind} :
    b.encodeAll binds = .error e ↔ b.Refuses binds ∧ e = b.lacks .arrays := by
  induction binds with
  | nil => simp [encodeAll, Refuses]
  | cons bind rest ih =>
    have hsplit : b.Refuses (bind :: rest) ↔
        ((∃ a, bind = .array a) ∧ b.supports .arrays = false) ∨ b.Refuses rest := by
      simp only [Refuses, List.mem_cons, exists_or, or_and_right, @eq_comm _ bind]
    rw [hsplit, encodeAll]
    cases hb : b.encode bind with
    | error e' =>
      obtain ⟨harray, hs, rfl⟩ := encode_eq_error_iff.mp hb
      simp [harray, hs, eq_comm]
    | ok wire =>
      have hsent : ¬ ((∃ a, bind = .array a) ∧ b.supports .arrays = false) :=
        fun ⟨harray, hs⟩ => by simp [encode_eq_error_iff.mpr ⟨harray, hs, rfl⟩] at hb
      rw [or_iff_right hsent, ← ih]
      cases b.encodeAll rest <;> simp [Except.map]

end Backend

/-- What is done with an advisory lock. -/
inductive LockAction where
  | take
  | giveBack
  deriving DecidableEq, Repr

/-- The statement of an action on an advisory lock. -/
def LockAction.sql? : LockAction → Int64 → Backend → Option String
  | .take => Backend.lockSql?
  | .giveBack => Backend.unlockSql?

/-- The backends with advisory locks are those with statements for them. -/
theorem LockAction.sql?_isSome (action : LockAction) (key : Int64) (b : Backend) :
    (action.sql? key b).isSome = b.supports .advisoryLock := by
  cases action <;> cases b <;> rfl

/-- What a caller asks of a connection. -/
inductive Request where
  | execute (q : Compiled)
  | advisory (action : LockAction) (key : Int64)

/-- What the caller is told. -/
inductive Answer where
  | rows (outcome : Except Error Nat)
  | done (outcome : Except Error Unit)

namespace Executor

variable {σ : Type} {x : Executor σ} {q : Compiled} {r : Request} {s s' : σ}

/-- Serves one request. -/
def serve (x : Executor σ) : Request → σ → Answer × σ
  | .execute q, s => (x.execute q s).map .rows id
  | .advisory .take key, s => (x.lock key s).map .done id
  | .advisory .giveBack key, s => (x.unlock key s).map .done id

/-- Serves requests in turn, whatever the answers are. -/
def serveAll (x : Executor σ) : List Request → σ → List Answer × σ
  | [], s => ([], s)
  | r :: rest, s =>
      let first := x.serve r s
      let others := x.serveAll rest first.2
      (first.1 :: others.1, others.2)

/-- A connection and the log of its calls, the latest last. -/
def logged (x : Executor σ) : Executor (σ × List Call) where
  backend := x.backend
  run sql params state :=
    let done := x.run sql params state.1
    (done.1, done.2, state.2 ++ [⟨sql, params⟩])

/-- How one request can go: the answer, the calls made and the state left. -/
inductive Served (x : Executor σ) : Request → σ → Answer → List Call → σ → Prop
  /-- A query whose markers the connection does not read makes no call. -/
  | foreign {q : Compiled} {s : σ}
      (hstyle : q.backend.markerStyle ≠ x.backend.markerStyle) :
      Served x (.execute q) s
        (.rows (.error (.dialectMismatch x.backend.name q.backend.name))) [] s
  /-- Nor does a query with an array that the connection cannot be sent. -/
  | unsendable {q : Compiled} {s : σ}
      (hstyle : q.backend.markerStyle = x.backend.markerStyle)
      (hbinds : x.backend.Refuses q.binds) :
      Served x (.execute q) s (.rows (.error (x.backend.lacks .arrays))) [] s
  /-- Any other query makes one call, with its own text and each bind in its
  place as the connection sends it, and the outcome is that of the call. -/
  | forwarded {q : Compiled} {s s' : σ} {params : List Wire} {outcome : Except Error Nat}
      (hstyle : q.backend.markerStyle = x.backend.markerStyle)
      (hbinds : ¬ x.backend.Refuses q.binds)
      (hparams : List.Forall₂ (fun bind wire => x.backend.encode bind = .ok wire) q.binds params)
      (hrun : x.run q.sql params s = (outcome, s')) :
      Served x (.execute q) s (.rows outcome) [⟨q.sql, params⟩] s'
  /-- An action on an advisory lock makes one call without parameters if the
  connection has such locks. -/
  | locked {action : LockAction} {key : Int64} {s s' : σ} {sql : String}
      {outcome : Except Error Nat}
      (hlocks : x.backend.supports .advisoryLock = true)
      (hsql : action.sql? key x.backend = some sql)
      (hrun : x.run sql [] s = (outcome, s')) :
      Served x (.advisory action key) s (.done (outcome.map fun _ => ())) [⟨sql, []⟩] s'
  /-- It makes none otherwise. -/
  | lockless {action : LockAction} {key : Int64} {s : σ}
      (hlocks : x.backend.supports .advisoryLock = false) :
      Served x (.advisory action key) s (.done (.error (x.backend.lacks .advisoryLock))) [] s

/-- How a list of requests can go: each in turn, from the state the one before
it left. -/
inductive Trace (x : Executor σ) : List Request → σ → List Answer → List Call → σ → Prop
  | nil {s : σ} : Trace x [] s [] [] s
  | cons {r : Request} {rest : List Request} {s s₁ s₂ : σ} {a : Answer} {answers : List Answer}
      {calls others : List Call} (first : Served x r s a calls s₁)
      (following : Trace x rest s₁ answers others s₂) :
      Trace x (r :: rest) s (a :: answers) (calls ++ others) s₂

@[simp] theorem logged_backend (x : Executor σ) : x.logged.backend = x.backend := rfl

@[simp] theorem logged_run (x : Executor σ) (sql : String) (params : List Wire)
    (state : σ × List Call) :
    x.logged.run sql params state =
      ((x.run sql params state.1).1, (x.run sql params state.1).2,
        state.2 ++ [⟨sql, params⟩]) := rfl

/-! ### The step -/

theorem execute_of_foreign (h : q.backend.markerStyle ≠ x.backend.markerStyle) :
    x.execute q s = (.error (.foreignFragment x.backend q.backend), s) := by
  simp [execute, h]

theorem execute_of_refuses (h : q.backend.markerStyle = x.backend.markerStyle)
    (hbinds : x.backend.Refuses q.binds) :
    x.execute q s = (.error (x.backend.lacks .arrays), s) := by
  have hparams : q.paramsFor x.backend = .error (x.backend.lacks .arrays) :=
    Backend.encodeAll_eq_error_iff.mpr ⟨hbinds, rfl⟩
  simp [execute, h, hparams]

theorem execute_of_params {params : List Wire}
    (h : q.backend.markerStyle = x.backend.markerStyle)
    (hparams : List.Forall₂ (fun bind wire => x.backend.encode bind = .ok wire) q.binds params) :
    x.execute q s = x.run q.sql params s := by
  have hsent : q.paramsFor x.backend = .ok params := Backend.encodeAll_eq_ok_iff.mpr hparams
  simp [execute, h, hsent]

/-- Serving an action on a lock is running its statement. -/
theorem serve_advisory (x : Executor σ) (action : LockAction) (key : Int64) (s : σ) :
    x.serve (.advisory action key) s =
      (x.runAdvisory (action.sql? key x.backend) s).map .done id := by
  cases action <;> rfl

theorem runAdvisory_of_supported {sql : String}
    (h : x.backend.supports .advisoryLock = true) :
    x.runAdvisory (some sql) s = (x.run sql [] s).map (·.map fun _ => ()) id := by
  simp [runAdvisory, Backend.require, h, Prod.map]

theorem runAdvisory_of_unsupported {sql? : Option String}
    (h : x.backend.supports .advisoryLock = false) :
    x.runAdvisory sql? s = (.error (x.backend.lacks .advisoryLock), s) := by
  simp [runAdvisory, Backend.require, h]

/-- Whatever is asked, one of the rules applies. -/
theorem exists_served (x : Executor σ) (r : Request) (s : σ) :
    ∃ a calls s', Served x r s a calls s' := by
  cases r with
  | execute q =>
    by_cases hstyle : q.backend.markerStyle = x.backend.markerStyle
    · cases hparams : x.backend.encodeAll q.binds with
      | error e =>
        have hbinds := (Backend.encodeAll_eq_error_iff.mp hparams).1
        exact ⟨_, _, _, .unsendable hstyle hbinds⟩
      | ok params =>
        have hbinds : ¬ x.backend.Refuses q.binds := fun hrefuses => by
          simp [Backend.encodeAll_eq_error_iff.mpr ⟨hrefuses, rfl⟩] at hparams
        exact ⟨_, _, _, .forwarded hstyle hbinds (Backend.encodeAll_eq_ok_iff.mp hparams) rfl⟩
    · exact ⟨_, _, _, .foreign hstyle⟩
  | advisory action key =>
    cases hlocks : x.backend.supports .advisoryLock with
    | false => exact ⟨_, _, _, .lockless hlocks⟩
    | true =>
      obtain ⟨sql, hsql⟩ := Option.isSome_iff_exists.mp
        ((action.sql?_isSome key x.backend).trans hlocks)
      exact ⟨_, _, _, .locked hlocks hsql rfl⟩

/-- A rule that applies says what happens, in the log as well. -/
theorem Served.serve_eq {a : Answer} {calls : List Call} (h : Served x r s a calls s')
    (log : List Call) :
    x.serve r s = (a, s') ∧ x.logged.serve r (s, log) = (a, s', log ++ calls) := by
  cases h with
  | foreign hstyle =>
    have hlogged := execute_of_foreign (x := x.logged) (s := (s, log)) hstyle
    simp [serve, execute_of_foreign hstyle, hlogged, Error.foreignFragment]
  | unsendable hstyle hbinds =>
    have hlogged := execute_of_refuses (x := x.logged) (s := (s, log)) hstyle hbinds
    simp [serve, execute_of_refuses hstyle hbinds, hlogged]
  | forwarded hstyle _ hparams hrun =>
    have hlogged := execute_of_params (x := x.logged) (s := (s, log)) hstyle hparams
    simp [serve, execute_of_params hstyle hparams, hlogged, hrun]
  | locked hlocks hsql hrun =>
    simp [serve_advisory, hsql, runAdvisory_of_supported, hlocks, hrun]
  | lockless hlocks =>
    simp [serve_advisory, runAdvisory_of_unsupported, hlocks]

/-! ### The run -/

/-- However the requests go, the rules allow it. -/
theorem exists_trace (x : Executor σ) (requests : List Request) (s : σ) :
    ∃ answers calls s', Trace x requests s answers calls s' := by
  induction requests generalizing s with
  | nil => exact ⟨_, _, _, .nil⟩
  | cons r rest ih =>
    obtain ⟨a, calls, s₁, hfirst⟩ := x.exists_served r s
    obtain ⟨answers, others, s₂, hrest⟩ := ih s₁
    exact ⟨_, _, _, .cons hfirst hrest⟩

/-- A run that the rules allow is the run that happens. -/
theorem Trace.serveAll_eq {requests : List Request} {answers : List Answer}
    {calls : List Call} (h : Trace x requests s answers calls s') (log : List Call) :
    x.serveAll requests s = (answers, s') ∧
      x.logged.serveAll requests (s, log) = (answers, s', log ++ calls) := by
  induction h generalizing log with
  | nil => simp [serveAll]
  | @cons _ _ _ _ _ _ _ calls others first following ih =>
    have hfirst := first.serve_eq log
    have hrest := ih (log ++ calls)
    simp [serveAll, hfirst, hrest]

/-- On every connection, from every state and for all requests in turn, what is
told and what the connection is called with are what the rules say, and the
rules allow nothing else. -/
theorem forwards_whole_or_refuses (x : Executor σ) (requests : List Request) (s : σ)
    (log : List Call) :
    ∃ answers calls s',
      x.serveAll requests s = (answers, s') ∧
      x.logged.serveAll requests (s, log) = (answers, s', log ++ calls) ∧
      ∀ answers₁ calls₁ s₁, Trace x requests s answers₁ calls₁ s₁ ↔
        answers₁ = answers ∧ calls₁ = calls ∧ s₁ = s' := by
  obtain ⟨answers, calls, s', htrace⟩ := x.exists_trace requests s
  obtain ⟨hrun, hlogged⟩ := htrace.serveAll_eq log
  refine ⟨answers, calls, s', hrun, hlogged, fun answers₁ calls₁ s₁ => ⟨fun h => ?_, ?_⟩⟩
  · -- two traces are the same logged run
    have hsame := (h.serveAll_eq log).2.symm.trans hlogged
    simpa [and_left_comm, and_assoc, and_comm] using hsame
  · rintro ⟨rfl, rfl, rfl⟩
    exact htrace

end Executor

end BoundSql
