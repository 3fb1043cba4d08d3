import BoundSql.Proofs.Sql.Unprepared
import BoundSql.Settings.Basic

/-!
# Histories of dialects and fields

A dialect remembers the forms of identifiers and can be told to forget them; a field
can carry its form for one backend and loses it when its column changes. Neither
shows: behind any history of a dialect, each form that it remembers is the one that
its backend gives the identifier, each field that was built step by step is written
by its present table and column, and statements compile as if nothing were remembered
and nothing prepared (`Dialect.plain_after`).

One action keeps a dialect **sound** (`Dialect.Sound.perform`), hence so does a
history of them. The dialects that fields are prepared with have histories of their
own, which is why a carried form can be trusted (`Field.Built.faithful`).
-/

namespace BoundSql

open Identifier (quoteWith)

/-! ## Sound dialects -/

namespace Dialect

/-- A dialect that remembers of each identifier only the form that its backend gives
it. -/
def Sound (d : Dialect) : Prop :=
  ∀ entry ∈ d.cache.entries, entry.2 = quoteWith d.backend.quoteChar entry.1

theorem sound_fresh (b : Backend) : (fresh b).Sound := by
  intro entry hentry
  cases hentry

theorem sound_clear (d : Dialect) : d.clear.Sound := by
  intro entry hentry
  cases hentry

theorem Sound.note {d : Dialect} (h : d.Sound) (name : String) : (d.note name).Sound := by
  intro entry hentry
  simp only [Dialect.note, QuoteCache.insertNew] at hentry
  split at hentry
  · exact h entry hentry
  · rcases List.mem_cons.mp hentry with rfl | hentry
    · rfl
    · exact h entry hentry

theorem Sound.noteAll {d : Dialect} (h : d.Sound) (names : List String) :
    (d.noteAll names).Sound := by
  induction names generalizing d with
  | nil => exact h
  | cons name names ih => exact ih (h.note name)

/-- A sound dialect writes each identifier as its backend quotes it. -/
theorem Sound.honest {d : Dialect} (h : d.Sound) : d.Honest := by
  funext name
  rw [form, QuoteCache.getD]
  cases hfind : d.cache.find? name with
  | none => rfl
  | some form =>
      obtain ⟨before, behind, hentries, -⟩ := List.lookup_eq_some_iff.mp hfind
      exact h (name, form) (by rw [hentries]; simp)

/-! ## Actions and histories -/

/-- What can be done with a dialect. -/
inductive Action where
  | quote (name : String)
  | qualify (table column : String)
  | preload (names : List String)
  | clear
  | prepare (f : Field)
  | render (f : Field)
  | compile (s : Statement)

/-- The dialect behind an action. -/
def perform (d : Dialect) : Action → Dialect
  | .quote name => (d.quote name).2
  | .qualify table column => (d.qualify table column).2
  | .preload names => d.noteAll names
  | .clear => d.clear
  | .prepare f => (f.prepare d).2
  | .render f => (f.render d).2
  | .compile s => (d.compile s).2

/-- The dialect of a backend behind the actions of a history, the earliest first. -/
def after (b : Backend) (history : List Action) : Dialect :=
  history.foldl perform (fresh b)

@[simp] theorem backend_perform (d : Dialect) (a : Action) : (d.perform a).backend = d.backend := by
  cases a with
  | quote name => rfl
  | qualify table column => rfl
  | preload names => exact backend_noteAll d names
  | clear => rfl
  | prepare f => exact backend_noteAll d f.names
  | render f =>
      simp only [perform, Field.render]
      split
      · rfl
      · exact backend_noteAll d f.names
  | compile s => exact backend_noteAll d _

theorem Sound.perform {d : Dialect} (h : d.Sound) (a : Action) : (d.perform a).Sound := by
  cases a with
  | quote name => exact h.note name
  | qualify table column => exact h.noteAll [table, column]
  | preload names => exact h.noteAll names
  | clear => exact sound_clear d
  | prepare f => exact h.noteAll f.names
  | render f =>
      simp only [Dialect.perform, Field.render]
      split
      · exact h
      · exact h.noteAll f.names
  | compile s => exact h.noteAll _

/-- What one action keeps, a history keeps. -/
theorem Sound.history {d : Dialect} (h : d.Sound) (history : List Action) :
    (history.foldl Dialect.perform d).Sound ∧
      (history.foldl Dialect.perform d).backend = d.backend := by
  induction history generalizing d with
  | nil => exact ⟨h, rfl⟩
  | cons a history ih =>
      obtain ⟨hsound, hbackend⟩ := ih (h.perform a)
      exact ⟨hsound, hbackend.trans (d.backend_perform a)⟩

theorem sound_after (b : Backend) (history : List Action) : (after b history).Sound :=
  ((sound_fresh b).history history).1

@[simp] theorem backend_after (b : Backend) (history : List Action) :
    (after b history).backend = b :=
  ((sound_fresh b).history history).2

theorem form_after (b : Backend) (history : List Action) :
    (after b history).form = quoteWith b.quoteChar := by
  have hhonest : (after b history).form = Identifier.quoted (after b history).backend :=
    (sound_after b history).honest
  rw [hhonest, backend_after]
  rfl

end Dialect

/-- The dialect that settings name has a history, which is to quote ahead of time what
the settings list. -/
theorem Settings.dialect_eq_after (s : Settings) :
    s.dialect = (Backend.parse s.defaultDialect).map fun b => .after b [.preload s.preload] :=
  rfl

/-! ## Fields built step by step -/

/-- The fields that can be built, with the table and the column that they stand for at
present. The dialects that prepare them are of any backends and have any histories. -/
inductive Field.Built : Option String → String → Field → Prop
  | named (name : String) : Built none name (.named name)
  | onTable (table name : String) : Built (some table) name (.onTable table name)
  | withColumn {table : Option String} {column : String} {f : Field} (h : Built table column f)
      (other : String) : Built table other (f.withColumn other)
  | prepare {table : Option String} {column : String} {f : Field} (h : Built table column f)
      (b : Backend) (history : List Dialect.Action) :
      Built table column (f.prepare (.after b history)).1

/-- A column in quotes, behind its table in quotes and a point if it has a table. -/
def Backend.plainColumn (b : Backend) (table : Option String) (column : String) : String :=
  match table with
  | some table => quoteWith b.quoteChar table ++ "." ++ quoteWith b.quoteChar column
  | none => quoteWith b.quoteChar column

namespace Field.Built

variable {table : Option String} {column : String} {f : Field}

theorem parts (h : f.Built table column) : f.table = table ∧ f.column = column := by
  induction h with
  | named name => exact ⟨rfl, rfl⟩
  | onTable table name => exact ⟨rfl, rfl⟩
  | withColumn _ other ih => exact ⟨ih.1, rfl⟩
  | prepare _ b history ih => exact ih

/-- The form that a built field carries, if any, is that of its present column. -/
theorem faithful (h : f.Built table column) : f.Faithful := by
  cases h with
  | named => exact faithful_named _
  | onTable => exact faithful_onTable _ _
  | withColumn => exact faithful_withColumn _ _
  | prepare _ b history => exact faithful_prepare _ (Dialect.sound_after b history).honest

/-- A built field is written by its present table and column, through the memory of the
dialect and the form that it carries. -/
theorem render_after (h : f.Built table column) (b : Backend) (history : List Dialect.Action) :
    (f.render (.after b history)).1 = b.plainColumn table column := by
  have hform : f.formWith (quoteWith b.quoteChar) = b.plainColumn table column := by
    rw [formWith, h.parts.1, h.parts.2]
    rfl
  rw [← hform, render, Dialect.backend_after, Dialect.form_after]
  split
  · rename_i text htext
    exact h.faithful.preparedFor? htext
  · rfl

end Field.Built

/-! ## Nothing shows -/

/-- A dialect with a history compiles as if it had none, and as if no field were
prepared. -/
theorem Dialect.compile_after {s : Statement}
    (hs : ∀ f ∈ s.fields, ∃ table column, f.Built table column) (b : Backend)
    (history : List Action) : ((after b history).compile s).1 = s.unprepared.compile b := by
  have hfaithful : ∀ f ∈ s.fields, f.Faithful := by
    intro f hf
    obtain ⟨table, column, hbuilt⟩ := hs f hf
    exact hbuilt.faithful
  rw [compile_of_honest (sound_after b history).honest, backend_after,
    Statement.compile_unprepared hfaithful]

/-- Behind any history a dialect remembers plainly quoted forms only, writes each field
by its present table and column, and compiles what a backend compiles that remembers
nothing. Two statements that differ in what was prepared compile alike, whatever the
dialects remember. -/
theorem Dialect.plain_after (b : Backend) (history : List Action) :
    (∀ entry ∈ (after b history).cache.entries, entry.2 = quoteWith b.quoteChar entry.1) ∧
      (∀ name, ((after b history).quote name).1 = quoteWith b.quoteChar name) ∧
      (∀ table column, ((after b history).qualify table column).1 =
        b.plainColumn (some table) column) ∧
      (∀ (table : Option String) (column : String) (f : Field), f.Built table column →
        (f.render (after b history)).1 = b.plainColumn table column) ∧
      ∀ s : Statement, (∀ f ∈ s.fields, ∃ table column, f.Built table column) →
        ((after b history).compile s).1 = s.unprepared.compile b ∧
          ∀ (history' : List Action) (s' : Statement),
            (∀ f ∈ s'.fields, ∃ table column, f.Built table column) →
              s'.unprepared = s.unprepared →
                ((after b history').compile s').1 = ((after b history).compile s).1 := by
  have hform := form_after b history
  refine ⟨?_, ?_, ?_, ?_, ?_⟩
  · intro entry hentry
    have hplain := sound_after b history entry hentry
    rwa [backend_after] at hplain
  · intro name
    rw [quote, hform]
  · intro table column
    rw [qualify, hform]
    rfl
  · intro table column f hf
    exact hf.render_after b history
  · intro s hs
    refine ⟨compile_after hs b history, ?_⟩
    intro history' s' hs' hsame
    rw [compile_after hs' b history', compile_after hs b history, hsame]

/-- A field that was prepared twice, with two backends, and given another column in
between, on a dialect that forgot and quoted the old column again. -/
theorem Dialect.plain_after_detour :
    let old : Field := .onTable "u" "na\"me"
    let moved := ((old.prepare (.after .mysql [.quote "na\"me"])).1).withColumn "id$1"
    let f := (moved.prepare (.after .postgresql [.preload ["u"], .clear])).1
    let history : List Action := [.prepare old, .clear, .render f, .quote "na\"me"]
    let s : Statement := .delete "t" (some (f.eq (.int 5))) []
    f.Built (some "u") "id$1" ∧
      (f.render (after .postgresql history)).1 = "\"u\".\"id$1\"" ∧
      ((after .postgresql history).compile s).1 =
        .ok ⟨"DELETE FROM \"t\" WHERE \"u\".\"id$1\" = $1", [.int 5], .postgresql⟩ := by
  intro old moved f history s
  have hbuilt : f.Built (some "u") "id$1" :=
    (((Field.Built.onTable "u" "na\"me").prepare .mysql _).withColumn "id$1").prepare .postgresql _
  have hs : ∀ f ∈ s.fields, ∃ table column, f.Built table column := by
    intro g hg
    obtain rfl : g = f := List.mem_singleton.mp hg
    exact ⟨_, _, hbuilt⟩
  obtain ⟨-, -, -, hrender, hcompile⟩ := Dialect.plain_after .postgresql history
  refine ⟨hbuilt, ?_, ?_⟩
  · rw [hrender _ _ _ hbuilt]
    decide +kernel
  · rw [(hcompile s hs).1]
    exact Statement.compile_of_pieces (by decide +kernel) (by decide +kernel) rfl rfl

end BoundSql
