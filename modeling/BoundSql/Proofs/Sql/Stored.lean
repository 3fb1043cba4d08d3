import BoundSql.Proofs.Bind.Stored
import BoundSql.Proofs.Numbering.Parity
import BoundSql.Sql.Stored

/-!
# Stored queries are read back

Which texts store which parts of a query is said by `Compiled.StoresParts`, in terms of the
grammar of JSON and of the documents that store binds. Reading such a text comes to the same
as handing over its parts (`Compiled.StoresParts.ofStoredText_eq`), and the stored form of a
query is such a text (`Compiled.storesParts_storedChars`).

What becomes of the parts is decided by the count of markers in the text, which is where an
identifier between backticks can do harm: the scanner takes it for code. The compiler counts
binds and never looks at its text again, so on MySQL a compiled statement may be refused when
it is read back (`Statement.ofStoredText_compile_backticks`), and on the other backends it
never is.
-/

namespace BoundSql

open Json Json.Document

/-! ## Parts -/

/-- A backend: its name in the outer form. -/
def Backend.Stored (d : Document) (b : Backend) : Prop :=
  Names false d b.name

theorem Backend.ofName?_eq_some_iff {name : String} {b : Backend} :
    Backend.ofName? name = some b ↔ b.name = name :=
  find?_name_eq_some_iff fun b => by cases b <;> rfl

theorem Backend.ofStored?_eq_some_iff {d : Document} {b : Backend} :
    Backend.ofStored? d = some b ↔ Backend.Stored d b := by
  simp only [Backend.ofStored?, Backend.Stored, Option.bind_eq_some_iff,
    unitVariant?_eq_some_iff, ofName?_eq_some_iff, exists_eq_right']

namespace Compiled

/-- The documents of the text, the binds and the backend: in an array of the three, or in an
object with a key for each, in any order and among any others. -/
inductive HasParts : Document → Document → Document → Document → Prop
  | array (sql binds backend : Document) : HasParts (.array [sql, binds, backend]) sql binds backend
  | object {fields : List (Option String × Document)} {sql binds backend : Document} :
      (∀ field ∈ fields, ∃ key, field.1 = some key) → Sole "sql" sql fields →
      Sole "binds" binds fields → Sole "backend" backend fields →
      HasParts (.object fields) sql binds backend

/-- How deep containers may be nested in a stored bind, which stands in two. -/
def bindDepth : Nat := 125

/-- A document that stores the parts of a query. -/
inductive Stores : Document → String → List Bind → Backend → Prop
  | intro {d backend : Document} {docs : List Document} {sql : String} {binds : List Bind}
      {b : Backend} : HasParts d (.string (some sql)) (.array docs) backend →
      List.Forall₂ (Bind.Stored bindDepth) docs binds → Backend.Stored backend b →
      Stores d sql binds b

/-- A text that stores the parts of a query, whether they fit together or not. -/
def StoresParts (cs : List Char) (sql : String) (binds : List Bind) (b : Backend) : Prop :=
  ∃ d, SpellsPadded cs d ∧ Stores d sql binds b

theorem storedParts?_eq_some_iff {d sql binds backend : Document} :
    storedParts? d = some (sql, binds, backend) ↔ HasParts d sql binds backend := by
  constructor
  · intro h
    unfold storedParts? at h
    split at h
    · simp only [Option.some.injEq, Prod.mk.injEq] at h
      obtain ⟨rfl, rfl, rfl⟩ := h
      exact .array _ _ _
    · split at h
      · rename_i hkeys
        split at h
        · rename_i hsql hbinds hbackend
          simp only [Option.some.injEq, Prod.mk.injEq] at h
          obtain ⟨rfl, rfl, rfl⟩ := h
          exact .object (keysRead_iff.mp hkeys) (valuesOf_eq_singleton_iff.mp hsql)
            (valuesOf_eq_singleton_iff.mp hbinds) (valuesOf_eq_singleton_iff.mp hbackend)
        · cases h
      · cases h
    · cases h
  · intro h
    cases h with
    | array => rfl
    | object hkeys hsql hbinds hbackend =>
        rw [storedParts?, if_pos (keysRead_iff.mpr hkeys), valuesOf_eq_singleton_iff.mpr hsql,
          valuesOf_eq_singleton_iff.mpr hbinds, valuesOf_eq_singleton_iff.mpr hbackend]

theorem storedBinds?_eq_some_iff {depth : Nat} {docs : List Document} {binds : List Bind} :
    storedBinds? depth docs = some binds ↔ List.Forall₂ (Bind.Stored depth) docs binds := by
  induction docs generalizing binds with
  | nil => rw [storedBinds?, List.forall₂_nil_left_iff, Option.some.injEq, eq_comm]
  | cons d docs ih =>
      have hcons : storedBinds? depth (d :: docs) = (Bind.ofStored? depth d).bind fun v =>
          (storedBinds? depth docs).map (v :: ·) := by
        rw [storedBinds?]
        cases Bind.ofStored? depth d <;> rfl
      rw [hcons, List.forall₂_cons_left_iff, Option.bind_eq_some_iff]
      constructor
      · intro ⟨v, hv, h⟩
        obtain ⟨others, hothers, rfl⟩ := Option.map_eq_some_iff.mp h
        exact ⟨v, others, Bind.ofStored?_eq_some_iff.mp hv, ih.mp hothers, rfl⟩
      · intro ⟨v, others, hv, hothers, h⟩
        exact ⟨v, Bind.ofStored?_eq_some_iff.mpr hv, by rw [ih.mpr hothers, h, Option.map_some]⟩

/-- A document is read as the parts that it stores, and as no others. -/
theorem storedFields?_eq_some_iff {d : Document} {sql : String} {binds : List Bind}
    {b : Backend} : storedFields? d = some (sql, binds, b) ↔ Stores d sql binds b := by
  constructor
  · intro h
    obtain ⟨⟨sqlDoc, bindsDoc, backendDoc⟩, hparts, h⟩ := Option.bind_eq_some_iff.mp h
    obtain ⟨text, htext, h⟩ := Option.bind_eq_some_iff.mp h
    obtain ⟨docs, hdocs, h⟩ := Option.bind_eq_some_iff.mp h
    obtain ⟨values, hvalues, h⟩ := Option.bind_eq_some_iff.mp h
    obtain ⟨name, hname, h⟩ := Option.bind_eq_some_iff.mp h
    cases h
    obtain rfl : sqlDoc = .string (some sql) := string?_eq_some_iff.mp htext
    obtain rfl : bindsDoc = .array docs := items?_eq_some_iff.mp hdocs
    exact .intro (storedParts?_eq_some_iff.mp hparts) (storedBinds?_eq_some_iff.mp hvalues)
      (Backend.ofStored?_eq_some_iff.mp hname)
  · intro h
    cases h with
    | intro hparts hbinds hbackend =>
        have hread := storedBinds?_eq_some_iff.mpr hbinds
        simp only [storedFields?, storedParts?_eq_some_iff.mpr hparts, string?, items?,
          show maxDepth - 2 = bindDepth from rfl, hread, Backend.ofStored?_eq_some_iff.mpr hbackend,
          Option.bind_eq_bind, Option.bind_some, Option.pure_def]

/-- Stored parts are accepted or refused like any others. -/
theorem StoresParts.ofStoredText_eq {cs : List Char} {sql : String} {binds : List Bind}
    {b : Backend} (h : StoresParts cs sql binds b) :
    ofStoredText cs = (ofParts sql binds b).mapError .rejected := by
  obtain ⟨d, hcs, hstores⟩ := h
  obtain ⟨gap, hread, hgap⟩ := spellsPadded_iff.mp hcs
  have hfields := storedFields?_eq_some_iff.mpr hstores
  have hrest := isEmpty_skipSpace_iff.mpr hgap
  rw [ofStoredText, hread]
  simp only [hfields, hrest]
  cases ofParts sql binds b with
  | error e => rfl
  | ok q => rfl

/-! ## Printed queries -/

/-- Exact binds are printed as documents that store them. -/
theorem exists_documents {depth : Nat} {binds : List Bind} (h : ∀ v ∈ binds, v.Exact depth) :
    ∃ docs, List.Forall₂ Spells (binds.map Bind.storedChars) docs ∧
      List.Forall₂ (Bind.Stored depth) docs (binds.map Bind.restored) := by
  induction binds with
  | nil => exact ⟨[], .nil, .nil⟩
  | cons v binds ih =>
      obtain ⟨d, hspelt, hstored⟩ := (h v (by simp)).exists_document
      obtain ⟨docs, hdocs, hothers⟩ := ih fun w hw => h w (by simp [hw])
      exact ⟨d :: docs, .cons hspelt hdocs, .cons hstored hothers⟩

/-- The stored form of a query with exact binds stores its parts. -/
theorem storesParts_storedChars {q : Compiled} (h : ∀ v ∈ q.binds, v.Exact bindDepth) :
    StoresParts q.storedChars q.sql (q.binds.map Bind.restored) q.backend := by
  obtain ⟨docs, hdocs, hbinds⟩ := exists_documents h
  have hspelt : Spells q.storedChars (.object [(some "sql", .string (some q.sql)),
      (some "binds", .array docs), (some "backend", .string (some q.backend.name))]) :=
    spells_object (.cons ⟨rfl, spells_string q.sql⟩ (.cons ⟨rfl, spells_array hdocs⟩
      (.cons ⟨rfl, spells_string q.backend.name⟩ .nil)))
  have hparts : HasParts (.object [(some "sql", .string (some q.sql)),
      (some "binds", .array docs), (some "backend", .string (some q.backend.name))])
        (.string (some q.sql)) (.array docs) (.string (some q.backend.name)) :=
    .object (by simp) ⟨[], _, rfl, by simp⟩ ⟨[_], _, rfl, by simp⟩ ⟨[_, _], [], rfl, by simp⟩
  exact ⟨_, hspelt.padded, .intro hparts hbinds (.bare q.backend.name)⟩

end Compiled

namespace Bind

/-- Whether JSON holds a bind as it is. -/
def isPlain : Bind → Bool
  | .null | .bool _ | .int _ | .string _ => true
  | _ => false

/-- A plain bind is printed to the last digit. -/
theorem exact_of_isPlain {v : Bind} (h : v.isPlain = true) (depth : Nat) : v.Exact depth := by
  cases v <;> trivial

theorem restored_of_isPlain {v : Bind} (h : v.isPlain = true) : v.restored = v := by
  cases v <;> first | rfl | cases h

end Bind

namespace Compiled

/-- The parts of a stored query are read back, and accepted or refused like any others. -/
theorem ofStoredText_storedChars {q : Compiled} (h : ∀ v ∈ q.binds, v.isPlain = true) :
    ofStoredText q.storedChars = (ofParts q.sql q.binds q.backend).mapError .rejected := by
  have hstores := storesParts_storedChars fun v hv => Bind.exact_of_isPlain (h v hv) bindDepth
  have hbinds : q.binds.map Bind.restored = q.binds :=
    (List.map_congr_left fun v hv => Bind.restored_of_isPlain (h v hv)).trans (List.map_id _)
  rw [hbinds] at hstores
  exact hstores.ofStoredText_eq

/-- Parts whose markers are numbered like the binds are accepted. -/
theorem Numbered.ofParts {external : Prop} {q : Compiled} (h : q.Numbered external) :
    Compiled.ofParts q.sql q.binds q.backend = .ok q := by
  refine ofParts_eq_ok_iff.mpr ⟨h.markerCount, fun hstyle => ?_, rfl⟩
  have hperm := h.perm
  rw [marks, hstyle, MarkerStyle.marks_numbered] at hperm
  rw [coversNumbers_iff]
  intro index hindex
  have hmem : some index ∈ (markerIndices q.sql).map some :=
    hperm.mem_iff.mpr (List.mem_map.mpr ⟨index, hindex, rfl⟩)
  simpa using hmem

/-- Where markers are not numbered their count decides. -/
theorem ofParts_positional {q : Compiled} (hstyle : q.backend.markerStyle = .positional) :
    ofParts q.sql q.binds q.backend =
      if q.markerCount = q.binds.length then .ok q
      else .error (.placeholderMismatch q.markerCount q.binds.length q.sql) := by
  rw [ofParts, markerCount]
  by_cases hcount : q.backend.markerStyle.count q.sql = q.binds.length
  · simp [hstyle]
  · simp [hcount]

end Compiled

/-! ## Statements -/

namespace Statement

/-- The names of a statement, in fields and outside. -/
def allNames (s : Statement) : List String :=
  s.identifiers ++ s.fields.flatMap (·.names)

/-- A statement of fields and binds is clean as soon as its names are safe. -/
theorem clean_of_names {b : Backend} {s : Statement} (hfields : ∀ f ∈ s.fields, f.Faithful)
    (hraws : s.raws = []) (hcolumns : s.rawColumns = [])
    (hnames : ∀ name ∈ s.allNames, Identifier.SafeFor b name) : s.Clean b where
  identifiers name hname := hnames name (List.mem_append.mpr (Or.inl hname))
  fields f hf :=
    ⟨hfields f hf, fun name hname => hnames name
      (List.mem_append.mpr (Or.inr (List.mem_flatMap.mpr ⟨f, hf, hname⟩)))⟩
  raws := by simp [hraws]
  columns := by simp [hcolumns]

/-- What becomes of a compiled statement without raw text and fragments that is stored and
read back: it is restored if its text shows as many markers as it has binds, and refused
otherwise. Except for names between backticks the count is always right. -/
theorem ofStoredText_compile {b : Backend} {s : Statement} {q : Compiled}
    (hfields : ∀ f ∈ s.fields, f.Faithful) (hraws : s.raws = []) (hcolumns : s.rawColumns = [])
    (hfragments : s.fragments = []) (hcompile : s.compile b = .ok q)
    (hplain : ∀ v ∈ q.binds, v.isPlain = true)
    (hreadable : b.markerStyle.Readable q.binds.length) :
    (b ≠ .mysql ∨ (∀ name ∈ s.allNames, Identifier.Transparent name) →
        Compiled.ofStoredText q.storedChars = .ok q) ∧
      Compiled.ofStoredText q.storedChars =
        if q.markerCount = q.binds.length then .ok q
        else .error (.rejected (.placeholderMismatch q.markerCount q.binds.length q.sql)) := by
  have hbackend : q.backend = b := by
    obtain ⟨-, rfl⟩ := Statement.compile_eq_ok hcompile
    rfl
  have hrestored : (∀ name ∈ s.allNames, Identifier.SafeFor b name) →
      q.markerCount = q.binds.length ∧ Compiled.ofStoredText q.storedChars = .ok q := by
    intro hnames
    have hclean := clean_of_names hfields hraws hcolumns hnames
    have hbuilt : q.Built False := .compiled hclean (by simp [hfragments]) hcompile
    have hnumbered := hbuilt.numbered (by rwa [hbackend])
    refine ⟨hnumbered.markerCount, ?_⟩
    rw [Compiled.ofStoredText_storedChars hplain, hnumbered.ofParts]
    rfl
  refine ⟨fun hsafe => (hrestored fun name hname hmysql => ?_).2, ?_⟩
  · rcases hsafe with hother | htransparent
    · exact absurd hmysql hother
    · exact htransparent name hname
  · by_cases hmysql : b = .mysql
    · have hstyle : q.backend.markerStyle = .positional := by rw [hbackend, hmysql]; rfl
      rw [Compiled.ofStoredText_storedChars hplain, Compiled.ofParts_positional hstyle]
      split <;> rfl
    · obtain ⟨hcount, hread⟩ := hrestored fun name _ h => absurd h hmysql
      rw [if_pos hcount, hread]

/-- On MySQL a question mark in a name is counted when the query is read back. -/
theorem ofStoredText_compile_backticks :
    let s : Statement := .condition (.predicate ⟨.named "a?b", .eq, [.int 1]⟩)
    let q : Compiled := ⟨"\x60a?b\x60 = ?", [.int 1], .mysql⟩
    s.raws = [] ∧ s.rawColumns = [] ∧ s.fragments = [] ∧ (∀ f ∈ s.fields, f.Faithful) ∧
      s.compile .mysql = .ok q ∧ (∀ v ∈ q.binds, v.isPlain = true) ∧
      Compiled.ofStoredText q.storedChars =
        .error (.rejected (.placeholderMismatch 2 1 q.sql)) := by
  intro s q
  have hplain : ∀ v ∈ q.binds, v.isPlain = true := by decide
  have hcompile : s.compile .mysql = .ok q :=
    Statement.compile_of_pieces (by decide +kernel) (by decide +kernel) rfl rfl
  have hcount : q.markerCount = 2 := by decide +kernel
  refine ⟨rfl, rfl, rfl, by decide, hcompile, hplain, ?_⟩
  rw [Compiled.ofStoredText_storedChars hplain, Compiled.ofParts_positional rfl, hcount]
  rfl

theorem ofStoredText_compile_quotes :
    let s : Statement := .insert "it's \"$1\"" [("a?", .null), ("b--", .bool true),
      ("/*", .int (-7)), ("\\", .string "x\n\"\u0001")] ["$9"]
    let sql := "INSERT INTO \"it's \"\"$1\"\"\" (\"a?\", \"b--\", \"/*\", \"\\\") " ++
      "VALUES ($1, $2, $3, $4) RETURNING \"$9\""
    let q : Compiled :=
      ⟨sql, [.null, .bool true, .int (-7), .string "x\n\"\u0001"], .postgresql⟩
    (∀ f ∈ s.fields, f.Faithful) ∧ s.raws = [] ∧ s.rawColumns = [] ∧ s.fragments = [] ∧
      s.compile .postgresql = .ok q ∧ (∀ v ∈ q.binds, v.isPlain = true) ∧
      Compiled.ofStoredText q.storedChars = .ok q := by
  intro s sql q
  have hfields : ∀ f ∈ s.fields, f.Faithful := by decide
  have hplain : ∀ v ∈ q.binds, v.isPlain = true := by decide
  have hcompile : s.compile .postgresql = .ok q :=
    Statement.compile_of_pieces (by decide +kernel) (by decide +kernel) rfl rfl
  exact ⟨hfields, rfl, rfl, rfl, hcompile, hplain,
    (ofStoredText_compile hfields rfl rfl rfl hcompile hplain (by decide)).1 (Or.inl (by decide))⟩

end Statement

end BoundSql
