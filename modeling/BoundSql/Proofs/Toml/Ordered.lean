import BoundSql.Proofs.Json.Ordered
import BoundSql.Toml.Reader
import Mathlib.Data.Option.Basic

/-!
# Values from TOML are ordered

A TOML document is read into tables that change with every line, and only the finished tables
become JSON objects. So order is followed through the tables: a change of the entries keeps
them ordered (`Keeps`), wherever in the tables `update?` makes it, every line is such a change,
and ordered tables become ordered objects (`ordered_of_read?`).
-/

namespace BoundSql.Toml

/-- A node whose values are ordered. The entries of a table may come in any order of keys. -/
inductive Node.Ordered : Node → Prop
  | leaf {value : Json} (h : value.Ordered) : Ordered (.leaf value)
  | table {origin : Origin} {entries : List (String × Node)}
      (h : ∀ entry ∈ entries, Ordered entry.2) : Ordered (.table origin entries)
  | tables {items : List (List (String × Node))}
      (h : ∀ entries ∈ items, ∀ entry ∈ entries, Ordered entry.2) : Ordered (.tables items)

/-- Entries whose nodes are ordered. -/
def Entries.Ordered (es : Entries) : Prop :=
  ∀ entry ∈ es, entry.2.Ordered

/-- A change that leaves ordered entries ordered. -/
def Keeps (change : Entries → Option Entries) : Prop :=
  ∀ es changed, es.Ordered → change es = some changed → changed.Ordered

/-! ## Tables as objects -/

theorem fieldsOf_eq_map (es : Entries) :
    fieldsOf es = es.map fun entry => (entry.1, entry.2.toJson) := by
  induction es with
  | nil => rfl
  | cons entry es ih => rw [fieldsOf, ih, List.map_cons]

theorem objectsOf_eq_map (items : List Entries) :
    objectsOf items = items.map fun es => .ofFields (fieldsOf es) := by
  induction items with
  | nil => rfl
  | cons es items ih => rw [objectsOf, ih, List.map_cons]

/-- The object of a table is ordered if its values are. -/
theorem ordered_ofFields_fieldsOf {es : Entries} (h : ∀ entry ∈ es, entry.2.toJson.Ordered) :
    (Json.ofFields (fieldsOf es)).Ordered := by
  apply Json.ordered_ofFields
  intro field hfield
  rw [fieldsOf_eq_map] at hfield
  obtain ⟨entry, hentry, rfl⟩ := List.mem_map.mp hfield
  exact h entry hentry

theorem Node.Ordered.toJson {node : Node} (h : node.Ordered) : node.toJson.Ordered := by
  induction h with
  | leaf h => exact h
  | table _ ih => exact ordered_ofFields_fieldsOf ih
  | tables _ ih =>
      rw [Node.toJson, objectsOf_eq_map]
      refine .array ?_
      intro item hitem
      obtain ⟨es, hes, rfl⟩ := List.mem_map.mp hitem
      exact ordered_ofFields_fieldsOf (ih es hes)

theorem Entries.Ordered.ofFields {es : Entries} (h : es.Ordered) :
    (Json.ofFields (fieldsOf es)).Ordered :=
  ordered_ofFields_fieldsOf fun entry hentry => (h entry hentry).toJson

/-! ## Changing tables -/

namespace Entries

theorem ordered_nil : Ordered [] := by
  intro entry hentry
  cases hentry

theorem Ordered.find? {es : Entries} {key : String} {node : Node} (h : es.Ordered)
    (hfind : es.find? key = some node) : node.Ordered := by
  induction es with
  | nil => cases hfind
  | cons entry es ih =>
      obtain ⟨k, n⟩ := entry
      obtain ⟨hfirst, hrest⟩ := List.forall_mem_cons.mp h
      rw [Entries.find?, List.lookup_cons] at hfind
      split at hfind
      · cases hfind
        exact hfirst
      · exact ih hrest hfind

theorem Ordered.put {es : Entries} {node : Node} (h : es.Ordered) (hnode : node.Ordered)
    (key : String) : (es.put key node).Ordered := by
  induction es with
  | nil => exact List.forall_mem_singleton.mpr hnode
  | cons entry es ih =>
      obtain ⟨k, n⟩ := entry
      obtain ⟨hfirst, hrest⟩ := List.forall_mem_cons.mp h
      rw [Entries.put]
      split
      · exact List.forall_mem_cons.mpr ⟨hnode, hrest⟩
      · exact List.forall_mem_cons.mpr ⟨hfirst, ih hrest⟩

theorem keeps_add? {node : Node} (hnode : node.Ordered) (key : String) :
    Keeps (·.add? key node) := by
  intro es changed hes h
  simp only [add?] at h
  split at h
  · cases h
    exact hes.put hnode key
  · cases h

end Entries

/-- Changing the last of several tables leaves all of them ordered. -/
theorem ordered_updateLast? {change : Entries → Option Entries} (hchange : Keeps change) :
    ∀ {items changed : List Entries}, (∀ es ∈ items, es.Ordered) →
      updateLast? change items = some changed → ∀ es ∈ changed, es.Ordered
  | [], _, _, h => by cases h
  | [es], _, hitems, h => by
      obtain ⟨es', hes', rfl⟩ := Option.map_eq_some_iff.mp h
      have hes := hitems es (List.mem_cons_self ..)
      exact List.forall_mem_singleton.mpr (hchange es es' hes hes')
  | es :: next :: rest, _, hitems, h => by
      obtain ⟨others, hothers, rfl⟩ := Option.map_eq_some_iff.mp h
      obtain ⟨hes, hrest⟩ := List.forall_mem_cons.mp hitems
      exact List.forall_mem_cons.mpr ⟨hes, ordered_updateLast? hchange hrest hothers⟩

/-- A change that keeps tables ordered may be made at the end of any path. -/
theorem keeps_update? {dotted : Bool} {change : Origin → Entries → Option Entries}
    (hchange : ∀ origin, Keeps (change origin)) :
    ∀ (path : List String) (origin : Origin), Keeps (update? dotted change path origin)
  | [], origin => hchange origin
  | key :: path, _ => by
      intro es changed hes h
      rw [update?] at h
      split at h
      · -- the table is made on the way
        obtain ⟨inner, hinner, rfl⟩ := Option.map_eq_some_iff.mp h
        exact hes.put (.table (keeps_update? hchange path _ _ _ Entries.ordered_nil hinner)) key
      · cases h
      · rename_i origin entries hfind
        split at h
        · cases h
        · obtain ⟨inner, hinner, rfl⟩ := Option.map_eq_some_iff.mp h
          cases hes.find? hfind with
          | table hentries =>
              exact hes.put (.table (keeps_update? hchange path _ _ _ hentries hinner)) key
      · rename_i items hfind
        obtain ⟨changed, hchanged, rfl⟩ := Option.map_eq_some_iff.mp h
        cases hes.find? hfind with
        | tables hitems =>
            have hlast := ordered_updateLast? (keeps_update? hchange path .header) hitems hchanged
            exact hes.put (.tables hlast) key

theorem keeps_assign? {value : Json} (hvalue : value.Ordered) (keys : List String)
    (last : String) : Keeps (assign? keys last value) := by
  refine keeps_update? (fun origin => ?_) keys .header
  intro es changed hes h
  split at h
  · cases h
  · exact Entries.keeps_add? (.leaf hvalue) last es changed hes h

theorem keeps_assignUnder? {value : Json} (hvalue : value.Ordered) (header keys : List String)
    (last : String) : Keeps (assignUnder? header keys last value) :=
  keeps_update? (fun _ => keeps_assign? hvalue keys last) header .header

theorem keeps_openTable? (parents : List String) (last : String) :
    Keeps (openTable? parents last) := by
  refine keeps_update? (fun origin => ?_) parents .header
  intro es changed hes h
  dsimp only at h
  split at h
  · cases h
    exact hes.put (.table Entries.ordered_nil) last
  · rename_i inner hfind
    cases h
    cases hes.find? hfind with
    | table hentries => exact hes.put (.table hentries) last
  · cases h

theorem keeps_openItem? (parents : List String) (last : String) :
    Keeps (openItem? parents last) := by
  refine keeps_update? (fun origin => ?_) parents .header
  intro es changed hes h
  dsimp only at h
  split at h
  · cases h
    exact hes.put (.tables (List.forall_mem_singleton.mpr Entries.ordered_nil)) last
  · rename_i items hfind
    cases h
    cases hes.find? hfind with
    | tables hitems =>
        refine hes.put (.tables ?_) last
        exact List.forall_mem_append.mpr
          ⟨hitems, List.forall_mem_singleton.mpr Entries.ordered_nil⟩
  · cases h

/-! ## Reading values -/

theorem ordered_ofBinary64 (x : Binary64) : (Json.ofBinary64 x).Ordered := by
  rw [Json.ofBinary64]
  split
  · exact .number _
  · exact .null

theorem ordered_of_floatJson? {x : Binary64} {j : Json} (h : floatJson? x = some j) :
    j.Ordered := by
  rw [floatJson?] at h
  split at h
  · cases h
  · cases h
    exact ordered_ofBinary64 x

theorem ordered_of_int64Json? {n : Int} {j : Json} (h : int64Json? n = some j) : j.Ordered := by
  rw [int64Json?] at h
  split at h
  · cases h
    exact .number _
  · cases h

theorem ordered_of_decimalFloat? {cs rest : List Char} {j : Json}
    (h : decimalFloat? cs = some (j, rest)) : j.Ordered := by
  obtain ⟨⟨whole, behind⟩, -, h⟩ := Option.bind_eq_some_iff.mp h
  dsimp only at h
  split at h
  · obtain ⟨json, hjson, h⟩ := Option.bind_eq_some_iff.mp h
    cases h
    exact ordered_of_floatJson? hjson
  · obtain ⟨⟨e, tail⟩, -, h⟩ := Option.bind_eq_some_iff.mp h
    obtain ⟨json, hjson, h⟩ := Option.bind_eq_some_iff.mp h
    cases h
    exact ordered_of_floatJson? hjson

theorem ordered_of_wordFloat? {cs rest : List Char} {j : Json}
    (h : wordFloat? cs = some (j, rest)) : j.Ordered := by
  rw [wordFloat?] at h
  split at h
  · cases h
    exact .null
  · cases h
    exact .null
  · cases h

theorem ordered_of_based? {isDigit : Char → Bool} {base : Nat} {cs rest : List Char} {j : Json}
    (h : based? isDigit base cs = some (j, rest)) : j.Ordered := by
  obtain ⟨⟨ds, behind⟩, -, h⟩ := Option.bind_eq_some_iff.mp h
  obtain ⟨json, hjson, h⟩ := Option.bind_eq_some_iff.mp h
  cases h
  exact ordered_of_int64Json? hjson

theorem ordered_of_integer? {cs rest : List Char} {j : Json}
    (h : integer? cs = some (j, rest)) : j.Ordered := by
  rw [integer?.eq_def] at h
  split at h
  · exact ordered_of_based? h
  · exact ordered_of_based? h
  · exact ordered_of_based? h
  · obtain ⟨⟨ds, behind⟩, -, h⟩ := Option.bind_eq_some_iff.mp h
    obtain ⟨json, hjson, h⟩ := Option.bind_eq_some_iff.mp h
    cases h
    exact ordered_of_int64Json? hjson

theorem ordered_of_scalarValue? {cs rest : List Char} {j : Json}
    (h : scalarValue? cs = some (j, rest)) : j.Ordered := by
  unfold scalarValue? at h
  split at h
  · cases h
    exact .bool true
  · cases h
    exact .bool false
  · simp only [Option.orElse_eq_some] at h
    rcases h with h | ⟨-, h | ⟨-, h | ⟨-, h | ⟨-, h⟩⟩⟩⟩
    · obtain ⟨read, -, hread⟩ := Option.map_eq_some_iff.mp h
      cases hread
      exact .string _
    · obtain ⟨read, -, hread⟩ := Option.map_eq_some_iff.mp h
      cases hread
      exact .string _
    · exact ordered_of_decimalFloat? h
    · exact ordered_of_wordFloat? h
    · exact ordered_of_integer? h

mutual

theorem ordered_of_value? : ∀ {fuel depth : Nat} {cs rest : List Char} {j : Json},
    value? fuel depth cs = some (j, rest) → j.Ordered
  | 0, _, _, _, _, h => by
      rw [value?] at h
      cases h
  | fuel + 1, depth, cs, _, _, h => by
      rw [value?.eq_def] at h
      dsimp only at h
      split at h
      · split at h
        · cases h
        · exact ordered_of_items? (by simp) h
      · split at h
        · cases h
        · split at h
          · cases h
            exact .object List.Pairwise.nil (by simp)
          · exact ordered_of_pairs? Entries.ordered_nil h
      · exact ordered_of_scalarValue? h

theorem ordered_of_items? : ∀ {fuel depth : Nat} {done : List Json} {cs rest : List Char}
    {j : Json}, (∀ item ∈ done, item.Ordered) → items? fuel depth done cs = some (j, rest) →
      j.Ordered
  | 0, _, _, _, _, _, _, h => by
      rw [items?] at h
      cases h
  | fuel + 1, depth, done, cs, _, _, hdone, h => by
      rw [items?] at h
      obtain ⟨body, -, h⟩ := Option.bind_eq_some_iff.mp h
      split at h
      · cases h
        exact .array fun item hitem => hdone item (List.mem_reverse.mp hitem)
      · obtain ⟨⟨item, rest⟩, hitem, h⟩ := Option.bind_eq_some_iff.mp h
        obtain ⟨behind, -, h⟩ := Option.bind_eq_some_iff.mp h
        have hall : ∀ other ∈ item :: done, other.Ordered :=
          List.forall_mem_cons.mpr ⟨ordered_of_value? hitem, hdone⟩
        split at h
        · exact ordered_of_items? hall h
        · cases h
          exact .array fun other hother => hall other (List.mem_reverse.mp hother)
        · cases h

theorem ordered_of_pairs? : ∀ {fuel depth : Nat} {done : Entries} {cs rest : List Char}
    {j : Json}, done.Ordered → pairs? fuel depth done cs = some (j, rest) → j.Ordered
  | 0, _, _, _, _, _, _, h => by
      rw [pairs?] at h
      cases h
  | fuel + 1, depth, done, cs, _, _, hdone, h => by
      rw [pairs?] at h
      obtain ⟨⟨keys, last, rest⟩, -, h⟩ := Option.bind_eq_some_iff.mp h
      obtain ⟨body, -, h⟩ := Option.bind_eq_some_iff.mp h
      obtain ⟨⟨value, behind⟩, hvalue, h⟩ := Option.bind_eq_some_iff.mp h
      obtain ⟨entries, hentries, h⟩ := Option.bind_eq_some_iff.mp h
      have hentries : entries.Ordered :=
        keeps_assign? (ordered_of_value? hvalue) keys last done entries hdone hentries
      split at h
      · exact ordered_of_pairs? hentries h
      · cases h
        exact hentries.ofFields
      · cases h

end

/-! ## Reading documents -/

theorem State.ordered_of_line? {s next : State} {cs rest : List Char} (hs : s.root.Ordered)
    (h : line? s cs = some (next, rest)) : next.root.Ordered := by
  rw [line?.eq_def] at h
  split at h
  · obtain ⟨⟨keys, last, behind⟩, -, h⟩ := Option.bind_eq_some_iff.mp h
    obtain ⟨tail, -, h⟩ := Option.bind_eq_some_iff.mp h
    obtain ⟨entered, hentered, h⟩ := Option.bind_eq_some_iff.mp h
    cases h
    obtain ⟨root, hroot, rfl⟩ := Option.map_eq_some_iff.mp hentered
    exact keeps_openItem? keys last s.root root hs hroot
  · obtain ⟨⟨keys, last, behind⟩, -, h⟩ := Option.bind_eq_some_iff.mp h
    obtain ⟨tail, -, h⟩ := Option.bind_eq_some_iff.mp h
    obtain ⟨entered, hentered, h⟩ := Option.bind_eq_some_iff.mp h
    cases h
    obtain ⟨root, hroot, rfl⟩ := Option.map_eq_some_iff.mp hentered
    exact keeps_openTable? keys last s.root root hs hroot
  · obtain ⟨⟨keys, last, behind⟩, -, h⟩ := Option.bind_eq_some_iff.mp h
    obtain ⟨body, -, h⟩ := Option.bind_eq_some_iff.mp h
    obtain ⟨⟨value, after⟩, hvalue, h⟩ := Option.bind_eq_some_iff.mp h
    obtain ⟨tail, -, h⟩ := Option.bind_eq_some_iff.mp h
    obtain ⟨assigned, hassigned, h⟩ := Option.bind_eq_some_iff.mp h
    cases h
    obtain ⟨root, hroot, rfl⟩ := Option.map_eq_some_iff.mp hassigned
    exact keeps_assignUnder? (ordered_of_value? hvalue) s.header keys last s.root root hs hroot

theorem State.ordered_of_lines? : ∀ {rounds : Nat} {s last : State} {cs : List Char},
    s.root.Ordered → lines? rounds s cs = some last → last.root.Ordered
  | 0, _, _, _, hs, h => by
      rw [lines?] at h
      split at h
      · cases h
        exact hs
      · cases h
  | rounds + 1, _, _, _, hs, h => by
      rw [lines?] at h
      split at h
      · cases h
        exact hs
      · obtain ⟨behind, -, h⟩ := Option.bind_eq_some_iff.mp h
        exact ordered_of_lines? hs h
      · exact ordered_of_lines? hs h
      · exact ordered_of_lines? hs h
      · obtain ⟨⟨next, tail⟩, hline, h⟩ := Option.bind_eq_some_iff.mp h
        exact ordered_of_lines? (ordered_of_line? hs hline) h

/-- The object that a document describes is ordered. -/
theorem ordered_of_read? {text : String} {j : Json} (h : read? text = some j) : j.Ordered := by
  obtain ⟨s, hs, rfl⟩ := Option.map_eq_some_iff.mp h
  exact (State.ordered_of_lines? Entries.ordered_nil hs).ofFields

end BoundSql.Toml
