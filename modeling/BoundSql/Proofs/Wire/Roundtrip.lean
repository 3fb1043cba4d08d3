import BoundSql.Proofs.Calendar.Printed
import BoundSql.Proofs.Decimal.Printed
import BoundSql.Proofs.Wire.Literal
import BoundSql.Wire.Decoding
import BoundSql.Wire.Encoding

/-!
# What is sent is read back

A backend reads a bind of each kind in the form in which any backend sends it
(`Backend.decode_encode`): booleans as letters or as integers, timestamps in each layout,
arrays with nulls among their elements. Three things are lost on the way: the digits of a
timestamp behind the places of its layout (`Bind.truncate`), on which second it was carried
past its nanoseconds, unless that was the last of a minute (`Bind.settled`), and the sign of
a decimal zero, which is no part of its value (`Bind.received`).

Each kind of text has one lemma, which single binds and array elements share.
-/

namespace BoundSql

/-! ## What arrives -/

/-- An array whose timestamps are cut to the given places. -/
def BindArray.truncate (places : Nat) : BindArray → BindArray
  | .timestamp items => .timestamp (items.map (·.map (·.truncate places)))
  | a => a

/-- A bind whose timestamps are cut to the given places. -/
def Bind.truncate (places : Nat) : Bind → Bind
  | .timestamp t => .timestamp (t.truncate places)
  | .array a => .array (a.truncate places)
  | v => v

/-- An array with the instants that are written for its timestamps. -/
def BindArray.settled : BindArray → BindArray
  | .timestamp items => .timestamp (items.map (·.map Timestamp.settled))
  | a => a

/-- A bind with the instants that are written for its timestamps. -/
def Bind.settled : Bind → Bind
  | .timestamp t => .timestamp t.settled
  | .array a => .array a.settled
  | v => v

theorem BindArray.elementKind_settled (a : BindArray) :
    a.settled.elementKind = a.elementKind := by
  cases a <;> rfl

/-- An array as it is read back: truncated, and without the signs of zeros. -/
def BindArray.received (places : Nat) : BindArray → BindArray
  | .decimal items => .decimal (items.map (·.map Decimal.unsignedZero))
  | a => a.truncate places

/-- A bind as it is read back. -/
def Bind.received (places : Nat) : Bind → Bind
  | .decimal d => .decimal d.unsignedZero
  | .array a => .array (a.received places)
  | v => v.truncate places

theorem items_sameValue_unsignedZero (items : List (Option Decimal)) :
    (items.map (·.map Decimal.unsignedZero) == items) = true := by
  induction items with
  | nil => rfl
  | cons item items ih =>
      rw [List.map_cons, List.cons_beq_cons, ih, Bool.and_true]
      cases item with
      | none => rfl
      | some d => exact d.sameValue_unsignedZero

/-- What is read back of an array has the value of the truncated array, unless it holds
floats. -/
theorem BindArray.sameValue_received {a : BindArray} (h : a.elementKind ≠ .float) (places : Nat) :
    (a.received places).sameValue (a.truncate places) = true := by
  cases a with
  | float items => exact absurd rfl h
  | decimal items => exact items_sameValue_unsignedZero items
  | bool items => exact beq_self_eq_true items
  | int items => exact beq_self_eq_true items
  | string items => exact beq_self_eq_true items
  | timestamp items => exact beq_self_eq_true _
  | date items => exact beq_self_eq_true items

/-! ## Texts -/

namespace Text

theorem isValueText_signedDigits (n : Int) : IsValueText (signedDigits n) := by
  have hdigits : ∀ m, IsValueText (digits m) := fun m =>
    isValueText_of_digits (digits_ne_nil m) fun _ => isDigit_of_mem_digits
  cases n with
  | ofNat m => exact hdigits m
  | negSucc m => exact (hdigits (m + 1)).cons rfl (by decide)

end Text

namespace Wire

theorem decodeIntText_int64Text (n : Int64) : decodeIntText (Text.int64Text n) = .ok n := by
  rw [decodeIntText, Text.int64Text, String.toList_ofList,
    (Text.isValueText_signedDigits _).trimmed.trim, Text.readInt64_signedDigits]
  rfl

theorem decodeDecimalText_text (d : Decimal) : decodeDecimalText d.text = .ok d.unsignedZero := by
  rw [decodeDecimalText, Decimal.text, String.toList_ofList, d.isValueText_chars.trimmed.trim,
    d.ofText_chars]
  rfl

theorem decodeTimestampText_timestampText (b : Backend) (t : Timestamp) :
    decodeTimestampText (b.timestampText t) =
      .ok (t.settled.truncate b.timestampLayout.places) := by
  rw [decodeTimestampText, Backend.timestampText, TimestampLayout.text, String.toList_ofList,
    (Calendar.isValueText_timestamp b t).trimmed.trim, Calendar.readTimestamp?_chars]

theorem decodeDateText_text (d : Date) : decodeDateText d.text = .ok d := by
  rw [decodeDateText, Date.text, String.toList_ofList,
    (Calendar.isValueText_date d).trimmed.trim, Calendar.readDate_chars]
  rfl

/-- The letter of a boolean. -/
def letter (value : Bool) : String :=
  (Backend.postgresql.encodeBool value).display

theorem decodeBoolText_letter (value : Bool) : decodeBoolText (letter value) = .ok value := by
  cases value <;> decide +kernel

/-- A boolean is read in each of the forms in which backends send it. -/
theorem decodeBool_encodeBool (b : Backend) (value : Bool) :
    (b.encodeBool value).decodeBool = .ok value := by
  cases b with
  | postgresql => exact decodeBoolText_letter value
  | mysql => cases value <;> rfl
  | sqlite => cases value <;> rfl

/-! ## Arrays -/

section Elements

variable {α : Type} {read : String → Except Error α} {write : α → String} {back : α → α}

/-- Elements are read one by one, nulls as nulls. -/
theorem decodeElements_map (h : ∀ x, read (write x) = .ok (back x)) (items : List (Option α)) :
    decodeElements read (items.map (·.map write)) = .ok (items.map (·.map back)) := by
  induction items with
  | nil => rfl
  | cons item items ih =>
      rw [List.map_cons, List.map_cons]
      cases item with
      | none =>
          rw [Option.map_none, decodeElements, ih]
          rfl
      | some x =>
          rw [Option.map_some, decodeElements, h x, ih]
          rfl

theorem decodeElements_map_self (h : ∀ x, read (write x) = .ok x) (items : List (Option α)) :
    decodeElements read (items.map (·.map write)) = .ok items := by
  have hread : ∀ x, read (write x) = .ok (id x) := h
  rw [decodeElements_map hread, Option.map_id_fun, List.map_id_fun]
  rfl

/-- Elements that are written bare are readable if all their texts are. -/
theorem readable_map (h : ∀ x, ArrayLiteral.Bare (write x).toList) (items : List (Option α)) :
    ∀ e ∈ items.map (·.map write), ArrayLiteral.Readable false e := by
  intro e he s hs
  obtain ⟨item, -, rfl⟩ := List.mem_map.mp he
  obtain ⟨x, -, rfl⟩ := Option.map_eq_some_iff.mp hs
  exact Or.inr (h x)

end Elements

/-- The texts of the elements of an array can be written as the array writes them. -/
theorem readable_elementTexts {a : BindArray} (h : a.elementKind ≠ .float) :
    ∀ e ∈ Backend.postgresql.elementTexts a,
      ArrayLiteral.Readable (a.elementKind == .string) e := by
  have hbare : ∀ {cs : List Char}, Text.IsValueText cs →
      ArrayLiteral.Bare (String.ofList cs).toList := by
    intro cs hcs
    rw [String.toList_ofList]
    exact ArrayLiteral.bare_of_isValueText hcs
  cases a with
  | float items => exact absurd rfl h
  | string items => exact fun e _ s _ => Or.inl rfl
  | bool items =>
      refine readable_map (fun value => ?_) items
      cases value <;> exact ArrayLiteral.bare_singleton rfl (by decide) rfl
  | int items => exact readable_map (fun n => hbare (Text.isValueText_signedDigits n.toInt)) items
  | decimal items => exact readable_map (fun d => hbare d.isValueText_chars) items
  | timestamp items =>
      exact readable_map (fun t => hbare (Calendar.isValueText_timestamp .postgresql t)) items
  | date items => exact readable_map (fun d => hbare (Calendar.isValueText_date d)) items

/-- The texts of the elements are read as the array that was sent. -/
theorem decodeArray_elementTexts {a : BindArray} (h : a.elementKind ≠ .float) :
    decodeArray a.elementKind (Backend.postgresql.elementTexts a) =
      .ok (a.settled.received Backend.postgresql.timestampLayout.places) := by
  cases a with
  | float items => exact absurd rfl h
  | string items => rfl
  | bool items =>
      show (decodeElements decodeBoolText (items.map (·.map letter))).map BindArray.bool = _
      rw [decodeElements_map_self decodeBoolText_letter]
      rfl
  | int items =>
      show (decodeElements decodeIntText (items.map (·.map Text.int64Text))).map BindArray.int = _
      rw [decodeElements_map_self decodeIntText_int64Text]
      rfl
  | decimal items =>
      show (decodeElements decodeDecimalText (items.map (·.map Decimal.text))).map
        BindArray.decimal = _
      rw [decodeElements_map decodeDecimalText_text]
      rfl
  | timestamp items =>
      show (decodeElements decodeTimestampText
        (items.map (·.map Backend.postgresql.timestampText))).map BindArray.timestamp = _
      rw [decodeElements_map (decodeTimestampText_timestampText .postgresql)]
      simp only [BindArray.settled, BindArray.received, BindArray.truncate, List.map_map,
        Function.comp_def, Option.map_map]
      rfl
  | date items =>
      show (decodeElements decodeDateText (items.map (·.map Date.text))).map BindArray.date = _
      rw [decodeElements_map_self decodeDateText_text]
      rfl

theorem decodeArrayText_arrayText {a : BindArray} (h : a.elementKind ≠ .float) :
    decodeArrayText a.elementKind (Backend.postgresql.arrayText a) =
      .ok (a.settled.received Backend.postgresql.timestampLayout.places) := by
  rw [decodeArrayText, Backend.arrayText, ArrayLiteral.parse_render (readable_elementTexts h)]
  exact decodeArray_elementTexts h

end Wire

/-! ## Binds -/

/-- A bind that one backend sends and another reads: of a kind that is read as it was sent,
and an array only where both have arrays. -/
def Bind.Carried (sender reader : Backend) : Bind → Prop
  | .bool _ | .int _ | .decimal _ | .string _ | .timestamp _ | .date _ => True
  | .float x => x ≠ .nan
  | .array a => sender = .postgresql ∧ reader = .postgresql ∧ a.elementKind ≠ .float
  | .null | .json _ => False

theorem Bind.Carried.settled {sender reader : Backend} {v : Bind} (h : v.Carried sender reader) :
    v.settled.Carried sender reader := by
  cases v with
  | array a => exact ⟨h.1, h.2.1, by rw [a.elementKind_settled]; exact h.2.2⟩
  | _ => exact h

namespace Backend

/-- What is read of a bind that was sent. -/
theorem decode_received {b₁ b₂ : Backend} {v : Bind} (h : v.Carried b₁ b₂) :
    ∃ kind wire, v.kind? = some kind ∧ b₁.encode v = .ok wire ∧
      b₂.decode kind wire = .ok (v.settled.received b₁.timestampLayout.places) := by
  cases v with
  | null => exact absurd h not_false
  | json j => exact absurd h not_false
  | bool value =>
      refine ⟨.bool, b₁.encodeBool value, rfl, rfl, ?_⟩
      have hread := Wire.decodeBool_encodeBool b₁ value
      have hscalar : b₂.decode .bool (b₁.encodeBool value) =
          (b₁.encodeBool value).decodeBool.map Bind.bool := by
        cases b₁ <;> rfl
      rw [hscalar, hread]
      rfl
  | int n => exact ⟨.int, .int n, rfl, rfl, rfl⟩
  | float x => exact ⟨.float, .float x, rfl, rfl, rfl⟩
  | string s => exact ⟨.string, .text s, rfl, rfl, rfl⟩
  | decimal d =>
      refine ⟨.decimal, .text d.text, rfl, rfl, ?_⟩
      show (Wire.decodeDecimalText d.text).map Bind.decimal = _
      rw [Wire.decodeDecimalText_text]
      rfl
  | timestamp t =>
      refine ⟨.timestamp, .text (b₁.timestampText t), rfl, rfl, ?_⟩
      show (Wire.decodeTimestampText (b₁.timestampText t)).map Bind.timestamp = _
      rw [Wire.decodeTimestampText_timestampText]
      rfl
  | date d =>
      refine ⟨.date, .text d.text, rfl, rfl, ?_⟩
      show (Wire.decodeDateText d.text).map Bind.date = _
      rw [Wire.decodeDateText_text]
      rfl
  | array a =>
      obtain ⟨rfl, rfl, hkind⟩ := h
      refine ⟨.array a.elementKind, .text (postgresql.arrayText a), rfl, rfl, ?_⟩
      show (Wire.decodeArrayText a.elementKind (postgresql.arrayText a)).map Bind.array = _
      rw [Wire.decodeArrayText_arrayText hkind]
      rfl

/-- What is read has the value of the bind with its timestamps cut. -/
theorem sameValue_received {b₁ b₂ : Backend} {v : Bind} (h : v.Carried b₁ b₂) (places : Nat) :
    (v.received places).sameValue (v.truncate places) = true := by
  cases v with
  | null => exact absurd h not_false
  | json j => exact absurd h not_false
  | bool value => exact beq_self_eq_true value
  | int n => exact beq_self_eq_true n
  | float x => exact Binary64.sameValue_self h
  | string s => exact beq_self_eq_true s
  | decimal d => exact d.sameValue_unsignedZero
  | timestamp t => exact beq_self_eq_true _
  | date d => exact beq_self_eq_true d
  | array a => exact BindArray.sameValue_received h.2.2 places

/-- A bind that one backend sends is read by another as a bind of the same kind and value,
its timestamps settled and cut to the places that the sender writes. -/
theorem decode_encode {b₁ b₂ : Backend} {v : Bind} (h : v.Carried b₁ b₂) :
    ∃ kind wire back, v.kind? = some kind ∧ b₁.encode v = .ok wire ∧
      b₂.decode kind wire = .ok back ∧
      (back == v.settled.truncate b₁.timestampLayout.places) = true := by
  obtain ⟨kind, wire, hkind, hsent, hread⟩ := decode_received h
  exact ⟨kind, wire, _, hkind, hsent, hread, sameValue_received h.settled _⟩

theorem decode_encode_leap :
    let t : Timestamp := ⟨⟨-44, 3, 15, by decide⟩, 86399, 1987654321, by decide⟩
    let cut : Timestamp := ⟨⟨-44, 3, 15, by decide⟩, 86399, 1987000000, by decide⟩
    let a : BindArray := .string [some "NULL", none, some "", some " a\"\\,\x7d"]
    sqlite.timestampText t = "-0044-03-15 23:59:60.987" ∧
      (Bind.timestamp t).Carried .sqlite .postgresql ∧
      (∃ kind wire back, (Bind.timestamp t).kind? = some kind ∧
        sqlite.encode (.timestamp t) = .ok wire ∧ postgresql.decode kind wire = .ok back ∧
        (back == .timestamp cut) = true) ∧
      postgresql.arrayText a = "\x7b\"NULL\",NULL,\"\",\" a\\\"\\\\,\x7d\"\x7d" ∧
      (Bind.array a).Carried .postgresql .postgresql ∧
      ∃ kind wire back, (Bind.array a).kind? = some kind ∧
        postgresql.encode (.array a) = .ok wire ∧ postgresql.decode kind wire = .ok back ∧
        (back == .array a) = true := by
  intro t cut a
  have hcarried : (Bind.timestamp t).Carried .sqlite .postgresql := trivial
  have harray : (Bind.array a).Carried .postgresql .postgresql := ⟨rfl, rfl, by decide⟩
  have hcut : (Bind.timestamp t).settled.truncate sqlite.timestampLayout.places =
      .timestamp cut :=
    congrArg Bind.timestamp (by decide : t.settled.truncate 3 = cut)
  have hread := decode_encode hcarried
  rw [hcut] at hread
  exact ⟨by decide +kernel, hcarried, hread, by decide +kernel, harray, decode_encode harray⟩

/-- Carried past a second in the middle of a minute, a timestamp is read back as another one:
it is written as the next second. -/
theorem decode_encode_unsettled :
    let t : Timestamp := ⟨⟨2015, 9, 8, by decide⟩, 86164, 1333333333, by decide⟩
    postgresql.encode (.timestamp t) = .ok (.text "2015-09-08 23:56:05.333333+00:00") ∧
      (Bind.timestamp t).Carried .postgresql .postgresql ∧
      ¬ ∃ kind wire back, (Bind.timestamp t).kind? = some kind ∧
        postgresql.encode (.timestamp t) = .ok wire ∧ postgresql.decode kind wire = .ok back ∧
        (back == (Bind.timestamp t).truncate postgresql.timestampLayout.places) = true := by
  intro t
  have hcarried : (Bind.timestamp t).Carried .postgresql .postgresql := trivial
  have htext : postgresql.timestampText t = "2015-09-08 23:56:05.333333+00:00" := by
    decide +kernel
  refine ⟨congrArg (fun text => Except.ok (Wire.text text)) htext, hcarried, ?_⟩
  intro ⟨kind, wire, back, hkind, hsent, hread, hsame⟩
  obtain ⟨kind', wire', hkind', hsent', hread'⟩ := decode_received hcarried
  obtain rfl : kind' = kind := Option.some.inj (hkind'.symm.trans hkind)
  obtain rfl : wire' = wire := Except.ok.inj (hsent'.symm.trans hsent)
  obtain rfl := Except.ok.inj (hread'.symm.trans hread)
  revert hsame
  decide

end Backend

end BoundSql
