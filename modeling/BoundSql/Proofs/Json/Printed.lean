import BoundSql.Proofs.Json.Grammar
import BoundSql.Proofs.Json.Meaning
import BoundSql.Proofs.Json.Ordered

/-!
# Printed documents

What is printed keeps to the grammar: strings, booleans, integers, and arrays and objects of
parts that do. Each kind has one lemma, which names the document that is spelled; the lemmas
on arrays and objects take those on their parts. A printed value means itself again unless it
holds floats, whose digits are rounded when they are read (`Document.Exact.exists_document`).
-/

namespace BoundSql.Json

namespace Document

/-! ## Strings -/

/-- The unit that a printed character is read as. Controls without a short escape are
written by number. -/
def unitOf (c : Char) : Unit :=
  if c.toNat < 0x20 ∧ c.toNat ∉ [0x08, 0x09, 0x0a, 0x0c, 0x0d] then .code c.toNat else .char c

theorem isHexDigit_hexDigit {n : Nat} (h : n < 16) : IsHexDigit (hexDigit n) n := by
  have hall : ∀ m < 16, hexValue? (hexDigit m) = some m := by decide
  exact hexValue?_eq_some_iff.mp (hall n h)

/-- A printed character spells its unit. -/
theorem spellsUnits_escapeChar (c : Char) {cs : List Char} {units : List Unit}
    (h : SpellsUnits cs units) : SpellsUnits (escapeChar c ++ cs) (unitOf c :: units) := by
  have hshort : ∀ {e : Char} {n : Nat}, c.toNat = n → n ∈ [0x08, 0x09, 0x0a, 0x0c, 0x0d] →
      (e, Char.ofNat n) ∈ escapes → SpellsUnits (['\\', e] ++ cs) (unitOf c :: units) := by
    intro e n hc hn he
    have hunit : unitOf c = .char (Char.ofNat n) := by
      rw [unitOf, if_neg (fun h => h.2 (hc ▸ hn)), ← hc, Char.ofNat_toNat]
    rw [hunit]
    exact .escape he h
  unfold escapeChar
  split
  · subst_vars
    exact .escape (by decide) h
  split
  · subst_vars
    exact .escape (by decide) h
  split
  · exact hshort ‹_› (by simp) (by decide)
  split
  · exact hshort ‹_› (by simp) (by decide)
  split
  · exact hshort ‹_› (by simp) (by decide)
  split
  · exact hshort ‹_› (by simp) (by decide)
  split
  · exact hshort ‹_› (by simp) (by decide)
  split
  · rename_i hbackspace htab hline hpage hreturn hcontrol
    have hunit : unitOf c = .code (0 * 4096 + 0 * 256 + c.toNat / 16 * 16 + c.toNat % 16) := by
      have hcode : 0 * 4096 + 0 * 256 + c.toNat / 16 * 16 + c.toNat % 16 = c.toNat := by omega
      rw [hcode]
      simp [unitOf, hcontrol, hbackspace, htab, hline, hpage, hreturn]
    have hzero : IsHexDigit '0' 0 := isHexDigit_hexDigit (by decide)
    rw [hunit]
    exact .code hzero hzero (isHexDigit_hexDigit (by omega)) (isHexDigit_hexDigit (by omega)) h
  · rename_i hquote hslash _ _ _ _ _ hcontrol
    rw [unitOf, if_neg (fun h => hcontrol h.1)]
    exact .plain hquote hslash (Nat.not_lt.mp hcontrol) h

theorem spellsUnits_escaped (cs : List Char) :
    SpellsUnits (cs.flatMap escapeChar) (cs.map unitOf) := by
  induction cs with
  | nil => exact .done
  | cons c cs ih => exact spellsUnits_escapeChar c ih

theorem unitsMean_map_unitOf (cs : List Char) : UnitsMean (cs.map unitOf) cs := by
  induction cs with
  | nil => exact .done
  | cons c cs ih =>
      rw [List.map_cons, unitOf]
      split
      · rename_i hcontrol
        have hcode := UnitsMean.code (n := c.toNat) (Or.inl (by omega)) ih
        rwa [Char.ofNat_toNat] at hcode
      · exact .char c ih

theorem spells_string (s : String) : Spells (stringChars s) (.string (some s)) :=
  .string (.valued (spellsUnits_escaped s.toList) (unitsMean_map_unitOf s.toList))

/-! ## Booleans and integers -/

theorem spells_bool (b : Bool) : Spells (Json.bool b).chars (.bool b) := by
  cases b with
  | true => exact .yes
  | false => exact .no

/-- The number that a printed integer spells. -/
def integerText (k : Int) : NumberText :=
  ⟨decide (k < 0), Text.digits k.natAbs, none, none⟩

/-- The digits of a number, without a needless zero in front. -/
theorem spellsNumber_digits (n : Nat) :
    SpellsNumber (Text.digits n) ⟨false, Text.digits n, none, none⟩ := by
  have hzero : (Text.digits n).head? = some '0' → Text.digits n = ['0'] := by
    intro h
    by_cases hn : n = 0
    · rw [hn]
      rfl
    · exact absurd h (Text.head?_digits hn)
  have hspelt := SpellsNumber.unsigned
    ⟨Text.digits_ne_nil n, fun _ => Text.isDigit_of_mem_digits⟩ hzero .absent .absent
  simpa using hspelt

theorem spells_integer (k : Int) : Spells (Text.signedDigits k) (.number (integerText k)) := by
  cases k with
  | ofNat n => exact .number (spellsNumber_digits n)
  | negSucc n =>
      rw [integerText, decide_eq_true (Int.negSucc_lt_zero n)]
      exact .number (.minus (spellsNumber_digits (n + 1)))

/-! ## Arrays and objects -/

theorem Spells.padded {cs : List Char} {d : Document} (h : Spells cs d) : SpellsPadded cs d := by
  have hpadded := SpellsPadded.intro isGap_nil h isGap_nil
  rwa [List.nil_append, List.append_nil] at hpadded

/-- Documents with commas between them. -/
theorem spellsItems_commaJoined {text : List Char} {d : Document} {texts : List (List Char)}
    {docs : List Document} (hfirst : Spells text d) (h : List.Forall₂ Spells texts docs) :
    SpellsItems (commaJoined (text :: texts)) (d :: docs) := by
  induction h generalizing text d with
  | nil => exact .last hfirst.padded
  | cons hnext _ ih => exact .cons hfirst.padded (ih hnext)

theorem spells_array {texts : List (List Char)} {docs : List Document}
    (h : List.Forall₂ Spells texts docs) : Spells (arrayChars texts) (.array docs) := by
  cases h with
  | nil => exact .emptyArray isGap_nil
  | cons hfirst hothers => exact .array (spellsItems_commaJoined hfirst hothers)

/-- A field: its key, a colon and its value. -/
def fieldChars (field : String × List Char) : List Char :=
  stringChars field.1 ++ ':' :: field.2

/-- A written field and the field that it spells. -/
structure SpellsField (field : String × List Char) (d : Option String × Document) : Prop where
  key : d.1 = some field.1
  value : Spells field.2 d.2

theorem spellsKey_stringChars (key : String) : SpellsKey (stringChars key) (some key) := by
  have hkey := SpellsKey.intro isGap_nil
    (.valued (spellsUnits_escaped key.toList) (unitsMean_map_unitOf key.toList)) isGap_nil
  rwa [List.nil_append, List.append_nil] at hkey

/-- Fields with commas between them. -/
theorem spellsFields_commaJoined {field : String × List Char} {d : Option String × Document}
    {fields : List (String × List Char)} {docs : List (Option String × Document)}
    (hfirst : SpellsField field d) (h : List.Forall₂ SpellsField fields docs) :
    SpellsFields (commaJoined ((field :: fields).map fieldChars)) (d :: docs) := by
  induction h generalizing field d with
  | nil =>
      obtain ⟨key, text⟩ := field
      obtain ⟨name, doc⟩ := d
      obtain ⟨rfl, hvalue⟩ := hfirst
      exact .last (spellsKey_stringChars key) hvalue.padded
  | @cons next doc' fields docs hnext hothers ih =>
      obtain ⟨key, text⟩ := field
      obtain ⟨name, doc⟩ := d
      obtain ⟨rfl, hvalue⟩ := hfirst
      have hspelt := SpellsFields.cons (spellsKey_stringChars key) hvalue.padded (ih hnext)
      simpa [commaJoined, fieldChars] using hspelt

theorem spells_object {fields : List (String × List Char)}
    {docs : List (Option String × Document)} (h : List.Forall₂ SpellsField fields docs) :
    Spells (objectChars fields) (.object docs) := by
  cases h with
  | nil => exact .emptyObject isGap_nil
  | cons hfirst hothers => exact .object (spellsFields_commaJoined hfirst hothers)

/-! ## Values -/

/-- A value that is printed to the last digit, containers nested at most `depth` deep: its
keys are in order, and its numbers are integers that fit into sixty-four bits. -/
inductive Exact : Nat → Json → Prop
  | null {depth : Nat} : Exact depth .null
  | bool {depth : Nat} (b : Bool) : Exact depth (.bool b)
  | int {depth : Nat} {k : Int} : -((UInt64.size / 2 : Nat) : Int) ≤ k → k < UInt64.size →
      Exact depth (.number (.int k))
  | string {depth : Nat} (s : String) : Exact depth (.string s)
  | array {depth : Nat} {items : List Json} : (∀ item ∈ items, Exact depth item) →
      Exact (depth + 1) (.array items)
  | object {depth : Nat} {fields : List (String × Json)} : SortedKeys fields →
      (∀ field ∈ fields, Exact depth field.2) → Exact (depth + 1) (.object fields)

theorem isInteger_integerText {k : Int} (hlower : -((UInt64.size / 2 : Nat) : Int) ≤ k)
    (hupper : k < UInt64.size) :
    (integerText k).IsInteger k := by
  cases k with
  | ofNat n =>
      have hint := @NumberText.IsInteger.natural (Text.digits n)
      rw [Text.natOfDigits_digits] at hint
      exact hint (Int.ofNat_lt.mp hupper)
  | negSucc n =>
      have hint := @NumberText.IsInteger.negative (Text.digits (n + 1))
      rw [Text.natOfDigits_digits] at hint
      rw [integerText, decide_eq_true (Int.negSucc_lt_zero n)]
      exact hint (by omega) (by omega)

/-- A field behind all others is set there. -/
theorem insertField_last {key : String} {fields : List (String × Json)}
    (h : ∀ field ∈ fields, field.1 < key) (value : Json) :
    insertField key value fields = fields ++ [(key, value)] := by
  induction fields with
  | nil => rfl
  | cons field fields ih =>
      obtain ⟨k, v⟩ := field
      have hlt : k < key := h (k, v) (List.mem_cons_self ..)
      rw [insertField, if_neg (ne_of_gt hlt), if_neg (lt_asymm hlt),
        ih fun field hfield => h field (List.mem_cons_of_mem _ hfield), List.cons_append]

/-- Fields in order are an object as they are. -/
theorem ofFields_of_sortedKeys {fields : List (String × Json)} (h : SortedKeys fields) :
    ofFields fields = .object fields := by
  have hall : ∀ done, SortedKeys (done ++ fields) →
      fields.foldl (fun object field => insertField field.1 field.2 object) done =
        done ++ fields := by
    clear h
    induction fields with
    | nil => exact fun done _ => (List.append_nil done).symm
    | cons field fields ih =>
        intro done hsorted
        have hlast : ∀ other ∈ done, other.1 < field.1 := fun other hother =>
          (List.pairwise_append.mp hsorted).2.2 other hother field (List.mem_cons_self ..)
        rw [List.foldl_cons, insertField_last hlast, ih, List.append_assoc]
        · rfl
        · rwa [List.append_assoc]
  exact congrArg Json.object (hall [] h)

/-- Items that are printed so make documents that are printed so, and their values. -/
theorem exists_items {depth : Nat} {items : List Json}
    (h : ∀ item ∈ items, ∃ d, Spells item.chars d ∧ Means depth d item) :
    ∃ docs, List.Forall₂ Spells (itemTexts items) docs ∧ MeansItems depth docs items := by
  induction items with
  | nil => exact ⟨[], .nil, .nil⟩
  | cons item items ih =>
      obtain ⟨d, hspelt, hmeans⟩ := h item (List.mem_cons_self ..)
      obtain ⟨docs, hdocs, hvalues⟩ := ih fun other hother =>
        h other (List.mem_cons_of_mem _ hother)
      exact ⟨d :: docs, .cons hspelt hdocs, .cons hmeans hvalues⟩

theorem exists_fields {depth : Nat} {fields : List (String × Json)}
    (h : ∀ field ∈ fields, ∃ d, Spells field.2.chars d ∧ Means depth d field.2) :
    ∃ docs, List.Forall₂ SpellsField (fieldTexts fields) docs ∧
      MeansFields depth docs fields := by
  induction fields with
  | nil => exact ⟨[], .nil, .nil⟩
  | cons field fields ih =>
      obtain ⟨key, value⟩ := field
      obtain ⟨d, hspelt, hmeans⟩ := h (key, value) (List.mem_cons_self ..)
      obtain ⟨docs, hdocs, hvalues⟩ := ih fun other hother =>
        h other (List.mem_cons_of_mem _ hother)
      exact ⟨(some key, d) :: docs, .cons ⟨rfl, hspelt⟩ hdocs, .cons key hmeans hvalues⟩

/-- What is printed of an exact value means that value. -/
theorem Exact.exists_document {depth : Nat} {j : Json} (h : Exact depth j) :
    ∃ d, Spells j.chars d ∧ Means depth d j := by
  induction h with
  | null => exact ⟨.null, .null, .null⟩
  | bool b => exact ⟨.bool b, spells_bool b, .bool b⟩
  | int hlower hupper =>
      exact ⟨_, spells_integer _, .number (.int (isInteger_integerText hlower hupper))⟩
  | string s => exact ⟨.string (some s), spells_string s, .string s⟩
  | array _ ih =>
      obtain ⟨docs, hdocs, hvalues⟩ := exists_items ih
      exact ⟨.array docs, spells_array hdocs, .array hvalues⟩
  | object hkeys _ ih =>
      obtain ⟨docs, hdocs, hvalues⟩ := exists_fields ih
      have hmeans := Means.object hvalues
      rw [ofFields_of_sortedKeys hkeys] at hmeans
      exact ⟨.object docs, spells_object hdocs, hmeans⟩

end Document

end BoundSql.Json
