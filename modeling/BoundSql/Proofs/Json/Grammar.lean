import BoundSql.Json.Document
import BoundSql.Proofs.Text.Digits
import Mathlib.Data.List.DropRight

/-!
# The grammar of JSON texts

`Spells cs d` says by the rules of JSON that the text `cs` is the document `d`, without a
word on how texts are read. The reader is held to these rules: a whole text is read as a
document just if it spells that document with white space around it
(`Document.ofText?_eq_some_iff`). In front of other text a document is read as long as that
text does not run on from it, which only a number can (`Stops`).

Soundness and completeness both go by induction on the fuel of the reader. It spends fuel on
nesting; two steps for each character are always enough, which is what `Document.read?`
starts with.
-/

namespace BoundSql.Json

namespace Document

/-! ## Rules -/

/-- White space between the parts of a text. -/
def IsGap (cs : List Char) : Prop :=
  ∀ c ∈ cs, c = ' ' ∨ c = '\t' ∨ c = '\n' ∨ c = '\r'

/-- One or more digits. -/
def IsDigits (ds : List Char) : Prop :=
  ds ≠ [] ∧ ∀ c ∈ ds, c.isDigit = true

/-- A point and digits, or nothing. -/
inductive SpellsPlaces : List Char → Option (List Char) → Prop
  | absent : SpellsPlaces [] none
  | present {ds : List Char} : IsDigits ds → SpellsPlaces ('.' :: ds) (some ds)

/-- A sign, or nothing. -/
inductive SpellsSign : List Char → Bool → Prop
  | absent : SpellsSign [] false
  | plus : SpellsSign ['+'] false
  | minus : SpellsSign ['-'] true

/-- An `e` with an optional sign and digits, or nothing. -/
inductive SpellsExponent : List Char → Option (Bool × List Char) → Prop
  | absent : SpellsExponent [] none
  | present {mark : Char} {sign ds : List Char} {negative : Bool} : mark = 'e' ∨ mark = 'E' →
      SpellsSign sign negative → IsDigits ds →
      SpellsExponent (mark :: (sign ++ ds)) (some (negative, ds))

/-- A number; only zero itself starts with a zero. -/
inductive SpellsNumber : List Char → NumberText → Prop
  | unsigned {whole places exponent : List Char} {p : Option (List Char)}
      {e : Option (Bool × List Char)} : IsDigits whole → (whole.head? = some '0' → whole = ['0']) →
      SpellsPlaces places p → SpellsExponent exponent e →
      SpellsNumber (whole ++ (places ++ exponent)) ⟨false, whole, p, e⟩
  | minus {cs whole : List Char} {p : Option (List Char)} {e : Option (Bool × List Char)} :
      SpellsNumber cs ⟨false, whole, p, e⟩ → SpellsNumber ('-' :: cs) ⟨true, whole, p, e⟩

/-- The hexadecimal digits in order, in small and in capital letters. -/
def hexDigits : List (List Char) :=
  [['0', '1', '2', '3', '4', '5', '6', '7', '8', '9', 'a', 'b', 'c', 'd', 'e', 'f'],
    ['0', '1', '2', '3', '4', '5', '6', '7', '8', '9', 'A', 'B', 'C', 'D', 'E', 'F']]

/-- A hexadecimal digit and its value. -/
def IsHexDigit (c : Char) (n : Nat) : Prop :=
  ∃ ds ∈ hexDigits, ds[n]? = some c

/-- The letters that may follow a backslash alone, and what they stand for. -/
def escapes : List (Char × Char) :=
  [('"', '"'), ('\\', '\\'), ('/', '/'), ('b', '\x08'), ('f', '\x0c'), ('n', '\n'),
    ('r', '\r'), ('t', '\t')]

/-- The inside of a string and its units. -/
inductive SpellsUnits : List Char → List Unit → Prop
  | done : SpellsUnits [] []
  | plain {c : Char} {cs : List Char} {units : List Unit} : c ≠ '"' → c ≠ '\\' →
      0x20 ≤ c.toNat → SpellsUnits cs units → SpellsUnits (c :: cs) (.char c :: units)
  | escape {letter c : Char} {cs : List Char} {units : List Unit} : (letter, c) ∈ escapes →
      SpellsUnits cs units → SpellsUnits ('\\' :: letter :: cs) (.char c :: units)
  | code {a b c d : Char} {i j k l : Nat} {cs : List Char} {units : List Unit} :
      IsHexDigit a i → IsHexDigit b j → IsHexDigit c k → IsHexDigit d l → SpellsUnits cs units →
      SpellsUnits ('\\' :: 'u' :: a :: b :: c :: d :: cs)
        (.code (i * 4096 + j * 256 + k * 16 + l) :: units)

/-- The units of a string and its characters: a code that is no surrogate is a character,
and so are a high and a low surrogate together. -/
inductive UnitsMean : List Unit → List Char → Prop
  | done : UnitsMean [] []
  | char (c : Char) {units : List Unit} {cs : List Char} : UnitsMean units cs →
      UnitsMean (.char c :: units) (c :: cs)
  | code {n : Nat} {units : List Unit} {cs : List Char} : n < 0xd800 ∨ 0xe000 ≤ n →
      UnitsMean units cs → UnitsMean (.code n :: units) (Char.ofNat n :: cs)
  | pair {high low : Nat} {units : List Unit} {cs : List Char} : 0xd800 ≤ high ∧ high < 0xdc00 →
      0xdc00 ≤ low ∧ low < 0xe000 → UnitsMean units cs →
      UnitsMean (.code high :: .code low :: units)
        (Char.ofNat (0x10000 + (high - 0xd800) * 0x400 + (low - 0xdc00)) :: cs)

/-- A string in quotes. Its value is missing if a surrogate stands alone in it. -/
inductive SpellsString : List Char → Option String → Prop
  | valued {cs : List Char} {units : List Unit} {s : String} : SpellsUnits cs units →
      UnitsMean units s.toList → SpellsString ('"' :: (cs ++ ['"'])) (some s)
  | unpaired {cs : List Char} {units : List Unit} : SpellsUnits cs units →
      (∀ chars, ¬ UnitsMean units chars) → SpellsString ('"' :: (cs ++ ['"'])) none

/-- A key in front of its colon. -/
inductive SpellsKey : List Char → Option String → Prop
  | intro {before cs behind : List Char} {key : Option String} : IsGap before →
      SpellsString cs key → IsGap behind → SpellsKey (before ++ (cs ++ behind)) key

mutual

/-- A document without white space around it. -/
inductive Spells : List Char → Document → Prop
  | null : Spells ['n', 'u', 'l', 'l'] .null
  | yes : Spells ['t', 'r', 'u', 'e'] (.bool true)
  | no : Spells ['f', 'a', 'l', 's', 'e'] (.bool false)
  | number {cs : List Char} {n : NumberText} : SpellsNumber cs n → Spells cs (.number n)
  | string {cs : List Char} {s : Option String} : SpellsString cs s → Spells cs (.string s)
  | emptyArray {gap : List Char} : IsGap gap → Spells ('[' :: (gap ++ [']'])) (.array [])
  | array {cs : List Char} {items : List Document} : SpellsItems cs items →
      Spells ('[' :: (cs ++ [']'])) (.array items)
  | emptyObject {gap : List Char} : IsGap gap → Spells ('{' :: (gap ++ ['}'])) (.object [])
  | object {cs : List Char} {fields : List (Option String × Document)} :
      SpellsFields cs fields → Spells ('{' :: (cs ++ ['}'])) (.object fields)

/-- A document with white space around it. -/
inductive SpellsPadded : List Char → Document → Prop
  | intro {before cs behind : List Char} {d : Document} : IsGap before → Spells cs d →
      IsGap behind → SpellsPadded (before ++ (cs ++ behind)) d

/-- The items of an array with commas between them. -/
inductive SpellsItems : List Char → List Document → Prop
  | last {cs : List Char} {d : Document} : SpellsPadded cs d → SpellsItems cs [d]
  | cons {cs others : List Char} {d : Document} {items : List Document} : SpellsPadded cs d →
      SpellsItems others items → SpellsItems (cs ++ ',' :: others) (d :: items)

/-- The fields of an object with commas between them. -/
inductive SpellsFields : List Char → List (Option String × Document) → Prop
  | last {name cs : List Char} {key : Option String} {d : Document} : SpellsKey name key →
      SpellsPadded cs d → SpellsFields (name ++ ':' :: cs) [(key, d)]
  | cons {name cs others : List Char} {key : Option String} {d : Document}
      {fields : List (Option String × Document)} : SpellsKey name key → SpellsPadded cs d →
      SpellsFields others fields →
      SpellsFields (name ++ ':' :: (cs ++ ',' :: others)) ((key, d) :: fields)

end

/-! ## White space -/

theorem isSpace_iff {c : Char} : isSpace c = true ↔ c = ' ' ∨ c = '\t' ∨ c = '\n' ∨ c = '\r' := by
  simp [isSpace, or_assoc]

theorem isGap_nil : IsGap [] := by
  simp [IsGap]

theorem IsGap.append {a b : List Char} (ha : IsGap a) (hb : IsGap b) : IsGap (a ++ b) := by
  intro c hc
  rcases List.mem_append.mp hc with h | h
  · exact ha c h
  · exact hb c h

/-- White space is skipped up to what is none. -/
theorem skipSpace_append {gap : List Char} (h : IsGap gap) (cs : List Char) :
    skipSpace (gap ++ cs) = skipSpace cs :=
  List.dropWhile_append_of_pos fun c hc => isSpace_iff.mpr (h c hc)

theorem skipSpace_cons {c : Char} (h : isSpace c = false) (cs : List Char) :
    skipSpace (c :: cs) = c :: cs := by
  simp [skipSpace, h]

/-- What is skipped is white space. -/
theorem exists_gap (cs : List Char) : ∃ gap, IsGap gap ∧ cs = gap ++ skipSpace cs :=
  ⟨cs.takeWhile isSpace, fun _ hc => isSpace_iff.mp (List.mem_takeWhile_imp hc),
    List.takeWhile_append_dropWhile.symm⟩

theorem skipSpace_skipSpace (cs : List Char) : skipSpace (skipSpace cs) = skipSpace cs :=
  List.dropWhile_idempotent isSpace cs

theorem isEmpty_skipSpace_iff {cs : List Char} : (skipSpace cs).isEmpty = true ↔ IsGap cs := by
  rw [List.isEmpty_iff]
  constructor
  · intro h
    obtain ⟨gap, hgap, hcs⟩ := exists_gap cs
    rw [hcs, h, List.append_nil]
    exact hgap
  · intro h
    have hskip := skipSpace_append h []
    rwa [List.append_nil] at hskip

/-! ## Numbers -/

/-- A rest that a number does not run on into. -/
def Stops (rest : List Char) : Prop :=
  ∀ c ∈ rest.head?, c.isDigit = false ∧ c ≠ '.' ∧ c ≠ 'e' ∧ c ≠ 'E'

theorem stops_nil : Stops [] := by
  simp [Stops]

theorem stops_cons {c : Char} (h : c.isDigit = false ∧ c ≠ '.' ∧ c ≠ 'e' ∧ c ≠ 'E')
    (rest : List Char) : Stops (c :: rest) := by
  intro d hd
  obtain rfl : c = d := Option.some.inj hd
  exact h

theorem Stops.gap_append {gap rest : List Char} (h : Stops rest) (hgap : IsGap gap) :
    Stops (gap ++ rest) := by
  cases gap with
  | nil => exact h
  | cons c gap =>
      refine stops_cons ?_ _
      rcases hgap c (List.mem_cons_self ..) with rfl | rfl | rfl | rfl <;> decide

/-- The digits that a text starts with. -/
theorem isDigits_spanDigits {cs : List Char} (h : (Text.spanDigits cs).1.isEmpty = false) :
    IsDigits (Text.spanDigits cs).1 ∧ cs = (Text.spanDigits cs).1 ++ (Text.spanDigits cs).2 :=
  ⟨⟨List.isEmpty_eq_false_iff.mp h, fun _ hc => List.mem_takeWhile_imp hc⟩,
    (Text.spanDigits_append cs).symm⟩

theorem SpellsSign.takeSign {sign : List Char} {negative : Bool} (h : SpellsSign sign negative)
    {ds rest : List Char} (hds : IsDigits ds) :
    FloatReading.takeSign (sign ++ (ds ++ rest)) = (negative, ds ++ rest) := by
  obtain ⟨c, cs, rfl, hc⟩ := Text.exists_cons_of_digits hds.1 hds.2
  cases h with
  | absent =>
      rw [List.nil_append, List.cons_append, FloatReading.takeSign]
      · exact fun tail => Text.cons_ne_cons_of_isDigit hc rfl (cs ++ rest) tail
      · exact fun tail => Text.cons_ne_cons_of_isDigit hc rfl (cs ++ rest) tail
  | plus => rfl
  | minus => rfl

theorem spellsSign_takeSign (cs : List Char) :
    ∃ sign, SpellsSign sign (FloatReading.takeSign cs).1 ∧
      cs = sign ++ (FloatReading.takeSign cs).2 := by
  unfold FloatReading.takeSign
  split
  · exact ⟨['-'], .minus, rfl⟩
  · exact ⟨['+'], .plus, rfl⟩
  · exact ⟨[], .absent, rfl⟩

theorem SpellsExponent.readExponent? {cs : List Char} {e : Option (Bool × List Char)}
    (h : SpellsExponent cs e) {rest : List Char} (hrest : Stops rest) :
    Document.readExponent? (cs ++ rest) = some (e, rest) := by
  cases h with
  | absent =>
      cases rest with
      | nil => rfl
      | cons c rest =>
          obtain ⟨-, -, hlower, hupper⟩ := hrest c rfl
          rw [List.nil_append, Document.readExponent?, if_neg (by simp [hlower, hupper])]
  | present hmark hsign hds =>
      simp only [List.cons_append, List.append_assoc, Document.readExponent?, hmark, if_true,
        hsign.takeSign hds, Text.spanDigits_run hds.2 fun c hc => (hrest c hc).1,
        List.isEmpty_eq_false_iff.mpr hds.1, Bool.false_eq_true, if_false]

theorem spellsExponent_of_readExponent? {cs rest : List Char} {e : Option (Bool × List Char)}
    (h : readExponent? cs = some (e, rest)) :
    ∃ body, cs = body ++ rest ∧ SpellsExponent body e := by
  cases cs with
  | nil =>
      obtain ⟨rfl, rfl⟩ := Prod.mk.inj (Option.some.inj h)
      exact ⟨[], rfl, .absent⟩
  | cons c cs =>
      rw [readExponent?] at h
      split at h
      · rename_i hmark
        dsimp only at h
        split at h
        · cases h
        · rename_i hempty
          obtain ⟨hds, htail⟩ := isDigits_spanDigits (Bool.eq_false_iff.mpr hempty)
          obtain ⟨sign, hsign, hcs⟩ := spellsSign_takeSign cs
          obtain ⟨rfl, rfl⟩ := Prod.mk.inj (Option.some.inj h)
          refine ⟨_, ?_, .present hmark hsign hds⟩
          rw [List.cons_append, List.append_assoc, ← htail, ← hcs]
      · obtain ⟨rfl, rfl⟩ := Prod.mk.inj (Option.some.inj h)
        exact ⟨[], rfl, .absent⟩

theorem SpellsPlaces.readPlaces? {cs : List Char} {p : Option (List Char)}
    (h : SpellsPlaces cs p) {rest : List Char} (hdigit : ∀ c ∈ rest.head?, c.isDigit = false)
    (hpoint : rest.head? ≠ some '.') :
    Document.readPlaces? (cs ++ rest) = some (p, rest) := by
  cases h with
  | absent =>
      rw [List.nil_append, Document.readPlaces?]
      intro tail htail
      rw [htail] at hpoint
      exact hpoint rfl
  | present hds =>
      simp only [List.cons_append, Document.readPlaces?, Text.spanDigits_run hds.2 hdigit,
        List.isEmpty_eq_false_iff.mpr hds.1, Bool.false_eq_true, if_false]

theorem spellsPlaces_of_readPlaces? {cs rest : List Char} {p : Option (List Char)}
    (h : readPlaces? cs = some (p, rest)) : ∃ body, cs = body ++ rest ∧ SpellsPlaces body p := by
  unfold readPlaces? at h
  split at h
  · rename_i tail
    dsimp only at h
    split at h
    · cases h
    · rename_i hempty
      obtain ⟨hds, htail⟩ := isDigits_spanDigits (Bool.eq_false_iff.mpr hempty)
      obtain ⟨rfl, rfl⟩ := Prod.mk.inj (Option.some.inj h)
      exact ⟨_, by rw [List.cons_append, ← htail], .present hds⟩
  · obtain ⟨rfl, rfl⟩ := Prod.mk.inj (Option.some.inj h)
    exact ⟨[], rfl, .absent⟩

/-- What follows the whole part runs on from it at no digit, and shows no point unless places
do. -/
theorem SpellsExponent.head?_append {cs : List Char} {e : Option (Bool × List Char)}
    (h : SpellsExponent cs e) {rest : List Char} (hrest : Stops rest) :
    (∀ c ∈ (cs ++ rest).head?, c.isDigit = false) ∧ (cs ++ rest).head? ≠ some '.' := by
  cases h with
  | absent =>
      refine ⟨fun c hc => (hrest c hc).1, fun hpoint => ?_⟩
      exact (hrest '.' hpoint).2.1 rfl
  | present hmark _ _ => rcases hmark with rfl | rfl <;> simp

theorem SpellsPlaces.head?_append {cs : List Char} {p : Option (List Char)}
    (h : SpellsPlaces cs p) {rest : List Char} (hrest : ∀ c ∈ rest.head?, c.isDigit = false) :
    ∀ c ∈ (cs ++ rest).head?, c.isDigit = false := by
  cases h with
  | absent => exact hrest
  | present _ => simp

/-- A number behind its sign. -/
def readUnsigned? (negative : Bool) (cs : List Char) : Option (NumberText × List Char) :=
  let (whole, rest) := Text.spanDigits cs
  if whole.isEmpty || (whole.head? = some '0' && whole.length ≠ 1) then none
  else
    (readPlaces? rest).bind fun (places, behind) =>
      (readExponent? behind).bind fun (exponent, tail) =>
        some (⟨negative, whole, places, exponent⟩, tail)

theorem readNumber?_minus (cs : List Char) : readNumber? ('-' :: cs) = readUnsigned? true cs := rfl

theorem readNumber?_of_head {cs : List Char} (h : cs.head? ≠ some '-') :
    readNumber? cs = readUnsigned? false cs := by
  rw [readNumber?]
  · rfl
  · intro tail htail
    rw [htail] at h
    exact h rfl

/-- The whole part is refused if it is empty or starts with a needless zero. -/
theorem whole_admitted_iff {whole : List Char} :
    (whole.isEmpty || (whole.head? = some '0' && whole.length ≠ 1)) = false ↔
      whole ≠ [] ∧ (whole.head? = some '0' → whole = ['0']) := by
  cases whole with
  | nil => simp
  | cons c cs =>
      cases cs with
      | nil => simp
      | cons d cs => simp

theorem readUnsigned?_spelt {whole places exponent : List Char} {p : Option (List Char)}
    {e : Option (Bool × List Char)} (hwhole : IsDigits whole)
    (hzero : whole.head? = some '0' → whole = ['0']) (hplaces : SpellsPlaces places p)
    (hexponent : SpellsExponent exponent e) (negative : Bool) {rest : List Char}
    (hrest : Stops rest) :
    readUnsigned? negative (whole ++ (places ++ exponent) ++ rest) =
      some (⟨negative, whole, p, e⟩, rest) := by
  obtain ⟨hdigit, hpoint⟩ := hexponent.head?_append hrest
  simp only [readUnsigned?, List.append_assoc,
    Text.spanDigits_run hwhole.2 (hplaces.head?_append hdigit),
    whole_admitted_iff.mpr ⟨hwhole.1, hzero⟩, Bool.false_eq_true, if_false,
    hplaces.readPlaces? hdigit hpoint, Option.bind_some, hexponent.readExponent? hrest]

theorem spellsNumber_of_readUnsigned? {negative : Bool} {cs rest : List Char} {n : NumberText}
    (h : readUnsigned? negative cs = some (n, rest)) :
    ∃ body, cs = body ++ rest ∧ n.negative = negative ∧
      SpellsNumber body { n with negative := false } := by
  simp only [readUnsigned?] at h
  split at h
  · cases h
  · rename_i hadmitted
    obtain ⟨hne, hzero⟩ := whole_admitted_iff.mp (Bool.eq_false_iff.mpr hadmitted)
    obtain ⟨hwhole, hcs⟩ := isDigits_spanDigits (List.isEmpty_eq_false_iff.mpr hne)
    obtain ⟨⟨p, behind⟩, hplaces, h⟩ := Option.bind_eq_some_iff.mp h
    obtain ⟨⟨e, tail⟩, hexponent, h⟩ := Option.bind_eq_some_iff.mp h
    obtain ⟨rfl, rfl⟩ := Prod.mk.inj (Option.some.inj h)
    obtain ⟨places, hplacesText, hp⟩ := spellsPlaces_of_readPlaces? hplaces
    obtain ⟨exponent, hexponentText, he⟩ := spellsExponent_of_readExponent? hexponent
    refine ⟨_, ?_, rfl, .unsigned hwhole hzero hp he⟩
    rw [List.append_assoc, List.append_assoc, ← hexponentText, ← hplacesText, ← hcs]

theorem SpellsNumber.starts {cs : List Char} {n : NumberText} (h : SpellsNumber cs n) :
    ∃ c tail, cs = c :: tail ∧ (c = '-' ∨ c.isDigit = true) := by
  cases h with
  | unsigned hwhole _ _ _ =>
      obtain ⟨c, tail, rfl, hc⟩ := Text.exists_cons_of_digits hwhole.1 hwhole.2
      exact ⟨c, _, rfl, Or.inr hc⟩
  | minus _ => exact ⟨'-', _, rfl, Or.inl rfl⟩

theorem SpellsNumber.readNumber? {cs : List Char} {n : NumberText} (h : SpellsNumber cs n)
    {rest : List Char} (hrest : Stops rest) :
    Document.readNumber? (cs ++ rest) = some (n, rest) := by
  cases h with
  | unsigned hwhole hzero hplaces hexponent =>
      rw [readNumber?_of_head, readUnsigned?_spelt hwhole hzero hplaces hexponent false hrest]
      obtain ⟨c, tail, rfl, hc⟩ := Text.exists_cons_of_digits hwhole.1 hwhole.2
      intro hminus
      obtain rfl : c = '-' := Option.some.inj hminus
      cases hc
  | minus h =>
      cases h with
      | unsigned hwhole hzero hplaces hexponent =>
          rw [List.cons_append, readNumber?_minus,
            readUnsigned?_spelt hwhole hzero hplaces hexponent true hrest]

theorem spellsNumber_of_readNumber? {cs rest : List Char} {n : NumberText}
    (h : readNumber? cs = some (n, rest)) : ∃ body, cs = body ++ rest ∧ SpellsNumber body n := by
  by_cases hminus : cs.head? = some '-'
  · obtain ⟨tail, rfl⟩ := List.head?_eq_some_iff.mp hminus
    rw [readNumber?_minus] at h
    obtain ⟨body, rfl, hnegative, hbody⟩ := spellsNumber_of_readUnsigned? h
    refine ⟨'-' :: body, rfl, ?_⟩
    have hspelt := SpellsNumber.minus hbody
    rwa [← hnegative] at hspelt
  · rw [readNumber?_of_head hminus] at h
    obtain ⟨body, rfl, hnegative, hbody⟩ := spellsNumber_of_readUnsigned? h
    refine ⟨body, rfl, ?_⟩
    rwa [← hnegative] at hbody

/-! ## Strings -/

/-- A reader whose result is put into another form takes what it takes alone. -/
theorem map_fst_eq_some_iff {α β : Type} {r : Option (α × List Char)} {f : α → β} {b : β}
    {rest : List Char} :
    (r.map fun p => (f p.1, p.2)) = some (b, rest) ↔ ∃ a, r = some (a, rest) ∧ f a = b := by
  rw [Option.map_eq_some_iff]
  constructor
  · intro ⟨⟨a, behind⟩, hr, heq⟩
    obtain ⟨rfl, rfl⟩ := Prod.mk.inj heq
    exact ⟨a, hr, rfl⟩
  · intro ⟨a, hr, hb⟩
    exact ⟨(a, rest), hr, by rw [hb]⟩

theorem simpleEscape?_eq_some_iff {letter c : Char} :
    simpleEscape? letter = some c ↔ (letter, c) ∈ escapes := by
  have hbackspace : Char.ofNat 0x08 = '\x08' := rfl
  have hpage : Char.ofNat 0x0c = '\x0c' := rfl
  simp only [simpleEscape?, escapes, List.mem_cons, Prod.mk.injEq, List.not_mem_nil, or_false,
    hbackspace, hpage]
  grind

theorem toNat_lt_of_hexValue? {c : Char} {n : Nat} (h : hexValue? c = some n) : c.toNat < 128 := by
  unfold hexValue? at h
  split at h
  · rename_i hdigit
    have hle : c ≤ '9' := (Char.isDigit_iff_toNat.mp hdigit).2
    exact Nat.lt_of_le_of_lt hle (by decide)
  split at h
  · rename_i hsmall
    exact Nat.lt_of_le_of_lt hsmall.2 (by decide)
  split at h
  · rename_i hcapital
    exact Nat.lt_of_le_of_lt hcapital.2 (by decide)
  · cases h

theorem hexValue?_eq_some_iff {c : Char} {n : Nat} :
    hexValue? c = some n ↔ IsHexDigit c n := by
  constructor
  · intro h
    have hall : ∀ m < 128, (hexValue? (Char.ofNat m)).all (fun k =>
        hexDigits.any (·[k]? == some (Char.ofNat m))) = true := by decide
    have hc := hall c.toNat (toNat_lt_of_hexValue? h)
    rw [Char.ofNat_toNat, h] at hc
    simpa [IsHexDigit] using hc
  · intro h
    have hall : ∀ ds ∈ hexDigits, ∀ m < 16, ds[m]?.all (hexValue? · == some m) = true := by decide
    have hlength : ∀ ds ∈ hexDigits, ds.length = 16 := by decide
    obtain ⟨ds, hds, hc⟩ := h
    have hn : n < 16 := by
      rw [← hlength ds hds]
      exact (List.getElem?_eq_some_iff.mp hc).1
    simpa [hc] using hall ds hds n hn

theorem hexQuad?_eq_some_iff {a b c d : Char} {n : Nat} :
    hexQuad? a b c d = some n ↔ ∃ i j k l, IsHexDigit a i ∧ IsHexDigit b j ∧ IsHexDigit c k ∧
      IsHexDigit d l ∧ n = i * 4096 + j * 256 + k * 16 + l := by
  simp only [← hexValue?_eq_some_iff, hexQuad?, Option.bind_eq_bind, Option.bind_eq_some_iff,
    Option.pure_def, Option.some.injEq]
  constructor
  · intro ⟨i, hi, j, hj, k, hk, l, hl, h⟩
    exact ⟨i, j, k, l, hi, hj, hk, hl, h.symm⟩
  · intro ⟨i, j, k, l, hi, hj, hk, hl, h⟩
    exact ⟨i, hi, j, hj, k, hk, l, hl, h.symm⟩

theorem readUnits?_plain {c : Char} (hquote : c ≠ '"') (hslash : c ≠ '\\')
    (hcontrol : 0x20 ≤ c.toNat) (cs : List Char) :
    readUnits? (c :: cs) = (readUnits? cs).map fun r => (.char c :: r.1, r.2) := by
  rw [readUnits?, if_neg (by simp [hslash, hcontrol])]
  · cases readUnits? cs <;> rfl
  all_goals simp [hquote, hslash]

/-- An escape of one letter is read as the character that it stands for. -/
theorem readUnits?_escape {letter c : Char} (h : (letter, c) ∈ escapes) (cs : List Char) :
    readUnits? ('\\' :: letter :: cs) = (readUnits? cs).map fun r => (.char c :: r.1, r.2) := by
  have hescape := simpleEscape?_eq_some_iff.mpr h
  have hu : letter ≠ 'u' := by
    intro hu
    rw [hu] at hescape
    cases hescape
  rw [readUnits?, hescape]
  · cases readUnits? cs <;> rfl
  · intro a b c d tail heq
    exact absurd heq (by simp [hu])

theorem readUnits?_code {a b c d : Char} {n : Nat} (h : hexQuad? a b c d = some n)
    (cs : List Char) :
    readUnits? ('\\' :: 'u' :: a :: b :: c :: d :: cs) =
      (readUnits? cs).map fun r => (.code n :: r.1, r.2) := by
  rw [readUnits?, h]
  cases readUnits? cs <;> rfl

theorem SpellsUnits.readUnits? {cs : List Char} {units : List Unit} (h : SpellsUnits cs units)
    (rest : List Char) : Document.readUnits? (cs ++ '"' :: rest) = some (units, rest) := by
  induction h with
  | done => simp [Document.readUnits?]
  | plain hquote hslash hcontrol _ ih =>
      rw [List.cons_append, readUnits?_plain hquote hslash hcontrol, ih]
      rfl
  | escape hletter _ ih =>
      rw [List.cons_append, List.cons_append, readUnits?_escape hletter, ih]
      rfl
  | code ha hb hc hd _ ih =>
      simp only [List.cons_append]
      rw [readUnits?_code (hexQuad?_eq_some_iff.mpr ⟨_, _, _, _, ha, hb, hc, hd, rfl⟩), ih]
      rfl

theorem spellsUnits_of_readUnits? {cs rest : List Char} {units : List Unit}
    (h : readUnits? cs = some (units, rest)) :
    ∃ body, cs = body ++ '"' :: rest ∧ SpellsUnits body units := by
  induction cs using readUnits?.induct generalizing units with
  | case1 => cases h
  | case2 cs =>
      simp only [readUnits?, Option.some.injEq, Prod.mk.injEq] at h
      obtain ⟨rfl, rfl⟩ := h
      exact ⟨[], rfl, .done⟩
  | case3 a b c d cs ih =>
      cases hquad : hexQuad? a b c d with
      | none => simp [readUnits?, hquad] at h
      | some n =>
          rw [readUnits?_code hquad] at h
          obtain ⟨tailUnits, htail, rfl⟩ := map_fst_eq_some_iff.mp h
          obtain ⟨i, j, k, l, ha, hb, hc, hd, rfl⟩ := hexQuad?_eq_some_iff.mp hquad
          obtain ⟨body, rfl, hbody⟩ := ih htail
          exact ⟨_, rfl, .code ha hb hc hd hbody⟩
  | case4 letter cs hother ih =>
      cases hescape : simpleEscape? letter with
      | none => simp [readUnits?, hescape] at h
      | some c =>
          have hletter := simpleEscape?_eq_some_iff.mp hescape
          rw [readUnits?_escape hletter] at h
          obtain ⟨tailUnits, htail, rfl⟩ := map_fst_eq_some_iff.mp h
          obtain ⟨body, rfl, hbody⟩ := ih htail
          exact ⟨_, rfl, .escape hletter hbody⟩
  | case5 c cs hquote hcode hescape hbad => simp [readUnits?, hbad] at h
  | case6 c cs hquote hcode hescape hgood ih =>
      obtain ⟨hslash, hcontrol⟩ := not_or.mp hgood
      rw [readUnits?_plain hquote hslash (Nat.not_lt.mp hcontrol)] at h
      obtain ⟨tailUnits, htail, rfl⟩ := map_fst_eq_some_iff.mp h
      obtain ⟨body, rfl, hbody⟩ := ih htail
      exact ⟨_, rfl, .plain hquote hslash (Nat.not_lt.mp hcontrol) hbody⟩

/-- A code that is no surrogate is a character whatever follows. -/
theorem decodeUnits?_code {n : Nat} (h : n < 0xd800 ∨ 0xe000 ≤ n) (units : List Unit) :
    decodeUnits? (.code n :: units) = (decodeUnits? units).map (Char.ofNat n :: ·) := by
  have hhigh : ¬ (0xd800 ≤ n ∧ n < 0xdc00) := by omega
  have hlow : ¬ (0xdc00 ≤ n ∧ n < 0xe000) := by omega
  have hnone : ¬ (0xd800 ≤ n ∧ n < 0xe000) := by omega
  cases units with
  | nil => simp [decodeUnits?, hnone]
  | cons u units => cases u <;> simp [decodeUnits?, hlow, hhigh, hnone]

theorem decodeUnits?_eq_some_iff {units : List Unit} {cs : List Char} :
    decodeUnits? units = some cs ↔ UnitsMean units cs := by
  constructor
  · intro h
    induction units using decodeUnits?.induct generalizing cs with
    | case1 =>
        obtain rfl : [] = cs := Option.some.inj h
        exact .done
    | case2 c units ih =>
        obtain ⟨tail, htail, rfl⟩ := Option.map_eq_some_iff.mp h
        exact .char c (ih htail)
    | case3 high low units hhigh hlow ih =>
        simp only [decodeUnits?, hhigh, hlow, and_self, if_true] at h
        obtain ⟨tail, htail, rfl⟩ := Option.map_eq_some_iff.mp h
        exact .pair hhigh hlow (ih htail)
    | case4 high low units hhigh hlow => simp [decodeUnits?, hhigh, hlow] at h
    | case5 high low units hhigh hlow => simp [decodeUnits?, hhigh, hlow] at h
    | case6 high low units hhigh hlow ih =>
        simp only [decodeUnits?, hhigh, hlow, if_false] at h
        obtain ⟨tail, htail, rfl⟩ := Option.map_eq_some_iff.mp h
        exact .code (by omega) (ih htail)
    | case7 n units hunits hnone => simp [decodeUnits?, hnone] at h
    | case8 n units hunits hnone ih =>
        rw [decodeUnits?_code (by omega)] at h
        obtain ⟨tail, htail, rfl⟩ := Option.map_eq_some_iff.mp h
        exact .code (by omega) (ih htail)
  · intro h
    induction h with
    | done => rfl
    | char c _ ih => rw [decodeUnits?, ih, Option.map_some]
    | code hn _ ih => rw [decodeUnits?_code hn, ih, Option.map_some]
    | pair hhigh hlow _ ih => simp only [decodeUnits?, hhigh, hlow, and_self, if_true, ih,
        Option.map_some]

theorem SpellsString.readString? {cs : List Char} {s : Option String} (h : SpellsString cs s) :
    ∃ body, cs = '"' :: body ∧
      ∀ rest, Document.readString? (body ++ rest) = some (s, rest) := by
  cases h with
  | valued hunits hmean =>
      refine ⟨_, rfl, fun rest => ?_⟩
      simp only [List.append_assoc, List.cons_append, List.nil_append, Document.readString?,
        hunits.readUnits?, decodeUnits?_eq_some_iff.mpr hmean, Option.map_some,
        String.ofList_toList]
  | unpaired hunits hnone =>
      refine ⟨_, rfl, fun rest => ?_⟩
      have hdecode := Option.eq_none_iff_forall_ne_some.mpr fun chars hchars =>
        hnone chars (decodeUnits?_eq_some_iff.mp hchars)
      simp only [List.append_assoc, List.cons_append, List.nil_append, Document.readString?,
        hunits.readUnits?, hdecode, Option.map_some, Option.map_none]

theorem spellsString_of_readString? {cs rest : List Char} {s : Option String}
    (h : readString? cs = some (s, rest)) :
    ∃ body, '"' :: cs = body ++ rest ∧ SpellsString body s := by
  obtain ⟨⟨units, tail⟩, hunits, heq⟩ := Option.map_eq_some_iff.mp h
  obtain ⟨rfl, rfl⟩ := Prod.mk.inj heq
  obtain ⟨body, rfl, hbody⟩ := spellsUnits_of_readUnits? hunits
  refine ⟨'"' :: (body ++ ['"']), by simp, ?_⟩
  cases hdecode : decodeUnits? units with
  | none =>
      refine .unpaired hbody fun chars hchars => ?_
      rw [decodeUnits?_eq_some_iff.mpr hchars] at hdecode
      cases hdecode
  | some chars =>
      refine .valued hbody ?_
      rw [String.toList_ofList]
      exact decodeUnits?_eq_some_iff.mp hdecode

/-! ## Documents -/

theorem afterWord?_eq_some_iff {word cs rest : List Char} :
    afterWord? word cs = some rest ↔ cs = word ++ rest := by
  induction word generalizing cs with
  | nil => simp [afterWord?]
  | cons w ws ih =>
      cases cs with
      | nil => simp [afterWord?]
      | cons c cs =>
          rw [afterWord?, List.cons_append, List.cons.injEq]
          split
          · rename_i hw
            rw [ih, hw]
            simp
          · rename_i hw
            simp [Ne.symm hw]

theorem map_afterWord?_eq_some_iff {word cs rest : List Char} {d e : Document} :
    (afterWord? word cs).map (d, ·) = some (e, rest) ↔ d = e ∧ cs = word ++ rest := by
  rw [Option.map_eq_some_iff]
  constructor
  · intro ⟨behind, hword, heq⟩
    obtain ⟨rfl, rfl⟩ := Prod.mk.inj heq
    exact ⟨rfl, afterWord?_eq_some_iff.mp hword⟩
  · intro ⟨hd, hcs⟩
    exact ⟨rest, afterWord?_eq_some_iff.mpr hcs, by rw [hd]⟩

theorem ne_of_starts {c d : Char} (hc : c = '-' ∨ c.isDigit = true)
    (hd : d ≠ '-' ∧ d.isDigit = false) : c ≠ d := by
  intro hcd
  subst hcd
  rcases hc with rfl | hc
  · exact hd.1 rfl
  · exact absurd hc (by simp [hd.2])

theorem isSpace_of_starts {c : Char} (hc : c = '-' ∨ c.isDigit = true) : isSpace c = false := by
  simp [isSpace, ne_of_starts (d := ' ') hc (by decide), ne_of_starts (d := '\t') hc (by decide),
    ne_of_starts (d := '\n') hc (by decide), ne_of_starts (d := '\r') hc (by decide)]

/-- What begins with a minus or a digit is read as a number. -/
theorem readValue?_number {c : Char} (hc : c = '-' ∨ c.isDigit = true) (fuel : Nat)
    (cs : List Char) :
    readValue? (fuel + 1) (c :: cs) =
      (readNumber? (c :: cs)).map fun r => (.number r.1, r.2) := by
  have hother : ∀ d : Char, (d ≠ '-' ∧ d.isDigit = false) → c ≠ d := fun _ => ne_of_starts hc
  rw [readValue?, skipSpace_cons (isSpace_of_starts hc)]
  simp only [hother 'n' (by decide), hother 't' (by decide), hother 'f' (by decide),
    hother '"' (by decide), hother '[' (by decide), hother '{' (by decide), if_false]

/-- A document starts with neither a space nor a closing bracket. -/
theorem Spells.starts {cs : List Char} {d : Document} (h : Spells cs d) :
    ∃ c tail, cs = c :: tail ∧ isSpace c = false ∧ c ≠ ']' := by
  cases h with
  | number hn =>
      obtain ⟨c, tail, rfl, hc⟩ := hn.starts
      exact ⟨c, tail, rfl, isSpace_of_starts hc, ne_of_starts hc (by decide)⟩
  | string hs =>
      obtain ⟨body, rfl, -⟩ := hs.readString?
      exact ⟨_, _, rfl, rfl, by decide⟩
  | _ => exact ⟨_, _, rfl, rfl, by decide⟩

theorem readValue?_skipSpace (fuel : Nat) (cs : List Char) :
    readValue? fuel (skipSpace cs) = readValue? fuel cs := by
  cases fuel with
  | zero => rfl
  | succ fuel => rw [readValue?, readValue?, skipSpace_skipSpace]

theorem readItems?_skipSpace (fuel : Nat) (cs : List Char) :
    readItems? fuel (skipSpace cs) = readItems? fuel cs := by
  cases fuel with
  | zero => rfl
  | succ fuel => rw [readItems?, readItems?, readValue?_skipSpace]

theorem readFields?_skipSpace (fuel : Nat) (cs : List Char) :
    readFields? fuel (skipSpace cs) = readFields? fuel cs := by
  cases fuel with
  | zero => rfl
  | succ fuel => rw [readFields?, readFields?, skipSpace_skipSpace]

theorem readValue?_gap_append {gap : List Char} (h : IsGap gap) (fuel : Nat) (cs : List Char) :
    readValue? fuel (gap ++ cs) = readValue? fuel cs := by
  rw [← readValue?_skipSpace, skipSpace_append h, readValue?_skipSpace]

/-! ### Completeness -/

/-- What the reader reads with so much fuel. -/
structure Reads (fuel : Nat) : Prop where
  value : ∀ {cs : List Char} {d : Document} {rest : List Char}, Spells cs d →
    2 * cs.length ≤ fuel → Stops rest → readValue? fuel (cs ++ rest) = some (d, rest)
  items : ∀ {cs : List Char} {items : List Document} (rest : List Char), SpellsItems cs items →
    2 * cs.length + 1 ≤ fuel → readItems? fuel (cs ++ ']' :: rest) = some (items, rest)
  fields : ∀ {cs : List Char} {fields : List (Option String × Document)} (rest : List Char),
    SpellsFields cs fields → 2 * cs.length + 1 ≤ fuel →
    readFields? fuel (cs ++ '}' :: rest) = some (fields, rest)

/-- A padded document leaves the white space behind it. -/
theorem Reads.padded {fuel : Nat} (h : Reads fuel) {cs rest : List Char} {d : Document}
    (hcs : SpellsPadded cs d) (hfuel : 2 * cs.length ≤ fuel) (hrest : Stops rest) :
    ∃ gap, IsGap gap ∧ readValue? fuel (cs ++ rest) = some (d, gap ++ rest) := by
  cases hcs with
  | intro hbefore hd hbehind =>
      refine ⟨_, hbehind, ?_⟩
      simp only [List.length_append] at hfuel
      rw [List.append_assoc, readValue?_gap_append hbefore, List.append_assoc,
        h.value hd (by omega) (hrest.gap_append hbehind)]

theorem readItems?_last {fuel : Nat} {cs gap rest : List Char} {d : Document}
    (h : readValue? fuel cs = some (d, gap ++ ']' :: rest)) (hgap : IsGap gap) :
    readItems? (fuel + 1) cs = some ([d], rest) := by
  simp only [readItems?, h, Option.bind_eq_bind, Option.bind_some, skipSpace_append hgap,
    skipSpace_cons (show isSpace ']' = false from rfl), Option.pure_def]

theorem readItems?_comma {fuel : Nat} {cs gap rest : List Char} {d : Document}
    (h : readValue? fuel cs = some (d, gap ++ ',' :: rest)) (hgap : IsGap gap) :
    readItems? (fuel + 1) cs = (readItems? fuel rest).map fun r => (d :: r.1, r.2) := by
  simp only [readItems?, h, Option.bind_eq_bind, Option.bind_some, skipSpace_append hgap,
    skipSpace_cons (show isSpace ',' = false from rfl)]
  cases readItems? fuel rest <;> rfl

/-- A key is read up to its colon. -/
theorem SpellsKey.readString? {name : List Char} {key : Option String} (h : SpellsKey name key)
    (cs : List Char) :
    ∃ body behind, skipSpace (name ++ ':' :: cs) = '"' :: body ∧
      Document.readString? body = some (key, behind) ∧ skipSpace behind = ':' :: cs := by
  cases h with
  | @intro before text gap key hbefore hkey hgap =>
      obtain ⟨body, rfl, hread⟩ := hkey.readString?
      refine ⟨body ++ (gap ++ ':' :: cs), gap ++ ':' :: cs, ?_, hread _, ?_⟩
      · rw [List.append_assoc, skipSpace_append hbefore, List.append_assoc, List.cons_append,
          skipSpace_cons rfl]
      · rw [skipSpace_append hgap, skipSpace_cons rfl]

theorem readFields?_last {fuel : Nat} {name cs gap rest : List Char} {key : Option String}
    {d : Document} (hname : SpellsKey name key)
    (h : readValue? fuel cs = some (d, gap ++ '}' :: rest)) (hgap : IsGap gap) :
    readFields? (fuel + 1) (name ++ ':' :: cs) = some ([(key, d)], rest) := by
  obtain ⟨body, behind, hquote, hkey, hcolon⟩ := hname.readString? cs
  simp only [readFields?, hquote, hkey, hcolon, h, Option.bind_eq_bind, Option.bind_some,
    skipSpace_append hgap, skipSpace_cons (show isSpace '}' = false from rfl), Option.pure_def]

theorem readFields?_comma {fuel : Nat} {name cs gap rest : List Char} {key : Option String}
    {d : Document} (hname : SpellsKey name key)
    (h : readValue? fuel cs = some (d, gap ++ ',' :: rest)) (hgap : IsGap gap) :
    readFields? (fuel + 1) (name ++ ':' :: cs) =
      (readFields? fuel rest).map fun r => ((key, d) :: r.1, r.2) := by
  obtain ⟨body, behind, hquote, hkey, hcolon⟩ := hname.readString? cs
  simp only [readFields?, hquote, hkey, hcolon, h, Option.bind_eq_bind, Option.bind_some,
    skipSpace_append hgap, skipSpace_cons (show isSpace ',' = false from rfl)]
  cases readFields? fuel rest <;> rfl

theorem SpellsPadded.starts {cs : List Char} {d : Document} (h : SpellsPadded cs d) :
    ∃ gap c tail, IsGap gap ∧ cs = gap ++ c :: tail ∧ isSpace c = false ∧ c ≠ ']' := by
  cases h with
  | intro hbefore hd hbehind =>
      obtain ⟨c, tail, rfl, hc⟩ := hd.starts
      exact ⟨_, c, _, hbefore, rfl, hc⟩

/-- Items start as their first document does, behind white space. -/
theorem SpellsItems.starts {cs : List Char} {items : List Document} (h : SpellsItems cs items) :
    ∃ gap c tail, IsGap gap ∧ cs = gap ++ c :: tail ∧ isSpace c = false ∧ c ≠ ']' := by
  cases h with
  | last hd => exact hd.starts
  | cons hd _ =>
      obtain ⟨gap, c, tail, hgap, rfl, hc⟩ := hd.starts
      exact ⟨gap, c, _, hgap, List.append_assoc .., hc⟩

theorem readValue?_items {fuel : Nat} {cs rest : List Char} {items : List Document}
    (hcs : SpellsItems cs items) (h : readItems? fuel (cs ++ ']' :: rest) = some (items, rest)) :
    readValue? (fuel + 1) ('[' :: (cs ++ ']' :: rest)) = some (.array items, rest) := by
  obtain ⟨gap, c, tail, hgap, rfl, hspace, hbracket⟩ := hcs.starts
  rw [← readItems?_skipSpace] at h
  rw [List.append_assoc, List.cons_append, skipSpace_append hgap, skipSpace_cons hspace] at h
  rw [readValue?, skipSpace_cons (by decide)]
  simp [skipSpace_append hgap, skipSpace_cons hspace, hbracket, h]

theorem SpellsKey.starts {cs : List Char} {key : Option String} (h : SpellsKey cs key) :
    ∃ gap tail, IsGap gap ∧ cs = gap ++ '"' :: tail := by
  cases h with
  | intro hbefore hs hbehind =>
      obtain ⟨body, rfl, -⟩ := hs.readString?
      exact ⟨_, _, hbefore, rfl⟩

theorem SpellsFields.starts {cs : List Char} {fields : List (Option String × Document)}
    (h : SpellsFields cs fields) : ∃ gap tail, IsGap gap ∧ cs = gap ++ '"' :: tail := by
  cases h with
  | last hname _ =>
      obtain ⟨gap, tail, hgap, rfl⟩ := hname.starts
      exact ⟨gap, _, hgap, List.append_assoc ..⟩
  | cons hname _ _ =>
      obtain ⟨gap, tail, hgap, rfl⟩ := hname.starts
      exact ⟨gap, _, hgap, List.append_assoc ..⟩

theorem readValue?_fields {fuel : Nat} {cs rest : List Char}
    {fields : List (Option String × Document)} (hcs : SpellsFields cs fields)
    (h : readFields? fuel (cs ++ '}' :: rest) = some (fields, rest)) :
    readValue? (fuel + 1) ('{' :: (cs ++ '}' :: rest)) = some (.object fields, rest) := by
  obtain ⟨gap, tail, hgap, rfl⟩ := hcs.starts
  rw [← readFields?_skipSpace] at h
  rw [List.append_assoc, List.cons_append, skipSpace_append hgap, skipSpace_cons (by decide)] at h
  rw [readValue?, skipSpace_cons (by decide)]
  simp [skipSpace_append hgap, skipSpace_cons (show isSpace '"' = false from rfl), h]

/-- One more step of fuel reads a document whose parts are read with the fuel so far. -/
theorem Reads.value_succ {fuel : Nat} (h : Reads fuel) {cs rest : List Char} {d : Document}
    (hcs : Spells cs d) (hfuel : 2 * cs.length ≤ fuel + 1) (hrest : Stops rest) :
    readValue? (fuel + 1) (cs ++ rest) = some (d, rest) := by
  cases hcs with
  | null => rfl
  | yes => rfl
  | no => rfl
  | number hn =>
      obtain ⟨c, tail, rfl, hc⟩ := hn.starts
      have hread := hn.readNumber? hrest
      rw [List.cons_append] at hread ⊢
      rw [readValue?_number hc, hread, Option.map_some]
  | string hs =>
      obtain ⟨body, rfl, hread⟩ := hs.readString?
      rw [List.cons_append, readValue?, skipSpace_cons (by decide)]
      simp [hread]
  | emptyArray hgap =>
      simp only [List.cons_append, List.append_assoc, List.nil_append]
      rw [readValue?, skipSpace_cons (by decide)]
      simp [skipSpace_append hgap, skipSpace_cons (show isSpace ']' = false from rfl)]
  | array hitems =>
      simp only [List.length_cons, List.length_append] at hfuel
      simp only [List.cons_append, List.append_assoc, List.nil_append]
      exact readValue?_items hitems (h.items rest hitems (by omega))
  | emptyObject hgap =>
      simp only [List.cons_append, List.append_assoc, List.nil_append]
      rw [readValue?, skipSpace_cons (by decide)]
      simp [skipSpace_append hgap, skipSpace_cons (show isSpace '}' = false from rfl)]
  | object hfields =>
      simp only [List.length_cons, List.length_append] at hfuel
      simp only [List.cons_append, List.append_assoc, List.nil_append]
      exact readValue?_fields hfields (h.fields rest hfields (by omega))

theorem Reads.items_succ {fuel : Nat} (h : Reads fuel) {cs : List Char} {items : List Document}
    (rest : List Char) (hcs : SpellsItems cs items) (hfuel : 2 * cs.length + 1 ≤ fuel + 1) :
    readItems? (fuel + 1) (cs ++ ']' :: rest) = some (items, rest) := by
  cases hcs with
  | last hd =>
      obtain ⟨gap, hgap, hread⟩ := h.padded hd (by omega) (stops_cons (c := ']') (by decide) rest)
      exact readItems?_last hread hgap
  | cons hd hothers =>
      rw [List.length_append, List.length_cons] at hfuel
      rw [List.append_assoc, List.cons_append]
      obtain ⟨gap, hgap, hread⟩ := h.padded hd (by omega) (stops_cons (c := ',') (by decide) _)
      rw [readItems?_comma hread hgap, h.items rest hothers (by omega), Option.map_some]

theorem Reads.fields_succ {fuel : Nat} (h : Reads fuel) {cs : List Char}
    {fields : List (Option String × Document)} (rest : List Char) (hcs : SpellsFields cs fields)
    (hfuel : 2 * cs.length + 1 ≤ fuel + 1) :
    readFields? (fuel + 1) (cs ++ '}' :: rest) = some (fields, rest) := by
  cases hcs with
  | last hname hd =>
      rw [List.length_append, List.length_cons] at hfuel
      rw [List.append_assoc, List.cons_append]
      obtain ⟨gap, hgap, hread⟩ := h.padded hd (by omega) (stops_cons (c := '}') (by decide) rest)
      exact readFields?_last hname hread hgap
  | cons hname hd hothers =>
      simp only [List.length_append, List.length_cons] at hfuel
      rw [List.append_assoc, List.cons_append, List.append_assoc, List.cons_append]
      obtain ⟨gap, hgap, hread⟩ := h.padded hd (by omega) (stops_cons (c := ',') (by decide) _)
      rw [readFields?_comma hname hread hgap, h.fields rest hothers (by omega), Option.map_some]

theorem reads (fuel : Nat) : Reads fuel := by
  induction fuel with
  | zero =>
      refine ⟨fun hcs hfuel _ => ?_, fun _ _ hfuel => absurd hfuel (by omega),
        fun _ _ hfuel => absurd hfuel (by omega)⟩
      obtain ⟨c, tail, rfl, -⟩ := hcs.starts
      exact absurd hfuel (by simp)
  | succ fuel ih => exact ⟨ih.value_succ, ih.items_succ, ih.fields_succ⟩

/-! ### Soundness -/

/-- What the reader takes with so much fuel. -/
structure Takes (fuel : Nat) : Prop where
  value : ∀ {cs : List Char} {d : Document} {rest : List Char},
    readValue? fuel cs = some (d, rest) →
      ∃ gap body, IsGap gap ∧ Spells body d ∧ cs = gap ++ (body ++ rest)
  items : ∀ {cs : List Char} {items : List Document} {rest : List Char},
    readItems? fuel cs = some (items, rest) →
      ∃ body, SpellsItems body items ∧ cs = body ++ ']' :: rest
  fields : ∀ {cs : List Char} {fields : List (Option String × Document)} {rest : List Char},
    readFields? fuel cs = some (fields, rest) →
      ∃ body, SpellsFields body fields ∧ cs = body ++ '}' :: rest

/-- A document and the white space behind it. -/
theorem Takes.padded {fuel : Nat} (h : Takes fuel) {cs behind : List Char} {d : Document}
    (hread : readValue? fuel cs = some (d, behind)) :
    ∃ body, SpellsPadded body d ∧ cs = body ++ skipSpace behind := by
  obtain ⟨before, body, hbefore, hbody, rfl⟩ := h.value hread
  obtain ⟨gap, hgap, hbehind⟩ := exists_gap behind
  refine ⟨_, .intro hbefore hbody hgap, ?_⟩
  rw [List.append_assoc, List.append_assoc, ← hbehind]

theorem SpellsItems.gap_append {gap cs : List Char} {items : List Document}
    (h : SpellsItems cs items) (hgap : IsGap gap) : SpellsItems (gap ++ cs) items := by
  cases h with
  | last hd =>
      cases hd with
      | intro hbefore hd hbehind =>
          rw [← List.append_assoc]
          exact .last (.intro (hgap.append hbefore) hd hbehind)
  | cons hd hothers =>
      cases hd with
      | intro hbefore hd hbehind =>
          rw [← List.append_assoc, ← List.append_assoc]
          exact .cons (.intro (hgap.append hbefore) hd hbehind) hothers

theorem SpellsKey.gap_append {gap cs : List Char} {key : Option String} (h : SpellsKey cs key)
    (hgap : IsGap gap) : SpellsKey (gap ++ cs) key := by
  cases h with
  | intro hbefore hs hbehind =>
      rw [← List.append_assoc]
      exact .intro (hgap.append hbefore) hs hbehind

theorem SpellsFields.gap_append {gap cs : List Char} {fields : List (Option String × Document)}
    (h : SpellsFields cs fields) (hgap : IsGap gap) : SpellsFields (gap ++ cs) fields := by
  cases h with
  | last hname hd =>
      rw [← List.append_assoc]
      exact .last (hname.gap_append hgap) hd
  | cons hname hd hothers =>
      rw [← List.append_assoc]
      exact .cons (hname.gap_append hgap) hd hothers

theorem Takes.value_succ {fuel : Nat} (h : Takes fuel) {cs rest : List Char} {d : Document}
    (hread : readValue? (fuel + 1) cs = some (d, rest)) :
    ∃ body, Spells body d ∧ skipSpace cs = body ++ rest := by
  rw [readValue?] at hread
  split at hread
  · cases hread
  · rename_i c tail hcs
    rw [hcs]
    split at hread
    · rename_i hc
      obtain ⟨rfl, htail⟩ := map_afterWord?_eq_some_iff.mp hread
      exact ⟨_, .null, by rw [hc, htail]; rfl⟩
    split at hread
    · rename_i hc
      obtain ⟨rfl, htail⟩ := map_afterWord?_eq_some_iff.mp hread
      exact ⟨_, .yes, by rw [hc, htail]; rfl⟩
    split at hread
    · rename_i hc
      obtain ⟨rfl, htail⟩ := map_afterWord?_eq_some_iff.mp hread
      exact ⟨_, .no, by rw [hc, htail]; rfl⟩
    split at hread
    · rename_i hc
      obtain ⟨s, hstring, rfl⟩ := map_fst_eq_some_iff.mp hread
      obtain ⟨body, hbody, hspelt⟩ := spellsString_of_readString? hstring
      exact ⟨body, .string hspelt, by rw [hc, hbody]⟩
    split at hread
    · rename_i hc
      obtain ⟨gap, hgap, htail⟩ := exists_gap tail
      split at hread
      · rename_i close hclose
        obtain ⟨rfl, rfl⟩ := Prod.mk.inj (Option.some.inj hread)
        exact ⟨_, .emptyArray hgap, by rw [hc, htail, hclose]; simp⟩
      · obtain ⟨items, hitems, rfl⟩ := map_fst_eq_some_iff.mp hread
        rw [readItems?_skipSpace] at hitems
        obtain ⟨body, hbody, rfl⟩ := h.items hitems
        exact ⟨_, .array hbody, by simp [hc]⟩
    split at hread
    · rename_i hc
      obtain ⟨gap, hgap, htail⟩ := exists_gap tail
      split at hread
      · rename_i close hclose
        obtain ⟨rfl, rfl⟩ := Prod.mk.inj (Option.some.inj hread)
        exact ⟨_, .emptyObject hgap, by rw [hc, htail, hclose]; simp⟩
      · obtain ⟨fields, hfields, rfl⟩ := map_fst_eq_some_iff.mp hread
        rw [readFields?_skipSpace] at hfields
        obtain ⟨body, hbody, rfl⟩ := h.fields hfields
        exact ⟨_, .object hbody, by simp [hc]⟩
    · obtain ⟨n, hnumber, rfl⟩ := map_fst_eq_some_iff.mp hread
      obtain ⟨body, hbody, hspelt⟩ := spellsNumber_of_readNumber? hnumber
      exact ⟨body, .number hspelt, hbody⟩

theorem Takes.items_succ {fuel : Nat} (h : Takes fuel) {cs rest : List Char}
    {items : List Document} (hread : readItems? (fuel + 1) cs = some (items, rest)) :
    ∃ body, SpellsItems body items ∧ cs = body ++ ']' :: rest := by
  rw [readItems?] at hread
  obtain ⟨⟨d, behind⟩, hvalue, hread⟩ := Option.bind_eq_some_iff.mp hread
  obtain ⟨body, hbody, hcs⟩ := h.padded hvalue
  dsimp only at hread
  split at hread
  · rename_i tail htail
    obtain ⟨rfl, rfl⟩ := Prod.mk.inj (Option.some.inj hread)
    exact ⟨body, .last hbody, by rw [hcs, htail]⟩
  · rename_i tail htail
    obtain ⟨⟨others, final⟩, hothers, heq⟩ := Option.bind_eq_some_iff.mp hread
    obtain ⟨rfl, rfl⟩ := Prod.mk.inj (Option.some.inj heq)
    obtain ⟨rest, hrest, rfl⟩ := h.items hothers
    exact ⟨_, .cons hbody hrest, by rw [hcs, htail]; simp⟩
  · cases hread

theorem Takes.fields_succ {fuel : Nat} (h : Takes fuel) {cs rest : List Char}
    {fields : List (Option String × Document)}
    (hread : readFields? (fuel + 1) cs = some (fields, rest)) :
    ∃ body, SpellsFields body fields ∧ cs = body ++ '}' :: rest := by
  obtain ⟨gap, hgap, hcs⟩ := exists_gap cs
  rw [readFields?] at hread
  split at hread
  · rename_i tail hquote
    obtain ⟨⟨key, behind⟩, hkey, hread⟩ := Option.bind_eq_some_iff.mp hread
    obtain ⟨name, hname, hspelt⟩ := spellsString_of_readString? hkey
    obtain ⟨space, hspace, hbehind⟩ := exists_gap behind
    have hkeyText := SpellsKey.intro hgap hspelt hspace
    dsimp only at hread
    split at hread
    · rename_i content hcolon
      obtain ⟨⟨d, after⟩, hvalue, hread⟩ := Option.bind_eq_some_iff.mp hread
      obtain ⟨body, hbody, hcontent⟩ := h.padded hvalue
      have hfront : cs = (gap ++ (name ++ space)) ++ ':' :: (body ++ skipSpace after) := by
        rw [hcs, hquote, hname, hbehind, hcolon, hcontent]
        simp
      dsimp only at hread
      split at hread
      · rename_i final hclose
        obtain ⟨rfl, rfl⟩ := Prod.mk.inj (Option.some.inj hread)
        exact ⟨_, .last hkeyText hbody, by rw [hfront, hclose]; simp⟩
      · rename_i final hcomma
        obtain ⟨⟨others, last⟩, hothers, heq⟩ := Option.bind_eq_some_iff.mp hread
        obtain ⟨rfl, rfl⟩ := Prod.mk.inj (Option.some.inj heq)
        obtain ⟨rest, hrest, rfl⟩ := h.fields hothers
        exact ⟨_, .cons hkeyText hbody hrest, by rw [hfront, hcomma]; simp⟩
      · cases hread
    · cases hread
  · cases hread

theorem takes (fuel : Nat) : Takes fuel := by
  induction fuel with
  | zero => exact ⟨fun h => (nomatch h), fun h => (nomatch h), fun h => (nomatch h)⟩
  | succ fuel ih =>
      refine ⟨fun {cs d rest} hread => ?_, ih.items_succ, ih.fields_succ⟩
      obtain ⟨body, hbody, hskip⟩ := ih.value_succ hread
      obtain ⟨gap, hgap, hcs⟩ := exists_gap cs
      exact ⟨gap, body, hgap, hbody, by rw [← hskip, ← hcs]⟩

/-! ## Whole texts -/

/-- A padded document is read from the front of a text that stops it. -/
theorem SpellsPadded.read?_append {cs rest : List Char} {d : Document} (h : SpellsPadded cs d)
    (hrest : Stops rest) :
    ∃ gap, IsGap gap ∧ Document.read? (cs ++ rest) = some (d, gap ++ rest) :=
  (reads _).padded h (by rw [List.length_append]; omega) hrest

/-- A text is a padded document just if it is read as that document and white space. -/
theorem spellsPadded_iff {cs : List Char} {d : Document} :
    SpellsPadded cs d ↔ ∃ gap, read? cs = some (d, gap) ∧ IsGap gap := by
  constructor
  · intro h
    obtain ⟨gap, hgap, hread⟩ := h.read?_append stops_nil
    rw [List.append_nil, List.append_nil] at hread
    exact ⟨gap, hread, hgap⟩
  · intro h
    obtain ⟨gap, hread, hgap⟩ := h
    obtain ⟨body, hbody, hcs⟩ := (takes _).padded hread
    rw [List.isEmpty_iff.mp (isEmpty_skipSpace_iff.mpr hgap), List.append_nil] at hcs
    rwa [hcs]

/-- A text is read as the document that it spells, and as no other. -/
theorem ofText?_eq_some_iff {cs : List Char} {d : Document} :
    ofText? cs = some d ↔ SpellsPadded cs d := by
  rw [spellsPadded_iff, ofText?, Option.bind_eq_some_iff]
  constructor
  · intro h
    obtain ⟨⟨e, gap⟩, hread, h⟩ := h
    dsimp only at h
    split at h
    · rename_i hgap
      obtain rfl : e = d := Option.some.inj h
      exact ⟨gap, hread, isEmpty_skipSpace_iff.mp hgap⟩
    · cases h
  · intro h
    obtain ⟨gap, hread, hgap⟩ := h
    exact ⟨(d, gap), hread, if_pos (isEmpty_skipSpace_iff.mpr hgap)⟩

end Document

end BoundSql.Json
