import BoundSql.Binary64.Shortest

/-!
# Floating-point text

How a floating-point number is written and read. All written forms share the
shortest digits up to a tie; they differ in the choices that `FloatLayout`
records. Reading accepts decimals with an optional exponent and the words for
infinity and NaN, and rounds to the nearest number.
-/

namespace BoundSql

/-- The choices of a written form: the exponents of the first digit that are
written without an exponent part (all of them where a bound is missing), whether
a whole number keeps `.0`, whether a positive exponent has a sign, and which of
two equally near digit strings is taken. -/
structure FloatLayout where
  least : Option Int
  bound : Option Int
  wholePoint : Bool
  exponentPlus : Bool
  tie : TieRule
  deriving DecidableEq, Repr

namespace FloatLayout

/-- Never an exponent and never `.0`: the form used inside texts. -/
def plain : FloatLayout := ⟨none, none, false, false, .up⟩

/-- The form that shows a float as one: `1.0`, `1e16`, `1.5e-7`. -/
def tagged : FloatLayout := ⟨some (-4), some 16, true, false, .up⟩

/-- The form of JSON documents: `1.0`, `1e+16`, `1.5e-7`. -/
def json : FloatLayout := ⟨some (-5), some 16, true, true, .even⟩

/-- Whether a number whose first digit has this exponent is written without an
exponent part. -/
def positional (layout : FloatLayout) (leading : Int) : Bool :=
  layout.least.all (· ≤ leading) && layout.bound.all (leading < ·)

/-- A positive decimal without an exponent part. -/
def positionalText (layout : FloatLayout) (d : DecimalDigits) : List Char :=
  let ds := Text.digits d.coefficient
  if 0 ≤ d.exponent then
    ds ++ List.replicate d.exponent.natAbs '0' ++
      if layout.wholePoint then ['.', '0'] else []
  else
    let places := d.exponent.natAbs
    let padded := List.leftpad (places + 1) '0' ds
    padded.take (padded.length - places) ++ '.' :: padded.drop (padded.length - places)

/-- A positive decimal with an exponent part. -/
def exponentText (layout : FloatLayout) (d : DecimalDigits) : List Char :=
  let leading := d.leading
  let mantissa :=
    match Text.digits d.coefficient with
    | first :: second :: rest => first :: '.' :: second :: rest
    | short => short
  let plus := if layout.exponentPlus && 0 ≤ leading then ['+'] else []
  mantissa ++ 'e' :: plus ++ Text.signedDigits leading

/-- A finite number in this layout. -/
def finiteText (layout : FloatLayout) (negative : Bool) (mantissa : Nat) (exponent : Int) :
    List Char :=
  let body :=
    if mantissa = 0 then layout.positionalText ⟨0, 0⟩
    else
      let d := shortestDigits layout.tie mantissa exponent
      if layout.positional d.leading then layout.positionalText d else layout.exponentText d
  if negative then '-' :: body else body

/-- A number in this layout. -/
def text (layout : FloatLayout) : Binary64 → List Char
  | .nan => ['N', 'a', 'N']
  | .infinite negative => if negative then ['-', 'i', 'n', 'f'] else ['i', 'n', 'f']
  | .finite negative mantissa exponent _ => layout.finiteText negative mantissa exponent

end FloatLayout

/-! ## Reading -/

/-- Why a text is not a floating-point number. -/
inductive FloatFault where
  | empty
  | invalid
  deriving DecidableEq, Repr

/-- The wording of a fault. -/
def FloatFault.message : FloatFault → String
  | .empty => "cannot parse float from empty string"
  | .invalid => "invalid float literal"

/-- A signed decimal as written: coefficient and power of ten. -/
structure WrittenDecimal where
  negative : Bool
  coefficient : Nat
  exponent : Int
  deriving DecidableEq, Repr

/-- A float text after its grammar was checked. -/
inductive FloatReading where
  | nan
  | infinite (negative : Bool)
  | decimal (d : WrittenDecimal)
  deriving DecidableEq, Repr

namespace FloatReading

/-- A sign, if there is one, and the text behind it. -/
def takeSign : List Char → Bool × List Char
  | '-' :: cs => (true, cs)
  | '+' :: cs => (false, cs)
  | cs => (false, cs)

/-- The exponent part: nothing, or `e` with an optional sign and digits. -/
def exponent? : List Char → Option Int
  | [] => some 0
  | c :: cs =>
      if c = 'e' ∨ c = 'E' then
        let (negative, rest) := takeSign cs
        let (ds, tail) := Text.spanDigits rest
        if ds.isEmpty || !tail.isEmpty then none
        else
          let n : Int := Text.natOfDigits ds
          some (if negative then -n else n)
      else none

/-- Digits with at most one point among them, at least one digit, and an
optional exponent part. -/
def decimal? (negative : Bool) (cs : List Char) : Option WrittenDecimal :=
  let (whole, rest) := Text.spanDigits cs
  let (places, tail) :=
    match rest with
    | '.' :: after => Text.spanDigits after
    | _ => ([], rest)
  if whole.isEmpty && places.isEmpty then none
  else
    (exponent? tail).map fun e =>
      ⟨negative, Text.natOfDigits (whole ++ places), e - places.length⟩

/-- Reads the grammar of floats: a sign, then a word in any case or a decimal. -/
def ofText (cs : List Char) : Except FloatFault FloatReading :=
  if cs.isEmpty then .error .empty
  else
    let (negative, body) := takeSign cs
    let word := String.ofList (body.map Char.toLower)
    if word = "nan" then .ok .nan
    else if word = "inf" ∨ word = "infinity" then .ok (.infinite negative)
    else
      match decimal? negative body with
      | some d => .ok (.decimal d)
      | none => .error .invalid

/-- The sixty-four bit number a reading stands for. -/
def toBinary64 : FloatReading → Binary64
  | .nan => .nan
  | .infinite negative => .infinite negative
  | .decimal d => .ofDecimal d.negative d.coefficient d.exponent

/-- The thirty-two bit number a reading stands for, as a sixty-four bit one. -/
def toBinary64Single : FloatReading → Binary64
  | .decimal d => .ofDecimalSingle d.negative d.coefficient d.exponent
  | reading => reading.toBinary64

end FloatReading

namespace Binary64

/-- The number a text spells. -/
def ofText (cs : List Char) : Except FloatFault Binary64 :=
  (FloatReading.ofText cs).map FloatReading.toBinary64

/-- A number as a string in the given layout. -/
def toText (x : Binary64) (layout : FloatLayout) : String :=
  String.ofList (layout.text x)

end Binary64

end BoundSql
