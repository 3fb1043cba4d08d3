import BoundSql.Proofs.Lexical.Occurrence
import BoundSql.Proofs.Text.Value
import BoundSql.Sql.Raw
import Mathlib.Data.List.Chain

/-!
# Unquoted identifiers and markers

An identifier without quotes may hold dollar signs, and one of those with digits behind it is
no marker. The reader of markers looks one character back: behind a letter, a digit or an
underscore a dollar sign belongs to a word. This leaves out two places inside identifiers, that
behind another dollar sign and that behind a character beyond ASCII, and there a marker is found
(`marker_in_identifier`).

There is no third place: `identifiers_and_markers` says that an identifier is free of markers
just if it is `Tame`, and that texts of tame identifiers are rebased and refused as one would
have it. Identifiers are given twice, as the maximal runs of their characters (`MaximalRun`) and
by a reader that knows whether it stands in one (`wordsFrom`); the first is what they mean, and
the second is what the induction along the cut needs.
-/

namespace BoundSql.Lexical

/-! ## Identifiers -/

/-- Whether an identifier can begin with a character: an ASCII letter, an underscore, or any
character beyond ASCII. -/
def startsIdentifier (c : Char) : Bool :=
  c.isAlpha || c == '_' || decide (128 ≤ c.toNat)

/-- Whether an identifier can go on with a character. -/
def continuesIdentifier (c : Char) : Bool :=
  startsIdentifier c || c.isDigit || c == '$'

/-- A glyph of code that an identifier can begin with. -/
def Glyph.begins (g : Glyph) : Bool :=
  g.code && startsIdentifier g.char

/-- A glyph of code that an identifier can go on with. -/
def Glyph.continues (g : Glyph) : Bool :=
  g.code && continuesIdentifier g.char

/-- A run of code spelled like an identifier. -/
structure Spelled (run : List Glyph) : Prop where
  begins : ∃ g ∈ run.head?, g.begins = true
  continues : ∀ g ∈ run, g.continues = true

/-- An identifier in its text: a run spelled like one that cannot be made longer at either
end. -/
structure MaximalRun (front run back : List Glyph) : Prop where
  spelled : Spelled run
  maximal : ∀ before more less behind, front = before ++ more → back = less ++ behind →
    Spelled (more ++ (run ++ less)) → more = [] ∧ less = []

/-- An identifier and the byte at which it starts. -/
structure Word where
  start : Nat
  chars : List Char
  deriving DecidableEq, Repr

/-- The bytes of an identifier. -/
def Word.span (w : Word) : Span :=
  ⟨w.start, w.start + byteSize w.chars⟩

/-- A run behind some glyphs as an identifier. -/
def wordAt (front run : List Glyph) : Word :=
  ⟨byteSize (front.map Glyph.char), run.map Glyph.char⟩

/-- No byte lies in both spans. -/
def Span.Disjoint (a b : Span) : Prop :=
  a.stop ≤ b.start ∨ b.stop ≤ a.start

instance (a b : Span) : Decidable (a.Disjoint b) :=
  inferInstanceAs (Decidable (a.stop ≤ b.start ∨ b.stop ≤ a.start))

/-- Whether a reader stands in an identifier behind a glyph, if it does before it or not. -/
def staysInside (inside : Bool) (g : Glyph) : Bool :=
  g.begins || (inside && g.continues)

/-- The identifiers of glyphs that start at byte `pos`, inside an identifier or not. -/
def wordsFrom (inside : Bool) (pos : Nat) : List Glyph → List Word
  | [] => []
  | g :: gs =>
      let rest := wordsFrom (staysInside inside g) (pos + g.size) gs
      if !inside && g.begins then
        ⟨pos, (g :: gs.takeWhile Glyph.continues).map Glyph.char⟩ :: rest
      else rest

/-- The identifiers of a text, in their order. -/
def identifiers (sql : String) : List Word :=
  wordsFrom false 0 (glyphs sql.toList)

/-- Text of an identifier in which no dollar sign in front of an index stands directly behind
another dollar sign or a character beyond ASCII. -/
def Tame (cs : List Char) : Prop :=
  ∀ before c behind, cs = before ++ c :: '$' :: behind → Numeral (leadingDigits behind) →
    isWordChar c = true

/-- An identifier is tame if each of its dollar signs stands behind a letter, a digit or an
underscore. -/
theorem tame_of_isChain {cs : List Char}
    (h : cs.IsChain fun c d => d = '$' → isWordChar c = true) : Tame cs := by
  intro before c behind hcs _
  rw [hcs] at h
  exact (List.isChain_append_cons_cons.mp h).2.1 rfl

/-! ## Runs and the reader -/

theorem Glyph.continues_of_begins {g : Glyph} (h : g.begins = true) : g.continues = true := by
  rw [Glyph.begins, Bool.and_eq_true] at h
  rw [Glyph.continues, continuesIdentifier, h.1, h.2]
  rfl

theorem le_toNat_of_isAlpha {c : Char} (h : c.isAlpha = true) : 65 ≤ c.toNat := by
  rcases Bool.or_eq_true_iff.mp h with hupper | hlower
  · have hbounds : 'A'.val ≤ c.val ∧ c.val ≤ 'Z'.val := of_decide_eq_true hupper
    exact UInt32.le_iff_toNat_le.mp hbounds.1
  · have hlow : 'a'.val ≤ c.val := of_decide_eq_true (Bool.and_eq_true_iff.mp hlower).1
    have hbound : 97 ≤ c.toNat := UInt32.le_iff_toNat_le.mp hlow
    omega

theorem startsIdentifier_of_isDigit {c : Char} (h : c.isDigit = true) :
    startsIdentifier c = false := by
  obtain ⟨hlow, hhigh⟩ := Text.toNat_of_isDigit h
  have halpha : c.isAlpha = false := by
    rw [← Bool.not_eq_true]
    intro hletter
    have hbound := le_toNat_of_isAlpha hletter
    omega
  have hunderscore : c ≠ '_' := by
    rintro rfl
    exact absurd hhigh (by decide)
  simp only [startsIdentifier, halpha, Bool.false_or, Bool.or_eq_false_iff, beq_eq_false_iff_ne,
    decide_eq_false_iff_not]
  exact ⟨hunderscore, by omega⟩

/-- Neither the dollar sign nor the digits of a marker begin an identifier. -/
theorem begins_of_mem_dollarGlyphs {ds : List Char} (hdigits : ∀ c ∈ ds, c.isDigit = true)
    {g : Glyph} (h : g ∈ dollarGlyphs ds) : g.begins = false := by
  rcases List.mem_cons.mp h with rfl | h
  · rfl
  · obtain ⟨c, hc, rfl⟩ := List.mem_map.mp h
    rw [Glyph.begins, startsIdentifier_of_isDigit (hdigits c hc)]
    rfl

theorem Spelled.ne_nil {run : List Glyph} (h : Spelled run) : run ≠ [] := by
  obtain ⟨g, hg, -⟩ := h.begins
  intro hnil
  subst hnil
  cases hg

theorem Spelled.append {run gs : List Glyph} (h : Spelled run)
    (hgs : ∀ g ∈ gs, g.continues = true) : Spelled (run ++ gs) := by
  obtain ⟨g, hg, hbegins⟩ := h.begins
  refine ⟨⟨g, ?_, hbegins⟩, fun k hk => (List.mem_append.mp hk).elim (h.continues k) (hgs k)⟩
  cases run with
  | nil => cases hg
  | cons k run => exact hg

/-- A reader is inside an identifier that it has read some of. -/
theorem foldl_staysInside_of_continues {run : List Glyph} (h : ∀ g ∈ run, g.continues = true) :
    run.foldl staysInside true = true := by
  induction run with
  | nil => rfl
  | cons g run ih =>
      have hg : staysInside true g = true := by simp [staysInside, h g (by simp)]
      rw [List.foldl_cons, hg]
      exact ih fun k hk => h k (by simp [hk])

theorem Spelled.foldl_staysInside {run : List Glyph} (h : Spelled run) (inside : Bool) :
    run.foldl staysInside inside = true := by
  obtain ⟨g, hg, hbegins⟩ := h.begins
  cases run with
  | nil => cases hg
  | cons k run =>
      obtain rfl : k = g := Option.some.inj hg
      rw [List.foldl_cons, staysInside, hbegins, Bool.true_or]
      exact foldl_staysInside_of_continues fun k hk => h.continues k (by simp [hk])

/-- A reader is inside an identifier only if it was from the start or has come by the beginning
of one, and the first such beginning is meant. -/
theorem exists_of_foldl_staysInside {inside : Bool} {gs : List Glyph}
    (h : gs.foldl staysInside inside = true) :
    (inside = true ∧ ∀ g ∈ gs, g.continues = true) ∨
      ∃ before run, gs = before ++ run ∧ before.foldl staysInside inside = false ∧
        Spelled run := by
  induction gs generalizing inside with
  | nil => exact Or.inl ⟨h, by simp⟩
  | cons g gs ih =>
      rcases ih h with ⟨hstays, hgs⟩ | ⟨before, run, rfl, hout, hspelled⟩
      · by_cases hinside : inside = true
        · have hg : g.continues = true := by
            simp only [staysInside, hinside, Bool.true_and, Bool.or_eq_true] at hstays
            exact hstays.elim Glyph.continues_of_begins id
          refine Or.inl ⟨hinside, fun k hk => ?_⟩
          rcases List.mem_cons.mp hk with rfl | hk
          · exact hg
          · exact hgs k hk
        · rw [Bool.not_eq_true] at hinside
          have hg : g.begins = true := by simpa [staysInside, hinside] using hstays
          refine Or.inr ⟨[], g :: gs, rfl, hinside, ⟨g, rfl, hg⟩, fun k hk => ?_⟩
          rcases List.mem_cons.mp hk with rfl | hk
          · exact Glyph.continues_of_begins hg
          · exact hgs k hk
      · exact Or.inr ⟨g :: before, run, rfl, hout, hspelled⟩

/-- A run is maximal if the reader comes to it from outside and cannot go on behind it. -/
theorem maximalRun_iff {front run back : List Glyph} :
    MaximalRun front run back ↔ Spelled run ∧ front.foldl staysInside false = false ∧
      ∀ g ∈ back.head?, g.continues = false := by
  constructor
  · intro h
    refine ⟨h.spelled, ?_, fun g hg => ?_⟩
    · rw [← Bool.not_eq_true]
      intro hinside
      rcases exists_of_foldl_staysInside hinside with ⟨hfalse, -⟩ | ⟨before, more, rfl, -, hmore⟩
      · cases hfalse
      · have hlonger : Spelled (more ++ (run ++ [])) := by
          rw [List.append_nil]
          exact hmore.append h.spelled.continues
        exact hmore.ne_nil (h.maximal before more [] back rfl rfl hlonger).1
    · rw [← Bool.not_eq_true]
      intro hcontinues
      obtain ⟨behind, rfl⟩ := List.head?_eq_some_iff.mp hg
      have hlonger : Spelled ([] ++ (run ++ [g])) :=
        h.spelled.append fun k hk => by rw [List.mem_singleton.mp hk]; exact hcontinues
      exact List.cons_ne_nil g [] (h.maximal front [] [g] behind (by simp) rfl hlonger).2
  · intro hends
    obtain ⟨hspelled, hout, hstops⟩ := hends
    refine ⟨hspelled, fun before more less behind hfront hback hlonger => ⟨?_, ?_⟩⟩
    · subst hfront
      cases more with
      | nil => rfl
      | cons g more =>
          have hmore : Spelled (g :: more) :=
            ⟨hlonger.begins, fun k hk => hlonger.continues k (List.mem_append_left _ hk)⟩
          rw [List.foldl_append, hmore.foldl_staysInside] at hout
          cases hout
    · subst hback
      cases less with
      | nil => rfl
      | cons g less =>
          have hg := hlonger.continues g (by simp)
          rw [hstops g rfl] at hg
          cases hg

theorem mem_wordsFrom_iff {inside : Bool} {pos : Nat} {gs : List Glyph} {w : Word} :
    w ∈ wordsFrom inside pos gs ↔ ∃ front g back, gs = front ++ g :: back ∧
      front.foldl staysInside inside = false ∧ g.begins = true ∧
      w = ⟨pos + byteSize (front.map Glyph.char),
        (g :: back.takeWhile Glyph.continues).map Glyph.char⟩ := by
  induction gs generalizing inside pos with
  | nil => simp [wordsFrom]
  | cons g gs ih =>
      have hpos (front : List Glyph) : pos + byteSize ((g :: front).map Glyph.char) =
          pos + g.size + byteSize (front.map Glyph.char) := by
        simp [byteSize, Glyph.size, Nat.add_assoc]
      have hrest : w ∈ wordsFrom (staysInside inside g) (pos + g.size) gs ↔
          ∃ front k back, g :: gs = (g :: front) ++ k :: back ∧
            (g :: front).foldl staysInside inside = false ∧ k.begins = true ∧
            w = ⟨pos + byteSize ((g :: front).map Glyph.char),
              (k :: back.takeWhile Glyph.continues).map Glyph.char⟩ := by
        rw [ih]
        simp only [hpos, List.cons_append, List.cons.injEq, true_and, List.foldl_cons]
      have hfirst : w ∈ wordsFrom inside pos (g :: gs) ↔
          (inside = false ∧ g.begins = true ∧
            w = ⟨pos, (g :: gs.takeWhile Glyph.continues).map Glyph.char⟩) ∨
          w ∈ wordsFrom (staysInside inside g) (pos + g.size) gs := by
        rw [wordsFrom]
        by_cases hbegins : inside = false ∧ g.begins = true
        · simp [hbegins.1, hbegins.2]
        · rw [if_neg (by simpa using hbegins)]
          exact ⟨Or.inr, fun h => h.elim (fun h => absurd ⟨h.1, h.2.1⟩ hbegins) id⟩
      rw [hfirst, hrest]
      constructor
      · intro h
        rcases h with ⟨hinside, hbegins, hw⟩ | ⟨front, k, back, h⟩
        · exact ⟨[], g, gs, rfl, hinside, hbegins, hw⟩
        · exact ⟨g :: front, k, back, h⟩
      · intro hplace
        obtain ⟨front, k, back, heq, hout, hbegins, hw⟩ := hplace
        cases front with
        | nil =>
            obtain ⟨rfl, rfl⟩ := List.cons.inj heq
            exact Or.inl ⟨hout, hbegins, hw⟩
        | cons f front =>
            obtain rfl := (List.cons.inj heq).1
            exact Or.inr ⟨front, k, back, heq, hout, hbegins, hw⟩

theorem continues_of_mem_takeWhile {g : Glyph} {gs : List Glyph}
    (h : g ∈ gs.takeWhile Glyph.continues) : g.continues = true :=
  List.all_eq_true.mp List.all_takeWhile g h

theorem stops_dropWhile (gs : List Glyph) :
    ∀ g ∈ (gs.dropWhile Glyph.continues).head?, g.continues = false := by
  intro g hg
  have hhead := List.head?_dropWhile_not Glyph.continues gs
  rw [Option.mem_def.mp hg] at hhead
  simpa using hhead

/-- The reader finds the maximal runs. -/
theorem mem_identifiers_iff {sql : String} {w : Word} :
    w ∈ identifiers sql ↔ ∃ front run back, glyphs sql.toList = front ++ (run ++ back) ∧
      MaximalRun front run back ∧ w = wordAt front run := by
  rw [identifiers, mem_wordsFrom_iff]
  constructor
  · intro hplace
    obtain ⟨front, g, back, heq, hout, hbegins, hw⟩ := hplace
    refine ⟨front, g :: back.takeWhile Glyph.continues, back.dropWhile Glyph.continues, ?_, ?_, ?_⟩
    · rw [List.cons_append, List.takeWhile_append_dropWhile, heq]
    · refine maximalRun_iff.mpr ⟨⟨⟨g, rfl, hbegins⟩, fun k hk => ?_⟩, hout, fun k hk => ?_⟩
      · rcases List.mem_cons.mp hk with rfl | hk
        · exact Glyph.continues_of_begins hbegins
        · exact continues_of_mem_takeWhile hk
      · exact stops_dropWhile back k hk
    · rw [hw, Nat.zero_add]
      rfl
  · intro hplace
    obtain ⟨front, run, back, heq, hmaximal, hw⟩ := hplace
    obtain ⟨hspelled, hout, hstops⟩ := maximalRun_iff.mp hmaximal
    obtain ⟨g, hg, hbegins⟩ := hspelled.begins
    obtain ⟨others, rfl⟩ := List.head?_eq_some_iff.mp hg
    refine ⟨front, g, others ++ back, heq, hout, hbegins, ?_⟩
    have htake : (others ++ back).takeWhile Glyph.continues = others := by
      rw [List.takeWhile_append_of_pos fun k hk => hspelled.continues k (by simp [hk])]
      cases back with
      | nil => simp
      | cons k back => simp [hstops k rfl]
    rw [htake, Nat.zero_add, hw]
    rfl

/-! ## Markers in identifiers -/

/-- Glyphs of code are their characters. -/
theorem eq_map_of_code {gs : List Glyph} (h : ∀ g ∈ gs, g.code = true) :
    gs = (gs.map Glyph.char).map fun c => ⟨c, true⟩ := by
  rw [List.map_map]
  conv_lhs => rw [← List.map_id gs]
  refine List.map_congr_left fun g hg => ?_
  have hcode := h g hg
  cases g
  simp_all

theorem Glyph.code_of_continues {g : Glyph} (h : g.continues = true) : g.code = true := by
  rw [Glyph.continues, Bool.and_eq_true] at h
  exact h.1

/-- An identifier goes on with a digit of code. -/
theorem not_startsInDigit_of_stops {gs : List Glyph}
    (h : ∀ g ∈ gs.head?, g.continues = false) : ¬ StartsInDigit gs := by
  intro hstarts
  obtain ⟨g, hg, hcode, hdigit⟩ := hstarts
  have hcontinues : g.continues = true := by
    simp [Glyph.continues, continuesIdentifier, hcode, hdigit]
  rw [h g hg] at hcontinues
  cases hcontinues

/-- The digits of a marker whose dollar sign stands in an identifier stand there, too. -/
theorem Surrounds.exists_tail {front back tail rest : List Glyph} {ds : List Char}
    (h : Surrounds false front ds back) (hstops : ∀ g ∈ rest.head?, g.continues = false)
    (htail : tail ++ rest = (ds.map fun c => ⟨c, true⟩) ++ back) :
    ∃ others, tail = (ds.map fun c => ⟨c, true⟩) ++ others ∧ back = others ++ rest := by
  rcases List.append_eq_append_iff.mp htail with ⟨others, hds, hrest⟩ | ⟨others, htail, hback⟩
  · cases others with
    | nil => exact ⟨[], by simpa using hds.symm, by simpa using hrest.symm⟩
    | cons g others =>
        have hmem : g ∈ ds.map fun c => (⟨c, true⟩ : Glyph) := by simp [hds]
        obtain ⟨c, hc, rfl⟩ := List.mem_map.mp hmem
        refine absurd ⟨⟨c, true⟩, ?_, rfl, h.numeral.digits c hc⟩
          (not_startsInDigit_of_stops hstops)
        rw [hrest]
        rfl
  · exact ⟨others, htail, hback⟩

/-- An identifier is not tame if the dollar sign of a marker stands in it. -/
theorem Surrounds.not_tame {front before part tail back rest : List Glyph} {ds : List Char}
    (h : Surrounds false front ds back) (hfront : front = before ++ part) (hpart : part ≠ [])
    (hcontinues : ∀ g ∈ tail, g.continues = true)
    (hstops : ∀ g ∈ rest.head?, g.continues = false)
    (htail : tail ++ rest = (ds.map fun c => ⟨c, true⟩) ++ back) :
    ¬ Tame ((part ++ ⟨'$', true⟩ :: tail).map Glyph.char) := by
  intro htame
  obtain ⟨others, rfl, rfl⟩ := h.exists_tail hstops htail
  -- what follows the digits in the identifier is no digit, or the marker would have taken it
  have hothers : leadingDigits (others.map Glyph.char) = [] := by
    rw [leadingDigits_eq_nil_iff]
    intro c hc
    rw [List.head?_map] at hc
    obtain ⟨g, hg, rfl⟩ := Option.map_eq_some_iff.mp hc
    have hcode := Glyph.code_of_continues
      (hcontinues g (List.mem_append_right _ (List.mem_of_head? hg)))
    rw [← Bool.not_eq_true]
    intro hdigit
    obtain ⟨others, rfl⟩ := List.head?_eq_some_iff.mp hg
    exact h.stops ⟨g, rfl, hcode, hdigit⟩
  obtain ⟨init, g, hlast⟩ := (List.eq_nil_or_concat part).resolve_left hpart
  rw [List.concat_eq_append] at hlast
  subst hlast
  have hdigits : leadingDigits (ds ++ others.map Glyph.char) = ds :=
    leadingDigits_append h.numeral.digits hothers
  have hword := htame (init.map Glyph.char) g.char (ds ++ others.map Glyph.char)
    (by simp [Function.comp_def]) (by rw [hdigits]; exact h.numeral)
  have hnoWord := h.noWord
  rw [hfront, wordAfter, List.getLast?_append, List.getLast?_append] at hnoWord
  simp [hword] at hnoWord

/-- A marker is found in an identifier in which a dollar sign and an index stand behind a
character of no word. -/
theorem surrounds_of_not_isWordChar {back : List Glyph} {c : Char} {behind : List Char}
    (hc : isWordChar c = false) (hnumeral : Numeral (leadingDigits behind))
    (hstops : ∀ g ∈ back.head?, g.continues = false) (front : List Glyph) :
    ∃ others, behind.map (fun c => (⟨c, true⟩ : Glyph)) =
        ((leadingDigits behind).map fun c => ⟨c, true⟩) ++ others ∧
      Surrounds false (front ++ [⟨c, true⟩]) (leadingDigits behind) (others ++ back) := by
  obtain ⟨others, hbehind, hothers⟩ := exists_leadingDigits_append behind
  refine ⟨others.map fun c => ⟨c, true⟩, ?_, ?_, hnumeral, ?_⟩
  · conv_lhs => rw [hbehind]
    rw [List.map_append]
  · simp [wordAfter, hc]
  · cases others with
    | nil => exact not_startsInDigit_of_stops hstops
    | cons d others =>
        intro hstarts
        obtain ⟨g, hg, _, hdigit⟩ := hstarts
        obtain rfl : ⟨d, true⟩ = g := Option.some.inj hg
        rw [leadingDigits_eq_nil_iff] at hothers
        rw [hothers d rfl] at hdigit
        cases hdigit

/-- An identifier that is not tame has a byte in common with a marker. -/
theorem MaximalRun.tame {sql : String} {front run back : List Glyph}
    (h : MaximalRun front run back) (heq : glyphs sql.toList = front ++ (run ++ back))
    (hdisjoint : ∀ m ∈ numberedMarkers sql, m.span.Disjoint (wordAt front run).span) :
    Tame (run.map Glyph.char) := by
  obtain ⟨hspelled, -, hstops⟩ := maximalRun_iff.mp h
  intro before c behind hrun hnumeral
  rw [← Bool.not_eq_false]
  intro hc
  obtain ⟨others, hbehind, hsurrounds⟩ := surrounds_of_not_isWordChar hc hnumeral hstops
    (front ++ before.map fun c => ⟨c, true⟩)
  have hcode := eq_map_of_code fun g hg => Glyph.code_of_continues (hspelled.continues g hg)
  rw [hrun] at hcode
  have hglyphs : glyphs sql.toList = (front ++ (before.map fun c => ⟨c, true⟩) ++ [⟨c, true⟩]) ++
      (dollarGlyphs (leadingDigits behind) ++ (others ++ back)) := by
    rw [heq, hcode]
    simp [hbehind, dollarGlyphs]
  -- the dollar sign lies in both
  have hapart := hdisjoint _ ((mem_numberedMarkers_iff sql _).mpr
    ⟨_, _, _, hglyphs, hsurrounds, rfl⟩)
  have hdollar : '$'.utf8Size = 1 := rfl
  simp only [Span.Disjoint, markerAt, wordAt, Word.span, hrun, List.map_append, List.map_map,
    Function.comp_def, List.map_id', byteSize_append, byteSize, List.map_cons, List.map_nil,
    hdollar] at hapart
  omega

/-- A tame identifier has no byte in common with a marker. -/
theorem MaximalRun.disjoint {sql : String} {front run back : List Glyph}
    (h : MaximalRun front run back) (heq : glyphs sql.toList = front ++ (run ++ back))
    (htame : Tame (run.map Glyph.char)) {m : Marker} (hm : m ∈ numberedMarkers sql) :
    m.span.Disjoint (wordAt front run).span := by
  obtain ⟨hspelled, -, hstops⟩ := maximalRun_iff.mp h
  obtain ⟨g, hg, hbegins⟩ := hspelled.begins
  obtain ⟨others, rfl⟩ := List.head?_eq_some_iff.mp hg
  obtain ⟨before, ds, behind, hmarker, hsurrounds, rfl⟩ := (mem_numberedMarkers_iff sql m).mp hm
  rw [heq] at hmarker
  rcases List.append_eq_append_iff.mp hmarker with ⟨part, rfl, hrest⟩ | ⟨part, rfl, hrest⟩
  · -- the marker starts behind the start of the identifier
    rcases List.append_eq_append_iff.mp hrest with ⟨more, rfl, -⟩ | ⟨more, hrun, hmore⟩
    · right
      simp only [markerAt, wordAt, Word.span, List.map_append, byteSize_append]
      omega
    · cases more with
      | nil =>
          right
          rw [List.append_nil] at hrun
          simp only [markerAt, wordAt, Word.span, List.map_append, byteSize_append, hrun]
          omega
      | cons k tail =>
          obtain ⟨rfl, htail⟩ := List.cons.inj hmore
          have hpart : part ≠ [] := by
            intro hnil
            subst hnil
            obtain ⟨rfl, -⟩ := List.cons.inj hrun
            exact absurd hbegins (by decide)
          rw [hrun] at htame
          refine absurd htame (hsurrounds.not_tame rfl hpart (fun k hk => ?_) hstops htail.symm)
          exact hspelled.continues k (by rw [hrun]; simp [hk])
  · -- the marker starts before the identifier
    rcases List.append_eq_append_iff.mp hrest with ⟨more, rfl, -⟩ | ⟨more, hdollar, hmore⟩
    · left
      simp only [markerAt, wordAt, List.map_append, map_char_dollarGlyphs, byteSize_append,
        Word.span]
      omega
    · cases more with
      | nil =>
          left
          rw [List.append_nil] at hdollar
          simp only [markerAt, wordAt, List.map_append, ← hdollar, map_char_dollarGlyphs,
            byteSize_append, Word.span]
          omega
      | cons k more =>
          -- no character of a marker begins an identifier
          obtain ⟨rfl, -⟩ := List.cons.inj hmore
          have hno := begins_of_mem_dollarGlyphs hsurrounds.numeral.digits (g := g)
            (by rw [hdollar]; simp)
          rw [hno] at hbegins
          cases hbegins

/-! ## Rebased identifiers -/

/-- No marker of some glyphs stands in an identifier, if they themselves start in one and
behind a word or not. -/
def MarkersOutside (inside word : Bool) (gs : List Glyph) : Prop :=
  ∀ front ds back, gs = front ++ (dollarGlyphs ds ++ back) → Surrounds word front ds back →
    front.foldl staysInside inside = false

theorem MarkersOutside.tail {inside word : Bool} {g : Glyph} {gs : List Glyph}
    (h : MarkersOutside inside word (g :: gs)) :
    MarkersOutside (staysInside inside g) (isWordChar g.char) gs := by
  intro front ds back heq hsurrounds
  refine h (g :: front) ds back ?_ (surrounds_cons_iff.mpr hsurrounds)
  rw [heq]
  rfl

/-- A marker leads into no identifier. -/
theorem foldl_staysInside_dollarGlyphs {ds : List Char} (hdigits : ∀ c ∈ ds, c.isDigit = true) :
    (dollarGlyphs ds).foldl staysInside false = false := by
  rw [← Bool.not_eq_true]
  intro hinside
  rcases exists_of_foldl_staysInside hinside with ⟨hfalse, -⟩ | ⟨before, run, hglyphs, -, hrun⟩
  · cases hfalse
  · obtain ⟨g, hg, hbegins⟩ := hrun.begins
    have hmem : g ∈ dollarGlyphs ds := by
      rw [hglyphs]
      exact List.mem_append_right _ (List.mem_of_head? hg)
    rw [begins_of_mem_dollarGlyphs hdigits hmem] at hbegins
    cases hbegins

theorem MarkersOutside.behind {ds : List Char} (hnumeral : Numeral ds) {gs : List Glyph}
    (h : MarkersOutside false false (dollarGlyphs ds ++ gs)) : MarkersOutside false true gs := by
  intro front es back heq hsurrounds
  have hfront := h (dollarGlyphs ds ++ front) es back (by rw [heq, List.append_assoc])
    ((surrounds_behind_iff hnumeral false).mpr hsurrounds)
  rwa [List.foldl_append, foldl_staysInside_dollarGlyphs hnumeral.digits] at hfront

/-- Glyphs none of which begins an identifier are passed. -/
theorem wordsFrom_append {gs : List Glyph} (h : ∀ g ∈ gs, g.begins = false) (pos : Nat)
    (rest : List Glyph) :
    wordsFrom false pos (gs ++ rest) =
      wordsFrom false (pos + byteSize (gs.map Glyph.char)) rest := by
  induction gs generalizing pos with
  | nil => rfl
  | cons g gs ih =>
      have hg : g.begins = false := h g (by simp)
      have hstays : staysInside false g = false := by simp [staysInside, hg]
      rw [List.cons_append, wordsFrom, hstays, ih fun k hk => h k (by simp [hk])]
      simp [hg, byteSize, Glyph.size, Nat.add_assoc]

section Shift

variable {r : Region} {word : Bool} {cs : List Char} {ls : List Lexeme}

/-- An identifier that is being read goes on the same in the shifted text. -/
theorem Cut.takeWhile_shift (h : Cut r word cs ls)
    (hout : MarkersOutside true word (glyphsFrom r cs)) (offset : Nat) :
    ((ls.map (Lexeme.shift offset)).flatMap Lexeme.glyphs).takeWhile Glyph.continues =
      (glyphsFrom r cs).takeWhile Glyph.continues := by
  induction h with
  | nil r word => rfl
  | @marker ds cs ls hne hdigits hbound hstop htail ih =>
      -- a marker would stand in the identifier
      have hinside := hout [] ds (glyphs cs) (glyphsFrom_dollar hdigits cs)
        (surrounds_nil ⟨hne, hdigits, hbound⟩ hstop)
      cases hinside
  | @glyph r word c cs ls hno htail ih =>
      rw [glyphsFrom_cons] at hout ⊢
      show (⟨c, (r.step c cs.head?).2⟩ ::
        (ls.map (Lexeme.shift offset)).flatMap Lexeme.glyphs).takeWhile Glyph.continues = _
      rw [List.takeWhile_cons, List.takeWhile_cons]
      split
      · rename_i hcontinues
        have hrest := hout.tail
        rw [staysInside, hcontinues, Bool.true_and, Bool.or_true] at hrest
        rw [ih hrest]
      · rfl

/-- The shifted text has the identifiers of the text, if no marker stands in one. -/
theorem Cut.map_chars_wordsFrom (h : Cut r word cs ls) {inside : Bool}
    (hout : MarkersOutside inside word (glyphsFrom r cs)) (offset pos pos' : Nat) :
    (wordsFrom inside pos ((ls.map (Lexeme.shift offset)).flatMap Lexeme.glyphs)).map Word.chars =
      (wordsFrom inside pos' (glyphsFrom r cs)).map Word.chars := by
  induction h generalizing inside pos pos' with
  | nil r word => rfl
  | @marker ds cs ls hne hdigits hbound hstop htail ih =>
      have hnumeral : Numeral ds := ⟨hne, hdigits, hbound⟩
      rw [glyphsFrom_dollar hdigits] at hout ⊢
      obtain rfl : inside = false :=
        hout [] ds (glyphs cs) rfl (surrounds_nil hnumeral hstop)
      show (wordsFrom false pos
        (dollarGlyphs (Text.digits (wrapIndex (Text.natOfDigits ds + offset))) ++
          (ls.map (Lexeme.shift offset)).flatMap Lexeme.glyphs)).map Word.chars = _
      rw [wordsFrom_append fun g hg => begins_of_mem_dollarGlyphs (isDigit_digits _) hg,
        wordsFrom_append fun g hg => begins_of_mem_dollarGlyphs hdigits hg]
      exact ih (hout.behind hnumeral) _ _
  | @glyph r word c cs ls hno htail ih =>
      rw [glyphsFrom_cons] at hout ⊢
      show (wordsFrom inside pos (⟨c, (r.step c cs.head?).2⟩ ::
        (ls.map (Lexeme.shift offset)).flatMap Lexeme.glyphs)).map Word.chars = _
      rw [wordsFrom, wordsFrom]
      split
      · rename_i hfirst
        rw [Bool.and_eq_true] at hfirst
        have hrest := hout.tail
        rw [staysInside, hfirst.2, Bool.true_or] at hrest
        have hothers := ih hout.tail (pos + Glyph.size ⟨c, (r.step c cs.head?).2⟩)
          (pos' + Glyph.size ⟨c, (r.step c cs.head?).2⟩)
        simp only [List.map_cons, htail.takeWhile_shift hrest, hothers]
      · exact ih hout.tail _ _

end Shift

/-- In a text of tame identifiers no marker stands in one. -/
theorem markersOutside_of_tame {sql : String} (htame : ∀ w ∈ identifiers sql, Tame w.chars) :
    MarkersOutside false false (glyphs sql.toList) := by
  intro front ds back heq hsurrounds
  rw [← Bool.not_eq_true]
  intro hinside
  rcases exists_of_foldl_staysInside hinside with ⟨hfalse, -⟩ | ⟨before, part, rfl, hout, hpart⟩
  · cases hfalse
  · -- the identifier that the reader is in goes on over the dollar sign
    let tail := ((ds.map fun c => (⟨c, true⟩ : Glyph)) ++ back).takeWhile Glyph.continues
    let rest := ((ds.map fun c => (⟨c, true⟩ : Glyph)) ++ back).dropWhile Glyph.continues
    have htail : tail ++ rest = (ds.map fun c => ⟨c, true⟩) ++ back :=
      List.takeWhile_append_dropWhile
    have hcontinues : ∀ g ∈ (⟨'$', true⟩ : Glyph) :: tail, g.continues = true := by
      intro g hg
      rcases List.mem_cons.mp hg with rfl | hg
      · rfl
      · exact continues_of_mem_takeWhile hg
    have hmaximal : MaximalRun before (part ++ ⟨'$', true⟩ :: tail) rest :=
      maximalRun_iff.mpr ⟨hpart.append hcontinues, hout, stops_dropWhile _⟩
    have hglyphs : glyphs sql.toList = before ++ ((part ++ ⟨'$', true⟩ :: tail) ++ rest) := by
      rw [heq, dollarGlyphs, List.cons_append, ← htail]
      simp only [List.append_assoc, List.cons_append]
    refine hsurrounds.not_tame rfl hpart.ne_nil (fun g hg => hcontinues g (by simp [hg]))
      (stops_dropWhile _) htail ?_
    exact htame _ (mem_identifiers_iff.mpr ⟨_, _, _, hglyphs, hmaximal, rfl⟩)

/-- Rebasing changes no identifier in a text of tame identifiers. -/
theorem map_chars_identifiers_rebase {sql : String}
    (htame : ∀ w ∈ identifiers sql, Tame w.chars) (offset : Nat) :
    (identifiers (rebase sql offset)).map Word.chars = (identifiers sql).map Word.chars := by
  by_cases hoffset : offset = 0
  · rw [hoffset, rebase_zero]
  · rw [identifiers, glyphs_rebase hoffset]
    exact (cut_lexemes sql.toList).map_chars_wordsFrom (markersOutside_of_tame htame) offset 0 0

/-! ## Main statement -/

/-- Raw SQL is refused for a marker just if it has one. -/
theorem ofParts_eq_numberedMarker_iff (sql : String) (binds : List Bind) :
    RawSql.ofParts sql binds = .error (.invalidPredicate (.numberedMarker sql)) ↔
      numberedMarkers sql ≠ [] := by
  unfold RawSql.ofParts
  by_cases hmarkers : numberedMarkers sql = []
  · by_cases hparity : countPlaceholders sql = binds.length <;> simp [hmarkers, hparity]
  · simp [hmarkers]

/-- The identifiers of a text are its maximal runs of code that begin with a letter, an
underscore or a character beyond ASCII and go on with these, digits and dollar signs. No marker
of the text has a byte in common with an identifier just if that is tame. If all are, rebasing
changes no identifier, and raw SQL is refused for a marker just if one stands outside of all
identifiers. -/
theorem identifiers_and_markers (sql : String) :
    (∀ w, w ∈ identifiers sql ↔ ∃ front run back, glyphs sql.toList = front ++ (run ++ back) ∧
        MaximalRun front run back ∧ w = wordAt front run) ∧
      (∀ w ∈ identifiers sql,
        (∀ m ∈ numberedMarkers sql, m.span.Disjoint w.span) ↔ Tame w.chars) ∧
      ((∀ w ∈ identifiers sql, Tame w.chars) →
        (∀ offset, (identifiers (rebase sql offset)).map Word.chars =
          (identifiers sql).map Word.chars) ∧
        ∀ binds, RawSql.ofParts sql binds = .error (.invalidPredicate (.numberedMarker sql)) ↔
          ∃ m ∈ numberedMarkers sql, ∀ w ∈ identifiers sql, m.span.Disjoint w.span) := by
  have hexact : ∀ w ∈ identifiers sql,
      (∀ m ∈ numberedMarkers sql, m.span.Disjoint w.span) ↔ Tame w.chars := by
    intro w hw
    obtain ⟨front, run, back, heq, hmaximal, rfl⟩ := mem_identifiers_iff.mp hw
    exact ⟨fun h => hmaximal.tame heq h, fun h m hm => hmaximal.disjoint heq h hm⟩
  refine ⟨fun w => mem_identifiers_iff, hexact, fun htame => ⟨fun offset => ?_, fun binds => ?_⟩⟩
  · exact map_chars_identifiers_rebase htame offset
  · rw [ofParts_eq_numberedMarker_iff]
    constructor
    · intro hmarkers
      obtain ⟨m, hm⟩ := List.exists_mem_of_ne_nil _ hmarkers
      exact ⟨m, hm, fun w hw => (hexact w hw).mpr (htame w hw) m hm⟩
    · intro hmarker
      obtain ⟨m, hm, _⟩ := hmarker
      exact List.ne_nil_of_mem hm

theorem identifiers_and_markers_joined :
    let sql := "SELECT été, a$1_$2$ FROM \"b$$3\" WHERE $4x = $5"
    (∀ w ∈ identifiers sql, Tame w.chars) ∧
      (identifiers (rebase sql 7)).map Word.chars =
        ["SELECT", "été", "a$1_$2$", "FROM", "WHERE", "x"].map String.toList ∧
      RawSql.ofParts sql [] = .error (.invalidPredicate (.numberedMarker sql)) := by
  intro sql
  have hchain : ∀ w ∈ identifiers sql,
      w.chars.IsChain fun c d => d = '$' → isWordChar c = true := by decide +kernel
  have htame : ∀ w ∈ identifiers sql, Tame w.chars := fun w hw => tame_of_isChain (hchain w hw)
  obtain ⟨hrebase, hrefused⟩ := (identifiers_and_markers sql).2.2 htame
  refine ⟨htame, (hrebase 7).trans (by decide +kernel), (hrefused []).mpr ?_⟩
  exact ⟨⟨⟨40, 42⟩, 4⟩, by decide +kernel, by decide +kernel⟩

/-- Behind a character beyond ASCII the dollar sign of an identifier is taken for that of a
marker: rebasing makes another identifier of it, and raw SQL with it is refused. -/
theorem marker_in_identifier :
    let sql := "café$1 = 2"
    (∃ w ∈ identifiers sql, ∃ m ∈ numberedMarkers sql,
        w.span.start ≤ m.span.start ∧ m.span.stop ≤ w.span.stop) ∧
      (identifiers (rebase sql 1)).map Word.chars ≠ (identifiers sql).map Word.chars ∧
      RawSql.ofParts sql [] = .error (.invalidPredicate (.numberedMarker sql)) := by
  intro sql
  refine ⟨?_, by decide +kernel, ?_⟩
  · exact ⟨⟨0, "café$1".toList⟩, by decide +kernel, ⟨⟨5, 7⟩, 1⟩, by decide +kernel⟩
  · exact (ofParts_eq_numberedMarker_iff sql []).mpr (by decide +kernel)

end BoundSql.Lexical
