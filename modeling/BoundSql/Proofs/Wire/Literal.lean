import BoundSql.ArrayLiteral
import BoundSql.Proofs.Text.Value

/-!
# Array literals are read back

A written element is read back in front of a comma or the end, whatever text it holds if it
is quoted, and if it is bare, as long as its text cannot be taken for anything else (`Bare`).
A literal whose elements are read back is read back as a whole (`parse_render`): the braces
are its first and last characters, and no blank stands next to them.
-/

namespace BoundSql.ArrayLiteral

open Text (Trimmed isBlank)

/-! ## Elements -/

/-- A text that can be written without quotes. -/
structure Bare (cs : List Char) : Prop where
  ne_nil : cs ≠ []
  trimmed : Trimmed cs
  noComma : ∀ c ∈ cs, c ≠ ','
  noReserved : ∀ c ∈ cs, isReserved c = false
  notNull : isNullToken cs = false

/-- An element that is read back in the form in which it is written. -/
def Readable (quoted : Bool) (e : Option String) : Prop :=
  ∀ s ∈ e, quoted = true ∨ Bare s.toList

/-- What may follow an element. -/
def Ends (rest : List Char) : Prop :=
  ∀ c ∈ rest.head?, c = ','

theorem bare_singleton {c : Char} (hblank : isBlank c = false) (hcomma : c ≠ ',')
    (hreserved : isReserved c = false) : Bare [c] where
  ne_nil := List.cons_ne_nil c []
  trimmed := ⟨by simpa using hblank, by simpa using hblank⟩
  noComma := by simpa using hcomma
  noReserved := by simpa using hreserved
  notNull := by simp [isNullToken, nullToken]

theorem readQuoted?_escape (cs rest : List Char) :
    readQuoted? (escape cs ++ '"' :: rest) = some (cs, rest) := by
  induction cs with
  | nil => simp [escape, readQuoted?]
  | cons c cs ih =>
      rw [escape]
      split
      · rename_i hescaped
        simp only [List.cons_append, readQuoted?, ih, Option.map_some]
      · rename_i hplain
        rw [not_or] at hplain
        rw [List.cons_append, readQuoted?, if_neg hplain.2, ih]
        · rfl
        all_goals simp [hplain]

/-- A bare run in front of what may follow it. -/
theorem readElement_run {c : Char} {cs rest : List Char} (hblank : isBlank c = false)
    (hquote : c ≠ '"') (hcomma : ∀ d ∈ c :: cs, d ≠ ',') (hrest : Ends rest) :
    readElement (c :: cs ++ rest) = (bareValue (c :: cs)).map fun e => (e, rest) := by
  have hrun : ∀ d ∈ c :: cs, (d != ',') = true := fun d hd => bne_iff_ne.mpr (hcomma d hd)
  have htake : rest.takeWhile (· != ',') = [] ∧ rest.dropWhile (· != ',') = rest := by
    cases rest with
    | nil => exact ⟨rfl, rfl⟩
    | cons d rest =>
        obtain rfl := hrest d rfl
        exact ⟨rfl, rfl⟩
  rw [readElement, Text.trimLeft_of_head (by rintro _ ⟨⟩; exact hblank)]
  split
  · rename_i body heq
    exact absurd (List.cons.inj heq).1 hquote
  · rw [List.takeWhile_append_of_pos hrun, List.dropWhile_append_of_pos hrun, htake.1, htake.2,
      List.append_nil]

theorem Bare.bareValue {cs : List Char} (h : Bare cs) :
    ArrayLiteral.bareValue cs = .ok (some (String.ofList cs)) := by
  have hreserved : cs.any isReserved = false := by
    rw [List.any_eq_false]
    intro c hc
    simp [h.noReserved c hc]
  rw [ArrayLiteral.bareValue, if_neg (by simp [hreserved]), h.trimmed.trim]
  cases cs with
  | nil => exact absurd rfl h.ne_nil
  | cons c cs => exact if_neg (by simp [h.notNull])

/-- A readable element is read back in front of what may follow it. -/
theorem readElement_element {quoted : Bool} {e : Option String} (h : Readable quoted e)
    {rest : List Char} (hrest : Ends rest) :
    readElement (element quoted e ++ rest) = .ok (e, rest) := by
  cases e with
  | none => exact readElement_run rfl (by decide) (by simp) hrest
  | some s =>
      have hblank : ∀ c ∈ rest.head?, isBlank c = false := by
        intro c hc
        rw [hrest c hc]
        rfl
      rw [element]
      split
      · simp only [List.cons_append, List.append_assoc, List.nil_append, readElement]
        rw [Text.trimLeft_of_head (by rintro _ ⟨⟩; rfl)]
        simp only [readQuoted?_escape, Text.trimLeft_of_head hblank, String.ofList_toList]
      · rename_i hbare
        have hs : Bare s.toList := (h s rfl).resolve_left hbare
        cases hcs : s.toList with
        | nil => exact absurd hcs hs.ne_nil
        | cons c cs =>
            rw [hcs] at hs
            have hreserved := hs.noReserved c (by simp)
            have hquote : c ≠ '"' := by
              rintro rfl
              exact absurd hreserved (by decide)
            rw [readElement_run (hs.trimmed.head c rfl) hquote hs.noComma hrest, hs.bareValue,
              ← hcs, String.ofList_toList]
            rfl

/-! ## Lists of elements -/

theorem readElements_last {cs : List Char} {e : Option String}
    (h : readElement cs = .ok (e, [])) : readElements cs = .ok [e] := by
  rw [readElements]
  split <;> simp_all

theorem readElements_cons {cs rest : List Char} {e : Option String}
    (h : readElement cs = .ok (e, ',' :: rest)) :
    readElements cs = (readElements rest).map (e :: ·) := by
  rw [readElements]
  split <;> simp_all

theorem readElements_elements {quoted : Bool} {es : List (Option String)} (hne : es ≠ [])
    (h : ∀ e ∈ es, Readable quoted e) : readElements (elements quoted es) = .ok es := by
  induction es with
  | nil => exact absurd rfl hne
  | cons e es ih =>
      have he : Readable quoted e := h e (List.mem_cons_self ..)
      cases es with
      | nil =>
          have hread : readElement (element quoted e ++ []) = .ok (e, []) :=
            readElement_element he (by rintro c ⟨⟩)
          rw [List.append_nil] at hread
          exact readElements_last hread
      | cons e' es =>
          have hread : readElement (element quoted e ++ ',' :: elements quoted (e' :: es)) =
              .ok (e, ',' :: elements quoted (e' :: es)) :=
            readElement_element he (by rintro c ⟨⟩; rfl)
          have hothers := ih (List.cons_ne_nil _ _) fun d hd => h d (List.mem_cons_of_mem _ hd)
          show readElements (element quoted e ++ ',' :: elements quoted (e' :: es)) = _
          rw [readElements_cons hread, hothers]
          rfl

/-! ## Literals -/

theorem interior?_braces (cs : List Char) : interior? ('{' :: cs ++ ['}']) = some cs := by
  have htrimmed : Trimmed ('{' :: cs ++ ['}']) :=
    ⟨by rintro c ⟨⟩; rfl, by rw [List.getLast?_append]; rintro c ⟨⟩; rfl⟩
  rw [interior?, htrimmed.trim]
  simp

/-- The first character of an element that is read back. -/
theorem exists_element {quoted : Bool} {e : Option String} (h : Readable quoted e) :
    ∃ c cs, element quoted e = c :: cs ∧ isBlank c = false := by
  cases e with
  | none => exact ⟨_, _, rfl, rfl⟩
  | some s =>
      rw [element]
      split
      · exact ⟨_, _, rfl, rfl⟩
      · rename_i hbare
        have hs : Bare s.toList := (h s rfl).resolve_left hbare
        obtain ⟨c, cs, hcs⟩ := List.exists_cons_of_ne_nil hs.ne_nil
        exact ⟨c, cs, hcs, hs.trimmed.head c (by rw [hcs]; rfl)⟩

/-- A literal of readable elements is read back. -/
theorem parse_render {quoted : Bool} {es : List (Option String)}
    (h : ∀ e ∈ es, Readable quoted e) : parse (render quoted es) = .ok es := by
  rw [parse, render, String.toList_ofList, interior?_braces]
  cases es with
  | nil => rfl
  | cons e es =>
      obtain ⟨c, cs, hcs, hblank⟩ := exists_element (h e (List.mem_cons_self ..))
      have hstart : ∃ tail, elements quoted (e :: es) = c :: tail := by
        cases es with
        | nil => exact ⟨cs, hcs⟩
        | cons e' es => exact ⟨_, congrArg (· ++ _) hcs⟩
      obtain ⟨tail, htail⟩ := hstart
      have hnonempty : (Text.trim (elements quoted (e :: es))).isEmpty = false := by
        rw [htail, List.isEmpty_eq_false_iff]
        exact Text.trim_ne_nil hblank tail
      simp only [hnonempty, Bool.false_eq_true, if_false]
      exact readElements_elements (List.cons_ne_nil _ _) h

/-- Between quotes every text is read back, the null token and blanks included, so that a
literal of quoted elements is read back whatever they hold. -/
theorem parse_render_quoted (es : List (Option String)) : parse (render true es) = .ok es := by
  have hreadable : ∀ e ∈ es, Readable true e := by
    intro e _ s _
    exact Or.inl rfl
  exact parse_render hreadable

/-- The text of a number, a date or a time can be written without quotes. -/
theorem bare_of_isValueText {cs : List Char} (h : Text.IsValueText cs) : Bare cs where
  ne_nil := h.ne_nil
  trimmed := h.trimmed
  noComma c hc := Text.ne_of_isValueChar (h.chars c hc) rfl
  noReserved c hc := by
    have hbrace := Text.ne_of_isValueChar (d := '{') (h.chars c hc) rfl
    have hclose := Text.ne_of_isValueChar (d := '}') (h.chars c hc) rfl
    have hquote := Text.ne_of_isValueChar (d := '"') (h.chars c hc) rfl
    simp [isReserved, hbrace, hclose, hquote]
  notNull := by
    have hupper : cs.map Char.toUpper = cs := by
      conv_rhs => rw [← List.map_id cs]
      exact List.map_congr_left fun c hc => Text.toUpper_of_isValueChar (h.chars c hc)
    rw [isNullToken, hupper, beq_eq_false_iff_ne]
    rintro rfl
    exact absurd (h.chars 'N' (by decide)) (by decide)

end BoundSql.ArrayLiteral
