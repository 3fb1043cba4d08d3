import BoundSql.Proofs.Text.Trim
import BoundSql.Proofs.Wire.Literal
import BoundSql.Wire.Decoding
import Mathlib.Data.List.Forall2

/-!
# The grammar of array literals

Which texts are array literals and what they stand for, said without a reader: braces with
blanks around them and, between the braces, either blanks alone or items with commas between
them (`Literal`). An item is a body in double quotes or a bare word (`Item`), with blanks
around it.

`parse_literal` says that reading accepts this grammar and nothing else. Both directions go
item by item: what an element takes from the front of a text is an item, and an item in front
of a comma or of the end is taken as a whole.
-/

namespace BoundSql.ArrayLiteral

open Text (Blank Padded Trimmed isBlank)

/-! ## Items and literals -/

/-- What stands between the quotes of an item, and the text that it means. -/
inductive Body : List Char → List Char → Prop
  | nil : Body [] []
  | plain {c : Char} {written text : List Char} (hquote : c ≠ '"') (hescape : c ≠ '\\')
      (h : Body written text) : Body (c :: written) (c :: text)
  | escaped {c : Char} {written text : List Char} (h : Body written text) :
      Body ('\\' :: c :: written) (c :: text)

/-- The characters that a bare word cannot hold. -/
def delimiters : List Char := [',', '{', '}', '"']

/-- A bare word. -/
structure Word (word : List Char) : Prop where
  ne_nil : word ≠ []
  trimmed : Trimmed word
  plain : ∀ c ∈ word, c ∉ delimiters

/-- A word that is the null token, each letter in either case. -/
def SpellsNull (word : List Char) : Prop :=
  List.Forall₂ (fun c letter => c = letter ∨ c = letter.toLower) word nullToken

/-- An item and the element that it stands for. -/
inductive Item : List Char → Option String → Prop
  | quoted {item written text : List Char} (hbody : Body written text)
      (hpadded : Padded ('"' :: written ++ ['"']) item) : Item item (some (String.ofList text))
  | null {item word : List Char} (hword : Word word) (hnull : SpellsNull word)
      (hpadded : Padded word item) : Item item none
  | bare {item word : List Char} (hword : Word word) (hnull : ¬SpellsNull word)
      (hpadded : Padded word item) : Item item (some (String.ofList word))

/-- Items with commas between them. -/
inductive Items : List Char → List (Option String) → Prop
  | single {item : List Char} {e : Option String} (h : Item item e) : Items item [e]
  | cons {item others : List Char} {e : Option String} {es : List (Option String)}
      (h : Item item e) (hothers : Items others es) : Items (item ++ ',' :: others) (e :: es)

/-- A literal and the elements that it stands for. -/
inductive Literal : List Char → List (Option String) → Prop
  | empty {literal inner : List Char} (hblank : Blank inner)
      (hpadded : Padded ('{' :: inner ++ ['}']) literal) : Literal literal []
  | items {literal inner : List Char} {es : List (Option String)} (hitems : Items inner es)
      (hpadded : Padded ('{' :: inner ++ ['}']) literal) : Literal literal es

/-! ## The null token -/

/-- An uppercase letter is what the letter itself and its lowercase are raised to. -/
theorem toUpper_eq_iff {c letter : Char} (h : letter.isUpper = true) :
    c.toUpper = letter ↔ c = letter ∨ c = letter.toLower := by
  have h : letter.val ≥ 'A'.val ∧ letter.val ≤ 'Z'.val := of_decide_eq_true h
  have hlow : 65 ≤ letter.toNat := UInt32.le_iff_toNat_le.mp h.1
  have hhigh : letter.toNat ≤ 90 := UInt32.le_iff_toNat_le.mp h.2
  have hlower : letter.toLower.toNat = letter.toNat + 32 := by
    have hstep : ('a'.val - 'A'.val).toNat = 32 := rfl
    have hval : letter.val.toNat = letter.toNat := rfl
    unfold Char.toLower
    rw [dif_pos h]
    show (letter.val + ('a'.val - 'A'.val)).toNat = _
    rw [UInt32.toNat_add]
    omega
  have hupper : c.toUpper.toNat =
      if 97 ≤ c.toNat ∧ c.toNat ≤ 122 then c.toNat - 32 else c.toNat := by
    have hiff : ('a'.val ≤ c.val ∧ c.val ≤ 'z'.val) ↔ 97 ≤ c.toNat ∧ c.toNat ≤ 122 :=
      and_congr UInt32.le_iff_toNat_le UInt32.le_iff_toNat_le
    have hstep : ('A'.val - 'a'.val).toNat = 2 ^ 32 - 32 := rfl
    have hval : c.val.toNat = c.toNat := rfl
    unfold Char.toUpper
    split
    · rename_i hc
      have hbounds := hiff.mp hc
      rw [if_pos hbounds]
      show (c.val + ('A'.val - 'a'.val)).toNat = _
      rw [UInt32.toNat_add]
      omega
    · rename_i hc
      rw [if_neg fun hbounds => hc (hiff.mpr hbounds)]
  rw [← Char.toNat_inj, ← Char.toNat_inj, ← Char.toNat_inj, hlower, hupper]
  split <;> omega

theorem isNullToken_iff {word : List Char} : isNullToken word = true ↔ SpellsNull word := by
  have hn : 'N'.isUpper = true := rfl
  have hu : 'U'.isUpper = true := rfl
  have hl : 'L'.isUpper = true := rfl
  rw [isNullToken, beq_iff_eq, SpellsNull, ← List.forall₂_eq_eq_eq, List.forall₂_map_left_iff]
  simp only [nullToken, List.forall₂_cons_right_iff, List.forall₂_nil_right_iff,
    toUpper_eq_iff hn, toUpper_eq_iff hu, toUpper_eq_iff hl]

/-! ## Reading a body -/

theorem readQuoted?_eq_some_iff {cs text rest : List Char} :
    readQuoted? cs = some (text, rest) ↔
      ∃ written, Body written text ∧ cs = written ++ '"' :: rest := by
  constructor
  · intro h
    fun_induction readQuoted? cs generalizing text with
    | case1 => cases h
    | case2 cs =>
        cases h
        exact ⟨[], .nil, rfl⟩
    | case3 c cs ih =>
        obtain ⟨⟨text', rest'⟩, hread, heq⟩ := Option.map_eq_some_iff.mp h
        cases heq
        obtain ⟨written, hbody, rfl⟩ := ih hread
        exact ⟨_, .escaped hbody, rfl⟩
    | case4 => cases h
    | case5 c cs hquote _ hescape ih =>
        obtain ⟨⟨text', rest'⟩, hread, heq⟩ := Option.map_eq_some_iff.mp h
        cases heq
        obtain ⟨written, hbody, rfl⟩ := ih hread
        exact ⟨_, .plain hquote hescape hbody, rfl⟩
  · intro h
    obtain ⟨written, hbody, rfl⟩ := h
    induction hbody with
    | nil => rfl
    | plain hquote hescape _ ih =>
        rw [List.cons_append, readQuoted?, if_neg hescape, ih]
        · rfl
        · exact hquote
        · intro d ds heq _
          exact absurd heq hescape
    | escaped _ ih => rw [List.cons_append, List.cons_append, readQuoted?, ih, Option.map_some]

/-! ## Reading an item -/

theorem not_isBlank_of_mem_delimiters {c : Char} (h : c ∈ delimiters) : isBlank c = false := by
  have hcases : c = ',' ∨ c = '{' ∨ c = '}' ∨ c = '"' := by simpa [delimiters] using h
  rcases hcases with rfl | rfl | rfl | rfl <;> rfl

theorem mem_delimiters_iff {c : Char} : c ∈ delimiters ↔ c = ',' ∨ isReserved c = true := by
  simp [delimiters, isReserved, or_assoc]

/-- Blanks around a word add no delimiters. -/
theorem Word.plain_padded {word run : List Char} (hword : Word word) (h : Padded word run) :
    ∀ c ∈ run, c ∉ delimiters := by
  obtain ⟨before, behind, hbefore, hbehind, rfl⟩ := h
  intro c hc hdelimiter
  have hblank := not_isBlank_of_mem_delimiters hdelimiter
  rw [List.mem_append, List.mem_append] at hc
  rcases hc with (hc | hc) | hc
  · simp [hbefore c hc] at hblank
  · exact hword.plain c hc hdelimiter
  · simp [hbehind c hc] at hblank

/-- The value of a padded word. -/
theorem bareValue_padded {word run : List Char} (hword : Word word) (h : Padded word run) :
    bareValue run = .ok (if isNullToken word then none else some (String.ofList word)) := by
  have hreserved : run.any isReserved = false := by
    rw [List.any_eq_false]
    intro c hc hreserved
    exact hword.plain_padded h c hc (mem_delimiters_iff.mpr (Or.inr hreserved))
  have htrim : Text.trim run = word := Text.trim_eq_iff.mpr ⟨hword.trimmed, h⟩
  rw [bareValue, if_neg (by simp [hreserved]), htrim]
  cases word with
  | nil => exact absurd rfl hword.ne_nil
  | cons c cs =>
      simp only []
      split <;> rfl

/-- A run without commas that has a value is an item. -/
theorem item_of_bareValue {run : List Char} {e : Option String} (hcomma : ∀ c ∈ run, c ≠ ',')
    (h : bareValue run = .ok e) : Item run e := by
  rw [bareValue] at h
  split at h
  · cases h
  · rename_i hreserved
    have htrim : Text.trim run = Text.trim run := rfl
    obtain ⟨htrimmed, hpadded⟩ := Text.trim_eq_iff.mp htrim
    have hplain : ∀ c ∈ Text.trim run, c ∉ delimiters := by
      intro c hc hdelimiter
      have hrun := hpadded.subset hc
      rcases mem_delimiters_iff.mp hdelimiter with rfl | hc'
      · exact hcomma _ hrun rfl
      · exact hreserved (List.any_eq_true.mpr ⟨c, hrun, hc'⟩)
    cases hword : Text.trim run with
    | nil => rw [hword] at h; cases h
    | cons c cs =>
        rw [hword] at h htrimmed hpadded hplain
        have hword : Word (c :: cs) := ⟨List.cons_ne_nil c cs, htrimmed, hplain⟩
        simp only [] at h
        split at h
        · rename_i hnull
          cases h
          exact .null hword (isNullToken_iff.mp hnull) hpadded
        · rename_i hnull
          cases h
          exact .bare hword (fun hspells => hnull (isNullToken_iff.mpr hspells)) hpadded

theorem Item.prepend {before item : List Char} {e : Option String} (hbefore : Blank before)
    (h : Item item e) : Item (before ++ item) e := by
  cases h with
  | quoted hbody hpadded => exact .quoted hbody (hpadded.prepend hbefore)
  | null hword hnull hpadded => exact .null hword hnull (hpadded.prepend hbefore)
  | bare hword hnull hpadded => exact .bare hword hnull (hpadded.prepend hbefore)

/-- What an element takes from the front of a text is an item. -/
theorem exists_item_of_readElement {cs rest : List Char} {e : Option String}
    (h : readElement cs = .ok (e, rest)) : ∃ item, Item item e ∧ cs = item ++ rest := by
  obtain ⟨before, hbefore, hcs, -⟩ := Text.exists_trimLeft cs
  unfold readElement at h
  split at h
  · rename_i body hstart
    split at h
    · rename_i text tail hread
      cases h
      obtain ⟨written, hbody, rfl⟩ := readQuoted?_eq_some_iff.mp hread
      obtain ⟨behind, hbehind, htail, -⟩ := Text.exists_trimLeft tail
      refine ⟨_, .quoted hbody ⟨before, behind, hbefore, hbehind, rfl⟩, ?_⟩
      simp only [List.append_assoc, List.cons_append, List.nil_append, ← htail]
      rw [← hstart, ← hcs]
    · cases h
  · rename_i hstart
    cases hvalue : bareValue ((Text.trimLeft cs).takeWhile (· != ',')) with
    | error fault => rw [hvalue] at h; cases h
    | ok value =>
        rw [hvalue] at h
        cases h
        have hcomma : ∀ c ∈ (Text.trimLeft cs).takeWhile (· != ','), c ≠ ',' := by
          intro c hc
          exact bne_iff_ne.mp (List.mem_takeWhile_imp (p := (· != ',')) hc)
        refine ⟨_, (item_of_bareValue hcomma hvalue).prepend hbefore, ?_⟩
        rw [List.append_assoc, List.takeWhile_append_dropWhile, ← hcs]

theorem readElement_append_of_blank {before : List Char} (h : Blank before) (cs : List Char) :
    readElement (before ++ cs) = readElement cs := by
  rw [readElement, readElement, Text.trimLeft_append_of_blank h]

/-- A padded word in front of what may follow it. -/
theorem readElement_word {word item rest : List Char} (hword : Word word)
    (hpadded : Padded word item) (hrest : Ends rest) :
    readElement (item ++ rest) =
      .ok (if isNullToken word then none else some (String.ofList word), rest) := by
  obtain ⟨before, behind, hbefore, hbehind, rfl⟩ := hpadded
  have hrun : Padded word (word ++ behind) := ⟨[], behind, by simp [Blank], hbehind, rfl⟩
  have hplain := hword.plain_padded hrun
  have hvalue := bareValue_padded hword hrun
  rw [List.append_assoc, List.append_assoc, readElement_append_of_blank hbefore,
    ← List.append_assoc]
  cases word with
  | nil => exact absurd rfl hword.ne_nil
  | cons c cs =>
      have hquote : c ≠ '"' := by
        intro hc
        exact hword.plain c (List.mem_cons_self ..) (by rw [hc]; decide)
      have hcomma : ∀ d ∈ c :: (cs ++ behind), d ≠ ',' := by
        intro d hd hcomma
        exact hplain d hd (by rw [hcomma]; decide)
      rw [List.cons_append] at hvalue ⊢
      rw [readElement_run (hword.trimmed.head c rfl) hquote hcomma hrest, hvalue]
      rfl

/-- An item in front of what may follow it is taken as a whole. -/
theorem readElement_item {item rest : List Char} {e : Option String} (h : Item item e)
    (hrest : Ends rest) : readElement (item ++ rest) = .ok (e, rest) := by
  cases h with
  | quoted hbody hpadded =>
      obtain ⟨before, behind, hbefore, hbehind, rfl⟩ := hpadded
      rename_i written text
      have hread : readQuoted? (written ++ '"' :: (behind ++ rest)) = some (text, behind ++ rest) :=
        readQuoted?_eq_some_iff.mpr ⟨written, hbody, rfl⟩
      have hblank : ∀ c ∈ rest.head?, isBlank c = false := by
        intro c hc
        rw [hrest c hc]
        rfl
      have hbehindRest : Text.trimLeft (behind ++ rest) = rest := by
        rw [Text.trimLeft_append_of_blank hbehind, Text.trimLeft_of_head hblank]
      simp only [List.append_assoc, List.cons_append, List.nil_append]
      rw [readElement_append_of_blank hbefore, readElement,
        Text.trimLeft_of_head (by intro c hc; cases hc; rfl)]
      simp only [hread, hbehindRest]
  | null hword hnull hpadded =>
      rw [readElement_word hword hpadded hrest, if_pos (isNullToken_iff.mpr hnull)]
  | bare hword hnull hpadded =>
      rw [readElement_word hword hpadded hrest, if_neg fun h => hnull (isNullToken_iff.mp h)]

/-! ## Reading a literal -/

theorem ends_nil : Ends [] := by
  intro c hc
  cases hc

theorem ends_comma (rest : List Char) : Ends (',' :: rest) := by
  intro c hc
  cases hc
  rfl

theorem readElements_eq_ok_iff {cs : List Char} {es : List (Option String)} :
    readElements cs = .ok es ↔ Items cs es := by
  constructor
  · intro h
    fun_induction readElements cs generalizing es with
    | case1 cs fault hread => cases h
    | case2 cs e hread =>
        cases h
        obtain ⟨item, hitem, rfl⟩ := exists_item_of_readElement hread
        rw [List.append_nil]
        exact .single hitem
    | case3 cs e rest hread ih =>
        obtain ⟨item, hitem, rfl⟩ := exists_item_of_readElement hread
        cases hothers : readElements rest with
        | error fault => rw [hothers] at h; cases h
        | ok es' =>
            rw [hothers] at h
            cases h
            exact .cons hitem (ih hothers)
    | case4 cs e c rest hread hcomma => cases h
  · intro h
    induction h with
    | single h =>
        have hread := readElement_item h ends_nil
        rw [List.append_nil] at hread
        exact readElements_last hread
    | cons h _ ih =>
        rw [readElements_cons (readElement_item h (ends_comma _)), ih]
        rfl

theorem trimmed_braces (inner : List Char) : Trimmed ('{' :: inner ++ ['}']) :=
  ⟨by intro c hc; cases hc; rfl, by rw [List.getLast?_append]; intro c hc; cases hc; rfl⟩

theorem interior?_eq_some_iff {cs inner : List Char} :
    interior? cs = some inner ↔ Padded ('{' :: inner ++ ['}']) cs := by
  have htrim : Padded ('{' :: inner ++ ['}']) cs ↔ Text.trim cs = '{' :: inner ++ ['}'] := by
    rw [Text.trim_eq_iff]
    exact (and_iff_right (trimmed_braces inner)).symm
  rw [htrim, interior?]
  constructor
  · intro h
    split at h
    · rename_i body hbody
      split at h
      · rename_i hlast
        cases h
        rw [hbody, List.cons_append, List.dropLast_append_getLast? '}' hlast]
      · cases h
    · cases h
  · intro h
    rw [h]
    simp

theorem Word.not_blank {word : List Char} (h : Word word) : ¬Blank word := by
  intro hblank
  have hhead := h.trimmed.head _ (List.head?_eq_some_head h.ne_nil)
  rw [hblank _ (List.head_mem h.ne_nil)] at hhead
  cases hhead

theorem Item.not_blank {item : List Char} {e : Option String} (h : Item item e) :
    ¬Blank item := by
  intro hblank
  cases h with
  | quoted hbody hpadded => exact absurd (hblank '"' (hpadded.subset (by simp))) (by decide)
  | null hword _ hpadded => exact hword.not_blank fun c hc => hblank c (hpadded.subset hc)
  | bare hword _ hpadded => exact hword.not_blank fun c hc => hblank c (hpadded.subset hc)

/-- Items are not taken for the interior of an empty literal. -/
theorem Items.not_blank {inner : List Char} {es : List (Option String)} (h : Items inner es) :
    ¬Blank inner := by
  cases h with
  | single h => exact h.not_blank
  | cons h hothers =>
      intro hblank
      exact h.not_blank fun c hc => hblank c (List.mem_append_left _ hc)

/-- Reading accepts the grammar of array literals with the elements that it gives them, and
refuses every other text with an error of decoding that repeats the text. -/
theorem parse_literal (literal : String) :
    (∀ es, parse literal = .ok es ↔ Literal literal.toList es) ∧
      ((¬∃ es, Literal literal.toList es) ↔
        ∃ fault, parse literal = .error fault ∧ ∀ kind,
          Wire.decodeArrayText kind literal = .error (.decode (.array literal fault))) := by
  have hiff : ∀ es, parse literal = .ok es ↔ Literal literal.toList es := by
    intro es
    rw [parse]
    constructor
    · intro h
      split at h
      · cases h
      · rename_i inner hinner
        have hpadded := interior?_eq_some_iff.mp hinner
        split at h
        · rename_i hempty
          cases h
          exact .empty (Text.trim_eq_nil_iff.mp (List.isEmpty_iff.mp hempty)) hpadded
        · exact .items (readElements_eq_ok_iff.mp h) hpadded
    · intro h
      cases h with
      | empty hblank hpadded =>
          rw [interior?_eq_some_iff.mpr hpadded]
          exact if_pos (List.isEmpty_iff.mpr (Text.trim_eq_nil_iff.mpr hblank))
      | items hitems hpadded =>
          rw [interior?_eq_some_iff.mpr hpadded]
          refine (if_neg ?_).trans (readElements_eq_ok_iff.mpr hitems)
          intro hempty
          exact hitems.not_blank (Text.trim_eq_nil_iff.mp (List.isEmpty_iff.mp hempty))
  refine ⟨hiff, ?_⟩
  constructor
  · intro hnone
    cases h : parse literal with
    | ok es => exact absurd ⟨es, (hiff es).mp h⟩ hnone
    | error fault => exact ⟨fault, rfl, fun kind => by rw [Wire.decodeArrayText, h]⟩
  · intro h hsome
    obtain ⟨fault, hfault, -⟩ := h
    obtain ⟨es, hes⟩ := hsome
    rw [(hiff es).mpr hes] at hfault
    cases hfault

end BoundSql.ArrayLiteral
