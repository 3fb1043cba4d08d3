import BoundSql.Proofs.Condition.NormalForm
import BoundSql.Proofs.Identifier.Delimited
import BoundSql.Proofs.Sql.Pieces

/-!
# Conditions can be read back

`NormalForm.chars` writes a shape as SQL. The text shows where it ends and what was
written: if two written shapes are followed by any texts and the wholes are equal,
then the shapes are equal and so are the rests (`NormalForm.chars_append_inj`).

This is read off from left to right. The first character tells an operation, a
constant and a test apart. The column of a test ends itself, since identifiers do.
No phrase behind a column starts another one, so the operator is known, and with it
where the markers end. Markers are the same on both sides, because they count the
binds before them and the shapes have been equal so far.
-/

namespace BoundSql

/-! ## Writing shapes -/

/-- The words behind the column of a test. -/
def Operator.phrase : Operator → String
  | .eq => " = "
  | .neq => " <> "
  | .gt => " > "
  | .gte => " >= "
  | .lt => " < "
  | .lte => " <= "
  | .like => " LIKE "
  | .ilike => " ILIKE "
  | .between => " BETWEEN "
  | .isNull => " IS NULL"
  | .isNotNull => " IS NOT NULL"
  | .inList => " IN ("
  | .notInList => " NOT IN ("

/-- Whether an operator is written with a function around the column and around the
pattern. -/
def Backend.folds (b : Backend) (op : Operator) : Bool :=
  op == .ilike && !b.supports .ilike

/-- A column, with its table if there is one. -/
def columnChars (b : Backend) (table : Option String) (column : String) : List Char :=
  match table with
  | some t => (Identifier.quoted b t).toList ++ '.' :: (Identifier.quoted b column).toList
  | none => (Identifier.quoted b column).toList

/-- The markers of `n` binds behind `count` others, with commas between them. -/
def markerList (b : Backend) (count : Nat) : Nat → List Char
  | 0 => []
  | n + 1 =>
      (b.marker (count + 1)).toList ++
        if n = 0 then [] else ", ".toList ++ markerList b (count + 1) n

/-- What stands behind the phrase of an operator with `n` binds. -/
def Operator.argumentChars (b : Backend) (count n : Nat) : Operator → List Char
  | .isNull | .isNotNull => []
  | .between =>
      (b.marker (count + 1)).toList ++ (" AND ".toList ++ (b.marker (count + 2)).toList)
  | .inList | .notInList => markerList b count n ++ [')']
  | _ => (b.marker (count + 1)).toList

/-- A test of a column with `n` binds. -/
def testChars (b : Backend) (count : Nat) (table : Option String) (column : String)
    (op : Operator) (n : Nat) : List Char :=
  if b.folds op then
    "LOWER(".toList ++ (columnChars b table column ++
      (") LIKE LOWER(".toList ++ ((b.marker (count + 1)).toList ++ [')'])))
  else columnChars b table column ++ (op.phrase.toList ++ op.argumentChars b count n)

namespace NormalForm

/-- A shape behind `count` binds as SQL. -/
def chars (b : Backend) (count : Nat) : NormalForm Nat → List Char
  | .test table column op n => testChars b count table column op n
  | .constant value => if value then "1 = 1".toList else "1 = 0".toList
  | .and left right =>
      "(".toList ++ (left.chars b count ++
        (" AND ".toList ++ (right.chars b (count + left.size) ++ [')'])))
  | .or left right =>
      "(".toList ++ (left.chars b count ++
        (" OR ".toList ++ (right.chars b (count + left.size) ++ [')'])))
  | .not inner => "NOT (".toList ++ (inner.chars b count ++ [')'])

/-- Each test has a number of binds that its operator takes. -/
def Valid : NormalForm Nat → Prop
  | .test _ _ op n => op.takes n = true
  | .constant _ => True
  | .and left right => left.Valid ∧ right.Valid
  | .or left right => left.Valid ∧ right.Valid
  | .not inner => inner.Valid

end NormalForm

/-! ## Phrases and markers -/

/-- Texts none of which starts another are told apart in front of any rest. -/
theorem append_inj_of_prefix {ι : Type} {f : ι → List Char} (hfree : ∀ i j, f i <+: f j → i = j)
    {i j : ι} {x y : List Char} (h : f i ++ x = f j ++ y) : i = j ∧ x = y := by
  have hi : f i <+: f i ++ x := List.prefix_append _ _
  have hj : f j <+: f i ++ x := by
    rw [h]
    exact List.prefix_append _ _
  have hij : i = j := by
    rcases List.prefix_or_prefix_of_prefix hi hj with hpre | hpre
    · exact hfree i j hpre
    · exact (hfree j i hpre).symm
  subst hij
  exact ⟨rfl, List.append_cancel_left h⟩

theorem Operator.mem_all (op : Operator) : op ∈ Operator.all := by
  cases op <;> decide

/-- No phrase starts another: `" > "` does not start `" >= "`, nor does `" IS NULL"`
start `" IS NOT NULL"`. -/
theorem Operator.phrase_prefix (i j : Operator) (h : i.phrase.toList <+: j.phrase.toList) :
    i = j := by
  have hall : ∀ i ∈ Operator.all, ∀ j ∈ Operator.all,
      i.phrase.toList <+: j.phrase.toList → i = j := by decide +kernel
  exact hall i i.mem_all j j.mem_all h

theorem Operator.exists_phrase (op : Operator) : ∃ words, op.phrase.toList = ' ' :: words := by
  cases op <;> exact ⟨_, rfl⟩

theorem exists_marker (b : Backend) (index : Nat) :
    ∃ c cs, (b.marker index).toList = c :: cs ∧ c ≠ ')' := by
  cases b with
  | postgresql =>
      have hmarker : (Backend.postgresql.marker index).toList =
          '$' :: Text.digits (Lexical.wrapIndex index) := by
        simp [Backend.marker, Backend.markerStyle, MarkerStyle.marker]
      exact ⟨'$', _, hmarker, by decide⟩
  | mysql => exact ⟨'?', [], by simp [Backend.marker, Backend.markerStyle, MarkerStyle.marker],
      by decide⟩
  | sqlite => exact ⟨'?', [], by simp [Backend.marker, Backend.markerStyle, MarkerStyle.marker],
      by decide⟩

/-- The bracket behind a list of markers shows how many there are. -/
theorem markerList_append_inj {b : Backend} {count m n : Nat} {x y : List Char}
    (h : markerList b count m ++ ')' :: x = markerList b count n ++ ')' :: y) :
    m = n ∧ x = y := by
  induction m generalizing count n with
  | zero =>
      cases n with
      | zero => exact ⟨rfl, List.cons.inj h |>.2⟩
      | succ n =>
          obtain ⟨c, cs, hmarker, hc⟩ := exists_marker b (count + 1)
          rw [markerList, markerList, hmarker] at h
          exact absurd (List.cons.inj h).1.symm hc
  | succ m ih =>
      cases n with
      | zero =>
          obtain ⟨c, cs, hmarker, hc⟩ := exists_marker b (count + 1)
          rw [markerList, markerList, hmarker] at h
          exact absurd (List.cons.inj h).1 hc
      | succ n =>
          -- the first markers agree, and a comma or the bracket comes next
          rw [markerList, markerList, List.append_assoc, List.append_assoc] at h
          have hrest := List.append_cancel_left h
          cases m with
          | zero =>
              cases n with
              | zero => exact ⟨rfl, (List.cons.inj hrest).2⟩
              | succ n => exact absurd (List.cons.inj hrest).1 (by decide)
          | succ m =>
              cases n with
              | zero => exact absurd (List.cons.inj hrest).1 (by decide)
              | succ n =>
                  rw [if_neg (Nat.succ_ne_zero m), if_neg (Nat.succ_ne_zero n),
                    List.append_assoc, List.append_assoc] at hrest
                  obtain ⟨hmn, hxy⟩ := ih (List.append_cancel_left hrest)
                  exact ⟨congrArg Nat.succ hmn, hxy⟩

theorem Operator.argumentChars_append_inj {b : Backend} {count m n : Nat} {op : Operator}
    {x y : List Char} (hm : op.takes m = true) (hn : op.takes n = true)
    (h : op.argumentChars b count m ++ x = op.argumentChars b count n ++ y) :
    m = n ∧ x = y := by
  have harity : ∀ k, op.arity? = some k → m = n := fun k hk =>
    (length_of_takes hm hk).trans (length_of_takes hn hk).symm
  cases op with
  | inList | notInList =>
      simp only [argumentChars, List.append_assoc] at h
      exact markerList_append_inj h
  | isNull | isNotNull => exact ⟨harity 0 rfl, h⟩
  | between => exact ⟨harity 2 rfl, List.append_cancel_left h⟩
  | eq | neq | gt | gte | lt | lte | like | ilike =>
      exact ⟨harity 1 rfl, List.append_cancel_left h⟩

/-! ## Columns and tests -/

theorem head?_columnChars (b : Backend) (table : Option String) (column : String) :
    (columnChars b table column).head? = some b.quoteChar := by
  cases table <;> simp [columnChars, Identifier.quoted]

theorem Field.toList_formWith (f : Field) (b : Backend) :
    (f.formWith (Identifier.quoted b)).toList = columnChars b f.table f.column := by
  rw [formWith]
  cases f.table with
  | none => rfl
  | some table => simp [columnChars]

/-- What follows shows whether a column was written with a table. -/
theorem columnChars_append_inj {b : Backend} {t t' : Option String} {c c' : String} {d : Char}
    {x y : List Char} (hquote : d ≠ b.quoteChar) (hdot : d ≠ '.')
    (h : columnChars b t c ++ d :: x = columnChars b t' c' ++ d :: y) :
    t = t' ∧ c = c' ∧ x = y := by
  have hends : ∀ z : List Char, Identifier.EndsColumn b.quoteChar (d :: z) :=
    fun z => ⟨by simpa using hquote, by simpa using hdot⟩
  have hchars : ∀ (t : Option String) (c : String), columnChars b t c =
      ((⟨"", t, c, none⟩ : Field).formWith (Identifier.quoteWith b.quoteChar)).toList :=
    fun t c => (Field.toList_formWith ⟨"", t, c, none⟩ b).symm
  rw [hchars, hchars] at h
  obtain ⟨ht, hc, hxy⟩ :=
    Identifier.formWith_append_inj (Identifier.quoteChar_ne_point b) (hends x) (hends y) h
  exact ⟨ht, hc, (List.cons.inj hxy).2⟩

theorem Backend.eq_ilike_of_folds {b : Backend} {op : Operator} (h : b.folds op = true) :
    op = .ilike := by
  simp only [folds, Bool.and_eq_true, beq_iff_eq] at h
  exact h.1

/-- The first character of a test. -/
def testOpening (b : Backend) (op : Operator) : Char :=
  if b.folds op then 'L' else b.quoteChar

theorem head?_testChars (b : Backend) (count : Nat) (t : Option String) (c : String)
    (op : Operator) (n : Nat) :
    (testChars b count t c op n).head? = some (testOpening b op) := by
  unfold testChars testOpening
  split
  · rfl
  · rw [List.head?_append, head?_columnChars]
    rfl

theorem testChars_append_inj {b : Backend} {count m n : Nat} {t t' : Option String}
    {c c' : String} {op op' : Operator} {x y : List Char} (hm : op.takes m = true)
    (hn : op'.takes n = true)
    (h : testChars b count t c op m ++ x = testChars b count t' c' op' n ++ y) :
    (t = t' ∧ c = c' ∧ op = op' ∧ m = n) ∧ x = y := by
  have hspace : ' ' ≠ b.quoteChar ∧ ')' ≠ b.quoteChar ∧ 'L' ≠ b.quoteChar := by
    cases b <;> decide
  have hopening := congrArg List.head? h
  rw [List.head?_append, List.head?_append, head?_testChars, head?_testChars, Option.some_or,
    Option.some_or, Option.some.injEq] at hopening
  unfold testOpening at hopening
  unfold testChars at h
  by_cases hfolds : b.folds op = true
  · by_cases hfolds' : b.folds op' = true
    · obtain rfl := Backend.eq_ilike_of_folds hfolds
      obtain rfl := Backend.eq_ilike_of_folds hfolds'
      -- only one operator is folded, and it takes one bind
      obtain rfl := Operator.length_of_takes hm (n := 1) rfl
      obtain rfl := Operator.length_of_takes hn (n := 1) rfl
      rw [if_pos hfolds, if_pos hfolds] at h
      simp only [List.append_assoc] at h
      obtain ⟨ht, hc, hrest⟩ := columnChars_append_inj hspace.2.1 (by decide)
        (List.append_cancel_left h)
      have hmarker := List.append_cancel_left
        (show " LIKE LOWER(".toList ++ _ = " LIKE LOWER(".toList ++ _ from hrest)
      exact ⟨⟨ht, hc, rfl, rfl⟩, (List.cons.inj (List.append_cancel_left hmarker)).2⟩
    · rw [if_pos hfolds, if_neg hfolds'] at hopening
      exact absurd hopening hspace.2.2
  · by_cases hfolds' : b.folds op' = true
    · rw [if_neg hfolds, if_pos hfolds'] at hopening
      exact absurd hopening.symm hspace.2.2
    · rw [if_neg hfolds, if_neg hfolds'] at h
      simp only [List.append_assoc] at h
      -- a phrase starts with a space, which ends the column before it
      obtain ⟨words, hwords⟩ := op.exists_phrase
      obtain ⟨words', hwords'⟩ := op'.exists_phrase
      have hcolumn := h
      rw [hwords, hwords', List.cons_append, List.cons_append] at hcolumn
      obtain ⟨rfl, rfl, -⟩ := columnChars_append_inj hspace.1 (by decide) hcolumn
      obtain ⟨rfl, hrest⟩ := append_inj_of_prefix (f := fun op : Operator => op.phrase.toList)
        Operator.phrase_prefix (List.append_cancel_left h)
      obtain ⟨hmn, hxy⟩ := Operator.argumentChars_append_inj hm hn hrest
      exact ⟨⟨rfl, rfl, rfl, hmn⟩, hxy⟩

/-! ## Shapes -/

namespace NormalForm

/-- The first character of a written shape. -/
def opening (b : Backend) : NormalForm Nat → Char
  | .test _ _ op _ => testOpening b op
  | .constant _ => '1'
  | .and _ _ => '('
  | .or _ _ => '('
  | .not _ => 'N'

theorem head?_chars (b : Backend) (count : Nat) (n : NormalForm Nat) :
    (n.chars b count).head? = some (n.opening b) := by
  cases n with
  | test t c op n => exact head?_testChars b count t c op n
  | constant value => cases value <;> rfl
  | and left right => rfl
  | or left right => rfl
  | not inner => rfl

theorem opening_eq {b : Backend} {count : Nat} {m n : NormalForm Nat} {x y : List Char}
    (h : m.chars b count ++ x = n.chars b count ++ y) : m.opening b = n.opening b := by
  have hhead := congrArg List.head? h
  rw [List.head?_append, List.head?_append, head?_chars, head?_chars] at hhead
  exact Option.some.inj hhead

theorem testOpening_ne (b : Backend) (op : Operator) :
    testOpening b op ≠ '1' ∧ testOpening b op ≠ '(' ∧ testOpening b op ≠ 'N' := by
  unfold testOpening
  split
  · decide
  · cases b <;> decide

/-- The words between two parts and the bracket at the end do not hide where the
parts end. -/
theorem binary_append_inj {b : Backend} {count : Nat} {left right left' right' : NormalForm Nat}
    {words x y : List Char}
    (ihleft : ∀ x y, left.chars b count ++ x = left'.chars b count ++ y → left = left' ∧ x = y)
    (ihright : ∀ x y, right.chars b (count + left.size) ++ x =
      right'.chars b (count + left.size) ++ y → right = right' ∧ x = y)
    (h : "(".toList ++ (left.chars b count ++
        (words ++ (right.chars b (count + left.size) ++ [')']))) ++ x =
      "(".toList ++ (left'.chars b count ++
        (words ++ (right'.chars b (count + left'.size) ++ [')']))) ++ y) :
    left = left' ∧ right = right' ∧ x = y := by
  simp only [List.append_assoc] at h
  obtain ⟨rfl, hrest⟩ := ihleft _ _ (List.append_cancel_left h)
  obtain ⟨rfl, hxy⟩ := ihright _ _ (List.append_cancel_left hrest)
  exact ⟨rfl, rfl, (List.cons.inj hxy).2⟩

/-- The word between two parts tells the two operations apart. -/
theorem and_ne_or {b : Backend} {count : Nat} {left left' : NormalForm Nat}
    {u v x y : List Char}
    (ihleft : ∀ x y, left.chars b count ++ x = left'.chars b count ++ y → left = left' ∧ x = y) :
    "(".toList ++ (left.chars b count ++ (" AND ".toList ++ u)) ++ x ≠
      "(".toList ++ (left'.chars b count ++ (" OR ".toList ++ v)) ++ y := by
  intro h
  simp only [List.append_assoc] at h
  obtain ⟨-, hrest⟩ := ihleft _ _ (List.append_cancel_left h)
  exact absurd (List.cons.inj (List.cons.inj hrest).2).1 (by decide)

/-- Two written shapes followed by any texts are equal only if the shapes and the
texts are. -/
theorem chars_append_inj {b : Backend} {m n : NormalForm Nat} (hm : m.Valid) (hn : n.Valid)
    {count : Nat} {x y : List Char} (h : m.chars b count ++ x = n.chars b count ++ y) :
    m = n ∧ x = y := by
  have hopening := opening_eq h
  have htest := fun op => testOpening_ne b op
  induction m generalizing n count x y with
  | test t c op k =>
      cases n with
      | test t' c' op' k' =>
          obtain ⟨⟨rfl, rfl, rfl, rfl⟩, hxy⟩ := testChars_append_inj hm hn h
          exact ⟨rfl, hxy⟩
      | constant value => exact absurd hopening (htest op).1
      | and _ _ => exact absurd hopening (htest op).2.1
      | or _ _ => exact absurd hopening (htest op).2.1
      | not _ => exact absurd hopening (htest op).2.2
  | constant value =>
      cases n with
      | constant value' =>
          obtain ⟨rfl, hxy⟩ := append_inj_of_prefix
            (f := fun v : Bool => if v then "1 = 1".toList else "1 = 0".toList) (by decide) h
          exact ⟨rfl, hxy⟩
      | test t' c' op' k' => exact absurd hopening.symm (htest op').1
      | and _ _ | or _ _ => exact absurd hopening (by decide : '1' ≠ '(')
      | not _ => exact absurd hopening (by decide : '1' ≠ 'N')
  | and left right ihleft ihright =>
      cases n with
      | and left' right' =>
          obtain ⟨rfl, rfl, hxy⟩ := binary_append_inj
            (fun x y hxy => ihleft hm.1 hn.1 hxy (opening_eq hxy))
            (fun x y hxy => ihright hm.2 hn.2 hxy (opening_eq hxy)) h
          exact ⟨rfl, hxy⟩
      | or left' right' =>
          exact absurd h (and_ne_or fun x y hxy => ihleft hm.1 hn.1 hxy (opening_eq hxy))
      | test t' c' op' k' => exact absurd hopening.symm (htest op').2.1
      | constant _ => exact absurd hopening (by decide : '(' ≠ '1')
      | not _ => exact absurd hopening (by decide : '(' ≠ 'N')
  | or left right ihleft ihright =>
      cases n with
      | or left' right' =>
          obtain ⟨rfl, rfl, hxy⟩ := binary_append_inj
            (fun x y hxy => ihleft hm.1 hn.1 hxy (opening_eq hxy))
            (fun x y hxy => ihright hm.2 hn.2 hxy (opening_eq hxy)) h
          exact ⟨rfl, hxy⟩
      | and left' right' =>
          refine absurd h.symm (and_ne_or fun x y hxy => ?_)
          obtain ⟨hleft, hyx⟩ := ihleft hm.1 hn.1 hxy.symm (opening_eq hxy.symm)
          exact ⟨hleft.symm, hyx.symm⟩
      | test t' c' op' k' => exact absurd hopening.symm (htest op').2.1
      | constant _ => exact absurd hopening (by decide : '(' ≠ '1')
      | not _ => exact absurd hopening (by decide : '(' ≠ 'N')
  | not inner ih =>
      cases n with
      | not inner' =>
          simp only [chars, List.append_assoc] at h
          have hinner := List.append_cancel_left h
          have hn' : inner'.Valid := hn
          obtain ⟨rfl, hxy⟩ := ih hm hn' hinner (opening_eq hinner)
          exact ⟨rfl, (List.cons.inj hxy).2⟩
      | test t' c' op' k' => exact absurd hopening.symm (htest op').2.2
      | constant _ => exact absurd hopening (by decide : 'N' ≠ '1')
      | and _ _ | or _ _ => exact absurd hopening (by decide : 'N' ≠ '(')

end NormalForm

end BoundSql
