import BoundSql.Lexical.Span

/-!
# Runs of code

A reader of SQL finds every byte to be code or opaque; `verdicts` lists what it
finds. The spans of code are the maximal runs of this list: a byte lies in one of
them just if it is code (`exists_mem_spansFrom_iff`), each of them begins and ends
where a character does (`edges_of_mem_spansFrom`), and between two of them there is
an opaque byte (`pairwise_spansFrom`).

All of these are inductions along the glyphs that follow a run still open.
-/

namespace BoundSql.Lexical

/-- For every byte of some glyphs, whether it is code. -/
def verdicts (gs : List Glyph) : List Bool :=
  gs.flatMap fun g => List.replicate g.size g.code

/-- The offsets of some glyphs, that of their end included. -/
def edges (pos : Nat) : List Glyph → List Nat
  | [] => [pos]
  | g :: gs => pos :: edges (pos + g.size) gs

theorem Glyph.size_pos (g : Glyph) : 0 < g.size :=
  Char.utf8Size_pos _

/-- Whether a byte lies in a span. -/
def Span.Covers (span : Span) (i : Nat) : Prop :=
  span.start ≤ i ∧ i < span.stop

@[simp] theorem verdicts_nil : verdicts [] = [] := rfl

@[simp] theorem verdicts_cons (g : Glyph) (gs : List Glyph) :
    verdicts (g :: gs) = List.replicate g.size g.code ++ verdicts gs := rfl

theorem verdicts_append (gs hs : List Glyph) :
    verdicts (gs ++ hs) = verdicts gs ++ verdicts hs :=
  List.flatMap_append

theorem length_verdicts (gs : List Glyph) :
    (verdicts gs).length = byteSize (gs.map Glyph.char) := by
  induction gs with
  | nil => rfl
  | cons g gs ih => simp [ih, byteSize, Glyph.size]

/-- The first glyph decides on its own bytes, and the others on those behind. -/
theorem getElem?_verdicts_cons {g : Glyph} {gs : List Glyph} {pos i : Nat} (h : pos ≤ i) :
    (verdicts (g :: gs))[i - pos]? =
      if i < pos + g.size then some g.code else (verdicts gs)[i - (pos + g.size)]? := by
  rw [verdicts_cons]
  split
  · rw [List.getElem?_append_left (by simp; omega), List.getElem?_replicate, if_pos (by omega)]
  · rw [List.getElem?_append_right (by simp; omega), List.length_replicate, Nat.sub_sub]

/-- A glyph of code goes on with the run that is open, or begins one. -/
theorem spansFrom_of_code {g : Glyph} (h : g.code = true) (pos : Nat) (since : Option Nat)
    (gs : List Glyph) :
    spansFrom pos since (g :: gs) = spansFrom (pos + g.size) (some (since.getD pos)) gs := by
  rw [spansFrom, if_pos h]

/-- An opaque glyph ends the run that is open. -/
theorem spansFrom_of_not_code {g : Glyph} (h : g.code = false) (pos : Nat) (since : Option Nat)
    (gs : List Glyph) :
    spansFrom pos since (g :: gs) =
      (since.map (⟨·, pos⟩)).toList ++ spansFrom (pos + g.size) none gs := by
  rw [spansFrom, h]
  rfl

/-- An opaque glyph cuts the spans in two. -/
theorem spansFrom_append_of_not_code {gs hs : List Glyph} (h : ∀ g ∈ hs.head?, g.code = false)
    (pos : Nat) (since : Option Nat) :
    spansFrom pos since (gs ++ hs) =
      spansFrom pos since gs ++ spansFrom (pos + byteSize (gs.map Glyph.char)) none hs := by
  induction gs generalizing pos since with
  | nil =>
      cases hs with
      | nil => simp [spansFrom]
      | cons g hs =>
          rw [List.nil_append, spansFrom_of_not_code (h g rfl), spansFrom_of_not_code (h g rfl)]
          rfl
  | cons g gs ih =>
      have hsize : pos + g.size + byteSize (gs.map Glyph.char) =
          pos + byteSize ((g :: gs).map Glyph.char) := by
        rw [List.map_cons, byteSize, Glyph.size, Nat.add_assoc]
      rw [List.cons_append, ← hsize]
      cases hcode : g.code with
      | true => rw [spansFrom_of_code hcode, spansFrom_of_code hcode, ih]
      | false =>
          rw [spansFrom_of_not_code hcode, spansFrom_of_not_code hcode, ih, List.append_assoc]

/-- No span begins in opaque glyphs. -/
theorem spansFrom_none_append {gs : List Glyph} (h : ∀ g ∈ gs, g.code = false) (pos : Nat)
    (hs : List Glyph) :
    spansFrom pos none (gs ++ hs) = spansFrom (pos + byteSize (gs.map Glyph.char)) none hs := by
  induction gs generalizing pos with
  | nil => rfl
  | cons g gs ih =>
      rw [List.cons_append, spansFrom_of_not_code (h g (by simp)),
        ih fun k hk => h k (by simp [hk])]
      simp [byteSize, Glyph.size, Nat.add_assoc]

theorem since_getD_le {pos : Nat} {since : Option Nat} (h : ∀ s ∈ since, s ≤ pos) :
    since.getD pos ≤ pos := by
  cases since with
  | none => exact Nat.le_refl pos
  | some s => exact h s rfl

/-- A byte lies in a span just if it is code or belongs to the run that was open. -/
theorem exists_mem_spansFrom_iff {pos : Nat} {since : Option Nat} {gs : List Glyph}
    (hsince : ∀ s ∈ since, s ≤ pos) (i : Nat) :
    (∃ span ∈ spansFrom pos since gs, span.Covers i) ↔
      (since.getD pos ≤ i ∧ i < pos) ∨ (pos ≤ i ∧ (verdicts gs)[i - pos]? = some true) := by
  induction gs generalizing pos since with
  | nil =>
      cases since with
      | none => simp [spansFrom]
      | some s => simp [spansFrom, Span.Covers]
  | cons g gs ih =>
      have hsize := g.size_pos
      have hstart := since_getD_le hsince
      have hverdict (h : pos ≤ i) : (verdicts (g :: gs))[i - pos]? =
          if i < pos + g.size then some g.code else (verdicts gs)[i - (pos + g.size)]? :=
        getElem?_verdicts_cons h
      cases hcode : g.code with
      | true =>
          have hopen : ∀ s ∈ some (since.getD pos), s ≤ pos + g.size := by
            rintro s ⟨⟩
            omega
          rw [spansFrom_of_code hcode, ih hopen, Option.getD_some]
          grind
      | false =>
          have hopen : ∀ s ∈ (none : Option Nat), s ≤ pos + g.size := by simp
          have hspans : (∃ span ∈ spansFrom pos since (g :: gs), span.Covers i) ↔
              (since.getD pos ≤ i ∧ i < pos) ∨
                ∃ span ∈ spansFrom (pos + g.size) none gs, span.Covers i := by
            rw [spansFrom_of_not_code hcode]
            cases since with
            | none =>
                rw [Option.getD_none, or_iff_right (by omega)]
                rfl
            | some s => simp [Span.Covers]
          rw [hspans, ih hopen, Option.getD_none]
          grind

/-- The last glyph of a text is code just if its first byte lies in a span. -/
theorem exists_span_last_iff (gs : List Glyph) (g : Glyph) :
    (∃ span ∈ spansFrom 0 none (gs ++ [g]), span.Covers (byteSize (gs.map Glyph.char))) ↔
      g.code = true := by
  have hlast : (verdicts (gs ++ [g]))[byteSize (gs.map Glyph.char)]? = some g.code := by
    rw [verdicts_append, ← length_verdicts, List.getElem?_append_right (Nat.le_refl _),
      Nat.sub_self, verdicts_cons, verdicts_nil, List.append_nil, List.getElem?_replicate,
      if_pos g.size_pos]
  rw [exists_mem_spansFrom_iff (by simp), Nat.sub_zero, hlast]
  simp

/-- The spans lie behind the start of the open run, none is empty, and they begin
and end at the edges of characters. -/
theorem edges_of_mem_spansFrom {pos : Nat} {since : Option Nat} {gs : List Glyph}
    (hsince : ∀ s ∈ since, s < pos) {span : Span} (h : span ∈ spansFrom pos since gs) :
    since.getD pos ≤ span.start ∧ span.start < span.stop ∧
      span.start ∈ since.toList ++ edges pos gs ∧ span.stop ∈ edges pos gs := by
  induction gs generalizing pos since with
  | nil =>
      cases since with
      | none => simp [spansFrom] at h
      | some s =>
          obtain rfl : span = ⟨s, pos⟩ := by simpa [spansFrom] using h
          have hs : s < pos := hsince s rfl
          simp [edges, hs]
  | cons g gs ih =>
      have hsize := g.size_pos
      have hstart := since_getD_le fun s hs => Nat.le_of_lt (hsince s hs)
      cases hcode : g.code with
      | true =>
          rw [spansFrom_of_code hcode] at h
          have hopen : ∀ s ∈ some (since.getD pos), s < pos + g.size := by
            rintro s ⟨⟩
            omega
          obtain ⟨hbegin, hlt, hedge, hend⟩ := ih hopen h
          refine ⟨hbegin, hlt, ?_, List.mem_cons_of_mem _ hend⟩
          -- a run that begins here begins at the edge before the glyph
          cases since with
          | none => simpa [edges] using hedge
          | some s =>
              have hcases : span.start = s ∨ span.start ∈ edges (pos + g.size) gs := by
                simpa using hedge
              rcases hcases with hs | hs <;> simp [edges, hs]
      | false =>
          rw [spansFrom_of_not_code hcode, List.mem_append] at h
          rcases h with hclosed | hrest
          · obtain ⟨s, rfl, rfl⟩ : ∃ s, since = some s ∧ span = ⟨s, pos⟩ := by
              cases since with
              | none => simp at hclosed
              | some s => exact ⟨s, rfl, by simpa using hclosed⟩
            have hs : s < pos := hsince s rfl
            simp [edges, hs]
          · have hopen : ∀ s ∈ (none : Option Nat), s < pos + g.size := by simp
            obtain ⟨hbegin, hlt, hedge, hend⟩ := ih hopen hrest
            rw [Option.getD_none] at hbegin
            refine ⟨by omega, hlt, ?_, List.mem_cons_of_mem _ hend⟩
            exact List.mem_append_right _ (List.mem_cons_of_mem _ hedge)

/-- Two spans have an opaque byte between them. The bytes in front of the glyphs are
given by what was found of them. -/
theorem pairwise_spansFrom {front : List Bool} {since : Option Nat} {gs : List Glyph}
    (hsince : ∀ s ∈ since, s < front.length) :
    (spansFrom front.length since gs).Pairwise fun a b =>
      ∃ i, a.stop ≤ i ∧ i < b.start ∧ (front ++ verdicts gs)[i]? = some false := by
  induction gs generalizing front since with
  | nil => cases since <;> simp [spansFrom]
  | cons g gs ih =>
      have hsize := g.size_pos
      have hlength : (front ++ List.replicate g.size g.code).length = front.length + g.size := by
        simp
      have hstart := since_getD_le fun s hs => Nat.le_of_lt (hsince s hs)
      rw [verdicts_cons, ← List.append_assoc]
      cases hcode : g.code with
      | true =>
          have hopen : ∀ s ∈ some (since.getD front.length),
              s < (front ++ List.replicate g.size g.code).length := by
            rintro s ⟨⟩
            omega
          rw [spansFrom_of_code hcode, ← hlength, ← hcode]
          exact ih hopen
      | false =>
          have hopen : ∀ s ∈ (none : Option Nat),
              s < (front ++ List.replicate g.size g.code).length := by simp
          have hrest := ih hopen
          rw [hlength, hcode] at hrest
          rw [spansFrom_of_not_code hcode, List.pairwise_append]
          refine ⟨by cases since <;> simp, hrest, fun a ha b hb => ?_⟩
          -- the run ends at the first byte of the glyph, and later ones begin behind it
          have hend : a.stop = front.length := by
            cases since with
            | none => simp at ha
            | some s =>
                obtain rfl : a = ⟨s, front.length⟩ := by simpa using ha
                rfl
          have hbegin := (edges_of_mem_spansFrom (by simp) hb).1
          rw [Option.getD_none] at hbegin
          refine ⟨front.length, by omega, by omega, ?_⟩
          rw [List.append_assoc, List.getElem?_append_right (Nat.le_refl _), Nat.sub_self,
            List.getElem?_append_left (by simpa using hsize), List.getElem?_replicate,
            if_pos hsize]

end BoundSql.Lexical
