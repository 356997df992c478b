import CreateTable.Proofs.Text.Slice
import CreateTable.Proofs.Token.Lexer
import Mathlib.Data.Prod.Lex

/-!
# The order of the places in a text

Byte offsets and locations name the same places: each border between two characters has one
location, which leads back to its byte offset, and further on in the text both grow. Locations are
ordered by their lines first and by their columns on one line. So the tokens of a text stand at
ascending byte offsets.

## Main definitions

* `Text.Location.key`: the line and the column in lexicographic order.

## Main statements

* `Text.getElem?_lineStarts_le_iff`: the lines up to a place are the first ones.
* `Text.Location.key_lt_afterAll`: the location behind some characters is a greater one.
* `key_ofOffset_lt`: the location of a later byte offset is a greater one.
* `offset_lt_of_mem`: a later token stands at a greater byte offset.
* `locations_agree_with_offsets`: the places of a text and of its tokens.
-/

namespace CreateTable

namespace Text

/-- The lines that start up to a place of a text are the first lines of it, so that the last one of
them can be found by bisection. -/
theorem getElem?_lineStarts_le_iff {before after : List Char} {i n : Nat}
    (h : (lineStarts (before ++ after))[i]? = some n) :
    n ≤ byteLength before ↔ i < (lineStarts (before ++ after)).countP (· ≤ byteLength before) := by
  rw [countP_lineStarts]
  rw [lineStarts_append] at h
  rcases Nat.lt_or_ge i (lineStarts before).length with hi | hi
  · rw [List.getElem?_append_left hi] at h
    refine iff_of_true ?_ hi
    rcases List.mem_cons.1 (List.mem_of_getElem? h) with rfl | hmem
    · exact Nat.zero_le _
    · have hbounds := mem_lineStartsFrom_bounds hmem
      omega
  · rw [List.getElem?_append_right hi] at h
    have hbounds := mem_lineStartsFrom_bounds (List.mem_of_getElem? h)
    omega

namespace Location

/-- Line and column in lexicographic order. -/
def key (l : Location) : ℕ ×ₗ ℕ :=
  toLex (l.line, l.column)

/-- A location is smaller on an earlier line, or further left on the same line. -/
theorem key_lt_iff {l m : Location} :
    l.key < m.key ↔ l.line < m.line ∨ l.line = m.line ∧ l.column < m.column :=
  Prod.Lex.toLex_lt_toLex

/-- A character leads to a later line or to a later column. -/
theorem key_lt_after (l : Location) (c : Char) : l.key < (l.after c).key := by
  rw [key_lt_iff, after]
  split
  · exact .inl (Nat.lt_succ_self _)
  · exact .inr ⟨rfl, Nat.lt_succ_self _⟩

/-- No characters lead back to a smaller location. -/
theorem key_le_afterAll (l : Location) (cs : List Char) : l.key ≤ (l.afterAll cs).key := by
  induction cs generalizing l with
  | nil => exact le_rfl
  | cons c cs ih => exact (key_lt_after l c).le.trans (ih (l.after c))

/-- The location behind at least one character is a greater one. -/
theorem key_lt_afterAll (l : Location) {cs : List Char} (h : cs ≠ []) :
    l.key < (l.afterAll cs).key := by
  obtain ⟨c, cs, rfl⟩ := List.exists_cons_of_ne_nil h
  exact (key_lt_after l c).trans_le (key_le_afterAll (l.after c) cs)

end Location

/-- Of two borders of a text the later one has the former one before it, with at least one character
between them. -/
theorem exists_between {cs : List Char} {m n : Nat} (hm : IsBorder cs m) (hn : IsBorder cs n)
    (hlt : m < n) : ∃ before between after, cs = before ++ between ++ after ∧ between ≠ [] ∧
      byteLength before = m ∧ byteLength (before ++ between) = n := by
  obtain ⟨p, q, hp, rfl⟩ := hm
  obtain ⟨p', q', hp', rfl⟩ := hn
  obtain ⟨between, rfl, rfl⟩ | ⟨between, rfl, rfl⟩ :=
    List.append_eq_append_iff.1 (hp.symm.trans hp')
  · refine ⟨p, between, q', hp', ?_, rfl, rfl⟩
    rintro rfl
    simp at hlt
  · rw [byteLength_append] at hlt
    omega

end Text

open Text

/-- The token that a last part of the tokens of a text begins with stands at the end of a part of
the text, and the tokens of the rest are that last part. -/
theorem exists_place_of_suffix {text : String} {t : Token} {ts : List Token}
    (h : t :: ts <:+ (lex text).tokens) :
    ∃ before after, text.toList = before ++ after ∧ t.start = .afterAll .start before ∧
      (lexFrom t.start after).tokens = t :: ts := by
  obtain ⟨before, after, htext, hlex⟩ := exists_cut_of_suffix h
  have htokens := congrArg Lexed.tokens hlex
  have hstart := start_eq_of_lexFrom htokens
  exact ⟨before, after, htext, hstart, by rw [hstart, htokens]⟩

/-- Behind a token every token stands at a greater byte offset. -/
theorem offset_lt_of_mem {text : String} {t u : Token} {ts : List Token}
    (h : t :: ts <:+ (lex text).tokens) (hu : u ∈ ts) :
    t.start.offset text.toList < u.start.offset text.toList := by
  obtain ⟨before, after, htext, ht, hafter⟩ := exists_place_of_suffix h
  obtain ⟨us, vs, rfl⟩ := List.append_of_mem hu
  -- the second token is cut off from the text that the first one begins
  have hsuffix : u :: vs <:+ (lexFrom t.start after).tokens := by
    rw [hafter]
    exact ⟨t :: us, rfl⟩
  obtain ⟨between, rest, rfl, hlex⟩ := exists_cut_of_suffix hsuffix
  have hstart := start_eq_of_lexFrom (congrArg Lexed.tokens hlex)
  have hpos : 0 < byteLength between := by
    cases between with
    | nil =>
        -- there would be as many tokens from the second one on as from the first one on
        have hlength := congrArg List.length ((congrArg Lexed.tokens hlex).symm.trans hafter)
        simp only [List.length_cons, List.length_append] at hlength
        omega
    | cons c between => exact Nat.add_pos_left c.utf8Size_pos _
  rw [hstart, ht, ← Location.afterAll_append, htext, Location.offset_afterAll,
    ← List.append_assoc, Location.offset_afterAll, byteLength_append]
  omega

/-- The tokens of a text stand at ascending byte offsets. -/
theorem pairwise_offset_lt {text : String} {ts : List Token} (h : ts <:+ (lex text).tokens) :
    ts.Pairwise fun t u => t.start.offset text.toList < u.start.offset text.toList := by
  induction ts with
  | nil => exact .nil
  | cons t ts ih => exact .cons (fun u => offset_lt_of_mem h) (ih ((List.suffix_cons t ts).trans h))

/-- The starts of lines up to a border are those of the lines up to the one of its location. -/
theorem le_iff_lt_line {before after : List Char} {i n : Nat}
    (h : (lineStarts (before ++ after))[i]? = some n) :
    n ≤ byteLength before ↔ i < (Location.afterAll .start before).line := by
  obtain ⟨_, _, -, -, hlocation⟩ := Location.exists_line before
  rw [getElem?_lineStarts_le_iff h, countP_lineStarts, hlocation]

/-- The location of a later border is a greater one. -/
theorem key_ofOffset_lt {cs : List Char} {m n : Nat} (hm : IsBorder cs m) (hn : IsBorder cs n)
    (hlt : m < n) : (Location.ofOffset cs m).key < (Location.ofOffset cs n).key := by
  obtain ⟨before, between, after, rfl, hne, rfl, rfl⟩ := exists_between hm hn hlt
  rw [Location.ofOffset_byteLength, List.append_assoc, Location.ofOffset_byteLength,
    Location.afterAll_append]
  exact Location.key_lt_afterAll _ hne

/-- **Byte offsets and locations are the same places.** Each border of a text has the location that
counting over the characters before it leads to: its line is found among the starts of the lines by
bisection, and the location leads back to the byte offset. Further on in the text locations grow,
and so do the byte offsets of its tokens. -/
theorem locations_agree_with_offsets (text : String) :
    let cs := text.toList
    (IsBorder cs 0 ∧ IsBorder cs (byteLength cs)) ∧
    (∀ o, IsBorder cs o → ∃ before after, cs = before ++ after ∧ byteLength before = o ∧
      let l := Location.afterAll .start before
      l = ⟨1 + before.count '\n', 1 + (before.rtakeWhile (· ≠ '\n')).length⟩ ∧
      (∀ i n, (lineStarts cs)[i]? = some n → (n ≤ o ↔ i < l.line)) ∧
      Location.ofOffset? cs o = some l ∧ l.offset cs = o) ∧
    (∀ o₁ o₂, IsBorder cs o₁ → IsBorder cs o₂ → o₁ < o₂ →
      (Location.ofOffset cs o₁).key < (Location.ofOffset cs o₂).key) ∧
    (lex text).tokens.Pairwise fun t u => t.start.offset cs < u.start.offset cs := by
  intro cs
  refine ⟨⟨⟨[], cs, rfl, rfl⟩, cs, [], by simp, rfl⟩, fun o ho => ?_,
    fun o₁ o₂ => key_ofOffset_lt, pairwise_offset_lt (List.suffix_refl _)⟩
  obtain ⟨before, after, hcs, rfl⟩ := ho
  refine ⟨before, after, hcs, rfl, Location.afterAll_eq before, fun i n hi => ?_, ?_, ?_⟩
  · rw [hcs] at hi
    exact le_iff_lt_line hi
  · rw [hcs, Location.ofOffset?_byteLength]
  · rw [hcs, Location.offset_afterAll]

/-- The offsets before and behind the second of two line feeds. -/
example : Location.ofOffset? "é\n\nx".toList 3 = some ⟨2, 1⟩ ∧
    Location.ofOffset? "é\n\nx".toList 4 = some ⟨3, 1⟩ := by
  decide

end CreateTable
