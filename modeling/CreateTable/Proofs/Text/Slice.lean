import CreateTable.Proofs.Text.Location

/-!
# Slices of a text

A slice of a text is taken between two byte offsets. It fails when one of them lies inside a
character or behind the end, or when the first one lies behind the second one. Offsets and
locations are turned into each other by way of such slices; here the slices are written out, and
none of them fails: the lines of a text start at borders of characters, the offset of a location is
such a border, and the line of such an offset starts at or before it.

## Main definitions

* `IsBorder`: the byte offsets between two characters, and at both ends.
* `slice?`: the text between two byte offsets.
* `firstOffset?`, `lastOffset?`: the byte offsets of a character.
* `Location.offsetBySlices?`, `Location.ofOffsetBySlices?`: the offset of a location and the
  location of an offset, with `none` where a slice, an index or a subtraction fails.

## Main statements

* `dropBytes?_isSome_iff`: a text is cut at its borders.
* `Location.offsetBySlices?_eq`, `Location.isBorder_offset`: a location has an offset, which is a
  border.
* `Location.ofOffsetBySlices?_eq`: a border has a location.
-/

namespace CreateTable.Text

/-- The byte offset `n` is a **border** of the text: it lies between two characters or at an
end. -/
def IsBorder (cs : List Char) (n : Nat) : Prop :=
  ∃ before after, cs = before ++ after ∧ byteLength before = n

/-- A text is cut where a part of it with that many bytes ends. -/
theorem dropBytes?_eq_some_iff {n : Nat} {cs after : List Char} :
    dropBytes? n cs = some after ↔ ∃ before, cs = before ++ after ∧ byteLength before = n := by
  constructor
  · intro h
    fun_induction dropBytes? n cs with
    | case1 cs =>
        obtain rfl := Option.some.inj h
        exact ⟨[], rfl, rfl⟩
    | case2 => cases h
    | case3 n c cs hle ih =>
        obtain ⟨before, rfl, hlength⟩ := ih h
        refine ⟨c :: before, rfl, ?_⟩
        rw [byteLength, hlength]
        omega
    | case4 => cases h
  · rintro ⟨before, rfl, rfl⟩
    exact dropBytes?_append before after

/-- A text is cut exactly at its borders. -/
theorem dropBytes?_isSome_iff {n : Nat} {cs : List Char} :
    (dropBytes? n cs).isSome = true ↔ IsBorder cs n := by
  simp only [Option.isSome_iff_exists, dropBytes?_eq_some_iff, IsBorder]
  exact exists_comm

/-- A text is cut behind a character of one byte. -/
theorem dropBytes?_append_cons {c : Char} (hc : c.utf8Size = 1) (before after : List Char) :
    dropBytes? (byteLength before + 1) (before ++ c :: after) = some after := by
  refine dropBytes?_eq_some_iff.2 ⟨before ++ [c], by simp, ?_⟩
  rw [byteLength_append, byteLength, hc]
  rfl

/-- The text between the byte offsets `start` and `stop`. -/
def slice? (start stop : Nat) (cs : List Char) : Option (List Char) :=
  if start ≤ stop then (dropBytes? start cs).bind (takeBytes? (stop - start)) else none

/-- The slice between two parts of a text is what stands between them. -/
theorem slice?_append (before line after : List Char) :
    slice? (byteLength before) (byteLength (before ++ line)) (before ++ line ++ after)
      = some line := by
  rw [slice?, if_pos (by simp), List.append_assoc, dropBytes?_append, Option.bind_some,
    byteLength_append, Nat.add_sub_cancel_left, takeBytes?_append]

/-! ### Characters -/

/-- The byte offset of the first character `c` of a text. -/
def firstOffset? (c : Char) : List Char → Option Nat
  | [] => none
  | d :: cs => if d = c then some 0 else (firstOffset? c cs).map (· + d.utf8Size)

/-- The byte offset of the last character `c` of a text. -/
def lastOffset? (c : Char) : List Char → Option Nat
  | [] => none
  | d :: cs =>
    match lastOffset? c cs with
    | some n => some (n + d.utf8Size)
    | none => if d = c then some 0 else none

section

variable {c : Char} {cs : List Char}

/-- A character that is not there has no first offset. -/
theorem firstOffset?_eq_none (h : c ∉ cs) : firstOffset? c cs = none := by
  induction cs with
  | nil => rfl
  | cons d cs ih =>
      rw [List.mem_cons, not_or] at h
      rw [firstOffset?, if_neg (Ne.symm h.1), ih h.2, Option.map_none]

/-- The first offset of a character is the length of the text in front of it. -/
theorem firstOffset?_append_cons {p : List Char} (h : c ∉ p) (rest : List Char) :
    firstOffset? c (p ++ c :: rest) = some (byteLength p) := by
  induction p with
  | nil => exact if_pos rfl
  | cons d p ih =>
      rw [List.mem_cons, not_or] at h
      rw [List.cons_append, firstOffset?, if_neg (Ne.symm h.1), ih h.2, Option.map_some, byteLength,
        Nat.add_comm]

/-- A character has no last offset exactly if it is not there. -/
theorem lastOffset?_eq_none_iff : lastOffset? c cs = none ↔ c ∉ cs := by
  induction cs with
  | nil => simp [lastOffset?]
  | cons d cs ih =>
      rw [lastOffset?, List.mem_cons, not_or, ← ih]
      cases lastOffset? c cs with
      | none => simp [eq_comm]
      | some n => simp

/-- The last character stands before the end of the text. -/
theorem lt_byteLength_of_lastOffset? {n : Nat} (h : lastOffset? c cs = some n) :
    n < byteLength cs := by
  induction cs generalizing n with
  | nil => cases h
  | cons d cs ih =>
      rw [byteLength]
      rw [lastOffset?] at h
      split at h
      · next m hm =>
        obtain rfl := Option.some.inj h
        have hlt := ih hm
        omega
      · obtain ⟨-, hn⟩ := Option.ite_none_right_eq_some.1 h
        obtain rfl := Option.some.inj hn
        have hpos := d.utf8Size_pos
        omega

/-- Where another character is first, the last one is not at the start. -/
theorem pos_of_lastOffset? {n : Nat} (h : lastOffset? c cs = some n) (hcs : cs.head? ≠ some c) :
    0 < n := by
  cases cs with
  | nil => cases h
  | cons d cs =>
      rw [lastOffset?] at h
      split at h
      · obtain rfl := Option.some.inj h
        exact Nat.add_pos_right _ d.utf8Size_pos
      · obtain ⟨rfl, -⟩ := Option.ite_none_right_eq_some.1 h
        exact absurd rfl hcs

/-- The last character is sought in the last part first. -/
theorem lastOffset?_append (p q : List Char) :
    lastOffset? c (p ++ q) = ((lastOffset? c q).map (byteLength p + ·)).or (lastOffset? c p) := by
  induction p with
  | nil => simp [lastOffset?, byteLength]
  | cons d p ih =>
      rw [List.cons_append, lastOffset?, ih]
      cases lastOffset? c q with
      | none => simp [lastOffset?]
      | some n => simp [byteLength, Nat.add_comm, Nat.add_left_comm]

/-- The last character stands behind a place exactly if the text behind it has one; at the place
itself stands another character. -/
theorem any_lastOffset?_append (p q : List Char) (hq : q.head? ≠ some c) :
    (lastOffset? c (p ++ q)).any (byteLength p < ·) = q.contains c := by
  rw [lastOffset?_append]
  cases hlast : lastOffset? c q with
  | none =>
      have hmem := lastOffset?_eq_none_iff.1 hlast
      have hbefore : ∀ n, lastOffset? c p = some n → ¬ byteLength p < n :=
        fun n hn => Nat.not_lt.2 (Nat.le_of_lt (lt_byteLength_of_lastOffset? hn))
      cases hp : lastOffset? c p with
      | none => simp [hmem]
      | some n => simp [hmem, hbefore n hp]
  | some n =>
      have hmem : c ∈ q := by
        by_contra hnot
        rw [lastOffset?_eq_none_iff.2 hnot] at hlast
        cases hlast
      simp [hmem, pos_of_lastOffset? hlast hq]

end

/-! ### Lines -/

/-- The lines of a text start at borders. -/
theorem isBorder_of_mem_lineStarts {cs : List Char} {n : Nat} (h : n ∈ lineStarts cs) :
    IsBorder cs n := by
  induction cs using List.reverseRecOn with
  | nil =>
      obtain rfl : n = 0 := by simpa [lineStarts, lineStartsFrom] using h
      exact ⟨[], [], rfl, rfl⟩
  | append_singleton cs c ih =>
      rw [lineStarts_append, List.mem_append] at h
      rcases h with h | h
      · obtain ⟨before, after, hcs, hn⟩ := ih h
        exact ⟨before, after ++ [c], by rw [hcs, List.append_assoc], hn⟩
      · -- behind the last character only one line can start
        have hn : n = byteLength (cs ++ [c]) := by
          rw [byteLength_append]
          simp only [lineStartsFrom] at h
          split at h
          · simpa [byteLength] using h
          · cases h
        exact ⟨cs ++ [c], [], (List.append_nil _).symm, hn.symm⟩

namespace Location

/-- The byte offset of the location `l`, or `none` where the slice from the start of its line
fails. -/
def offsetBySlices? (cs : List Char) (l : Location) : Option Nat :=
  match (lineStarts cs)[l.line - 1]? with
  | none => some (byteLength cs)
  | some lineStart => do
    let rest ← dropBytes? lineStart cs
    some (if l.column - 1 < rest.length then lineStart + byteLength (rest.take (l.column - 1))
      else byteLength cs)

/-- The location of the byte offset `n`, or `none` where there is no line before it or the slice
from the start of the line fails. -/
def ofOffsetBySlices? (cs : List Char) (n : Nat) : Option Location :=
  let line := (lineStarts cs).countP (· ≤ n)
  if line = 0 then none
  else do
    let lineStart ← (lineStarts cs)[line - 1]?
    let before ← slice? lineStart n cs
    some ⟨line, before.length + 1⟩

/-- The offset of a location is found without a failure. -/
theorem offsetBySlices?_eq (cs : List Char) (l : Location) :
    l.offsetBySlices? cs = some (l.offset cs) := by
  rw [offsetBySlices?, offset, offset?]
  cases hline : (lineStarts cs)[l.line - 1]? with
  | none => rfl
  | some lineStart =>
      have hborder := isBorder_of_mem_lineStarts (List.mem_of_getElem? hline)
      obtain ⟨rest, hrest⟩ := Option.isSome_iff_exists.1 (dropBytes?_isSome_iff.2 hborder)
      simp only [hrest, Option.bind_eq_bind, Option.bind_some]
      split <;> rfl

/-- The offset of a location is a border, whatever the location. -/
theorem isBorder_offset (cs : List Char) (l : Location) : IsBorder cs (l.offset cs) := by
  have hend : IsBorder cs (byteLength cs) := ⟨cs, [], (List.append_nil cs).symm, rfl⟩
  have hoffset := offsetBySlices?_eq cs l
  rw [offsetBySlices?] at hoffset
  split at hoffset
  · rwa [← Option.some.inj hoffset]
  · next lineStart _ =>
    obtain ⟨rest, hrest, heq⟩ := Option.bind_eq_some_iff.1 hoffset
    obtain ⟨before, rfl, rfl⟩ := dropBytes?_eq_some_iff.1 hrest
    rw [← Option.some.inj heq]
    split
    · refine ⟨before ++ rest.take (l.column - 1), rest.drop (l.column - 1), ?_,
        byteLength_append _ _⟩
      rw [List.append_assoc, List.take_append_drop]
    · exact hend

/-- The location of a border is found without a failure. -/
theorem ofOffsetBySlices?_eq {cs : List Char} {n : Nat} (h : IsBorder cs n) :
    ofOffsetBySlices? cs n = some (ofOffset cs n) := by
  obtain ⟨p, q, rfl, rfl⟩ := h
  obtain ⟨before, line, hp, hstart, hlocation⟩ := exists_line p
  have hpos : (lineStarts p).length ≠ 0 := by simp [lineStarts]
  rw [ofOffset_byteLength, hlocation, ofOffsetBySlices?]
  simp only [countP_lineStarts, if_neg hpos, getElem?_lineStarts hstart, Option.bind_eq_bind,
    Option.bind_some]
  subst hp
  rw [slice?_append, Option.bind_some]

end Location

end CreateTable.Text
