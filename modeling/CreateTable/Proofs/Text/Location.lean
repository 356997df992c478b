import CreateTable.Text.Location
import Mathlib.Data.List.DropRight

/-!
# The offset of a counted location

Counting lines and columns over the first part of a text leads to the location of the character
behind it. The byte offset of that location is the length of the part, and that byte offset has
no other location.

## Main statements

* `Location.afterAll_eq`: the line and the column of a counted location.
* `Location.exists_line`: the last line of a text, its start and the location behind it.
* `Location.offset_afterAll`, `Location.ofOffset?_byteLength`: the byte offset of a counted
  location, and the way back.
-/

namespace CreateTable.Text

/-- The lines of a text go on where those of its first part end. -/
theorem lineStartsFrom_append (offset : Nat) (p q : List Char) :
    lineStartsFrom offset (p ++ q)
      = lineStartsFrom offset p ++ lineStartsFrom (offset + byteLength p) q := by
  induction p generalizing offset with
  | nil => rfl
  | cons c p ih =>
      simp only [List.cons_append, lineStartsFrom, byteLength, ih, Nat.add_assoc]
      split <;> rfl

/-- A text has the line starts of its first part and then those behind it. -/
theorem lineStarts_append (p q : List Char) :
    lineStarts (p ++ q) = lineStarts p ++ lineStartsFrom (byteLength p) q := by
  rw [lineStarts, lineStarts, lineStartsFrom_append, List.cons_append, Nat.zero_add]

/-- The lines of a text start behind its start and not behind its end. -/
theorem mem_lineStartsFrom_bounds {offset n : Nat} {p : List Char}
    (h : n ∈ lineStartsFrom offset p) : offset < n ∧ n ≤ offset + byteLength p := by
  induction p generalizing offset with
  | nil => simp [lineStartsFrom] at h
  | cons c p ih =>
      have hpos := c.utf8Size_pos
      rw [byteLength]
      rw [lineStartsFrom] at h
      split at h
      · rcases List.mem_cons.1 h with rfl | h
        · omega
        · have hbounds := ih h
          omega
      · have hbounds := ih h
        omega

/-- As many lines start up to the end of the first part of a text as that part has. -/
theorem countP_lineStarts (p q : List Char) :
    (lineStarts (p ++ q)).countP (· ≤ byteLength p) = (lineStarts p).length := by
  rw [lineStarts_append, List.countP_append, List.countP_eq_length.2, List.countP_eq_zero.2,
    Nat.add_zero]
  · intro n hn
    simpa using (mem_lineStartsFrom_bounds hn).1
  · intro n hn
    rcases List.mem_cons.1 hn with rfl | hn
    · simp
    · simpa using (mem_lineStartsFrom_bounds hn).2

/-- The last line start of a text stays where it is when more text follows. -/
theorem getElem?_lineStarts {p : List Char} {n : Nat} (h : (lineStarts p).getLast? = some n)
    (q : List Char) : (lineStarts (p ++ q))[(lineStarts p).length - 1]? = some n := by
  rw [lineStarts_append, List.getElem?_append_left (by simp [lineStarts]),
    ← List.getLast?_eq_getElem?, h]

namespace Location

/-- The location behind two texts is the one behind the second from the one behind the first. -/
theorem afterAll_append (l : Location) (cs ds : List Char) :
    l.afterAll (cs ++ ds) = (l.afterAll cs).afterAll ds :=
  List.foldl_append

/-- The last character of a text leads from the location in front of it. -/
theorem afterAll_concat (l : Location) (cs : List Char) (c : Char) :
    l.afterAll (cs ++ [c]) = (l.afterAll cs).after c :=
  afterAll_append l cs [c]

/-- The last line of a text starts at the last of its line starts, and the location behind the
text is on that line, behind its characters. -/
theorem exists_line (p : List Char) :
    ∃ before line, p = before ++ line ∧ (lineStarts p).getLast? = some (byteLength before) ∧
      start.afterAll p = ⟨(lineStarts p).length, line.length + 1⟩ := by
  induction p using List.reverseRecOn with
  | nil => exact ⟨[], [], rfl, rfl, rfl⟩
  | append_singleton q c ih =>
      -- the last character either ends the line or belongs to it
      obtain ⟨before, line, hq, hstart, hlocation⟩ := ih
      rw [lineStarts_append]
      rw [afterAll_concat, hlocation, lineStartsFrom]
      by_cases hc : c = '\n'
      · refine ⟨q ++ [c], [], by simp, ?_, ?_⟩
        · simp [hc, lineStartsFrom, byteLength]
        · simp [hc, after, lineStartsFrom]
      · refine ⟨before, line ++ [c], by simp [hq], ?_, ?_⟩
        · simpa [hc, lineStartsFrom] using hstart
        · simp [hc, after, lineStartsFrom]

/-- A location counts the line feeds before it and the characters behind the last of them. -/
theorem afterAll_eq (p : List Char) :
    start.afterAll p = ⟨1 + p.count '\n', 1 + (p.rtakeWhile (· ≠ '\n')).length⟩ := by
  induction p using List.reverseRecOn with
  | nil => rfl
  | append_singleton p c ih =>
      rw [afterAll_concat, ih, after, List.rtakeWhile_concat, List.count_append]
      by_cases hc : c = '\n'
      · simp [hc, Nat.add_assoc]
      · simp [hc, Nat.add_assoc]

/-- The byte offset of the location behind the first part of a text. -/
theorem offset_afterAll (p q : List Char) :
    (start.afterAll p).offset (p ++ q) = byteLength p := by
  obtain ⟨before, line, rfl, hstart, hlocation⟩ := exists_line p
  rw [offset, hlocation, offset?]
  simp only [getElem?_lineStarts hstart, Option.bind_eq_bind, Option.bind_some]
  rw [List.append_assoc, dropBytes?_append, Option.bind_some, Nat.add_sub_cancel]
  -- at the end of the text there is no character, and the default is the end
  cases q with
  | nil => simp
  | cons c rest => simp

/-- The byte offset behind the first part of a text has a location, the counted one. -/
theorem ofOffset?_byteLength (p q : List Char) :
    ofOffset? (p ++ q) (byteLength p) = some (start.afterAll p) := by
  obtain ⟨before, line, rfl, hstart, hlocation⟩ := exists_line p
  rw [ofOffset?, countP_lineStarts, hlocation]
  simp only [getElem?_lineStarts hstart, Option.bind_eq_bind, Option.bind_some]
  rw [List.append_assoc, dropBytes?_append, Option.bind_some, byteLength_append,
    Nat.add_sub_cancel_left, takeBytes?_append, Option.bind_some]

/-- The location of the byte offset behind the first part of a text. -/
theorem ofOffset_byteLength (p q : List Char) :
    ofOffset (p ++ q) (byteLength p) = start.afterAll p := by
  rw [ofOffset, ofOffset?_byteLength, Option.getD_some]

end Location

end CreateTable.Text
