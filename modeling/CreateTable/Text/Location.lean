/-!
# Places in a text

A text is a list of characters, and a place in it is named in two ways. A byte offset is the
number of bytes that the UTF-8 form of the characters before the place takes; an offset that
falls inside a character, or behind the end, names no place, and the two cuts answer `none`
there. A location is a line and a column, both counted from one. Only a line feed starts a new
line; a carriage return, a tab and a character of several bytes each take one column.

The module counts locations while a text is read and turns a location into a byte offset and
back. Both ways go over the list of the byte offsets at which the lines start.

## Main definitions

* `byteLength`: the number of bytes in the UTF-8 form of a text.
* `dropBytes?`, `takeBytes?`: the text from a byte offset on, and the text before it.
* `Location.after`, `Location.afterAll`: the location behind a character, behind a text.
* `lineStarts`: the byte offsets at which the lines of a text start.
* `Location.offset?`: the byte offset of a location.
* `Location.ofOffset?`: the location of a byte offset.

## Main statements

* `dropBytes?_append`, `takeBytes?_append`: at the border of two parts the cuts give the parts.
* `takeBytes?_eq_some_iff`: these are all the cuts there are.
-/

namespace CreateTable.Text

/-! ### Byte offsets -/

/-- The number of bytes in the UTF-8 form of a text. -/
def byteLength : List Char → Nat
  | [] => 0
  | c :: cs => c.utf8Size + byteLength cs

/-- The text from byte offset `n` on, or `none` when `n` lies inside a character or behind the
end. -/
def dropBytes? : Nat → List Char → Option (List Char)
  | 0, cs => some cs
  | _ + 1, [] => none
  | n + 1, c :: cs => if c.utf8Size ≤ n + 1 then dropBytes? (n + 1 - c.utf8Size) cs else none

/-- The text before byte offset `n`, or `none` when `n` lies inside a character or behind the
end. -/
def takeBytes? : Nat → List Char → Option (List Char)
  | 0, _ => some []
  | _ + 1, [] => none
  | n + 1, c :: cs =>
    if c.utf8Size ≤ n + 1 then (takeBytes? (n + 1 - c.utf8Size) cs).map (c :: ·) else none

/-- The bytes of two parts add up. -/
@[simp]
theorem byteLength_append (as bs : List Char) :
    byteLength (as ++ bs) = byteLength as + byteLength bs := by
  induction as with
  | nil => simp [byteLength]
  | cons c cs ih => simp [byteLength, ih, Nat.add_assoc]

/-- Behind the bytes of the first part stands the second one. -/
@[simp]
theorem dropBytes?_append (as bs : List Char) :
    dropBytes? (byteLength as) (as ++ bs) = some bs := by
  induction as with
  | nil => simp [byteLength, dropBytes?]
  | cons c cs ih =>
    obtain ⟨n, hn⟩ := Nat.exists_eq_add_of_lt (Char.utf8Size_pos c)
    have hlen : byteLength (c :: cs) = (n + byteLength cs) + 1 := by
      simp only [byteLength]; omega
    rw [hlen, List.cons_append, dropBytes?, if_pos (by omega),
      show n + byteLength cs + 1 - c.utf8Size = byteLength cs by omega, ih]

/-- In front of the bytes of the second part stands the first one. -/
@[simp]
theorem takeBytes?_append (as bs : List Char) :
    takeBytes? (byteLength as) (as ++ bs) = some as := by
  induction as with
  | nil => simp [byteLength, takeBytes?]
  | cons c cs ih =>
    obtain ⟨n, hn⟩ := Nat.exists_eq_add_of_lt (Char.utf8Size_pos c)
    have hlen : byteLength (c :: cs) = (n + byteLength cs) + 1 := by
      simp only [byteLength]; omega
    rw [hlen, List.cons_append, takeBytes?, if_pos (by omega),
      show n + byteLength cs + 1 - c.utf8Size = byteLength cs by omega, ih, Option.map_some]

/-- A text is cut exactly where a part of it with that many bytes ends. -/
theorem takeBytes?_eq_some_iff {n : Nat} {cs as : List Char} :
    takeBytes? n cs = some as ↔ ∃ bs, cs = as ++ bs ∧ byteLength as = n := by
  constructor
  · intro h
    fun_induction takeBytes? n cs generalizing as with
    | case1 cs =>
      obtain rfl := Option.some.inj h
      exact ⟨cs, rfl, rfl⟩
    | case2 => cases h
    | case3 n c cs hle ih =>
      obtain ⟨ds, hds, rfl⟩ := Option.map_eq_some_iff.1 h
      obtain ⟨bs, rfl, hlength⟩ := ih hds
      refine ⟨bs, rfl, ?_⟩
      rw [byteLength, hlength]
      omega
    | case4 => cases h
  · rintro ⟨bs, rfl, rfl⟩
    exact takeBytes?_append as bs

/-! ### Lines and columns -/

/-- A place in a text as an editor shows it: line and column, both counted from one. -/
structure Location where
  /-- One more than the number of line feeds before the place. -/
  line : Nat
  /-- One more than the number of characters between the place and the start of its line. -/
  column : Nat
deriving DecidableEq, Repr

namespace Location

/-- The location of the first character of a text. -/
def start : Location := ⟨1, 1⟩

/-- The location behind the character `c` that stands at `l`. -/
def after (l : Location) (c : Char) : Location :=
  if c = '\n' then ⟨l.line + 1, 1⟩ else ⟨l.line, l.column + 1⟩

/-- The location behind the text `cs` that starts at `l`. -/
def afterAll (l : Location) (cs : List Char) : Location :=
  cs.foldl after l

end Location

/-- The byte offsets behind the line feeds of a text whose first character has byte offset
`offset`. -/
def lineStartsFrom (offset : Nat) : List Char → List Nat
  | [] => []
  | c :: cs =>
    if c = '\n' then (offset + c.utf8Size) :: lineStartsFrom (offset + c.utf8Size) cs
    else lineStartsFrom (offset + c.utf8Size) cs

/-- The byte offsets at which the lines of a text start: the start of the text, and the place
behind each line feed. -/
def lineStarts (cs : List Char) : List Nat :=
  0 :: lineStartsFrom 0 cs

namespace Location

/-- The byte offset of the character at location `l`: the start of its line plus the bytes of
the characters before it on that line. A location that is no character of the text has none. -/
def offset? (cs : List Char) (l : Location) : Option Nat := do
  let lineStart ← (lineStarts cs)[l.line - 1]?
  let rest ← dropBytes? lineStart cs
  if l.column - 1 < rest.length then
    some (lineStart + byteLength (rest.take (l.column - 1)))
  else
    none

/-- The byte offset of location `l`, where every location that is no character of the text
stands for its end. -/
def offset (cs : List Char) (l : Location) : Nat :=
  (l.offset? cs).getD (byteLength cs)

/-- The location of byte offset `n`: its line is the number of lines that start at or before it,
its column one more than the number of characters from the start of that line. -/
def ofOffset? (cs : List Char) (n : Nat) : Option Location := do
  let line := (lineStarts cs).countP (· ≤ n)
  let lineStart ← (lineStarts cs)[line - 1]?
  let rest ← dropBytes? lineStart cs
  let before ← takeBytes? (n - lineStart) rest
  some ⟨line, before.length + 1⟩

/-- The location of byte offset `n`. An offset inside a character or behind the end has none;
it is given the start of the text. -/
def ofOffset (cs : List Char) (n : Nat) : Location :=
  (ofOffset? cs n).getD start

end Location

end CreateTable.Text
