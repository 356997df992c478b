import CreateTable.Proofs.Text.Search
import CreateTable.Proofs.Text.Slice
import Mathlib.Order.Bounds.Basic

/-!
# Words among the bytes of a text

A word can be searched among the bytes of the UTF-8 form of a text, where letter case is folded
byte by byte and a match could start inside a character. It never does. Folding the bytes of a text
is folding its characters, and a byte that a character begins with stands nowhere else in the bytes
of a character. So the last match among the bytes is the last occurrence among the characters.

A word occurs at a byte offset of a text where as many bytes as the word has are those of the word,
up to the case of ASCII letters. This says nothing of characters: an occurrence is a window of
bytes, and the windows of two occurrences can overlap. The search for the last occurrence finds the
greatest of these byte offsets, for every word and every text, and its window starts and ends
between two characters.

## Main definitions

* `utf8Bytes`: the bytes of a text.
* `lastWindow?`: the last place among bytes at which given bytes stand, up to letter case.
* `OccursAt`: the byte offsets at which a word occurs.

## Main statements

* `map_lowerByte_utf8Bytes`: folding the bytes of a text folds its characters.
* `utf8Bytes_prefix_iff`: bytes begin with those of another text exactly if their text begins with
  it.
* `startsWithBytes_utf8Bytes`: bytes begin with a word exactly if their text does.
* `lastWindow?_utf8Bytes`: the search among bytes and the search among characters agree.
* `lastWindow?_eq_none_iff`, `lastWindow?_eq_some_iff`: what the search among bytes finds.
* `isBorder_of_lastIndex?`: an occurrence is a part of the text.
* `last_occurrence_among_bytes`: what the search for a word finds, by the bytes of the text.
-/

namespace CreateTable.Text

/-- The bytes of the UTF-8 form of a text. -/
def utf8Bytes (cs : List Char) : List UInt8 :=
  cs.flatMap String.utf8EncodeChar

/-- The byte of a letter in lower case, every other byte as it is. -/
def lowerByte (b : UInt8) : UInt8 :=
  if 65 ≤ b && b ≤ 90 then b + 32 else b

/-- The bytes `bs` begin with `word`, up to the case of letters. -/
def startsWithBytes (word bs : List UInt8) : Bool :=
  (bs.take word.length).map lowerByte == word.map lowerByte

/-- The last place among `bs` at which `word` begins, up to the case of letters. The empty word has
no place. -/
def lastWindow? (word : List UInt8) : List UInt8 → Option Nat
  | [] => none
  | b :: bs =>
    match lastWindow? word bs with
    | some n => some (n + 1)
    | none => if !word.isEmpty && startsWithBytes word (b :: bs) then some 0 else none

/-! ### The bytes of a character -/

section

variable {c : Char} {b : UInt8}

/-- The UTF-8 form of an ASCII character is one byte. -/
theorem utf8EncodeChar_of_ascii (h : c.toNat < 0x80) :
    String.utf8EncodeChar c = [UInt8.ofNat c.toNat] := by
  have hc : c.val.toNat ≤ 127 := by
    change c.toNat ≤ 127
    omega
  rw [String.utf8EncodeChar]
  exact if_pos hc

/-- Every byte of a character beyond ASCII is beyond ASCII. -/
theorem le_of_mem_utf8EncodeChar (h : 0x80 ≤ c.toNat) :
    ∀ b ∈ String.utf8EncodeChar c, 0x80 ≤ b.toNat := by
  have hc : ¬ c.val.toNat ≤ 127 := by
    change ¬ c.toNat ≤ 127
    omega
  have hbyte (n : Nat) (hlow : 0x80 ≤ n) (hhigh : n < 0x100) : 0x80 ≤ (UInt8.ofNat n).toNat := by
    rwa [UInt8.toNat_ofNat_of_lt' hhigh]
  rw [String.utf8EncodeChar]
  simp only [if_neg hc]
  split
  · simp only [List.forall_mem_cons]
    exact ⟨hbyte _ (by omega) (by omega), hbyte _ (by omega) (by omega), nofun⟩
  split
  · simp only [List.forall_mem_cons]
    exact ⟨hbyte _ (by omega) (by omega), hbyte _ (by omega) (by omega),
      hbyte _ (by omega) (by omega), nofun⟩
  · simp only [List.forall_mem_cons]
    exact ⟨hbyte _ (by omega) (by omega), hbyte _ (by omega) (by omega),
      hbyte _ (by omega) (by omega), hbyte _ (by omega) (by omega), nofun⟩

/-- The lower case of an ASCII character is an ASCII character. -/
theorem toNat_toLower_lt (h : c.toNat < 0x80) : c.toLower.toNat < 0x80 := by
  have hascii : ∀ n < 0x80, (Char.ofNat n).toLower.toNat < 0x80 := by decide
  have hc := hascii c.toNat h
  rwa [Char.ofNat_toNat] at hc

/-- The lower case of the byte of an ASCII character is the byte of its lower case. -/
theorem lowerByte_of_ascii (h : c.toNat < 0x80) :
    lowerByte (UInt8.ofNat c.toNat) = UInt8.ofNat c.toLower.toNat := by
  have hascii : ∀ n < 0x80,
      lowerByte (UInt8.ofNat n) = UInt8.ofNat (Char.ofNat n).toLower.toNat := by decide
  have hc := hascii c.toNat h
  rwa [Char.ofNat_toNat] at hc

/-- A byte beyond ASCII is no letter. -/
theorem lowerByte_eq_self (h : 0x80 ≤ b.toNat) : lowerByte b = b := by
  have hupper : ¬ b ≤ 90 := by
    rw [UInt8.le_iff_toNat_le]
    change ¬ b.toNat ≤ 90
    omega
  simp [lowerByte, hupper]

/-- Folding the bytes of a character folds the character. -/
theorem map_lowerByte_utf8EncodeChar (c : Char) :
    (String.utf8EncodeChar c).map lowerByte = String.utf8EncodeChar c.toLower := by
  rcases Nat.lt_or_ge c.toNat 0x80 with h | h
  · rw [utf8EncodeChar_of_ascii h, utf8EncodeChar_of_ascii (toNat_toLower_lt h),
      List.map_singleton, lowerByte_of_ascii h]
  · have hself : ∀ b ∈ String.utf8EncodeChar c, lowerByte b = id b :=
      fun b hb => lowerByte_eq_self (le_of_mem_utf8EncodeChar h b hb)
    rw [toLower_eq_self h, List.map_congr_left hself, List.map_id]

/-- A byte that no character begins with is no letter. -/
theorem lowerByte_of_not_isUTF8FirstByte (h : ¬ b.IsUTF8FirstByte) : lowerByte b = b := by
  have hascii : ∀ n < 0x80, (UInt8.ofNat n).IsUTF8FirstByte := by decide
  refine lowerByte_eq_self (Nat.le_of_not_lt fun hlt => h ?_)
  have hb := hascii b.toNat hlt
  rwa [UInt8.ofNat_toNat] at hb

/-- The first byte of a character is one that a character can begin with, and no other is. -/
theorem exists_utf8EncodeChar_eq_cons (c : Char) : ∃ b bs, String.utf8EncodeChar c = b :: bs ∧
    b.IsUTF8FirstByte ∧ ∀ d ∈ bs, ¬ d.IsUTF8FirstByte := by
  obtain ⟨b, bs, hbytes⟩ := List.exists_cons_of_ne_nil (String.utf8EncodeChar_ne_nil (c := c))
  have hfirst : ∀ i (hi : i < (String.utf8EncodeChar c).length),
      (String.utf8EncodeChar c)[i].IsUTF8FirstByte ↔ i = 0 :=
    fun _ _ => UInt8.isUTF8FirstByte_getElem_utf8EncodeChar
  rw [hbytes] at hfirst
  refine ⟨b, bs, hbytes, (hfirst 0 (by simp)).2 rfl, fun d hd h => ?_⟩
  obtain ⟨i, hi, rfl⟩ := List.mem_iff_getElem.1 hd
  exact Nat.succ_ne_zero i ((hfirst (i + 1) (by simpa using hi)).1 h)

end

/-! ### Words -/

/-- The bytes of a text begin with those of its first character. -/
theorem utf8Bytes_cons (c : Char) (cs : List Char) :
    utf8Bytes (c :: cs) = String.utf8EncodeChar c ++ utf8Bytes cs :=
  List.flatMap_cons

/-- Only the empty text has no bytes. -/
theorem utf8Bytes_eq_nil_iff {cs : List Char} : utf8Bytes cs = [] ↔ cs = [] := by
  cases cs with
  | nil => simp [utf8Bytes]
  | cons c cs => simp [utf8Bytes_cons, String.utf8EncodeChar_ne_nil]

/-- A text has as many bytes as its length in bytes says. -/
theorem length_utf8Bytes (cs : List Char) : (utf8Bytes cs).length = byteLength cs := by
  induction cs with
  | nil => rfl
  | cons c cs ih =>
      rw [utf8Bytes_cons, List.length_append, String.length_utf8EncodeChar, ih, byteLength]

/-- The bytes of the characters of a string are the bytes of the string. -/
theorem utf8Bytes_toList (s : String) : utf8Bytes s.toList = s.toUTF8.data.toList := by
  rw [String.toUTF8_eq_toByteArray, ← String.utf8Encode_toList, List.utf8Encode,
    List.toList_data_toByteArray, utf8Bytes]

/-- The length in bytes is the size of the UTF-8 form. -/
theorem byteLength_toList (s : String) : byteLength s.toList = s.utf8ByteSize := by
  rw [← length_utf8Bytes, utf8Bytes_toList, Array.length_toList, String.toUTF8_eq_toByteArray,
    String.utf8ByteSize, ByteArray.size]

/-- Folding the bytes of a text folds its characters. -/
theorem map_lowerByte_utf8Bytes (cs : List Char) :
    (utf8Bytes cs).map lowerByte = utf8Bytes (foldCase cs) := by
  simp only [utf8Bytes, foldCase, List.map_flatMap, List.flatMap_map, map_lowerByte_utf8EncodeChar]

/-- The bytes of a text begin with those of another text exactly if the text begins with it. -/
theorem utf8Bytes_prefix_iff {as bs : List Char} : utf8Bytes as <+: utf8Bytes bs ↔ as <+: bs := by
  constructor
  · rintro ⟨rest, h⟩
    refine List.isPrefix_of_utf8Encode_append_eq_utf8Encode rest.toByteArray ?_
    rw [List.utf8Encode, List.utf8Encode, ← List.toByteArray_append]
    exact congrArg List.toByteArray h
  · rintro ⟨rest, rfl⟩
    exact ⟨utf8Bytes rest, List.flatMap_append.symm⟩

/-- Bytes begin with a word exactly if the word is a prefix, both in lower case. -/
theorem startsWithBytes_iff {word bs : List UInt8} :
    startsWithBytes word bs = true ↔ word.map lowerByte <+: bs.map lowerByte := by
  rw [startsWithBytes, beq_iff_eq, List.prefix_iff_eq_take, List.length_map, ← List.map_take,
    eq_comm]

/-- The bytes of a text begin with a word exactly if the text does. -/
theorem startsWithBytes_utf8Bytes (word cs : List Char) :
    startsWithBytes (utf8Bytes word) (utf8Bytes cs) = startsWithWord word cs := by
  rw [Bool.eq_iff_iff, startsWithBytes_iff, map_lowerByte_utf8Bytes, map_lowerByte_utf8Bytes,
    utf8Bytes_prefix_iff, startsWithWord_iff_prefix]

section

variable {word : List Char}

/-- No word begins with a byte that no character begins with. -/
theorem startsWithBytes_eq_false (hword : word ≠ []) {b : UInt8} (hb : ¬ b.IsUTF8FirstByte)
    (bs : List UInt8) : startsWithBytes (utf8Bytes word) (b :: bs) = false := by
  obtain ⟨d, word, rfl⟩ := List.exists_cons_of_ne_nil hword
  obtain ⟨a, as, hbytes, ha, -⟩ := exists_utf8EncodeChar_eq_cons d.toLower
  rw [← Bool.not_eq_true, startsWithBytes_iff, map_lowerByte_utf8Bytes, foldCase, List.map_cons,
    utf8Bytes_cons, hbytes, List.cons_append, List.map_cons, lowerByte_of_not_isUTF8FirstByte hb,
    List.cons_prefix_cons]
  rintro ⟨rfl, -⟩
  exact hb ha

/-- A search goes over the bytes that no character begins with. -/
theorem lastWindow?_append (hword : word ≠ []) {bs : List UInt8}
    (hbs : ∀ b ∈ bs, ¬ b.IsUTF8FirstByte) (rest : List UInt8) :
    lastWindow? (utf8Bytes word) (bs ++ rest)
      = (lastWindow? (utf8Bytes word) rest).map (· + bs.length) := by
  induction bs with
  | nil => simp
  | cons b bs ih =>
      rw [List.forall_mem_cons] at hbs
      rw [List.cons_append, lastWindow?, ih hbs.2, startsWithBytes_eq_false hword hbs.1]
      cases lastWindow? (utf8Bytes word) rest with
      | none => simp
      | some n => rfl

/-- The empty word has no last place. -/
theorem lastWindow?_nil (bs : List UInt8) : lastWindow? [] bs = none := by
  induction bs with
  | nil => rfl
  | cons b bs ih => simp [lastWindow?, ih]

/-- **Searching bytes finds characters.** The last place of a word among the bytes of a text is its
last place in the text. -/
theorem lastWindow?_utf8Bytes (word cs : List Char) :
    lastWindow? (utf8Bytes word) (utf8Bytes cs) = lastIndex? word cs := by
  by_cases hword : word = []
  · rw [hword, lastIndex?_nil]
    exact lastWindow?_nil _
  have hempty : (utf8Bytes word).isEmpty = word.isEmpty := by
    rw [Bool.eq_iff_iff, List.isEmpty_iff, List.isEmpty_iff, utf8Bytes_eq_nil_iff]
  induction cs with
  | nil => rfl
  | cons c cs ih =>
      -- an occurrence can start at the first byte of the character only
      obtain ⟨b, bs, hbytes, -, hbs⟩ := exists_utf8EncodeChar_eq_cons c
      have hsize := String.length_utf8EncodeChar c
      have hstarts := startsWithBytes_utf8Bytes word (c :: cs)
      rw [hbytes, List.length_cons] at hsize
      rw [utf8Bytes_cons, hbytes, List.cons_append] at hstarts ⊢
      rw [lastWindow?, lastWindow?_append hword hbs, ih, hstarts, hempty, lastIndex?]
      cases lastIndex? word cs with
      | none => rfl
      | some n => exact congrArg (fun width => some (n + width)) hsize

end

/-! ### Windows of bytes -/

/-- The bytes `word` **occur** among `bs` at offset `i`: as many bytes as `word` has, counted from
there, are those of `word` up to the case of letters. -/
def OccursAt (word bs : List UInt8) (i : Nat) : Prop :=
  ((bs.drop i).take word.length).map lowerByte = word.map lowerByte

section

variable {word bs : List UInt8} {i : Nat}

/-- A word occurs at an offset exactly if the bytes from there on begin with it. -/
theorem occursAt_iff_startsWithBytes :
    OccursAt word bs i ↔ startsWithBytes word (bs.drop i) = true := by
  rw [OccursAt, startsWithBytes, beq_iff_eq]

/-- No word but the empty one occurs among no bytes. -/
theorem not_occursAt_nil (hword : word ≠ []) : ¬ OccursAt word [] i := by
  intro h
  rw [OccursAt, List.drop_nil, List.take_nil, List.map_nil] at h
  exact hword (List.map_eq_nil_iff.1 h.symm)

/-- The search finds nothing exactly if the word is empty or occurs nowhere. -/
theorem lastWindow?_eq_none_iff :
    lastWindow? word bs = none ↔ word = [] ∨ ∀ i, ¬ OccursAt word bs i := by
  by_cases hword : word = []
  · simp [hword, lastWindow?_nil]
  rw [or_iff_right hword]
  induction bs with
  | nil => simp [lastWindow?, not_occursAt_nil hword]
  | cons b bs ih =>
      have hstep : lastWindow? word (b :: bs) = none ↔
          lastWindow? word bs = none ∧ ¬ OccursAt word (b :: bs) 0 := by
        rw [lastWindow?, occursAt_iff_startsWithBytes]
        cases lastWindow? word bs with
        | none => simp [hword]
        | some n => simp
      rw [hstep, ih]
      constructor
      · rintro ⟨hbehind, hstart⟩ i
        cases i with
        | zero => exact hstart
        | succ i => exact hbehind i
      · exact fun h => ⟨fun i => h (i + 1), h 0⟩

/-- What the search finds is the last occurrence. -/
theorem isGreatest_of_lastWindow? (h : lastWindow? word bs = some i) :
    IsGreatest {j | OccursAt word bs j} i := by
  induction bs generalizing i with
  | nil => cases h
  | cons b bs ih =>
      rw [lastWindow?] at h
      cases hbs : lastWindow? word bs with
      | some n =>
          rw [hbs] at h
          obtain rfl := Option.some.inj h
          obtain ⟨hoccurs, hlast⟩ := ih hbs
          refine ⟨hoccurs, fun j hj => ?_⟩
          cases j with
          | zero => exact Nat.zero_le _
          | succ j => exact Nat.succ_le_succ (hlast hj)
      | none =>
          rw [hbs] at h
          obtain ⟨hfound, hi⟩ := Option.ite_none_right_eq_some.1 h
          obtain rfl := Option.some.inj hi
          simp only [Bool.and_eq_true, Bool.not_eq_true', List.isEmpty_eq_false_iff] at hfound
          refine ⟨occursAt_iff_startsWithBytes.2 hfound.2, fun j hj => ?_⟩
          -- behind the first byte there is no occurrence
          have hbehind := (lastWindow?_eq_none_iff.1 hbs).resolve_left hfound.1
          cases j with
          | zero => exact Nat.le_refl _
          | succ j => exact absurd hj (hbehind j)

/-- The search finds the last occurrence of a word that is not empty, whenever there is one. -/
theorem lastWindow?_eq_some_iff :
    lastWindow? word bs = some i ↔ word ≠ [] ∧ IsGreatest {j | OccursAt word bs j} i := by
  constructor
  · intro h
    refine ⟨?_, isGreatest_of_lastWindow? h⟩
    rintro rfl
    rw [lastWindow?_nil] at h
    cases h
  · rintro ⟨hword, hlast⟩
    cases h : lastWindow? word bs with
    | none => exact absurd hlast.1 ((lastWindow?_eq_none_iff.1 h).resolve_left hword i)
    | some j => rw [(isGreatest_of_lastWindow? h).unique hlast]

end

/-! ### Parts of the text -/

/-- Words that differ in letter case only have the same number of bytes. -/
theorem byteLength_eq_of_foldCase_eq {v w : List Char} (h : foldCase v = foldCase w) :
    byteLength v = byteLength w := by
  have hlength := congrArg (fun cs => (utf8Bytes cs).length) h
  simp only [← map_lowerByte_utf8Bytes, List.length_map, length_utf8Bytes] at hlength
  exact hlength

/-- The occurrence that the search finds is a part of the text. -/
theorem isBorder_of_lastIndex? {word cs : List Char} {i : Nat} (h : lastIndex? word cs = some i) :
    IsBorder cs i ∧ IsBorder cs (i + byteLength word) := by
  have hword : word ≠ [] := by
    rintro rfl
    rw [lastIndex?_nil] at h
    cases h
  obtain ⟨before, w, behind, rfl, rfl, hw, -⟩ := (lastIndex?_eq_some_iff hword).1 h
  refine ⟨⟨before, w ++ behind, rfl, rfl⟩, before ++ w, behind, (List.append_assoc ..).symm, ?_⟩
  rw [byteLength_append, byteLength_eq_of_foldCase_eq hw]

/-- **The search finds the last occurrence among the bytes, between two borders.** A byte offset is
found exactly if the word is not empty and this is the greatest byte offset at which it occurs;
nothing is found exactly if the word is empty or occurs nowhere. Where an occurrence is found, it
starts and ends between characters, so that the text can be cut there. -/
theorem last_occurrence_among_bytes (word text : String) :
    let occurrences := {i | OccursAt word.toUTF8.data.toList text.toUTF8.data.toList i}
    (∀ i, lastIndex? word.toList text.toList = some i ↔
      word ≠ "" ∧ IsGreatest occurrences i) ∧
    (lastIndex? word.toList text.toList = none ↔ word = "" ∨ occurrences = ∅) ∧
    ∀ i, lastIndex? word.toList text.toList = some i →
      IsBorder text.toList i ∧ IsBorder text.toList (i + word.utf8ByteSize) := by
  intro occurrences
  have hsearch : lastIndex? word.toList text.toList
      = lastWindow? word.toUTF8.data.toList text.toUTF8.data.toList := by
    rw [← utf8Bytes_toList, ← utf8Bytes_toList, lastWindow?_utf8Bytes]
  have hempty : word.toUTF8.data.toList = [] ↔ word = "" := by
    rw [← utf8Bytes_toList, utf8Bytes_eq_nil_iff, String.toList_eq_nil_iff]
  refine ⟨fun i => ?_, ?_, fun i h => ?_⟩
  · rw [hsearch, lastWindow?_eq_some_iff, ne_eq, hempty]
  · rw [hsearch, lastWindow?_eq_none_iff, hempty, Set.eq_empty_iff_forall_notMem]
    rfl
  · rw [← byteLength_toList]
    exact isBorder_of_lastIndex? h

/-- The second of two occurrences that overlap. The first word of the text is none: it differs in a
letter beyond ASCII. -/
theorem last_occurrence_among_bytes_overlapping :
    lastIndex? "aéa".toList "AÉa AéaéA!".toList = some 8 ∧
      IsBorder "AÉa AéaéA!".toList 8 ∧ IsBorder "AÉa AéaéA!".toList (8 + "aéa".utf8ByteSize) := by
  have h : lastIndex? "aéa".toList "AÉa AéaéA!".toList = some 8 := by decide
  exact ⟨h, (last_occurrence_among_bytes _ _).2.2 8 h⟩

end CreateTable.Text
