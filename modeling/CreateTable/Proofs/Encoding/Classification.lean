import CreateTable.Proofs.Encoding.Detection
import CreateTable.Proofs.Encoding.Utf16
import CreateTable.Proofs.Session.Position
import Mathlib.Data.List.GetD
import Mathlib.Data.List.Nodup

/-!
# The files that can be read

The bytes of a file alone decide how they are read: as UTF-8 if they are valid, else by the byte
order mark they start with, and without one as Windows-1252, where every byte is a character. A file
spells no text in two cases only, which both need a mark. In all other cases the file is read as
its text, and one byte order mark at the start of the text is dropped.

## Main definitions

* `Encoding.IsUndecodable`: the bytes that spell no text.
* `Encoding.IsUnmarked`: the bytes that are read as Windows-1252.
* `Encoding.Spells`: the text that bytes spell.
* `Encoding.IsReadAs`: the text that a file is read as.

## Main statements

* `Encoding.Windows1252.character_injective`: different bytes are different characters.
* `Encoding.decode?_eq_none_iff`, `Encoding.decode?_eq_some_iff`: what bytes spell.
* `Encoding.fileText?_eq_some_iff`: what a file is read as.
* `Table.ofFile_classified`: what every file gives.
-/

namespace CreateTable

namespace Encoding

/-! ### Windows-1252 -/

namespace Windows1252

/-- The characters of the bytes `0x80` to `0x9F` are not those of other bytes, and none is the byte
order mark. -/
theorem upperControls_bounds :
    ∀ code ∈ upperControls, code.isValidChar ∧ 0x80 ≤ code ∧ ¬ (0xA0 ≤ code ∧ code < 0x100) ∧
      code < 0xFEFF := by
  simp [upperControls, Nat.isValidChar]

/-- No two of the bytes from `0x80` to `0x9F` have one code point. -/
theorem nodup_upperControls : upperControls.Nodup := by
  simp [upperControls]

/-- A byte from `0x80` to `0x9F` has its place in the table. -/
theorem toNat_character_of_upper {byte : UInt8} (hlow : 0x80 ≤ byte.toNat)
    (hhigh : byte.toNat < 0xA0) :
    ∃ h : byte.toNat - 0x80 < upperControls.length,
      (character byte).toNat = upperControls[byte.toNat - 0x80] := by
  have hlength : upperControls.length = 0x20 := rfl
  have hindex : byte.toNat - 0x80 < upperControls.length := by omega
  refine ⟨hindex, ?_⟩
  rw [character, if_pos (by simp [hlow, hhigh]), List.getD_eq_getElem _ _ hindex]
  exact Utf16.toNat_ofNat_of_isValidChar (upperControls_bounds _ (List.getElem_mem hindex)).1

/-- Every other byte is the character with its code point. -/
theorem toNat_character_of_not_upper {byte : UInt8}
    (h : ¬ (0x80 ≤ byte.toNat ∧ byte.toNat < 0xA0)) : (character byte).toNat = byte.toNat := by
  have hbyte : byte.toNat < 256 := byte.toNat_lt
  have hvalid : byte.toNat.isValidChar := by
    rw [Nat.isValidChar]
    omega
  rw [character, if_neg (by simpa using h)]
  exact Utf16.toNat_ofNat_of_isValidChar hvalid

/-- A byte from `0x80` to `0x9F` and another byte are different characters. -/
theorem character_ne {a b : UInt8} (ha : 0x80 ≤ a.toNat ∧ a.toNat < 0xA0)
    (hb : ¬ (0x80 ≤ b.toNat ∧ b.toNat < 0xA0)) : character a ≠ character b := by
  intro heq
  have hbyte : b.toNat < 256 := b.toNat_lt
  obtain ⟨hindex, hcode⟩ := toNat_character_of_upper ha.1 ha.2
  have hbounds := upperControls_bounds _ (List.getElem_mem hindex)
  rw [← hcode, heq, toNat_character_of_not_upper hb] at hbounds
  omega

/-- Different bytes are different characters. -/
theorem character_injective : Function.Injective character := by
  intro a b heq
  by_cases ha : 0x80 ≤ a.toNat ∧ a.toNat < 0xA0
  · by_cases hb : 0x80 ≤ b.toNat ∧ b.toNat < 0xA0
    · obtain ⟨hi, hcode⟩ := toNat_character_of_upper ha.1 ha.2
      obtain ⟨hj, hcode'⟩ := toNat_character_of_upper hb.1 hb.2
      rw [heq, hcode'] at hcode
      have hindex := nodup_upperControls.getElem_inj_iff.1 hcode
      exact UInt8.toNat_inj.1 (by omega)
    · exact absurd heq (character_ne ha hb)
  · by_cases hb : 0x80 ≤ b.toNat ∧ b.toNat < 0xA0
    · exact absurd heq.symm (character_ne hb ha)
    · have hcode := toNat_character_of_not_upper ha
      rw [heq, toNat_character_of_not_upper hb] at hcode
      exact UInt8.toNat_inj.1 hcode.symm

/-- No byte is the byte order mark. -/
theorem character_ne_byteOrderMark (byte : UInt8) : character byte ≠ byteOrderMark := by
  intro heq
  have hmark : (character byte).toNat = 0xFEFF := congrArg Char.toNat heq
  have hbyte : byte.toNat < 256 := byte.toNat_lt
  by_cases h : 0x80 ≤ byte.toNat ∧ byte.toNat < 0xA0
  · obtain ⟨hindex, hcode⟩ := toNat_character_of_upper h.1 h.2
    have hbounds := upperControls_bounds _ (List.getElem_mem hindex)
    omega
  · have hcode := toNat_character_of_not_upper h
    omega

end Windows1252

/-! ### Marks -/

/-- The three bytes of the byte order mark in UTF-8. -/
def utf8Mark : List UInt8 := [0xEF, 0xBB, 0xBF]

/-- The bytes **spell no text**: they are not valid UTF-8 although they start with its mark, or what
stands behind a mark of UTF-16 is ill-formed. -/
def IsUndecodable (bytes : ByteArray) : Prop :=
  ¬ bytes.IsValidUTF8 ∧ (utf8Mark <+: bytes.data.toList ∨
    ∃ order rest, bytes.data.toList = utf16Mark order ++ rest ∧ Utf16.IsIllFormed order rest)

/-- The bytes are **unmarked**: they are not valid UTF-8, and start with none of the three marks. -/
structure IsUnmarked (bytes : ByteArray) : Prop where
  not_isValidUTF8 : ¬ bytes.IsValidUTF8
  not_utf8Mark : ¬ utf8Mark <+: bytes.data.toList
  not_utf16Mark : ∀ order, ¬ utf16Mark order <+: bytes.data.toList

/-- Bytes that are not valid UTF-8 start with one of the marks or are unmarked. -/
theorem mark_cases {bytes : ByteArray} (h : ¬ bytes.IsValidUTF8) :
    utf8Mark <+: bytes.data.toList ∨ (∃ order rest, bytes.data.toList = utf16Mark order ++ rest) ∨
      IsUnmarked bytes := by
  by_cases hutf8 : utf8Mark <+: bytes.data.toList
  · exact .inl hutf8
  by_cases hutf16 : ∃ order, utf16Mark order <+: bytes.data.toList
  · obtain ⟨order, rest, hrest⟩ := hutf16
    exact .inr (.inl ⟨order, rest, hrest.symm⟩)
  · exact .inr (.inr ⟨h, hutf8, fun order hmark => hutf16 ⟨order, hmark⟩⟩)

/-! ### The text that bytes spell -/

variable {bytes : ByteArray} {text : String}

/-- Bytes are read as a text in UTF-8 exactly if they are its UTF-8 form. -/
theorem fromUTF8?_eq_some_iff : String.fromUTF8? bytes = some text ↔ bytes = text.toUTF8 := by
  rw [String.fromUTF8?, String.toUTF8_eq_toByteArray]
  constructor
  · intro h
    split at h
    · rw [← Option.some.inj h]
      rfl
    · cases h
  · rintro rfl
    rw [dif_pos text.isValidUTF8]
    rfl

/-- Bytes are not read in UTF-8 exactly if they are not valid UTF-8. -/
theorem fromUTF8?_eq_none_iff : String.fromUTF8? bytes = none ↔ ¬ bytes.IsValidUTF8 := by
  rw [String.fromUTF8?]
  split <;> simp [*]

/-- Bytes behind the mark of UTF-8 that are not valid UTF-8 spell nothing. -/
theorem decode?_of_utf8Mark (h : ¬ bytes.IsValidUTF8) (hmark : utf8Mark <+: bytes.data.toList) :
    decode? bytes = none := by
  obtain ⟨rest, hrest⟩ := hmark
  rw [decode?, fromUTF8?_eq_none_iff.2 h, ← hrest]
  rfl

/-- Bytes behind a mark of UTF-16 are read as UTF-16. -/
theorem decode?_of_utf16Mark {order : Utf16.ByteOrder} {rest : List UInt8}
    (h : ¬ bytes.IsValidUTF8) (hmark : bytes.data.toList = utf16Mark order ++ rest) :
    decode? bytes = (Utf16.decode order rest).map String.ofList := by
  rw [decode?, fromUTF8?_eq_none_iff.2 h, hmark]
  cases order <;> rfl

/-- Unmarked bytes are read as Windows-1252. -/
theorem decode?_of_isUnmarked (h : IsUnmarked bytes) :
    decode? bytes = some (String.ofList (Windows1252.decode bytes.data.toList)) := by
  rw [decode?, fromUTF8?_eq_none_iff.2 h.not_isValidUTF8]
  have hutf8 := h.not_utf8Mark
  have hlittle := h.not_utf16Mark .little
  have hbig := h.not_utf16Mark .big
  generalize bytes.data.toList = list at hutf8 hlittle hbig
  dsimp only
  split
  · exact absurd ⟨_, rfl⟩ hutf8
  · exact absurd ⟨_, rfl⟩ hlittle
  · exact absurd ⟨_, rfl⟩ hbig
  · rfl

/-- The text that bytes **spell**, with its byte order mark if it has one. -/
inductive Spells : ByteArray → String → Prop
  | utf8 (text : String) : Spells text.toUTF8 text
  | utf16 (order : Utf16.ByteOrder) (text : String) : Spells ((Form.utf16 order).encode text) text
  | windows1252 {bytes : ByteArray} : IsUnmarked bytes →
    Spells bytes (String.ofList (Windows1252.decode bytes.data.toList))

/-- Bytes are not decoded exactly if they spell no text. -/
theorem decode?_eq_none_iff : decode? bytes = none ↔ IsUndecodable bytes := by
  constructor
  · intro h
    have hutf8 : ¬ bytes.IsValidUTF8 := by
      rw [← fromUTF8?_eq_none_iff]
      rw [decode?] at h
      split at h
      · cases h
      · assumption
    refine ⟨hutf8, ?_⟩
    obtain hmark | ⟨order, rest, hmark⟩ | hunmarked := mark_cases hutf8
    · exact .inl hmark
    · rw [decode?_of_utf16Mark hutf8 hmark, Option.map_eq_none_iff, Utf16.decode_eq_none_iff] at h
      exact .inr ⟨order, rest, hmark, h⟩
    · rw [decode?_of_isUnmarked hunmarked] at h
      cases h
  · rintro ⟨hutf8, hmark | ⟨order, rest, hmark, hrest⟩⟩
    · exact decode?_of_utf8Mark hutf8 hmark
    · rw [decode?_of_utf16Mark hutf8 hmark, Utf16.decode_eq_none_iff.2 hrest, Option.map_none]

/-- Bytes are decoded to a text exactly if they spell it. -/
theorem decode?_eq_some_iff : decode? bytes = some text ↔ Spells bytes text := by
  constructor
  · intro h
    by_cases hutf8 : bytes.IsValidUTF8
    · obtain ⟨t, ht⟩ : ∃ t, String.fromUTF8? bytes = some t :=
        Option.ne_none_iff_exists'.1 fun hnone => fromUTF8?_eq_none_iff.1 hnone hutf8
      rw [decode?, ht] at h
      obtain rfl := Option.some.inj h
      rw [fromUTF8?_eq_some_iff.1 ht]
      exact .utf8 t
    obtain hmark | ⟨order, rest, hmark⟩ | hunmarked := mark_cases hutf8
    · rw [decode?_of_utf8Mark hutf8 hmark] at h
      cases h
    · rw [decode?_of_utf16Mark hutf8 hmark] at h
      obtain ⟨cs, hcs, rfl⟩ := Option.map_eq_some_iff.1 h
      have hbytes : bytes = (Form.utf16 order).encode (String.ofList cs) := by
        rw [Form.encode, String.toList_ofList, ← Utf16.decode_eq_some_iff.1 hcs, ← hmark]
      rw [hbytes]
      exact .utf16 order _
    · rw [decode?_of_isUnmarked hunmarked] at h
      obtain rfl := Option.some.inj h
      exact .windows1252 hunmarked
  · intro h
    cases h with
    | utf8 => rw [decode?, fromUTF8?_toUTF8]
    | utf16 order => exact decode?_utf16 order text
    | windows1252 hunmarked => exact decode?_of_isUnmarked hunmarked

/-! ### The text that a file is read as -/

/-- A file with the contents `bytes` **is read as** `text`: that is what the bytes spell, or what
they spell is `text` behind a byte order mark. -/
def IsReadAs (bytes : ByteArray) (text : String) : Prop :=
  Spells bytes text ∧ text.toList.head? ≠ some byteOrderMark ∨
    Spells bytes (String.singleton byteOrderMark ++ text)

/-- A text begins with a byte order mark or not. -/
theorem head_or_exists_mark (text : String) : text.toList.head? ≠ some byteOrderMark ∨
    ∃ rest, text = String.singleton byteOrderMark ++ rest := by
  cases hlist : text.toList with
  | nil => exact .inl nofun
  | cons c cs =>
      by_cases hc : c = byteOrderMark
      · refine .inr ⟨String.ofList cs, String.toList_inj.1 ?_⟩
        rw [hlist, hc, String.toList_append, String.toList_singleton, String.toList_ofList]
        rfl
      · exact .inl (by simpa using hc)

/-- The text of a file is the one that the file is read as. -/
theorem fileText?_eq_some_iff : fileText? bytes = some text ↔ IsReadAs bytes text := by
  rw [fileText?, Option.map_eq_some_iff, IsReadAs]
  simp only [decode?_eq_some_iff]
  constructor
  · rintro ⟨spelled, hspells, rfl⟩
    obtain hhead | ⟨rest, rfl⟩ := head_or_exists_mark spelled
    · rw [dropMark_of_head hhead]
      exact .inl ⟨hspells, hhead⟩
    · rw [dropMark_byteOrderMark]
      exact .inr hspells
  · rintro (⟨hspells, hhead⟩ | hspells)
    · exact ⟨text, hspells, dropMark_of_head hhead⟩
    · exact ⟨_, hspells, dropMark_byteOrderMark text⟩

/-- A file has no text exactly if its bytes spell none. -/
theorem fileText?_eq_none_iff : fileText? bytes = none ↔ IsUndecodable bytes := by
  rw [fileText?, Option.map_eq_none_iff, decode?_eq_none_iff]

/-- A file is read as one text only. -/
theorem IsReadAs.unique {other : String} (h : IsReadAs bytes text) (hother : IsReadAs bytes other) :
    text = other := by
  rw [← fileText?_eq_some_iff] at h hother
  exact Option.some.inj (h.symm.trans hother)

/-- Unmarked bytes are read as their characters: none of them is dropped. -/
theorem IsUnmarked.fileText?_eq (h : IsUnmarked bytes) :
    fileText? bytes = some (String.ofList (Windows1252.decode bytes.data.toList)) := by
  rw [fileText?, decode?_of_isUnmarked h, Option.map_some, dropMark_of_head]
  rw [String.toList_ofList, Windows1252.decode, List.head?_map]
  intro hmark
  obtain ⟨byte, -, hbyte⟩ := Option.map_eq_some_iff.1 hmark
  exact Windows1252.character_ne_byteOrderMark byte hbyte

/-- Unmarked bytes are as many as the characters of their text, and no others have that text. -/
theorem IsUnmarked.text_determines (h : IsUnmarked bytes) (htext : IsReadAs bytes text) :
    text.length = bytes.size ∧
      ∀ other, IsUnmarked other → IsReadAs other text → other = bytes := by
  rw [← fileText?_eq_some_iff, h.fileText?_eq, Option.some.injEq] at htext
  subst htext
  refine ⟨?_, fun other hother hread => ?_⟩
  · rw [← String.length_toList, String.toList_ofList, Windows1252.decode, List.length_map,
      Array.length_toList, ByteArray.size]
  · rw [← fileText?_eq_some_iff, hother.fileText?_eq, Option.some.injEq, String.ofList_inj] at hread
    have hlist := List.map_injective_iff.2 Windows1252.character_injective hread
    exact ByteArray.ext (Array.toList_inj.1 hlist)

end Encoding

open Encoding

/-- A text gives no error about bytes. -/
theorem Source.errorAt_ne_undecodable (source : Source) (c : Cursor) (e : Expectation)
    (path : String) : source.errorAt c e ≠ .undecodable path := by
  rw [Source.errorAt]
  split <;> simp

/-- Reading a text never fails for an encoding. -/
theorem Table.ofText_ne_undecodable (text : String) (options : Options) (path : String) :
    Table.ofText text options ≠ .error (.undecodable path) := by
  intro h
  obtain ⟨e, herror⟩ := Session.exists_errorAt_of_table h
  exact Source.errorAt_ne_undecodable _ _ e path herror.symm

/-- **What every file gives.** A file with the contents `bytes` is refused exactly if the bytes are
undecodable. Every other file is read as a text and gives what that text gives; if the bytes are
unmarked, the text has one character for each of them and no other unmarked bytes have that
text. -/
theorem Table.ofFile_classified (path : String) (bytes : ByteArray) :
    (∀ p, Table.ofFile path (.ok bytes) = .error (.undecodable p) ↔
      p = path ∧ IsUndecodable bytes) ∧
    (¬ IsUndecodable bytes → ∃ text, IsReadAs bytes text ∧
      Table.ofFile path (.ok bytes) = Table.ofText text {} ∧
      (IsUnmarked bytes → text.length = bytes.size ∧
        ∀ other, IsUnmarked other → IsReadAs other text → other = bytes)) := by
  cases htext : fileText? bytes with
  | none =>
      have hundecodable := fileText?_eq_none_iff.1 htext
      have hfile : Table.ofFile path (.ok bytes) = .error (.undecodable path) := by
        simp only [Table.ofFile, htext]
      refine ⟨fun p => ?_, fun h => absurd hundecodable h⟩
      rw [hfile]
      simp [hundecodable, eq_comm]
  | some text =>
      have hundecodable : ¬ IsUndecodable bytes := by
        rw [← fileText?_eq_none_iff, htext]
        exact Option.some_ne_none text
      have hfile : Table.ofFile path (.ok bytes) = Table.ofText text {} := by
        simp only [Table.ofFile, htext]
      have hread := fileText?_eq_some_iff.1 htext
      refine ⟨fun p => ?_, fun _ => ⟨text, hread, hfile, fun h => h.text_determines hread⟩⟩
      rw [hfile]
      exact iff_of_false (Table.ofText_ne_undecodable text {} p) fun h => hundecodable h.2

/-- A letter with an accent in Windows-1252, and the first half of a pair alone behind the mark of
UTF-16. -/
theorem Table.ofFile_classified_accent :
    IsUnmarked ⟨#[0x74, 0xE9]⟩ ∧
    Table.ofFile "t.sql" (.ok ⟨#[0x74, 0xE9]⟩) = Table.ofText "té" {} ∧
    "té".length = ByteArray.size ⟨#[0x74, 0xE9]⟩ ∧
    IsUndecodable ⟨#[0xFF, 0xFE, 0x00, 0xD8]⟩ ∧
    Table.ofFile "t.sql" (.ok ⟨#[0xFF, 0xFE, 0x00, 0xD8]⟩) = .error (.undecodable "t.sql") := by
  have hfile : fileText? ⟨#[0x74, 0xE9]⟩ = some "té" := by decide +kernel
  have hunmarked : IsUnmarked ⟨#[0x74, 0xE9]⟩ :=
    ⟨by decide +kernel, by decide +kernel, fun order => by cases order <;> decide⟩
  have hdecodable : ¬ IsUndecodable ⟨#[0x74, 0xE9]⟩ := by
    rw [← fileText?_eq_none_iff, hfile]
    exact Option.some_ne_none "té"
  have hhalf : IsUndecodable ⟨#[0xFF, 0xFE, 0x00, 0xD8]⟩ :=
    ⟨by decide +kernel, .inr ⟨.little, [0x00, 0xD8], rfl,
      .inr ⟨[0xD800], rfl, [], 0xD800, [], rfl, .inl ⟨rfl, nofun⟩⟩⟩⟩
  obtain ⟨text, hread, hresult, htext⟩ := (ofFile_classified "t.sql" ⟨#[0x74, 0xE9]⟩).2 hdecodable
  obtain rfl := hread.unique (fileText?_eq_some_iff.1 hfile)
  exact ⟨hunmarked, hresult, (htext hunmarked).1, hhalf,
    ((ofFile_classified "t.sql" ⟨#[0xFF, 0xFE, 0x00, 0xD8]⟩).1 "t.sql").2 ⟨rfl, hhalf⟩⟩

end CreateTable
