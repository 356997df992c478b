import CreateTable.Proofs.Encoding.Utf16
import CreateTable.Reading

/-!
# Files in the encodings of Unicode

A statement can be written to a file in UTF-8, with or without a byte order mark, and in UTF-16,
which needs a mark. All these files are read as the same text: bytes in UTF-8 are recognized as
such, a mark of UTF-16 can stand in no text in UTF-8, and exactly one mark is dropped.

## Main definitions

* `Encoding.Form`: the ways to write a text to a file.
* `Encoding.Form.encode`: the bytes of such a file.

## Main statements

* `Encoding.fileText?_encode`: a file is read as the text that was written to it.
* `Table.ofFile_encode`: the way a text was written to a file does not matter.
-/

namespace CreateTable

namespace Encoding

/-- The ways to write a Unicode text to a file. -/
inductive Form where
  /-- UTF-8 without a byte order mark. -/
  | utf8
  /-- UTF-8 behind its byte order mark. -/
  | markedUtf8
  /-- UTF-16 in one of the two byte orders, behind its byte order mark. -/
  | utf16 (order : Utf16.ByteOrder)
deriving DecidableEq, Repr

/-- The two bytes of the byte order mark in UTF-16. -/
def utf16Mark : Utf16.ByteOrder → List UInt8
  | .little => [0xFF, 0xFE]
  | .big => [0xFE, 0xFF]

/-- The bytes of a file with the text `text`. -/
def Form.encode (text : String) : Form → ByteArray
  | utf8 => text.toUTF8
  | markedUtf8 => ⟨#[0xEF, 0xBB, 0xBF]⟩ ++ text.toUTF8
  | utf16 order => ⟨(utf16Mark order ++ Utf16.encode order text.toList).toArray⟩

/-! ### UTF-8 -/

/-- The UTF-8 form of a text is read as that text. -/
theorem fromUTF8?_toUTF8 (text : String) : String.fromUTF8? text.toUTF8 = some text := by
  rw [String.fromUTF8?, String.toUTF8_eq_toByteArray, dif_pos text.isValidUTF8]
  rfl

/-- The mark of UTF-8 is the byte order mark in UTF-8. -/
theorem toUTF8_byteOrderMark (text : String) :
    Form.markedUtf8.encode text = (String.singleton byteOrderMark ++ text).toUTF8 := by
  rw [Form.encode, String.toUTF8_eq_toByteArray, String.toUTF8_eq_toByteArray,
    String.toByteArray_append]
  rfl

/-- A text in UTF-8 begins with none of the two bytes of the mark of UTF-16. -/
theorem fromUTF8?_eq_none {first : UInt8} {rest : List UInt8} (h : first = 0xFF ∨ first = 0xFE) :
    String.fromUTF8? ⟨(first :: rest).toArray⟩ = none := by
  rw [String.fromUTF8?, dif_neg]
  intro hvalid
  have hfirst := hvalid.isUTF8FirstByte_getElem_zero (by simp [ByteArray.size])
  have hnot : ¬ first.IsUTF8FirstByte := by
    rcases h with rfl | rfl <;> decide
  exact hnot hfirst

/-! ### Files -/

/-- A text without a byte order mark in front stays as it is. -/
theorem dropMark_of_head {text : String} (h : text.toList.head? ≠ some byteOrderMark) :
    dropMark text = text := by
  rw [dropMark]
  split
  · next c cs hlist =>
    rw [hlist] at h
    exact if_neg (by simpa using h)
  · rfl

/-- A byte order mark in front of a text is taken off. -/
theorem dropMark_byteOrderMark (text : String) :
    dropMark (String.singleton byteOrderMark ++ text) = text := by
  have hlist : (String.singleton byteOrderMark ++ text).toList = byteOrderMark :: text.toList := by
    rw [String.toList_append]
    rfl
  simp only [dropMark, hlist, if_true, String.ofList_toList]

/-- The UTF-16 form of a text behind its mark is decoded to that text. -/
theorem decode?_utf16 (order : Utf16.ByteOrder) (text : String) :
    decode? ((Form.utf16 order).encode text) = some text := by
  have hdecode := Utf16.decode_encode order text.toList
  cases order with
  | little =>
      simp only [decode?, Form.encode, utf16Mark, List.cons_append, List.nil_append,
        fromUTF8?_eq_none (.inl rfl), hdecode]
      simp
  | big =>
      simp only [decode?, Form.encode, utf16Mark, List.cons_append, List.nil_append,
        fromUTF8?_eq_none (.inr rfl), hdecode]
      simp

/-- A file is read as the text that was written to it, unless the text itself begins with a byte
order mark. -/
theorem fileText?_encode (form : Form) {text : String}
    (h : text.toList.head? ≠ some byteOrderMark) : fileText? (form.encode text) = some text := by
  rw [fileText?]
  cases form with
  | utf8 => simp only [decode?, Form.encode, fromUTF8?_toUTF8, Option.map_some, dropMark_of_head h]
  | markedUtf8 =>
      simp only [toUTF8_byteOrderMark, decode?, fromUTF8?_toUTF8, Option.map_some,
        dropMark_byteOrderMark]
  | utf16 order => rw [decode?_utf16, Option.map_some, dropMark_of_head h]

end Encoding

open Encoding

/-- **The encoding of a file does not matter.** A file in UTF-8 or UTF-16 gives what its text
gives, be it a table or an error, unless the text itself begins with a byte order mark. -/
theorem Table.ofFile_encode (path : String) (form : Form) {text : String}
    (h : text.toList.head? ≠ some byteOrderMark) :
    Table.ofFile path (.ok (form.encode text)) = Table.ofText text {} := by
  simp only [Table.ofFile, fileText?_encode form h]

/-- A file in UTF-16 with a character above U+FFFF. -/
theorem Table.ofFile_encode_surrogates :
    "create table `💾` (id int)".toList.head? ≠ some byteOrderMark ∧
      Table.ofFile "t.sql" (.ok ((Form.utf16 .big).encode "create table `💾` (id int)"))
        = .ok ⟨⟨none, "💾"⟩, [⟨"id", ⟨.int, none, none⟩, [], none, ""⟩], [], ""⟩ := by
  have hhead : "create table `💾` (id int)".toList.head? ≠ some byteOrderMark := by decide
  refine ⟨hhead, ?_⟩
  rw [Table.ofFile_encode "t.sql" (.utf16 .big) hhead]
  decide +kernel

end CreateTable
