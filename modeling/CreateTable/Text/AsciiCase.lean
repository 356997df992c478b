/-!
# Words up to ASCII letter case

Keywords are compared without regard to the case of the letters `A` to `Z`; every other
character stands for itself, so `é` and `É` are different. A word is also searched for in a text
so, from the end of the text.

## Main definitions

* `foldCase`: the characters of a word with the ASCII letters in lower case.
* `sameWord`: two words agree up to the case of their ASCII letters.
* `startsWithWord`: a text begins with a word up to ASCII letter case.
* `lastIndex?`: the byte offset of the last occurrence of a word.
-/

namespace CreateTable.Text

/-- The word `cs` with every ASCII letter in lower case and every other character kept. -/
def foldCase (cs : List Char) : List Char :=
  cs.map Char.toLower

/-- Two words are the **same word** when they differ in the case of ASCII letters only. -/
def sameWord (a b : String) : Bool :=
  foldCase a.toList == foldCase b.toList

/-- Two words are the same word exactly if they agree in lower case. -/
theorem sameWord_iff {a b : String} :
    sameWord a b = true ↔ foldCase a.toList = foldCase b.toList := by
  simp [sameWord]

/-- Every word is the same word as itself. -/
@[simp]
theorem sameWord_refl (a : String) : sameWord a a = true := by
  simp [sameWord]

/-- Folding keeps the number of characters. -/
theorem length_foldCase (cs : List Char) : (foldCase cs).length = cs.length := by
  simp [foldCase]

/-! ### Upper case -/

/-- Beyond ASCII a character has no lower case. -/
theorem toLower_eq_self {c : Char} (h : 128 ≤ c.toNat) : c.toLower = c := by
  have hupper : ¬ (c.val ≥ 'A'.val ∧ c.val ≤ 'Z'.val) := by
    rintro ⟨-, hle⟩
    have : c.toNat ≤ 90 := UInt32.le_iff_toNat_le.1 hle
    omega
  exact dif_neg hupper

/-- Beyond ASCII a character has no upper case. -/
theorem toUpper_eq_self {c : Char} (h : 128 ≤ c.toNat) : c.toUpper = c := by
  have hlower : ¬ (c.val ≥ 'a'.val ∧ c.val ≤ 'z'.val) := by
    rintro ⟨-, hle⟩
    have : c.toNat ≤ 122 := UInt32.le_iff_toNat_le.1 hle
    omega
  exact dif_neg hlower

/-- A letter in upper case has the lower case of the letter itself. -/
theorem toLower_toUpper (c : Char) : c.toUpper.toLower = c.toLower := by
  rcases Nat.lt_or_ge c.toNat 128 with h | h
  · have hascii : ∀ n < 128, (Char.ofNat n).toUpper.toLower = (Char.ofNat n).toLower := by decide
    have hc := hascii c.toNat h
    rwa [Char.ofNat_toNat] at hc
  · rw [toUpper_eq_self h]

/-- A word in upper case is the same word. -/
theorem sameWord_toUpper (w : String) : sameWord w w.toUpper = true := by
  rw [sameWord_iff, String.toUpper, String.toList_map, foldCase, foldCase, List.map_map]
  exact List.map_congr_left fun c _ => (toLower_toUpper c).symm

/-! ### The last occurrence of a word in a text -/

/-- The text `cs` begins with `word`, up to the case of ASCII letters. -/
def startsWithWord (word cs : List Char) : Bool :=
  foldCase (cs.take word.length) == foldCase word

/-- The byte offset of the last place of `cs` at which `word` begins, up to the case of ASCII
letters. The empty word has no place. -/
def lastIndex? (word : List Char) : List Char → Option Nat
  | [] => none
  | c :: cs =>
    match lastIndex? word cs with
    | some n => some (n + c.utf8Size)
    | none => if !word.isEmpty && startsWithWord word (c :: cs) then some 0 else none

end CreateTable.Text
