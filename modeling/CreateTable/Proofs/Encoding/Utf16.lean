import CreateTable.Encoding
import Mathlib.Data.List.Basic

/-!
# Texts in UTF-16

Every text is read back from its spelling in UTF-16, in both byte orders. A unit is read back from
its two bytes, and a character from its one or two units: no character up to U+FFFF is a
surrogate, and the units of a character above are a pair of them.

Bytes are no text in UTF-16 for one of two reasons: a byte is left over, or a surrogate stands
outside of a pair. All other bytes are those of exactly one text. Whether a surrogate has its
partner is a matter of its two neighbours, since no unit is both the first and the second half of a
pair.

## Main definitions

* `IsUnpaired`, `HasUnpaired`: a surrogate without its partner.
* `IsIllFormed`: the bytes that are no text.

## Main statements

* `units?_flatMap_split`: units are read back from their bytes.
* `ofUnits?_flatMap_unitsOf`: characters are read back from their units.
* `decode_encode`: a text is read back from its bytes.
* `hasUnpaired_append`: a row of units is parted behind any unit but the first half of a pair.
* `ofUnits?_eq_none_iff`: the units that are no text.
* `decode_eq_none_iff`: the bytes that are no text.
* `decode_eq_some_iff`: the bytes of a text.
-/

namespace CreateTable.Encoding.Utf16

/-! ### Bytes -/

/-- A unit is read back from its two bytes. -/
theorem exists_split (order : ByteOrder) {unit : Nat} (h : unit < 0x10000) :
    ∃ a b, order.split unit = [a, b] ∧ order.join a b = unit := by
  have hhigh : (UInt8.ofNat (unit / 256)).toNat = unit / 256 :=
    UInt8.toNat_ofNat_of_lt' (by change _ < 256; omega)
  have hlow : (UInt8.ofNat (unit % 256)).toNat = unit % 256 :=
    UInt8.toNat_ofNat_of_lt' (by change _ < 256; omega)
  cases order with
  | little =>
      refine ⟨_, _, rfl, ?_⟩
      rw [ByteOrder.join, hhigh, hlow]
      omega
  | big =>
      refine ⟨_, _, rfl, ?_⟩
      rw [ByteOrder.join, hhigh, hlow]
      omega

/-- Units are read back from their bytes. -/
theorem units?_flatMap_split (order : ByteOrder) {units : List Nat}
    (h : ∀ unit ∈ units, unit < 0x10000) :
    units? order (units.flatMap order.split) = some units := by
  induction units with
  | nil => rfl
  | cons unit units ih =>
      rw [List.forall_mem_cons] at h
      obtain ⟨a, b, hsplit, hjoin⟩ := exists_split order h.1
      rw [List.flatMap_cons, hsplit, List.cons_append, List.singleton_append, units?, ih h.2,
        Option.map_some, hjoin]

/-! ### Units -/

/-- The code points of characters go up to U+10FFFF without the surrogates. -/
theorem toNat_cases (c : Char) : c.toNat < 0xD800 ∨ 0xDFFF < c.toNat ∧ c.toNat < 0x110000 :=
  c.valid

/-- The units of a character are numbers of 16 bits. -/
theorem unitsOf_lt (c : Char) : ∀ unit ∈ unitsOf c, unit < 0x10000 := by
  have hc := toNat_cases c
  rw [unitsOf]
  split
  · simpa
  · simp only [List.mem_cons, List.not_mem_nil, or_false, forall_eq_or_imp, forall_eq]
    omega

/-- A unit that is no surrogate is a character. -/
theorem ofUnits?_cons {unit : Nat} (hhigh : isHighSurrogate unit = false)
    (hlow : isLowSurrogate unit = false) (units : List Nat) :
    ofUnits? (unit :: units) = (ofUnits? units).map (Char.ofNat unit :: ·) := by
  cases units with
  | nil => simp [ofUnits?, hhigh, hlow]
  | cons low rest => rw [ofUnits?, if_neg (by simp [hhigh]), if_neg (by simp [hlow])]

/-- A pair of surrogates is a character. -/
theorem ofUnits?_pair {high low : Nat} (hhigh : isHighSurrogate high = true)
    (hlow : isLowSurrogate low = true) (units : List Nat) :
    ofUnits? (high :: low :: units) = (ofUnits? units).map
      (Char.ofNat (0x10000 + (high - 0xD800) * 0x400 + (low - 0xDC00)) :: ·) := by
  rw [ofUnits?, if_pos hhigh, if_pos hlow]

/-- A character is read back from its units. -/
theorem ofUnits?_unitsOf_append (c : Char) (units : List Nat) :
    ofUnits? (unitsOf c ++ units) = (ofUnits? units).map (c :: ·) := by
  have hc := toNat_cases c
  rw [unitsOf]
  split
  · have hhigh : isHighSurrogate c.toNat = false := by
      rw [isHighSurrogate, Bool.and_eq_false_iff, decide_eq_false_iff_not, decide_eq_false_iff_not]
      omega
    have hlow : isLowSurrogate c.toNat = false := by
      rw [isLowSurrogate, Bool.and_eq_false_iff, decide_eq_false_iff_not, decide_eq_false_iff_not]
      omega
    rw [List.singleton_append, ofUnits?_cons hhigh hlow, Char.ofNat_toNat]
  · have hhigh : isHighSurrogate (0xD800 + (c.toNat - 0x10000) / 0x400) = true := by
      rw [isHighSurrogate, Bool.and_eq_true, decide_eq_true_eq, decide_eq_true_eq]
      omega
    have hlow : isLowSurrogate (0xDC00 + (c.toNat - 0x10000) % 0x400) = true := by
      rw [isLowSurrogate, Bool.and_eq_true, decide_eq_true_eq, decide_eq_true_eq]
      omega
    have hcode : 0x10000 + (0xD800 + (c.toNat - 0x10000) / 0x400 - 0xD800) * 0x400
        + (0xDC00 + (c.toNat - 0x10000) % 0x400 - 0xDC00) = c.toNat := by
      omega
    rw [List.cons_append, List.singleton_append, ofUnits?_pair hhigh hlow, hcode, Char.ofNat_toNat]

/-- Characters are read back from their units. -/
theorem ofUnits?_flatMap_unitsOf (cs : List Char) : ofUnits? (cs.flatMap unitsOf) = some cs := by
  induction cs with
  | nil => rfl
  | cons c cs ih => rw [List.flatMap_cons, ofUnits?_unitsOf_append, ih, Option.map_some]

/-- A text is read back from its bytes, in the order in which they were written. -/
theorem decode_encode (order : ByteOrder) (cs : List Char) :
    decode order (encode order cs) = some cs := by
  have hunits : ∀ unit ∈ cs.flatMap unitsOf, unit < 0x10000 := by
    intro unit hunit
    obtain ⟨c, -, hc⟩ := List.mem_flatMap.1 hunit
    exact unitsOf_lt c unit hc
  rw [decode, encode, units?_flatMap_split order hunits, Option.bind_some, ofUnits?_flatMap_unitsOf]

/-! ### Surrogates without their partner -/

/-- The unit `unit` is a surrogate **without its partner**, when the units `before` stand before it
and `after` behind it: a first half that no second half follows, or a second half behind something
else than a first half. -/
def IsUnpaired (before : List Nat) (unit : Nat) (after : List Nat) : Prop :=
  (isHighSurrogate unit = true ∧ ∀ next ∈ after.head?, isLowSurrogate next = false) ∨
    (isLowSurrogate unit = true ∧ ∀ last ∈ before.getLast?, isHighSurrogate last = false)

/-- One of the units is a surrogate without its partner. -/
def HasUnpaired (units : List Nat) : Prop :=
  ∃ before unit after, units = before ++ unit :: after ∧ IsUnpaired before unit after

/-- The bytes are **ill-formed** UTF-16: their number is odd, or they spell a surrogate without its
partner. -/
def IsIllFormed (order : ByteOrder) (bytes : List UInt8) : Prop :=
  bytes.length % 2 = 1 ∨ ∃ units, units? order bytes = some units ∧ HasUnpaired units

/-- No unit is both halves of a pair. -/
theorem isLowSurrogate_of_isHighSurrogate {unit : Nat} (h : isHighSurrogate unit = true) :
    isLowSurrogate unit = false := by
  rw [isHighSurrogate, Bool.and_eq_true, decide_eq_true_eq, decide_eq_true_eq] at h
  rw [isLowSurrogate, Bool.and_eq_false_iff, decide_eq_false_iff_not]
  omega

/-- A low surrogate is no high surrogate. -/
theorem isHighSurrogate_of_isLowSurrogate {unit : Nat} (h : isLowSurrogate unit = true) :
    isHighSurrogate unit = false := by
  by_contra hhigh
  rw [isLowSurrogate_of_isHighSurrogate (by simpa using hhigh)] at h
  cases h

/-- Among no units there is no surrogate without its partner. -/
theorem not_hasUnpaired_nil : ¬ HasUnpaired [] := by
  rintro ⟨before, unit, after, h, -⟩
  simp at h

/-- A surrogate alone has no partner. -/
theorem hasUnpaired_singleton {unit : Nat} :
    HasUnpaired [unit] ↔ isHighSurrogate unit = true ∨ isLowSurrogate unit = true := by
  constructor
  · rintro ⟨before, u, after, heq, hu⟩
    obtain ⟨rfl, heq⟩ | ⟨before', rfl, heq⟩ := List.cons_eq_append_iff.1 heq
    · obtain ⟨rfl, -⟩ := List.cons.inj heq
      exact hu.imp And.left And.left
    · simp at heq
  · intro h
    exact ⟨[], unit, [], rfl, h.imp (⟨·, nofun⟩) (⟨·, nofun⟩)⟩

/-- Whether surrogates have their partners is decided apart before and behind a unit that is no
first half of a pair. -/
theorem hasUnpaired_append {front : List Nat}
    (hfront : ∀ last ∈ front.getLast?, isHighSurrogate last = false) (units : List Nat) :
    HasUnpaired (front ++ units) ↔ HasUnpaired front ∨ HasUnpaired units := by
  constructor
  · rintro ⟨before, unit, after, heq, hunit⟩
    obtain ⟨behind, rfl, rfl⟩ | ⟨behind, rfl, hbehind⟩ := List.append_eq_append_iff.1 heq
    · -- the unit stands behind the border; what is before it there is what was before it
      refine .inr ⟨behind, unit, after, rfl, hunit.imp_right fun ⟨hlow, hlast⟩ => ⟨hlow, ?_⟩⟩
      intro last hmem
      exact hlast last (List.mem_getLast?_append_of_mem_getLast? hmem)
    · cases behind with
      | nil =>
          obtain rfl : units = unit :: after := by simpa using hbehind.symm
          refine .inr ⟨[], unit, after, rfl, hunit.imp_right fun ⟨hlow, _⟩ => ⟨hlow, nofun⟩⟩
      | cons u behind =>
          obtain ⟨rfl, rfl⟩ := List.cons.inj hbehind
          refine .inl ⟨before, unit, behind, rfl, hunit.imp_left fun ⟨hhigh, hnext⟩ => ⟨hhigh, ?_⟩⟩
          intro next hmem
          exact hnext next (by simp [Option.mem_def.1 hmem])
  · rintro (⟨before, unit, after, rfl, hunit⟩ | ⟨before, unit, after, rfl, hunit⟩)
    · refine ⟨before, unit, after ++ units, by simp,
        hunit.imp_left fun ⟨hhigh, hnext⟩ => ⟨hhigh, ?_⟩⟩
      intro next hmem
      cases after with
      | nil =>
          -- the border would stand behind a first half
          have hlast := hfront unit (by simp)
          rw [hhigh] at hlast
          cases hlast
      | cons a after => exact hnext next hmem
    · refine ⟨front ++ before, unit, after, by simp,
        hunit.imp_right fun ⟨hlow, hlast⟩ => ⟨hlow, ?_⟩⟩
      intro last hmem
      cases before with
      | nil => exact hfront last (by simpa using hmem)
      | cons b before => exact hlast last (by simpa using hmem)

/-- A pair has no surrogate without its partner. -/
theorem not_hasUnpaired_pair {high low : Nat} (hhigh : isHighSurrogate high = true)
    (hlow : isLowSurrogate low = true) : ¬ HasUnpaired [high, low] := by
  have hhigh_not : isLowSurrogate high = false := isLowSurrogate_of_isHighSurrogate hhigh
  have hlow_not : isHighSurrogate low = false := isHighSurrogate_of_isLowSurrogate hlow
  rintro ⟨before, unit, after, heq, hunit⟩
  obtain ⟨rfl, hrest⟩ | ⟨before', rfl, hrest⟩ := List.cons_eq_append_iff.1 heq
  · -- the first half has the second one behind it
    obtain ⟨rfl, rfl⟩ := List.cons.inj hrest
    obtain ⟨-, hnext⟩ | ⟨hlow', -⟩ := hunit
    · rw [hnext low rfl] at hlow
      cases hlow
    · rw [hhigh_not] at hlow'
      cases hlow'
  · obtain ⟨rfl, hlast⟩ | ⟨_, rfl, hnil⟩ := List.cons_eq_append_iff.1 hrest
    · -- the second half has the first one before it
      obtain ⟨rfl, rfl⟩ := List.cons.inj hlast
      obtain ⟨hhigh', -⟩ | ⟨-, hbefore⟩ := hunit
      · rw [hlow_not] at hhigh'
        cases hhigh'
      · rw [hbefore high rfl] at hhigh
        cases hhigh
    · simp at hnil

/-- Units are no text exactly if one of them is a surrogate without its partner. -/
theorem ofUnits?_eq_none_iff {units : List Nat} : ofUnits? units = none ↔ HasUnpaired units := by
  fun_induction ofUnits? units with
  | case1 => simp [not_hasUnpaired_nil]
  | case2 unit h => simpa [hasUnpaired_singleton] using h
  | case3 unit h => simpa [hasUnpaired_singleton] using h
  | case4 high low rest hhigh hlow code ih =>
      have hlast : ∀ last ∈ [high, low].getLast?, isHighSurrogate last = false := by
        rintro _ ⟨⟩
        exact isHighSurrogate_of_isLowSurrogate hlow
      have happend := hasUnpaired_append hlast rest
      rw [Option.map_eq_none_iff, ih]
      simpa [not_hasUnpaired_pair hhigh hlow] using happend.symm
  | case5 high low rest hhigh hlow =>
      refine iff_of_true rfl ⟨[], high, low :: rest, rfl, .inl ⟨hhigh, ?_⟩⟩
      rintro _ ⟨⟩
      simpa using hlow
  | case6 high low rest hhigh hlow =>
      exact iff_of_true rfl ⟨[], high, low :: rest, rfl, .inr ⟨hlow, nofun⟩⟩
  | case7 high low rest hhigh hlow ih =>
      have hlast : ∀ last ∈ [high].getLast?, isHighSurrogate last = false := by
        rintro _ ⟨⟩
        simpa using hhigh
      have happend := hasUnpaired_append hlast (low :: rest)
      rw [Option.map_eq_none_iff, ih]
      simpa [hasUnpaired_singleton, hhigh, hlow] using happend.symm

/-! ### Bytes that are no text -/

/-- Bytes spell units exactly if their number is even. -/
theorem units?_eq_none_iff (order : ByteOrder) (bytes : List UInt8) :
    units? order bytes = none ↔ bytes.length % 2 = 1 := by
  fun_induction units? order bytes with
  | case1 => simp
  | case2 => simp
  | case3 a b rest ih =>
      rw [Option.map_eq_none_iff, ih, List.length_cons, List.length_cons]
      omega

/-- The bytes that are no text are the ill-formed ones. -/
theorem decode_eq_none_iff {order : ByteOrder} {bytes : List UInt8} :
    decode order bytes = none ↔ IsIllFormed order bytes := by
  rw [decode, IsIllFormed, ← units?_eq_none_iff order bytes]
  cases hunits : units? order bytes with
  | none => simp
  | some units => simp [ofUnits?_eq_none_iff]

/-! ### Bytes that are a text -/

/-- The two bytes of a unit are those it was joined from. -/
theorem split_join (order : ByteOrder) (a b : UInt8) :
    order.split (order.join a b) = [a, b] ∧ order.join a b < 0x10000 := by
  have ha : a.toNat < 256 := a.toNat_lt
  have hb : b.toNat < 256 := b.toNat_lt
  cases order with
  | little =>
      have hlow : (b.toNat * 256 + a.toNat) % 256 = a.toNat := by omega
      have hhigh : (b.toNat * 256 + a.toNat) / 256 = b.toNat := by omega
      simp only [ByteOrder.split, ByteOrder.join, hlow, hhigh, UInt8.ofNat_toNat, true_and]
      omega
  | big =>
      have hlow : (a.toNat * 256 + b.toNat) % 256 = b.toNat := by omega
      have hhigh : (a.toNat * 256 + b.toNat) / 256 = a.toNat := by omega
      simp only [ByteOrder.split, ByteOrder.join, hlow, hhigh, UInt8.ofNat_toNat, true_and]
      omega

/-- The units that were read from bytes are written with these bytes. -/
theorem flatMap_split_of_units? {order : ByteOrder} {bytes : List UInt8} {units : List Nat}
    (h : units? order bytes = some units) :
    units.flatMap order.split = bytes ∧ ∀ unit ∈ units, unit < 0x10000 := by
  fun_induction units? order bytes generalizing units with
  | case1 =>
      obtain rfl := Option.some.inj h
      exact ⟨rfl, nofun⟩
  | case2 => cases h
  | case3 a b rest ih =>
      obtain ⟨units, hrest, rfl⟩ := Option.map_eq_some_iff.1 h
      obtain ⟨hbytes, hbound⟩ := ih hrest
      obtain ⟨hsplit, hunit⟩ := split_join order a b
      refine ⟨?_, List.forall_mem_cons.2 ⟨hunit, hbound⟩⟩
      rw [List.flatMap_cons, hsplit, hbytes]
      rfl

/-- A character has the code point that it was made of. -/
theorem toNat_ofNat_of_isValidChar {code : Nat} (h : code.isValidChar) :
    (Char.ofNat code).toNat = code := by
  rw [Char.ofNat, dif_pos h]
  rfl

/-- A unit that is no surrogate is the one unit of its character. -/
theorem unitsOf_ofNat {unit : Nat} (hbound : unit < 0x10000) (hhigh : isHighSurrogate unit = false)
    (hlow : isLowSurrogate unit = false) : unitsOf (Char.ofNat unit) = [unit] := by
  rw [isHighSurrogate, Bool.and_eq_false_iff, decide_eq_false_iff_not,
    decide_eq_false_iff_not] at hhigh
  rw [isLowSurrogate, Bool.and_eq_false_iff, decide_eq_false_iff_not,
    decide_eq_false_iff_not] at hlow
  have hvalid : unit.isValidChar := by
    rw [Nat.isValidChar]
    omega
  rw [unitsOf, toNat_ofNat_of_isValidChar hvalid, if_pos hbound]

/-- A pair of surrogates are the two units of its character. -/
theorem unitsOf_ofNat_pair {high low : Nat} (hhigh : isHighSurrogate high = true)
    (hlow : isLowSurrogate low = true) :
    unitsOf (Char.ofNat (0x10000 + (high - 0xD800) * 0x400 + (low - 0xDC00))) = [high, low] := by
  rw [isHighSurrogate, Bool.and_eq_true, decide_eq_true_eq, decide_eq_true_eq] at hhigh
  rw [isLowSurrogate, Bool.and_eq_true, decide_eq_true_eq, decide_eq_true_eq] at hlow
  generalize hcode : 0x10000 + (high - 0xD800) * 0x400 + (low - 0xDC00) = code
  have hvalid : code.isValidChar := by
    rw [Nat.isValidChar]
    omega
  have hfirst : 0xD800 + (code - 0x10000) / 0x400 = high := by omega
  have hsecond : 0xDC00 + (code - 0x10000) % 0x400 = low := by omega
  rw [unitsOf, toNat_ofNat_of_isValidChar hvalid, if_neg (by omega), hfirst, hsecond]

/-- The characters that were read from units are written with these units. -/
theorem flatMap_unitsOf_of_ofUnits? {units : List Nat} {cs : List Char}
    (h : ofUnits? units = some cs) (hbound : ∀ unit ∈ units, unit < 0x10000) :
    cs.flatMap unitsOf = units := by
  fun_induction ofUnits? units generalizing cs with
  | case1 =>
      obtain rfl := Option.some.inj h
      rfl
  | case2 => cases h
  | case3 unit hunit =>
      obtain rfl := Option.some.inj h
      rw [Bool.or_eq_true, not_or, Bool.not_eq_true, Bool.not_eq_true] at hunit
      rw [List.flatMap_singleton, unitsOf_ofNat (hbound unit (by simp)) hunit.1 hunit.2]
  | case4 high low rest hhigh hlow code =>
      rename_i ih
      obtain ⟨cs, hrest, rfl⟩ := Option.map_eq_some_iff.1 h
      rw [List.flatMap_cons, unitsOf_ofNat_pair hhigh hlow,
        ih hrest fun unit hunit => hbound unit (by simp [hunit])]
      rfl
  | case5 => cases h
  | case6 => cases h
  | case7 high low rest hhigh hlow ih =>
      obtain ⟨cs, hrest, rfl⟩ := Option.map_eq_some_iff.1 h
      rw [Bool.not_eq_true] at hhigh hlow
      rw [List.flatMap_cons, unitsOf_ofNat (hbound high (by simp)) hhigh hlow,
        ih hrest fun unit hunit => hbound unit (by simp [hunit])]
      rfl

/-- The bytes from which a text is read are those with which it is written. -/
theorem decode_eq_some_iff {order : ByteOrder} {bytes : List UInt8} {cs : List Char} :
    decode order bytes = some cs ↔ bytes = encode order cs := by
  constructor
  · intro h
    obtain ⟨units, hunits, hcs⟩ := Option.bind_eq_some_iff.1 h
    obtain ⟨hbytes, hbound⟩ := flatMap_split_of_units? hunits
    rw [encode, flatMap_unitsOf_of_ofUnits? hcs hbound, hbytes]
  · rintro rfl
    exact decode_encode order cs

end CreateTable.Encoding.Utf16
