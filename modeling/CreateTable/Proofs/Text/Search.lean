import CreateTable.Text.AsciiCase
import CreateTable.Text.Location

/-!
# Occurrences of a word

A word occurs in a text when a part of the text is the word up to the case of ASCII letters.

## Main statements

* `lastIndex?_eq_none_iff`, `lastIndex?_eq_some_iff`: the search finds the last occurrence.
* `lastIndex?_tail_eq_none_iff`: that an occurrence is the last, said of the places of all.
* `lastIndex?_append_cons_eq_none`: a character that is not in the word parts its occurrences.
-/

namespace CreateTable.Text

variable {word cs : List Char}

/-- A text begins with a word exactly if the word is a prefix, both in lower case. -/
theorem startsWithWord_iff_prefix :
    startsWithWord word cs = true ↔ foldCase word <+: foldCase cs := by
  rw [startsWithWord, beq_iff_eq, List.prefix_iff_eq_take, length_foldCase, foldCase, foldCase,
    foldCase, ← List.map_take, eq_comm]

/-- A text that begins with a word is a spelling of the word and a rest. -/
theorem startsWithWord_iff :
    startsWithWord word cs = true ↔ ∃ w rest, cs = w ++ rest ∧ foldCase w = foldCase word := by
  rw [startsWithWord, beq_iff_eq]
  constructor
  · intro h
    exact ⟨cs.take word.length, cs.drop word.length, (List.take_append_drop _ _).symm, h⟩
  · rintro ⟨w, rest, rfl, h⟩
    have hlength := congrArg List.length h
    rw [length_foldCase, length_foldCase] at hlength
    rwa [← hlength, List.take_left]

/-- A spelling of a word has a character. -/
theorem ne_nil_of_foldCase_eq {w : List Char} (hword : word ≠ []) (h : foldCase w = foldCase word) :
    w ≠ [] := by
  rintro rfl
  exact hword (List.map_eq_nil_iff.1 h.symm)

/-- The empty word has no last place. -/
theorem lastIndex?_nil (cs : List Char) : lastIndex? [] cs = none := by
  induction cs with
  | nil => rfl
  | cons c cs ih => simp [lastIndex?, ih]

/-- The search finds nothing exactly if no part of the text is the word. -/
theorem lastIndex?_eq_none_iff (hword : word ≠ []) :
    lastIndex? word cs = none ↔ ∀ p w rest, cs = p ++ (w ++ rest) → foldCase w ≠ foldCase word := by
  induction cs with
  | nil =>
      simp only [lastIndex?, true_iff]
      intro p w rest heq h
      have hnil : w ++ rest = [] := (List.append_eq_nil_iff.1 heq.symm).2
      exact ne_nil_of_foldCase_eq hword h (List.append_eq_nil_iff.1 hnil).1
  | cons c cs ih =>
      have hstep : lastIndex? word (c :: cs) = none ↔
          lastIndex? word cs = none ∧ startsWithWord word (c :: cs) = false := by
        rw [lastIndex?]
        cases lastIndex? word cs with
        | none => simp [hword]
        | some n => simp
      rw [hstep, ih, ← Bool.not_eq_true, startsWithWord_iff]
      constructor
      · rintro ⟨hcs, hstart⟩ p w rest heq h
        cases p with
        | nil => exact hstart ⟨w, rest, heq, h⟩
        | cons d p => exact hcs p w rest (List.cons.inj heq).2 h
      · intro h
        refine ⟨fun p w rest heq => h (c :: p) w rest (by rw [heq, List.cons_append]), ?_⟩
        rintro ⟨w, rest, heq, hw⟩
        exact h [] w rest heq hw

/-- The search finds the last occurrence: one behind whose first character there is none. -/
theorem lastIndex?_eq_some_iff (hword : word ≠ []) {n : Nat} :
    lastIndex? word cs = some n ↔ ∃ p w rest, cs = p ++ (w ++ rest) ∧ byteLength p = n ∧
      foldCase w = foldCase word ∧ lastIndex? word (w ++ rest).tail = none := by
  constructor
  · intro h
    induction cs generalizing n with
    | nil => cases h
    | cons c cs ih =>
        rw [lastIndex?] at h
        cases hcs : lastIndex? word cs with
        | some m =>
            rw [hcs] at h
            obtain ⟨p, w, rest, rfl, rfl, hw, hnone⟩ := ih hcs
            obtain rfl := Option.some.inj h
            exact ⟨c :: p, w, rest, rfl, Nat.add_comm .., hw, hnone⟩
        | none =>
            rw [hcs] at h
            simp only [Option.ite_none_right_eq_some, Bool.and_eq_true] at h
            obtain ⟨⟨-, hstart⟩, hn⟩ := h
            obtain rfl := Option.some.inj hn
            obtain ⟨w, rest, heq, hw⟩ := startsWithWord_iff.1 hstart
            exact ⟨[], w, rest, heq, rfl, hw, by rw [← heq]; exact hcs⟩
  · rintro ⟨p, w, rest, rfl, rfl, hw, hnone⟩
    induction p with
    | nil =>
        obtain ⟨c, w, rfl⟩ := List.exists_cons_of_ne_nil (ne_nil_of_foldCase_eq hword hw)
        have hstart : startsWithWord word (c :: (w ++ rest)) = true :=
          startsWithWord_iff.2 ⟨c :: w, rest, rfl, hw⟩
        rw [List.cons_append, List.tail_cons] at hnone
        rw [List.nil_append, List.cons_append, lastIndex?, hnone, hstart]
        simp [hword, byteLength]
    | cons c p ih =>
        rw [List.cons_append, lastIndex?, ih, byteLength, Nat.add_comm]

/-- Behind the first character of an occurrence there is none exactly if every occurrence starts
there or before. -/
theorem lastIndex?_tail_eq_none_iff (hword : word ≠ []) {p w rest : List Char}
    (hw : foldCase w = foldCase word) :
    lastIndex? word (w ++ rest).tail = none ↔
      ∀ p' w' rest', p ++ (w ++ rest) = p' ++ (w' ++ rest') → foldCase w' = foldCase word →
        p'.length ≤ p.length := by
  obtain ⟨c, w, rfl⟩ := List.exists_cons_of_ne_nil (ne_nil_of_foldCase_eq hword hw)
  rw [List.cons_append, List.tail_cons, lastIndex?_eq_none_iff hword]
  constructor
  · intro h p' w' rest' heq hw'
    rcases List.append_eq_append_iff.1 heq with ⟨a, rfl, hbehind⟩ | ⟨a, rfl, -⟩
    · cases a with
      | nil => simp
      | cons d a => exact absurd hw' (h a w' rest' (List.cons.inj hbehind).2)
    · simp
  · intro h p' w' rest' heq hw'
    have hle := h (p ++ c :: p') w' rest' (by rw [heq]; simp) hw'
    simp only [List.length_append, List.length_cons] at hle
    omega

/-- Where a word does not occur, it does not occur in a part. -/
theorem lastIndex?_eq_none_of_infix (hword : word ≠ []) {ds : List Char} (hds : ds <:+: cs)
    (h : lastIndex? word cs = none) : lastIndex? word ds = none := by
  rw [lastIndex?_eq_none_iff hword] at h ⊢
  obtain ⟨a, b, rfl⟩ := hds
  rintro p w rest rfl
  exact h (a ++ p) w (rest ++ b) (by simp)

/-- No occurrence goes over a character that is not in the word. -/
theorem lastIndex?_append_cons_eq_none (hword : word ≠ []) {d : Char} {ds : List Char}
    (hd : d.toLower ∉ foldCase word) (hcs : lastIndex? word cs = none)
    (hds : lastIndex? word ds = none) : lastIndex? word (cs ++ d :: ds) = none := by
  rw [lastIndex?_eq_none_iff hword] at hcs hds ⊢
  intro p w rest heq h
  have hne := ne_nil_of_foldCase_eq hword h
  have hmem : d ∉ w := fun hdw => hd (h ▸ List.mem_map_of_mem hdw)
  -- the occurrence lies before the character or behind it
  rcases List.append_eq_append_iff.1 heq with ⟨a, rfl, hbehind⟩ | ⟨a, rfl, hbefore⟩
  · cases a with
    | nil =>
        obtain ⟨c, w, rfl⟩ := List.exists_cons_of_ne_nil hne
        exact hmem ((List.cons.inj hbehind).1 ▸ List.mem_cons_self)
    | cons e a => exact hds a w rest (List.cons.inj hbehind).2 h
  · rcases List.append_eq_append_iff.1 hbefore with ⟨b, rfl, hb⟩ | ⟨b, rfl, hb⟩
    · exact hcs p w b rfl h
    · cases b with
      | nil =>
          rw [List.append_nil] at h
          exact hcs p a [] (by simp) h
      | cons e b =>
          obtain rfl : d = e := (List.cons.inj hb).1
          exact hmem (by simp)

end CreateTable.Text
