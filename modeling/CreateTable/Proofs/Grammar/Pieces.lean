import CreateTable.Proofs.Grammar.Segment

/-!
# Rows of items

The items of a row are separated by commas, and an item may have commas of its own inside of
parentheses. No rule splits the row: it reads an item, looks for a comma, and goes on. This
module splits the row first, at its commas outside of parentheses, and shows that both ways lead
to the same items.

## Main definitions

* `Cursor.IsBalanced`: every parenthesis has its partner.
* `Cursor.pieces`: the parts between the commas outside of parentheses.
* `Cursor.Joined`: tokens that are a row of parts with commas between them.
* `Cursor.Row`: parts one after the other.

## Main statements

* `Cursor.joined_segments_iff`: balanced tokens are joined from segments in one way, their
  pieces.
* `Rule.separatedFrom_eq_ok_iff`: a row is read by reading each of its pieces completely.
-/

namespace CreateTable

/-- The number of open parentheses behind a token, when `n` are open before it. A closing
parenthesis needs an open one. -/
def Kind.nesting? : Kind → Nat → Option Nat
  | .leftParen, n => some (n + 1)
  | .rightParen, n + 1 => some n
  | .rightParen, 0 => none
  | _, n => some n

/-- Where the depth counts at all, it is the number of open parentheses. -/
theorem Kind.nesting?_of_depth? {k : Kind} {n m : Nat} (h : k.depth? n = some m) :
    k.nesting? n = some m := by
  cases k <;> cases n <;> simp_all [Kind.depth?, Kind.nesting?]

/-- The depth counts on significant tokens other than commas outside of parentheses. -/
theorem Kind.depth?_of_nesting? {k : Kind} {n m : Nat} (h : k.nesting? n = some m)
    (hk : k.isTrivia = false) (hcomma : ¬ (k = .comma ∧ n = 0)) : k.depth? n = some m := by
  cases k <;> cases n <;> simp_all [Kind.depth?, Kind.nesting?, Kind.isTrivia]

/-- Where the depth counts, no comma stands outside of parentheses. -/
theorem Kind.ne_comma_of_depth? {k : Kind} {n m : Nat} (h : k.depth? n = some m) :
    ¬ (k = .comma ∧ n = 0) := by
  rintro ⟨rfl, rfl⟩
  simp [Kind.depth?] at h

namespace Cursor

/-- The number of open parentheses behind the tokens `c`, when `n` are open before them. -/
def nestingAfter? (n : Nat) (c : Cursor) : Option Nat :=
  c.foldlM (fun n t => t.kind.nesting? n) n

/-- Tokens are **balanced** when every parenthesis among them has its partner. -/
def IsBalanced (c : Cursor) : Prop :=
  c.nestingAfter? 0 = some 0

/-- The parts of `c` between its commas outside of parentheses, when `n` parentheses are open
before its first token. -/
def piecesFrom : Nat → Cursor → List Cursor
  | _, [] => [[]]
  | n, t :: c =>
    if t.kind = .comma ∧ n = 0 then [] :: piecesFrom 0 c
    else (piecesFrom ((t.kind.nesting? n).getD 0) c).modifyHead (t :: ·)

/-- The parts of a row between its commas outside of parentheses. An empty row has no part. -/
def pieces (c : Cursor) : List Cursor :=
  if c.isEmpty then [] else c.piecesFrom 0

/-- The tokens `c` are the parts `ss` with one comma between each two. -/
inductive Joined : Cursor → List Cursor → Prop
  | single (s : Cursor) : Joined s [s]
  | cons {s : Cursor} {t : Token} {c : Cursor} {ss : List Cursor} :
    t.kind = .comma → Joined c ss → Joined (s ++ t :: c) (s :: ss)

/-- Parts one after the other, of each of which `p` holds. -/
inductive Row (p : Cursor → Prop) : Cursor → Prop
  | nil : Row p []
  | cons {ts us : Cursor} : p ts → Row p us → Row p (ts ++ us)

/-- Behind no tokens the number of open parentheses is the same. -/
@[simp] theorem nestingAfter?_nil (n : Nat) : nestingAfter? n [] = some n := rfl

/-- The first token is counted first, and the rest goes on from there. -/
@[simp] theorem nestingAfter?_cons (n : Nat) (t : Token) (c : Cursor) :
    nestingAfter? n (t :: c) = (t.kind.nesting? n).bind fun m => nestingAfter? m c := rfl

/-- The second of two rows is counted from where the first one ended. -/
theorem nestingAfter?_append (n : Nat) (c d : Cursor) :
    nestingAfter? n (c ++ d) = (nestingAfter? n c).bind fun m => nestingAfter? m d := by
  simp [nestingAfter?, List.foldlM_append]

/-- Where the depth counts for a row, it is the number of open parentheses. -/
theorem nestingAfter?_of_depthAfter? {s : Cursor} {n m : Nat} (h : s.depthAfter? n = some m) :
    s.nestingAfter? n = some m := by
  induction s generalizing n with
  | nil => exact h
  | cons t s ih =>
      rw [depthAfter?_cons, Option.bind_eq_some_iff] at h
      obtain ⟨k, hk, h⟩ := h
      rw [nestingAfter?_cons, Kind.nesting?_of_depth? hk, Option.bind_some, ih h]

/-! ### Splitting what was joined -/

/-- Tokens of which the depth counts belong to the first piece of what they begin. -/
theorem piecesFrom_append {s : Cursor} {n m : Nat} (h : s.depthAfter? n = some m) (x : Cursor) :
    piecesFrom n (s ++ x) = (piecesFrom m x).modifyHead (s ++ ·) := by
  induction s generalizing n with
  | nil =>
      obtain rfl : n = m := Option.some.inj h
      exact (congrFun List.modifyHead_id (piecesFrom n x)).symm
  | cons t s ih =>
      rw [depthAfter?_cons, Option.bind_eq_some_iff] at h
      obtain ⟨k, hk, h⟩ := h
      rw [List.cons_append, piecesFrom, if_neg (Kind.ne_comma_of_depth? hk),
        Kind.nesting?_of_depth? hk, Option.getD_some, ih h, List.modifyHead_modifyHead]
      rfl

/-- A segment is its own and only piece. -/
theorem IsSegment.piecesFrom {s : Cursor} (h : s.IsSegment) : s.piecesFrom 0 = [s] := by
  have hpieces := piecesFrom_append h []
  rwa [List.append_nil, Cursor.piecesFrom, List.modifyHead_cons, List.append_nil] at hpieces

/-- A segment before a comma is the first piece. -/
theorem IsSegment.piecesFrom_comma {s c : Cursor} {t : Token} (h : s.IsSegment)
    (ht : t.kind = .comma) : (s ++ t :: c).piecesFrom 0 = s :: c.piecesFrom 0 := by
  rw [piecesFrom_append h, Cursor.piecesFrom, if_pos ⟨ht, rfl⟩, List.modifyHead_cons,
    List.append_nil]

/-- Segments that are joined by commas are the pieces of the row. -/
theorem Joined.piecesFrom {c : Cursor} {ss : List Cursor} (h : Joined c ss)
    (hss : ∀ s ∈ ss, s.IsSegment) : c.piecesFrom 0 = ss := by
  induction h with
  | single s => exact (hss s List.mem_cons_self).piecesFrom
  | cons ht _ ih =>
      rw [List.forall_mem_cons] at hss
      rw [hss.1.piecesFrom_comma ht, ih hss.2]

/-- Segments that are joined by commas are balanced together. -/
theorem Joined.isBalanced {c : Cursor} {ss : List Cursor} (h : Joined c ss)
    (hss : ∀ s ∈ ss, s.IsSegment) : c.IsBalanced := by
  induction h with
  | single s => exact nestingAfter?_of_depthAfter? (hss s List.mem_cons_self)
  | cons ht _ ih =>
      rw [List.forall_mem_cons] at hss
      have hs := nestingAfter?_of_depthAfter? hss.1
      rw [IsBalanced, nestingAfter?_append, hs, Option.bind_some, nestingAfter?_cons, ht]
      exact ih hss.2

/-! ### Joining what was split -/

/-- A token in front of a row belongs to its first part. -/
theorem Joined.cons_head {s c : Cursor} {ss : List Cursor} (t : Token)
    (h : Joined c (s :: ss)) : Joined (t :: c) ((t :: s) :: ss) := by
  cases h with
  | single => exact .single _
  | cons hcomma h => exact .cons (s := t :: s) hcomma h

/-- The pieces of balanced tokens are segments, and joined they are the tokens. Inside of
parentheses this holds of all pieces but the first, which ends what is open. -/
theorem piecesFrom_eq_cons {c : Cursor} {n : Nat} (hc : c.IsBare)
    (h : c.nestingAfter? n = some 0) :
    ∃ s ss, c.piecesFrom n = s :: ss ∧ s.depthAfter? n = some 0 ∧ Joined c (s :: ss) ∧
      ∀ s' ∈ ss, s'.IsSegment := by
  induction c generalizing n with
  | nil => exact ⟨[], [], rfl, h, .single [], by simp⟩
  | cons t c ih =>
      obtain ⟨ht, hc⟩ := isBare_cons.1 hc
      rw [nestingAfter?_cons, Option.bind_eq_some_iff] at h
      obtain ⟨k, hk, h⟩ := h
      obtain ⟨s, ss, hpieces, hs, hjoined, hss⟩ := ih hc h
      by_cases hcomma : t.kind = .comma ∧ n = 0
      · obtain ⟨hkind, rfl⟩ := hcomma
        obtain rfl : k = 0 := by simpa [hkind, Kind.nesting?, eq_comm] using hk
        refine ⟨[], s :: ss, ?_, rfl, .cons (s := []) hkind hjoined, ?_⟩
        · rw [piecesFrom, if_pos ⟨hkind, rfl⟩, hpieces]
        · exact List.forall_mem_cons.2 ⟨hs, hss⟩
      · refine ⟨t :: s, ss, ?_, ?_, hjoined.cons_head t, hss⟩
        · rw [piecesFrom, if_neg hcomma, hk, Option.getD_some, hpieces, List.modifyHead_cons]
        · rw [depthAfter?_cons, Kind.depth?_of_nesting? hk ht hcomma, Option.bind_some, hs]

/-- Tokens are joined from segments exactly if they are balanced, and then the segments are their
pieces. -/
theorem joined_segments_iff {c : Cursor} {ss : List Cursor} (hc : c.IsBare) :
    (Joined c ss ∧ ∀ s ∈ ss, s.IsSegment) ↔ c.IsBalanced ∧ c.piecesFrom 0 = ss := by
  constructor
  · rintro ⟨h, hss⟩
    exact ⟨h.isBalanced hss, h.piecesFrom hss⟩
  · rintro ⟨h, rfl⟩
    obtain ⟨s, ss, hpieces, hs, hjoined, hss⟩ := piecesFrom_eq_cons hc h
    rw [hpieces]
    exact ⟨hjoined, List.forall_mem_cons.2 ⟨hs, hss⟩⟩

/-- The tokens of a piece are tokens of the row. -/
theorem mem_of_mem_piecesFrom {c s : Cursor} {n : Nat} {t : Token}
    (hs : s ∈ c.piecesFrom n) (ht : t ∈ s) : t ∈ c := by
  induction c generalizing n s with
  | nil =>
      obtain rfl := List.mem_singleton.1 hs
      exact ht
  | cons u c ih =>
      rw [piecesFrom] at hs
      split at hs
      · rcases List.mem_cons.1 hs with rfl | hs
        · cases ht
        · exact List.mem_cons_of_mem u (ih hs ht)
      · cases hpieces : piecesFrom ((u.kind.nesting? n).getD 0) c with
        | nil => simp [hpieces] at hs
        | cons d ds =>
            rw [hpieces, List.modifyHead_cons] at hs
            have hmem {e : Cursor} (he : e ∈ d :: ds) :
                e ∈ piecesFrom ((u.kind.nesting? n).getD 0) c := by rwa [hpieces]
            rcases List.mem_cons.1 hs with rfl | hs
            · rcases List.mem_cons.1 ht with rfl | ht
              · exact List.mem_cons_self
              · exact List.mem_cons_of_mem u (ih (hmem List.mem_cons_self) ht)
            · exact List.mem_cons_of_mem u (ih (hmem (List.mem_cons_of_mem d hs)) ht)

/-- The pieces of a row have tokens of the row only. -/
theorem mem_of_mem_pieces {c s : Cursor} {t : Token} (hs : s ∈ c.pieces) (ht : t ∈ s) :
    t ∈ c := by
  rw [pieces] at hs
  split at hs
  · cases hs
  · exact mem_of_mem_piecesFrom hs ht

end Cursor

/-! ### Reading a row -/

namespace Rule

variable {α : Type} {A : (String → String → Prop) → α → α → Prop} {r : Rule α}
  {c rest : Cursor} {close : Token} {as : List α}

/-- What is read as a row up to a parenthesis is a row of segments, each of them read completely. -/
theorem joined_of_separatedFrom (hr : ∀ S : Simulation, S.Obeys 0 0 (A S.word) r r)
    (hA : ∀ a b, A Eq a b → a = b) (hc : c.IsBare) (hclose : close.kind = .rightParen)
    (h : separatedFrom (Matcher.mark .comma) r c = (.ok as, close :: rest)) :
    ∃ b ss, c = b ++ close :: rest ∧ Cursor.Joined b ss ∧ (∀ s ∈ ss, s.IsSegment) ∧
      List.Forall₂ (fun s a => r.runFrom s = (.ok a, [])) ss as := by
  induction hlen : c.length using Nat.strongRecOn generalizing c as with
  | _ len ih =>
  rw [separatedFrom] at h
  rcases hitem : r.runFrom c with ⟨e | a, behind⟩
  · simp [hitem] at h
  obtain ⟨s', rfl, -⟩ := Rule.exists_prefix hc (hr _) hitem
  have hbehind := (Cursor.isBare_append.1 hc).2
  rw [hitem] at h
  rcases hsep : (Matcher.mark .comma).run behind with _ | ⟨⟨⟩, next⟩
  · -- the row ends here, in front of the parenthesis
    simp only [hsep, Prod.mk.injEq, Except.ok.injEq] at h
    obtain ⟨rfl, rfl⟩ := h
    have hborder := Cursor.isBorder_cons rest (.inr hclose)
    obtain ⟨s, hs, hsegment, hread⟩ := (Rule.runFrom_eq_ok_iff hr hA hc hborder).1 hitem
    exact ⟨s, [s], hs, .single s, by simpa using hsegment, .cons hread .nil⟩
  · obtain ⟨t, rfl, ht⟩ := (Matcher.run_mark_eq_some_iff hbehind).1 hsep
    have hborder := Cursor.isBorder_cons next (.inl ht)
    obtain ⟨s, hs, hsegment, hread⟩ := (Rule.runFrom_eq_ok_iff hr hA hc hborder).1 hitem
    have hlt : next.length < (s' ++ t :: next).length := by simp; omega
    simp only [hsep, hlt, if_true] at h
    rcases hrow : separatedFrom (Matcher.mark .comma) r next with ⟨e | as', stop⟩
    · simp [hrow] at h
    simp only [hrow, Prod.mk.injEq, Except.ok.injEq] at h
    obtain ⟨rfl, rfl⟩ := h
    have hnext := (Cursor.isBare_cons.1 hbehind).2
    obtain ⟨b, ss, rfl, hjoined, hss, hall⟩ := ih _ (hlen ▸ hlt) hnext hrow rfl
    refine ⟨s ++ t :: b, s :: ss, ?_, .cons ht hjoined, ?_, .cons hread hall⟩
    · rw [hs, List.append_assoc, List.cons_append]
    · exact List.forall_mem_cons.2 ⟨hsegment, hss⟩

/-- A row of segments before a parenthesis, each of them read completely, is read as a row. -/
theorem separatedFrom_of_joined (hr : ∀ S : Simulation, S.Obeys 0 0 (A S.word) r r)
    (hA : ∀ a b, A Eq a b → a = b) {b : Cursor} {ss : List Cursor}
    (hc : Cursor.IsBare (b ++ close :: rest)) (hclose : close.kind = .rightParen)
    (hjoined : Cursor.Joined b ss) (hss : ∀ s ∈ ss, s.IsSegment)
    (hall : List.Forall₂ (fun s a => r.runFrom s = (.ok a, [])) ss as) :
    separatedFrom (Matcher.mark .comma) r (b ++ close :: rest) = (.ok as, close :: rest) := by
  induction hjoined generalizing as with
  | single s =>
      obtain ⟨a, _, hread, hnil, rfl⟩ := List.forall₂_cons_left_iff.1 hall
      obtain rfl := List.forall₂_nil_left_iff.1 hnil
      have hborder := Cursor.isBorder_cons rest (.inr hclose)
      have hitem := (Rule.runFrom_eq_ok_iff hr hA hc hborder).2
        ⟨s, rfl, hss s List.mem_cons_self, hread⟩
      have hsep : (Matcher.mark .comma).run (close :: rest) = none := by
        refine Option.eq_none_iff_forall_ne_some.2 fun ⟨u, next⟩ h => ?_
        obtain ⟨t, ht, hkind⟩ := (Matcher.run_mark_eq_some_iff (Cursor.isBare_append.1 hc).2).1 h
        rw [← (List.cons.inj ht).1, hclose] at hkind
        cases hkind
      rw [separatedFrom, hitem]
      simp only [hsep]
  | @cons s t b ss ht _ ih =>
      obtain ⟨a, as, hread, htail, rfl⟩ := List.forall₂_cons_left_iff.1 hall
      rw [List.forall_mem_cons] at hss
      rw [List.append_assoc, List.cons_append] at hc ⊢
      have hbehind := (Cursor.isBare_append.1 hc).2
      have hborder := Cursor.isBorder_cons (b ++ close :: rest) (.inl ht)
      have hitem := (Rule.runFrom_eq_ok_iff hr hA hc hborder).2 ⟨s, rfl, hss.1, hread⟩
      have hsep : (Matcher.mark .comma).run (t :: (b ++ close :: rest))
          = some ((), b ++ close :: rest) :=
        (Matcher.run_mark_eq_some_iff hbehind).2 ⟨t, rfl, ht⟩
      have hrow := ih (Cursor.isBare_cons.1 hbehind).2 hss.2 htail
      have hlt : (b ++ close :: rest).length < (s ++ t :: (b ++ close :: rest)).length := by
        simp only [List.length_append, List.length_cons]
        omega
      rw [separatedFrom, hitem]
      simp only [hsep, hlt, if_true, hrow]

/-- A row is read up to a closing parenthesis exactly if the tokens before that are balanced and
each of their pieces is read completely. -/
theorem separatedFrom_eq_ok_iff (hr : ∀ S : Simulation, S.Obeys 0 0 (A S.word) r r)
    (hA : ∀ a b, A Eq a b → a = b) (hc : c.IsBare) (hclose : close.kind = .rightParen) :
    separatedFrom (Matcher.mark .comma) r c = (.ok as, close :: rest) ↔
      ∃ b, c = b ++ close :: rest ∧ b.IsBalanced ∧
        List.Forall₂ (fun s a => r.runFrom s = (.ok a, [])) (b.piecesFrom 0) as := by
  constructor
  · intro h
    obtain ⟨b, ss, rfl, hjoined, hss, hall⟩ := joined_of_separatedFrom hr hA hc hclose h
    have hb := (Cursor.isBare_append.1 hc).1
    obtain ⟨hbalanced, rfl⟩ := (Cursor.joined_segments_iff hb).1 ⟨hjoined, hss⟩
    exact ⟨b, rfl, hbalanced, hall⟩
  · rintro ⟨b, rfl, hbalanced, hall⟩
    have hb := (Cursor.isBare_append.1 hc).1
    obtain ⟨hjoined, hss⟩ := (Cursor.joined_segments_iff hb).2 ⟨hbalanced, rfl⟩
    exact separatedFrom_of_joined hr hA hc hclose hjoined hss hall

end Rule

end CreateTable
