import CreateTable.Proofs.Grammar.Pieces
import CreateTable.Proofs.Grammar.Progress

/-!
# Tokens that are cut off

A rule stops somewhere whether it succeeds or not. When its tokens end too early, it stops at their
end, unless it was about to read a part of several tokens that may be missing: of such a part it
takes all tokens or none, and so it stops where the part begins.

## Main definitions

* `Cursor.Begins`: tokens that begin a part and do not end it.
* `Cursor.WithComma`: a part and the comma behind it.
* `Rule.stop`: where a rule stops.

## Main statements

* `Cursor.Row.exists_begins`, `Cursor.Joined.exists_row`: where a row is cut.
* `Matcher.run_eq_none_of_begins`: what is only begun is not read.
* `Rule.stop_bind`, `Rule.Takes.stop_nil`: a sequence stops where its first part stops, if none of
  the others takes anything there; at the end none does.
* `Rule.exists_separatedFrom_row`: complete parts in front of a row do not change where it stops.
-/

namespace CreateTable

/-! ### Beginnings -/

namespace Cursor

variable {p : Cursor → Prop} {q x : Cursor}

/-- The tokens `s` **begin** a part of which `p` holds: they are some of its tokens, but not all. -/
def Begins (p : Cursor → Prop) (s : Cursor) : Prop :=
  s ≠ [] ∧ ∃ x, x ≠ [] ∧ p (s ++ x)

/-- A part with a comma behind it. -/
def WithComma (p : Cursor → Prop) (ts : Cursor) : Prop :=
  ∃ s t, ts = s ++ [t] ∧ p s ∧ t.kind = .comma

/-- Tokens are cut inside of their first part or behind it. -/
theorem exists_of_append_eq_append {a b : Cursor} (h : a ++ b = q ++ x) :
    (∃ y, y ≠ [] ∧ a = q ++ y) ∨ ∃ q', q = a ++ q' ∧ b = q' ++ x := by
  rcases List.append_eq_append_iff.1 h with ⟨q', hq, hb⟩ | ⟨y, ha, hx⟩
  · exact .inr ⟨q', hq, hb⟩
  · cases y with
    | nil => exact .inr ⟨[], by simpa using ha.symm, hx.symm⟩
    | cons t y => exact .inl ⟨t :: y, List.cons_ne_nil t y, ha⟩

/-- Parts one after the other are cut at the border of two parts or inside of one. -/
theorem Row.exists_begins (h : Row p (q ++ x)) :
    ∃ d s, q = d ++ s ∧ Row p d ∧ (s = [] ∨ Begins p s) := by
  generalize hc : q ++ x = c at h
  induction h generalizing q with
  | nil =>
      obtain ⟨rfl, -⟩ := List.append_eq_nil_iff.1 hc
      exact ⟨[], [], rfl, .nil, .inl rfl⟩
  | @cons ts us hts _ ih =>
      rcases exists_of_append_eq_append hc.symm with ⟨y, hy, rfl⟩ | ⟨q', rfl, hus⟩
      · refine ⟨[], q, rfl, .nil, ?_⟩
        by_cases hq : q = []
        · exact .inl hq
        · exact .inr ⟨hq, y, hy, hts⟩
      · obtain ⟨d, s, rfl, hd, hs⟩ := ih hus.symm
        exact ⟨ts ++ d, s, by rw [List.append_assoc], .cons hts hd, hs⟩

/-- Parts with commas between them are cut inside of one part or at its end. -/
theorem Joined.exists_row {c : Cursor} {ss : List Cursor} (h : Joined c ss)
    (hc : c = q ++ x) (hss : ∀ s ∈ ss, p s) :
    ∃ d s y, q = d ++ s ∧ Row (WithComma p) d ∧ s ++ y ∈ ss := by
  induction h generalizing q with
  | single s => exact ⟨[], q, x, rfl, .nil, hc ▸ List.mem_cons_self⟩
  | @cons s t c ss ht _ ih =>
      rw [List.forall_mem_cons] at hss
      rw [List.append_cons] at hc
      rcases exists_of_append_eq_append hc with ⟨y, hy, hs⟩ | ⟨q', rfl, hq'⟩
      · obtain ⟨z, u, rfl⟩ := (List.eq_nil_or_concat y).resolve_left hy
        rw [List.concat_eq_append, ← List.append_assoc] at hs
        obtain ⟨rfl, -⟩ := List.append_inj' hs rfl
        exact ⟨[], q, z, rfl, .nil, List.mem_cons_self⟩
      · obtain ⟨d, s', y, rfl, hd, hs'⟩ := ih hq' hss.2
        refine ⟨s ++ [t] ++ d, s', y, by simp only [List.append_assoc], ?_,
          List.mem_cons_of_mem s hs'⟩
        exact .cons ⟨s, t, rfl, hss.1, ht⟩ hd

end Cursor

/-- What is only begun is not read, if no part of which `p` holds begins with another one. -/
theorem Matcher.run_eq_none_of_begins {α : Type} {m : Matcher α} {p : Cursor → Prop} {s : Cursor}
    (hm : ∀ a rest, m.run s = some (a, rest) → ∃ ts, s = ts ++ rest ∧ p ts)
    (hp : ∀ ts x, p ts → p (ts ++ x) → x = []) (hs : s.Begins p) : m.run s = none := by
  refine Option.eq_none_iff_forall_ne_some.2 fun ⟨a, rest⟩ hrun => ?_
  obtain ⟨-, x, hx, hpart⟩ := hs
  obtain ⟨ts, rfl, hts⟩ := hm a rest hrun
  rw [List.append_assoc] at hpart
  exact hx (List.append_eq_nil_iff.1 (hp ts _ hts hpart)).2

/-! ### Where rules stop -/

namespace Rule

variable {α β : Type} {c d s : Cursor} {e : Expectation}

/-- The cursor at which a rule stops, whether it succeeds or not. -/
def stop (r : Rule α) (c : Cursor) : Cursor :=
  (r.runFrom c).2

/-- A rule stops at the cursor that it leaves. -/
theorem stop_of_runFrom {r : Rule α} {o : Except Expectation α} (h : r.runFrom c = (o, s)) :
    r.stop c = s := by
  rw [stop, h]

/-- A sequence stops where its second part stops, if its first part succeeded. -/
theorem stop_bind_of_ok {r : Rule α} {f : α → Rule β} {a : α} (h : r.runFrom c = (.ok a, d)) :
    (r >>= f).stop c = (f a).stop d := by
  rw [stop, runFrom_bind_of_ok h, stop]

/-- Where the first part of a sequence stops, the sequence stops, if the second part takes nothing
there. -/
theorem stop_bind {r : Rule α} {f : α → Rule β} (hr : r.stop c = s)
    (hf : ∀ a, (f a).stop s = s) : (r >>= f).stop c = s := by
  rw [stop] at hr ⊢
  rw [runFrom_bind]
  rcases hrun : r.runFrom c with ⟨_ | a, d⟩
  · rwa [hrun] at hr
  · rw [hrun] at hr
    obtain rfl : d = s := hr
    exact hf a

/-- A function of the result does not change where a rule stops. -/
theorem stop_map {r : Rule α} (f : α → β) (c : Cursor) : (f <$> r).stop c = r.stop c := by
  rw [stop, stop, runFrom_map]
  rcases r.runFrom c with ⟨_ | a, d⟩ <;> rfl

/-- A sequence stops at once where its first part is required and missing. -/
theorem stop_require_bind {m : Matcher α} {f : α → Rule β} (h : m.run c = none) :
    (require m e >>= f).stop c = c :=
  stop_of_runFrom (runFrom_bind_of_error (runFrom_require_of_none h))

/-- At the end of the tokens no rule goes on. -/
theorem Takes.stop_nil {r : Rule α} {k : Nat} (h : r.Takes k) : r.stop [] = [] := by
  rcases hrun : r.runFrom [] with ⟨e | a, s⟩
  · rw [stop_of_runFrom hrun]
    exact List.suffix_nil.1 (h.error rfl hrun).suffix
  · rw [stop_of_runFrom hrun]
    exact List.suffix_nil.1 (h.ok rfl hrun).suffix

/-! ### Rows -/

variable {p : Cursor → Prop} {r : Rule α}

/-- Complete parts in front of a row are read, and change neither whether it is read nor where the
reading stops. -/
theorem exists_separatedFrom_row (hd : d.Row (Cursor.WithComma p)) (hc : Cursor.IsBare (d ++ c))
    (hr : ∀ ts t y, p ts → t.kind = .comma → Cursor.IsBare (ts ++ t :: y) →
      ∃ a, r.runFrom (ts ++ t :: y) = (.ok a, t :: y)) :
    ∃ as, separatedFrom (Matcher.mark .comma) r (d ++ c) =
      ((separatedFrom (Matcher.mark .comma) r c).1.map (as ++ ·),
        (separatedFrom (Matcher.mark .comma) r c).2) := by
  induction hd with
  | nil =>
      refine ⟨[], ?_⟩
      rw [List.nil_append]
      rcases separatedFrom (Matcher.mark .comma) r c with ⟨_ | bs, stop⟩ <;> rfl
  | @cons _ us hts _ ih =>
      obtain ⟨ts, t, rfl, hts, ht⟩ := hts
      rw [List.append_assoc, List.append_assoc, List.singleton_append] at hc ⊢
      have hbehind := (Cursor.isBare_append.1 hc).2
      obtain ⟨as, has⟩ := ih (Cursor.isBare_cons.1 hbehind).2
      obtain ⟨a, ha⟩ := hr ts t (us ++ c) hts ht hc
      have hcomma : (Matcher.mark .comma).run (t :: (us ++ c)) = some ((), us ++ c) :=
        (Matcher.run_mark_eq_some_iff hbehind).2 ⟨t, rfl, ht⟩
      have hlt : (us ++ c).length < (ts ++ t :: (us ++ c)).length := by
        simp only [List.length_append, List.length_cons]
        omega
      refine ⟨a :: as, ?_⟩
      rw [separatedFrom, ha]
      simp only [hcomma, hlt, if_true, has]
      rcases separatedFrom (Matcher.mark .comma) r c with ⟨_ | bs, stop⟩ <;> rfl

/-- A row stops where its last part stops, if no comma stands there. -/
theorem stop_separated_row (hd : d.Row (Cursor.WithComma p)) (hc : Cursor.IsBare (d ++ c))
    (hr : ∀ ts t y, p ts → t.kind = .comma → Cursor.IsBare (ts ++ t :: y) →
      ∃ a, r.runFrom (ts ++ t :: y) = (.ok a, t :: y))
    (hlast : r.stop c = s) (hs : (Matcher.mark .comma).run s = none) :
    (separated (Matcher.mark .comma) r).stop (d ++ c) = s := by
  obtain ⟨as, has⟩ := exists_separatedFrom_row hd hc hr
  rw [separated, stop, runFrom_ofFunction, has, separatedFrom]
  rcases hrun : r.runFrom c with ⟨_ | a, behind⟩
  · rw [stop_of_runFrom hrun] at hlast
    exact hlast
  · obtain rfl : behind = s := (stop_of_runFrom hrun).symm.trans hlast
    simp only [hs]

/-- A row is read up to the end of its last part, if no comma stands there. -/
theorem exists_runFrom_separated_row (hd : d.Row (Cursor.WithComma p))
    (hc : Cursor.IsBare (d ++ c))
    (hr : ∀ ts t y, p ts → t.kind = .comma → Cursor.IsBare (ts ++ t :: y) →
      ∃ a, r.runFrom (ts ++ t :: y) = (.ok a, t :: y))
    {a : α} (hlast : r.runFrom c = (.ok a, s)) (hs : (Matcher.mark .comma).run s = none) :
    ∃ as, (separated (Matcher.mark .comma) r).runFrom (d ++ c) = (.ok as, s) := by
  obtain ⟨as, has⟩ := exists_separatedFrom_row hd hc hr
  refine ⟨as ++ [a], ?_⟩
  rw [separated, runFrom_ofFunction, has, separatedFrom, hlast]
  simp only [hs]
  rfl

end Rule

end CreateTable
