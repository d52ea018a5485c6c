import Mathlib.Data.List.TakeWhile

/-!
# Lib/ListCursor — a cursor on a list

A cursor on the list `l` is at one of its indices or nowhere, `Option (Fin l.length)`.  It gets to a
place by looking for one and moves from there to the next or the previous one; it is lost at either
end, and finds back by looking for a place again.
-/

namespace ListCursor

variable {α κ : Type*}

/-- At the index `n`, if there is one. -/
def at? (l : List α) (n : ℕ) : Option (Fin l.length) :=
  if h : n < l.length then some ⟨n, h⟩ else none

inductive Move (κ : Type*)
  | first
  | last
  /-- To the first element that is not below `k`. -/
  | seek (k : κ)
  | next
  | prev

/-- Where a move leads. -/
def move (below : κ → α → Bool) (l : List α) :
    Move κ → Option (Fin l.length) → Option (Fin l.length)
  | .first, _ => at? l 0
  | .last, _ => at? l (l.length - 1)
  | .seek k, _ => at? l (l.findIdx fun a => !below k a)
  | .next, some n => at? l (n + 1)
  | .prev, some n => if (n : ℕ) = 0 then none else at? l (n - 1)
  | .next, none => none
  | .prev, none => none

theorem at?_eq_none_iff {l : List α} {n : ℕ} : at? l n = none ↔ l.drop n = [] := by
  rw [at?, List.drop_eq_nil_iff]
  split <;> simp <;> omega

/-- The list from its end: what is before the last element, and that element. -/
theorem reverse_eq_cons_iff {l r : List α} {q : α} :
    l.reverse = q :: r ↔
      l ≠ [] ∧ l.take (l.length - 1) = r.reverse ∧ l.drop (l.length - 1) = [q] := by
  constructor
  · intro h
    obtain rfl : l = r.reverse ++ [q] := by
      rw [← List.reverse_reverse l, h, List.reverse_cons]
    simp
  · rintro ⟨-, htake, hdrop⟩
    rw [← List.take_append_drop (l.length - 1) l, htake, hdrop]
    simp

end ListCursor
