import Mathlib.Data.List.Induction
import Mathlib.Logic.Function.Basic
import AndroidLevelDB.Lib.Versions

/-!
# Lib/Updates — a map as the updates made to it

Versions in the order of their sequence numbers are updates of a map; `Version.state` runs them over
the empty one.  A reader at `s` finds the state behind the updates up to `s` (`reads_state`).
-/

namespace Version

variable {κ ν : Type*} [LinearOrder κ]

/-- The map after one more version. -/
def update (f : κ → Option ν) (e : Version κ ν) : κ → Option ν := Function.update f e.key e.val

/-- The map after all versions of a list, one after another. -/
def state (l : List (Version κ ν)) : κ → Option ν := l.foldl update fun _ => none

theorem state_append_singleton (l : List (Version κ ν)) (e : Version κ ν) :
    state (l ++ [e]) = update (state l) e := by
  rw [state, List.foldl_append, List.foldl_cons, List.foldl_nil, state]

/-- The last update of a key is its newest version. -/
theorem reads_state_of_le {l : List (Version κ ν)} (h : l.Pairwise fun a b => a.seq < b.seq) {s : ℕ}
    (hs : ∀ e ∈ l, e.seq ≤ s) (k : κ) : Reads {e | e ∈ l} s k (state l k) := by
  induction l using List.reverseRecOn with
  | nil => exact fun e he _ => absurd he.1 List.not_mem_nil
  | append_singleton l e ih =>
    obtain ⟨hl, -, hle⟩ := List.pairwise_append.mp h
    have ih := ih hl fun x hx => hs x (List.mem_append_left _ hx)
    have he : e.seq ≤ s := hs e (List.mem_append_right _ List.mem_cons_self)
    rw [state_append_singleton, update]
    by_cases hk : k = e.key
    · -- the last update is one of the key
      subst hk
      have hnew : Newest {x | x ∈ l ++ [e]} s e := by
        refine ⟨List.mem_append_right _ List.mem_cons_self, he, fun x hx _ _ => ?_⟩
        rcases List.mem_append.mp hx with hx | hx
        · exact (hle x hx e List.mem_cons_self).le
        · rw [List.mem_singleton.mp hx]
      rw [Function.update_self]
      cases hv : e.val with
      | none =>
        intro x hx hkx
        rcases List.mem_append.mp hx.1 with hm | hm
        · have hlt := hle x hm e List.mem_cons_self
          exact absurd (hx.2.2 e hnew.1 hkx.symm he) (not_le.mpr hlt)
        · rw [List.mem_singleton.mp hm, hv]
      | some v => exact ⟨e, hnew, rfl, hv⟩
    · -- it is one of another key
      have hiff (x : Version κ ν) (hx : x.key = k) :
          Newest {y | y ∈ l ++ [e]} s x ↔ Newest {y | y ∈ l} s x := by
        have hmem (y : Version κ ν) (hy : y.key = x.key) : y ∈ l ++ [e] ↔ y ∈ l := by
          refine ⟨fun hm => (List.mem_append.mp hm).resolve_right fun hm => hk ?_,
            List.mem_append_left _⟩
          rw [← hx, ← hy, List.mem_singleton.mp hm]
        refine and_congr (hmem x rfl) (and_congr_right fun _ => forall_congr' fun y => ?_)
        exact ⟨fun hy hm hkey => hy ((hmem y hkey).mpr hm) hkey,
          fun hy hm hkey => hy ((hmem y hkey).mp hm) hkey⟩
      rw [Function.update_of_ne hk]
      cases hr : state l k with
      | none =>
        rw [hr] at ih
        exact fun x hx hkx => ih x ((hiff x hkx).mp hx) hkx
      | some v =>
        rw [hr] at ih
        obtain ⟨x, hx, hkx, hv⟩ := ih
        exact ⟨x, (hiff x hkx).mpr hx, hkx, hv⟩

/-- **A reader finds the state behind the updates up to its sequence number.** -/
theorem reads_state {l : List (Version κ ν)} (h : l.Pairwise fun a b => a.seq < b.seq) (s : ℕ)
    (k : κ) : Reads {e | e ∈ l} s k (state (l.filter (·.seq ≤ s)) k) := by
  refine (reads_congr (fun e he => ?_) k _).mp
    (reads_state_of_le (h.sublist List.filter_sublist) (s := s) (fun e he => ?_) k)
  · simp [he]
  · simpa using (List.mem_filter.mp he).2

end Version
