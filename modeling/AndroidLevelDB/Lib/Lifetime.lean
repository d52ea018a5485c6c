import Mathlib.Logic.Function.Basic
import Mathlib.Data.List.Basic

/-!
# Lib/Lifetime — objects that depend on one another

A log records at which addresses objects are created and freed.  An object of kind `k` depends on
the objects at `parents k`.  `Replay parents log live` says that the log, its last event first, is
legal and leaves the objects `live`: nothing is freed that does not live, and no object is freed
before those that depend on it.
-/

open Function

namespace Lifetime

variable {α κ : Type*}

inductive Event (α κ : Type*)
  | create (p : α) (k : κ)
  | free (p : α)

variable [DecidableEq α]

/-- The log is legal and leaves the objects `live`. -/
inductive Replay (parents : κ → List α) : List (Event α κ) → (α → Option κ) → Prop
  | nil : Replay parents [] fun _ => none
  | create {log : List (Event α κ)} {live : α → Option κ} {p : α} {k : κ} :
      Replay parents log live → live p = none → (∀ q ∈ parents k, live q ≠ none) →
      Replay parents (.create p k :: log) (update live p (some k))
  | free {log : List (Event α κ)} {live : α → Option κ} {p : α} :
      Replay parents log live → live p ≠ none →
      (∀ q k, live q = some k → p ∉ parents k) →
      Replay parents (.free p :: log) (update live p none)

/-- How often an object was created at `p`. -/
def creations (p : α) (log : List (Event α κ)) : ℕ :=
  log.countP fun | .create q _ => q = p | .free _ => false

/-- How often an object was freed at `p`. -/
def frees (p : α) (log : List (Event α κ)) : ℕ :=
  log.countP fun | .create _ _ => false | .free q => q = p

variable {parents : κ → List α} {log : List (Event α κ)} {live : α → Option κ}

/-- **What was created at an address was freed, but for what lives there.** -/
theorem Replay.creations_eq (h : Replay parents log live) (p : α) :
    creations p log = frees p log + (live p).toList.length := by
  induction h with
  | nil => rfl
  | @create log live q k _ hq _ ih =>
    rw [creations, frees, List.countP_cons, List.countP_cons, ← creations, ← frees, ih]
    rcases eq_or_ne p q with rfl | hp
    · simp [hq]
    · simp [hp.symm, update_of_ne hp]
  | @free log live q _ hq _ ih =>
    rw [creations, frees, List.countP_cons, List.countP_cons, ← creations, ← frees, ih]
    rcases eq_or_ne p q with rfl | hp
    · obtain ⟨k, hk⟩ := Option.ne_none_iff_exists'.mp hq
      simp [hk]
    · simp [hp.symm, update_of_ne hp]

/-- **What a live object depends on lives.** -/
theorem Replay.parents_live (h : Replay parents log live) {p q : α} {k : κ} (hp : live p = some k)
    (hq : q ∈ parents k) : live q ≠ none := by
  induction h generalizing p k with
  | nil => cases hp
  | @create log live r k' _ hr hpar ih =>
    have hne : ∀ {x}, live x ≠ none → update live r (some k') x ≠ none := by
      intro x hx
      rcases eq_or_ne x r with rfl | hxr
      · simp
      · rwa [update_of_ne hxr]
    rcases eq_or_ne p r with rfl | hpr
    · obtain rfl : k' = k := by simpa using hp
      exact hne (hpar q hq)
    · rw [update_of_ne hpr] at hp
      exact hne (ih hp hq)
  | @free log live r _ _ hdep ih =>
    rcases eq_or_ne p r with rfl | hpr
    · simp at hp
    · rw [update_of_ne hpr] at hp
      have hqr : q ≠ r := fun heq => hdep p k hp (heq ▸ hq)
      rw [update_of_ne hqr]
      exact ih hp hq

/-- **Once nothing lives, every object created has been freed, as often as it was created.** -/
theorem Replay.creations_eq_frees (h : Replay parents log live) (hl : ∀ p, live p = none) (p : α) :
    creations p log = frees p log := by
  rw [h.creations_eq, hl p]
  rfl

end Lifetime
