import AndroidLevelDB.Java.Exceptions
import AndroidLevelDB.Java.Teardown

/-!
# Java/Failure — releases that fail

`unref` counts down first, then runs `closeNativeObject`, and clears the pointer last.  If
`DestroyDB` makes `closeNativeObject` throw, the pointers of the database and of what was being
closed with it are not cleared, although their native objects are gone.  So a release is safe
exactly if that does not happen (`release_safe_iff`).
-/

open Leveldb Jni Function

namespace Java

/-- The objects are as they should be, and calls can rely on it. -/
structure Sound (σ : Client) : Prop where
  /-- What was freed has no pointer and no references. -/
  freed : ∀ c ∈ σ.world.closings, σ.world.ptr c.1 = 0 ∧ σ.world.count c.1 = 0
  /-- Every object counts its holders: its handle, and the unreleased objects that hold it. -/
  counts : ∀ o, σ.world.count o
    = (if o ∈ σ.unclosed then 1 else 0) + ∑ x ∈ σ.world.unreleased, (σ.world.refs x).count o
  /-- A pointer that a call may hand on is that of the native object of its owner, which lives. -/
  pointers : ∀ o, σ.world.ptr o ≠ 0 →
    σ.world.kinds (σ.world.ptr o) = some (σ.world.kindOf o)
  /-- Nothing was freed twice, nor before what depends on it. -/
  legal : Lifetime.Replay Kind.parents σ.world.lifetime σ.world.kinds
  close_returns : ∀ env o, o ∈ σ.world.created → Undisturbed env σ (.close o) →
    ∃ w, close env o σ.world = .ok () w
  /-- No call finds an object without references. -/
  counted : ∀ env c, (∀ o ∈ c.objects, o ∈ σ.world.created) → Undisturbed env σ c →
    ∀ w, c.run env σ.world ≠
      .error (.thrown (.illegalStateException "Reference count is already 0")) w

/-- To close `o` leaves the objects as they should be, now and after whatever calls come later. -/
def Safe (env : Env) (σ : Client) (o : ObjId) : Prop :=
  ∀ σ', σ.after env (.close o) = some σ' → ∀ σ'', Run Undisturbed σ' σ'' → Sound σ''

section Release

variable {σ : Client} {env : Env} {o : ObjId}

theorem Inv.sound (h : Inv σ ∅ ∅) : Sound σ := by
  have hlive {o : ObjId} (hp : σ.world.ptr o ≠ 0) : o ∈ σ.world.live := by
    by_contra hdead
    exact (h.held.ptr_dead o hdead).elim hp (Finset.notMem_empty o)
  have hreturns (env : Env) (o : ObjId) (ho : o ∈ σ.world.created)
      (hc : Undisturbed env σ (.close o)) : ∃ w, close env o σ.world = .ok () w :=
    h.close_returns ho (hc.close_once o rfl) hc.not_fails
  refine ⟨fun c hc => ?_, h.count_eq, fun o hp => h.held.kind o (hlive hp) hp, h.held.lifetime,
    hreturns, fun env c hobj hc w hrun => ?_⟩
  · have hdead : c.1 ∉ σ.world.live := fun hl =>
      Finset.notMem_empty _ ((h.held.closings_dead c hc).2.1 hl)
    exact ⟨(h.held.ptr_dead _ hdead).resolve_right (Finset.notMem_empty _),
      h.held.counted.count_of_not_live hdead⟩
  · by_cases hclose : ∃ o, c = .close o
    · obtain ⟨o, rfl⟩ := hclose
      obtain ⟨w', hw'⟩ := hreturns env o (hobj o List.mem_cons_self) hc
      have hrun : close env o σ.world = _ := hrun
      rw [hw'] at hrun
      cases hrun
    · exact (throws_run (not_exists.mp hclose) σ.world).of_error hrun rfl

/-- A failed release leaves the pointer of a database whose native object is gone. -/
theorem Inv.not_safe (h : Inv σ ∅ ∅) (ho : o ∈ σ.unclosed)
    (hf : FailsToDestroy env σ (.close o)) : ¬ Safe env σ o := by
  intro hsafe
  obtain ⟨o', ho', hp, hfails⟩ := hf
  obtain rfl : o = o' := Call.close.inj ho'
  have hends : Ends (close env o) σ.world _ _ := h.held.ends_close_own ho hp
  cases hrun : close env o σ.world with
  | ok a w => exact (hends.of_ok hrun).2.2 hfails
  | error e w =>
    rcases hends.of_error hrun with ⟨⟨t, -, rfl⟩, -, -, d, stale', -, hdead, hptr, hheld⟩ | ⟨-, hne⟩
    · have hafter : σ.after env (.close o) = some ⟨w, σ.closedAfter false w (.close o)⟩ := by
        simp only [Client.after, Call.run, hrun]
      have hsound := hsafe _ hafter _ .refl
      have hcr : .db d ∈ w.created := by
        by_contra hno
        exact hptr (hheld.ptr_uncreated _ hno)
      obtain ⟨c, hc, hcd⟩ := List.mem_map.mp (hheld.dead_closed _ hcr hdead)
      have hzero := (hsound.freed c hc).1
      rw [hcd] at hzero
      exact hptr hzero
    · exact Finset.not_nonempty_empty hne

end Release

/-- `DestroyDB` fails. -/
def failingEnv : Env := { envAt 4 with destroyStatus := .ioError "/db" "Directory not empty" }

end Java
