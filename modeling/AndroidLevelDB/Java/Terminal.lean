import AndroidLevelDB.Java.Teardown

/-!
# Java/Terminal — what a closed handle does

Whether a handle is closed is told from the pointer of its object, which stays as long as another
object holds it.  So `close` is terminal exactly if nothing does (`terminal_iff`); a handle that is
closed twice while its object is held gives a reference back that belongs to another one.
-/

open Leveldb Jni Function

namespace Java

/-- The object that a method asserts to be open. -/
def Call.asserted : Call → Option ObjId
  | put d _ _ => some (.db d)
  | get d _ _ => some (.db d)
  | getBB d _ _ => some (.db d)
  | delete d _ => some (.db d)
  | write d _ => some (.db d)
  | iterator d _ => some (.db d)
  | getSnapshot d => some (.db d)
  | batchPut b _ _ => some (.batch b)
  | batchDelete b _ => some (.batch b)
  | batchClear b => some (.batch b)
  | cursor i _ => some (.iterator i)
  | _ => none

/-- To close `o` again does nothing at all, and its methods refuse. -/
structure Terminal (env : Env) (w : World) (o : ObjId) : Prop where
  close_again : close env o w = .ok () w
  refuses : ∀ c : Call, c.asserted = some o →
    ∃ message, c.run env w = .error (.thrown (.illegalStateException message)) w

section Terminal

variable {env : Env} {w : World} {o : ObjId}

/-- A method that asserts its object open refuses first. -/
theorem ends_assertOpen_bind {α : Type} {message : String} {f : Unit → JavaM α} (h : w.ptr o = 0) :
    Ends (NativeObject.assertOpen o message >>= f) w (fun _ _ => False)
      fun e w' => (∃ message, e = .thrown (.illegalStateException message)) ∧ w' = w := by
  rw [ends_bind, ends_assertOpen]
  exact ⟨fun _ => ⟨⟨_, rfl⟩, rfl⟩, fun hne => absurd h hne⟩

theorem ends_asserted {c : Call} (hc : c.asserted = some o) (h : w.ptr o = 0) :
    Ends (c.run env) w (fun _ _ => False)
      fun e w' => (∃ message, e = .thrown (.illegalStateException message)) ∧ w' = w := by
  have hget {α : Type} {m : JavaM α}
      (hm : Ends m w (fun _ _ => False)
        fun e w' => (∃ message, e = .thrown (.illegalStateException message)) ∧ w' = w) :
      Ends (do let _ ← m) w (fun _ _ => False)
        fun e w' => (∃ message, e = .thrown (.illegalStateException message)) ∧ w' = w := by
    rw [ends_bind]
    exact hm.mono (fun _ _ hf => hf.elim) fun _ _ he => he
  cases c with
  | put d key value => cases hc; exact ends_assertOpen_bind h
  | get d snapshot key => cases hc; exact hget (ends_assertOpen_bind h)
  | getBB d snapshot key => cases hc; exact hget (ends_assertOpen_bind h)
  | delete d key => cases hc; exact ends_assertOpen_bind h
  | write d batch => cases hc; exact ends_assertOpen_bind h
  | iterator d snapshot => cases hc; exact hget (ends_assertOpen_bind h)
  | getSnapshot d => cases hc; exact hget (ends_assertOpen_bind h)
  | batchPut b key value => cases hc; exact ends_assertOpen_bind h
  | batchDelete b key => cases hc; exact ends_assertOpen_bind h
  | batchClear b => cases hc; exact ends_assertOpen_bind h
  | cursor i call =>
    cases hc
    cases call with
    | getKey => exact hget (ends_assertOpen_bind h)
    | getValue => exact hget (ends_assertOpen_bind h)
    | isValid => exact hget (ends_assertOpen_bind h)
    | _ => exact ends_assertOpen_bind h
  | _ => cases hc

/-- To close an object with a pointer changes something, or throws. -/
theorem ends_close_changes (hp : w.ptr o ≠ 0) :
    Ends (close env o) w (fun _ w' => w' ≠ w) fun _ _ => True := by
  rw [ends_close]
  refine ⟨fun h0 => absurd h0 hp, fun _ => ends_unref.mpr ⟨fun _ => trivial, fun h1 => ?_,
    fun h1 => ?_⟩⟩
  · intro heq
    have hcount := congrFun (World.count_setRefCount w o (w.count o - 1)) o
    rw [heq, update_self] at hcount
    omega
  · refine ((keptBySteps_moreClosings (.close o)).closeNativeObject o _ _).mono ?_
      fun _ _ _ => trivial
    intro _ w' hmore heq
    have hcl : (w'.setPtr o 0).closings = w.closings := congrArg World.closings heq
    have hcl : w'.closings = w.closings := hcl
    have hlen := hmore.length_le
    rw [hcl] at hlen
    simp at hlen

end Terminal

/-- **`close` is terminal** exactly if the object is released.  And as long as no handle is closed
twice, no native database is closed before all that was made of it. -/
theorem terminal_iff (env : Env) (w : World) (o : ObjId) :
    (Terminal env w o ↔ w.ptr o = 0) ∧
    ∀ σ, Reachable Orderly σ → ∀ o ∈ σ.unclosed, ∀ d, .db d ∈ σ.world.refs o →
      σ.world.ptr (.db d) ≠ 0 ∧
        σ.world.kinds (σ.world.ptr (.db d)) = some (.db (σ.world.mPath d)) := by
  refine ⟨⟨fun h => ?_, fun h0 => ⟨?_, fun c hc => ?_⟩⟩, fun σ hr o ho d hd => ?_⟩
  · by_contra hp
    exact (ends_close_changes hp).of_ok h.close_again rfl
  · have hends : Ends (close env o) w (fun _ w' => w' = w) fun _ _ => False :=
      ends_close.mpr ⟨fun _ => rfl, fun hne => absurd h0 hne⟩
    obtain ⟨⟨⟩, w', hw', rfl⟩ := hends.exists_ok
    exact hw'
  · have hends : Ends (c.run env) w _ _ := ends_asserted hc h0
    cases hrun : c.run env w with
    | ok a w' => exact (hends.of_ok hrun).elim
    | error e w' =>
      obtain ⟨⟨message, rfl⟩, rfl⟩ := hends.of_error hrun
      exact ⟨message, rfl⟩
  · obtain ⟨revived, stale, -, h⟩ := Inv.start.run (fun _ _ _ hc => hc) hr
    exact h.kind_db_of_unclosed ho hd

/-- A database is closed while an iterator holds it. -/
theorem terminal_iff_example : ∃ σ : Client, .db 0 ∈ σ.closed ∧ .iterator 1 ∈ σ.unclosed ∧
    σ.world.ptr (.db 0) ≠ 0 ∧ σ.world.kinds (σ.world.ptr (.db 0)) = some (.db "/db") := by
  have h1 := reachable_openedClient.tail ⟨envAt 4, .iterator 0 none, by decide, fun _ => rfl,
    proper_of (by decide) nofun nofun nofun, rfl⟩
  have h2 := h1.tail ⟨envAt 5, .close (.db 0), by decide, fun _ => rfl,
    proper_of (by decide) (fun o h => .inl (by cases h; decide)) nofun nofun, rfl⟩
  have hr := run_mono (fun _ _ _ hc => hc.toOrderly)
    (reachable_careful (run_mono (fun _ _ _ hc => hc.undisturbed) h2))
  exact ⟨_, by decide, by decide,
    (terminal_iff (envAt 5) .empty (.db 0)).2 _ hr (.iterator 1) (by decide) 0 (by decide)⟩

/-- To close a database twice deletes the native database under an open iterator. -/
theorem closed_twice : ∃ σ w, Reachable Proper σ ∧ .db 0 ∈ σ.closed ∧ .iterator 1 ∈ σ.unclosed ∧
    ¬ Terminal (envAt 5) σ.world (.db 0) ∧ close (envAt 5) (.db 0) σ.world = .ok () w ∧
    σ.world.kinds 3 = some (.db "/db") ∧ w.kinds 3 = none := by
  have h1 := reachable_openedClient.tail ⟨envAt 4, .iterator 0 none, by decide, fun _ => rfl,
    proper_of (by decide) nofun nofun nofun, rfl⟩
  have h2 := h1.tail ⟨envAt 5, .close (.db 0), by decide, fun _ => rfl,
    proper_of (by decide) (fun o h => .inl (by cases h; decide)) nofun nofun, rfl⟩
  refine ⟨_, _, h2, by decide, by decide, fun h => ?_, rfl, by decide, by decide⟩
  have hsame := (EStateM.Result.ok.inj h.close_again).2
  exact absurd (congrArg (fun w => w.count (.db 0)) hsame) (by decide)

end Java
