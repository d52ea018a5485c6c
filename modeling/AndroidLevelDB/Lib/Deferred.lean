import Mathlib.Data.List.Induction

/-!
# Lib/Deferred — requests that wait for a release

A resource is acquired and released, and a request about it must be served: at once while the
resource is free, and otherwise once, right after the release.  `Deferred.next` watches the events;
it accepts those after which every request was served so, and nothing else was.
-/

namespace Deferred

inductive Event
  | acquire
  | release
  | request
  | serve
  /-- Something else, which may not come between a release and its service. -/
  | other
deriving DecidableEq

/-- What is due: nothing while the resource is free, nothing while it is held, a service after the
release, or a service now. -/
inductive Phase
  | free
  | held
  | requested
  | due
deriving DecidableEq

/-- The phase after an event, unless that should not have happened. -/
def next : Phase → Event → Option Phase
  | .free, .acquire => some .held
  | .free, .request => some .due
  | .free, .other => some .free
  | .held, .request => some .requested
  | .held, .release => some .free
  | .held, .other => some .held
  | .requested, .request => some .requested
  | .requested, .release => some .due
  | .requested, .other => some .requested
  | .due, .serve => some .free
  | _, _ => none

/-- The phase after a sequence of events. -/
def run (phase : Phase) (events : List Event) : Option Phase := events.foldlM next phase

theorem run_append (phase : Phase) (l l' : List Event) :
    run phase (l ++ l') = (run phase l).bind fun p => run p l' := List.foldlM_append

/-- Other events change nothing, unless a service is due. -/
theorem run_other {phase : Phase} (hp : phase ≠ .due) {l : List Event} (h : ∀ e ∈ l, e = .other) :
    run phase l = some phase := by
  induction l with
  | nil => rfl
  | cons e l ih =>
    obtain rfl := h e List.mem_cons_self
    have hnext : next phase .other = some phase := by
      cases phase with
      | due => exact absurd rfl hp
      | _ => rfl
    rw [run, List.foldlM_cons, hnext]
    exact ih fun e he => h e (List.mem_cons_of_mem _ he)

/-! ## Events among others -/

/-- The events `l`, one right after the other, and around them other events only. -/
def Around (l events : List Event) : Prop :=
  ∃ before after, events = before ++ l ++ after ∧ (∀ e ∈ before, e = .other) ∧
    ∀ e ∈ after, e = .other

namespace Around

variable {l events events' : List Event}

theorem self (l : List Event) : Around l l := ⟨[], [], by simp, nofun, nofun⟩

theorem nil_iff : Around [] events ↔ ∀ e ∈ events, e = .other := by
  constructor
  · rintro ⟨before, after, rfl, hbefore, hafter⟩ e he
    rw [List.append_nil, List.mem_append] at he
    exact he.elim (hbefore e) (hafter e)
  · exact fun h => ⟨events, [], by simp, h, nofun⟩

theorem append_left (h : Around [] events) (h' : Around l events') :
    Around l (events ++ events') := by
  obtain ⟨before, after, rfl, hbefore, hafter⟩ := h'
  refine ⟨events ++ before, after, by simp, fun e he => ?_, hafter⟩
  exact (List.mem_append.mp he).elim (nil_iff.mp h e) (hbefore e)

theorem append_right (h : Around l events) (h' : Around [] events') :
    Around l (events ++ events') := by
  obtain ⟨before, after, rfl, hbefore, hafter⟩ := h
  refine ⟨before, after ++ events', by simp, hbefore, fun e he => ?_⟩
  exact (List.mem_append.mp he).elim (hafter e) (nil_iff.mp h' e)

/-- Other events may be ignored, if they do not come where a service is due. -/
theorem run_eq (h : Around l events) {phase : Phase} (hp : phase ≠ .due)
    (hl : run phase l ≠ some .due) : run phase events = run phase l := by
  obtain ⟨before, after, rfl, hbefore, hafter⟩ := h
  rw [run_append, run_append, run_other hp hbefore, Option.bind_some]
  cases hrun : run phase l with
  | none => rfl
  | some phase' =>
    exact run_other (fun hdue => hl (by rw [hrun, hdue])) hafter

end Around

/-! ## Requests since the last acquisition -/

/-- Whether a request was made since the last acquisition, after a further event. -/
def askedNext (asked : Bool) : Event → Bool
  | .acquire => false
  | .request => true
  | _ => asked

/-- A request was made since the resource was last acquired. -/
def asked (events : List Event) : Bool := events.foldl askedNext false

/-- While the resource is held, its phase tells whether a request was made. -/
theorem asked_of_run {events : List Event} {phase : Phase} (h : run .free events = some phase) :
    (phase = .held → asked events = false) ∧ (phase = .requested → asked events = true) := by
  induction events using List.reverseRecOn generalizing phase with
  | nil =>
    obtain rfl : Phase.free = phase := Option.some_inj.mp h
    exact ⟨nofun, nofun⟩
  | append_singleton l e ih =>
    rw [run_append] at h
    obtain ⟨before, hl, he⟩ := Option.bind_eq_some_iff.mp h
    have he : next before e = some phase := by simpa [run] using he
    obtain ⟨hheld, hrequested⟩ := ih hl
    rw [asked, List.foldl_append]
    change (_ → askedNext (asked l) e = false) ∧ (_ → askedNext (asked l) e = true)
    cases before with
    | free =>
      cases e <;> cases he
      · exact ⟨fun _ => rfl, nofun⟩
      · exact ⟨nofun, nofun⟩
      · exact ⟨nofun, nofun⟩
    | held =>
      cases e <;> cases he
      · exact ⟨nofun, nofun⟩
      · exact ⟨nofun, fun _ => rfl⟩
      · exact ⟨fun _ => hheld rfl, nofun⟩
    | requested =>
      cases e <;> cases he
      · exact ⟨nofun, nofun⟩
      · exact ⟨nofun, fun _ => rfl⟩
      · exact ⟨nofun, fun _ => hrequested rfl⟩
    | due =>
      cases e <;> cases he
      exact ⟨nofun, nofun⟩

end Deferred
