import AndroidLevelDB.Java.LastRelease
import AndroidLevelDB.Java.Teardown

/-!
# Java/Destroy — requests to destroy a database

`destroy` sets a flag.  A database without a native one is destroyed at once, and otherwise when the
last reference is given back, from whichever handle.  The flag is never reset, so that a request
that was served stays behind: requests are served as they should be exactly as long as no database
is closed that was opened after the last one (`destroy_served_iff`).
-/

open Leveldb Jni Function

namespace Java

/-- A client of one database, and what happened to that, the last event last. -/
structure Watched extends Client where
  events : List Deferred.Event

/-- `destroy` is a request. -/
def Call.requests : Call → List Deferred.Event
  | .destroy _ => [.request]
  | _ => []

/-- What the native calls made between two states mean. -/
def signals (w w' : World) : List Deferred.Event :=
  (w'.calls.take (w'.calls.length - w.calls.length)).reverse.map (signal (w.mPath 0))

theorem signals_eq {w w' : World} (new : List NativeCall) (h : w'.calls = new ++ w.calls) :
    signals w w' = new.reverse.map (signal (w.mPath 0)) := by
  simp [signals, h]

namespace Watched

/-- The database is made. -/
def start (path : String) : Watched where
  world := { World.empty.construct (.db 0) with mPath := update World.empty.mPath 0 path }
  closed := ∅
  events := []

theorem new_eq_start (path : String) :
    DB.new (some path) .empty = .ok 0 (start path).world := rfl

/-- The state after a call, unless it ends the process. -/
def after (σ : Watched) (env : Env) (c : Call) : Option Watched :=
  (σ.toClient.after env c).map fun σ' =>
    ⟨σ', σ.events ++ (c.requests ++ signals σ.world σ'.world)⟩

end Watched

/-- A call on the database, or on what was made of it, for which `DestroyDB` succeeds. -/
structure OnTheDB (env : Env) (σ : Watched) (c : Call) : Prop where
  objects : ∀ o ∈ c.objects, o ∈ σ.world.created
  not_newDB : ∀ path, c ≠ .newDB path
  not_destroyPath : ∀ path, c ≠ .destroyPath path
  destroys : throwUnlessOk env.destroyStatus = none

/-- The call does not close a database that is to be destroyed, unless `destroy` was called since it
was opened. -/
def Renewed (σ : Watched) (c : Call) : Prop :=
  ∀ o, c = .close o → σ.world.ptr o ≠ 0 → σ.world.Last (σ.world.given o) →
    σ.world.mDestroyOnClose 0 = true → Deferred.asked σ.events = true

namespace Watched

def Step (σ σ' : Watched) : Prop :=
  ∃ env c, OnTheDB env σ c ∧ Renewed σ c ∧ σ.after env c = some σ'

/-- Such calls, one after another. -/
def Reachable (path : String) (σ : Watched) : Prop := Relation.ReflTransGen Step (start path) σ

end Watched

/-- Every request was served at once, or waits for the release, and nothing else was served; the
database is held while the object has a pointer. -/
structure Served (σ : Watched) : Prop where
  phase : ∃ phase, Deferred.run .free σ.events = some phase ∧ phase ≠ .due ∧
    (phase = .free ↔ σ.world.ptr (.db 0) = 0)

/-! ## The invariant -/

/-- The objects are one database and what was made of it. -/
structure OneDB (w : World) : Prop where
  only : ∀ d, .db d ∈ w.created → d = 0
  snapshotDB : ∀ s, w.snapshotDB s = 0
  iteratorDB : ∀ i, w.iteratorDB i = 0
  locked : w.ptr (.db 0) ≠ 0 → w.mPath 0 ∈ w.locks
  /-- A database that was not opened so far has no children, and one that was closed counts
  nothing. -/
  idle : w.ptr (.db 0) = 0 → 0 < w.count (.db 0) → ∀ o ∈ w.created, o = .db 0 ∨ ∃ b, o = .batch b

theorem OneDB.givenUp {w w' : World} {n : ℕ} (h : OneDB w) (hg : GivenUp n w w') : OneDB w' := by
  have hptr := hg.ptr
  have hcount := hg.count
  refine ⟨fun d hd => h.only d (hg.emits.created ▸ hd), hg.emits.snapshotDB ▸ h.snapshotDB,
    hg.emits.iteratorDB ▸ h.iteratorDB, fun hp => ?_, fun h0 hpos o ho => ?_⟩
  · have hlast : ¬ w.Last n := fun hlast => hp (hptr.trans (if_pos hlast))
    rw [if_neg hlast] at hptr
    rw [hg.emits.mPath, hg.locks hlast]
    exact h.locked (hptr ▸ hp)
  · have hle : ¬ w.count (.db 0) ≤ n := fun hle => by
      rw [if_pos hle] at hcount
      omega
    rw [if_neg hle] at hcount
    have hlast : ¬ w.Last n := fun hlast => hle hlast.2
    rw [if_neg hlast] at hptr
    exact h.idle (hptr ▸ h0) (by omega) o (hg.emits.created ▸ ho)

/-- The phase of the requests is that of the object. -/
structure Agrees (w : World) (phase : Deferred.Phase) : Prop where
  free_iff : phase = .free ↔ w.ptr (.db 0) = 0
  not_due : phase ≠ .due
  requested : phase = .requested → w.mDestroyOnClose 0 = true

/-- The call neither opened nor closed the database, nor is it to be destroyed now. -/
structure Idles (w w' : World) : Prop where
  ptr : w'.ptr (.db 0) = w.ptr (.db 0)
  mDestroyOnClose : w'.mDestroyOnClose = w.mDestroyOnClose
  signals : Deferred.Around [] (signals w w')
  oneDB : OneDB w → OneDB w'

section Idles

variable {w w' : World} {env : Env} {d : ℕ}

theorem Idles.of_signals (h : Deferred.Around [] (Java.signals w w'))
    (hlocks : w.ptr (.db 0) ≠ 0 → w'.locks = w.locks)
    (hptr : w'.ptr (.db 0) = w.ptr (.db 0)) (hflag : w'.mDestroyOnClose = w.mDestroyOnClose)
    (hpath : w'.mPath = w.mPath) (honly : ∀ d, .db d ∈ w'.created → .db d ∈ w.created)
    (hs : (∀ s, w.snapshotDB s = 0) → ∀ s, w'.snapshotDB s = 0)
    (hi : (∀ i, w.iteratorDB i = 0) → ∀ i, w'.iteratorDB i = 0)
    (hidle : w.ptr (.db 0) = 0 → w'.count (.db 0) = w.count (.db 0) ∧
      ∀ o ∈ w'.created, o ∈ w.created ∨ ∃ b, o = .batch b) : Idles w w' := by
  refine ⟨hptr, hflag, h, fun hw => ⟨fun d hd => hw.only d (honly d hd), hs hw.snapshotDB,
    hi hw.iteratorDB, fun hp => ?_, fun h0 hpos o ho => ?_⟩⟩
  · rw [hptr] at hp
    rw [hpath, hlocks hp]
    exact hw.locked hp
  · rw [hptr] at h0
    obtain ⟨hcount, hcreated⟩ := hidle h0
    rw [hcount] at hpos
    exact (hcreated o ho).elim (hw.idle h0 hpos o) .inr

theorem signals_of_dataCalls (h : DataCalls w.toNative w'.toNative) :
    Deferred.Around [] (signals w w') := by
  obtain ⟨new, hnew, haround⟩ := DataCalls.around h (w.mPath 0)
  rwa [signals_eq _ hnew]

theorem Idles.native {s : Native} (h : DataCalls w.toNative s) :
    Idles w { w with toNative := s } :=
  .of_signals (signals_of_dataCalls h) (fun _ => h.locks) rfl rfl rfl (fun _ hd => hd)
    (fun hs => hs) (fun hi => hi) fun _ => ⟨rfl, fun _ ho => .inl ho⟩

theorem Idles.refl (w : World) : Idles w w := .native (Std.Refl.refl _)

theorem idles_quiet {c : Call} (hc : c.Quiet) : Leaves (c.run env) w (Idles w) := by
  refine ((methodSteps_onNative nativeSteps_dataCalls.quiet).run hc w).mono ?_ ?_
  · rintro _ _ ⟨s, rfl, hs⟩
    exact .native hs
  · rintro _ _ ⟨s, rfl, hs⟩ -
    exact .native hs

theorem idles_newBatch : Leaves (WriteBatch.new env) w (Idles w) := by
  have hmade {s : Native} (hs : DataCalls w.toNative s) (p : ℕ) :
      let w' := World.construct { w with toNative := s } (.batch w.fresh)
      Idles w w' ∧ Idles w (w'.setPtr (.batch w.fresh) p) := by
    have hne : ObjId.db 0 ≠ .batch w.fresh := nofun
    have honly (d : ℕ) (hd : .db d ∈ insert (ObjId.batch w.fresh) w.created) :
        .db d ∈ w.created := by simpa using hd
    have hcreated (o : ObjId) (ho : o ∈ insert (ObjId.batch w.fresh) w.created) :
        o ∈ w.created ∨ ∃ b, o = .batch b := by
      rcases Finset.mem_insert.mp ho with rfl | ho
      · exact .inr ⟨_, rfl⟩
      · exact .inl ho
    have hsignals {w' : World} (hw' : w'.toNative = s) : Deferred.Around [] (signals w w') :=
      signals_of_dataCalls (hw' ▸ hs)
    refine ⟨.of_signals (hsignals rfl) (fun _ => hs.locks) ?_ rfl rfl honly (fun h => h)
        (fun h => h) fun _ => ⟨?_, hcreated⟩,
      .of_signals (hsignals rfl) (fun _ => hs.locks) ?_ rfl rfl honly (fun h => h) (fun h => h)
        fun _ => ⟨?_, hcreated⟩⟩
    · rw [World.ptr_construct, World.ptr_native]
    · rw [World.count_construct, update_of_ne hne, World.count_native]
    · rw [World.ptr_setPtr, update_of_ne hne, World.ptr_construct, World.ptr_native]
    · rw [World.count_setPtr, World.count_construct, update_of_ne hne, World.count_native]
  rw [Leaves, WriteBatch.new]
  simp only [ends_bind, ends_call, ends_get, ends_newPtr, ends_pure]
  refine (nativeSteps_dataCalls.batchCreate env _).mono ?_ ?_
  · exact fun p s hs => ⟨fun _ _ => (hmade hs 0).1, fun _ => (hmade hs p).2⟩
  · exact fun _ s hs _ => .native hs

/-- What a method that makes a child of an open database may do. -/
theorem Idles.of_child (hp : w.ptr (.db 0) ≠ 0) (h : DataCalls w.toNative w'.toNative)
    (hptr : w'.ptr (.db 0) = w.ptr (.db 0)) (hflag : w'.mDestroyOnClose = w.mDestroyOnClose)
    (hpath : w'.mPath = w.mPath) (honly : ∀ d, .db d ∈ w'.created → .db d ∈ w.created)
    (hs : ∀ s, w'.snapshotDB s = w.snapshotDB s ∨ w'.snapshotDB s = 0)
    (hi : ∀ i, w'.iteratorDB i = w.iteratorDB i ∨ w'.iteratorDB i = 0) : Idles w w' := by
  refine .of_signals (signals_of_dataCalls h) (fun _ => h.locks) hptr hflag hpath honly
    (fun hw s => ?_) (fun hw i => ?_) fun h0 => absurd h0 hp
  · exact (hs s).elim (fun heq => heq.trans (hw s)) id
  · exact (hi i).elim (fun heq => heq.trans (hw i)) id

/-- The objects that a new object belongs to. -/
theorem update_eq_or (f : ℕ → ℕ) (n x : ℕ) : update f n 0 x = f x ∨ update f n 0 x = 0 := by
  rcases eq_or_ne x n with rfl | hx
  · exact .inr (update_self ..)
  · exact .inl (update_of_ne hx ..)

theorem idles_getSnapshot : Leaves (DB.getSnapshot env 0) w (Idles w) := by
  rw [Leaves, ends_getSnapshot]
  refine ⟨fun _ _ => .refl w, fun hp => (nativeSteps_dataCalls.nativeGetSnapshot _ _ _).mono ?_ ?_⟩
  · intro p s hs
    have honly (d : ℕ) (hd : .db d ∈ insert (ObjId.snapshot w.fresh) w.created) :
        .db d ∈ w.created := by simpa using hd
    refine ⟨fun _ _ => .of_child hp hs ?_ rfl rfl honly (fun _ => update_eq_or ..)
        fun _ => .inl rfl,
      fun _ => .of_child hp hs ?_ rfl rfl honly (fun _ => update_eq_or ..) fun _ => .inl rfl⟩
    · simp
    · simp
  · intro e s hs _
    exact .of_child hp hs (by simp) rfl rfl (fun _ hd => hd) (fun _ => .inl rfl) fun _ => .inl rfl

theorem idles_iterator (snapshot : Option ℕ) :
    Leaves (DB.iterator env 0 snapshot) w (Idles w) := by
  have hrefs : (w.refAll 0 snapshot).created = w.created ∧
      (w.refAll 0 snapshot).mDestroyOnClose = w.mDestroyOnClose ∧
      (w.refAll 0 snapshot).mPath = w.mPath ∧ (w.refAll 0 snapshot).snapshotDB = w.snapshotDB ∧
      (w.refAll 0 snapshot).iteratorDB = w.iteratorDB := by
    cases snapshot <;> exact ⟨rfl, rfl, rfl, rfl, rfl⟩
  obtain ⟨hcr, hflag, hpath, hsdb, hidb⟩ := hrefs
  rw [Leaves, ends_iterator]
  refine ⟨fun _ _ => .refl w, fun hp => (nativeSteps_dataCalls.nativeIterator _ _ _ _).mono ?_ ?_⟩
  · intro p s hs
    have honly (n d : ℕ)
        (hd : .db d ∈ insert (ObjId.iterator n) (w.refAll 0 snapshot).created) :
        .db d ∈ w.created := by
      rw [hcr] at hd
      simpa using hd
    have hmade (n i : ℕ) : update (w.refAll 0 snapshot).iteratorDB n 0 i = w.iteratorDB i ∨
        update (w.refAll 0 snapshot).iteratorDB n 0 i = 0 := by
      rw [hidb]
      exact update_eq_or ..
    refine ⟨fun _ _ => .of_child hp hs ?_ hflag hpath (honly _) (fun s => .inl (congrFun hsdb s))
        (hmade _),
      fun _ => .of_child hp hs ?_ hflag hpath (honly _) (fun s => .inl (congrFun hsdb s))
        (hmade _)⟩
    · simp
    · simp
  · intro e s hs _
    exact .of_child hp hs (by simp) hflag hpath (fun _ hd => hcr ▸ hd)
      (fun s => .inl (congrFun hsdb s)) fun i => .inl (congrFun hidb i)

end Idles

section Leaves

variable {w : World} {env : Env}

/-- **To open the database acquires it**, if that does anything at all. -/
theorem leaves_open (hw : OneDB w) :
    Leaves (DB.open env 0) w fun w' => Idles w w' ∨
      w.ptr (.db 0) = 0 ∧ w'.ptr (.db 0) ≠ 0 ∧ signals w w' = [.acquire] ∧ OneDB w' ∧
        w'.mDestroyOnClose = w.mDestroyOnClose := by
  rw [Leaves, DB.open, ends_bind, ends_get, ends_bind, ends_call]
  refine (Jni.DB.ends_nativeOpen_calls env (w.mPath 0) w.toNative).mono ?_ ?_
  · rintro p s ⟨hcalls, hlock, -, hlocked⟩
    have h0 : w.ptr (.db 0) = 0 := by
      by_contra hp
      exact hlock (hw.locked hp)
    rw [ends_modify]
    have hptr : World.ptr (World.setPtr { w with toNative := s } (.db 0) p) (.db 0) = p := by
      rw [World.ptr_setPtr, update_self]
    have hcount : World.count (World.setPtr { w with toNative := s } (.db 0) p) (.db 0)
        = w.count (.db 0) := by rw [World.count_setPtr, World.count_native]
    have hsignals : signals w (World.setPtr { w with toNative := s } (.db 0) p)
        = [if p = 0 then .other else .acquire] :=
      signals_eq [.nativeOpen (w.mPath 0) p] hcalls
    by_cases hp : p = 0
    · refine .inl (.of_signals ?_ (fun hne => absurd h0 hne) ?_ rfl rfl (fun _ hd => hd)
        (fun hs => hs) (fun hi => hi) fun _ => ⟨hcount, fun _ ho => .inl ho⟩)
      · rw [hsignals, if_pos hp]
        exact Deferred.Around.nil_iff.mpr fun e he => List.mem_singleton.mp he
      · rw [hptr, hp, h0]
    · refine .inr ⟨h0, by rwa [hptr], by rw [hsignals, if_neg hp], ?_, rfl⟩
      exact ⟨hw.only, hw.snapshotDB, hw.iteratorDB, fun _ => hlocked hp,
        fun h0' => absurd (hptr.symm.trans h0') hp⟩
  · rintro e s (rfl | ⟨hcalls, hlocks⟩) hne
    · exact absurd rfl hne
    · refine .inl (.of_signals ?_ (fun _ => hlocks) rfl rfl rfl (fun _ hd => hd) (fun hs => hs)
        (fun hi => hi) fun _ => ⟨rfl, fun _ ho => .inl ho⟩)
      rw [signals_eq [.nativeOpen (w.mPath 0) 0] hcalls]
      exact Deferred.Around.nil_iff.mpr fun e he => List.mem_singleton.mp he

/-- **A request is noted, and served if the database is free.** -/
theorem leaves_request (hdestroy : throwUnlessOk env.destroyStatus = none) :
    Leaves (DB.destroy env 0) w fun w' => w'.ptr (.db 0) = w.ptr (.db 0) ∧
      w'.mDestroyOnClose 0 = true ∧ (OneDB w → OneDB w') ∧
        signals w w' = if w.ptr (.db 0) = 0 then [.serve] else [] := by
  have hflag : update w.mDestroyOnClose 0 true 0 = true := update_self ..
  rw [Leaves, DB.destroy, ends_bind, ends_modify, ends_bind, ends_get, ends_ite]
  refine ⟨fun h0 => ?_, fun hp => ?_⟩
  · rw [DB.destroyPath, ends_call, Jni.DB.nativeDestroy, ends_bind, ends_record, ends_raise]
    refine ⟨fun _ => ⟨rfl, hflag, fun hw => ⟨hw.only, hw.snapshotDB, hw.iteratorDB,
      hw.locked, hw.idle⟩, ?_⟩, fun t ht => ?_⟩
    · have h0 : w.ptr (.db 0) = 0 := h0
      rw [if_pos h0, signals_eq [.nativeDestroy (w.mPath 0)] rfl]
      simp [signal]
    · rw [hdestroy] at ht
      cases ht
  · have hp : w.ptr (.db 0) ≠ 0 := hp
    refine ⟨rfl, hflag, fun hw => ⟨hw.only, hw.snapshotDB, hw.iteratorDB,
      hw.locked, hw.idle⟩, ?_⟩
    rw [if_neg hp]
    exact signals_eq [] rfl

end Leaves

/-! ## One call -/

/-- The objects are as they should be, and so are the events, with the requests in this phase. -/
structure Phased (σ : Watched) (phase : Deferred.Phase) : Prop extends Agrees σ.world phase where
  oneDB : OneDB σ.world
  run : Deferred.run .free σ.events = some phase

theorem Watched.after_leaves {σ σ' : Watched} {env : Env} {c : Call} {P : World → Prop}
    (h : σ.after env c = some σ') (hl : Leaves (c.run env) σ.world P) :
    P σ'.world ∧ σ'.events = σ.events ++ (c.requests ++ signals σ.world σ'.world) := by
  obtain ⟨τ, hτ, rfl⟩ := Option.map_eq_some_iff.mp h
  exact ⟨(Client.after_leaves hτ hl).1, rfl⟩

namespace Phased

variable {σ σ' : Watched} {env : Env} {c : Call} {phase : Deferred.Phase}

theorem served (h : Phased σ phase) : Served σ := ⟨phase, h.run, h.not_due, h.free_iff⟩

/-- The start. -/
theorem start (path : String) : Phased (.start path) .free where
  free_iff := ⟨fun _ => rfl, fun _ => rfl⟩
  not_due := nofun
  requested := nofun
  oneDB :=
    { only := fun _ hd => ObjId.db.inj (Finset.mem_singleton.mp hd)
      snapshotDB := fun _ => rfl
      iteratorDB := fun _ => rfl
      locked := fun hp => absurd rfl hp
      idle := fun _ _ _ ho => .inl (Finset.mem_singleton.mp ho) }
  run := rfl

/-- The events of a further call. -/
theorem run_append (h : Phased σ phase) {l : List Deferred.Event}
    (he : σ'.events = σ.events ++ l) :
    Deferred.run .free σ'.events = Deferred.run phase l := by
  rw [he, Deferred.run_append, h.run, Option.bind_some]

/-- A call that does nothing to the database. -/
theorem of_around (h : Phased σ phase) (hone : OneDB σ'.world)
    (hptr : σ'.world.ptr (.db 0) = σ.world.ptr (.db 0))
    (hflag : σ'.world.mDestroyOnClose = σ.world.mDestroyOnClose)
    (haround : Deferred.Around [] (signals σ.world σ'.world))
    (he : σ'.events = σ.events ++ signals σ.world σ'.world) : Phased σ' phase where
  free_iff := by rw [h.free_iff, hptr]
  not_due := h.not_due
  requested hp := by rw [hflag, h.requested hp]
  oneDB := hone
  run := by
    have hnil : Deferred.run phase [] ≠ some .due := fun hdue =>
      h.not_due (Option.some_inj.mp hdue)
    rw [h.run_append he, haround.run_eq h.not_due hnil]
    rfl

theorem idle (h : Phased σ phase) (hi : Idles σ.world σ'.world)
    (he : σ'.events = σ.events ++ signals σ.world σ'.world) : Phased σ' phase :=
  h.of_around (hi.oneDB h.oneDB) hi.ptr hi.mDestroyOnClose hi.signals he

theorem opened (h : Phased σ phase) (hs : σ.after env (.openDB 0) = some σ') :
    ∃ phase', Phased σ' phase' := by
  obtain ⟨hw, he⟩ := Watched.after_leaves hs (leaves_open h.oneDB)
  rcases hw with hi | ⟨h0, hp, hsignals, hone, hflag⟩
  · exact ⟨phase, h.idle hi he⟩
  · obtain rfl : phase = .free := h.free_iff.mpr h0
    refine ⟨.held, ⟨⟨by simp, fun h0' => absurd h0' hp⟩, nofun, nofun⟩, hone, ?_⟩
    rw [h.run_append he, hsignals]
    rfl

theorem requested_again (h : Phased σ phase) (hd : throwUnlessOk env.destroyStatus = none)
    (hs : σ.after env (.destroy 0) = some σ') : ∃ phase', Phased σ' phase' := by
  obtain ⟨⟨hptr, hflag, hone, hsignals⟩, he⟩ := Watched.after_leaves hs (leaves_request hd)
  have hrun := h.run_append he
  by_cases h0 : σ.world.ptr (.db 0) = 0
  · obtain rfl : phase = .free := h.free_iff.mpr h0
    rw [hsignals, if_pos h0] at hrun
    exact ⟨.free, ⟨⟨fun _ => hptr.trans h0, fun _ => rfl⟩, nofun, nofun⟩, hone h.oneDB, hrun⟩
  · rw [hsignals, if_neg h0] at hrun
    refine ⟨.requested, ⟨⟨nofun, fun h0' => absurd (hptr.symm.trans h0') h0⟩, nofun,
      fun _ => hflag⟩, hone h.oneDB, hrun.trans ?_⟩
    cases phase with
    | free => exact absurd (h.free_iff.mp rfl) h0
    | held => rfl
    | requested => rfl
    | due => exact absurd rfl h.not_due

/-- What a release needs: the database is held. -/
theorem ptr_of_last (h : Phased σ phase) {o : ObjId} (ho : o ∈ σ.world.created)
    (hp : σ.world.ptr o ≠ 0) (hl : σ.world.Last (σ.world.given o)) : σ.world.ptr (.db 0) ≠ 0 := by
  intro h0
  obtain ⟨hpos, hle⟩ := hl
  rcases h.oneDB.idle h0 hpos o ho with rfl | ⟨b, rfl⟩
  · exact hp h0
  · rw [World.given, Nat.cast_zero] at hle
    omega

/-- A call that closes nothing. -/
theorem renewed_of_not_close (hc : ∀ o, c ≠ .close o) : Renewed σ c := fun o ho => absurd ho (hc o)

/-- The phase after the last reference is given back: the request is served, or the flag set by an
earlier one is taken for a request. -/
theorem run_lastEvents (h : Phased σ phase) (hp : σ.world.ptr (.db 0) ≠ 0) :
    (σ.world.mDestroyOnClose 0 = true → Deferred.asked σ.events = true) ∧
        Deferred.run phase σ.world.lastEvents = some .free ∨
      ¬ (σ.world.mDestroyOnClose 0 = true → Deferred.asked σ.events = true) ∧
        Deferred.run phase σ.world.lastEvents = none := by
  obtain ⟨hheld, hrequested⟩ := Deferred.asked_of_run h.run
  rw [World.lastEvents]
  cases phase with
  | free => exact absurd (h.free_iff.mp rfl) hp
  | due => exact absurd rfl h.not_due
  | requested =>
    rw [h.requested rfl]
    exact .inl ⟨fun _ => hrequested rfl, rfl⟩
  | held =>
    rw [hheld rfl]
    cases σ.world.mDestroyOnClose 0 with
    | false => exact .inl ⟨fun h => (by cases h), rfl⟩
    | true => exact .inr ⟨by decide, rfl⟩

/-- **A handle is closed.** -/
theorem closed (h : Phased σ phase) {o : ObjId} (hc : OnTheDB env σ (.close o))
    (hs : σ.after env (.close o) = some σ') :
    Renewed σ (.close o) ∧ (∃ phase', Phased σ' phase') ∨
      ¬ Renewed σ (.close o) ∧ Deferred.run .free σ'.events = none := by
  have ho : o ∈ σ.world.created := hc.objects o List.mem_cons_self
  have hd (d : ℕ) (hod : o = .db d) : d = 0 := h.oneDB.only d (hod ▸ ho)
  obtain ⟨hgiven, he⟩ := Watched.after_leaves hs
    (leaves_close hc.destroys hd h.oneDB.snapshotDB h.oneDB.iteratorDB)
  have hone := h.oneDB.givenUp hgiven
  obtain ⟨new, hnew, haround⟩ := hgiven.emits.calls
  rw [← signals_eq _ hnew] at haround
  have hrun := h.run_append he
  by_cases hl : σ.world.ptr o ≠ 0 ∧ σ.world.Last (σ.world.given o)
  · obtain ⟨hpo, hl⟩ := hl
    have hp := h.ptr_of_last ho hpo hl
    rw [if_neg hpo] at hgiven haround
    rw [if_pos hl] at haround
    have hptr := hgiven.ptr
    rw [if_pos hl] at hptr
    rcases h.run_lastEvents hp with ⟨hasked, hlast⟩ | ⟨hasked, hlast⟩
    · refine .inl ⟨fun _ _ _ _ => hasked, .free, ⟨⟨fun _ => hptr, fun _ => rfl⟩, nofun, nofun⟩,
        hone, hrun.trans ?_⟩
      exact (haround.run_eq h.not_due (by rw [hlast]; nofun)).trans hlast
    · refine .inr ⟨fun hr => hasked (hr o rfl hpo hl), hrun.trans ?_⟩
      exact (haround.run_eq h.not_due (by rw [hlast]; nofun)).trans hlast
  · have hl' : ¬ σ.world.Last (if σ.world.ptr o = 0 then 0 else σ.world.given o) := by
      split
      · exact fun h0 => absurd h0.1 (not_lt.mpr h0.2)
      · next hpo => exact fun hlast => hl ⟨hpo, hlast⟩
    rw [if_neg hl'] at haround
    have hptr := hgiven.ptr
    rw [if_neg hl'] at hptr
    refine .inl ⟨?_, phase, h.of_around hone hptr hgiven.emits.mDestroyOnClose haround he⟩
    rintro _ ⟨⟩ hpo hlast
    exact absurd ⟨hpo, hlast⟩ hl

/-- **A call keeps the phases**, or destroys a database for a request that was served. -/
theorem step (h : Phased σ phase) (hc : OnTheDB env σ c) (hs : σ.after env c = some σ') :
    Renewed σ c ∧ (∃ phase', Phased σ' phase') ∨
      ¬ Renewed σ c ∧ Deferred.run .free σ'.events = none := by
  have hidle (hclose : ∀ o, c ≠ .close o) (hrequests : c.requests = [])
      (hl : Leaves (c.run env) σ.world (Idles σ.world)) :
      Renewed σ c ∧ (∃ phase', Phased σ' phase') ∨
        ¬ Renewed σ c ∧ Deferred.run .free σ'.events = none := by
    obtain ⟨hi, he⟩ := Watched.after_leaves hs hl
    rw [hrequests, List.nil_append] at he
    exact .inl ⟨renewed_of_not_close hclose, phase, h.idle hi he⟩
  have hquiet (hq : c.Quiet) (hclose : ∀ o, c ≠ .close o) (hrequests : c.requests = []) :=
    hidle hclose hrequests (idles_quiet hq)
  have honly (d : ℕ) (hd : .db d ∈ c.objects) : d = 0 := h.oneDB.only d (hc.objects _ hd)
  cases c with
  | newDB path => exact absurd rfl (hc.not_newDB path)
  | destroyPath path => exact absurd rfl (hc.not_destroyPath path)
  | close o => exact h.closed hc hs
  | openDB d =>
    obtain rfl := honly d List.mem_cons_self
    exact .inl ⟨renewed_of_not_close (fun _ h => by cases h), h.opened hs⟩
  | destroy d =>
    obtain rfl := honly d List.mem_cons_self
    exact .inl ⟨renewed_of_not_close (fun _ h => by cases h), h.requested_again hc.destroys hs⟩
  | iterator d snapshot =>
    obtain rfl := honly d (by simp [Call.objects, iteratorRefs])
    refine hidle (fun _ h => by cases h) rfl ?_
    rw [Leaves, Call.run, ends_bind]
    exact idles_iterator snapshot
  | getSnapshot d =>
    obtain rfl := honly d List.mem_cons_self
    refine hidle (fun _ h => by cases h) rfl ?_
    rw [Leaves, Call.run, ends_bind]
    exact idles_getSnapshot
  | newBatch =>
    refine hidle (fun _ h => by cases h) rfl ?_
    rw [Leaves, Call.run, ends_bind]
    exact idles_newBatch
  | _ => exact hquiet trivial (fun _ h => by cases h) rfl

/-- **Along a run the requests are in some phase.** -/
theorem of_reachable {path : String} (hr : Watched.Reachable path σ) :
    ∃ phase, Phased σ phase := by
  induction hr with
  | refl => exact ⟨.free, start path⟩
  | tail _ hs ih =>
    obtain ⟨phase, h⟩ := ih
    obtain ⟨env, c, hc, hrenewed, hafter⟩ := hs
    exact ((h.step hc hafter).resolve_right fun hno => hno.1 hrenewed).2

end Phased

/-- **A request to destroy a database is served once, when that is safe**, in every run in which no
database is closed for an older request, and a run in which one is stops to be so there. -/
theorem destroy_served_iff {path : String} {σ : Watched} (hr : Watched.Reachable path σ) :
    Served σ ∧ ∀ env c σ', OnTheDB env σ c → σ.after env c = some σ' →
      (Served σ' ↔ Renewed σ c) := by
  obtain ⟨phase, h⟩ := Phased.of_reachable hr
  refine ⟨h.served, fun env c σ' hc hs => ?_⟩
  rcases h.step hc hs with ⟨hrenewed, _, h'⟩ | ⟨hno, hnone⟩
  · exact iff_of_true h'.served hrenewed
  · refine iff_of_false (fun hserved => ?_) hno
    obtain ⟨_, hrun, -⟩ := hserved.phase
    rw [hnone] at hrun
    cases hrun

/-- A database is destroyed when its last snapshot is closed. -/
theorem destroy_served_iff_example : ∃ σ, Served σ ∧
    σ.events = [.acquire, .other, .request, .other, .release, .serve] := by
  have h1 : Watched.Reachable "/db" _ := .tail .refl ⟨envAt 3, .openDB 0,
    ⟨by decide, nofun, nofun, rfl⟩, nofun, rfl⟩
  have h2 := h1.tail ⟨envAt 4, .getSnapshot 0, ⟨by decide, nofun, nofun, rfl⟩, nofun, rfl⟩
  have h3 := h2.tail ⟨envAt 5, .destroy 0, ⟨by decide, nofun, nofun, rfl⟩, nofun, rfl⟩
  have h4 := h3.tail ⟨envAt 5, .close (.db 0), ⟨by decide, nofun, nofun, rfl⟩,
    fun _ _ _ _ _ => by decide, rfl⟩
  have h5 := h4.tail ⟨envAt 5, .close (.snapshot 1), ⟨by decide, nofun, nofun, rfl⟩,
    fun _ _ _ _ _ => by decide, rfl⟩
  exact ⟨_, (destroy_served_iff h5).1, rfl⟩

/-- The data of a database is destroyed that was opened after the request, which was served before
that. -/
theorem destroyed_again : ∃ σ σ', Watched.Reachable "/db" σ ∧
    σ.events = [.request, .serve, .acquire] ∧
    OnTheDB (envAt 4) σ (.close (.db 0)) ∧ σ.after (envAt 4) (.close (.db 0)) = some σ' ∧
    σ'.events = [.request, .serve, .acquire, .release, .serve] ∧ ¬ Served σ' := by
  have h1 : Watched.Reachable "/db" _ := .tail .refl ⟨envAt 3, .destroy 0,
    ⟨by decide, nofun, nofun, rfl⟩, nofun, rfl⟩
  have h2 := h1.tail ⟨envAt 3, .openDB 0, ⟨by decide, nofun, nofun, rfl⟩, nofun, rfl⟩
  refine ⟨_, _, h2, rfl, ⟨by decide, nofun, nofun, rfl⟩, rfl, rfl, fun hserved => ?_⟩
  obtain ⟨_, hrun, -⟩ := hserved.phase
  cases hrun

end Java
