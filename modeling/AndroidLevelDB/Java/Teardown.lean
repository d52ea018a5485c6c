import AndroidLevelDB.Java.Frames
import AndroidLevelDB.Java.Holders

/-!
# Java/Teardown — what closing each handle once is good for

If each handle is closed once, in whatever order, and no snapshot is used after its release, then
every object counts its handle and what holds it, native objects are freed in the order of their
dependence, and once all handles are closed nothing native is left (`teardown`).  That no object
comes back after its release (`no_resurrection`) rests on the second condition: to make an iterator
of a released snapshot counts it again.
-/

open Leveldb Jni Function

namespace Java

/-- A tidy call that makes no iterator of a released snapshot, and for which native calls
succeed. -/
structure Proper (env : Env) (σ : Client) (c : Call) : Prop extends Tidy env σ c where
  unreleased : Unreleased σ c
  newPtr : env.newPtr ≠ 0
  destroys : throwUnlessOk env.destroyStatus = none

theorem Proper.undisturbed {env : Env} {σ : Client} {c : Call} (h : Proper env σ c) :
    Undisturbed env σ c :=
  ⟨h.toTidy, h.unreleased, fun ⟨_, _, _, hthrow, _⟩ => hthrow h.destroys⟩

theorem Inv.of_proper {σ : Client} (hr : Reachable Proper σ) : Inv σ ∅ ∅ :=
  .of_undisturbed (run_mono (fun _ _ _ hc => hc.undisturbed) hr)

/-- Who holds what, and in which order native objects are freed. -/
structure Owned (σ : Client) : Prop where
  /-- A database counts its handle, its unclosed iterators and its unreleased snapshots. -/
  count_db : ∀ d, .db d ∈ σ.world.created → σ.world.count (.db d)
    = (if .db d ∈ σ.closed then 0 else 1) + (σ.unclosedIterators d).card
      + (σ.unreleasedSnapshots d).card
  /-- A snapshot counts its handle and the unclosed iterators on it. -/
  count_snapshot : ∀ s, .snapshot s ∈ σ.world.created → σ.world.count (.snapshot s)
    = (if .snapshot s ∈ σ.closed then 0 else 1) + (σ.unclosedIteratorsOn s).card
  /-- Nothing was freed twice, nor before what depends on it: an iterator depends on its snapshot
  and its database, a snapshot on its database. -/
  legal : Lifetime.Replay Kind.parents σ.world.lifetime σ.world.kinds
  /-- The snapshot and the database of what lives are alive. -/
  parents_live : ∀ p k, σ.world.kinds p = some k → ∀ q ∈ k.parents, σ.world.kinds q ≠ none
  /-- What is not released wraps a native object that lives. -/
  wraps : ∀ o ∈ σ.world.unreleased, σ.world.ptr o ≠ 0 →
    σ.world.kinds (σ.world.ptr o) = some (σ.world.kindOf o)
  close_returns : ∀ env o, o ∈ σ.world.created → Proper env σ (.close o) →
    ∃ w, close env o σ.world = .ok () w
  /-- Once all handles are closed, each native object has been freed, as often as it was made. -/
  all_closed : (∀ o ∈ σ.unclosed, σ.world.ptr o = 0 ∧ ∃ d, o = .db d) →
    (∀ p, σ.world.kinds p = none) ∧
      ∀ p, Lifetime.creations p σ.world.lifetime = Lifetime.frees p σ.world.lifetime

/-- **Each handle is closed once, in any order**: every reachable state is as it should be. -/
theorem teardown {σ : Client} (hr : Reachable Proper σ) : Owned σ := by
  have h := Inv.of_proper hr
  refine ⟨fun d hd => h.count_db hd, fun s hs => h.count_snapshot hs, h.held.lifetime, ?_, ?_, ?_,
    ?_⟩
  · intro p k hp q hq
    exact h.held.lifetime.parents_live hp hq
  · intro o ho
    rw [← h.live_eq_unreleased] at ho
    exact h.held.kind o ho
  · intro env o ho hc
    exact h.close_returns ho (hc.close_once o rfl) hc.undisturbed.not_fails
  · intro hall
    have hnone := h.kinds_eq_none hall
    exact ⟨hnone, h.held.lifetime.creations_eq_frees hnone⟩

/-! ## A database, opened -/

/-- Nothing fails, and `new` returns `p`. -/
def envAt (p : ℕ) : Env := { fineEnv with newPtr := p }

theorem proper_of {p : ℕ} {σ : Client} {c : Call} (hp : p ≠ 0)
    (hclose : ∀ o, c = .close o → o ∉ σ.closed ∨ σ.world.ptr o = 0)
    (hsn : ∀ d s, c = .iterator d (some s) →
      σ.world.snapshotDB s = d ∧ σ.world.ptr (.snapshot s) ≠ 0)
    (hopen : ∀ d, c = .openDB d → 0 < σ.world.count (.db d)) : Proper (envAt p) σ c where
  close_once := hclose
  own_snapshot d s hc := (hsn d s hc).1
  open_once d hc _ := hopen d hc
  unreleased d s hc := .inr (hsn d s hc).2
  newPtr := hp
  destroys := rfl

/-- The client that has made and opened a database. -/
def openedClient : Client :=
  ((Client.start.after (envAt 3) (.newDB (some "/db"))).bind fun σ =>
    σ.after (envAt 3) (.openDB 0)).getD .start

theorem reachable_openedClient : Reachable Proper openedClient := by
  have hnew : Reachable Proper _ := .tail .refl ⟨envAt 3, .newDB (some "/db"), by decide,
    fun _ => rfl, proper_of (by decide) nofun nofun nofun, rfl⟩
  exact hnew.tail ⟨envAt 3, .openDB 0, by decide, fun _ => rfl,
    proper_of (by decide) nofun nofun (fun d h => by cases h; decide), rfl⟩

/-- A snapshot and a database are closed while an iterator still holds them. -/
theorem teardown_example : ∃ σ, Owned σ ∧ σ.closed = {.db 0, .snapshot 1} ∧
    σ.world.count (.db 0) = 2 ∧ σ.world.count (.snapshot 1) = 1 := by
  have h1 := reachable_openedClient.tail ⟨envAt 4, .getSnapshot 0, by decide, fun _ => rfl,
    proper_of (by decide) nofun nofun nofun, rfl⟩
  have h2 := h1.tail ⟨envAt 5, .iterator 0 (some 1), by decide, fun _ => rfl,
    proper_of (by decide) nofun (fun d s h => by cases h; decide) nofun, rfl⟩
  have h3 := h2.tail ⟨envAt 6, .close (.snapshot 1), by decide, fun _ => rfl,
    proper_of (by decide) (fun o h => .inl (by cases h; decide)) nofun nofun, rfl⟩
  have h4 := h3.tail ⟨envAt 6, .close (.db 0), by decide, fun _ => rfl,
    proper_of (by decide) (fun o h => .inl (by cases h; decide)) nofun nofun, rfl⟩
  exact ⟨_, teardown h4, by decide, by decide, by decide⟩

/-! ## No resurrection -/

/-- Releases happen once, and the native database outlives what was made of it. -/
structure ReleasedOnce (σ : Client) : Prop where
  closings_nodup : (σ.world.closings.map Prod.fst).Nodup
  closings_ptr : ∀ c ∈ σ.world.closings, c.2 ≠ 0
  /-- `closeNativeObject` ran for exactly the objects that count nothing. -/
  closed_iff : ∀ o ∈ σ.world.created, o ∈ σ.world.closings.map Prod.fst ↔ σ.world.count o = 0
  /-- A snapshot is counted until it is released. -/
  count_db : ∀ d, .db d ∈ σ.world.created → σ.world.count (.db d)
    = (if .db d ∈ σ.closed then 0 else 1) + (σ.unclosedIterators d).card
      + (σ.unreleasedSnapshots d).card
  db_lives : ∀ o ∈ σ.unclosed, ∀ d, .db d ∈ σ.world.refs o →
    σ.world.ptr (.db d) ≠ 0 ∧
      σ.world.kinds (σ.world.ptr (.db d)) = some (.db (σ.world.mPath d))

theorem Inv.closed_iff {σ : Client} {stale : Finset ObjId} (h : Inv σ ∅ stale) {o : ObjId}
    (ho : o ∈ σ.world.created) :
    o ∈ σ.world.closings.map Prod.fst ↔ σ.world.count o = 0 := by
  have hlive : o ∈ σ.world.live ↔ o ∉ σ.world.closings.map Prod.fst := by
    rw [h.live_eq_unreleased, World.unreleased, Finset.mem_filter]
    exact and_iff_right ho
  rw [← not_iff_not, ← hlive, h.held.counted.live_iff]
  have hcount := h.held.counted.count_eq o
  omega

/-- **No object comes back**, if no iterator is made of a released snapshot. -/
theorem no_resurrection {σ : Client} (hr : Reachable Careful σ) :
    ReleasedOnce σ ∧ ∀ σ', Run Careful σ σ' → ∀ o ∈ σ.world.created,
      σ.world.count o = 0 → σ'.world.count o = 0 := by
  obtain ⟨stale, h⟩ := Inv.of_careful (fun _ _ _ hc => hc) hr
  refine ⟨⟨h.held.closings_nodup, fun c hc => (h.held.closings_dead c hc).2.2,
    fun o ho => h.closed_iff ho, fun d hd => h.count_db hd,
    fun o ho d hd => h.kind_db_of_unclosed ho hd⟩, fun σ' hr' o ho h0 => ?_⟩
  obtain ⟨stale', h'⟩ := Inv.of_careful (fun _ _ _ hc => hc) (hr.trans hr')
  obtain ⟨c, hc, rfl⟩ := List.mem_map.mp ((h.closed_iff ho).mpr h0)
  have hmore : MoreClosings σ.world σ'.world :=
    KeptBySteps.of_run (fun _ _ c _ => keptBySteps_moreClosings c) hr'
  have hc' : c ∈ σ'.world.closings := hmore.subset hc
  exact (h'.closed_iff (h'.held.closings_dead c hc').1).mp (List.mem_map_of_mem hc')

/-- The release of a snapshot, and what comes after. -/
theorem no_resurrection_example : ∃ σ, ReleasedOnce σ ∧ .snapshot 1 ∈ σ.world.created ∧
    σ.world.count (.snapshot 1) = 0 := by
  have h1 := reachable_openedClient.tail ⟨envAt 4, .getSnapshot 0, by decide, fun _ => rfl,
    proper_of (by decide) nofun nofun nofun, rfl⟩
  have h2 := h1.tail ⟨envAt 6, .close (.snapshot 1), by decide, fun _ => rfl,
    proper_of (by decide) (fun o h => .inl (by cases h; decide)) nofun nofun, rfl⟩
  have hr := reachable_careful (run_mono (fun _ _ _ hc => hc.undisturbed) h2)
  exact ⟨_, (no_resurrection hr).1, by decide, by decide⟩

/-- An iterator of a released snapshot counts it again, and to close it releases the snapshot a
second time, with no pointer, which ends the process. -/
theorem snapshot_revived : ∃ σ σ' w, Reachable Orderly σ ∧ Step Orderly σ σ' ∧
    .snapshot 1 ∈ σ.world.created ∧ σ.world.count (.snapshot 1) = 0 ∧
    σ'.world.count (.snapshot 1) = 1 ∧
    close (envAt 6) (.iterator 2) σ'.world = .error .crash w ∧ (.snapshot 1, 0) ∈ w.closings := by
  have h1 := reachable_openedClient.tail ⟨envAt 4, .getSnapshot 0, by decide, fun _ => rfl,
    proper_of (by decide) nofun nofun nofun, rfl⟩
  have h2 := h1.tail ⟨envAt 6, .close (.snapshot 1), by decide, fun _ => rfl,
    proper_of (by decide) (fun o h => .inl (by cases h; decide)) nofun nofun, rfl⟩
  have hr := run_mono (fun _ _ _ hc => hc.toOrderly)
    (reachable_careful (run_mono (fun _ _ _ hc => hc.undisturbed) h2))
  refine ⟨_, _, _, hr, ⟨envAt 5, .iterator 0 (some 1), by decide, fun _ => rfl, ?_, rfl⟩, by decide,
    by decide, by decide, rfl, by decide⟩
  exact ⟨⟨nofun, fun d s h => by cases h; decide, nofun⟩, by decide⟩

end Java
