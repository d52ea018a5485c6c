import AndroidLevelDB.Java.Teardown

/-!
# Java/Reopening — opening a database again

The reference of the handle is taken by the constructor of `DB` and given back by `close`, and
`open` only stores a pointer.  So the count of a database is that of its handle and its children as
long as it is not opened again after its last reference was given back (`reopening`); a database
that is counts nothing for its handle.
-/

open Leveldb Jni Function

namespace Java

/-- A proper call that makes no iterator of a snapshot. -/
structure Cycling (env : Env) (σ : Client) (c : Call) : Prop extends Proper env σ c where
  plain : ∀ d s, c ≠ .iterator d (some s)

/-- The iterators and snapshots of a database that are not closed. -/
def Client.unclosedChildren (σ : Client) (d : ℕ) : Finset ObjId :=
  σ.unclosed.filter fun o => (σ.world.isIteratorOf d o || σ.world.isSnapshotOf d o) = true

/-- The native databases and the objects that opened them. -/
structure Matched (σ : Client) : Prop where
  /-- A database with a pointer counts its handle, unless that was closed since the last `open`, and
  its children. -/
  count_db : ∀ d, σ.world.ptr (.db d) ≠ 0 → σ.world.count (.db d)
    = (if .db d ∈ σ.closed then 0 else 1) + (σ.unclosedChildren d).card
  /-- The native database lives as long as the object counts anything. -/
  lives : ∀ d, σ.world.ptr (.db d) ≠ 0 → 0 < σ.world.count (.db d) ∧
    σ.world.kinds (σ.world.ptr (.db d)) = some (.db (σ.world.mPath d))
  /-- The last release closed it, once. -/
  released : ∀ d, .db d ∈ σ.world.created → σ.world.count (.db d) = 0 →
    σ.world.ptr (.db d) = 0 ∧ .db d ∈ σ.world.closings.map Prod.fst
  closings_nodup : (σ.world.closings.map Prod.fst).Nodup
  /-- Every native database belongs to an object. -/
  owned : ∀ p path, σ.world.kinds p = some (.db path) →
    ∃ d, σ.world.ptr (.db d) = p ∧ 0 < σ.world.count (.db d)
  /-- What was made at an address was freed, but for what lives there. -/
  matched : ∀ p, Lifetime.creations p σ.world.lifetime
    = Lifetime.frees p σ.world.lifetime + (σ.world.kinds p).toList.length
  close_returns : ∀ env o, o ∈ σ.world.created → Cycling env σ (.close o) →
    ∃ w, close env o σ.world = .ok () w
  /-- A pointer is not overwritten while its native database lives. -/
  not_overwritten : ∀ env d, env.newPtr ≠ 0 → σ.world.ptr (.db d) ≠ 0 →
    ∃ t w, DB.open env d σ.world = .error (.thrown t) w ∧
      w.ptr (.db d) = σ.world.ptr (.db d)

section Matched

variable {σ : Client} {d : ℕ}

/-- Where no iterator was made with a snapshot, children are released with their handles. -/
theorem Inv.count_children {stale : Finset ObjId} (h : Inv σ ∅ stale)
    (hno : ∀ i, σ.world.iteratorSnapshot i = none) (hd : .db d ∈ σ.world.created) :
    σ.world.count (.db d)
      = (if .db d ∈ σ.closed then 0 else 1) + (σ.unclosedChildren d).card := by
  have hfilter := h.filter_unreleased
    (p := fun o => σ.world.isIteratorOf d o || σ.world.isSnapshotOf d o) fun o hpo x => by
      cases o with
      | iterator i => exact iterator_notMem_refs _ i x
      | snapshot s => cases x <;> simp [World.refs, hno]
      | _ => cases hpo
  have hcount (o : ObjId) : (σ.world.refs o).count (.db d)
      = if (σ.world.isIteratorOf d o || σ.world.isSnapshotOf d o) = true then 1 else 0 := by
    rw [World.count_refs_db]
    cases o <;> simp [World.isIteratorOf, World.isSnapshotOf]
  rw [h.count_eq, Client.unclosedChildren, ← hfilter, Finset.card_filter]
  simp only [hcount]
  have hown : (.db d ∈ σ.unclosed) ↔ .db d ∉ σ.closed := by simp [Client.unclosed, hd]
  simp only [hown]
  split_ifs <;> omega

/-- To open a database that is open throws, and leaves its pointer. -/
theorem Inv.open_throws (h : Inv σ ∅ ∅) {env : Env} (hnew : env.newPtr ≠ 0)
    (hp : σ.world.ptr (.db d) ≠ 0) :
    ∃ t w, DB.open env d σ.world = .error (.thrown t) w ∧
      w.ptr (.db d) = σ.world.ptr (.db d) := by
  have hlive : .db d ∈ σ.world.live := by
    by_contra hdead
    exact (h.held.ptr_dead _ hdead).elim hp (Finset.notMem_empty _)
  have hstatus := h.held.openStatus_of_ptr env hlive hp
  have hends := ends_open (w := σ.world) (d := d) hnew
  cases hrun : DB.open env d σ.world with
  | ok a w =>
    obtain ⟨-, -, hthrow⟩ := hends.of_ok hrun
    rw [hstatus] at hthrow
    cases hthrow
  | error e w =>
    obtain ⟨s, rfl, t, -, rfl⟩ := hends.of_error hrun
    exact ⟨t, _, rfl, rfl⟩

theorem Inv.matched (h : Inv σ ∅ ∅) (hno : ∀ i, σ.world.iteratorSnapshot i = none) :
    Matched σ := by
  have hlive {d : ℕ} (hp : σ.world.ptr (.db d) ≠ 0) : .db d ∈ σ.world.live := by
    by_contra hdead
    exact (h.held.ptr_dead _ hdead).elim hp (Finset.notMem_empty _)
  refine ⟨fun d hp => h.count_children hno (Held.live_created _ (hlive hp)), fun d hp => ?_,
    fun d hd h0 => ?_, h.held.closings_nodup, fun p path hk => ?_, h.held.lifetime.creations_eq,
    fun env o ho hc => ?_, fun env d hnew hp => h.open_throws hnew hp⟩
  · exact ⟨(h.held.counted.live_iff _).mp (hlive hp), h.held.kind _ (hlive hp) hp⟩
  · refine ⟨?_, (h.closed_iff hd).mpr h0⟩
    by_contra hp
    have := (h.held.counted.live_iff _).mp (hlive hp)
    omega
  · obtain ⟨h0, o, ho, rfl⟩ := h.held.owner p (by rw [hk]; exact Option.some_ne_none _)
    have hkind : σ.world.kindOf o = .db path :=
      Option.some_inj.mp ((h.held.kind o ho h0).symm.trans hk)
    cases o with
    | db d => exact ⟨d, rfl, (h.held.counted.live_iff _).mp ho⟩
    | _ => cases hkind
  · exact h.close_returns ho (hc.close_once o rfl) hc.undisturbed.not_fails

end Matched

/-- **Opening and closing**: as long as no `open` succeeds for a database without references, native
databases and `open`s match.  One that does leaves a database that counts nothing for its handle. -/
theorem reopening {σ : Client} (hr : Reachable Cycling σ) :
    Matched σ ∧ ∀ env d, env.newPtr ≠ 0 → (σ.world.openStatus env d).ok = true →
      σ.world.count (.db d) ≤ 0 → ∃ w, DB.open env d σ.world = .ok () w ∧
        w.ptr (.db d) ≠ 0 ∧ w.count (.db d) ≤ 0 := by
  refine ⟨?_, fun env d hnew hok hcount => ?_⟩
  · have h := Inv.of_proper (run_mono (fun _ _ _ hc => hc.toProper) hr)
    have hno : NoIteratorSnapshots Client.start.world σ.world :=
      KeptBySteps.of_run (fun _ _ _ hc => keptBySteps_noIteratorSnapshots hc.plain) hr
    exact h.matched (hno fun _ => rfl)
  · have hends := ends_open (w := σ.world) (d := d) hnew
    cases hrun : DB.open env d σ.world with
    | ok a w' =>
      obtain ⟨s, rfl, -⟩ := hends.of_ok hrun
      refine ⟨_, rfl, ?_, ?_⟩
      · rw [World.ptr_setPtr, update_self, if_pos hok]
        exact hnew
      · rwa [World.count_setPtr]
    | error e w' =>
      obtain ⟨s, -, t, ht, -⟩ := hends.of_error hrun
      rw [throwUnlessOk_of_ok hok] at ht
      cases ht

/-- A database is opened, and closed once a snapshot of it is. -/
theorem reopening_example : ∃ σ, Matched σ ∧ σ.world.closings.map Prod.fst = [.db 0, .snapshot 1] ∧
    ∃ w', DB.open (envAt 6) 0 σ.world = .ok () w' ∧ w'.ptr (.db 0) ≠ 0 ∧ w'.count (.db 0) ≤ 0 := by
  have h1 : Reachable Cycling _ := .tail .refl ⟨envAt 3, .newDB (some "/db"), by decide,
    fun _ => rfl, ⟨proper_of (by decide) nofun nofun nofun, nofun⟩, rfl⟩
  have h2 := h1.tail ⟨envAt 3, .openDB 0, by decide, fun _ => rfl,
    ⟨proper_of (by decide) nofun nofun (fun d h => by cases h; decide), nofun⟩, rfl⟩
  have h3 := h2.tail ⟨envAt 4, .getSnapshot 0, by decide, fun _ => rfl,
    ⟨proper_of (by decide) nofun nofun nofun, nofun⟩, rfl⟩
  have h4 := h3.tail ⟨envAt 5, .close (.db 0), by decide, fun _ => rfl,
    ⟨proper_of (by decide) (fun o h => .inl (by cases h; decide)) nofun nofun, nofun⟩,
    rfl⟩
  have h5 := h4.tail ⟨envAt 5, .close (.snapshot 1), by decide, fun _ => rfl,
    ⟨proper_of (by decide) (fun o h => .inl (by cases h; decide)) nofun nofun, nofun⟩,
    rfl⟩
  exact ⟨_, (reopening h5).1, by decide,
    (reopening h5).2 (envAt 6) 0 (by decide) (by decide) (by decide)⟩

/-- A database that is opened again cannot be closed. -/
theorem reopened : ∃ σ w w' t, Reachable Proper σ ∧ σ.world.count (.db 0) = 0 ∧
    DB.open (envAt 4) 0 σ.world = .ok () w ∧ w.ptr (.db 0) ≠ 0 ∧ w.count (.db 0) = 0 ∧
    close (envAt 4) (.db 0) w = .error (.thrown t) w' ∧ w'.ptr (.db 0) ≠ 0 := by
  have h1 := reachable_openedClient.tail ⟨envAt 4, .close (.db 0), by decide, fun _ => rfl,
    proper_of (by decide) (fun o h => .inl (by cases h; decide)) nofun nofun, rfl⟩
  exact ⟨_, _, _, _, h1, by decide, rfl, by decide, by decide, rfl, by decide⟩

end Java
