import AndroidLevelDB.Java.Runs

/-!
# Java/Holders — the counts, told from the handles

Where nothing was revived, the objects that live are those that were not released, and of the
iterators and batches those whose handles are not closed.  So the counts are those of the handles: a
database counts its handle, its unclosed iterators and its unreleased snapshots, and a snapshot its
handle and the unclosed iterators on it (`Inv.count_db`, `Inv.count_snapshot`).
-/

open Leveldb Jni Function

namespace Java

namespace World

variable (w : World)

/-- The objects for which `closeNativeObject` has not run. -/
def unreleased : Finset ObjId := w.created.filter fun o => o ∉ w.closings.map Prod.fst

def isIteratorOf (d : ℕ) : ObjId → Bool
  | .iterator i => w.iteratorDB i = d
  | _ => false

/-- An iterator made with the snapshot `s`. -/
def isIteratorOn (s : ℕ) : ObjId → Bool
  | .iterator i => w.iteratorSnapshot i = some s
  | _ => false

def isSnapshotOf (d : ℕ) : ObjId → Bool
  | .snapshot s => w.snapshotDB s = d
  | _ => false

variable {w}

theorem count_refs_db (d : ℕ) (o : ObjId) :
    (w.refs o).count (.db d)
      = (if w.isIteratorOf d o then 1 else 0) + if w.isSnapshotOf d o then 1 else 0 := by
  cases o with
  | db d' => rfl
  | snapshot s => simp [refs, isIteratorOf, isSnapshotOf, List.count_singleton]
  | iterator i =>
    cases hs : w.iteratorSnapshot i <;>
      simp [refs, hs, isIteratorOf, isSnapshotOf, List.count_singleton]
  | batch b => rfl

theorem count_refs_snapshot (s : ℕ) (o : ObjId) :
    (w.refs o).count (.snapshot s) = if w.isIteratorOn s o then 1 else 0 := by
  cases o with
  | db d' => rfl
  | snapshot s => simp [refs, isIteratorOn]
  | iterator i =>
    cases hs : w.iteratorSnapshot i <;> simp [refs, hs, isIteratorOn, List.count_cons]
  | batch b => rfl

end World

namespace Client

variable (σ : Client)

/-- The handles that are not closed. -/
def unclosed : Finset ObjId := σ.world.created \ σ.closed

def unclosedIterators (d : ℕ) : Finset ObjId :=
  σ.unclosed.filter fun o => σ.world.isIteratorOf d o = true

def unclosedIteratorsOn (s : ℕ) : Finset ObjId :=
  σ.unclosed.filter fun o => σ.world.isIteratorOn s o = true

def unreleasedSnapshots (d : ℕ) : Finset ObjId :=
  σ.world.unreleased.filter fun o => σ.world.isSnapshotOf d o = true

end Client

namespace Inv

variable {σ : Client} {stale : Finset ObjId} {o : ObjId}

/-- **What lives is what was not released.** -/
theorem live_eq_unreleased (h : Inv σ ∅ stale) : σ.world.live = σ.world.unreleased := by
  ext o
  rw [World.unreleased, Finset.mem_filter]
  constructor
  · intro ho
    refine ⟨Held.live_created o ho, fun hmem => ?_⟩
    obtain ⟨c, hc, rfl⟩ := List.mem_map.mp hmem
    exact Finset.notMem_empty _ ((h.held.closings_dead c hc).2.1 ho)
  · rintro ⟨hin, hno⟩
    by_contra hdead
    exact hno (h.held.dead_closed o hin hdead)

/-- The count of an object, told from the live objects. -/
theorem count_eq (h : Inv σ ∅ stale) (o : ObjId) :
    σ.world.count o
      = (if o ∈ σ.unclosed then 1 else 0) + ∑ x ∈ σ.world.unreleased, (σ.world.refs x).count o := by
  have hcount := h.held.counted.count_eq o
  rw [List.count_nil, holders, h.live_eq_unreleased] at hcount
  rw [hcount]
  simp [Client.unclosed, World.held]

theorem count_of_unheld (h : Inv σ ∅ stale) (ho : ∀ x, o ∉ σ.world.refs x) :
    σ.world.count o = if o ∈ σ.unclosed then 1 else 0 := by
  rw [h.count_eq, Finset.sum_eq_zero fun x _ => List.count_eq_zero.mpr (ho x)]
  simp

/-- What no object holds lives as long as its handle is not closed. -/
theorem mem_unreleased_iff (h : Inv σ ∅ stale) (ho : ∀ x, o ∉ σ.world.refs x) :
    o ∈ σ.world.unreleased ↔ o ∈ σ.unclosed := by
  rw [← h.live_eq_unreleased, h.held.counted.live_iff, h.count_of_unheld ho]
  split <;> simp_all

theorem iterator_notMem_refs (w : World) (i : ℕ) (x : ObjId) : .iterator i ∉ w.refs x := by
  cases x with
  | iterator i' => cases hs : w.iteratorSnapshot i' <;> simp [World.refs, hs]
  | _ => simp [World.refs]

theorem batch_notMem_refs (w : World) (b : ℕ) (x : ObjId) : .batch b ∉ w.refs x := by
  cases x with
  | iterator i' => cases hs : w.iteratorSnapshot i' <;> simp [World.refs, hs]
  | _ => simp [World.refs]

/-- What no object holds is released with its handle. -/
theorem filter_unreleased (h : Inv σ ∅ stale) {p : ObjId → Bool}
    (hp : ∀ o, p o = true → ∀ x, o ∉ σ.world.refs x) :
    σ.world.unreleased.filter (fun o => p o = true) = σ.unclosed.filter fun o => p o = true := by
  ext o
  simp only [Finset.mem_filter]
  exact and_congr_left fun hpo => h.mem_unreleased_iff (hp o hpo)

/-- **A database counts its handle, its unclosed iterators and its unreleased snapshots.** -/
theorem count_db (h : Inv σ ∅ stale) {d : ℕ} (hd : .db d ∈ σ.world.created) :
    σ.world.count (.db d) = (if .db d ∈ σ.closed then 0 else 1)
      + (σ.unclosedIterators d).card + (σ.unreleasedSnapshots d).card := by
  have hiter := h.filter_unreleased (p := σ.world.isIteratorOf d) fun o hpo => by
    cases o with
    | iterator i => exact iterator_notMem_refs _ i
    | _ => cases hpo
  rw [h.count_eq, Client.unclosedIterators, ← hiter, Client.unreleasedSnapshots,
    Finset.card_filter, Finset.card_filter]
  simp only [World.count_refs_db, Finset.sum_add_distrib]
  have hown : (.db d ∈ σ.unclosed) ↔ .db d ∉ σ.closed := by simp [Client.unclosed, hd]
  simp only [hown]
  push_cast
  split_ifs <;> omega

/-- **A snapshot counts its handle and the unclosed iterators on it.** -/
theorem count_snapshot (h : Inv σ ∅ stale) {s : ℕ} (hs : .snapshot s ∈ σ.world.created) :
    σ.world.count (.snapshot s) = (if .snapshot s ∈ σ.closed then 0 else 1)
      + (σ.unclosedIteratorsOn s).card := by
  have hiter := h.filter_unreleased (p := σ.world.isIteratorOn s) fun o hpo => by
    cases o with
    | iterator i => exact iterator_notMem_refs _ i
    | _ => cases hpo
  rw [h.count_eq, Client.unclosedIteratorsOn, ← hiter, Finset.card_filter]
  simp only [World.count_refs_snapshot]
  have hown : (.snapshot s ∈ σ.unclosed) ↔ .snapshot s ∉ σ.closed := by simp [Client.unclosed, hs]
  simp only [hown]
  split_ifs <;> omega

/-- **The native database of an unclosed child lives.** -/
theorem kind_db_of_unclosed {revived : Finset ObjId} (h : Inv σ revived stale)
    (ho : o ∈ σ.unclosed) {d : ℕ} (hd : .db d ∈ σ.world.refs o) :
    σ.world.ptr (.db d) ≠ 0 ∧
      σ.world.kinds (σ.world.ptr (.db d)) = some (.db (σ.world.mPath d)) := by
  have hlive := h.held.counted.live_of_own ho
  have hheld : σ.world.held revived o = σ.world.refs o :=
    if_neg fun hr => h.held.revived_disowned o hr ho
  rw [← hheld] at hd
  have hp := h.held.db_open o hlive d hd
  exact ⟨hp, h.held.kind _ (h.held.counted.live_of_refs hlive hd) hp⟩

/-- **A close that destroys no database in vain returns.** -/
theorem close_returns (h : Inv σ ∅ stale) {env : Env} (ho : o ∈ σ.world.created)
    (hc : o ∉ σ.closed ∨ σ.world.ptr o = 0) (hf : ¬ FailsToDestroy env σ (.close o)) :
    ∃ w, close env o σ.world = .ok () w := by
  have hends : Ends (close env o) σ.world (fun _ _ => True) fun _ _ => False := by
    by_cases hp : σ.world.ptr o = 0
    · exact ends_close.mpr ⟨fun _ => trivial, fun hne => absurd hp hne⟩
    · have hown : o ∈ σ.world.created \ σ.closed :=
        Finset.mem_sdiff.mpr ⟨ho, hc.resolve_right hp⟩
      refine (h.held.ends_close_own hown hp).mono (fun _ _ _ => trivial) ?_
      rintro e w (⟨-, hfails, -⟩ | ⟨-, hne⟩)
      · exact hf ⟨o, rfl, hp, hfails⟩
      · exact Finset.not_nonempty_empty hne
  obtain ⟨⟨⟩, w, hw, -⟩ := hends.exists_ok
  exact ⟨w, hw⟩

/-- **Once all handles are closed, nothing native lives**; a database without a native object need
not be closed. -/
theorem kinds_eq_none (h : Inv σ ∅ stale)
    (hall : ∀ o ∈ σ.unclosed, σ.world.ptr o = 0 ∧ ∃ d, o = .db d) (p : ℕ) :
    σ.world.kinds p = none := by
  by_contra hp
  obtain ⟨h0, o, ho, rfl⟩ := h.held.owner p hp
  have hown {x : ObjId} (hx : ∀ d, x ≠ .db d) : x ∉ σ.unclosed := fun hmem => by
    obtain ⟨-, d, hd⟩ := hall x hmem
    exact hx d hd
  have hnone : o ∉ σ.unclosed := fun hmem => h0 (hall o hmem).1
  have hiter (i : ℕ) : .iterator i ∉ σ.world.unreleased := fun hmem =>
    hown (by simp) ((h.mem_unreleased_iff (iterator_notMem_refs _ i)).mp hmem)
  have hpos {x : ObjId} (hx : x ∈ σ.world.unreleased) : 0 < σ.world.count x :=
    (h.held.counted.live_iff x).mp (h.live_eq_unreleased ▸ hx)
  have hsnap (s : ℕ) : .snapshot s ∉ σ.world.unreleased := by
    intro hmem
    have hcr : .snapshot s ∈ σ.world.created := (Finset.mem_filter.mp hmem).1
    have hclosed : .snapshot s ∈ σ.closed := by
      by_contra hno
      exact hown (by simp) (Finset.mem_sdiff.mpr ⟨hcr, hno⟩)
    have hempty : σ.unclosedIteratorsOn s = ∅ := by
      refine Finset.filter_eq_empty_iff.mpr fun x hx hxs => ?_
      obtain ⟨-, d, rfl⟩ := hall x hx
      cases hxs
    have hcount := h.count_snapshot hcr
    rw [if_pos hclosed, hempty, Finset.card_empty] at hcount
    have := hpos hmem
    omega
  rw [h.live_eq_unreleased] at ho
  cases o with
  | iterator i => exact hiter i ho
  | snapshot s => exact hsnap s ho
  | batch b => exact hnone ((h.mem_unreleased_iff (batch_notMem_refs _ b)).mp ho)
  | db d =>
    have hcr : .db d ∈ σ.world.created := (Finset.mem_filter.mp ho).1
    have hclosed : .db d ∈ σ.closed := by
      by_contra hno
      exact hnone (Finset.mem_sdiff.mpr ⟨hcr, hno⟩)
    have hiters : σ.unclosedIterators d = ∅ := by
      refine Finset.filter_eq_empty_iff.mpr fun x hx hxs => ?_
      obtain ⟨-, d', rfl⟩ := hall x hx
      cases hxs
    have hsnaps : σ.unreleasedSnapshots d = ∅ := by
      refine Finset.filter_eq_empty_iff.mpr fun x hx hxs => ?_
      cases x with
      | snapshot s => exact hsnap s hx
      | _ => cases hxs
    have hcount := h.count_db hcr
    rw [if_pos hclosed, hiters, hsnaps, Finset.card_empty] at hcount
    have := hpos ho
    omega

end Inv

end Java
