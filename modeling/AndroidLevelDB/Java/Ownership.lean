import AndroidLevelDB.Java.Classes
import AndroidLevelDB.Jni.Lifetimes

/-!
# Java/Ownership — who holds what

`Held w own revived stale π` is the invariant of the wrapper: every object counts its holders, where
`own` are the handles the client has not closed and `π` are references being moved; a live object
wraps one native object of its own, whose native object depends on those of the objects it refers
to; and the life of the native objects so far was legal.

Two sets name what the wrapper gets wrong.  An object that is not live has no address, but for those
in `stale`: the ones being closed, and the ones whose closing ended with an exception.  And
`revived` are the snapshots that were passed to `iterator` after their release: they are counted
again, but have given back the reference they held.

The lemmas say how the moves of references change the invariant; the modules on release and creation
add what changes the set of live objects.
-/

open Jni Function

namespace Java

namespace World

/-- The objects with references to them. -/
def live (w : World) : Finset ObjId := w.created.filter fun o => 0 < w.count o

/-- The objects that an object holds. -/
def refs (w : World) : ObjId → List ObjId
  | .db _ => []
  | .snapshot s => [.db (w.snapshotDB s)]
  | .iterator i => (w.iteratorSnapshot i).toList.map .snapshot ++ [.db (w.iteratorDB i)]
  | .batch _ => []

/-- The references that are counted: a revived snapshot has given back the one it held. -/
def held (w : World) (revived : Finset ObjId) (o : ObjId) : List ObjId :=
  if o ∈ revived then [] else w.refs o

/-- The kind of native object that an object wraps. -/
def kindOf (w : World) : ObjId → Kind
  | .db d => .db (w.mPath d)
  | .snapshot s => .snapshot (w.ptr (.db (w.snapshotDB s)))
  | .iterator i => .iterator (w.ptr (.db (w.iteratorDB i)))
      ((w.iteratorSnapshot i).elim 0 fun s => w.ptr (.snapshot s))
  | .batch _ => .batch

/-- What a native object depends on is wrapped by what its wrapper holds. -/
theorem exists_ref_of_parent {w : World} {o : ObjId} {p : ℕ} (h : p ∈ (w.kindOf o).parents) :
    ∃ x ∈ w.refs o, w.ptr x = p ∧ (p = 0 → ∃ d, x = .db d) := by
  cases o with
  | db d => cases h
  | snapshot s =>
    obtain rfl := List.mem_singleton.mp h
    exact ⟨_, List.mem_singleton_self _, rfl, fun _ => ⟨_, rfl⟩⟩
  | iterator i =>
    simp only [kindOf, Kind.parents] at h
    cases hs : w.iteratorSnapshot i with
    | none =>
      rw [hs] at h
      obtain rfl := List.mem_singleton.mp h
      exact ⟨.db (w.iteratorDB i), by simp [refs], rfl, fun _ => ⟨_, rfl⟩⟩
    | some s =>
      simp only [hs, Option.elim_some] at h
      split_ifs at h with h0
      · obtain rfl := List.mem_singleton.mp h
        exact ⟨.db (w.iteratorDB i), by simp [refs], rfl, fun _ => ⟨_, rfl⟩⟩
      · rcases List.mem_pair.mp h with rfl | rfl
        · exact ⟨.db (w.iteratorDB i), by simp [refs], rfl, fun _ => ⟨_, rfl⟩⟩
        · exact ⟨.snapshot s, by simp [refs, hs], rfl, fun h0' => absurd h0' h0⟩
  | batch b => cases h

end World

/-- The invariant of the wrapper. -/
structure Held (w : World) (own revived stale : Finset ObjId) (π : List ObjId) : Prop where
  counted : Counted w.count own w.live (w.held revived) π
  number_lt : ∀ o ∈ w.created, o.number < w.fresh
  own_created : own ⊆ w.created
  ptr_uncreated : ∀ o ∉ w.created, w.ptr o = 0
  /-- A live object wraps a native object of its kind, if it has one. -/
  kind : ∀ o ∈ w.live, w.ptr o ≠ 0 → w.kinds (w.ptr o) = some (w.kindOf o)
  ptr_inj : ∀ o ∈ w.live, ∀ o' ∈ w.live, w.ptr o = w.ptr o' → w.ptr o ≠ 0 → o = o'
  /-- Every native object is wrapped. -/
  owner : ∀ p, w.kinds p ≠ none → p ≠ 0 ∧ ∃ o ∈ w.live, w.ptr o = p
  locked : ∀ p path, w.kinds p = some (.db path) → path ∈ w.locks
  lock_inj : ∀ p p' path, w.kinds p = some (.db path) → w.kinds p' = some (.db path) → p = p'
  ptr_dead : ∀ o ∉ w.live, w.ptr o = 0 ∨ o ∈ stale
  db_open : ∀ o ∈ w.live, ∀ d, .db d ∈ w.held revived o → w.ptr (.db d) ≠ 0
  /-- A handle is only given up while its native object exists. -/
  ptr_disowned : ∀ o ∈ w.live, o ∉ own → o ∉ revived → w.ptr o ≠ 0
  revived_live : ∀ o ∈ revived, o ∈ w.live ∧ w.ptr o = 0 ∧ ∃ s, o = .snapshot s
  revived_disowned : ∀ o ∈ revived, o ∉ own
  same_db : ∀ i s, .iterator i ∈ w.live → w.iteratorSnapshot i = some s →
    w.snapshotDB s = w.iteratorDB i
  lifetime : Lifetime.Replay Kind.parents w.lifetime w.kinds
  /-- `closeNativeObject` ran once for each object that is not live any more. -/
  closings_nodup : (w.closings.map Prod.fst).Nodup
  closings_dead : ∀ c ∈ w.closings, c.1 ∈ w.created ∧ (c.1 ∈ w.live → c.1 ∈ revived) ∧ c.2 ≠ 0
  dead_closed : ∀ o ∈ w.created, o ∉ w.live → o ∈ w.closings.map Prod.fst

/-- Giving the references `l` back: no object is created or revived. -/
structure GaveBack (w w' : World) (l : List ObjId) : Prop where
  created : w'.created = w.created
  live : w'.live ⊆ w.live
  ptr : ∀ o, w'.ptr o = w.ptr o ∨ w'.ptr o = 0
  count : ∀ o, w'.count o = w.count o - l.count o
  mDestroyOnClose : w'.mDestroyOnClose = w.mDestroyOnClose

theorem GaveBack.trans {w w' w'' : World} {l l' : List ObjId} (h : GaveBack w w' l)
    (h' : GaveBack w' w'' l') : GaveBack w w'' (l ++ l') := by
  refine ⟨h'.created.trans h.created, h'.live.trans h.live, fun o => ?_, fun o => ?_,
    h'.mDestroyOnClose.trans h.mDestroyOnClose⟩
  · rcases h'.ptr o with heq | h0
    · rw [heq]
      exact h.ptr o
    · exact .inr h0
  · rw [h'.count, h.count, List.count_append]
    omega

namespace Held

variable {w w' : World} {own own' revived stale : Finset ObjId} {π π' : List ObjId} {j : ObjId}

theorem live_created (o : ObjId) (ho : o ∈ w.live) : o ∈ w.created := (Finset.mem_filter.mp ho).1

/-- An object with an address is not revived. -/
theorem held_of_ptr (h : Held w own revived stale π) {o : ObjId} (ho : w.ptr o ≠ 0) :
    w.held revived o = w.refs o :=
  if_neg fun hr => ho (h.revived_live o hr).2.1

/-- The snapshot of a live iterator lives. -/
theorem live_iteratorSnapshot (h : Held w own revived stale π) {i s : ℕ}
    (hi : .iterator i ∈ w.live) (hs : w.iteratorSnapshot i = some s) : .snapshot s ∈ w.live := by
  refine h.counted.live_of_refs hi ?_
  have hr : .iterator i ∉ revived := fun hr => by
    obtain ⟨-, -, s, hs⟩ := h.revived_live _ hr
    cases hs
  rw [World.held, if_neg hr]
  simp [World.refs, hs]

/-- Where nothing lives no live object points. -/
theorem ptr_ne_of_free (h : Held w own revived stale π) {p : ℕ} (hp : p ≠ 0)
    (hfree : w.kinds p = none) {o : ObjId} (ho : o ∈ w.live) : w.ptr o ≠ p := by
  rintro rfl
  rw [h.kind o ho hp] at hfree
  cases hfree

/-- What the native object of a live object depends on lives. -/
theorem parents_live (h : Held w own revived stale π) (hj : j ∈ w.live) (hr : j ∉ revived) {q : ℕ}
    (hq : q ∈ (w.kindOf j).parents) : w.kinds q ≠ none := by
  obtain ⟨x, hx, rfl, hdb⟩ := World.exists_ref_of_parent hq
  have hx : x ∈ w.held revived j := by rwa [World.held, if_neg hr]
  have hxp : w.ptr x ≠ 0 := by
    intro hx0
    obtain ⟨d, rfl⟩ := hdb hx0
    exact h.db_open j hj d hx hx0
  rw [h.kind x (h.counted.live_of_refs hj hx) hxp]
  exact Option.some_ne_none _

/-- A live object with its native object was not closed. -/
theorem notMem_closings (h : Held w own revived stale π) (hj : j ∈ w.live) (hp : w.ptr j ≠ 0) :
    j ∉ w.closings.map Prod.fst := by
  intro hin
  obtain ⟨c, hc, rfl⟩ := List.mem_map.mp hin
  obtain ⟨-, hdead, -⟩ := h.closings_dead c hc
  exact hp (h.revived_live c.1 (hdead hj)).2.1

/-- The same but for the counts, and for addresses of objects that are not live. -/
structure Same (w w' : World) : Prop where
  skeleton : w'.skeleton = w.skeleton
  ptr : ∀ o ∈ w.live, w'.ptr o = w.ptr o
  ptr_dead : ∀ o ∉ w.live, w'.ptr o = w.ptr o ∨ w'.ptr o = 0
  created : w'.created = w.created
  mPath : w'.mPath = w.mPath
  snapshotDB : w'.snapshotDB = w.snapshotDB
  iteratorDB : w'.iteratorDB = w.iteratorDB
  iteratorSnapshot : w'.iteratorSnapshot = w.iteratorSnapshot
  closings : w'.closings = w.closings

theorem Same.of_ptr {w w' : World} (hs : w'.skeleton = w.skeleton) (hp : w'.ptr = w.ptr)
    (hcr : w'.created = w.created) (h1 : w'.mPath = w.mPath) (h2 : w'.snapshotDB = w.snapshotDB)
    (h3 : w'.iteratorDB = w.iteratorDB) (h4 : w'.iteratorSnapshot = w.iteratorSnapshot)
    (h5 : w'.closings = w.closings) : Same w w' :=
  ⟨hs, fun o _ => congrFun hp o, fun o _ => .inl (congrFun hp o), hcr, h1, h2, h3, h4, h5⟩

namespace Same

theorem kinds (h : Same w w') : w'.kinds = w.kinds := congrArg Prod.fst h.skeleton

theorem locks (h : Same w w') : w'.locks = w.locks := congrArg (fun x => x.2.1) h.skeleton

theorem lifetime (h : Same w w') : w'.lifetime = w.lifetime := congrArg (fun x => x.2.2) h.skeleton

theorem refs (h : Same w w') : w'.refs = w.refs := by
  funext o
  cases o <;> simp [World.refs, h.snapshotDB, h.iteratorDB, h.iteratorSnapshot]

theorem held (h : Same w w') (revived : Finset ObjId) : w'.held revived = w.held revived := by
  funext o
  rw [World.held, World.held, h.refs]

end Same

/-- The kind an object wraps depends on the addresses of what it holds. -/
theorem kindOf_congr (hpath : w'.mPath = w.mPath) (hs : w'.snapshotDB = w.snapshotDB)
    (hi : w'.iteratorDB = w.iteratorDB) (hsn : w'.iteratorSnapshot = w.iteratorSnapshot)
    {o : ObjId} (hptr : ∀ x ∈ w.refs o, w'.ptr x = w.ptr x) : w'.kindOf o = w.kindOf o := by
  cases o with
  | db d => rw [World.kindOf, World.kindOf, hpath]
  | snapshot s => rw [World.kindOf, World.kindOf, hs, hptr _ (List.mem_singleton_self _)]
  | iterator i =>
    rw [World.kindOf, World.kindOf, hi, hsn, hptr (.db (w.iteratorDB i)) (by simp [World.refs])]
    cases hc : w.iteratorSnapshot i with
    | none => rfl
    | some s => rw [Option.elim_some, Option.elim_some, hptr _ (by simp [World.refs, hc])]
  | batch b => rfl

/-- **A step that only moves references.** -/
theorem transfer {stale' : Finset ObjId} (h : Held w own revived stale π) (hs : Same w w')
    (hlive : w'.live = w.live) (hb : Counted w'.count own' w.live (w.held revived) π')
    (hown : own' ⊆ own) (hdis : ∀ o ∈ w.live, o ∉ own' → o ∉ revived → w.ptr o ≠ 0)
    (hdead : ∀ o ∉ w.live, w'.ptr o = 0 ∨ o ∈ stale') : Held w' own' revived stale' π' where
  counted := by rwa [hlive, hs.held]
  number_lt := by simpa [World.fresh, hs.created] using h.number_lt
  own_created := by
    rw [hs.created]
    exact hown.trans h.own_created
  ptr_uncreated o ho := by
    rw [hs.created] at ho
    have h0 := h.ptr_uncreated o ho
    have hdead := hs.ptr_dead o fun hl => ho (live_created o hl)
    omega
  kind o ho hp := by
    rw [hlive] at ho
    rw [hs.ptr o ho] at hp ⊢
    rw [hs.kinds, h.kind o ho hp]
    refine congrArg some (kindOf_congr hs.mPath hs.snapshotDB hs.iteratorDB hs.iteratorSnapshot
      fun x hx => hs.ptr x (h.counted.live_of_refs ho ?_)).symm
    rwa [h.held_of_ptr hp]
  ptr_inj o ho o' ho' := by
    rw [hlive] at ho ho'
    rw [hs.ptr o ho, hs.ptr o' ho']
    exact h.ptr_inj o ho o' ho'
  owner p hp := by
    rw [hs.kinds] at hp
    obtain ⟨h0, o, ho, hop⟩ := h.owner p hp
    exact ⟨h0, o, hlive ▸ ho, (hs.ptr o ho).trans hop⟩
  locked := by simpa [hs.kinds, hs.locks] using h.locked
  lock_inj := by simpa [hs.kinds] using h.lock_inj
  ptr_dead := by rwa [hlive]
  db_open o ho d hd := by
    rw [hlive] at ho
    rw [hs.held] at hd
    rw [hs.ptr _ (h.counted.live_of_refs ho hd)]
    exact h.db_open o ho d hd
  ptr_disowned o ho hno := by
    rw [hlive] at ho
    rw [hs.ptr o ho]
    exact hdis o ho hno
  revived_live o ho := by
    obtain ⟨hl, hp, hsn⟩ := h.revived_live o ho
    exact ⟨hlive ▸ hl, (hs.ptr o hl).trans hp, hsn⟩
  revived_disowned o ho hown' := h.revived_disowned o ho (hown hown')
  same_db := by simpa [hlive, hs.snapshotDB, hs.iteratorDB, hs.iteratorSnapshot] using h.same_db
  lifetime := by rw [hs.kinds, hs.lifetime]; exact h.lifetime
  closings_nodup := by rw [hs.closings]; exact h.closings_nodup
  closings_dead := by simpa [hs.closings, hs.created, hlive] using h.closings_dead
  dead_closed := by
    rw [hs.closings, hs.created, hlive]
    exact h.dead_closed

/-- The live objects, told from the counts. -/
theorem live_eq {live : Finset ObjId} (hsub : live ⊆ w.created)
    (h : ∀ o, o ∈ live ↔ 0 < w.count o) : w.live = live := by
  ext o
  rw [World.live, Finset.mem_filter, ← h]
  exact and_iff_right_of_imp fun ho => hsub ho

theorem live_subset : w.live ⊆ w.created := Finset.filter_subset _ _

/-- Counting differently, with the same objects live. -/
theorem setRefCount (h : Held w own revived stale π) {n : ℤ}
    (hb : Counted (update w.count j n) own w.live (w.held revived) π') :
    Held (w.setRefCount j n) own revived stale π' := by
  have hs : Same w (w.setRefCount j n) :=
    .of_ptr rfl (World.ptr_setRefCount w j n) rfl rfl rfl rfl rfl rfl
  have hb' : Counted (w.setRefCount j n).count own w.live (w.held revived) π' :=
    (World.count_setRefCount w j n).symm ▸ hb
  refine h.transfer hs (live_eq live_subset hb'.live_iff) hb' Finset.Subset.rfl h.ptr_disowned ?_
  rw [World.ptr_setRefCount]
  exact h.ptr_dead

/-- **Taking a reference to a live object.** -/
theorem acquire (h : Held w own revived stale π) (hj : j ∈ w.live) :
    Held (w.setRefCount j (w.count j + 1)) own revived stale (j :: π) :=
  h.setRefCount (h.counted.acquire hj)

/-- **Giving back a reference that is not the last one.** -/
theorem drop (h : Held w own revived stale (j :: π)) (hj : 1 < w.count j) :
    Held (w.setRefCount j (w.count j - 1)) own revived stale π :=
  h.setRefCount (h.counted.drop hj)

/-- **The client gives up the handle of an object with a native object.** -/
theorem disown (h : Held w own revived stale π) (hj : j ∈ own) (hp : w.ptr j ≠ 0) :
    Held w (own.erase j) revived stale (j :: π) := by
  refine h.transfer (.of_ptr rfl rfl rfl rfl rfl rfl rfl rfl) rfl (h.counted.disown hj)
    (Finset.erase_subset _ _) (fun o ho hno hr => ?_) h.ptr_dead
  rcases eq_or_ne o j with rfl | hne
  · exact hp
  · exact h.ptr_disowned o ho (fun hown => hno (Finset.mem_erase.mpr ⟨hne, hown⟩)) hr

/-- What creates and frees nothing on the native side. -/
theorem native (h : Held w own revived stale π) {s : Native} (hs : s.skeleton = w.skeleton) :
    Held { w with toNative := s } own revived stale π :=
  h.transfer (.of_ptr hs rfl rfl rfl rfl rfl rfl rfl) rfl h.counted Finset.Subset.rfl
    h.ptr_disowned h.ptr_dead

/-- **An object that is not live loses its address.** -/
theorem clear (h : Held w own revived (insert j stale) π) (hj : j ∉ w.live) :
    Held (w.setPtr j 0) own revived stale π := by
  have hptr := World.ptr_setPtr w j 0
  have hs : Same w (w.setPtr j 0) := by
    refine ⟨rfl, fun o ho => ?_, fun o _ => ?_, rfl, rfl, rfl, rfl, rfl, rfl⟩
    · rw [hptr, update_of_ne (ne_of_mem_of_not_mem ho hj)]
    · rw [hptr]
      rcases eq_or_ne o j with rfl | hne
      · exact .inr (update_self ..)
      · exact .inl (update_of_ne hne ..)
  have hb : Counted (w.setPtr j 0).count own w.live (w.held revived) π :=
    (World.count_setPtr w j 0).symm ▸ h.counted
  refine h.transfer hs (live_eq live_subset hb.live_iff) hb Finset.Subset.rfl h.ptr_disowned
    fun o ho => ?_
  rw [hptr]
  rcases eq_or_ne o j with rfl | hne
  · exact .inl (update_self ..)
  · rw [update_of_ne hne]
    exact (h.ptr_dead o ho).imp_right fun hmem => Finset.mem_of_mem_insert_of_ne hmem hne

end Held

end Java
