import AndroidLevelDB.Java.Ownership

/-!
# Java/Creation — new objects and the invariant

An object without a pointer becomes live (`Held.enter`): a new one, which takes over the references
taken for it (`Held.construct`), or a snapshot that is dead and referred to again (`Held.revive`).
A new object then gets its native object (`Held.attach`).
-/

open Leveldb Jni Function

namespace Java

/-- `w'` is `w` with one more reference to `j`, an object without a pointer that may be new. -/
structure Constructs (w : World) (j : ObjId) (w' : World) : Prop where
  toNative : w'.toNative = w.toNative
  count : w'.count = update w.count j (w.count j + 1)
  ptr : w'.ptr = w.ptr
  created : w'.created = insert j w.created
  closings : w'.closings = w.closings
  mPath : ∀ d, .db d ≠ j → w'.mPath d = w.mPath d
  snapshotDB : ∀ s, .snapshot s ≠ j → w'.snapshotDB s = w.snapshotDB s
  iteratorDB : ∀ i, .iterator i ≠ j → w'.iteratorDB i = w.iteratorDB i
  iteratorSnapshot : ∀ i, .iterator i ≠ j → w'.iteratorSnapshot i = w.iteratorSnapshot i

namespace Constructs

variable {w w' : World} {j o : ObjId}

theorem refs (h : Constructs w j w') (ho : o ≠ j) : w'.refs o = w.refs o := by
  cases o with
  | db d => rfl
  | snapshot s => rw [World.refs, World.refs, h.snapshotDB s ho]
  | iterator i => rw [World.refs, World.refs, h.iteratorDB i ho, h.iteratorSnapshot i ho]
  | batch b => rfl

theorem kindOf (h : Constructs w j w') (ho : o ≠ j) : w'.kindOf o = w.kindOf o := by
  cases o with
  | db d => rw [World.kindOf, World.kindOf, h.mPath d ho]
  | snapshot s => rw [World.kindOf, World.kindOf, h.snapshotDB s ho, h.ptr]
  | iterator i => rw [World.kindOf, World.kindOf, h.iteratorDB i ho, h.iteratorSnapshot i ho, h.ptr]
  | batch b => rfl

theorem held (h : Constructs w j w') {revived revived' : Finset ObjId} (ho : o ≠ j)
    (hr : o ∈ revived' ↔ o ∈ revived) : w'.held revived' o = w.held revived o := by
  simp only [World.held, hr, h.refs ho]

end Constructs

namespace Held

variable {w w' : World} {own revived stale : Finset ObjId} {π : List ObjId} {j : ObjId} {env : Env}

/-- A new number is that of no object. -/
theorem notMem_created (h : Held w own revived stale π) (hj : j.number = w.fresh) :
    j ∉ w.created := fun hmem => (h.number_lt j hmem).ne hj

/-- **An object without a pointer becomes live**: `own'` and `revived'` are as before but for `j`,
which is one of the client's or a snapshot that is revived. -/
theorem enter {own' revived' : Finset ObjId} {π' : List ObjId} (h : Held w own revived stale π)
    (hc : Constructs w j w') (hjl : j ∉ w.live) (h0 : w.ptr j = 0)
    (hnum : ∀ o ∈ w'.created, o.number < w'.fresh)
    (hb : Counted w'.count own' (insert j w.live) (w'.held revived') π')
    (hown : ∀ o, o ≠ j → (o ∈ own' ↔ o ∈ own))
    (hrev : ∀ o, o ≠ j → (o ∈ revived' ↔ o ∈ revived)) (hj : j ∈ own' ↔ j ∉ revived')
    (hsn : j ∈ revived' → ∃ s, j = .snapshot s)
    (hclosed : j ∈ w.created → j ∈ revived')
    (hdb : ∀ d, .db d ∈ w'.held revived' j → w.ptr (.db d) ≠ 0)
    (hsame : ∀ i s, j = .iterator i → w'.iteratorSnapshot i = some s →
      w'.snapshotDB s = w'.iteratorDB i) :
    Held w' own' revived' stale π' := by
  have hlive : w'.live = insert j w.live := by
    refine live_eq ?_ hb.live_iff
    rw [hc.created]
    exact Finset.insert_subset_insert j live_subset
  have hmem {o : ObjId} (ho : o ∈ w'.live) (hoj : o ≠ j) : o ∈ w.live := by
    rw [hlive] at ho
    exact Finset.mem_of_mem_insert_of_ne ho hoj
  have hlive_of {o : ObjId} (ho : o ∈ w.live) : o ∈ w'.live := by
    rw [hlive]
    exact Finset.mem_insert_of_mem ho
  have hkinds : w'.kinds = w.kinds := by rw [hc.toNative]
  have hptr_ne {o : ObjId} (ho : w.ptr o ≠ 0) : o ≠ j := by
    rintro rfl
    exact ho h0
  exact
    { counted := by rwa [hlive]
      number_lt := hnum
      own_created := by
        intro o ho
        rw [hc.created]
        rcases eq_or_ne o j with rfl | hoj
        · exact Finset.mem_insert_self _ _
        · exact Finset.mem_insert_of_mem (h.own_created ((hown o hoj).mp ho))
      ptr_uncreated := by
        intro o ho
        rw [hc.created] at ho
        rw [hc.ptr]
        exact h.ptr_uncreated o fun hcr => ho (Finset.mem_insert_of_mem hcr)
      kind := by
        intro o ho hpo
        rw [hc.ptr] at hpo ⊢
        have hoj := hptr_ne hpo
        rw [hkinds, hc.kindOf hoj]
        exact h.kind o (hmem ho hoj) hpo
      ptr_inj := by
        intro o ho o' ho' heq hpo
        rw [hc.ptr] at heq hpo
        exact h.ptr_inj o (hmem ho (hptr_ne hpo)) o' (hmem ho' (hptr_ne (heq ▸ hpo))) heq hpo
      owner := by
        intro p hp
        rw [hkinds] at hp
        obtain ⟨hp0, o, ho, hop⟩ := h.owner p hp
        exact ⟨hp0, o, hlive_of ho, (congrFun hc.ptr o).trans hop⟩
      locked := by
        rw [hkinds, hc.toNative]
        exact h.locked
      lock_inj := by
        rw [hkinds]
        exact h.lock_inj
      ptr_dead := by
        intro o ho
        rw [hc.ptr]
        exact h.ptr_dead o fun hl => ho (hlive_of hl)
      db_open := by
        intro o ho d hd
        rw [hc.ptr]
        rcases eq_or_ne o j with rfl | hoj
        · exact hdb d hd
        · exact h.db_open o (hmem ho hoj) d (hc.held hoj (hrev o hoj) ▸ hd)
      ptr_disowned := by
        intro o ho hno hr
        have hoj : o ≠ j := by
          rintro rfl
          exact hr (not_not.mp fun hr' => hno (hj.mpr hr'))
        rw [hc.ptr]
        exact h.ptr_disowned o (hmem ho hoj) (fun ho' => hno ((hown o hoj).mpr ho'))
          fun hr' => hr ((hrev o hoj).mpr hr')
      revived_live := by
        intro o ho
        rw [hc.ptr]
        rcases eq_or_ne o j with rfl | hoj
        · exact ⟨hlive ▸ Finset.mem_insert_self _ _, h0, hsn ho⟩
        · obtain ⟨hl, hp, hsn'⟩ := h.revived_live o ((hrev o hoj).mp ho)
          exact ⟨hlive_of hl, hp, hsn'⟩
      revived_disowned := by
        intro o ho hown'
        rcases eq_or_ne o j with rfl | hoj
        · exact hj.mp hown' ho
        · exact h.revived_disowned o ((hrev o hoj).mp ho) ((hown o hoj).mp hown')
      same_db := by
        intro i s hi his
        rcases eq_or_ne (.iterator i) j with hij | hij
        · exact hsame i s hij.symm his
        · have hil := hmem hi hij
          rw [hc.iteratorSnapshot i hij] at his
          have hsl := h.live_iteratorSnapshot hil his
          rw [hc.snapshotDB s (ne_of_mem_of_not_mem hsl hjl), hc.iteratorDB i hij]
          exact h.same_db i s hil his
      lifetime := by
        rw [hkinds, hc.toNative]
        exact h.lifetime
      closings_nodup := by
        rw [hc.closings]
        exact h.closings_nodup
      closings_dead := by
        intro c hcl
        rw [hc.closings] at hcl
        obtain ⟨hin, hdead, hc0⟩ := h.closings_dead c hcl
        refine ⟨hc.created ▸ Finset.mem_insert_of_mem hin, fun hl => ?_, hc0⟩
        rcases eq_or_ne c.1 j with heq | hne
        · rw [heq] at hin ⊢
          exact hclosed hin
        · exact (hrev c.1 hne).mpr (hdead (hmem hl hne))
      dead_closed := by
        intro o ho hno
        rw [hlive] at hno
        rw [hc.created] at ho
        rw [hc.closings]
        have hoj : o ≠ j := fun heq => hno (heq ▸ Finset.mem_insert_self _ _)
        exact h.dead_closed o (Finset.mem_of_mem_insert_of_ne ho hoj)
          fun hl => hno (Finset.mem_insert_of_mem hl) }

/-- **A new object takes over the references taken for it.** -/
theorem construct (h : Held w own revived stale (w'.refs j ++ π)) (hj : j.number = w.fresh)
    (hc : Constructs w j w') (hdb : ∀ d, .db d ∈ w'.refs j → w.ptr (.db d) ≠ 0)
    (hsame : ∀ i s, j = .iterator i → w'.iteratorSnapshot i = some s →
      w'.snapshotDB s = w'.iteratorDB i) :
    Held w' (insert j own) revived stale π := by
  have hnew := h.notMem_created hj
  have hjl : j ∉ w.live := fun hl => hnew (live_created j hl)
  have hjr : j ∉ revived := fun hr => hjl (h.revived_live j hr).1
  have hheldj : w'.held revived j = w'.refs j := if_neg hjr
  have hb : Counted w'.count (insert j own) (insert j w.live) (w'.held revived) π := by
    rw [hc.count, h.counted.count_of_not_live hjl, zero_add]
    have hcounted : Counted w.count own w.live (w.held revived) (w'.held revived j ++ π) := by
      rw [hheldj]
      exact h.counted
    exact hcounted.create hjl fun i hi => (hc.held (ne_of_mem_of_not_mem hi hjl) Iff.rfl).symm
  refine h.enter hc hjl (h.ptr_uncreated j hnew) (fun o ho => ?_) hb
    (fun o ho => by simp [ho]) (fun _ _ => Iff.rfl) (by simp [hjr])
    (fun hr => absurd hr hjr) (fun hcr => absurd hcr hnew) (fun d hd => hdb d (hheldj ▸ hd)) hsame
  rw [World.fresh, hc.created, Finset.card_insert_of_notMem hnew]
  rw [hc.created] at ho
  rcases Finset.mem_insert.mp ho with rfl | ho
  · rw [hj]
    exact Nat.lt_succ_self _
  · exact (h.number_lt o ho).trans (Nat.lt_succ_self _)

/-- **A released snapshot is referred to again.** -/
theorem revive (h : Held w own revived stale π) {s : ℕ} (hcr : .snapshot s ∈ w.created)
    (hdead : .snapshot s ∉ w.live) (h0 : w.ptr (.snapshot s) = 0) :
    Held (w.ref (.snapshot s)) own (insert (.snapshot s) revived) stale (.snapshot s :: π) := by
  have hc : Constructs w (.snapshot s) (w.ref (.snapshot s)) :=
    { toNative := rfl
      count := World.count_ref ..
      ptr := World.ptr_ref ..
      created := (Finset.insert_eq_of_mem hcr).symm
      closings := rfl
      mPath := fun _ _ => rfl
      snapshotDB := fun _ _ => rfl
      iteratorDB := fun _ _ => rfl
      iteratorSnapshot := fun _ _ => rfl }
  have hrev (o : ObjId) (ho : o ≠ .snapshot s) : o ∈ insert (.snapshot s) revived ↔ o ∈ revived := by
    simp [ho]
  have hheld : (w.ref (.snapshot s)).held (insert (.snapshot s) revived) (.snapshot s) = [] :=
    if_pos (Finset.mem_insert_self _ _)
  have hnone : .snapshot s ∉ own := fun hown => hdead (h.counted.live_of_own hown)
  refine h.enter hc hdead h0 h.number_lt ?_ (fun _ _ => Iff.rfl) hrev (by simp [hnone])
    (fun _ => ⟨s, rfl⟩) (fun _ => Finset.mem_insert_self _ _) (fun d hd => ?_)
    (fun _ _ hi => (by cases hi))
  · rw [World.count_ref]
    refine h.counted.revive hdead (fun i hi => ?_) hheld
    exact (hc.held (ne_of_mem_of_not_mem hi hdead) (hrev i (ne_of_mem_of_not_mem hi hdead))).symm
  · rw [hheld] at hd
    cases hd

/-- **An object without a pointer gets its native object.** -/
theorem attach (h : Held w own revived stale π) (hj : j ∈ w.live) (hr : j ∉ revived)
    (h0 : w.ptr j = 0) (hno : ∀ o ∈ w.live, j ∉ w.held revived o) {p : ℕ} {s : Native}
    (hfree : w.kinds p = none) (hs : Created w.toNative p (w.kindOf j) s)
    (hlock : ∀ path, w.kindOf j = .db path → path ∉ w.locks) :
    Held (World.setPtr { w with toNative := s } j p) own revived stale π := by
  set w' := World.setPtr { w with toNative := s } j p with hw'
  have hptr : w'.ptr = update w.ptr j p := World.ptr_setPtr ..
  have hcount : w'.count = w.count := World.count_setPtr ..
  have hkinds : w'.kinds = update w.kinds p (some (w.kindOf j)) := hs.kinds
  have hlive : w'.live = w.live := by
    simp only [World.live, hcount]
    rfl
  have hheld : w'.held revived = w.held revived := rfl
  have hptr_ne {o : ObjId} (ho : o ≠ j) : w'.ptr o = w.ptr o := by
    rw [hptr, update_of_ne ho]
  -- no live object refers to `j`, so all wrap what they wrapped
  have hkindOf {o : ObjId} (ho : o ∈ w.live) (hor : o ∉ revived) : w'.kindOf o = w.kindOf o := by
    have hx : ∀ x ∈ w.refs o, w'.ptr x = w.ptr x := by
      intro x hx
      refine hptr_ne ?_
      rintro rfl
      refine hno o ho ?_
      rwa [World.held, if_neg hor]
    exact @kindOf_congr w w' rfl rfl rfl rfl o hx
  have hp_ne {o : ObjId} (ho : o ∈ w.live) : w.ptr o ≠ p := h.ptr_ne_of_free hs.ne_zero hfree ho
  exact
    { counted := by
        rw [hcount, hlive, hheld]
        exact h.counted
      number_lt := h.number_lt
      own_created := h.own_created
      ptr_uncreated := by
        intro o ho
        rw [hptr_ne (ne_of_mem_of_not_mem (live_created j hj) ho).symm]
        exact h.ptr_uncreated o ho
      kind := by
        intro o ho hpo
        rw [hlive] at ho
        rcases eq_or_ne o j with rfl | hoj
        · rw [hptr, update_self, hkinds, update_self, hkindOf ho hr]
        · rw [hptr_ne hoj] at hpo ⊢
          have hor : o ∉ revived := fun hor => hpo (h.revived_live o hor).2.1
          rw [hkinds, update_of_ne (hp_ne ho), hkindOf ho hor]
          exact h.kind o ho hpo
      ptr_inj := by
        intro o ho o' ho' heq hpo
        rw [hlive] at ho ho'
        rcases eq_or_ne o j with rfl | hoj
        · by_contra hne
          rw [hptr_ne (Ne.symm hne), hptr, update_self] at heq
          exact hp_ne ho' heq.symm
        · rcases eq_or_ne o' j with rfl | hoj'
          · rw [hptr_ne hoj, hptr, update_self] at heq
            exact absurd heq (hp_ne ho)
          · rw [hptr_ne hoj] at heq hpo
            rw [hptr_ne hoj'] at heq
            exact h.ptr_inj o ho o' ho' heq hpo
      owner := by
        intro q hq
        rcases eq_or_ne q p with rfl | hne
        · exact ⟨hs.ne_zero, j, hlive ▸ hj, by rw [hptr, update_self]⟩
        · rw [hkinds, update_of_ne hne] at hq
          obtain ⟨hq0, o, ho, rfl⟩ := h.owner q hq
          refine ⟨hq0, o, hlive ▸ ho, hptr_ne ?_⟩
          rintro rfl
          exact hq0 h0
      locked := fun _ _ hq => hs.locked h.locked hq
      lock_inj := fun _ _ _ hq hq' => hs.lock_inj h.locked h.lock_inj hlock hq hq'
      ptr_dead := by
        intro o ho
        rw [hlive] at ho
        rw [hptr_ne (ne_of_mem_of_not_mem hj ho).symm]
        exact h.ptr_dead o ho
      db_open := by
        intro o ho d hd
        rw [hlive] at ho
        rw [hheld] at hd
        have hne : .db d ≠ j := by
          rintro rfl
          exact hno o ho hd
        rw [hptr_ne hne]
        exact h.db_open o ho d hd
      ptr_disowned := by
        intro o ho hno' hor
        rw [hlive] at ho
        rcases eq_or_ne o j with rfl | hoj
        · rw [hptr, update_self]
          exact hs.ne_zero
        · rw [hptr_ne hoj]
          exact h.ptr_disowned o ho hno' hor
      revived_live := by
        intro o ho
        obtain ⟨hl, hp0, hsn⟩ := h.revived_live o ho
        rw [hptr_ne (ne_of_mem_of_not_mem ho hr)]
        exact ⟨hlive ▸ hl, hp0, hsn⟩
      revived_disowned := h.revived_disowned
      same_db := by
        rw [hlive]
        exact h.same_db
      lifetime := by
        have hlog : w'.lifetime = .create p (w.kindOf j) :: w.lifetime := hs.lifetime
        rw [hlog, hkinds]
        exact h.lifetime.create hfree fun q hq => h.parents_live hj hr hq
      closings_nodup := h.closings_nodup
      closings_dead := by
        rw [hlive]
        exact h.closings_dead
      dead_closed := by
        rw [hlive]
        exact h.dead_closed }

/-- An object that counts its handle only is held by no object. -/
theorem notMem_held (h : Held w own revived stale π) (hj : j ∈ own) (h1 : w.count j = 1) :
    ∀ o ∈ w.live, j ∉ w.held revived o := by
  intro o ho hmem
  have hcount := h.counted.count_eq j
  rw [h1, holders, if_pos hj] at hcount
  have hpos : 0 < (w.held revived o).count j := List.count_pos_iff.mpr hmem
  have hle := Finset.single_le_sum (f := fun x => (w.held revived x).count j)
    (fun _ _ => Nat.zero_le _) ho
  omega

/-- **A new object and its native object**, if that could be allocated. -/
theorem make (h : Held w own revived stale (w'.refs j ++ π)) (hj : j.number = w.fresh)
    (hc : Constructs w j w') (hdb : ∀ d, .db d ∈ w'.refs j → w.ptr (.db d) ≠ 0)
    (hsame : ∀ i s, j = .iterator i → w'.iteratorSnapshot i = some s →
      w'.snapshotDB s = w'.iteratorDB i)
    {p : ℕ} {s : Native} (hs : Made w.toNative p (w'.kindOf j) s)
    (hfree : p ≠ 0 → w.kinds p = none) (hkind : ∀ path, w'.kindOf j ≠ .db path) :
    (p = 0 → Held { w' with toNative := s } (insert j own) revived stale π) ∧
      (p ≠ 0 →
        Held (World.setPtr { w' with toNative := s } j p) (insert j own) revived stale π) := by
  have hheld := h.construct hj hc hdb hsame
  have hnew := h.notMem_created hj
  have hjl : j ∉ w.live := fun hl => hnew (live_created j hl)
  rw [← hc.toNative] at hs
  refine ⟨fun h0 => ?_, fun h0 => ?_⟩
  · rcases hs with ⟨-, hsame⟩ | hs
    · exact hheld.native hsame
    · exact absurd h0 hs.ne_zero
  · have hs := hs.resolve_left fun hz => h0 hz.1
    have hone : w'.count j = 1 := by
      rw [hc.count, update_self, h.counted.count_of_not_live hjl, zero_add]
    have hjl' : j ∈ w'.live := (hheld.counted.live_iff j).mpr (by omega)
    refine hheld.attach hjl' (fun hr => hjl (h.revived_live j hr).1) ?_
      (hheld.notMem_held (Finset.mem_insert_self _ _) hone) ?_ hs fun path hk =>
        absurd hk (hkind path)
    · rw [hc.ptr]
      exact h.ptr_uncreated j hnew
    · rw [hc.toNative]
      exact hfree h0

end Held

end Java
