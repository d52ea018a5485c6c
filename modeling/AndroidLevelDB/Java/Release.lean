import AndroidLevelDB.Java.Ownership

/-!
# Java/Release — giving references back

With the last reference to an object its native object is freed and the references it held are given
back in turn: an iterator gives back its snapshot, then its database, a snapshot its database.  The
`ends_*` lemmas follow such a cascade: it ends with the invariant, or with the exception that
`DestroyDB` causes once the native database is closed.
-/

open Jni Function

namespace Java

/-- `closeNativeObject` of an iterator gives back its snapshot, if any, then its database. -/
theorem ends_iteratorClose {env : Env} {w : World} {i ptr : ℕ} {Q : Unit → World → Prop}
    {E : Abrupt → World → Prop}
    (h : Ends (Jni.Iterator.nativeDestroy ptr) w.toNative
      (fun _ n => ∀ w₁, w₁ = { w with toNative := n } →
        (w.iteratorSnapshot i = none → Ends (DB.unref env (w.iteratorDB i)) w₁ Q E) ∧
        ∀ s, w.iteratorSnapshot i = some s → Ends (Snapshot.unref env s) w₁
          (fun _ w₂ => Ends (DB.unref env (w.iteratorDB i)) w₂ Q E) E)
      fun e n => E e { w with toNative := n }) :
    Ends (Iterator.closeNativeObject env i ptr) w Q E := by
  simp only [Iterator.closeNativeObject, ends_bind, ends_get, ends_call]
  refine h.mono (fun _ n hn => ?_) fun _ _ he => he
  obtain ⟨hnone, hsome⟩ := hn _ rfl
  cases hsn : w.iteratorSnapshot i with
  | none => exact hnone hsn
  | some s =>
    rw [ends_bind]
    exact hsome s hsn

namespace Held

variable {w w' : World} {own revived stale : Finset ObjId} {π : List ObjId} {j : ObjId} {env : Env}

/-- An object that dies has its native object still. -/
theorem ptr_of_last (h : Held w own revived stale (j :: π)) (hj : w.count j = 1)
    (hr : j ∉ revived) : w.ptr j ≠ 0 :=
  h.ptr_disowned j (h.counted.live_of_pending List.mem_cons_self) (h.counted.sole hj).1.1 hr

/-- What an object dies with is nothing that another native object depends on. -/
theorem no_dependent (h : Held w own revived stale (j :: π)) (hj : w.count j = 1)
    (hp : w.ptr j ≠ 0) (q : ℕ) (k : Kind) (hq : w.kinds q = some k) : w.ptr j ∉ k.parents := by
  intro hpar
  obtain ⟨h0, o, ho, rfl⟩ := h.owner q (by simp [hq])
  obtain rfl : k = w.kindOf o := Option.some_inj.mp (hq.symm.trans (h.kind o ho h0))
  obtain ⟨x, hx, hxp, -⟩ := World.exists_ref_of_parent hpar
  rw [← h.held_of_ptr h0] at hx
  have hxl := h.counted.live_of_refs ho hx
  obtain rfl := h.ptr_inj x hxl j (h.counted.live_of_pending List.mem_cons_self) hxp (hxp ▸ hp)
  exact (h.counted.sole hj).1.2 o ho hx

/-- **Giving back the last reference**, and freeing the native object. -/
theorem release (h : Held w own revived stale (j :: π)) (hj : w.count j = 1) (hp : w.ptr j ≠ 0)
    {s : Native} (hs : Freed w.toNative (w.ptr j) s)
    (hw : w' = { w.setRefCount j 0 with
      toNative := s
      closings := (j, w.ptr j) :: w.closings }) :
    Held w' own revived (insert j stale) (w.refs j ++ π) ∧ GaveBack w w' [j] ∧ j ∉ w'.live := by
  have hjl : j ∈ w.live := h.counted.live_of_pending List.mem_cons_self
  have hcount : w'.count = update w.count j 0 := by
    subst hw
    exact World.count_setRefCount w j 0
  have hptr : w'.ptr = w.ptr := by
    subst hw
    exact World.ptr_setRefCount w j 0
  have hcr : w'.created = w.created := by rw [hw]; rfl
  have hheld : w'.held revived = w.held revived := by rw [hw]; rfl
  have hkindOf (o : ObjId) : w'.kindOf o = w.kindOf o :=
    kindOf_congr (by rw [hw]; rfl) (by rw [hw]; rfl) (by rw [hw]; rfl) (by rw [hw]; rfl)
      fun x _ => congrFun hptr x
  have hkinds : w'.kinds = update w.kinds (w.ptr j) none := by
    rw [hw]
    exact hs.kinds
  have hnative : Freed w.toNative (w.ptr j) w'.toNative := by
    subst hw
    exact hs
  have hb : Counted w'.count own (w.live.erase j) (w.held revived) (w.refs j ++ π) := by
    rw [hcount, ← h.held_of_ptr hp]
    exact h.counted.release hj
  have hlive : w'.live = w.live.erase j := by
    refine live_eq ?_ hb.live_iff
    rw [hcr]
    exact (Finset.erase_subset _ _).trans live_subset
  have hmem {o : ObjId} (ho : o ∈ w'.live) : o ≠ j ∧ o ∈ w.live := by
    rwa [hlive, Finset.mem_erase] at ho
  refine ⟨?_, ⟨hcr, fun o ho => (hmem ho).2, fun o => .inl (congrFun hptr o), fun o => ?_,
    by rw [hw]; rfl⟩, fun hl => (hmem hl).1 rfl⟩
  swap
  · rw [hcount]
    rcases eq_or_ne o j with rfl | hne
    · simp [hj]
    · simp [update_of_ne hne, hne.symm]
  exact
    { counted := by rwa [hlive, hheld]
      number_lt := by simpa [World.fresh, hcr] using h.number_lt
      own_created := by simpa [hcr] using h.own_created
      ptr_uncreated := by simpa [hcr, hptr] using h.ptr_uncreated
      kind := by
        intro o ho hpo
        rw [hptr] at hpo ⊢
        have hne : w.ptr o ≠ w.ptr j := fun heq =>
          (hmem ho).1 (h.ptr_inj o (hmem ho).2 j hjl heq hpo)
        rw [hkinds, update_of_ne hne, hkindOf]
        exact h.kind o (hmem ho).2 hpo
      ptr_inj := by
        intro o ho o' ho'
        rw [hptr]
        exact h.ptr_inj o (hmem ho).2 o' (hmem ho').2
      owner := by
        intro p hpk
        obtain ⟨k, hk⟩ := Option.ne_none_iff_exists'.mp hpk
        obtain ⟨hne, hk⟩ := hnative.kind_of hk
        obtain ⟨h0, o, ho, rfl⟩ := h.owner p (by rw [hk]; exact Option.some_ne_none k)
        refine ⟨h0, o, ?_, congrFun hptr o⟩
        rw [hlive, Finset.mem_erase]
        exact ⟨fun heq => hne (by rw [heq]), ho⟩
      locked := fun _ _ hk => hnative.locked h.locked h.lock_inj hk
      lock_inj := fun p p' path hk hk' =>
        h.lock_inj p p' path (hnative.kind_of hk).2 (hnative.kind_of hk').2
      ptr_dead := by
        intro o ho
        rw [hptr]
        rcases eq_or_ne o j with rfl | hne
        · exact .inr (Finset.mem_insert_self _ _)
        · refine (h.ptr_dead o fun hl => ho ?_).imp_right Finset.mem_insert_of_mem
          rw [hlive, Finset.mem_erase]
          exact ⟨hne, hl⟩
      db_open := by
        intro o ho d hd
        rw [hheld] at hd
        rw [hptr]
        exact h.db_open o (hmem ho).2 d hd
      ptr_disowned := by
        intro o ho
        rw [hptr]
        exact h.ptr_disowned o (hmem ho).2
      revived_live := by
        intro o ho
        obtain ⟨hl, h0, hsn⟩ := h.revived_live o ho
        rw [hptr, hlive, Finset.mem_erase]
        refine ⟨⟨?_, hl⟩, h0, hsn⟩
        rintro rfl
        exact hp h0
      revived_disowned := h.revived_disowned
      same_db := by
        intro i sn hi hsn
        rw [hw] at hsn ⊢
        exact h.same_db i sn (hmem hi).2 hsn
      lifetime := by
        have hlog : w'.lifetime = .free (w.ptr j) :: w.lifetime := by
          rw [hw]
          exact hs.lifetime
        rw [hlog, hkinds]
        refine h.lifetime.free ?_ (h.no_dependent hj hp)
        rw [h.kind j hjl hp]
        exact Option.some_ne_none _
      closings_nodup := by
        have hcl : w'.closings = (j, w.ptr j) :: w.closings := by rw [hw]
        rw [hcl, List.map_cons, List.nodup_cons]
        exact ⟨h.notMem_closings hjl hp, h.closings_nodup⟩
      closings_dead := by
        have hcl : w'.closings = (j, w.ptr j) :: w.closings := by rw [hw]
        intro c hc
        rw [hcl] at hc
        rw [hcr]
        rcases List.mem_cons.mp hc with rfl | hc
        · exact ⟨live_created j hjl, fun hl => absurd rfl (hmem hl).1, hp⟩
        · obtain ⟨hin, hdead, h0⟩ := h.closings_dead c hc
          exact ⟨hin, fun hl => hdead (hmem hl).2, h0⟩
      dead_closed := by
        have hcl : w'.closings = (j, w.ptr j) :: w.closings := by rw [hw]
        intro o ho hno
        rw [hcr] at ho
        rw [hcl, List.map_cons, List.mem_cons]
        refine or_iff_not_imp_left.mpr fun hne => h.dead_closed o ho fun hl => hno ?_
        rw [hlive, Finset.mem_erase]
        exact ⟨hne, hl⟩ }

/-! ## The cascades -/

/-- `unref`, given how `closeNativeObject` ends; `rest` is what is given back after the last
reference to `j`, and `P` what is known if nothing fails. -/
theorem ends_unref {closeNativeObject : ℕ → JavaM Unit} {E : Abrupt → World → Prop} {P : Prop}
    (rest : List ObjId) (h : Held w own revived stale (j :: π)) (hP : 1 < w.count j → P)
    (hlast : w.count j = 1 →
      Ends (closeNativeObject (w.ptr j))
        { w.setRefCount j 0 with closings := (j, w.ptr j) :: w.closings }
        (fun _ w' => Held w' own revived (insert j stale) π ∧ GaveBack w w' (j :: rest) ∧
          j ∉ w'.live ∧ P) E) :
    Ends (NativeObject.unref closeNativeObject j) w
      (fun _ w' => Held w' own revived stale π ∧
        GaveBack w w' (j :: if w.count j = 1 then rest else []) ∧ P) E := by
  have hpos := (h.counted.live_iff j).mp (h.counted.live_of_pending List.mem_cons_self)
  rw [Java.ends_unref]
  refine ⟨fun h0 => absurd h0 (not_le.mpr hpos), fun h1 => ?_, fun h1 => ?_⟩
  · have hne : ¬ w.count j = 1 := h1.ne'
    rw [if_neg hne]
    refine ⟨h.drop h1, ⟨rfl, ?_, fun o => .inl (congrFun (World.ptr_setRefCount ..) o), ?_, rfl⟩,
      hP h1⟩
    · intro o ho
      have hpos' := ((h.drop h1).counted.live_iff o).mp ho
      rw [World.count_setRefCount] at hpos'
      rw [h.counted.live_iff]
      rcases eq_or_ne o j with rfl | hne
      · exact hpos
      · rwa [update_of_ne hne] at hpos'
    · intro o
      rw [World.count_setRefCount]
      rcases eq_or_ne o j with rfl | hne
      · simp
      · simp [update_of_ne hne, hne.symm]
  · rw [if_pos h1]
    refine (hlast h1).mono (fun _ w' ⟨hw', hg, hj', hp⟩ => ⟨hw'.clear hj', ?_, hp⟩)
      fun _ _ hE => hE
    refine ⟨hg.created, fun o ho => hg.live ?_, fun o => ?_, fun o => ?_, hg.mDestroyOnClose⟩
    · have hc := World.count_setPtr w' j 0
      simp only [World.live, Finset.mem_filter, hc] at ho ⊢
      exact ho
    · rw [World.ptr_setPtr]
      rcases eq_or_ne o j with rfl | hne
      · exact .inr (update_self ..)
      · rw [update_of_ne hne]
        exact hg.ptr o
    · rw [World.count_setPtr]
      exact hg.count o

end Held

namespace World

def givesBackSnapshot (w : World) (s : ℕ) : List ObjId :=
  .snapshot s :: if w.count (.snapshot s) = 1 then [.db (w.snapshotDB s)] else []

/-- The references that `unref` of an object gives back. -/
def givesBack (w : World) : ObjId → List ObjId
  | .db d => [.db d]
  | .snapshot s => w.givesBackSnapshot s
  | .iterator i =>
    .iterator i :: if w.count (.iterator i) = 1 then
      (w.iteratorSnapshot i).elim [] w.givesBackSnapshot ++ [.db (w.iteratorDB i)]
    else []
  | .batch b => [.batch b]

end World

/-- To give `l` back closes a database that is to be destroyed, and `DestroyDB` fails. -/
def World.Fails (env : Env) (w : World) (l : List ObjId) : Prop :=
  throwUnlessOk env.destroyStatus ≠ none ∧
    ∃ d, w.mDestroyOnClose d = true ∧ .db d ∈ l ∧ w.count (.db d) = l.count (.db d)

namespace World

variable {env : Env} {w w' : World} {l l' : List ObjId}

theorem Fails.append (h : w'.Fails env l') (hg : GaveBack w w' l) : w.Fails env (l ++ l') := by
  obtain ⟨hthrow, d, hflag, hmem, hcount⟩ := h
  refine ⟨hthrow, d, hg.mDestroyOnClose ▸ hflag, List.mem_append_right _ hmem, ?_⟩
  rw [hg.count] at hcount
  rw [List.count_append]
  omega

theorem Fails.of_append (h : w.Fails env (l ++ l')) (hg : GaveBack w w' l) :
    w.Fails env l ∨ w'.Fails env l' := by
  obtain ⟨hthrow, d, hflag, hmem, hcount⟩ := h
  rw [List.count_append] at hcount
  by_cases hd : .db d ∈ l'
  · refine .inr ⟨hthrow, d, hg.mDestroyOnClose.symm ▸ hflag, hd, ?_⟩
    rw [hg.count]
    omega
  · refine .inl ⟨hthrow, d, hflag, (List.mem_append.mp hmem).resolve_right hd, ?_⟩
    rw [List.count_eq_zero.mpr hd] at hcount
    omega

/-- Nothing fails where no database is given back. -/
theorem not_fails (h : ∀ d, .db d ∉ l) : ¬ w.Fails env l := fun ⟨_, d, _, hmem, _⟩ => h d hmem

end World

theorem GaveBack.native {w w' : World} {l : List ObjId} (h : GaveBack w w' l) (s : Native) :
    GaveBack w { w' with toNative := s } l :=
  ⟨h.created, h.live, h.ptr, h.count, h.mDestroyOnClose⟩

/-- How giving `l` back fails: a database is closed and keeps its pointer. -/
def Failed (env : Env) (w : World) (own revived : Finset ObjId) (π l : List ObjId) :
    Abrupt → World → Prop := fun e w' =>
  (∃ t, throwUnlessOk env.destroyStatus = some t ∧ e = .thrown t) ∧ w.Fails env l ∧
    GaveBack w w' l ∧ ∃ d stale', .db d ∈ l ∧ .db d ∉ w'.live ∧ w'.ptr (.db d) ≠ 0 ∧
      Held w' own revived stale' π

namespace Held

variable {w w' : World} {own revived stale : Finset ObjId} {π : List ObjId} {env : Env}

/-- `DestroyDB` does nothing to the objects of this process. -/
theorem ends_destroyPath {path : String} :
    Ends (DB.destroyPath env path) w
      (fun _ w' => throwUnlessOk env.destroyStatus = none ∧
        ∃ s, w' = { w with toNative := s } ∧ SameSkeleton w.toNative s)
      fun e w' => (∃ t, throwUnlessOk env.destroyStatus = some t ∧ e = .thrown t) ∧
        ∃ s, w' = { w with toNative := s } ∧ SameSkeleton w.toNative s := by
  have hsame : SameSkeleton w.toNative (w.toNative.called (.nativeDestroy path)) :=
    keeps_record rfl w.toNative
  rw [DB.destroyPath, ends_call, Jni.DB.nativeDestroy, ends_bind, ends_record, ends_raise]
  exact ⟨fun hnone => ⟨hnone, _, rfl, hsame⟩, fun t ht => ⟨⟨t, ht, rfl⟩, _, rfl, hsame⟩⟩

/-- **Giving back a reference to a database.** -/
theorem ends_unref_db {d : ℕ} (h : Held w own revived stale (.db d :: π)) :
    Ends (DB.unref env d) w
      (fun _ w' => Held w' own revived stale π ∧ GaveBack w w' [.db d] ∧ ¬ w.Fails env [.db d])
      (Failed env w own revived π [.db d]) := by
  have hrest : ∀ c : Prop, [Decidable c] → (ObjId.db d :: if c then [] else []) = [.db d] := by
    intro c _
    split <;> rfl
  refine (ends_unref [] (E := Failed env w own revived π [.db d]) (P := ¬ w.Fails env [.db d]) h
    ?_ ?_).mono (fun _ w' hw' => by rwa [hrest] at hw') fun _ _ hE => hE
  · rintro h1 ⟨-, d', -, hmem, hcount⟩
    obtain rfl : d' = d := by simpa using hmem
    simp at hcount
    omega
  · intro h1
    have hlive := h.counted.live_of_pending List.mem_cons_self
    have hp := h.ptr_of_last h1 fun hr => by
      obtain ⟨-, -, s, hs⟩ := h.revived_live _ hr
      cases hs
    rw [DB.closeNativeObject, ends_bind, ends_call]
    refine (ends_nativeClose hp (h.kind _ hlive hp)).mono ?_ fun _ _ hf => hf.elim
    intro _ s hs
    obtain ⟨hheld, hgave, hdead⟩ := h.release h1 hp hs rfl
    rw [ends_bind, ends_get, ends_ite]
    refine ⟨fun hflag => ?_, fun hflag => ?_⟩
    · refine ends_destroyPath.mono ?_ ?_
      · rintro _ _ ⟨hnone, s', rfl, hsame⟩
        exact ⟨hheld.native hsame, hgave.native s', hdead, fun hf => hf.1 hnone⟩
      · rintro _ _ ⟨⟨t, ht, rfl⟩, s', rfl, hsame⟩
        refine ⟨⟨t, ht, rfl⟩, ⟨by simp [ht], d, hflag, List.mem_singleton_self _, by simp [h1]⟩,
          hgave.native s', d, _, List.mem_singleton_self _, hdead, ?_, hheld.native hsame⟩
        have hptr : World.ptr { w.setRefCount (.db d) 0 with
            toNative := s', closings := (.db d, w.ptr (.db d)) :: w.closings } (.db d)
            = w.ptr (.db d) := congrFun (World.ptr_setRefCount ..) _
        exact hptr ▸ hp
    · refine ⟨hheld, hgave, hdead, ?_⟩
      rintro ⟨-, d', hflag', hmem, -⟩
      obtain rfl : d' = d := by simpa using hmem
      exact hflag hflag'

/-- A failure after the references `l` were given back. -/
theorem failed_append {l l' : List ObjId} {e : Abrupt} {w'' : World} (hg : GaveBack w w' l)
    (h : Failed env w' own revived π l' e w'') : Failed env w own revived π (l ++ l') e w'' := by
  obtain ⟨ht, hf, hg', d, stale', hmem, hrest⟩ := h
  exact ⟨ht, hf.append hg, hg.trans hg', d, stale', List.mem_append_right _ hmem, hrest⟩

/-- The database comes last: `w₁` is where the references `l` have been given back, and `j` is the
object that dies. -/
theorem ends_unref_db_after {w₁ : World} {l : List ObjId} {j : ObjId} {d : ℕ}
    (h : Held w₁ own revived stale (.db d :: π)) (hg : GaveBack w w₁ l) (hok : ¬ w.Fails env l)
    (hdead : j ∉ w₁.live) :
    Ends (DB.unref env d) w₁
      (fun _ w' => Held w' own revived stale π ∧ GaveBack w w' (l ++ [.db d]) ∧ j ∉ w'.live ∧
        ¬ w.Fails env (l ++ [.db d]))
      (Failed env w own revived π (l ++ [.db d])) := by
  refine (ends_unref_db h).mono ?_ fun e w' hf => failed_append hg hf
  rintro _ w' ⟨hw', hg', hok'⟩
  refine ⟨hw', hg.trans hg', fun hl => hdead (hg'.live hl), fun hf => ?_⟩
  rcases hf.of_append hg with hf | hf
  · exact hok hf
  · exact hok' hf

/-- **Giving back a reference to a snapshot**, and with the last one its reference to the database.
For a revived snapshot the last one ends the process. -/
theorem ends_unref_snapshot {s : ℕ} (h : Held w own revived stale (.snapshot s :: π)) :
    Ends (Snapshot.unref env s) w
      (fun _ w' => Held w' own revived stale π ∧ GaveBack w w' (w.givesBack (.snapshot s)) ∧
        ¬ w.Fails env (w.givesBack (.snapshot s)))
      fun e w' => Failed env w own revived π (w.givesBack (.snapshot s)) e w' ∨
        (e = .crash ∧ .snapshot s ∈ revived) := by
  refine ends_unref [.db (w.snapshotDB s)] h (fun h1 => ?_) fun h1 => ?_
  · rw [World.givesBack, World.givesBackSnapshot, if_neg h1.ne']
    exact World.not_fails (by simp)
  have hlive := h.counted.live_of_pending List.mem_cons_self
  have hgives : w.givesBack (.snapshot s) = [.snapshot s] ++ [.db (w.snapshotDB s)] := by
    rw [World.givesBack, World.givesBackSnapshot, if_pos h1]
    rfl
  rw [hgives]
  simp only [Snapshot.closeNativeObject, ends_bind, ends_get, ends_getPtr, ends_call]
  by_cases hr : .snapshot s ∈ revived
  · -- the pointer is 0
    have h0 : w.ptr (.snapshot s) = 0 := (h.revived_live _ hr).2.1
    have hptr : World.ptr { w.setRefCount (.snapshot s) 0 with
        closings := (.snapshot s, w.ptr (.snapshot s)) :: w.closings } (.snapshot s) = 0 :=
      (congrFun (World.ptr_setRefCount ..) _).trans h0
    rw [hptr, Jni.DB.nativeReleaseSnapshot, ends_bind, ends_record, ends_bind, derefDB, ends_deref]
    refine ⟨fun _ _ => ?_, fun _ => .inr ⟨rfl, hr⟩⟩
    have hnone : ∀ d, w.kinds 0 ≠ some (.snapshot d) :=
      fun d hd => (h.owner 0 (by simp [hd])).1 rfl
    have hbind : (w.heap 0).bind Allocation.asSnapshot = none := bind_asSnapshot_eq_none hnone
    rw [ends_bind, ends_deref]
    exact ⟨fun a ha => absurd (ha.symm.trans hbind) (by simp), fun _ => .inr ⟨rfl, hr⟩⟩
  · have hp := h.ptr_of_last h1 hr
    have hmem : .db (w.snapshotDB s) ∈ w.held revived (.snapshot s) := by
      rw [h.held_of_ptr hp]
      exact List.mem_singleton_self _
    have hdlive := h.counted.live_of_refs hlive hmem
    have hdp := h.db_open _ hlive _ hmem
    have hptr : World.ptr { w.setRefCount (.snapshot s) 0 with
        closings := (.snapshot s, w.ptr (.snapshot s)) :: w.closings } = w.ptr :=
      World.ptr_setRefCount ..
    rw [hptr]
    refine (ends_nativeReleaseSnapshot (h.kind _ hlive hp) (h.kind _ hdlive hdp)).mono ?_
      fun _ _ hf => hf.elim
    intro _ n hn
    obtain ⟨hheld, hgave, hdead⟩ := h.release h1 hp hn rfl
    exact (ends_unref_db_after hheld hgave (World.not_fails (by simp)) hdead).mono
      (fun _ _ hw' => hw') fun _ _ hf => .inl hf

/-- Giving back the snapshot of an iterator, where a reference to its database is still pending. -/
theorem ends_unref_snapshot_of {s d : ℕ} (h : Held w own revived stale (.snapshot s :: .db d :: π))
    (hd : w.snapshotDB s = d) :
    Ends (Snapshot.unref env s) w
      (fun _ w' => Held w' own revived stale (.db d :: π) ∧
        GaveBack w w' (w.givesBack (.snapshot s)) ∧ ¬ w.Fails env (w.givesBack (.snapshot s)))
      fun e _ => e = .crash ∧ .snapshot s ∈ revived := by
  refine (ends_unref_snapshot h).mono (fun _ _ hw => hw) fun e w' hf => ?_
  rcases hf with ⟨-, -, -, d', stale', hmem, hdead, -, hheld⟩ | hcrash
  · have hd' : d' = d := by
      rw [World.givesBack, World.givesBackSnapshot] at hmem
      split at hmem
      · simpa [hd] using hmem
      · simp at hmem
    exact absurd (hheld.counted.live_of_pending List.mem_cons_self) (hd' ▸ hdead)
  · exact hcrash

/-- **Giving back the reference to an iterator**: its snapshot, then its database. -/
theorem ends_unref_iterator {i : ℕ} (h : Held w own revived stale (.iterator i :: π)) :
    Ends (NativeObject.unref (Iterator.closeNativeObject env i) (.iterator i)) w
      (fun _ w' => Held w' own revived stale π ∧ GaveBack w w' (w.givesBack (.iterator i)) ∧
        ¬ w.Fails env (w.givesBack (.iterator i)))
      fun e w' => Failed env w own revived π (w.givesBack (.iterator i)) e w' ∨
        (e = .crash ∧ ∃ s ∈ w.iteratorSnapshot i, .snapshot s ∈ revived) := by
  refine ends_unref
    ((w.iteratorSnapshot i).elim [] w.givesBackSnapshot ++ [.db (w.iteratorDB i)]) h
    (fun h1 => ?_) fun h1 => ?_
  · rw [World.givesBack, if_neg h1.ne']
    exact World.not_fails (by simp)
  have hlive := h.counted.live_of_pending List.mem_cons_self
  have hr : .iterator i ∉ revived := fun hr => by
    obtain ⟨-, -, s, hs⟩ := h.revived_live _ hr
    cases hs
  have hp := h.ptr_of_last h1 hr
  have hheld_eq := h.held_of_ptr hp
  have hmem : .db (w.iteratorDB i) ∈ w.held revived (.iterator i) := by
    rw [hheld_eq]
    simp [World.refs]
  have hdlive := h.counted.live_of_refs hlive hmem
  have hdp := h.db_open _ hlive _ hmem
  refine ends_iteratorClose ?_
  refine (ends_iteratorDestroy hp (h.kind _ hlive hp) (h.kind _ hdlive hdp)).mono ?_
    fun _ _ hf => hf.elim
  intro _ n hn w₁ hw₁
  obtain ⟨hheld, hgave, hdead⟩ := h.release h1 hp hn hw₁
  have hgives : w.givesBack (.iterator i) = .iterator i ::
      ((w.iteratorSnapshot i).elim [] w.givesBackSnapshot ++ [.db (w.iteratorDB i)]) := by
    rw [World.givesBack, if_pos h1]
  rw [← hgives]
  refine ⟨fun hsn => ?_, fun s hsn => ?_⟩
  · have hsn : w.iteratorSnapshot i = none := hsn
    have hgives : w.givesBack (.iterator i) = [.iterator i] ++ [.db (w.iteratorDB i)] := by
      rw [World.givesBack, if_pos h1, hsn]
      rfl
    have hrefs : w.refs (.iterator i) = [.db (w.iteratorDB i)] := by simp [World.refs, hsn]
    rw [hrefs] at hheld
    rw [hgives]
    exact (ends_unref_db_after hheld hgave (World.not_fails (by simp)) hdead).mono
      (fun _ _ hw' => hw') fun _ _ hf => .inl hf
  · have hsn : w.iteratorSnapshot i = some s := hsn
    have hsdb₁ : w₁.snapshotDB = w.snapshotDB := by rw [hw₁]; rfl
    have hsame := h.same_db i s hlive hsn
    have hrefs : w.refs (.iterator i) = [.snapshot s, .db (w.iteratorDB i)] := by
      simp [World.refs, hsn]
    have hcount : w₁.count (.snapshot s) = w.count (.snapshot s) := by
      have := hgave.count (.snapshot s)
      simpa using this
    have hgives₁ : w₁.givesBack (.snapshot s) = w.givesBack (.snapshot s) := by
      simp only [World.givesBack, World.givesBackSnapshot, hcount, hsdb₁]
    have hgives : w.givesBack (.iterator i)
        = ([.iterator i] ++ w.givesBack (.snapshot s)) ++ [.db (w.iteratorDB i)] := by
      simp only [World.givesBack, if_pos h1, hsn]
      rfl
    rw [hrefs] at hheld
    have hsnap : Ends (Snapshot.unref env s) w₁ _ _ :=
      ends_unref_snapshot_of hheld (hsdb₁ ▸ hsame)
    rw [hgives₁] at hsnap
    rw [hgives]
    refine hsnap.mono ?_ fun e w' hcrash => .inr ⟨hcrash.1, s, hsn, hcrash.2⟩
    rintro _ w₂ ⟨hheld₂, hgave₂, hok₂⟩
    have hok : ¬ w.Fails env ([.iterator i] ++ w.givesBack (.snapshot s)) := fun hf =>
      (hf.of_append hgave).elim (World.not_fails (by simp)) hok₂
    refine (ends_unref_db_after hheld₂ (hgave.trans hgave₂) hok ?_).mono (fun _ _ hw' => hw')
      fun _ _ hf => .inl hf
    exact fun hl => hdead (hgave₂.live hl)

/-- **Giving back the reference to a batch.** -/
theorem ends_unref_batch {b : ℕ} (h : Held w own revived stale (.batch b :: π)) :
    Ends (NativeObject.unref WriteBatch.closeNativeObject (.batch b)) w
      (fun _ w' => Held w' own revived stale π ∧ GaveBack w w' (w.givesBack (.batch b)) ∧
        ¬ w.Fails env (w.givesBack (.batch b)))
      fun _ _ => False := by
  have hrest : ∀ c : Prop, [Decidable c] →
      (ObjId.batch b :: if c then [] else []) = [.batch b] := by
    intro c _
    split <;> rfl
  have hno : ¬ w.Fails env (w.givesBack (.batch b)) := World.not_fails (by simp [World.givesBack])
  refine (ends_unref [] (E := fun _ _ => False) (P := ¬ w.Fails env (w.givesBack (.batch b))) h
    (fun _ => hno) fun h1 => ?_).mono (fun _ w' hw' => by rwa [hrest] at hw') fun _ _ hE => hE
  have hlive := h.counted.live_of_pending List.mem_cons_self
  have hp := h.ptr_of_last h1 fun hr => by
    obtain ⟨-, -, s, hs⟩ := h.revived_live _ hr
    cases hs
  rw [WriteBatch.closeNativeObject, ends_call]
  refine (ends_batchDestroy hp (h.kind _ hlive hp)).mono ?_ fun _ _ hf => hf.elim
  intro _ n hn
  obtain ⟨hheld, hgave, hdead⟩ := h.release h1 hp hn rfl
  exact ⟨hheld, hgave, hdead, hno⟩

end Held

end Java
