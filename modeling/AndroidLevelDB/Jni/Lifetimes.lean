import AndroidLevelDB.Jni.Natives

/-!
# Jni/Lifetimes — what the native functions create and free

Seen on the skeleton, a native function that creates adds one object (`Created`), one that frees
removes one (`Freed`), and it gets there if the objects it needs live.
-/

open Leveldb Function

namespace Jni

/-- An object of kind `k` was created at `p`; a database is locked. -/
structure Created (s : Native) (p : ℕ) (k : Kind) (s' : Native) : Prop where
  ne_zero : p ≠ 0
  kinds : s'.kinds = update s.kinds p (some k)
  locks : ∀ path, path ∈ s'.locks ↔ path ∈ s.locks ∨ k = .db path
  lifetime : s'.lifetime = .create p k :: s.lifetime

/-- The object at `p` was freed; a database is unlocked. -/
structure Freed (s : Native) (p : ℕ) (s' : Native) : Prop where
  kinds : s'.kinds = update s.kinds p none
  locks : ∀ path, path ∈ s'.locks ↔ path ∈ s.locks ∧ s.kinds p ≠ some (.db path)
  lifetime : s'.lifetime = .free p :: s.lifetime

section Locks

variable {s s' : Native} {p q : ℕ} {k k' : Kind} {path : String}

theorem Created.kind_of (hs : Created s p k s') (hq : s'.kinds q = some k') :
    (q = p ∧ k = k') ∨ (q ≠ p ∧ s.kinds q = some k') := by
  rw [hs.kinds] at hq
  rcases eq_or_ne q p with rfl | hne
  · rw [update_self] at hq
    exact .inl ⟨rfl, Option.some_inj.mp hq⟩
  · rw [update_of_ne hne] at hq
    exact .inr ⟨hne, hq⟩

/-- A database that lives is locked. -/
theorem Created.locked (hs : Created s p k s')
    (h : ∀ q path, s.kinds q = some (.db path) → path ∈ s.locks)
    (hq : s'.kinds q = some (.db path)) : path ∈ s'.locks := by
  refine (hs.locks path).mpr ?_
  rcases hs.kind_of hq with ⟨-, hk⟩ | ⟨-, hk⟩
  · exact .inr hk
  · exact .inl (h q path hk)

/-- One database lives for each lock, if a new one gets a lock that is free. -/
theorem Created.lock_inj (hs : Created s p k s')
    (h : ∀ q path, s.kinds q = some (.db path) → path ∈ s.locks)
    (hinj : ∀ q q' path, s.kinds q = some (.db path) → s.kinds q' = some (.db path) → q = q')
    (hlock : ∀ path, k = .db path → path ∉ s.locks) {q' : ℕ}
    (hq : s'.kinds q = some (.db path)) (hq' : s'.kinds q' = some (.db path)) : q = q' := by
  rcases hs.kind_of hq with ⟨rfl, hk⟩ | ⟨-, hk⟩ <;>
    rcases hs.kind_of hq' with ⟨rfl, hk'⟩ | ⟨-, hk'⟩
  · rfl
  · exact absurd (h _ _ hk') (hlock path hk)
  · exact absurd (h _ _ hk) (hlock path hk')
  · exact hinj q q' path hk hk'

theorem Freed.kind_of (hs : Freed s p s') (hq : s'.kinds q = some k) :
    q ≠ p ∧ s.kinds q = some k := by
  rw [hs.kinds] at hq
  rcases eq_or_ne q p with rfl | hne
  · rw [update_self] at hq
    cases hq
  · rw [update_of_ne hne] at hq
    exact ⟨hne, hq⟩

theorem Freed.locked (hs : Freed s p s')
    (h : ∀ q path, s.kinds q = some (.db path) → path ∈ s.locks)
    (hinj : ∀ q q' path, s.kinds q = some (.db path) → s.kinds q' = some (.db path) → q = q')
    (hq : s'.kinds q = some (.db path)) : path ∈ s'.locks := by
  obtain ⟨hne, hk⟩ := hs.kind_of hq
  exact (hs.locks path).mpr ⟨h q path hk, fun hk' => hne (hinj q p path hk hk')⟩

end Locks

section Kinds

variable {s : Native} {p : ℕ}

theorem heap_of_kind_db {path : String} (h : s.kinds p = some (.db path)) :
    ∃ impl, s.heap p = some (.db path impl) := by
  obtain ⟨a, ha, hk⟩ := Option.map_eq_some_iff.mp h
  cases a <;> cases hk
  exact ⟨_, ha⟩

theorem heap_of_kind_snapshot {d : ℕ} (h : s.kinds p = some (.snapshot d)) :
    ∃ n, s.heap p = some (.snapshot d n) := by
  obtain ⟨a, ha, hk⟩ := Option.map_eq_some_iff.mp h
  cases a <;> cases hk
  exact ⟨_, ha⟩

theorem heap_of_kind_iterator {d sn : ℕ} (h : s.kinds p = some (.iterator d sn)) :
    ∃ iter, s.heap p = some (.iterator d sn iter) := by
  obtain ⟨a, ha, hk⟩ := Option.map_eq_some_iff.mp h
  cases a <;> cases hk
  exact ⟨_, ha⟩

theorem heap_of_kind_batch (h : s.kinds p = some .batch) : ∃ b, s.heap p = some (.batch b) := by
  obtain ⟨a, ha, hk⟩ := Option.map_eq_some_iff.mp h
  cases a <;> cases hk
  exact ⟨_, ha⟩

/-- At an address without a database nothing is used as one. -/
theorem bind_asDB_eq_none (h : ∀ path, s.kinds p ≠ some (.db path)) :
    (s.heap p).bind Allocation.asDB = none := by
  rw [Option.bind_eq_none_iff]
  intro a ha
  cases a with
  | db path impl => exact absurd (congrArg (Option.map Allocation.kind) ha) (h path)
  | _ => rfl

theorem bind_asSnapshot_eq_none (h : ∀ d, s.kinds p ≠ some (.snapshot d)) :
    (s.heap p).bind Allocation.asSnapshot = none := by
  rw [Option.bind_eq_none_iff]
  intro a ha
  cases a with
  | snapshot d n => exact absurd (congrArg (Option.map Allocation.kind) ha) (h d)
  | _ => rfl

theorem kinds_update (s : Native) (p : ℕ) (a : Option Allocation) (locks : Finset String)
    (calls : List NativeCall) :
    Native.kinds ⟨update s.heap p a, locks, calls⟩ = update s.kinds p (a.map Allocation.kind) := by
  funext q
  rcases eq_or_ne q p with rfl | hq
  · simp [Native.kinds]
  · simp [Native.kinds, update_of_ne hq]

theorem lifetime_cons (heap : ℕ → Option Allocation) (locks : Finset String)
    {calls : List NativeCall} {call : NativeCall} {e : Lifetime.Event ℕ Kind}
    (h : call.event = some e) :
    Native.lifetime ⟨heap, locks, call :: calls⟩ = e :: calls.filterMap NativeCall.event :=
  List.filterMap_cons_some h

end Kinds

section Free

variable {s : Native} {p : ℕ}

/-- Freeing an object that is no database. -/
theorem freed_of_called {call : NativeCall} (hcall : call.event = some (.free p))
    (hdb : ∀ path, s.kinds p ≠ some (.db path)) :
    Freed s p ⟨update s.heap p none, s.locks, call :: s.calls⟩ :=
  ⟨kinds_update .., fun path => by simp [hdb path], lifetime_cons _ _ hcall⟩

theorem ends_nativeClose {path : String} (hp : p ≠ 0) (h : s.kinds p = some (.db path)) :
    Ends (DB.nativeClose p) s (fun _ s' => Freed s p s') fun _ _ => False := by
  obtain ⟨impl, hheap⟩ := heap_of_kind_db h
  have hheap : (s.called (.nativeClose p)).heap p = some (.db path impl) := hheap
  rw [DB.nativeClose, ends_bind, ends_record, if_pos hp, ends_bind, ends_derefDB hheap]
  refine ⟨kinds_update .., fun path' => ?_, lifetime_cons _ _ (if_neg hp)⟩
  rw [h]
  simp only [Finset.mem_erase, Native.called, Option.some_inj, Kind.db.injEq, ne_eq]
  exact and_comm.trans (and_congr_right fun _ => not_congr eq_comm)

theorem ends_nativeReleaseSnapshot {d : ℕ} {path : String} (h : s.kinds p = some (.snapshot d))
    (hd : s.kinds d = some (.db path)) :
    Ends (DB.nativeReleaseSnapshot d p) s (fun _ s' => Freed s p s') fun _ _ => False := by
  obtain ⟨n, hheap⟩ := heap_of_kind_snapshot h
  obtain ⟨impl, hdheap⟩ := heap_of_kind_db hd
  have hdheap : (s.called (.nativeReleaseSnapshot d p)).heap d = some (.db path impl) := hdheap
  have hheap : (s.called (.nativeReleaseSnapshot d p)).heap p = some (.snapshot d n) := hheap
  rw [DB.nativeReleaseSnapshot, ends_bind, ends_record, ends_bind, ends_derefDB hdheap, ends_bind,
    ends_deref, hheap]
  refine ⟨?_, fun hnone => by cases hnone⟩
  rintro _ ⟨⟩
  simp only [if_true]
  exact freed_of_called rfl (by simp [h])

theorem ends_iteratorDestroy {d sn : ℕ} {path : String} (hp : p ≠ 0)
    (h : s.kinds p = some (.iterator d sn)) (hd : s.kinds d = some (.db path)) :
    Ends (Iterator.nativeDestroy p) s (fun _ s' => Freed s p s') fun _ _ => False := by
  obtain ⟨iter, hheap⟩ := heap_of_kind_iterator h
  obtain ⟨impl, hdheap⟩ := heap_of_kind_db hd
  have hdheap : (s.called (.iteratorDestroy p)).heap d = some (.db path impl) := hdheap
  have hheap : (s.called (.iteratorDestroy p)).heap p = some (.iterator d sn iter) := hheap
  rw [Iterator.nativeDestroy, ends_bind, ends_record, if_pos hp, ends_bind, derefIterator,
    ends_bind, ends_deref, hheap]
  refine ⟨?_, fun hnone => by cases hnone⟩
  rintro _ ⟨⟩
  simp only [ends_bind, ends_derefDB hdheap]
  exact freed_of_called (if_neg hp) (by simp [h])

theorem ends_batchDestroy (hp : p ≠ 0) (h : s.kinds p = some .batch) :
    Ends (WriteBatch.nativeDestroy p) s (fun _ s' => Freed s p s') fun _ _ => False := by
  obtain ⟨b, hheap⟩ := heap_of_kind_batch h
  have hheap : (s.called (.batchDestroy p)).heap p = some (.batch b) := hheap
  rw [WriteBatch.nativeDestroy, ends_bind, ends_record, if_pos hp, ends_bind, ends_derefBatch hheap]
  exact freed_of_called (if_neg hp) (by simp [h])

end Free

section Create

variable {s : Native} {env : Env}

/-- An object of kind `k` was created at `p`, or nothing was for lack of memory. -/
def Made (s : Native) (p : ℕ) (k : Kind) (s' : Native) : Prop :=
  p = 0 ∧ SameSkeleton s s' ∨ Created s p k s'

/-- `new` and the note of the call that returns its address. -/
theorem ends_allocate {a : Allocation} {call : ℕ → NativeCall} (hk : ∀ path, a.kind ≠ .db path)
    (hcall : ∀ p, (call p).event = if p = 0 then none else some (.create p a.kind)) :
    Ends (do
      let ptr ← allocate env a
      record (call ptr)
      pure ptr) s (fun r s' => r = env.newPtr ∧ Made s env.newPtr a.kind s') fun _ _ => False := by
  simp only [allocate, ends_bind, ends_record, ends_pure]
  by_cases hp : env.newPtr = 0
  · have hskip : ¬ env.newPtr ≠ 0 := not_not.mpr hp
    rw [if_neg hskip]
    refine ⟨rfl, .inl ⟨hp, ?_⟩⟩
    exact keeps_record (by rw [hcall, if_pos hp]) s
  · rw [if_pos hp]
    refine ⟨rfl, .inr ⟨hp, kinds_update .., fun path => ?_, ?_⟩⟩
    · simp [Native.called, hk path]
    · exact lifetime_cons _ _ ((hcall _).trans (if_neg hp))

theorem ends_nativeIterator {d sn : ℕ} {path : String} (hd : s.kinds d = some (.db path))
    (hsn : sn = 0 ∨ ∃ d', s.kinds sn = some (.snapshot d')) :
    Ends (DB.nativeIterator env d sn) s
      (fun r s' => r = env.newPtr ∧ Made s env.newPtr (.iterator d sn) s') fun _ _ => False := by
  obtain ⟨impl, hheap⟩ := heap_of_kind_db hd
  have hopt : ∃ snapshot, ∀ {Q : Option ℕ → Native → Prop} {E : Abrupt → Native → Prop},
      Ends (readOptions sn) s Q E ↔ Q snapshot s := by
    by_cases h0 : sn = 0
    · refine ⟨none, ?_⟩
      intro Q E
      rw [readOptions, if_pos h0, ends_pure]
    · obtain ⟨d', hd'⟩ := hsn.resolve_left h0
      obtain ⟨n, hn⟩ := heap_of_kind_snapshot hd'
      refine ⟨some n, ?_⟩
      intro Q E
      rw [readOptions, if_neg h0]
      simp [hn, Allocation.asSnapshot]
  obtain ⟨snapshot, hopt⟩ := hopt
  rw [DB.nativeIterator, ends_bind, ends_derefDB hheap]
  simp only
  rw [ends_bind, hopt]
  exact ends_allocate (a := .iterator d sn (impl.newIterator snapshot))
    (by simp [Allocation.kind]) fun _ => rfl

/-- **Without its database or its snapshot `nativeIterator` is undefined.** -/
theorem ends_nativeIterator_undefined {d sn : ℕ}
    (h : ¬ ((∃ path, s.kinds d = some (.db path)) ∧
      (sn = 0 ∨ ∃ d', s.kinds sn = some (.snapshot d')))) :
    Ends (DB.nativeIterator env d sn) s (fun _ _ => False) fun e _ => e = .crash := by
  rw [DB.nativeIterator, ends_bind, derefDB, ends_deref]
  refine ⟨fun x hx => ?_, fun _ => rfl⟩
  by_cases hd : ∃ path, s.kinds d = some (.db path)
  · have hsn : ¬ (sn = 0 ∨ ∃ d', s.kinds sn = some (.snapshot d')) := fun hsn => h ⟨hd, hsn⟩
    obtain ⟨h0, hk⟩ := not_or.mp hsn
    rw [ends_bind, readOptions, if_neg h0, ends_bind, ends_deref,
      bind_asSnapshot_eq_none (not_exists.mp hk)]
    exact ⟨fun _ hnone => (by cases hnone), fun _ => rfl⟩
  · rw [bind_asDB_eq_none (not_exists.mp hd)] at hx
    cases hx

theorem ends_nativeGetSnapshot {d : ℕ} {path : String} (hd : s.kinds d = some (.db path)) :
    Ends (DB.nativeGetSnapshot env d) s
      (fun r s' => r = env.newPtr ∧ Made s env.newPtr (.snapshot d) s') fun _ _ => False := by
  obtain ⟨impl, hheap⟩ := heap_of_kind_db hd
  rw [DB.nativeGetSnapshot, ends_bind, ends_derefDB hheap]
  exact ends_allocate (a := .snapshot d impl.getSnapshot) (by simp [Allocation.kind]) fun _ => rfl

theorem ends_nativeGetSnapshot_undefined {d : ℕ} (h : ¬ ∃ path, s.kinds d = some (.db path)) :
    Ends (DB.nativeGetSnapshot env d) s (fun _ _ => False) fun e _ => e = .crash := by
  rw [DB.nativeGetSnapshot, ends_bind, derefDB, ends_deref, bind_asDB_eq_none (not_exists.mp h)]
  exact ⟨fun _ hnone => (by cases hnone), fun _ => rfl⟩

theorem ends_batchCreate :
    Ends (WriteBatch.nativeCreate env) s
      (fun r s' => r = env.newPtr ∧ Made s env.newPtr .batch s') fun _ _ => False :=
  ends_allocate (a := .batch .new) (by simp [Allocation.kind]) fun _ => rfl

/-- What `DB::Open` returns for a database. -/
def openStatus (env : Env) (s : Native) (path : String) : Leveldb.Status :=
  (env.directory.dbOpen path (decide (path ∈ s.locks))).1

/-- A database that is locked is not opened. -/
theorem openStatus_of_locked (env : Env) {path : String} (h : path ∈ s.locks) :
    openStatus env s path
      = .ioError ("lock " ++ path ++ "/LOCK") "already held by process" := by
  rw [openStatus, decide_eq_true h, Directory.dbOpen_locked]

/-- **How `nativeOpen` ends.**  It returns the address of the new database for an OK status and
raises what `throwException` makes of another one; if that is nothing, it returns 0. -/
theorem ends_nativeOpen (hp : env.newPtr ≠ 0) (path : String) :
    Ends (DB.nativeOpen env path) s
      (fun r s' => ((openStatus env s path).ok = true ∧ path ∉ s.locks ∧ r = env.newPtr ∧
          Created s env.newPtr (.db path) s') ∨
        ((openStatus env s path).ok = false ∧ throwUnlessOk (openStatus env s path) = none ∧
          r = 0 ∧ SameSkeleton s s'))
      (fun e s' => (openStatus env s path).ok = false ∧
        (∃ t, throwUnlessOk (openStatus env s path) = some t ∧ e = .thrown t) ∧
        SameSkeleton s s') := by
  rw [DB.nativeOpen, if_neg hp, ends_bind, ends_get]
  have hsnd := Directory.dbOpen_snd env.directory path (decide (path ∈ s.locks))
  change _ = if (openStatus env s path).ok then _ else none at hsnd
  cases hok : (openStatus env s path).ok with
  | true =>
    have hlock : path ∉ s.locks := by
      intro hmem
      rw [openStatus_of_locked env hmem] at hok
      cases hok
    rw [hok, if_pos rfl] at hsnd
    have hraise : throwUnlessOk (openStatus env s path) = none := throwUnlessOk_of_ok hok
    simp only [openStatus] at hraise
    simp only [hsnd, hraise, allocate, if_pos hp, ends_bind, ends_modify, ends_pure, ends_record,
      raise]
    refine .inl ⟨trivial, hlock, trivial, hp, kinds_update .., fun path' => ?_, ?_⟩
    · simp only [Native.called, Finset.mem_insert, Kind.db.injEq]
      exact or_comm.trans (or_congr_right eq_comm)
    · exact lifetime_cons _ _ (if_neg hp)
  | false =>
    rw [hok, if_neg (by decide)] at hsnd
    simp only [hsnd, ends_bind, ends_pure, ends_record]
    have hsame : SameSkeleton s (s.called (.nativeOpen path 0)) := keeps_record rfl s
    cases hraise : throwUnlessOk (openStatus env s path) with
    | none =>
      have hraise' := hraise
      simp only [openStatus] at hraise'
      simp only [hraise', raise, ends_pure]
      exact .inr ⟨trivial, trivial, trivial, hsame⟩
    | some t =>
      have hraise' := hraise
      simp only [openStatus] at hraise'
      simp only [hraise', raise, ends_throw]
      exact ⟨trivial, ⟨t, rfl, rfl⟩, hsame⟩

end Create

end Jni
