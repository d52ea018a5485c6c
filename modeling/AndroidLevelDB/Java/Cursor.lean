import AndroidLevelDB.Lib.ListCursor
import AndroidLevelDB.Java.Acquisition
import AndroidLevelDB.Jni.Lookup

/-!
# Java/Cursor — moving an iterator about

A `DBIter` over a store is a cursor on the list of the pairs its sequence number lets it see
(`Tracks.move`).  `Next`, `Prev`, `key` and `value` of a native iterator require it to be valid;
neither the Java iterator nor the native functions look.  So a sequence of calls of an open iterator
is guarded exactly if the list cursor is at a pair whenever one of the four is called
(`guarded_iff`).
-/

open Leveldb Jni Function

namespace Java

/-! ## The native iterator tracks a list cursor -/

section Tracks

variable {S : Store} {s : ℕ} {it : DBIter InternalIterator}

/-- The iterator is where the cursor is: at the same pair, or not valid. -/
structure Tracks (S : Store) (s : ℕ) (it : DBIter InternalIterator)
    (n : Option (Fin (S.shown s).length)) : Prop where
  sequence : it.sequence = s
  rounds : S.entries.length ≤ it.rounds
  covers : S.cursor.covers it.iter
  stands : ∀ k ∈ n, DBIter.Stands S.cursor it ((S.shown s).take k) ((S.shown s).drop k)
  invalid : n = none → it.valid = false

theorem Tracks.valid_iff {n : Option (Fin (S.shown s).length)} (h : Tracks S s it n) :
    it.valid = true ↔ n ≠ none := by
  cases n with
  | none => simp [h.invalid rfl]
  | some k => simp [(h.stands k rfl).valid_iff]

/-- An iterator that stands before some of the pairs. -/
theorem tracks_at {n : ℕ} (hs : it.sequence = s) (hr : S.entries.length ≤ it.rounds)
    (h : DBIter.Stands S.cursor it ((S.shown s).take n) ((S.shown s).drop n)) :
    Tracks S s it (ListCursor.at? (S.shown s) n) := by
  refine ⟨hs, hr, h.covers, fun k hk => ?_, fun hnone => ?_⟩
  · rw [ListCursor.at?] at hk
    split at hk
    · obtain rfl := Option.some_inj.mp hk
      exact h
    · cases hk
  · rw [← Bool.not_eq_true, h.valid_iff, ne_eq, not_not]
    exact ListCursor.at?_eq_none_iff.mp hnone

/-- An iterator that stands at the last of the pairs in `l`, if there are any. -/
theorem tracks_last {n : ℕ} {l b : List (Bytes × Bytes)} (hl : l = (S.shown s).take n)
    (hb : b = (S.shown s).drop n) (hn : n ≤ (S.shown s).length) (hs : it.sequence = s)
    (hr : S.entries.length ≤ it.rounds) (hc : S.cursor.covers it.iter)
    (h : AtLast S.cursor it l b) :
    Tracks S s it (if n = 0 then none else ListCursor.at? (S.shown s) (n - 1)) := by
  have hlen : l.length = n := by rw [hl, List.length_take, min_eq_left hn]
  rw [AtLast] at h
  cases hrev : l.reverse with
  | nil =>
    rw [hrev] at h
    obtain rfl := List.reverse_eq_nil_iff.mp hrev
    have hn0 : n = 0 := hlen.symm
    rw [if_pos hn0]
    exact ⟨hs, hr, hc, by simp, fun _ => h⟩
  | cons q r =>
    rw [hrev] at h
    obtain ⟨hne, htake, hdrop⟩ := ListCursor.reverse_eq_cons_iff.mp hrev
    have hn0 : n ≠ 0 := by
      rintro rfl
      exact hne (List.length_eq_zero_iff.mp hlen)
    rw [if_neg hn0]
    refine tracks_at hs hr ?_
    have h1 : (S.shown s).take (n - 1) = r.reverse := by
      rw [← htake, hlen, hl, List.take_take, min_eq_left (Nat.sub_le _ _)]
    have h2 : (S.shown s).drop (n - 1) = q :: b := by
      rw [← List.take_append_drop n (S.shown s), ← hl, ← hb,
        List.drop_append_of_le_length (by omega), ← hlen, hdrop]
      rfl
    rw [h1, h2]
    exact h

/-- A move of the native iterator. -/
def moveIter : ListCursor.Move Bytes → DBIter InternalIterator → DBIter InternalIterator
  | .first, it => it.seekToFirst
  | .last, it => it.seekToLast
  | .seek k, it => it.seek k
  | .next, it => it.next
  | .prev, it => it.prev

/-- The order in which an iterator seeks. -/
def keyBelow (k : Bytes) (p : Bytes × Bytes) : Bool := p.1 < k

/-- **A move of a native iterator is a move of the list cursor**, if the iterator is valid where it
has to be. -/
theorem Tracks.move {n : Option (Fin (S.shown s).length)} (h : Tracks S s it n)
    (hs : s ≤ kMaxSequenceNumber) (m : ListCursor.Move Bytes)
    (hm : m = .next ∨ m = .prev → it.valid = true) :
    Tracks S s (moveIter m it) (ListCursor.move keyBelow (S.shown s) m n) := by
  have hlist : DBIter.shown S.entries it.sequence S.entries = S.shown s := by
    rw [h.sequence]
    rfl
  cases m with
  | first =>
    obtain ⟨hst, hseq, hrounds⟩ :=
      DBIter.stands_seekToFirst S.cursor S.versioned h.covers h.rounds
    rw [hlist] at hst
    exact tracks_at (n := 0) (hseq.trans h.sequence) (hrounds ▸ h.rounds) hst
  | last =>
    obtain ⟨hseq, hrounds, hc, hst⟩ :=
      DBIter.stands_seekToLast S.cursor S.versioned h.covers h.rounds
    rw [hlist] at hst
    have hlast : AtLast S.cursor it.seekToLast (S.shown s) [] := hst
    have htr := tracks_last (n := (S.shown s).length) List.take_length.symm
      List.drop_length.symm le_rfl (hseq.trans h.sequence) (hrounds ▸ h.rounds) hc hlast
    rw [moveIter, ListCursor.move]
    split at htr
    · rename_i h0
      have hnone : ListCursor.at? (S.shown s) ((S.shown s).length - 1) = none := by
        rw [ListCursor.at?, dif_neg (by omega)]
      rwa [hnone]
    · exact htr
  | seek k =>
    obtain ⟨hst, hseq, hrounds⟩ :=
      DBIter.stands_seek S.cursor S.versioned h.covers h.rounds (h.sequence ▸ hs) k
    rw [hlist, List.takeWhile_eq_take_findIdx_not, List.dropWhile_eq_drop_findIdx_not] at hst
    exact tracks_at (hseq.trans h.sequence) (hrounds ▸ h.rounds) hst
  | next =>
    obtain ⟨k, rfl⟩ := Option.ne_none_iff_exists'.mp (h.valid_iff.mp (hm (.inl rfl)))
    have hst := h.stands k rfl
    have hdrop : (S.shown s).drop k = (S.shown s)[k] :: (S.shown s).drop (k + 1) :=
      List.drop_eq_getElem_cons k.isLt
    rw [hdrop] at hst
    obtain ⟨hnext, hseq, hrounds⟩ := hst.next S.versioned h.rounds
    have htake : (S.shown s).take k ++ [(S.shown s)[k]] = (S.shown s).take (k + 1) :=
      List.take_append_getElem k.isLt
    rw [htake] at hnext
    exact tracks_at (hseq.trans h.sequence) (hrounds ▸ h.rounds) hnext
  | prev =>
    obtain ⟨k, rfl⟩ := Option.ne_none_iff_exists'.mp (h.valid_iff.mp (hm (.inr rfl)))
    have hst := h.stands k rfl
    have hne : (S.shown s).drop k ≠ [] := by simp
    obtain ⟨hseq, hrounds, hc, hprev⟩ := hst.prev S.versioned hne h.rounds
    exact tracks_last rfl rfl k.isLt.le (hseq.trans h.sequence) (hrounds ▸ h.rounds) hc hprev

/-- A new iterator is nowhere. -/
theorem tracks_newIterator (S : Store) (snapshot : Option ℕ) :
    Tracks S (S.readAt snapshot) (S.newIterator snapshot) none :=
  ⟨rfl, S.length_entries_le snapshot, S.covers_newIterator snapshot, by simp, fun _ => rfl⟩

end Tracks

/-! ## Calls of an iterator -/

/-- The calls of an iterator; the array to seek may be null. -/
inductive CursorCall
  | seekToFirst
  | seekToLast
  | seek (target : Option Bytes)
  | next
  | prev
  | getKey
  | getValue
  | isValid
deriving DecidableEq

namespace CursorCall

/-- The call, without its result. -/
def run (i : ℕ) : CursorCall → JavaM Unit
  | seekToFirst => Iterator.seekToFirst i
  | seekToLast => Iterator.seekToLast i
  | seek target => Iterator.seek i target
  | next => Iterator.next i
  | prev => Iterator.prev i
  | getKey => do let _ ← Iterator.getKey i
  | getValue => do let _ ← Iterator.getValue i
  | isValid => do let _ ← Iterator.isValid i

/-- The native function called requires a valid iterator. -/
def requiresValid : CursorCall → Bool
  | next => true
  | prev => true
  | getKey => true
  | getValue => true
  | _ => false

/-- What the call does to the cursor on the pairs. -/
def move : CursorCall → Option (ListCursor.Move Bytes)
  | seekToFirst => some .first
  | seekToLast => some .last
  | seek target => target.map .seek
  | next => some .next
  | prev => some .prev
  | _ => none

/-- The state after the call, unless the process ended. -/
def after (i : ℕ) (call : CursorCall) (w : World) : Option World :=
  match call.run i w with
  | .ok _ w' => some w'
  | .error (.thrown _) w' => some w'
  | .error .crash _ => none

end CursorCall

/-- The native iterator that an iterator wraps. -/
def World.nativeIterator (w : World) (i : ℕ) : Option (DBIter InternalIterator) :=
  ((w.heap (w.ptr (.iterator i))).bind Allocation.asIterator).map fun x => x.2.2

/-- A native function that requires a valid iterator gets one, or the call throws and leaves the
native iterator. -/
def Guarded (i : ℕ) (w : World) (call : CursorCall) : Prop :=
  call.requiresValid = true →
    (∃ it, w.nativeIterator i = some it ∧ it.valid = true) ∨
    ∃ t w', call.run i w = .error (.thrown t) w' ∧ w'.nativeIterator i = w.nativeIterator i

/-- Every call of a sequence is guarded. -/
def AllGuarded (i : ℕ) : World → List CursorCall → Prop
  | _, [] => True
  | w, call :: calls =>
    Guarded i w call ∧ ∀ w', call.after i w = some w' → AllGuarded i w' calls

/-- Wherever a call of the sequence requires a valid iterator, the cursor on `pairs` is at one. -/
def AllAtPairs (pairs : List (Bytes × Bytes)) :
    Option (Fin pairs.length) → List CursorCall → Prop
  | _, [] => True
  | n, call :: calls =>
    (call.requiresValid = true → n ≠ none) ∧
      AllAtPairs pairs (call.move.elim n fun m => ListCursor.move keyBelow pairs m n) calls

instance decidableAllAtPairs (pairs : List (Bytes × Bytes)) :
    ∀ (n : Option (Fin pairs.length)) (calls : List CursorCall),
      Decidable (AllAtPairs pairs n calls)
  | _, [] => isTrue trivial
  | n, call :: calls =>
    have := decidableAllAtPairs pairs
      (call.move.elim n fun m => ListCursor.move keyBelow pairs m n) calls
    inferInstanceAs (Decidable (_ ∧ _))

/-- The iterator `i` wraps `it`, an iterator of a database. -/
structure Wraps (w : World) (i : ℕ) (it : DBIter InternalIterator) : Prop where
  ptr_ne : w.ptr (.iterator i) ≠ 0
  heap : ∃ d sn path impl,
    w.heap (w.ptr (.iterator i)) = some (.iterator d sn it) ∧ w.heap d = some (.db path impl)

section Calls

variable {w : World} {i : ℕ} {it : DBIter InternalIterator} {valid : Bool}

theorem Wraps.nativeIterator (h : Wraps w i it) : w.nativeIterator i = some it := by
  obtain ⟨d, sn, path, impl, hheap, -⟩ := h.heap
  rw [World.nativeIterator, hheap]
  rfl

/-- How a method of an open iterator runs. -/
theorem Wraps.ends_method (h : Wraps w i it) {α : Type} {native : ℕ → JniM α}
    {Q : α → World → Prop} {E : Abrupt → World → Prop} :
    Ends (Iterator.method native i) w Q E ↔
      Ends (native (w.ptr (.iterator i))) w.toNative
        (fun a s => Q a { w with toNative := s }) fun e s => E e { w with toNative := s } := by
  simp [Iterator.method, h.ptr_ne]

theorem Wraps.ends_derefIterator (h : Wraps w i it) :
    ∃ d sn path impl, w.heap d = some (.db path impl) ∧
      w.heap (w.ptr (.iterator i)) = some (.iterator d sn it) ∧
      ∀ (call : NativeCall) {Q : ℕ × ℕ × DBIter InternalIterator → Native → Prop}
        {E : Abrupt → Native → Prop},
        Ends (derefIterator (w.ptr (.iterator i))) (w.toNative.called call) Q E ↔
          Q (d, sn, it) (w.toNative.called call) := by
  obtain ⟨d, sn, path, impl, hheap, hd⟩ := h.heap
  refine ⟨d, sn, path, impl, hd, hheap, fun call Q E => ?_⟩
  have hd' : (w.toNative.called call).heap d = some (.db path impl) := hd
  have hheap' : (w.toNative.called call).heap (w.ptr (.iterator i))
      = some (.iterator d sn it) := hheap
  simp [derefIterator, hheap', Allocation.asIterator, ends_derefDB hd']

/-- A move of an iterator that is valid where it has to be. -/
theorem Wraps.ends_move (h : Wraps w i it) {f : DBIter InternalIterator → DBIter InternalIterator}
    (hv : valid = true → it.valid = true) :
    Ends (Iterator.method (Jni.Iterator.move valid f) i) w (fun _ w' => Wraps w' i (f it))
      fun _ _ => False := by
  obtain ⟨d, sn, path, impl, hd, hheap, hderef⟩ := h.ends_derefIterator
  have hcond : ¬ (valid && !it.valid) = true := by
    cases valid <;> simp_all
  rw [h.ends_method, Jni.Iterator.move, ends_bind, ends_record, ends_bind, hderef]
  simp only [hcond]
  refine ⟨h.ptr_ne, d, sn, path, impl, update_self .., ?_⟩
  have hne : d ≠ w.ptr (.iterator i) := by
    intro heq
    rw [heq, hheap] at hd
    cases hd
  exact (update_of_ne hne _ _).trans hd

/-- Reading from an iterator that is valid where it has to be. -/
theorem Wraps.ends_read (h : Wraps w i it) {α : Type} {f : DBIter InternalIterator → α}
    (hv : valid = true → it.valid = true) :
    Ends (Iterator.method (Jni.Iterator.read valid f) i) w (fun _ w' => Wraps w' i it)
      fun _ _ => False := by
  obtain ⟨d, sn, path, impl, hd, hheap, hderef⟩ := h.ends_derefIterator
  have hcond : ¬ (valid && !it.valid) = true := by
    cases valid <;> simp_all
  rw [h.ends_method, Jni.Iterator.read, ends_bind, ends_record, ends_bind, hderef]
  simp only [hcond]
  exact ⟨h.ptr_ne, d, sn, path, impl, hheap, hd⟩

/-- What requires a valid iterator ends the process without one. -/
theorem Wraps.ends_invalid (h : Wraps w i it) (hv : it.valid = false) {call : CursorCall}
    (hc : call.requiresValid = true) :
    Ends (call.run i) w (fun _ _ => False) fun e _ => e = .crash := by
  obtain ⟨d, sn, path, impl, hd, hheap, hderef⟩ := h.ends_derefIterator
  cases call <;> cases hc <;>
    simp [CursorCall.run, Iterator.next, Iterator.prev, Iterator.getKey, Iterator.getValue,
      h.ends_method, Jni.Iterator.nativeNext, Jni.Iterator.nativePrev, Jni.Iterator.nativeKey,
      Jni.Iterator.nativeValue, Jni.Iterator.move, Jni.Iterator.read, hderef, hv, crash]

/-- **A call moves the native iterator as the list cursor**; to seek null throws and moves
nothing. -/
theorem Wraps.ends_run (h : Wraps w i it) (call : CursorCall)
    (hv : call.requiresValid = true → it.valid = true) :
    Ends (call.run i) w (fun _ w' => Wraps w' i (call.move.elim it fun m => moveIter m it))
      fun e w' => (∃ t, e = .thrown t) ∧ Wraps w' i (call.move.elim it fun m => moveIter m it) := by
  have hfalse : ∀ (e : Abrupt) (w' : World), False → (∃ t, e = .thrown t) ∧
      Wraps w' i (call.move.elim it fun m => moveIter m it) := fun _ _ h => h.elim
  cases call with
  | seekToFirst => exact (h.ends_move (by simp)).mono (fun _ _ h => h) hfalse
  | seekToLast => exact (h.ends_move (by simp)).mono (fun _ _ h => h) hfalse
  | seek target =>
    cases target with
    | none =>
      rw [CursorCall.run, Iterator.seek, ends_bind, ends_assertOpen]
      exact ⟨fun h0 => absurd h0 h.ptr_ne, fun _ => ⟨⟨_, rfl⟩, h⟩⟩
    | some k =>
      have hrun : CursorCall.run i (.seek (some k))
          = Iterator.method (Jni.Iterator.nativeSeek · k) i := rfl
      rw [hrun]
      exact (h.ends_move (by simp)).mono (fun _ _ h => h) hfalse
  | next => exact (h.ends_move hv).mono (fun _ _ h => h) hfalse
  | prev => exact (h.ends_move hv).mono (fun _ _ h => h) hfalse
  | getKey =>
    rw [CursorCall.run, ends_bind]
    exact (h.ends_read hv).mono (fun _ _ h => h) hfalse
  | getValue =>
    rw [CursorCall.run, ends_bind]
    exact (h.ends_read hv).mono (fun _ _ h => h) hfalse
  | isValid =>
    rw [CursorCall.run, ends_bind]
    exact (h.ends_read (by simp)).mono (fun _ _ h => h) hfalse

theorem Wraps.after (h : Wraps w i it) (call : CursorCall)
    (hv : call.requiresValid = true → it.valid = true) :
    ∃ w', call.after i w = some w' ∧ Wraps w' i (call.move.elim it fun m => moveIter m it) := by
  have hends := h.ends_run call hv
  rw [CursorCall.after]
  cases hrun : call.run i w with
  | ok a w' => exact ⟨w', rfl, hends.of_ok hrun⟩
  | error e w' =>
    obtain ⟨⟨t, rfl⟩, hw⟩ := hends.of_error hrun
    exact ⟨w', rfl, hw⟩

/-- A call is guarded exactly if it finds the iterator valid where it has to be. -/
theorem Wraps.guarded_iff (h : Wraps w i it) (call : CursorCall) :
    Guarded i w call ↔ (call.requiresValid = true → it.valid = true) := by
  rw [Guarded, h.nativeIterator]
  refine forall_congr' fun hc => ⟨?_, fun hv => .inl ⟨it, rfl, hv⟩⟩
  rintro (⟨it', heq, hv⟩ | ⟨t, w', hthrow, -⟩)
  · obtain rfl := Option.some_inj.mp heq
    exact hv
  · by_contra hv
    have hcrash := (h.ends_invalid (Bool.not_eq_true _ ▸ hv) hc).of_error hthrow
    cases hcrash

end Calls

/-- The calls of an iterator that tracks the cursor. -/
theorem Tracks.guards_run_iff {S : Store} {s i : ℕ} (hs : s ≤ kMaxSequenceNumber)
    (calls : List CursorCall) : ∀ {w : World} {it : DBIter InternalIterator}
    {n : Option (Fin (S.shown s).length)}, Wraps w i it → Tracks S s it n →
      (AllGuarded i w calls ↔ AllAtPairs (S.shown s) n calls) := by
  induction calls with
  | nil => exact fun _ _ => Iff.rfl
  | cons call calls ih =>
    intro w it n hw ht
    rw [AllGuarded, AllAtPairs, hw.guarded_iff, ht.valid_iff]
    refine and_congr_right fun hv => ?_
    rw [← ht.valid_iff] at hv
    obtain ⟨w', hafter, hw'⟩ := hw.after call hv
    simp only [hafter, Option.some_inj, forall_eq']
    refine ih hw' ?_
    cases hm : call.move with
    | none => exact ht
    | some m =>
      refine ht.move hs m fun hnp => hv ?_
      rcases hnp with rfl | rfl <;> cases call <;>
        simp_all [CursorCall.move, CursorCall.requiresValid]

/-- **Preconditions of a cursor.**  The calls of an open iterator, new and of any store, are guarded
exactly if the cursor on the pairs that the iterator sees is at a pair whenever `next`, `prev`,
`getKey` or `getValue` is called. -/
theorem allGuarded_iff {S : Store} {snapshot : Option ℕ}
    (hsnap : ∀ n ∈ snapshot, n ≤ S.lastSequence.toNat) {w : World} {i : ℕ}
    (hw : Wraps w i (S.newIterator snapshot)) (calls : List CursorCall) :
    AllGuarded i w calls ↔ AllAtPairs (S.shown (S.readAt snapshot)) none calls :=
  Tracks.guards_run_iff (S.readAt_le hsnap) calls hw (tracks_newIterator S snapshot)

/-- **What `iterator` returns wraps a new iterator** of the store. -/
theorem ends_iterator_wraps {env : Env} {w : World} {d : ℕ} {snapshot : Option ℕ} {S : Store}
    {path : String} {n : Option ℕ} (hd : w.ptr (.db d) ≠ 0)
    (hdb : w.heap (w.ptr (.db d)) = some (.db path S.toDBImpl))
    (hsnap : ReadsAt w.toNative S (w.ptr (.db d))
      (w.snapshotArg snapshot) n)
    (hnew : env.newPtr ≠ 0) (hfree : env.newPtr ≠ w.ptr (.db d)) :
    Ends (DB.iterator env d snapshot) w (fun i w' => Wraps w' i (S.newIterator n))
      fun _ _ => False := by
  refine ends_iterator.mpr ⟨fun h0 => absurd h0 hd, fun _ => ?_⟩
  rw [Jni.DB.nativeIterator, ends_bind, ends_derefDB hdb, ends_bind]
  refine hsnap.ends_readOptions rfl ?_
  simp only [allocate, if_pos hnew, ends_bind, ends_modify, ends_pure, ends_record]
  refine ⟨fun h0 => absurd h0 hnew, fun _ => ⟨?_, ?_⟩⟩
  · simpa using hnew
  · refine ⟨w.ptr (.db d), w.snapshotArg snapshot, path, S.toDBImpl, ?_, ?_⟩
    · rw [World.ptr_setPtr, update_self]
      exact update_self ..
    · exact (update_of_ne hfree.symm _ _).trans hdb

/-- Pairs under the keys `[2]` and `[3]`, and one deleted. -/
def cursorStore : Store where
  mem := [opEntry 3 (.delete [1]), opEntry 1 (.put [1] [10]), opEntry 2 (.put [2] [20]),
    opEntry 4 (.put [3] [30])]
  imm := none
  tables := []
  lastSequence := 4
  sorted := by decide
  wellFormed := by decide
  distinct := by decide
  lastSequence_le := by decide

theorem shown_cursorStore :
    cursorStore.shown (cursorStore.readAt none) = [([2], [20]), ([3], [30])] := by
  have hentries : cursorStore.entries = cursorStore.sources.flatMap fun src => readable src.cells :=
    KeySorted.eq_of_perm cursorStore.versioned.sorted (by decide) cursorStore.merged.perm
  rw [Store.shown, hentries]
  decide

/-- An iterator at 2 over the store at 1. -/
def cursorWorld : World where
  toNative :=
    { heap
        | 1 => some (.db "/db" cursorStore.toDBImpl)
        | 2 => some (.iterator 1 0 (cursorStore.newIterator none))
        | _ => none
      locks := {"/db"}
      calls := [] }
  object
    | .db _ => ⟨1, 2⟩
    | .iterator _ => ⟨2, 1⟩
    | _ => ⟨0, 0⟩
  created := {.db 0, .iterator 1}
  mPath := fun _ => "/db"
  mDestroyOnClose := fun _ => false
  snapshotDB := fun _ => 0
  iteratorDB := fun _ => 0
  iteratorSnapshot := fun _ => none
  closings := []

theorem allGuarded_example :
    AllGuarded 1 cursorWorld [.seekToFirst, .getKey, .next, .getValue, .prev, .prev, .isValid] ∧
      ¬ AllGuarded 1 cursorWorld [.seekToLast, .next, .prev] := by
  have hsnap : ∀ n ∈ (none : Option ℕ), n ≤ cursorStore.lastSequence.toNat := by simp
  have hw : Wraps cursorWorld 1 (cursorStore.newIterator none) :=
    ⟨by decide, 1, 0, "/db", cursorStore.toDBImpl, rfl, rfl⟩
  refine ⟨(allGuarded_iff hsnap hw _).mpr ?_, fun h => absurd ((allGuarded_iff hsnap hw _).mp h) ?_⟩
  · rw [shown_cursorStore]
    decide
  · rw [shown_cursorStore]
    decide

/-- A new iterator of a new database is not valid: `next` ends the process. -/
theorem next_unguarded :
    ∃ w w', openDB .empty = .ok 0 w ∧ DB.iterator { fineEnv with newPtr := 4 } 0 none w = .ok 1 w' ∧
      ¬ AllGuarded 1 w' [.next] := by
  refine ⟨_, _, rfl, rfl, ?_⟩
  rintro ⟨h, -⟩
  rcases h rfl with ⟨it, hit, hv⟩ | ⟨t, w'', hthrow, -⟩
  · cases hit
    cases hv
  · cases hthrow

end Java
