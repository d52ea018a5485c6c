import Mathlib.Data.List.TakeWhile
import AndroidLevelDB.Leveldb.DbFormat
import AndroidLevelDB.Leveldb.Status

/-!
# Leveldb/Iterator — iterators over internal entries

`Iterator` is the interface of `include/leveldb/iterator.h`.  `Cursor L` says what an
implementation over the sorted entries `L` does: it stands at the head of a suffix of `L` when it
last moved forwards, at the head of a reversed prefix when it last moved backwards.

`SourceIterator` is the iterator over one source of the store, a memtable or the tables of a level.
A source may hold places that cannot be read: the iterator passes them (as
`TwoLevelIterator::SkipEmptyDataBlocksForward` does) and keeps the first error.
-/

namespace Leveldb

/-- `leveldb::Iterator`. -/
class Iterator (ι : Type) where
  valid : ι → Bool
  seekToFirst : ι → ι
  seekToLast : ι → ι
  seek : ι → Bytes → ι
  next : ι → ι
  prev : ι → ι
  key : ι → Bytes
  value : ι → Bytes
  status : ι → Status

open Iterator

/-- The entries below a seek target. -/
def below (target : Bytes) (e : Entry) : Bool := e.rank < internalRank target

/-- The entries below a seek target and the others. -/
theorem cut_eq_filter {l : List Entry} (h : KeySorted Entry.rank l) (t : Bytes) :
    l.takeWhile (below t) = (l.filter fun e => e.rank < internalRank t) ∧
      l.dropWhile (below t) = l.filter fun e => ¬ e.rank < internalRank t :=
  ⟨h.takeWhile_eq_filter (internalRank t), h.dropWhile_eq_filter (internalRank t)⟩

/-- **An iterator over the entries `L`.**  In `fwd it pre post` it stands at the head of `post`,
having moved forwards; in `bwd it r post` at the head of `r`, having moved backwards, and `r` lists
what is before `post` in reverse. -/
structure Cursor (ι : Type) [Iterator ι] (L : List Entry) where
  /-- Iterators over `L`, wherever they stand. -/
  covers : ι → Prop
  fwd : ι → List Entry → List Entry → Prop
  bwd : ι → List Entry → List Entry → Prop
  covers_fwd : ∀ {it pre post}, fwd it pre post → covers it
  covers_bwd : ∀ {it r post}, bwd it r post → covers it
  fwd_append : ∀ {it pre post}, fwd it pre post → pre ++ post = L
  bwd_append : ∀ {it r post}, bwd it r post → r.reverse ++ post = L
  fwd_nil : ∀ {it pre}, fwd it pre [] → valid it = false
  fwd_cons : ∀ {it pre e post}, fwd it pre (e :: post) →
    valid it = true ∧ key it = e.key ∧ value it = e.value
  bwd_nil : ∀ {it post}, bwd it [] post → valid it = false
  bwd_cons : ∀ {it e r post}, bwd it (e :: r) post →
    valid it = true ∧ key it = e.key ∧ value it = e.value
  seekToFirst_fwd : ∀ {it}, covers it → fwd (seekToFirst it) [] L
  seekToLast_bwd : ∀ {it}, covers it → bwd (seekToLast it) L.reverse []
  seek_fwd : ∀ {it}, covers it → ∀ t,
    fwd (seek it t) (L.takeWhile (below t)) (L.dropWhile (below t))
  next_fwd : ∀ {it pre e post}, fwd it pre (e :: post) → fwd (next it) (pre ++ [e]) post
  next_bwd : ∀ {it e r post}, bwd it (e :: r) post → fwd (next it) ((e :: r).reverse) post
  prev_fwd : ∀ {it pre e post}, fwd it pre (e :: post) → bwd (prev it) pre.reverse (e :: post)
  prev_bwd : ∀ {it e r post}, bwd it (e :: r) post → bwd (prev it) r (e :: post)

/-- Positions from which an iterator moves forwards over entries. -/
structure Forward (ι : Type) [Iterator ι] (F : ι → List Entry → List Entry → Prop) : Prop where
  nil : ∀ {it pre}, F it pre [] → valid it = false
  cons : ∀ {it pre e post}, F it pre (e :: post) →
    valid it = true ∧ key it = e.key ∧ value it = e.value
  next : ∀ {it pre e post}, F it pre (e :: post) → F (next it) (pre ++ [e]) post

theorem Cursor.forward {ι : Type} [Iterator ι] {L : List Entry} (C : Cursor ι L) :
    Forward ι C.fwd := ⟨C.fwd_nil, C.fwd_cons, C.next_fwd⟩

/-! ## Sources -/

/-- One place of a source: an entry, or a block or file that cannot be read.  The entries `lost`
there are at most `limit`, the key under which the index lists it. -/
inductive Cell
  | entry (e : Entry)
  | unreadable (limit : Bytes) (lost : List Entry) (code : Status.Code) (msg : String)
deriving DecidableEq

namespace Cell

def isUnreadable : Cell → Bool
  | entry _ => false
  | unreadable .. => true

def limit : Cell → Bytes
  | entry e => e.key
  | unreadable limit .. => limit

def readable? : Cell → Option Entry
  | entry e => some e
  | unreadable .. => none

/-- What was written there, readable or not. -/
def stored : Cell → List Entry
  | entry e => [e]
  | unreadable _ lost .. => lost

def status : Cell → Status
  | entry _ => .OK
  | unreadable _ _ code msg => ⟨some (code, msg)⟩

theorem ok_status (c : Cell) : c.status.ok = !c.isUnreadable := by
  cases c <;> rfl

theorem readable?_eq_none_iff {c : Cell} : c.readable? = none ↔ c.isUnreadable = true := by
  cases c <;> simp [readable?, isUnreadable]

end Cell

/-- The entries of a source that can be read. -/
def readable (cells : List Cell) : List Entry := cells.filterMap Cell.readable?

/-- A memtable, or the tables of a level.  `opened` is the status of opening it: an iterator over a
file that cannot be opened has that status from the start. -/
structure Source where
  cells : List Cell
  opened : Status
deriving DecidableEq

/-- The cells ascend, so do the entries in each of them, and an entry lies in the cell under whose
limit it is listed. -/
structure Source.Sorted (src : Source) : Prop where
  limits : KeySorted (fun c : Cell => internalRank c.limit) src.cells
  stored : KeySorted Entry.rank (src.cells.flatMap Cell.stored)
  le_limit : ∀ c ∈ src.cells, ∀ e ∈ c.stored, e.rank ≤ internalRank c.limit

instance : DecidablePred Source.Sorted := fun src =>
  decidable_of_iff ((KeySorted (fun c : Cell => internalRank c.limit) src.cells ∧
      KeySorted Entry.rank (src.cells.flatMap Cell.stored)) ∧
      ∀ c ∈ src.cells, ∀ e ∈ c.stored, e.rank ≤ internalRank c.limit)
    ⟨fun ⟨⟨h1, h2⟩, h3⟩ => ⟨h1, h2, h3⟩, fun ⟨h1, h2, h3⟩ => ⟨⟨h1, h2⟩, h3⟩⟩

@[simp] theorem readable_nil : readable [] = [] := rfl

theorem readable_append (cs ds : List Cell) : readable (cs ++ ds) = readable cs ++ readable ds :=
  List.filterMap_append

theorem readable_eq_nil {cs : List Cell} (h : ∀ c ∈ cs, c.isUnreadable = true) :
    readable cs = [] :=
  List.filterMap_eq_nil_iff.mpr fun c hc => Cell.readable?_eq_none_iff.mpr (h c hc)

@[simp] theorem readable_cons_entry (e : Entry) (cs : List Cell) :
    readable (.entry e :: cs) = e :: readable cs := rfl

theorem readable_takeWhile (cs : List Cell) : readable (cs.takeWhile Cell.isUnreadable) = [] :=
  readable_eq_nil fun _ hc => List.mem_takeWhile_imp hc

/-- The first thing that can be read is behind the places that cannot. -/
theorem readable_dropWhile (cs : List Cell) :
    readable (cs.dropWhile Cell.isUnreadable) = readable cs := by
  conv_rhs => rw [← List.takeWhile_append_dropWhile (p := Cell.isUnreadable) (l := cs)]
  rw [readable_append, readable_takeWhile, List.nil_append]

theorem readable_reverse (cs : List Cell) : readable cs.reverse = (readable cs).reverse :=
  List.filterMap_reverse

/-- What can be read of a sorted source is sorted. -/
theorem Source.Sorted.readable {src : Source} (h : src.Sorted) :
    KeySorted Entry.rank (readable src.cells) := by
  refine List.Pairwise.filterMap Cell.readable? (fun c d hcd e he f hf => ?_) h.limits
  cases c with
  | unreadable => cases he
  | entry _ =>
    cases d with
    | unreadable => cases hf
    | entry _ =>
      obtain rfl := Option.some.inj he
      obtain rfl := Option.some.inj hf
      exact hcd

/-- The iterator over a source; it is valid while `index` is a place of the source. -/
structure SourceIterator where
  source : Source
  index : ℕ
  status : Status
deriving DecidableEq

namespace SourceIterator

/-- A new iterator stands nowhere. -/
def new (source : Source) : SourceIterator := ⟨source, source.cells.length, source.opened⟩

def cells (it : SourceIterator) : List Cell := it.source.cells

/-- Leave the errors of the cells passed. -/
def saveErrors (s : Status) (passed : List Cell) : Status :=
  passed.foldl (fun s c => s.saveError c.status) s

/-- `SkipEmptyDataBlocksForward` from place `i` on. -/
def settleForward (it : SourceIterator) (i : ℕ) : SourceIterator :=
  let passed := (it.cells.drop i).takeWhile Cell.isUnreadable
  { it with index := i + passed.length, status := saveErrors it.status passed }

/-- `SkipEmptyDataBlocksBackward` through the first `n` places. -/
def settleBackward (it : SourceIterator) (n : ℕ) : SourceIterator :=
  let passed := (it.cells.take n).reverse.takeWhile Cell.isUnreadable
  { it with
    index := if n - passed.length = 0 then it.cells.length else n - passed.length - 1
    status := saveErrors it.status passed }

def valid (it : SourceIterator) : Bool := it.index < it.cells.length

def seekToFirst (it : SourceIterator) : SourceIterator := it.settleForward 0

def seekToLast (it : SourceIterator) : SourceIterator := it.settleBackward it.cells.length

/-- The index is searched for the first place whose limit is not before the target. -/
def seek (it : SourceIterator) (target : Bytes) : SourceIterator :=
  it.settleForward (it.cells.findIdx fun c => ¬ internalKeyCompare c.limit target < 0)

def next (it : SourceIterator) : SourceIterator := it.settleForward (it.index + 1)

def prev (it : SourceIterator) : SourceIterator := it.settleBackward it.index

def key (it : SourceIterator) : Bytes :=
  match it.cells[it.index]? with
  | some (.entry e) => e.key
  | _ => []

def value (it : SourceIterator) : Bytes :=
  match it.cells[it.index]? with
  | some (.entry e) => e.value
  | _ => []

instance : Iterator SourceIterator :=
  ⟨valid, seekToFirst, seekToLast, seek, next, prev, key, value, status⟩

variable {src : Source} {it : SourceIterator}

theorem ok_saveErrors (s : Status) (passed : List Cell) :
    (saveErrors s passed).ok = (s.ok && passed.all fun c => !c.isUnreadable) := by
  induction passed generalizing s with
  | nil => simp [saveErrors]
  | cons c passed ih =>
    rw [saveErrors, List.foldl_cons, ← saveErrors, ih, Status.ok_saveError, Cell.ok_status,
      List.all_cons, Bool.and_assoc]

/-! ## Where an iterator stands -/

/-- `it` stands between the places `A` and `B`, at the head of `B`, which can be read. -/
structure At (src : Source) (it : SourceIterator) (A B : List Cell) : Prop where
  source : it.source = src
  cells : src.cells = A ++ B
  index : it.index = A.length
  head : ∀ c ∈ B.head?, c.isUnreadable = false

/-- `it` has moved backwards past the first place. -/
structure AtEnd (src : Source) (it : SourceIterator) : Prop where
  source : it.source = src
  index : it.index = src.cells.length

theorem At.valid_eq_false {A : List Cell} (h : At src it A []) : it.valid = false := by
  simp [valid, SourceIterator.cells, h.source, h.cells, h.index]

/-- What an iterator shows is the entry at the head. -/
theorem At.entry {A B : List Cell} {e : Entry} (h : At src it A (.entry e :: B)) :
    it.valid = true ∧ it.key = e.key ∧ it.value = e.value := by
  have hget : it.cells[it.index]? = some (.entry e) := by
    simp [SourceIterator.cells, h.source, h.cells, h.index]
  refine ⟨?_, by simp [key, hget], by simp [value, hget]⟩
  simp [valid, SourceIterator.cells, h.source, h.cells, h.index]

/-- The head of what can be read is the head of the places. -/
theorem At.exists_of_readable {A B : List Cell} {e : Entry} {post : List Entry}
    (h : At src it A B) (hB : readable B = e :: post) :
    ∃ B', B = .entry e :: B' ∧ readable B' = post := by
  cases B with
  | nil => simp at hB
  | cons c B =>
    cases c with
    | entry e' =>
      obtain ⟨rfl, rfl⟩ := List.cons.inj hB
      exact ⟨B, rfl, rfl⟩
    | unreadable => exact absurd (h.head _ rfl) (by simp [Cell.isUnreadable])

theorem At.nil_of_readable {A B : List Cell} (h : At src it A B) (hB : readable B = []) :
    B = [] := by
  cases B with
  | nil => rfl
  | cons c B =>
    cases c with
    | entry e => cases hB
    | unreadable => exact absurd (h.head _ rfl) (by simp [Cell.isUnreadable])

/-- **Settling forwards** passes the places that cannot be read, and only those. -/
theorem settleForward_at {A B : List Cell} (hs : it.source = src) (hc : src.cells = A ++ B) :
    At src (it.settleForward A.length) (A ++ B.takeWhile Cell.isUnreadable)
      (B.dropWhile Cell.isUnreadable) ∧
    (it.settleForward A.length).status
      = saveErrors it.status (B.takeWhile Cell.isUnreadable) := by
  have hdrop : it.cells.drop A.length = B := by simp [SourceIterator.cells, hs, hc]
  refine ⟨⟨hs, ?_, ?_, fun c hc => ?_⟩, by simp [settleForward, hdrop]⟩
  · rw [List.append_assoc, List.takeWhile_append_dropWhile, hc]
  · simp [settleForward, hdrop]
  · have hd := List.head?_dropWhile_not Cell.isUnreadable B
    rw [Option.mem_def.mp hc] at hd
    exact hd

/-- **Settling backwards** stops at the last place before `B` that can be read, or at the end. -/
theorem settleBackward_at {A B : List Cell} (hs : it.source = src) (hc : src.cells = A ++ B) :
    (∃ A' e U, A = A' ++ .entry e :: U ∧ readable U = [] ∧
      At src (it.settleBackward A.length) A' (.entry e :: (U ++ B))) ∨
    (readable A = [] ∧ AtEnd src (it.settleBackward A.length)) := by
  have htake : it.cells.take A.length = A := by simp [SourceIterator.cells, hs, hc]
  have hsplit := List.takeWhile_append_dropWhile (p := Cell.isUnreadable) (l := A.reverse)
  have hread := readable_takeWhile A.reverse
  have hlen := congrArg List.length hsplit
  generalize hU : A.reverse.takeWhile Cell.isUnreadable = U at hsplit hread hlen
  have hidx : (it.settleBackward A.length).index
      = if A.length - U.length = 0 then src.cells.length else A.length - U.length - 1 := by
    simp only [settleBackward, htake, hU]
    rw [SourceIterator.cells, hs]
  have hA := congrArg List.reverse hsplit
  rw [List.reverse_reverse, List.reverse_append] at hA
  rw [List.length_append, List.length_reverse] at hlen
  cases hD : A.reverse.dropWhile Cell.isUnreadable with
  | nil =>
    rw [hD] at hA hlen
    refine .inr ⟨?_, hs, ?_⟩
    · rw [← hA, List.reverse_nil, List.nil_append, readable_reverse, hread, List.reverse_nil]
    · rw [hidx, if_pos]
      rw [List.length_nil] at hlen
      omega
  | cons c D =>
    have hc' := List.head?_dropWhile_not Cell.isUnreadable A.reverse
    rw [hD] at hA hlen hc'
    cases c with
    | unreadable => cases hc'
    | entry e =>
      have hA' : A = D.reverse ++ .entry e :: U.reverse := by rw [← hA]; simp
      refine .inl ⟨D.reverse, e, U.reverse, hA', ?_, hs, ?_, ?_, ?_⟩
      · rw [readable_reverse, hread, List.reverse_nil]
      · rw [hc, hA']
        simp
      · rw [List.length_cons] at hlen
        rw [hidx, if_neg (by omega), List.length_reverse]
        omega
      · intro c hc
        obtain rfl : Cell.entry e = c := by simpa using hc
        rfl

/-! ## The cursor over the readable entries -/

/-- Before the place where a seek for `t` starts reading. -/
def limitBelow (t : Bytes) (c : Cell) : Bool := internalRank c.limit < internalRank t

/-- Cutting the places of a source at a target cuts its readable entries there. -/
theorem readable_cut {cs : List Cell} (h : KeySorted (fun c : Cell => internalRank c.limit) cs)
    (t : Bytes) : readable (cs.takeWhile (limitBelow t)) = (readable cs).takeWhile (below t) ∧
      readable (cs.dropWhile (limitBelow t)) = (readable cs).dropWhile (below t) := by
  induction cs with
  | nil => exact ⟨rfl, rfl⟩
  | cons c cs ih =>
    obtain ⟨ih1, ih2⟩ := ih h.tail
    by_cases hc : internalRank c.limit < internalRank t
    · cases c with
      | entry e =>
        have he : below t e = true := decide_eq_true hc
        simp [limitBelow, hc, he, ih1, ih2]
      | unreadable l lost code msg =>
        simpa [limitBelow, hc, readable, Cell.readable?] using ⟨ih1, ih2⟩
    · have hall : ∀ e ∈ (readable (c :: cs)).head?, below t e = false := by
        intro e he
        obtain ⟨d, hd, hde⟩ := List.mem_filterMap.mp (List.mem_of_mem_head? he)
        cases d with
        | unreadable => cases hde
        | entry e' =>
          obtain rfl := Option.some.inj hde
          have hle : internalRank c.limit ≤ internalRank (Cell.entry e').limit := h.le_of_mem hd
          have hlt : ¬ e'.rank < internalRank t := fun hlt => hc (hle.trans_lt hlt)
          rw [below, decide_eq_false hlt]
      rw [List.takeWhile_cons_of_neg (by simpa [limitBelow] using hc),
        List.dropWhile_cons_of_neg (by simpa [limitBelow] using hc)]
      cases hr : readable (c :: cs) with
      | nil => exact ⟨rfl, rfl⟩
      | cons e r =>
        have he := hall e (by rw [hr]; rfl)
        exact ⟨by simp [he], by simp [he]⟩

/-- The place where a seek for `t` starts reading. -/
theorem findIdx_limit (cs : List Cell) (t : Bytes) :
    cs.findIdx (fun c => ¬ internalKeyCompare c.limit t < 0)
      = (cs.takeWhile (limitBelow t)).length := by
  have hp : (fun c : Cell => decide ¬ internalKeyCompare c.limit t < 0)
      = fun c => !limitBelow t c := by
    funext c
    rw [limitBelow, decide_not, decide_eq_decide.mpr internalKeyCompare_neg_iff]
  rw [hp, List.takeWhile_eq_take_findIdx_not, List.length_take,
    min_eq_left List.findIdx_le_length]

/-- Where a seek for `t` leaves the iterator, and the status it leaves. -/
theorem seek_at (hs : it.source = src) (t : Bytes) :
    At src (it.seek t)
      (src.cells.takeWhile (limitBelow t) ++
        (src.cells.dropWhile (limitBelow t)).takeWhile Cell.isUnreadable)
      ((src.cells.dropWhile (limitBelow t)).dropWhile Cell.isUnreadable) ∧
    (it.seek t).status = saveErrors it.status
      ((src.cells.dropWhile (limitBelow t)).takeWhile Cell.isUnreadable) := by
  have hidx : it.seek t
      = it.settleForward (src.cells.takeWhile (limitBelow t)).length := by
    rw [seek, findIdx_limit, cells, hs]
  rw [hidx]
  exact settleForward_at hs List.takeWhile_append_dropWhile.symm

/-- Where moving forwards leaves the iterator, and the status it leaves. -/
theorem next_at {A B : List Cell} {c : Cell} (h : At src it A (c :: B)) :
    At src it.next (A ++ c :: B.takeWhile Cell.isUnreadable) (B.dropWhile Cell.isUnreadable) ∧
    it.next.status = saveErrors it.status (B.takeWhile Cell.isUnreadable) := by
  have hc : src.cells = (A ++ [c]) ++ B := by rw [h.cells]; simp
  have hidx : it.next = it.settleForward (A ++ [c]).length := by
    rw [next, h.index, List.length_append, List.length_singleton]
  obtain ⟨hat, hst⟩ := settleForward_at h.source hc
  rw [hidx]
  exact ⟨by simpa using hat, hst⟩

/-- What an iterator has in front of it when it moves forwards. -/
def rest (it : SourceIterator) : List Entry := readable (it.cells.drop it.index)

/-- What an iterator has in front of it when it moves backwards. -/
def back (it : SourceIterator) : List Entry :=
  if it.index < it.cells.length then (readable (it.cells.take (it.index + 1))).reverse else []

/-- The positions of an iterator over `src` that moved forwards. -/
def Fwd (src : Source) (it : SourceIterator) (pre post : List Entry) : Prop :=
  ∃ A B, At src it A B ∧ readable A = pre ∧ readable B = post

/-- The positions of an iterator over `src` that moved backwards. -/
def Bwd (src : Source) (it : SourceIterator) (r post : List Entry) : Prop :=
  (∃ A e B, At src it A (.entry e :: B) ∧ e :: (readable A).reverse = r ∧ readable B = post) ∨
    (AtEnd src it ∧ r = [] ∧ readable src.cells = post)

theorem Fwd.rest_eq {pre post : List Entry} (h : Fwd src it pre post) : it.rest = post := by
  obtain ⟨A, B, hat, -, rfl⟩ := h
  simp [rest, cells, hat.source, hat.cells, hat.index]

theorem Bwd.back_eq {r post : List Entry} (h : Bwd src it r post) : it.back = r := by
  rcases h with ⟨A, e, B, hat, rfl, -⟩ | ⟨hat, rfl, -⟩
  · have htake : it.cells.take (it.index + 1) = A ++ [.entry e] := by
      simp [cells, hat.source, hat.cells, hat.index, List.take_append]
    have hlt : it.index < it.cells.length := by
      simp [cells, hat.source, hat.cells, hat.index]
    rw [back, if_pos hlt, htake, readable_append]
    simp
  · rw [back, if_neg]
    simp [cells, hat.source, hat.index]

theorem settleForward_fwd {A B : List Cell} (hs : it.source = src) (hc : src.cells = A ++ B) :
    Fwd src (it.settleForward A.length) (readable A) (readable B) := by
  refine ⟨_, _, (settleForward_at hs hc).1, ?_, readable_dropWhile B⟩
  rw [readable_append, readable_takeWhile, List.append_nil]

theorem settleBackward_bwd {A B : List Cell} (hs : it.source = src) (hc : src.cells = A ++ B) :
    Bwd src (it.settleBackward A.length) (readable A).reverse (readable B) := by
  rcases settleBackward_at hs hc with ⟨A', e, U, rfl, hU, hat⟩ | ⟨hA, hat⟩
  · refine .inl ⟨A', e, U ++ B, hat, ?_, ?_⟩
    · simp [readable_append, hU]
    · rw [readable_append, hU, List.nil_append]
  · refine .inr ⟨hat, by rw [hA, List.reverse_nil], ?_⟩
    rw [hc, readable_append, hA, List.nil_append]

/-- **A source iterator is a cursor over the entries of its source that can be read.** -/
def cursor (src : Source) (h : src.Sorted) : Cursor SourceIterator (readable src.cells) where
  covers it := it.source = src
  fwd := Fwd src
  bwd := Bwd src
  covers_fwd := fun ⟨_, _, hat, _, _⟩ => hat.source
  covers_bwd := by
    rintro it r post (⟨_, _, _, hat, _, _⟩ | ⟨hat, _, _⟩)
    · exact hat.source
    · exact hat.source
  fwd_append := by
    rintro it pre post ⟨A, B, hat, rfl, rfl⟩
    rw [hat.cells, readable_append]
  bwd_append := by
    rintro it r post (⟨A, e, B, hat, rfl, rfl⟩ | ⟨_, rfl, rfl⟩)
    · simp [hat.cells, readable_append]
    · rfl
  fwd_nil := by
    rintro it pre ⟨A, B, hat, rfl, hB⟩
    obtain rfl := hat.nil_of_readable hB
    exact hat.valid_eq_false
  fwd_cons := by
    rintro it pre e post ⟨A, B, hat, rfl, hB⟩
    obtain ⟨B', rfl, -⟩ := hat.exists_of_readable hB
    exact hat.entry
  bwd_nil := by
    rintro it post (⟨A, e, B, hat, h, _⟩ | ⟨hat, _, _⟩)
    · cases h
    · simp [Iterator.valid, valid, cells, hat.source, hat.index]
  bwd_cons := by
    rintro it e r post (⟨A, e', B, hat, h, _⟩ | ⟨_, h, _⟩)
    · obtain ⟨rfl, rfl⟩ := List.cons.inj h
      exact hat.entry
    · cases h
  seekToFirst_fwd := fun hs => settleForward_fwd (A := []) hs rfl
  seekToLast_bwd := by
    intro it hs
    have hb := settleBackward_bwd (A := src.cells) (B := []) hs (List.append_nil _).symm
    simpa only [Iterator.seekToLast, seekToLast, cells, hs, readable_nil] using hb
  seek_fwd := by
    intro it hs t
    obtain ⟨h1, h2⟩ := readable_cut h.limits t
    refine ⟨_, _, (seek_at hs t).1, ?_, ?_⟩
    · rw [readable_append, readable_takeWhile, List.append_nil, h1]
    · rw [readable_dropWhile, h2]
  next_fwd := by
    rintro it pre e post ⟨A, B, hat, rfl, hB⟩
    obtain ⟨B', rfl, rfl⟩ := hat.exists_of_readable hB
    refine ⟨_, _, (next_at hat).1, ?_, readable_dropWhile B'⟩
    rw [readable_append, readable_cons_entry, readable_takeWhile]
  next_bwd := by
    rintro it e r post (⟨A, e', B, hat, h, rfl⟩ | ⟨_, h, _⟩)
    · refine ⟨_, _, (next_at hat).1, ?_, readable_dropWhile B⟩
      rw [← h, readable_append, readable_cons_entry, readable_takeWhile]
      simp
    · cases h
  prev_fwd := by
    rintro it pre e post ⟨A, B, hat, rfl, hB⟩
    have hb := settleBackward_bwd hat.source hat.cells
    rw [← hat.index, hB] at hb
    exact hb
  prev_bwd := by
    rintro it e r post (⟨A, e', B, hat, h, rfl⟩ | ⟨_, h, _⟩)
    · obtain ⟨rfl, rfl⟩ := List.cons.inj h
      have hb := settleBackward_bwd hat.source hat.cells
      rw [← hat.index] at hb
      exact hb
    · cases h

/-! ## What the status of a lookup says -/

/-- `it` has moved forwards since a seek for `t`, past the places `passed`, and its status tells
whether all of them could be read. -/
structure Trail (src : Source) (t : Bytes) (it : SourceIterator) (passed rest : List Cell) :
    Prop where
  at_rest : ∃ A, At src it A rest
  places : src.cells.dropWhile (limitBelow t) = passed ++ rest
  ok_iff : it.status.ok = (src.opened.ok && passed.all fun c => !c.isUnreadable)

theorem trail_seek (hs : it.source = src) (ho : it.status = src.opened) (t : Bytes) :
    ∃ passed rest, Trail src t (it.seek t) passed rest ∧ readable passed = [] := by
  obtain ⟨hat, hst⟩ := seek_at hs t
  exact ⟨_, _, ⟨⟨_, hat⟩, List.takeWhile_append_dropWhile.symm,
    by rw [hst, ok_saveErrors, ho]⟩, readable_takeWhile _⟩

theorem Trail.next {t : Bytes} {passed rest : List Cell} {e : Entry}
    (h : Trail src t it passed (.entry e :: rest)) :
    ∃ passed' rest', Trail src t it.next passed' rest' ∧
      readable passed' = readable passed ++ [e] := by
  obtain ⟨A, hat⟩ := h.at_rest
  obtain ⟨hat', hst⟩ := next_at hat
  refine ⟨passed ++ .entry e :: rest.takeWhile Cell.isUnreadable,
    rest.dropWhile Cell.isUnreadable, ⟨⟨_, hat'⟩, ?_, ?_⟩, ?_⟩
  · rw [h.places, List.append_assoc, List.cons_append, List.takeWhile_append_dropWhile]
  · rw [hst, ok_saveErrors, h.ok_iff]
    simp [Cell.isUnreadable, Bool.and_assoc]
  · rw [readable_append, readable_cons_entry, readable_takeWhile]

end SourceIterator

end Leveldb
