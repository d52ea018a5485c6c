import AndroidLevelDB.Leveldb.Iterator

/-!
# Leveldb/Merger — the merge of the sources

`MergingIterator` keeps one iterator for each source and stands at the one with the least key when
it moves forwards, at the one with the largest when it moves backwards; a change of direction moves
all the others first.  It is a cursor over the merge of what the sources let it read
(`MergingIterator.cursor`).
-/

namespace Leveldb

inductive Direction
  | kForward
  | kReverse
deriving DecidableEq

structure MergingIterator where
  children : List SourceIterator
  current : Option ℕ
  direction : Direction
deriving DecidableEq

namespace MergingIterator

/-- One round of the loops of `FindSmallest` and `FindLargest`: a valid child takes the place if
nothing is there or if its key beats the key there. -/
def pick (beats : Bytes → Bytes → Bool) (best : Option (SourceIterator × ℕ))
    (child : SourceIterator × ℕ) : Option (SourceIterator × ℕ) :=
  if child.1.valid then
    match best with
    | none => some child
    | some b => if beats child.1.key b.1.key then some child else best
  else best

/-- `FindSmallest`. -/
def findSmallest (it : MergingIterator) : MergingIterator :=
  { it with
    current := (it.children.zipIdx.foldl
      (pick fun k smallest => internalKeyCompare k smallest < 0) none).map Prod.snd }

/-- `FindLargest`: the same from the last child to the first. -/
def findLargest (it : MergingIterator) : MergingIterator :=
  { it with
    current := (it.children.zipIdx.reverse.foldl
      (pick fun k largest => internalKeyCompare k largest > 0) none).map Prod.snd }

def valid (it : MergingIterator) : Bool := it.current.isSome

/-- The child it stands at. -/
def child? (it : MergingIterator) : Option SourceIterator :=
  it.current.bind fun i => it.children[i]?

def key (it : MergingIterator) : Bytes := (it.child?.map SourceIterator.key).getD []

def value (it : MergingIterator) : Bytes := (it.child?.map SourceIterator.value).getD []

/-- The status of the first child that has an error. -/
def status (it : MergingIterator) : Status :=
  ((it.children.find? fun c => !c.status.ok).map SourceIterator.status).getD .OK

def seekToFirst (it : MergingIterator) : MergingIterator :=
  { findSmallest { it with children := it.children.map SourceIterator.seekToFirst } with
    direction := .kForward }

def seekToLast (it : MergingIterator) : MergingIterator :=
  { findLargest { it with children := it.children.map SourceIterator.seekToLast } with
    direction := .kReverse }

def seek (it : MergingIterator) (target : Bytes) : MergingIterator :=
  { findSmallest { it with children := it.children.map (SourceIterator.seek · target) } with
    direction := .kForward }

/-- Move the children other than the current one. -/
def moveOthers (it : MergingIterator) (f : SourceIterator → SourceIterator) : MergingIterator :=
  { it with children := it.children.mapIdx fun i c => if it.current = some i then c else f c }

/-- Move the current child. -/
def moveCurrent (it : MergingIterator) (f : SourceIterator → SourceIterator) : MergingIterator :=
  { it with children := it.children.mapIdx fun i c => if it.current = some i then f c else c }

/-- Position a child after `k`. -/
def positionAfter (k : Bytes) (child : SourceIterator) : SourceIterator :=
  let child := child.seek k
  if child.valid && internalKeyCompare k child.key = 0 then child.next else child

/-- Position a child before `k`. -/
def positionBefore (k : Bytes) (child : SourceIterator) : SourceIterator :=
  let child := child.seek k
  if child.valid then child.prev else child.seekToLast

def next (it : MergingIterator) : MergingIterator :=
  let it :=
    if it.direction = .kForward then it
    else { it.moveOthers (positionAfter it.key) with direction := .kForward }
  (it.moveCurrent SourceIterator.next).findSmallest

def prev (it : MergingIterator) : MergingIterator :=
  let it :=
    if it.direction = .kReverse then it
    else { it.moveOthers (positionBefore it.key) with direction := .kReverse }
  (it.moveCurrent SourceIterator.prev).findLargest

instance : Iterator MergingIterator :=
  ⟨valid, seekToFirst, seekToLast, seek, next, prev, key, value, status⟩

/-! ## The child that is picked -/

/-- `current` is a valid child whose key is least in the order `g`, or no child is valid. -/
def Picks {κ : Type*} [LinearOrder κ] (g : Bytes → κ) (it : MergingIterator) : Prop :=
  match it.current with
  | none => ∀ c ∈ it.children, c.valid = false
  | some i => ∃ c, it.children[i]? = some c ∧ c.valid = true ∧
      ∀ d ∈ it.children, d.valid = true → g c.key ≤ g d.key

variable {κ : Type*} [LinearOrder κ] {g : Bytes → κ} {beats : Bytes → Bytes → Bool}

/-- The loops leave a valid child with the least key among those they have seen. -/
theorem foldl_pick (hb : ∀ k k', beats k k' = true ↔ g k < g k')
    (l : List (SourceIterator × ℕ)) :
    match l.foldl (pick beats) none with
    | none => ∀ c ∈ l, c.1.valid = false
    | some b => b ∈ l ∧ b.1.valid = true ∧ ∀ c ∈ l, c.1.valid = true → g b.1.key ≤ g c.1.key := by
  induction l using List.reverseRecOn with
  | nil => simp
  | append_singleton l x ih =>
    rw [List.foldl_append, List.foldl_cons, List.foldl_nil]
    cases hl : l.foldl (pick beats) none with
    | none =>
      rw [hl] at ih
      by_cases hx : x.1.valid = true
      · simp only [pick, hx, if_true]
        refine ⟨by simp, trivial, fun c hc hv => ?_⟩
        rcases List.mem_append.mp hc with hc | hc
        · exact absurd hv (by simp [ih c hc])
        · obtain rfl := List.mem_singleton.mp hc
          exact le_rfl
      · simp only [pick, hx]
        intro c hc
        rcases List.mem_append.mp hc with hc | hc
        · exact ih c hc
        · obtain rfl := List.mem_singleton.mp hc
          simpa using hx
    | some b =>
      rw [hl] at ih
      obtain ⟨hbl, hbv, hmin⟩ := ih
      have hold : ¬ (x.1.valid = true ∧ g x.1.key < g b.1.key) →
          b ∈ l ++ [x] ∧ b.1.valid = true ∧
            ∀ c ∈ l ++ [x], c.1.valid = true → g b.1.key ≤ g c.1.key := by
        intro hx
        refine ⟨List.mem_append_left _ hbl, hbv, fun c hc hv => ?_⟩
        rcases List.mem_append.mp hc with hc | hc
        · exact hmin c hc hv
        · obtain rfl := List.mem_singleton.mp hc
          exact not_lt.mp fun hlt => hx ⟨hv, hlt⟩
      by_cases hx : x.1.valid = true
      · by_cases hlt : g x.1.key < g b.1.key
        · simp only [pick, hx, if_true, (hb _ _).mpr hlt]
          refine ⟨by simp, trivial, fun c hc hv => ?_⟩
          rcases List.mem_append.mp hc with hc | hc
          · exact hlt.le.trans (hmin c hc hv)
          · obtain rfl := List.mem_singleton.mp hc
            exact le_rfl
        · simp only [pick, hx, if_true, mt (hb _ _).mp hlt]
          exact hold fun h => hlt h.2
      · simp only [pick, hx]
        exact hold fun h => hx h.1

theorem picks_of_foldl (hb : ∀ k k', beats k k' = true ↔ g k < g k') {it : MergingIterator}
    {l : List (SourceIterator × ℕ)} (hl : ∀ x, x ∈ l ↔ x ∈ it.children.zipIdx)
    (hc : it.current = (l.foldl (pick beats) none).map Prod.snd) : it.Picks g := by
  have hmem : ∀ {c : SourceIterator}, c ∈ it.children → ∃ i, (c, i) ∈ l := by
    intro c hc
    obtain ⟨i, hi⟩ := List.mem_iff_getElem?.mp hc
    exact ⟨i, (hl _).mpr (List.mem_zipIdx_iff_getElem?.mpr hi)⟩
  have hspec := foldl_pick hb l
  unfold Picks
  rw [hc]
  cases hf : l.foldl (pick beats) none with
  | none =>
    rw [hf] at hspec
    intro c hc
    obtain ⟨i, hi⟩ := hmem hc
    exact hspec _ hi
  | some b =>
    rw [hf] at hspec
    obtain ⟨hbl, hbv, hmin⟩ := hspec
    refine ⟨b.1, List.mem_zipIdx_iff_getElem?.mp ((hl _).mp hbl), hbv, fun d hd hv => ?_⟩
    obtain ⟨i, hi⟩ := hmem hd
    exact hmin _ hi hv

theorem picks_findSmallest (it : MergingIterator) : it.findSmallest.Picks internalRank :=
  picks_of_foldl (fun _ _ => by rw [decide_eq_true_iff, internalKeyCompare_neg_iff])
    (fun _ => Iff.rfl) rfl

theorem picks_findLargest (it : MergingIterator) :
    it.findLargest.Picks fun k => OrderDual.toDual (internalRank k) :=
  picks_of_foldl
    (fun _ _ => by rw [decide_eq_true_iff, gt_iff_lt, internalKeyCompare_pos_iff,
      OrderDual.toDual_lt_toDual])
    (fun _ => List.mem_reverse) rfl

/-! ## The cursor over the merge -/

/-- `c` shows the head of `l`. -/
def Shows (c : SourceIterator) (l : List Entry) : Prop :=
  match l with
  | [] => c.valid = false
  | e :: _ => c.valid = true ∧ c.key = e.key ∧ c.value = e.value

/-- **The child that is picked shows the head of the merge**, and popping it pops the merge. -/
theorem Picks.head {it : MergingIterator} {front : SourceIterator → List Entry} {l : List Entry}
    (hp : it.Picks g) (hf : ∀ c ∈ it.children, Shows c (front c))
    (hs : ∀ c ∈ it.children, KeySorted (fun e : Entry => g e.key) (front c))
    (hm : Merged (fun e : Entry => g e.key) (it.children.map front) l) :
    (l = [] ∧ it.current = none) ∨
      ∃ e t i c r, l = e :: t ∧ it.current = some i ∧ it.children[i]? = some c ∧
        front c = e :: r ∧ c.key = e.key ∧ c.value = e.value ∧
        Merged (fun e : Entry => g e.key) ((it.children.map front).set i r) t := by
  unfold Picks at hp
  cases hc : it.current with
  | none =>
    rw [hc] at hp
    have hnil : l = [] := by
      refine hm.eq_nil_iff.mpr fun x hx => ?_
      obtain ⟨c, hcm, rfl⟩ := List.mem_map.mp hx
      have hsh := hf c hcm
      cases hfc : front c with
      | nil => rfl
      | cons e r =>
        rw [hfc] at hsh
        exact absurd (hp c hcm) (by simp [hsh.1])
    exact .inl ⟨hnil, rfl⟩
  | some i =>
    rw [hc] at hp
    obtain ⟨c, hi, hv, hmin⟩ := hp
    have hcm : c ∈ it.children := List.mem_of_getElem? hi
    have hsh := hf c hcm
    cases hfc : front c with
    | nil =>
      rw [hfc] at hsh
      exact absurd (show c.valid = false from hsh) (by simp [hv])
    | cons e r =>
      rw [hfc] at hsh
      obtain ⟨-, hk, hval⟩ := hsh
      have hget : (it.children.map front)[i]? = some (e :: r) := by
        rw [List.getElem?_map, hi, Option.map_some, hfc]
      obtain ⟨t, rfl, ht⟩ := hm.pop (fun x hx => by
          obtain ⟨d, hd, rfl⟩ := List.mem_map.mp hx
          exact hs d hd) hget (fun x hx b hb => by
          obtain ⟨d, hd, rfl⟩ := List.mem_map.mp hx
          have hshd := hf d hd
          cases hfd : front d with
          | nil =>
            rw [hfd] at hb
            cases hb
          | cons b' r' =>
            rw [hfd] at hb hshd
            obtain rfl := Option.some.inj hb
            rw [← hk, ← hshd.2.1]
            exact hmin d hd hshd.1)
      exact .inr ⟨e, t, i, c, r, rfl, rfl, hi, hfc, hk, hval, ht⟩

/-- The positions of the merge when it moved forwards. -/
structure Fwd (sources : List Source) (L : List Entry) (it : MergingIterator)
    (pre post : List Entry) : Prop where
  direction : it.direction = .kForward
  sources : it.children.map SourceIterator.source = sources
  children : ∀ c ∈ it.children, ∃ p, SourceIterator.Fwd c.source c p c.rest
  append : pre ++ post = L
  merged : Merged Entry.rank (it.children.map SourceIterator.rest) post
  picks : it.Picks internalRank

/-- The positions of the merge when it moved backwards. -/
structure Bwd (sources : List Source) (L : List Entry) (it : MergingIterator)
    (r post : List Entry) : Prop where
  direction : it.direction = .kReverse
  sources : it.children.map SourceIterator.source = sources
  children : ∀ c ∈ it.children, ∃ q, SourceIterator.Bwd c.source c c.back q
  append : r.reverse ++ post = L
  merged : Merged (fun e : Entry => OrderDual.toDual e.rank)
    (it.children.map SourceIterator.back) r
  picks : it.Picks fun k => OrderDual.toDual (internalRank k)

variable {sources : List Source} {L : List Entry} {it : MergingIterator}

theorem shows_of_fwd {src : Source} {c : SourceIterator} {pre post : List Entry}
    (hs : src.Sorted) (h : SourceIterator.Fwd src c pre post) : Shows c post := by
  cases post with
  | nil => exact (SourceIterator.cursor src hs).fwd_nil h
  | cons e post => exact (SourceIterator.cursor src hs).fwd_cons h

theorem shows_of_bwd {src : Source} {c : SourceIterator} {r post : List Entry}
    (hs : src.Sorted) (h : SourceIterator.Bwd src c r post) : Shows c r := by
  cases r with
  | nil => exact (SourceIterator.cursor src hs).bwd_nil h
  | cons e r => exact (SourceIterator.cursor src hs).bwd_cons h

/-- `new` arises from `old` by moving the child at each place `i` with `f i`. -/
def Moved (f : ℕ → SourceIterator → SourceIterator) (old new : List SourceIterator) : Prop :=
  ∀ i, new[i]? = old[i]?.map (f i)

theorem Moved.exists_of_mem {f : ℕ → SourceIterator → SourceIterator}
    {old new : List SourceIterator} (h : Moved f old new) {d : SourceIterator} (hd : d ∈ new) :
    ∃ i c, old[i]? = some c ∧ d = f i c := by
  obtain ⟨i, hi⟩ := List.mem_iff_getElem?.mp hd
  rw [h i] at hi
  obtain ⟨c, hc, rfl⟩ := Option.map_eq_some_iff.mp hi
  exact ⟨i, c, hc, rfl⟩

theorem Moved.map_eq {f : ℕ → SourceIterator → SourceIterator} {α : Type*}
    {old new : List SourceIterator} (h : Moved f old new) {u v : SourceIterator → α}
    (huv : ∀ i c, old[i]? = some c → u (f i c) = v c) : new.map u = old.map v := by
  refine List.ext_getElem? fun i => ?_
  rw [List.getElem?_map, List.getElem?_map, h i]
  cases hc : old[i]? with
  | none => rfl
  | some c => rw [Option.map_some, Option.map_some, Option.map_some, huv i c hc]

theorem moved_map (f : SourceIterator → SourceIterator) (l : List SourceIterator) :
    Moved (fun _ => f) l (l.map f) := fun _ => List.getElem?_map

theorem moved_moveCurrent (f : SourceIterator → SourceIterator) :
    Moved (fun i c => if it.current = some i then f c else c) it.children
      (it.moveCurrent f).children := fun _ => List.getElem?_mapIdx

/-- Moving the other children with `f` and then the current one with `f'`. -/
theorem moved_moveOthers (f f' : SourceIterator → SourceIterator) (d : Direction) :
    Moved (fun i c => if it.current = some i then f' c else f c) it.children
      (moveCurrent { it.moveOthers f with direction := d } f').children := by
  intro i
  simp only [moveCurrent, moveOthers, List.getElem?_mapIdx, Option.map_map]
  cases it.children[i]? with
  | none => rfl
  | some c => by_cases h : it.current = some i <;> simp [h]

/-- Moving every child to what it can read of `p` moves the merge there. -/
theorem fwd_of_moved {f : ℕ → SourceIterator → SourceIterator} {p : Entry → Bool}
    {pre : List Entry} {new : MergingIterator}
    (hm : Merged Entry.rank (sources.map fun s => readable s.cells) L)
    (hsrc : it.children.map SourceIterator.source = sources)
    (hmv : Moved f it.children new.children)
    (hf : ∀ i c, it.children[i]? = some c →
      ∃ q, SourceIterator.Fwd c.source (f i c) q ((readable c.source.cells).filter p))
    (hdir : new.direction = .kForward) (hp : new.Picks internalRank)
    (hL : pre ++ L.filter p = L) : Fwd sources L new pre (L.filter p) := by
  have hsource : ∀ i c, it.children[i]? = some c → (f i c).source = c.source := by
    intro i c hc
    obtain ⟨q, A, B, hat, -⟩ := hf i c hc
    exact hat.source
  refine ⟨hdir, (hmv.map_eq hsource).trans hsrc, fun d hd => ?_, hL, ?_, hp⟩
  · obtain ⟨i, c, hc, rfl⟩ := hmv.exists_of_mem hd
    obtain ⟨q, hq⟩ := hf i c hc
    rw [hsource i c hc]
    exact ⟨q, hq.rest_eq.symm ▸ hq⟩
  · rw [hmv.map_eq (v := fun c => (readable c.source.cells).filter p) fun i c hc => by
      obtain ⟨q, hq⟩ := hf i c hc
      exact hq.rest_eq]
    have := hm.filter p
    rwa [← hsrc, List.map_map, List.map_map] at this

theorem bwd_of_moved {f : ℕ → SourceIterator → SourceIterator} {p : Entry → Bool}
    {post : List Entry} {new : MergingIterator}
    (hm : Merged Entry.rank (sources.map fun s => readable s.cells) L)
    (hsrc : it.children.map SourceIterator.source = sources)
    (hmv : Moved f it.children new.children)
    (hf : ∀ i c, it.children[i]? = some c →
      ∃ q, SourceIterator.Bwd c.source (f i c) ((readable c.source.cells).filter p).reverse q)
    (hdir : new.direction = .kReverse)
    (hp : new.Picks fun k => OrderDual.toDual (internalRank k))
    (hL : L.filter p ++ post = L) : Bwd sources L new (L.filter p).reverse post := by
  have hsource : ∀ i c, it.children[i]? = some c → (f i c).source = c.source := by
    intro i c hc
    obtain ⟨q, ⟨_, _, _, hat, _⟩ | ⟨hat, _⟩⟩ := hf i c hc
    · exact hat.source
    · exact hat.source
  refine ⟨hdir, (hmv.map_eq hsource).trans hsrc, fun d hd => ?_,
    by rw [List.reverse_reverse]; exact hL, ?_, hp⟩
  · obtain ⟨i, c, hc, rfl⟩ := hmv.exists_of_mem hd
    obtain ⟨q, hq⟩ := hf i c hc
    rw [hsource i c hc]
    exact ⟨q, hq.back_eq.symm ▸ hq⟩
  · rw [hmv.map_eq (v := fun c => ((readable c.source.cells).filter p).reverse) fun i c hc => by
      obtain ⟨q, hq⟩ := hf i c hc
      exact hq.back_eq]
    have := (hm.filter p).reverse
    rwa [← hsrc, List.map_map, List.map_map, List.map_map] at this

/-! ### Moving one child -/

theorem source_seek {src : Source} (hs : src.Sorted) {c : SourceIterator} (hc : c.source = src)
    (t : Bytes) : SourceIterator.Fwd src (c.seek t)
      ((readable src.cells).filter fun e => e.rank < internalRank t)
      ((readable src.cells).filter fun e => ¬ e.rank < internalRank t) := by
  have h := (SourceIterator.cursor src hs).seek_fwd hc t
  rwa [(cut_eq_filter hs.readable t).1, (cut_eq_filter hs.readable t).2] at h

/-- A child positioned after `k` reads what is above `k`. -/
theorem positionAfter_fwd {src : Source} (hs : src.Sorted) {c : SourceIterator}
    (hc : c.source = src) (k : Bytes) : ∃ q, SourceIterator.Fwd src (positionAfter k c) q
      ((readable src.cells).filter fun e => internalRank k < e.rank) := by
  have hq := source_seek hs hc k
  have hsh := shows_of_fwd hs hq
  have hsub : (readable src.cells).filter (fun e => internalRank k < e.rank)
      = ((readable src.cells).filter fun e => ¬ e.rank < internalRank k).filter
        fun e => internalRank k < e.rank := by
    rw [List.filter_filter]
    refine List.filter_congr fun e _ => ?_
    by_cases h : internalRank k < e.rank
    · simp [h, h.le]
    · simp [h]
  rw [hsub]
  cases hrest : (readable src.cells).filter fun e => ¬ e.rank < internalRank k with
  | nil =>
    rw [hrest] at hq hsh
    have hv : (c.seek k).valid = false := hsh
    rw [positionAfter, hv]
    exact ⟨_, hq⟩
  | cons e r =>
    rw [hrest] at hq hsh
    obtain ⟨hv, hk, -⟩ := hsh
    have hsorted : KeySorted Entry.rank (e :: r) :=
      hrest ▸ hs.readable.sublist List.filter_sublist
    have hle : ¬ e.rank < internalRank k := by
      have he : e ∈ (readable src.cells).filter fun e => ¬ e.rank < internalRank k :=
        hrest ▸ List.mem_cons_self
      simpa using (List.mem_filter.mp he).2
    by_cases heq : internalKeyCompare k (c.seek k).key = 0
    · have hek : internalRank k = e.rank := by
        rw [internalKeyCompare_eq_zero_iff, hk] at heq
        exact heq
      have hr : (e :: r).filter (fun e => internalRank k < e.rank) = r := by
        rw [List.filter_cons_of_neg (by simp [hek]), List.filter_eq_self.mpr fun b hb => by
          simpa [hek] using hsorted.lt_of_mem hb]
      rw [hr, positionAfter]
      simp only [hv, heq, Bool.true_and, decide_true, if_true]
      exact ⟨_, (SourceIterator.cursor src hs).next_fwd hq⟩
    · have hlt : internalRank k < e.rank := by
        refine lt_of_le_of_ne (not_lt.mp hle) fun h => heq ?_
        rw [internalKeyCompare_eq_zero_iff, hk]
        exact h
      have hr : (e :: r).filter (fun e => internalRank k < e.rank) = e :: r :=
        List.filter_eq_self.mpr fun b hb => by
          simpa using hlt.trans_le (hsorted.le_of_mem hb)
      rw [hr, positionAfter]
      simp only [heq, decide_false, Bool.and_false, Bool.false_eq_true, if_false]
      exact ⟨_, hq⟩

/-- A child positioned before `k` reads backwards what is below `k`. -/
theorem positionBefore_bwd {src : Source} (hs : src.Sorted) {c : SourceIterator}
    (hc : c.source = src) (k : Bytes) : ∃ q, SourceIterator.Bwd src (positionBefore k c)
      ((readable src.cells).filter fun e => e.rank < internalRank k).reverse q := by
  have hq := source_seek hs hc k
  have hover : (c.seek k).source = src := (SourceIterator.cursor src hs).covers_fwd hq
  have happ := (SourceIterator.cursor src hs).fwd_append hq
  have hsh := shows_of_fwd hs hq
  cases hrest : (readable src.cells).filter fun e => ¬ e.rank < internalRank k with
  | nil =>
    rw [hrest] at hsh happ
    have hv : (c.seek k).valid = false := hsh
    rw [List.append_nil] at happ
    rw [positionBefore, hv, happ]
    exact ⟨_, (SourceIterator.cursor src hs).seekToLast_bwd hover⟩
  | cons e r =>
    rw [hrest] at hq hsh
    rw [positionBefore, hsh.1]
    exact ⟨_, (SourceIterator.cursor src hs).prev_fwd hq⟩

/-! ### The laws -/

section Laws

variable (hs : ∀ src ∈ sources, src.Sorted)
  (hm : Merged Entry.rank (sources.map fun s => readable s.cells) L)
include hs

theorem sorted_of_mem (hsrc : it.children.map SourceIterator.source = sources)
    {c : SourceIterator} (hc : c ∈ it.children) : c.source.Sorted :=
  hs _ (hsrc ▸ List.mem_map_of_mem hc)

/-- What the merge shows when it moved forwards, and which child it stands at. -/
theorem Fwd.head {pre post : List Entry} (h : Fwd sources L it pre post) :
    (post = [] ∧ it.current = none) ∨
      ∃ e t i c r, post = e :: t ∧ it.current = some i ∧ it.children[i]? = some c ∧
        c.rest = e :: r ∧ c.key = e.key ∧ c.value = e.value ∧
        Merged Entry.rank ((it.children.map SourceIterator.rest).set i r) t := by
  refine h.picks.head (fun c hc => ?_) (fun c hc => ?_) h.merged
  · obtain ⟨p, hp⟩ := h.children c hc
    exact shows_of_fwd (sorted_of_mem hs h.sources hc) hp
  · obtain ⟨p, hp⟩ := h.children c hc
    have hcs := sorted_of_mem hs h.sources hc
    have happ := (SourceIterator.cursor _ hcs).fwd_append hp
    exact hcs.readable.sublist (happ ▸ List.sublist_append_right p c.rest)

/-- What the merge shows when it moved backwards, and which child it stands at. -/
theorem Bwd.head {r post : List Entry} (h : Bwd sources L it r post) :
    (r = [] ∧ it.current = none) ∨
      ∃ e t i c b, r = e :: t ∧ it.current = some i ∧ it.children[i]? = some c ∧
        c.back = e :: b ∧ c.key = e.key ∧ c.value = e.value ∧
        Merged (fun e : Entry => OrderDual.toDual e.rank)
          ((it.children.map SourceIterator.back).set i b) t := by
  refine h.picks.head (fun c hc => ?_) (fun c hc => ?_) h.merged
  · obtain ⟨q, hq⟩ := h.children c hc
    exact shows_of_bwd (sorted_of_mem hs h.sources hc) hq
  · obtain ⟨q, hq⟩ := h.children c hc
    have hcs := sorted_of_mem hs h.sources hc
    have happ := (SourceIterator.cursor _ hcs).bwd_append hq
    have hback : KeySorted Entry.rank c.back.reverse :=
      hcs.readable.sublist (happ ▸ List.sublist_append_left _ q)
    exact List.pairwise_reverse.mp hback

omit hs in
theorem shows_current {i : ℕ} {c : SourceIterator} (hi : it.current = some i)
    (hc : it.children[i]? = some c) : it.valid = true ∧ it.key = c.key ∧ it.value = c.value := by
  simp [valid, key, value, child?, hi, hc]

omit hs in
/-- Moving the current child changes what that child has in front of it. -/
theorem map_moveCurrent (f : SourceIterator → SourceIterator)
    (front : SourceIterator → List Entry) {i : ℕ} {c : SourceIterator}
    (hi : it.current = some i) (hc : it.children[i]? = some c) :
    (it.moveCurrent f).children.map front = (it.children.map front).set i (front (f c)) := by
  refine List.ext_getElem? fun j => ?_
  rw [List.getElem?_map, moved_moveCurrent f j, List.getElem?_set, List.getElem?_map]
  by_cases hij : i = j
  · subst hij
    obtain ⟨hlt, rfl⟩ := List.getElem?_eq_some_iff.mp hc
    simp [hi, hlt]
  · have hne : ¬ it.current = some j := fun h => hij (Option.some.inj (hi.symm.trans h))
    cases it.children[j]? with
    | none => simp [hij]
    | some d => simp [hij, hne]

omit hs in
theorem mem_moveCurrent {f : SourceIterator → SourceIterator} {i : ℕ} {c d : SourceIterator}
    (hi : it.current = some i) (hc : it.children[i]? = some c)
    (hd : d ∈ (it.moveCurrent f).children) : d = f c ∨ d ∈ it.children := by
  obtain ⟨j, d, hj, rfl⟩ := (moved_moveCurrent f).exists_of_mem hd
  split
  · next hcur =>
    obtain rfl := Option.some.inj (hi.symm.trans hcur)
    obtain rfl := Option.some.inj (hc.symm.trans hj)
    exact .inl rfl
  · exact .inr (List.mem_of_getElem? hj)

omit hs in
theorem source_moveCurrent (it : MergingIterator) (f : SourceIterator → SourceIterator)
    (hf : ∀ c ∈ it.children, (f c).source = c.source) :
    (it.moveCurrent f).children.map SourceIterator.source
      = it.children.map SourceIterator.source := by
  refine (moved_moveCurrent f).map_eq fun j d hd => ?_
  split
  · exact hf d (List.mem_of_getElem? hd)
  · rfl

theorem Fwd.next_fwd {pre post : List Entry} {e : Entry} (h : Fwd sources L it pre (e :: post)) :
    Fwd sources L it.next (pre ++ [e]) post := by
  rcases h.head hs with ⟨hnil, -⟩ | ⟨_, _, i, c, r, heq, hi, hc, hr, -, -, hmr⟩
  · cases hnil
  obtain ⟨rfl, rfl⟩ := List.cons.inj heq
  have hcm := List.mem_of_getElem? hc
  obtain ⟨p, hp⟩ := h.children c hcm
  rw [hr] at hp
  have hcn := (SourceIterator.cursor _ (sorted_of_mem hs h.sources hcm)).next_fwd hp
  have hnext : it.next = (it.moveCurrent SourceIterator.next).findSmallest := by
    rw [next, if_pos h.direction]
  rw [hnext]
  have hsrc := source_moveCurrent it SourceIterator.next fun _ _ => rfl
  refine ⟨h.direction, hsrc.trans h.sources, fun d hd => ?_, ?_, ?_, picks_findSmallest _⟩
  · rcases mem_moveCurrent hi hc hd with rfl | hd
    · exact ⟨_, hcn.rest_eq.symm ▸ hcn⟩
    · exact h.children d hd
  · rw [List.append_assoc]
    exact h.append
  · have hmap := map_moveCurrent SourceIterator.next SourceIterator.rest hi hc
    rw [show c.next.rest = r from hcn.rest_eq] at hmap
    exact hmap ▸ hmr

theorem Bwd.prev_bwd {r post : List Entry} {e : Entry} (h : Bwd sources L it (e :: r) post) :
    Bwd sources L it.prev r (e :: post) := by
  rcases h.head hs with ⟨hnil, -⟩ | ⟨_, _, i, c, b, heq, hi, hc, hb, -, -, hmr⟩
  · cases hnil
  obtain ⟨rfl, rfl⟩ := List.cons.inj heq
  have hcm := List.mem_of_getElem? hc
  obtain ⟨q, hq⟩ := h.children c hcm
  rw [hb] at hq
  have hcn := (SourceIterator.cursor _ (sorted_of_mem hs h.sources hcm)).prev_bwd hq
  have hprev : it.prev = (it.moveCurrent SourceIterator.prev).findLargest := by
    rw [prev, if_pos h.direction]
  rw [hprev]
  have hsrc := source_moveCurrent it SourceIterator.prev fun _ _ => rfl
  refine ⟨h.direction, hsrc.trans h.sources, fun d hd => ?_, ?_, ?_, picks_findLargest _⟩
  · rcases mem_moveCurrent hi hc hd with rfl | hd
    · exact ⟨_, hcn.back_eq.symm ▸ hcn⟩
    · exact h.children d hd
  · have happ := h.append
    rw [List.reverse_cons, List.append_assoc] at happ
    exact happ
  · have hmap := map_moveCurrent SourceIterator.prev SourceIterator.back hi hc
    rw [show c.prev.back = b from hcn.back_eq] at hmap
    exact hmap ▸ hmr

include hm

theorem Bwd.next_bwd {r post : List Entry} {e : Entry} (h : Bwd sources L it (e :: r) post) :
    Fwd sources L it.next (e :: r).reverse post := by
  rcases h.head hs with ⟨hnil, -⟩ | ⟨_, _, i, c, b, heq, hi, hc, hb, hk, -, -⟩
  · cases hnil
  obtain ⟨rfl, rfl⟩ := List.cons.inj heq
  have happ : r.reverse ++ e :: post = L := by
    have happ := h.append
    rwa [List.reverse_cons, List.append_assoc] at happ
  have hkey : it.key = e.key := ((shows_current hi hc).2.1).trans hk
  have hpost : L.filter (fun x => internalRank it.key < x.rank) = post := by
    have hL := hm.sorted
    rw [← happ] at hL ⊢
    rw [hkey]
    exact hL.filter_split.2
  have hne : ¬ it.direction = .kForward := by rw [h.direction]; decide
  have hnext : it.next = (moveCurrent { it.moveOthers (positionAfter it.key) with
      direction := .kForward } SourceIterator.next).findSmallest := by
    rw [next, if_neg hne]
  rw [hnext, ← hpost]
  refine fwd_of_moved hm h.sources (moved_moveOthers _ _ .kForward) (fun j d hd => ?_) rfl
    (picks_findSmallest _) ?_
  · have hds := sorted_of_mem hs h.sources (List.mem_of_getElem? hd)
    split
    · next hcur =>
      obtain rfl := Option.some.inj (hi.symm.trans hcur)
      obtain rfl := Option.some.inj (hc.symm.trans hd)
      obtain ⟨q, hq⟩ := h.children c (List.mem_of_getElem? hc)
      rw [hb] at hq
      have hcn := (SourceIterator.cursor _ hds).next_bwd hq
      have hcapp := (SourceIterator.cursor _ hds).bwd_append hq
      rw [List.reverse_cons, List.append_assoc] at hcapp
      have hfil : (readable c.source.cells).filter (fun x => internalRank it.key < x.rank)
          = q := by
        have hc' := hds.readable
        rw [← hcapp] at hc' ⊢
        rw [hkey]
        exact hc'.filter_split.2
      rw [hfil]
      exact ⟨_, hcn⟩
    · exact positionAfter_fwd hds rfl it.key
  · rw [hpost, ← happ]
    simp

theorem Fwd.prev_fwd {pre post : List Entry} {e : Entry} (h : Fwd sources L it pre (e :: post)) :
    Bwd sources L it.prev pre.reverse (e :: post) := by
  rcases h.head hs with ⟨hnil, -⟩ | ⟨_, _, i, c, b, heq, hi, hc, hb, hk, -, -⟩
  · cases hnil
  obtain ⟨rfl, rfl⟩ := List.cons.inj heq
  have happ := h.append
  have hkey : it.key = e.key := ((shows_current hi hc).2.1).trans hk
  have hpre : L.filter (fun x => x.rank < internalRank it.key) = pre := by
    have hL := hm.sorted
    rw [← happ] at hL ⊢
    rw [hkey]
    exact hL.filter_split.1
  have hne : ¬ it.direction = .kReverse := by rw [h.direction]; decide
  have hprev : it.prev = (moveCurrent { it.moveOthers (positionBefore it.key) with
      direction := .kReverse } SourceIterator.prev).findLargest := by
    rw [prev, if_neg hne]
  rw [hprev, ← hpre]
  refine bwd_of_moved hm h.sources (moved_moveOthers _ _ .kReverse) (fun j d hd => ?_) rfl
    (picks_findLargest _) ?_
  · have hds := sorted_of_mem hs h.sources (List.mem_of_getElem? hd)
    split
    · next hcur =>
      obtain rfl := Option.some.inj (hi.symm.trans hcur)
      obtain rfl := Option.some.inj (hc.symm.trans hd)
      obtain ⟨p, hp⟩ := h.children c (List.mem_of_getElem? hc)
      rw [hb] at hp
      have hcn := (SourceIterator.cursor _ hds).prev_fwd hp
      have hcapp := (SourceIterator.cursor _ hds).fwd_append hp
      have hfil : (readable c.source.cells).filter (fun x => x.rank < internalRank it.key)
          = p := by
        have hc' := hds.readable
        rw [← hcapp] at hc' ⊢
        rw [hkey]
        exact hc'.filter_split.1
      rw [hfil]
      exact ⟨_, hcn⟩
    · exact positionBefore_bwd hds rfl it.key
  · rw [hpre, happ]

theorem seek_fwd (hsrc : it.children.map SourceIterator.source = sources) (t : Bytes) :
    Fwd sources L (it.seek t) (L.takeWhile (below t)) (L.dropWhile (below t)) := by
  rw [(cut_eq_filter hm.sorted t).2]
  refine fwd_of_moved hm hsrc (moved_map (SourceIterator.seek · t) it.children)
    (fun j c hc => ?_) rfl (picks_findSmallest _) ?_
  · exact ⟨_, source_seek (sorted_of_mem hs hsrc (List.mem_of_getElem? hc)) rfl t⟩
  · rw [← (cut_eq_filter hm.sorted t).2, List.takeWhile_append_dropWhile]

theorem seekToFirst_fwd (hsrc : it.children.map SourceIterator.source = sources) :
    Fwd sources L it.seekToFirst [] L := by
  have h : Fwd sources L it.seekToFirst [] (L.filter fun _ => true) :=
    fwd_of_moved hm hsrc (moved_map SourceIterator.seekToFirst it.children) (fun j c hc => ?_) rfl
      (picks_findSmallest _) (by simp)
  · simpa using h
  · have hcs := sorted_of_mem hs hsrc (List.mem_of_getElem? hc)
    rw [List.filter_true]
    exact ⟨_, (SourceIterator.cursor _ hcs).seekToFirst_fwd rfl⟩

theorem seekToLast_bwd (hsrc : it.children.map SourceIterator.source = sources) :
    Bwd sources L it.seekToLast L.reverse [] := by
  have h : Bwd sources L it.seekToLast (L.filter fun _ => true).reverse [] :=
    bwd_of_moved hm hsrc (moved_map SourceIterator.seekToLast it.children) (fun j c hc => ?_) rfl
      (picks_findLargest _) (by simp)
  · simpa using h
  · have hcs := sorted_of_mem hs hsrc (List.mem_of_getElem? hc)
    rw [List.filter_true]
    exact ⟨_, (SourceIterator.cursor _ hcs).seekToLast_bwd rfl⟩

omit hm in
theorem Fwd.fwd_cons {pre post : List Entry} {e : Entry} (h : Fwd sources L it pre (e :: post)) :
    it.valid = true ∧ it.key = e.key ∧ it.value = e.value := by
  rcases h.head hs with ⟨hnil, -⟩ | ⟨_, _, i, c, b, heq, hi, hc, -, hk, hv, -⟩
  · cases hnil
  obtain ⟨rfl, rfl⟩ := List.cons.inj heq
  obtain ⟨h1, h2, h3⟩ := shows_current hi hc
  exact ⟨h1, h2.trans hk, h3.trans hv⟩

omit hm in
theorem Bwd.bwd_cons {r post : List Entry} {e : Entry} (h : Bwd sources L it (e :: r) post) :
    it.valid = true ∧ it.key = e.key ∧ it.value = e.value := by
  rcases h.head hs with ⟨hnil, -⟩ | ⟨_, _, i, c, b, heq, hi, hc, -, hk, hv, -⟩
  · cases hnil
  obtain ⟨rfl, rfl⟩ := List.cons.inj heq
  obtain ⟨h1, h2, h3⟩ := shows_current hi hc
  exact ⟨h1, h2.trans hk, h3.trans hv⟩

omit hm in
theorem Fwd.fwd_nil {pre : List Entry} (h : Fwd sources L it pre []) : it.valid = false := by
  rcases h.head hs with ⟨-, hc⟩ | ⟨_, _, _, _, _, heq, _⟩
  · simp [valid, hc]
  · cases heq

omit hm in
theorem Bwd.bwd_nil {post : List Entry} (h : Bwd sources L it [] post) : it.valid = false := by
  rcases h.head hs with ⟨-, hc⟩ | ⟨_, _, _, _, _, heq, _⟩
  · simp [valid, hc]
  · cases heq

/-- **A merging iterator is a cursor over the merge of its sources.** -/
def cursor : Cursor MergingIterator L where
  covers it := it.children.map SourceIterator.source = sources
  fwd := Fwd sources L
  bwd := Bwd sources L
  covers_fwd := Fwd.sources
  covers_bwd := Bwd.sources
  fwd_append := Fwd.append
  bwd_append := Bwd.append
  fwd_nil := Fwd.fwd_nil hs
  fwd_cons := Fwd.fwd_cons hs
  bwd_nil := Bwd.bwd_nil hs
  bwd_cons := Bwd.bwd_cons hs
  seekToFirst_fwd := seekToFirst_fwd hs hm
  seekToLast_bwd := seekToLast_bwd hs hm
  seek_fwd := seek_fwd hs hm
  next_fwd := Fwd.next_fwd hs
  next_bwd := Bwd.next_bwd hs hm
  prev_fwd := Fwd.prev_fwd hs hm
  prev_bwd := Bwd.prev_bwd hs

end Laws

end MergingIterator

end Leveldb
