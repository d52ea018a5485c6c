import AndroidLevelDB.Leveldb.Merger

/-!
# Leveldb/InternalIterator — the iterator over all sources

`NewMergingIterator` merges two or more sources and avoids the merge otherwise.  What it returns is
a cursor over the merge of what the sources let it read (`InternalIterator.cursor`).  A place that
cannot be read leaves a hole there and an error in `status()`: after a lookup the status tells
whether a place was passed that could not be read (`Trails.ok_status_iff`).
-/

namespace Leveldb

/-- What `NewMergingIterator` returns: for no child an empty iterator, for one child that child. -/
inductive InternalIterator
  | empty
  | single (child : SourceIterator)
  | merging (it : MergingIterator)
deriving DecidableEq

def newMergingIterator : List SourceIterator → InternalIterator
  | [] => .empty
  | [child] => .single child
  | list => .merging ⟨list, none, .kForward⟩

namespace InternalIterator

def children : InternalIterator → List SourceIterator
  | empty => []
  | single child => [child]
  | merging it => it.children

instance : Iterator InternalIterator where
  valid
    | empty => false
    | single child => child.valid
    | merging it => it.valid
  seekToFirst
    | empty => empty
    | single child => single child.seekToFirst
    | merging it => merging it.seekToFirst
  seekToLast
    | empty => empty
    | single child => single child.seekToLast
    | merging it => merging it.seekToLast
  seek
    | empty, _ => empty
    | single child, target => single (child.seek target)
    | merging it, target => merging (it.seek target)
  next
    | empty => empty
    | single child => single child.next
    | merging it => merging it.next
  prev
    | empty => empty
    | single child => single child.prev
    | merging it => merging it.prev
  key
    | empty => []
    | single child => child.key
    | merging it => it.key
  value
    | empty => []
    | single child => child.value
    | merging it => it.value
  status
    | empty => .OK
    | single child => child.status
    | merging it => it.status

/-- The positions of an internal iterator that moved forwards. -/
def Fwd (sources : List Source) (L : List Entry) (it : InternalIterator)
    (pre post : List Entry) : Prop :=
  match it with
  | empty => sources = [] ∧ pre = [] ∧ post = []
  | single child => sources = [child.source] ∧ SourceIterator.Fwd child.source child pre post
  | merging it => it.Fwd sources L pre post

/-- The positions of an internal iterator that moved backwards. -/
def Bwd (sources : List Source) (L : List Entry) (it : InternalIterator)
    (r post : List Entry) : Prop :=
  match it with
  | empty => sources = [] ∧ r = [] ∧ post = []
  | single child => sources = [child.source] ∧ SourceIterator.Bwd child.source child r post
  | merging it => it.Bwd sources L r post

section Laws

variable {sources : List Source} {L : List Entry}
  (hs : ∀ src ∈ sources, src.Sorted)
  (hm : Merged Entry.rank (sources.map fun s => readable s.cells) L)

include hs in
theorem sorted_of_single {src : Source} (h : sources = [src]) : src.Sorted :=
  hs src (h ▸ List.mem_singleton_self src)

include hs hm in
theorem eq_readable_of_single {src : Source} (h : sources = [src]) :
    readable src.cells = L := by
  have hp : L.Perm (readable src.cells) := by simpa [h] using hm.perm
  exact (hm.sorted.eq_of_perm (sorted_of_single hs h).readable hp).symm

/-- **The iterator over all sources is a cursor over their merge.** -/
def cursor : Cursor InternalIterator L where
  covers it := it.children.map SourceIterator.source = sources
  fwd := Fwd sources L
  bwd := Bwd sources L
  covers_fwd := by
    rintro (_ | child | it) pre post h
    · exact h.1.symm
    · exact h.1.symm
    · exact h.sources
  covers_bwd := by
    rintro (_ | child | it) r post h
    · exact h.1.symm
    · exact h.1.symm
    · exact h.sources
  fwd_append := by
    rintro (_ | child | it) pre post h
    · obtain ⟨rfl, rfl, rfl⟩ := h
      exact (hm.eq_nil_iff.mpr (by simp)).symm
    · exact ((SourceIterator.cursor _ (sorted_of_single hs h.1)).fwd_append h.2).trans
        (eq_readable_of_single hs hm h.1)
    · exact h.append
  bwd_append := by
    rintro (_ | child | it) r post h
    · obtain ⟨rfl, rfl, rfl⟩ := h
      exact (hm.eq_nil_iff.mpr (by simp)).symm
    · exact ((SourceIterator.cursor _ (sorted_of_single hs h.1)).bwd_append h.2).trans
        (eq_readable_of_single hs hm h.1)
    · exact h.append
  fwd_nil := by
    rintro (_ | child | it) pre h
    · rfl
    · exact (SourceIterator.cursor _ (sorted_of_single hs h.1)).fwd_nil h.2
    · exact h.fwd_nil hs
  fwd_cons := by
    rintro (_ | child | it) pre e post h
    · cases h.2.2
    · exact (SourceIterator.cursor _ (sorted_of_single hs h.1)).fwd_cons h.2
    · exact h.fwd_cons hs
  bwd_nil := by
    rintro (_ | child | it) post h
    · rfl
    · exact (SourceIterator.cursor _ (sorted_of_single hs h.1)).bwd_nil h.2
    · exact h.bwd_nil hs
  bwd_cons := by
    rintro (_ | child | it) e r post h
    · cases h.2.1
    · exact (SourceIterator.cursor _ (sorted_of_single hs h.1)).bwd_cons h.2
    · exact h.bwd_cons hs
  seekToFirst_fwd := by
    rintro (_ | child | it) h
    · exact ⟨h.symm, rfl, hm.eq_nil_iff.mpr (by simp [← h, children])⟩
    · refine ⟨h.symm, ?_⟩
      rw [← eq_readable_of_single hs hm h.symm]
      exact (SourceIterator.cursor _ (sorted_of_single hs h.symm)).seekToFirst_fwd rfl
    · exact MergingIterator.seekToFirst_fwd hs hm h
  seekToLast_bwd := by
    rintro (_ | child | it) h
    · exact ⟨h.symm, by simp [hm.eq_nil_iff.mpr, ← h, children], rfl⟩
    · refine ⟨h.symm, ?_⟩
      rw [← eq_readable_of_single hs hm h.symm]
      exact (SourceIterator.cursor _ (sorted_of_single hs h.symm)).seekToLast_bwd rfl
    · exact MergingIterator.seekToLast_bwd hs hm h
  seek_fwd := by
    rintro (_ | child | it) h t
    · have hL : L = [] := hm.eq_nil_iff.mpr (by simp [← h, children])
      exact ⟨h.symm, by simp [hL], by simp [hL]⟩
    · refine ⟨h.symm, ?_⟩
      rw [← eq_readable_of_single hs hm h.symm]
      exact (SourceIterator.cursor _ (sorted_of_single hs h.symm)).seek_fwd rfl t
    · exact MergingIterator.seek_fwd hs hm h t
  next_fwd := by
    rintro (_ | child | it) pre e post h
    · cases h.2.2
    · exact ⟨h.1, (SourceIterator.cursor _ (sorted_of_single hs h.1)).next_fwd h.2⟩
    · exact h.next_fwd hs
  next_bwd := by
    rintro (_ | child | it) e r post h
    · cases h.2.1
    · exact ⟨h.1, (SourceIterator.cursor _ (sorted_of_single hs h.1)).next_bwd h.2⟩
    · exact h.next_bwd hs hm
  prev_fwd := by
    rintro (_ | child | it) pre e post h
    · cases h.2.2
    · exact ⟨h.1, (SourceIterator.cursor _ (sorted_of_single hs h.1)).prev_fwd h.2⟩
    · exact h.prev_fwd hs hm
  prev_bwd := by
    rintro (_ | child | it) e r post h
    · cases h.2.1
    · exact ⟨h.1, (SourceIterator.cursor _ (sorted_of_single hs h.1)).prev_bwd h.2⟩
    · exact h.prev_bwd hs

end Laws

/-! ## What the status of a lookup says -/

theorem ok_status_merging (it : MergingIterator) :
    it.status.ok = it.children.all fun c => c.status.ok := by
  rw [MergingIterator.status]
  cases hf : it.children.find? fun c => !c.status.ok with
  | none =>
    have h := List.find?_eq_none.mp hf
    simp only [Option.map_none, Option.getD_none, Status.ok_OK]
    exact (List.all_eq_true.mpr fun c hc => by simpa using h c hc).symm
  | some c =>
    have hc : c.status.ok = false := by simpa using List.find?_some hf
    simp only [Option.map_some, Option.getD_some, hc]
    refine (List.all_eq_false.mpr ⟨c, List.mem_of_find?_eq_some hf, by simp [hc]⟩).symm

/-- **The iterator reports an error exactly when one of its sources does.** -/
theorem ok_status (it : InternalIterator) :
    (Iterator.status it).ok = it.children.all fun c => c.status.ok := by
  cases it with
  | empty => rfl
  | single child => simp [Iterator.status, children]
  | merging it => exact ok_status_merging it

/-- Since a seek for `t` every source has moved forwards, over entries of `pre` only. -/
def Trails (t : Bytes) (it : InternalIterator) (pre : List Entry) : Prop :=
  ∀ c ∈ it.children, ∃ passed rest, SourceIterator.Trail c.source t c passed rest ∧
    ∀ e ∈ readable passed, e ∈ pre

theorem children_seek (it : InternalIterator) (t : Bytes) :
    (Iterator.seek it t).children = it.children.map (SourceIterator.seek · t) := by
  cases it <;> rfl

theorem trails_seek {it : InternalIterator} (h : ∀ c ∈ it.children, c.status = c.source.opened)
    (t : Bytes) (pre : List Entry) : Trails t (Iterator.seek it t) pre := by
  intro c hc
  rw [children_seek] at hc
  obtain ⟨d, hd, rfl⟩ := List.mem_map.mp hc
  obtain ⟨passed, rest, htr, hnil⟩ := SourceIterator.trail_seek rfl (h d hd) t
  exact ⟨passed, rest, htr, by simp [hnil]⟩

theorem Trails.next {sources : List Source} {L : List Entry} (hs : ∀ src ∈ sources, src.Sorted)
    {t : Bytes} {it : InternalIterator} {pre post : List Entry} {e : Entry}
    (hf : Fwd sources L it pre (e :: post)) (h : Trails t it pre) :
    Trails t (Iterator.next it) (pre ++ [e]) := by
  have hkeep : ∀ c ∈ it.children, ∃ passed rest,
      SourceIterator.Trail c.source t c passed rest ∧ ∀ x ∈ readable passed, x ∈ pre ++ [e] := by
    intro c hc
    obtain ⟨passed, rest, htr, hmem⟩ := h c hc
    exact ⟨passed, rest, htr, fun x hx => List.mem_append_left _ (hmem x hx)⟩
  have hmove : ∀ c ∈ it.children, ∀ r, c.rest = e :: r → ∃ passed rest,
      SourceIterator.Trail c.source t c.next passed rest ∧
        ∀ x ∈ readable passed, x ∈ pre ++ [e] := by
    intro c hc r hr
    obtain ⟨passed, rest, htr, hmem⟩ := h c hc
    obtain ⟨A, hat⟩ := htr.at_rest
    have hrest : readable rest = e :: r := by
      rw [← hr]
      exact (SourceIterator.Fwd.rest_eq ⟨A, rest, hat, rfl, rfl⟩).symm
    obtain ⟨rest', rfl, -⟩ := hat.exists_of_readable hrest
    obtain ⟨passed', rest'', htr', hread⟩ := htr.next
    refine ⟨passed', rest'', htr', fun x hx => ?_⟩
    rw [hread] at hx
    rcases List.mem_append.mp hx with hx | hx
    · exact List.mem_append_left _ (hmem x hx)
    · exact List.mem_append_right _ hx
  cases it with
  | empty => cases hf.2.2
  | single child =>
    intro c hc
    obtain rfl : c = child.next := List.mem_singleton.mp hc
    exact hmove child (List.mem_singleton_self _) post hf.2.rest_eq
  | merging m =>
    rcases MergingIterator.Fwd.head hs hf with ⟨hnil, -⟩ | ⟨_, _, i, c, r, heq, hi, hc, hr, -⟩
    · cases hnil
    obtain ⟨rfl, rfl⟩ := List.cons.inj heq
    intro d hd
    have hd' : d ∈ (m.moveCurrent SourceIterator.next).children := by
      have hnext : m.next = (m.moveCurrent SourceIterator.next).findSmallest := by
        rw [MergingIterator.next, if_pos hf.direction]
      have hd : d ∈ m.next.children := hd
      rw [hnext] at hd
      exact hd
    rcases MergingIterator.mem_moveCurrent hi hc hd' with rfl | hd'
    · exact hmove c (List.mem_of_getElem? hc) r hr
    · exact hkeep d hd'

/-- Not yet at the entry `stop`, if there is one. -/
def beforeStop (stop : Option Entry) (c : Cell) : Bool :=
  c.isUnreadable || stop.all fun e => internalRank c.limit < e.rank

/-- The places of a source that a lookup passes between the seek for `t` and the entry where it
stops. -/
def passedBetween (src : Source) (t : Bytes) (stop : Option Entry) : List Cell :=
  (src.cells.dropWhile (SourceIterator.limitBelow t)).takeWhile (beforeStop stop)

/-- What a source has in front of it, the merge has in front of it. -/
theorem Fwd.mem_of_rest {sources : List Source} {L : List Entry} {it : InternalIterator}
    {pre post : List Entry} (hf : Fwd sources L it pre post) {c : SourceIterator}
    (hc : c ∈ it.children) {e : Entry} (he : e ∈ c.rest) : e ∈ post := by
  cases it with
  | empty => cases hc
  | single child =>
    obtain rfl : c = child := List.mem_singleton.mp hc
    exact hf.2.rest_eq ▸ he
  | merging m => exact hf.merged.mem_iff.mpr ⟨c.rest, List.mem_map_of_mem hc, he⟩

/-- The places a source has passed are those between the seek target and the stop. -/
theorem passed_eq {L : List Entry} (hL : KeySorted Entry.rank L) {t : Bytes}
    {pre post : List Entry} (happ : pre ++ post = L) {c : SourceIterator}
    (hrest : ∀ e ∈ c.rest, e ∈ post) {passed rest : List Cell}
    (htr : SourceIterator.Trail c.source t c passed rest) (hmem : ∀ e ∈ readable passed, e ∈ pre) :
    passedBetween c.source t post.head? = passed := by
  have hpassed : ∀ d ∈ passed, beforeStop post.head? d = true := by
    intro d hd
    cases d with
    | unreadable => rfl
    | entry e =>
      have he : e ∈ pre := hmem e (List.mem_filterMap.mpr ⟨_, hd, rfl⟩)
      cases post with
      | nil => rfl
      | cons stop post =>
        have hlt : e.rank < stop.rank :=
          (List.pairwise_append.mp (happ ▸ hL)).2.2 e he stop List.mem_cons_self
        exact decide_eq_true hlt
  obtain ⟨A, hat⟩ := htr.at_rest
  have hstop : rest.takeWhile (beforeStop post.head?) = [] := by
    cases rest with
    | nil => rfl
    | cons d rest =>
      refine List.takeWhile_cons_of_neg ?_
      cases d with
      | unreadable => exact absurd (hat.head _ rfl) (by simp [Cell.isUnreadable])
      | entry e =>
        have he : e ∈ post := by
          refine hrest e ?_
          rw [SourceIterator.Fwd.rest_eq ⟨A, _, hat, rfl, rfl⟩, readable_cons_entry]
          exact List.mem_cons_self
        cases post with
        | nil => cases he
        | cons stop post =>
          have hpost : KeySorted Entry.rank (stop :: post) :=
            hL.sublist (happ ▸ List.sublist_append_right pre _)
          have hle : ¬ internalRank (Cell.entry e).limit < stop.rank :=
            not_lt.mpr (hpost.le_of_mem he)
          simp [beforeStop, Cell.isUnreadable, hle]
  rw [passedBetween, htr.places, List.takeWhile_append_of_pos hpassed, hstop, List.append_nil]

/-- **After a seek for `t` and moves forwards to `post`, the status is OK exactly when every source
could be opened and every place passed on the way could be read.** -/
theorem Trails.ok_status_iff {sources : List Source} {L : List Entry}
    (hs : ∀ src ∈ sources, src.Sorted)
    (hm : Merged Entry.rank (sources.map fun s => readable s.cells) L)
    {t : Bytes} {it : InternalIterator} {pre post : List Entry}
    (hf : Fwd sources L it pre post) (h : Trails t it pre) :
    (Iterator.status it).ok = true ↔ ∀ src ∈ sources, src.opened.ok = true ∧
      ∀ c ∈ passedBetween src t post.head?, c.isUnreadable = false := by
  have happ := (cursor hs hm).fwd_append hf
  have hsrc : it.children.map SourceIterator.source = sources := (cursor hs hm).covers_fwd hf
  have hchild : ∀ c ∈ it.children, c.status.ok = true ↔ c.source.opened.ok = true ∧
      ∀ d ∈ passedBetween c.source t post.head?, d.isUnreadable = false := by
    intro c hc
    obtain ⟨passed, rest, htr, hmem⟩ := h c hc
    rw [passed_eq hm.sorted happ (fun e he => hf.mem_of_rest hc he) htr hmem, htr.ok_iff]
    simp
  rw [ok_status, List.all_eq_true, ← hsrc]
  simp only [List.mem_map, forall_exists_index, and_imp, forall_apply_eq_imp_iff₂]
  exact forall₂_congr hchild

/-! ## What the status of a whole walk says -/

/-- A step moves the child it stands at, if any. -/
theorem mem_children_next {sources : List Source} {L : List Entry}
    (hs : ∀ src ∈ sources, src.Sorted) {it : InternalIterator} {pre post : List Entry} {e : Entry}
    (hf : Fwd sources L it pre (e :: post)) {d : SourceIterator}
    (hd : d ∈ (Iterator.next it).children) :
    d ∈ it.children ∨ ∃ c ∈ it.children, d = c.next ∧ ∃ r, c.rest = e :: r := by
  cases it with
  | empty => cases hf.2.2
  | single child =>
    exact .inr ⟨child, List.mem_singleton_self _, List.mem_singleton.mp hd, post, hf.2.rest_eq⟩
  | merging m =>
    rcases MergingIterator.Fwd.head hs hf with ⟨hnil, -⟩ | ⟨_, _, i, c, r, heq, hi, hc, hr, -⟩
    · cases hnil
    obtain ⟨rfl, rfl⟩ := List.cons.inj heq
    have hnext : m.next = (m.moveCurrent SourceIterator.next).findSmallest := by
      rw [MergingIterator.next, if_pos hf.direction]
    have hd : d ∈ m.next.children := hd
    rw [hnext] at hd
    rcases MergingIterator.mem_moveCurrent hi hc hd with rfl | hd
    · exact .inr ⟨c, List.mem_of_getElem? hc, rfl, r, hr⟩
    · exact .inl hd

/-- Every source has been read from its first place on, and its status tells whether all the places
passed could be read. -/
def Swept (it : InternalIterator) : Prop :=
  ∀ c ∈ it.children, ∃ A B, SourceIterator.At c.source c A B ∧
    c.status.ok = (c.source.opened.ok && A.all fun d => !d.isUnreadable)

theorem children_seekToFirst (it : InternalIterator) :
    (Iterator.seekToFirst it).children = it.children.map SourceIterator.seekToFirst := by
  cases it <;> rfl

theorem swept_seekToFirst {it : InternalIterator}
    (h : ∀ c ∈ it.children, c.status = c.source.opened) : Swept (Iterator.seekToFirst it) := by
  intro c hc
  rw [children_seekToFirst] at hc
  obtain ⟨d, hd, rfl⟩ := List.mem_map.mp hc
  obtain ⟨hat, hst⟩ := @SourceIterator.settleForward_at _ d [] _ rfl rfl
  refine ⟨_, _, hat, ?_⟩
  have hok := congrArg Status.ok hst
  rw [SourceIterator.ok_saveErrors, h d hd] at hok
  exact hok

theorem Swept.next {sources : List Source} {L : List Entry} (hs : ∀ src ∈ sources, src.Sorted)
    {it : InternalIterator} {pre post : List Entry} {e : Entry}
    (hf : Fwd sources L it pre (e :: post)) (h : Swept it) : Swept (Iterator.next it) := by
  intro d hd
  rcases mem_children_next hs hf hd with hd | ⟨c, hc, rfl, r, hr⟩
  · exact h d hd
  · obtain ⟨A, B, hat, hok⟩ := h c hc
    have hB : readable B = e :: r :=
      (SourceIterator.Fwd.rest_eq ⟨A, B, hat, rfl, rfl⟩).symm.trans hr
    obtain ⟨B', rfl, -⟩ := hat.exists_of_readable hB
    obtain ⟨hat', hst⟩ := SourceIterator.next_at hat
    refine ⟨_, _, hat', ?_⟩
    rw [hst, SourceIterator.ok_saveErrors, hok, List.all_append, List.all_cons]
    simp only [Cell.isUnreadable, Bool.not_false, Bool.true_and, Bool.and_assoc]
    rfl

/-- **At the end the status is OK exactly when all of every source could be read.** -/
theorem Swept.ok_status_iff {sources : List Source} {L : List Entry}
    (hs : ∀ src ∈ sources, src.Sorted)
    (hm : Merged Entry.rank (sources.map fun s => readable s.cells) L) {it : InternalIterator}
    {pre : List Entry} (hf : Fwd sources L it pre []) (h : Swept it) :
    (Iterator.status it).ok = true ↔ ∀ src ∈ sources, src.opened.ok = true ∧
      ∀ c ∈ src.cells, c.isUnreadable = false := by
  have hsrc : it.children.map SourceIterator.source = sources := (cursor hs hm).covers_fwd hf
  have hchild : ∀ c ∈ it.children, c.status.ok = true ↔ c.source.opened.ok = true ∧
      ∀ d ∈ c.source.cells, d.isUnreadable = false := by
    intro c hc
    obtain ⟨A, B, hat, hok⟩ := h c hc
    have hB : readable B = [] := by
      rw [← SourceIterator.Fwd.rest_eq ⟨A, B, hat, rfl, rfl⟩, List.eq_nil_iff_forall_not_mem]
      exact fun e he => absurd (hf.mem_of_rest hc he) List.not_mem_nil
    obtain rfl := hat.nil_of_readable hB
    rw [hok, hat.cells, List.append_nil]
    simp
  rw [ok_status, List.all_eq_true, ← hsrc]
  simp only [List.mem_map, forall_exists_index, and_imp, forall_apply_eq_imp_iff₂]
  exact forall₂_congr hchild

end InternalIterator

end Leveldb
