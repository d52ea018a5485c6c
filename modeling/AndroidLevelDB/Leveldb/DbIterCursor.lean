import AndroidLevelDB.Leveldb.DbIter

/-!
# Leveldb/DbIterCursor — what a client sees is a sorted list of pairs

Over entries with well-formed keys, no two of one user key and sequence number, `DBIter` is an
iterator over the pairs its sequence number lets it see: it stands between a prefix and a suffix of
that list (`Stands`), a seek cuts the list at the key sought (`stands_seek`), and `next` and `prev`
move by one pair from either direction (`Stands.next`, `Stands.prev`).
-/

namespace Leveldb.DBIter

open Iterator

variable {ι : Type} [Iterator ι] {L : List Entry} {F : ι → List Entry → List Entry → Prop}
  {it : DBIter ι} {pre post : List Entry}

/-- An entry that is seen holds a value. -/
theorem val_of_seen {s : ℕ} {e : Entry} (he : Version.Seen (L.map Entry.version) s e.version) :
    e.version.val = some e.value := by
  obtain ⟨v, hv⟩ := Option.isSome_iff_exists.mp he.1
  cases hp : parseInternalKey e.key with
  | none => simp [Entry.version, hp] at hv
  | some p =>
    rw [Entry.version_of_parse hp] at hv ⊢
    by_cases ht : p.type = .kTypeValue
    · simp [ht]
    · simp [ht] at hv

/-- An entry that is seen and the pair it shows. -/
theorem shown_cons_of_seen {s : ℕ} {e : Entry} {l : List Entry}
    (he : Version.Seen (L.map Entry.version) s e.version) :
    shown L s (e :: l) = (e.version.key, e.value) :: shown L s l := by
  simp [shown, he, Version.pair, val_of_seen he]

omit [Iterator ι] in
theorem ForwardAt.valid_iff (h : ForwardAt F L it pre post) :
    it.valid = true ↔ shown L it.sequence post ≠ [] := by
  rw [h.valid]
  cases post with
  | nil => simp [shown]
  | cons e post => simp [shown_cons_of_seen (h.seen e rfl)]

/-- What an iterator that moved forwards shows is the head of the pairs in front of it. -/
theorem ForwardAt.shows (hF : Forward ι F) (h : ForwardAt F L it pre post)
    (hwf : ∀ e ∈ post, e.WellFormed) {p : Bytes × Bytes} {b : List (Bytes × Bytes)}
    (hb : shown L it.sequence post = p :: b) : it.key = p.1 ∧ it.value = p.2 := by
  cases post with
  | nil => simp [shown] at hb
  | cons e post =>
    rw [shown_cons_of_seen (h.seen e rfl)] at hb
    obtain ⟨rfl, -⟩ := List.cons.inj hb
    obtain ⟨-, hk, hv⟩ := hF.cons h.position
    rw [key, value, if_pos h.direction, if_pos h.direction, hk, hv,
      (hwf e List.mem_cons_self).version_key]
    exact ⟨rfl, rfl⟩

/-! ## Seeking -/

/-- The target of a seek for the user key `k` at sequence number `s`. -/
def seekTarget (k : Bytes) (s : ℕ) : Bytes := appendInternalKey [] ⟨k, s, kValueTypeForSeek⟩

/-- Among the versions a reader may see, those below the seek target are those of smaller keys. -/
theorem below_seekTarget {e : Entry} (he : e.WellFormed) {s : ℕ} (hs : s ≤ kMaxSequenceNumber)
    (hes : e.version.seq ≤ s) (k : Bytes) :
    below (seekTarget k s) e = true ↔ e.version.key < k := by
  have htag : extractTag (seekTarget k s) = 256 * s + 1 := by
    rw [seekTarget, extractTag_appendInternalKey hs]
    rfl
  have huser : extractUserKey (seekTarget k s) = k := extractUserKey_appendInternalKey _
  rw [below, decide_eq_true_iff, Entry.rank, internalRank_lt_iff, huser, htag, he.tag_eq,
    he.version_key]
  refine ⟨fun h => h.resolve_right fun h' => ?_, .inl⟩
  have := h'.2
  split_ifs at this <;> omega

theorem mem_shown {s : ℕ} {l : List Entry} {p : Bytes × Bytes} (hp : p ∈ shown L s l) :
    ∃ e ∈ l, Version.Seen (L.map Entry.version) s e.version ∧ e.version.key = p.1 := by
  obtain ⟨v, hv, hvp⟩ := List.mem_filterMap.mp hp
  obtain ⟨hvl, hseen⟩ := List.mem_filter.mp hv
  obtain ⟨e, he, rfl⟩ := List.mem_map.mp hvl
  obtain ⟨x, -, rfl⟩ := Option.map_eq_some_iff.mp hvp
  exact ⟨e, he, by simpa using hseen, rfl⟩

/-- A seek cuts the pairs shown at the key sought. -/
theorem shown_cut (hL : Versioned L) {s : ℕ} (hs : s ≤ kMaxSequenceNumber) (k : Bytes) :
    shown L s (L.takeWhile (below (seekTarget k s)))
        = (shown L s L).takeWhile (fun p => p.1 < k) ∧
      shown L s (L.dropWhile (below (seekTarget k s)))
        = (shown L s L).dropWhile (fun p => p.1 < k) := by
  have hlow : ∀ p ∈ shown L s (L.takeWhile (below (seekTarget k s))), p.1 < k := by
    intro p hp
    obtain ⟨e, he, hseen, hk⟩ := mem_shown hp
    rw [← hk]
    exact (below_seekTarget (hL.wellFormed e (List.takeWhile_subset _ he)) hs hseen.2.1 k).mp
      (List.mem_takeWhile_imp he)
  have hhigh : ∀ p ∈ shown L s (L.dropWhile (below (seekTarget k s))), ¬ p.1 < k := by
    intro p hp
    obtain ⟨e, he, hseen, hk⟩ := mem_shown hp
    rw [← hk]
    intro hlt
    rw [(cut_eq_filter hL.sorted _).2] at he
    obtain ⟨heL, hge⟩ := List.mem_filter.mp he
    have hbelow := (below_seekTarget (hL.wellFormed e heL) hs hseen.2.1 k).mpr hlt
    rw [below, decide_eq_true_iff] at hbelow
    simp [hbelow] at hge
  have hsplit : shown L s L = shown L s (L.takeWhile (below (seekTarget k s)))
      ++ shown L s (L.dropWhile (below (seekTarget k s))) := by
    rw [← shown_append, List.takeWhile_append_dropWhile]
  rw [hsplit, List.takeWhile_append_of_pos (by simpa using hlow),
    List.dropWhile_append_of_pos (by simpa using hlow)]
  cases hd : shown L s (L.dropWhile (below (seekTarget k s))) with
  | nil => simp
  | cons p b =>
    have hp : ¬ p.1 < k := hhigh p (hd ▸ List.mem_cons_self)
    simp [hp]

/-- At a seek target nothing is hidden by what is before it. -/
theorem skipOk_seek (hL : Versioned L) {s : ℕ} (hs : s ≤ kMaxSequenceNumber) (k : Bytes) :
    Version.SkipOk ((L.takeWhile (below (seekTarget k s))).map Entry.version)
      ((L.dropWhile (below (seekTarget k s))).map Entry.version) s none := by
  refine Version.skipOk_none ?_
  rintro v hv hvs v' hv' hk
  obtain ⟨e, he, rfl⟩ := List.mem_map.mp hv
  obtain ⟨e', he', rfl⟩ := List.mem_map.mp hv'
  by_contra hle
  have hlt := (below_seekTarget (hL.wellFormed e' (List.takeWhile_subset _ he')) hs
    (not_lt.mp hle) k).mp (List.mem_takeWhile_imp he')
  rw [(cut_eq_filter hL.sorted _).2] at he
  obtain ⟨heL, hge⟩ := List.mem_filter.mp he
  have hbelow := (below_seekTarget (hL.wellFormed e heL) hs hvs k).mpr (hk ▸ hlt)
  rw [below, decide_eq_true_iff] at hbelow
  simp [hbelow] at hge

/-- The state in which a seek for `k` starts to look for an entry. -/
def seekStart (it : DBIter ι) (k : Bytes) : DBIter ι :=
  { it with
    direction := .kForward
    savedValue := []
    savedKey := seekTarget k it.sequence
    iter := Iterator.seek it.iter (seekTarget k it.sequence) }

theorem seek_eq (it : DBIter ι) (k : Bytes) :
    it.seek k = if Iterator.valid (it.seekStart k).iter then
      findNextUserEntry it.rounds false (it.seekStart k)
    else { it.seekStart k with valid := false } := rfl

/-- **A seek stops at the first pair whose key is not before the key sought.** -/
theorem seek_forwardAt (hL : Versioned L) (hF : Forward ι F) (k : Bytes)
    (hs : it.sequence ≤ kMaxSequenceNumber) (hn : L.length ≤ it.rounds)
    (hf : F (Iterator.seek it.iter (seekTarget k it.sequence))
      (L.takeWhile (below (seekTarget k it.sequence)))
      (L.dropWhile (below (seekTarget k it.sequence)))) :
    ∃ pre post, ForwardAt F L (it.seek k) pre post ∧ (it.seek k).sequence = it.sequence ∧
      (it.seek k).rounds = it.rounds ∧ (it.seek k).status = it.status ∧
      shown L it.sequence pre = (shown L it.sequence L).takeWhile (fun p => p.1 < k) ∧
      shown L it.sequence post = (shown L it.sequence L).dropWhile (fun p => p.1 < k) := by
  obtain ⟨hcut1, hcut2⟩ := shown_cut hL hs k
  have hskip := skipOk_seek hL hs k
  rw [← hcut1, ← hcut2]
  have hL' : L = L.takeWhile (below (seekTarget k it.sequence))
      ++ L.dropWhile (below (seekTarget k it.sequence)) := List.takeWhile_append_dropWhile.symm
  generalize L.takeWhile (below (seekTarget k it.sequence)) = A at *
  generalize L.dropWhile (below (seekTarget k it.sequence)) = D at *
  cases D with
  | nil =>
    have hv : ¬ Iterator.valid (it.seekStart k).iter = true := by simp [seekStart, hF.nil hf]
    rw [seek_eq, if_neg hv]
    exact ⟨A, [], ⟨hf, rfl, rfl, by simp⟩, rfl, rfl, rfl, rfl, rfl⟩
  | cons e D =>
    have hv : Iterator.valid (it.seekStart k).iter = true := (hF.cons hf).1
    have hwf : ∀ x ∈ e :: D, x.WellFormed := fun x hx =>
      hL.wellFormed x (hL' ▸ List.mem_append_right _ hx)
    have hlen : (e :: D).length ≤ it.rounds := by
      have := congrArg List.length hL'
      rw [List.length_append] at this
      omega
    have hscan : Version.scanFrom it.sequence none ((e :: D).map Entry.version)
        = ((e :: D).map Entry.version).dropWhile
            fun v => ¬ Version.Seen (L.map Entry.version) it.sequence v := by
      have hr := hL.ranked
      rw [hL', List.map_append] at hr ⊢
      exact Version.scanFrom_eq_dropWhile it.sequence _ _ none hr hskip
    have hstops := findNextUserEntry_stops (K := []) hF it.rounds false (it.seekStart k) hf hwf hlen
      rfl rfl hscan
    rw [seek_eq, if_pos hv]
    simpa [seekStart] using hstops

/-! ## Positions -/

/-- The iterator stands between the pairs `a` and the pairs `b`. -/
inductive Stands (C : Cursor ι L) (it : DBIter ι) :
    List (Bytes × Bytes) → List (Bytes × Bytes) → Prop
  | forward {pre post : List Entry} : ForwardAt C.fwd L it pre post →
      Stands C it (shown L it.sequence pre) (shown L it.sequence post)
  /-- Having moved backwards the internal iterator is before the entry `x` that is shown, with
  nothing readable in between. -/
  | reverse {r post U W : List Entry} {x : Entry} : C.bwd it.iter r post →
      it.direction = .kReverse → it.valid = true → post = U ++ x :: W →
      (∀ u ∈ U, it.sequence < u.version.seq) →
      Version.Seen (L.map Entry.version) it.sequence x.version →
      it.savedKey = x.version.key → it.savedValue = x.value →
      Stands C it (shown L it.sequence r.reverse) (shown L it.sequence post)

variable {C : Cursor ι L} {a b : List (Bytes × Bytes)}

theorem not_seen_of_new {s : ℕ} {e : Entry} (h : s < e.version.seq) :
    ¬ Version.Seen (L.map Entry.version) s e.version := fun hseen => absurd hseen.2.1 (not_le.mpr h)

/-- What is in front of an iterator that moved backwards starts with the entry it shows. -/
theorem shown_of_reverse {s : ℕ} {U W : List Entry} {x : Entry} (hU : ∀ u ∈ U, s < u.version.seq)
    (hx : Version.Seen (L.map Entry.version) s x.version) :
    shown L s (U ++ x :: W) = (x.version.key, x.value) :: shown L s W := by
  rw [shown_append, shown_eq_nil fun u hu => not_seen_of_new (hU u hu), List.nil_append,
    shown_cons_of_seen hx]

/-- What is behind the cursor and what is in front of it are all the pairs that are shown. -/
theorem Stands.append_eq (h : Stands C it a b) : a ++ b = shown L it.sequence L := by
  cases h with
  | forward h => rw [← shown_append, C.fwd_append h.position]
  | reverse hb => rw [← shown_append, C.bwd_append hb]

theorem Stands.covers (h : Stands C it a b) : C.covers it.iter := by
  cases h with
  | forward h => exact C.covers_fwd h.position
  | reverse hb => exact C.covers_bwd hb

/-- **The iterator is valid exactly when there is a pair in front of it.** -/
theorem Stands.valid_iff (h : Stands C it a b) : it.valid = true ↔ b ≠ [] := by
  cases h with
  | forward h => exact h.valid_iff
  | reverse hb hd hv hpost hU hx => simp [hv, hpost, shown_of_reverse hU hx]

/-- **The pair in front of the iterator is the one it shows.** -/
theorem Stands.shows (hL : Versioned L) {p : Bytes × Bytes} (h : Stands C it a (p :: b)) :
    it.key = p.1 ∧ it.value = p.2 := by
  generalize hpb : p :: b = pb at h
  cases h with
  | forward h =>
    refine h.shows C.forward (fun e he => hL.wellFormed e ?_) hpb.symm
    exact C.fwd_append h.position ▸ List.mem_append_right _ he
  | reverse hb hd hv hpost hU hx hk hval =>
    rw [hpost, shown_of_reverse hU hx] at hpb
    obtain ⟨rfl, -⟩ := List.cons.inj hpb
    have hne : ¬ it.direction = .kForward := by rw [hd]; decide
    rw [key, value, if_neg hne, if_neg hne]
    exact ⟨hk, hval⟩

/-! ## Moving forwards -/

/-- Looking for the next entry behind `x`, which is shown, with its key to be skipped. -/
theorem stands_skipping (it : DBIter ι) (hL : Versioned L) {pre U W : List Entry} {x : Entry}
    (hf : C.fwd it.iter pre (U ++ x :: W)) (hn : L.length ≤ it.rounds)
    (hd : it.direction = .kForward) (hU : ∀ u ∈ U, it.sequence < u.version.seq)
    (hx : Version.Seen (L.map Entry.version) it.sequence x.version)
    (hk : it.savedKey = x.version.key) :
    Iterator.valid it.iter = true ∧
    Stands C (findNextUserEntry it.rounds true it)
      (shown L it.sequence pre ++ [(x.version.key, x.value)]) (shown L it.sequence W) ∧
    (findNextUserEntry it.rounds true it).sequence = it.sequence ∧
    (findNextUserEntry it.rounds true it).rounds = it.rounds := by
  have happ := C.fwd_append hf
  obtain ⟨e, post, hpost⟩ : ∃ e post, U ++ x :: W = e :: post := by
    cases U with
    | nil => exact ⟨_, _, rfl⟩
    | cons u U => exact ⟨_, _, rfl⟩
  have hwf : ∀ y ∈ e :: post, y.WellFormed := fun y hy =>
    hL.wellFormed y (happ ▸ List.mem_append_right _ (hpost ▸ hy))
  have hlen : (e :: post).length ≤ it.rounds := by
    have := congrArg List.length happ
    rw [List.length_append, hpost] at this
    omega
  have hLver : L.map Entry.version = (pre.map Entry.version ++ U.map Entry.version)
      ++ x.version :: W.map Entry.version := by
    rw [← happ]
    simp
  have hscan : Version.scanFrom it.sequence (skip true it) ((e :: post).map Entry.version)
      = (W.map Entry.version).dropWhile
          fun v => ¬ Version.Seen (L.map Entry.version) it.sequence v := by
    have hr := hL.ranked
    rw [← hpost, List.map_append, Version.scanFrom_append_new (by simpa using hU), List.map_cons,
      skip, if_pos rfl, hk]
    rw [hLver] at hr hx ⊢
    exact Version.scanFrom_next hr hx
  rw [hpost] at hf
  obtain ⟨pre', post', hat, hseq, hrounds, -, h1, h2⟩ := findNextUserEntry_stops (K := U ++ [x])
    C.forward it.rounds true it hf hwf hlen hd (by rw [← hpost]; simp) hscan
  refine ⟨(C.fwd_cons hf).1, ?_, hseq, hrounds⟩
  have hst := Stands.forward hat
  rw [hseq, h1, h2, shown_append, shown_of_reverse hU hx] at hst
  exact hst

/-- **`Next` moves over one pair**, from either direction. -/
theorem Stands.next (hL : Versioned L) {p : Bytes × Bytes} (h : Stands C it a (p :: b))
    (hn : L.length ≤ it.rounds) :
    Stands C it.next (a ++ [p]) b ∧ it.next.sequence = it.sequence ∧
      it.next.rounds = it.rounds := by
  generalize hpb : p :: b = pb at h
  cases h with
  | @forward pre post h =>
    cases post with
    | nil => cases hpb
    | cons x W =>
      have hx := h.seen x rfl
      rw [shown_cons_of_seen hx] at hpb
      obtain ⟨rfl, rfl⟩ := List.cons.inj hpb
      have hwf : x.WellFormed :=
        hL.wellFormed x (C.fwd_append h.position ▸ List.mem_append_right _ List.mem_cons_self)
      have hkey : extractUserKey (Iterator.key it.iter) = x.version.key := by
        rw [(C.fwd_cons h.position).2.1, hwf.version_key]
      have hne : ¬ it.direction = .kReverse := by rw [h.direction]; decide
      rw [DBIter.next, if_neg hne]
      exact (stands_skipping (U := [])
        { it with savedKey := extractUserKey (Iterator.key it.iter) }
        hL h.position hn h.direction (by simp) hx hkey).2
  | @reverse r post U W x hb hd hv hpost hU hx hk hval =>
    rw [hpost, shown_of_reverse hU hx] at hpb
    obtain ⟨rfl, rfl⟩ := List.cons.inj hpb
    -- the internal iterator is before the entries of the key shown
    have hf : C.fwd (if Iterator.valid it.iter then Iterator.next it.iter
        else Iterator.seekToFirst it.iter) r.reverse post := by
      cases r with
      | nil =>
        have hall : post = L := C.bwd_append hb
        rw [C.bwd_nil hb, hall]
        exact C.seekToFirst_fwd (C.covers_bwd hb)
      | cons e r =>
        rw [(C.bwd_cons hb).1]
        exact C.next_bwd hb
    rw [hpost] at hf
    have hst := stands_skipping { it with
      direction := .kForward
      iter := if Iterator.valid it.iter then Iterator.next it.iter
        else Iterator.seekToFirst it.iter } hL hf hn rfl hU hx hk
    rw [DBIter.next, if_pos hd, if_pos hst.1]
    exact hst.2

/-! ## Moving backwards -/

theorem findPrevUserEntry_of_loop {valueType : ValueType} {it' : DBIter ι}
    (hv : Iterator.valid it.iter = true)
    (h : findPrevLoop it.rounds .kTypeDeletion it = (valueType, it')) :
    findPrevUserEntry it = if valueType = .kTypeDeletion then
      { it' with valid := false, savedKey := [], savedValue := [], direction := .kForward }
    else { it' with valid := true } := by
  rw [findPrevUserEntry, if_pos hv, h]

/-- What `FindPrevUserEntry` is to do with the pairs `shown` behind the iterator: show the nearest
one, or become invalid if there is none. -/
def FindsPrev (C : Cursor ι L) (it it' : DBIter ι) (r post : List Entry) : Prop :=
  it'.sequence = it.sequence ∧ it'.rounds = it.rounds ∧ C.covers it'.iter ∧
  match shown L it.sequence r with
  | [] => it'.valid = false
  | q :: l => Stands C it' l.reverse (q :: shown L it.sequence post)

/-- What a backward walk yields: nothing if none is seen, and otherwise the nearest entry `x` that is
seen, with entries too new to be seen between `x` and the rest. -/
theorem yields_entries {s : ℕ} {l r' : List Entry} {p : Option (Bytes × Bytes)}
    (h : Version.Yields (L.map Entry.version) s (l.map Entry.version)
      (p, r'.map Entry.version)) :
    (p = none ∧ shown L s l = []) ∨
      ∃ x W U R, p = some (x.version.key, x.value) ∧ l = W ++ x :: (U ++ R) ∧
        R.length = r'.length ∧ Version.Seen (L.map Entry.version) s x.version ∧
        shown L s W = [] ∧ ∀ u ∈ U, s < u.version.seq := by
  generalize hres : (p, r'.map Entry.version) = res at h
  cases h with
  | done hns =>
    exact .inl ⟨congrArg Prod.fst hres, shown_eq_nil fun x hx => hns _ (List.mem_map_of_mem hx)⟩
  | yield xv Wv Uv left hx hsplit hW hU =>
    obtain ⟨rfl, hleft⟩ := Prod.mk.inj hres
    obtain ⟨W, l₁, rfl, rfl, h₁⟩ := List.map_eq_append_iff.mp hsplit
    obtain ⟨x, l₂, rfl, rfl, h₂⟩ := List.map_eq_cons_iff.mp h₁
    obtain ⟨U, R, rfl, rfl, hR⟩ := List.map_eq_append_iff.mp h₂
    refine .inr ⟨x, W, U, R, ?_, rfl, ?_, hx, ?_, fun u hu => hU _ (List.mem_map_of_mem hu)⟩
    · rw [Version.pair, val_of_seen hx, Option.map_some]
    · simpa using congrArg List.length (hR.trans hleft.symm)
    · exact shown_eq_nil fun w hw => hW _ (List.mem_map_of_mem hw)

theorem findPrevUserEntry_spec (hL : Versioned L) (it : DBIter ι) {r post : List Entry}
    (hb : C.bwd it.iter r post) (hn : L.length ≤ it.rounds) (hd : it.direction = .kReverse) :
    FindsPrev C it (findPrevUserEntry it) r post := by
  have happ := C.bwd_append hb
  cases r with
  | nil =>
    have hv : ¬ Iterator.valid it.iter = true := by simp [C.bwd_nil hb]
    rw [findPrevUserEntry, if_neg hv]
    exact ⟨rfl, rfl, C.covers_bwd hb, rfl⟩
  | cons e r =>
    have hwf : ∀ x ∈ e :: r, x.WellFormed := fun x hx =>
      hL.wellFormed x (happ ▸ List.mem_append_left _ (List.mem_reverse.mpr hx))
    have hlen : (e :: r).length ≤ it.rounds := by
      have := congrArg List.length happ
      rw [List.length_append, List.length_reverse] at this
      omega
    obtain ⟨iter, r', post', t, k, v, hloop, hb', hscan⟩ :=
      findPrevLoop_spec C it.rounds .kTypeDeletion it e r post hb hwf hlen
    have hLver : L.map Entry.version
        = ((e :: r).map Entry.version).reverse ++ post.map Entry.version := by
      rw [← happ, List.map_append, List.map_reverse]
    have hy := Version.scanBack_yields it.sequence ((e :: r).map Entry.version)
      (post.map Entry.version) none (hLver ▸ hL.ranked) (by simp)
    rw [← hLver] at hy
    rw [findPrevUserEntry_of_loop (C.bwd_cons hb).1 hloop]
    have hres : Version.Yields (L.map Entry.version) it.sequence ((e :: r).map Entry.version)
        (saved t k v, r'.map Entry.version) := hscan ▸ hy
    rcases yields_entries hres with ⟨hsaved, hnil⟩ | ⟨x, W, U, R, hsaved, hr, hlenR, hx, hWs, hUs⟩
    · have ht : t = .kTypeDeletion := by
        by_contra ht
        rw [saved, if_neg ht] at hsaved
        cases hsaved
      rw [if_pos ht]
      refine ⟨rfl, rfl, C.covers_bwd hb', ?_⟩
      rw [hnil]
    · have ht : t ≠ .kTypeDeletion := by
        rintro rfl
        cases hsaved
      obtain ⟨rfl, rfl⟩ : k = x.version.key ∧ v = x.value := by
        simpa [saved, ht] using hsaved
      have hrr : post'.reverse ++ r' = (post.reverse ++ (W ++ x :: U)) ++ R := by
        have h1 := congrArg List.reverse ((C.bwd_append hb').trans happ.symm)
        rw [hr] at h1
        simpa using h1
      obtain ⟨hpost, rfl⟩ := List.append_inj' hrr hlenR.symm
      have hpost' : post' = U.reverse ++ x :: (W.reverse ++ post) := by
        have := congrArg List.reverse hpost
        simpa using this
      have hUrev : ∀ u ∈ U.reverse, it.sequence < u.version.seq := fun u hu =>
        hUs u (List.mem_reverse.mp hu)
      have hshown : shown L it.sequence (e :: r)
          = (x.version.key, x.value) :: shown L it.sequence r' := by
        rw [hr, shown_append, hWs, List.nil_append, shown_cons_of_seen hx, shown_append,
          shown_eq_nil fun u hu => not_seen_of_new (hUs u hu), List.nil_append]
      rw [if_neg ht]
      refine ⟨rfl, rfl, C.covers_bwd hb', ?_⟩
      rw [hshown]
      have hst : Stands C { it with
          iter := iter, savedKey := x.version.key, savedValue := x.value, valid := true } _ _ :=
        .reverse hb' hd rfl hpost' hUrev hx rfl rfl
      rw [hpost', shown_of_reverse hUrev hx, shown_append, shown_reverse, shown_reverse, hWs] at hst
      exact hst

/-- Leaving the entries of a key backwards passes those whose key is not smaller. -/
theorem leaveKey_spec (C : Cursor ι L) : ∀ (n : ℕ) (it : DBIter ι) (r post : List Entry),
    C.bwd (Iterator.prev it.iter) r post → r.length < n →
      ∃ iter M r' post', leaveKey n it = (!r'.isEmpty, { it with iter := iter }) ∧
        C.bwd iter r' post' ∧ r = M ++ r' ∧ post' = M.reverse ++ post ∧
        ∀ x ∈ M, ¬ extractUserKey x.key < it.savedKey := by
  intro n
  induction n with
  | zero => intro _ _ _ _ hn; omega
  | succ n ih =>
    intro it r post hb hn
    cases r with
    | nil =>
      refine ⟨Iterator.prev it.iter, [], [], post, ?_, hb, rfl, rfl, by simp⟩
      simp [leaveKey, C.bwd_nil hb]
    | cons y r =>
      obtain ⟨hv, hk, -⟩ := C.bwd_cons hb
      by_cases hlt : Slice.compare (extractUserKey y.key) it.savedKey < 0
      · refine ⟨Iterator.prev it.iter, [], y :: r, post, ?_, hb, rfl, rfl, by simp⟩
        simp [leaveKey, hv, hk, hlt]
      · obtain ⟨iter, M, r', post', h1, h2, h3, h4, h5⟩ :=
          ih { it with iter := Iterator.prev it.iter } r (y :: post) (C.prev_bwd hb)
            (by simpa using hn)
        refine ⟨iter, y :: M, r', post', ?_, h2, by rw [h3]; rfl, by rw [h4]; simp, ?_⟩
        · simp only [leaveKey, hv, hk, hlt, if_true, if_false]
          exact h1
        · intro x hx
          rcases List.mem_cons.mp hx with rfl | hx
          · rwa [← Slice.compare_neg_iff]
          · exact h5 x hx

/-- Before an entry that is seen, the versions of its key are too new to be seen. -/
theorem not_seen_of_key_le (hL : Versioned L) {s : ℕ} {A M W : List Entry} {x y : Entry}
    (happ : A ++ M ++ x :: W = L) (hx : Version.Seen (L.map Entry.version) s x.version)
    (hy : y ∈ M) (hk : ¬ extractUserKey y.key < x.version.key) :
    ¬ Version.Seen (L.map Entry.version) s y.version := by
  intro hseen
  have hyL : y ∈ L := happ ▸ List.mem_append_left _ (List.mem_append_right _ hy)
  have hrank : y.version.rank < x.version.rank := by
    have hr : Version.Ranked (L.map Entry.version) := hL.ranked
    rw [← happ, List.map_append, List.map_cons] at hr
    refine (List.pairwise_append.mp hr).2.2 _ ?_ _ List.mem_cons_self
    exact List.mem_map_of_mem (List.mem_append_right _ hy)
  rw [← (hL.wellFormed y hyL).version_key] at hk
  rcases Version.rank_lt_iff.mp hrank with hl | ⟨hkey, hl⟩
  · exact hk hl
  · exact absurd (hx.2.2 _ (List.mem_map_of_mem hyL) hkey hseen.2.1) (not_le.mpr hl)

/-- **`Prev` moves back over one pair**, from either direction; at the first pair it ends. -/
theorem Stands.prev (hL : Versioned L) (h : Stands C it a b) (hb : b ≠ [])
    (hn : L.length ≤ it.rounds) :
    it.prev.sequence = it.sequence ∧ it.prev.rounds = it.rounds ∧ C.covers it.prev.iter ∧
      match a.reverse with
      | [] => it.prev.valid = false
      | q :: l => Stands C it.prev l.reverse (q :: b) := by
  cases h with
  | @forward pre post h =>
    cases post with
    | nil => exact absurd rfl hb
    | cons x W =>
      have hx := h.seen x rfl
      have happ := C.fwd_append h.position
      have hwf : x.WellFormed :=
        hL.wellFormed x (happ ▸ List.mem_append_right _ List.mem_cons_self)
      have hkey : extractUserKey (Iterator.key it.iter) = x.version.key := by
        rw [(C.fwd_cons h.position).2.1, hwf.version_key]
      have hlen : pre.reverse.length < it.rounds := by
        have := congrArg List.length happ
        rw [List.length_append, List.length_cons] at this
        rw [List.length_reverse]
        omega
      obtain ⟨iter, M, r', post', h1, h2, h3, h4, h5⟩ := leaveKey_spec C it.rounds
        { it with savedKey := extractUserKey (Iterator.key it.iter) } pre.reverse (x :: W)
        (C.prev_fwd h.position) hlen
      have hpre : pre = r'.reverse ++ M.reverse := by
        rw [← List.reverse_append, ← h3, List.reverse_reverse]
      have hMs : shown L it.sequence M = [] := by
        refine shown_eq_nil fun y hy => ?_
        refine not_seen_of_key_le hL (hpre ▸ happ) hx (List.mem_reverse.mpr hy) ?_
        rw [← hkey]
        exact h5 y hy
      have ha : (shown L it.sequence pre).reverse = shown L it.sequence r' := by
        rw [← shown_reverse, h3, shown_append, hMs, List.nil_append]
      rw [ha]
      cases r' with
      | nil =>
        rw [DBIter.prev, if_pos h.direction, h1]
        exact ⟨rfl, rfl, C.covers_bwd h2, rfl⟩
      | cons y r' =>
        obtain ⟨hs1, hs2, hs3, hs4⟩ := findPrevUserEntry_spec hL
          { it with
            savedKey := extractUserKey (Iterator.key it.iter)
            iter := iter
            direction := .kReverse } h2 hn rfl
        have hpost : shown L it.sequence post' = shown L it.sequence (x :: W) := by
          rw [h4, shown_append, shown_reverse, hMs, List.reverse_nil, List.nil_append]
        rw [DBIter.prev, if_pos h.direction, h1]
        refine ⟨hs1, hs2, hs3, ?_⟩
        rw [← hpost]
        exact hs4
  | @reverse r post U W x hbw hd hv hpost hU hx hk hval =>
    have hne : ¬ it.direction = .kForward := by rw [hd]; decide
    rw [DBIter.prev, if_neg hne, ← shown_reverse, List.reverse_reverse]
    exact findPrevUserEntry_spec hL it hbw hn hd

/-! ## Starting -/

section Start

variable (C) (hL : Versioned L) (ho : C.covers it.iter) (hn : L.length ≤ it.rounds)
include hL ho hn

/-- **A seek stands at the first pair whose key is not before the key sought.** -/
theorem stands_seek (hs : it.sequence ≤ kMaxSequenceNumber) (k : Bytes) :
    Stands C (it.seek k) ((shown L it.sequence L).takeWhile fun p => p.1 < k)
      ((shown L it.sequence L).dropWhile fun p => p.1 < k) ∧
    (it.seek k).sequence = it.sequence ∧ (it.seek k).rounds = it.rounds := by
  obtain ⟨pre, post, hat, hseq, hrounds, -, h1, h2⟩ :=
    seek_forwardAt hL C.forward k hs hn (C.seek_fwd ho _)
  refine ⟨?_, hseq, hrounds⟩
  have hst := Stands.forward hat
  rwa [hseq, h1, h2] at hst

/-- **`SeekToFirst` stands before all pairs.** -/
theorem stands_seekToFirst :
    Stands C it.seekToFirst [] (shown L it.sequence L) ∧
    it.seekToFirst.sequence = it.sequence ∧ it.seekToFirst.rounds = it.rounds := by
  obtain ⟨D, hD, hf⟩ : ∃ D, D = L ∧ C.fwd (Iterator.seekToFirst it.iter) [] D :=
    ⟨L, rfl, C.seekToFirst_fwd ho⟩
  cases D with
  | nil =>
    have hv : ¬ Iterator.valid (Iterator.seekToFirst it.iter) = true := by simp [C.fwd_nil hf]
    have hnone : shown L it.sequence L = [] := by
      rw [← hD]
      rfl
    have hat : ForwardAt C.fwd L { it with
        direction := .kForward, savedValue := [], iter := Iterator.seekToFirst it.iter,
        valid := false } [] [] := ⟨hf, rfl, rfl, by simp⟩
    have hst := Stands.forward hat
    rw [seekToFirst, if_neg hv, hnone]
    exact ⟨hst, rfl, rfl⟩
  | cons e D =>
    have hscan : Version.scanFrom it.sequence none ((e :: D).map Entry.version)
        = ((e :: D).map Entry.version).dropWhile
            fun v => ¬ Version.Seen (L.map Entry.version) it.sequence v := by
      rw [hD]
      exact Version.scanFrom_eq_dropWhile it.sequence _ [] none hL.ranked
        (Version.skipOk_none (by simp))
    obtain ⟨pre, post, hat, hseq, hrounds, -, h1, h2⟩ := findNextUserEntry_stops (K := [])
      C.forward it.rounds false { it with
        direction := .kForward, savedValue := [], iter := Iterator.seekToFirst it.iter } hf
      (fun x hx => hL.wellFormed x (hD ▸ hx)) (hD ▸ hn) rfl rfl hscan
    rw [seekToFirst, if_pos (C.fwd_cons hf).1]
    have hst := Stands.forward hat
    rw [hseq, h1, h2, hD] at hst
    exact ⟨hst, hseq, hrounds⟩

/-- **`SeekToLast` stands at the last pair.** -/
theorem stands_seekToLast :
    it.seekToLast.sequence = it.sequence ∧ it.seekToLast.rounds = it.rounds ∧
      C.covers it.seekToLast.iter ∧
      match (shown L it.sequence L).reverse with
      | [] => it.seekToLast.valid = false
      | q :: l => Stands C it.seekToLast l.reverse [q] := by
  have hb := C.seekToLast_bwd ho
  have h := findPrevUserEntry_spec hL
    { it with direction := .kReverse, savedValue := [], iter := Iterator.seekToLast it.iter } hb hn
    rfl
  simp only [FindsPrev, shown_reverse] at h
  exact h

end Start

end Leveldb.DBIter
