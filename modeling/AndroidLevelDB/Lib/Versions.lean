import Mathlib.Data.Prod.Lex
import Mathlib.Data.List.Sort
import Mathlib.Data.Set.Basic
import Mathlib.Order.Lattice

/-!
# Lib/Versions — multi-version maps read at a sequence number

A store keeps many *versions* of a key; a reader at sequence number `s` sees, for each key, the
newest version not above `s`, and a version without a value is a deletion.

The algorithms here walk a list sorted by key and, inside a key, newest first:

* `scanFrom` walks forwards, remembering the last key it must skip; `scanFrom_eq_dropWhile` says it
  stops exactly at the next version a reader sees.
* `scanBack` walks backwards, remembering the last version it may have to yield; `scanBack_spec`
  says it yields the same versions in the opposite order.
-/

open OrderDual

variable {κ ν : Type*} [LinearOrder κ]

/-- One version of a key.  `val = none` is a deletion. -/
structure Version (κ ν : Type*) where
  key : κ
  seq : ℕ
  val : Option ν
deriving DecidableEq

namespace Version

/-- Keys ascending and, inside a key, newest first. -/
def rank (e : Version κ ν) : κ ×ₗ ℕᵒᵈ := toLex (e.key, toDual e.seq)

theorem rank_lt_iff {a b : Version κ ν} :
    a.rank < b.rank ↔ a.key < b.key ∨ a.key = b.key ∧ b.seq < a.seq := by
  simp [rank, Prod.Lex.toLex_lt_toLex]

/-- `e` is the newest version of its key at sequence number `s`. -/
def Newest (S : Set (Version κ ν)) (s : ℕ) (e : Version κ ν) : Prop :=
  e ∈ S ∧ e.seq ≤ s ∧ ∀ e' ∈ S, e'.key = e.key → e'.seq ≤ s → e'.seq ≤ e.seq

/-- A reader at `s` finds `r` under `k`: the value of the newest version, nothing if that is a
deletion or if there is none. -/
def Reads (S : Set (Version κ ν)) (s : ℕ) (k : κ) : Option ν → Prop
  | some v => ∃ e, Newest S s e ∧ e.key = k ∧ e.val = some v
  | none => ∀ e, Newest S s e → e.key = k → e.val = none

/-- The pairs a reader at `s` sees. -/
def Visible (S : Set (Version κ ν)) (s : ℕ) : Set (κ × ν) :=
  {p | ∃ e, Newest S s e ∧ e.key = p.1 ∧ e.val = some p.2}

omit [LinearOrder κ] in
/-- **Versions above the reader's sequence number are invisible to it.** -/
theorem newest_congr {S T : Set (Version κ ν)} {s : ℕ}
    (h : ∀ e : Version κ ν, e.seq ≤ s → (e ∈ S ↔ e ∈ T)) (e : Version κ ν) :
    Newest S s e ↔ Newest T s e := by
  constructor
  · rintro ⟨hm, hs, hmax⟩
    exact ⟨(h e hs).mp hm, hs, fun e' he' hk hs' => hmax e' ((h e' hs').mpr he') hk hs'⟩
  · rintro ⟨hm, hs, hmax⟩
    exact ⟨(h e hs).mpr hm, hs, fun e' he' hk hs' => hmax e' ((h e' hs').mp he') hk hs'⟩

omit [LinearOrder κ] in
theorem reads_congr {S T : Set (Version κ ν)} {s : ℕ}
    (h : ∀ e : Version κ ν, e.seq ≤ s → (e ∈ S ↔ e ∈ T)) (k : κ) (r : Option ν) :
    Reads S s k r ↔ Reads T s k r := by
  cases r <;> simp only [Reads, newest_congr h]

/-- No two versions share a key and a sequence number. -/
def Distinct (S : Set (Version κ ν)) : Prop :=
  ∀ a ∈ S, ∀ b ∈ S, a.key = b.key → a.seq = b.seq → a = b

omit [LinearOrder κ] in
theorem Newest.unique {S : Set (Version κ ν)} (hS : Distinct S) {s : ℕ} {a b : Version κ ν}
    (ha : Newest S s a) (hb : Newest S s b) (hk : a.key = b.key) : a = b :=
  hS a ha.1 b hb.1 hk
    (le_antisymm (hb.2.2 a ha.1 hk ha.2.1) (ha.2.2 b hb.1 hk.symm hb.2.1))

omit [LinearOrder κ] in
/-- **A reader finds one thing under a key.** -/
theorem Reads.unique {S : Set (Version κ ν)} (hS : Distinct S) {s : ℕ} {k : κ} {r r' : Option ν}
    (h : Reads S s k r) (h' : Reads S s k r') : r = r' := by
  cases r with
  | none =>
    cases r' with
    | none => rfl
    | some v =>
      obtain ⟨e, he, hk, hv⟩ := h'
      exact absurd (h e he hk) (by simp [hv])
  | some v =>
    obtain ⟨e, he, hk, hv⟩ := h
    cases r' with
    | none => exact absurd (h' e he hk) (by simp [hv])
    | some v' =>
      obtain ⟨e', he', hk', hv'⟩ := h'
      obtain rfl := he.unique hS he' (hk.trans hk'.symm)
      exact hv.symm.trans hv'

/-! ## Versions in a sorted list -/

/-- Strictly ascending in `rank`: sorted, and no two versions share key and sequence number. -/
def Ranked (l : List (Version κ ν)) : Prop := l.Pairwise fun a b => a.rank < b.rank

/-- The reader at `s` sees the version `e` of `L`. -/
def Seen (L : List (Version κ ν)) (s : ℕ) (e : Version κ ν) : Prop :=
  e.val.isSome ∧ e.seq ≤ s ∧ ∀ e' ∈ L, e'.key = e.key → e'.seq ≤ s → e'.seq ≤ e.seq

instance (L : List (Version κ ν)) (s : ℕ) : DecidablePred (Seen L s) :=
  fun _ => inferInstanceAs (Decidable (_ ∧ _ ∧ _))

omit [LinearOrder κ] in
theorem newest_iff_seen {L : List (Version κ ν)} {s : ℕ} {e : Version κ ν} {v : ν}
    (hv : e.val = some v) : Newest {x | x ∈ L} s e ↔ e ∈ L ∧ Seen L s e := by
  simp [Newest, Seen, hv]

/-- In a ranked list the versions after `e` with `e`'s key are older. -/
theorem Ranked.seq_lt_of_key {pre l : List (Version κ ν)} {e : Version κ ν}
    (h : Ranked (pre ++ e :: l)) {e' : Version κ ν} (he' : e' ∈ l) (hk : e'.key = e.key) :
    e'.seq < e.seq := by
  have hlt := (List.pairwise_cons.mp (List.pairwise_append.mp h).2.1).1 e' he'
  rcases rank_lt_iff.mp hlt with hl | ⟨-, hl⟩
  · exact absurd hk hl.ne'
  · exact hl

/-- In a ranked list keys never decrease. -/
theorem Ranked.key_le {pre l : List (Version κ ν)} {e : Version κ ν}
    (h : Ranked (pre ++ e :: l)) {e' : Version κ ν} (he' : e' ∈ l) : e.key ≤ e'.key := by
  have hlt := (List.pairwise_cons.mp (List.pairwise_append.mp h).2.1).1 e' he'
  rcases rank_lt_iff.mp hlt with hl | ⟨hl, -⟩
  · exact hl.le
  · exact hl.le

/-- A version is seen iff it has a value and nothing before it in the list is a version of the same
key that the reader may see: what comes after is older. -/
theorem Ranked.seen_iff {pre l : List (Version κ ν)} {e : Version κ ν}
    (h : Ranked (pre ++ e :: l)) {s : ℕ} :
    Seen (pre ++ e :: l) s e ↔
      e.val.isSome ∧ e.seq ≤ s ∧ ∀ e' ∈ pre, e'.key = e.key → s < e'.seq := by
  constructor
  · rintro ⟨hv, hs, hmax⟩
    refine ⟨hv, hs, fun e' he' hk => ?_⟩
    by_contra hle
    have hold := hmax e' (List.mem_append_left _ he') hk (not_lt.mp hle)
    have hrank := (List.pairwise_append.mp h).2.2 e' he' e List.mem_cons_self
    rcases rank_lt_iff.mp hrank with hl | ⟨-, hl⟩
    · exact absurd hk hl.ne
    · exact absurd hold (not_le.mpr hl)
  · rintro ⟨hv, hs, hpre⟩
    refine ⟨hv, hs, fun e' he' hk hs' => ?_⟩
    rcases List.mem_append.mp he' with hm | hm
    · exact absurd hs' (not_le.mpr (hpre e' hm hk))
    · rcases List.mem_cons.mp hm with rfl | hm
      · exact le_rfl
      · exact (h.seq_lt_of_key hm hk).le

/-! ## The forward walk -/

/-- Is a version of `k` to be skipped?  `skip` is the last key whose versions are hidden. -/
def Skipped (skip : Option κ) (k : κ) : Prop := ∃ k₀ ∈ skip, k ≤ k₀

instance (skip : Option κ) (k : κ) : Decidable (Skipped skip k) :=
  match skip with
  | none => isFalse (by simp [Skipped])
  | some k₀ => decidable_of_iff (k ≤ k₀) (by simp [Skipped])

/-- **The forward walk**: the suffix of `l` that starts at the next version the reader yields. -/
def scanFrom (s : ℕ) : Option κ → List (Version κ ν) → List (Version κ ν)
  | _, [] => []
  | skip, e :: l =>
    if e.seq ≤ s then
      match e.val with
      | none => scanFrom s (some e.key) l
      | some _ => if Skipped skip e.key then scanFrom s skip l else e :: l
    else scanFrom s skip l

/-- `skip` tells exactly which readable versions of `l` are hidden by one of `pre`. -/
def SkipOk (pre l : List (Version κ ν)) (s : ℕ) (skip : Option κ) : Prop :=
  ∀ e ∈ l, e.seq ≤ s → (Skipped skip e.key ↔ ∃ e' ∈ pre, e'.key = e.key ∧ e'.seq ≤ s)

/-- Passing a version the reader may not see changes nothing. -/
theorem SkipOk.cons_new {pre l : List (Version κ ν)} {s : ℕ} {skip : Option κ} {e : Version κ ν}
    (h : SkipOk pre (e :: l) s skip) (hs : ¬ e.seq ≤ s) : SkipOk (pre ++ [e]) l s skip := by
  intro e' he' hs'
  rw [h e' (List.mem_cons_of_mem _ he') hs']
  constructor
  · rintro ⟨x, hx, hk, hxs⟩
    exact ⟨x, List.mem_append_left _ hx, hk, hxs⟩
  · rintro ⟨x, hx, hk, hxs⟩
    rcases List.mem_append.mp hx with hx | hx
    · exact ⟨x, hx, hk, hxs⟩
    · obtain rfl := List.mem_singleton.mp hx
      exact absurd hxs hs

/-- Passing a readable version of `e.key`, with that key to be skipped from here on. -/
theorem SkipOk.cons_skip {pre l : List (Version κ ν)} {s : ℕ} {e : Version κ ν}
    (hr : Ranked (pre ++ e :: l)) (hs : e.seq ≤ s) : SkipOk (pre ++ [e]) l s (some e.key) := by
  intro e' he' _
  simp only [Skipped, Option.mem_some_iff, exists_eq_left']
  constructor
  · intro hle
    exact ⟨e, by simp, le_antisymm (hr.key_le he') hle, hs⟩
  · rintro ⟨x, hx, hk, -⟩
    rcases List.mem_append.mp hx with hx | hx
    · -- `x` precedes `e`, so its key is at most `e.key`
      have := (List.pairwise_append.mp hr).2.2 x hx e List.mem_cons_self
      rcases rank_lt_iff.mp this with hl | ⟨hl, -⟩
      · exact hk ▸ hl.le
      · exact hk ▸ hl.le
    · obtain rfl := List.mem_singleton.mp hx
      exact hk.ge

/-- Passing a readable version that is hidden already. -/
theorem SkipOk.cons_hidden {pre l : List (Version κ ν)} {s : ℕ} {skip : Option κ} {e : Version κ ν}
    (h : SkipOk pre (e :: l) s skip) (hs : e.seq ≤ s) (hsk : Skipped skip e.key) :
    SkipOk (pre ++ [e]) l s skip := by
  intro e' he' hs'
  rw [h e' (List.mem_cons_of_mem _ he') hs']
  constructor
  · rintro ⟨x, hx, hk, hxs⟩
    exact ⟨x, List.mem_append_left _ hx, hk, hxs⟩
  · rintro ⟨x, hx, hk, hxs⟩
    rcases List.mem_append.mp hx with hx | hx
    · exact ⟨x, hx, hk, hxs⟩
    · obtain rfl := List.mem_singleton.mp hx
      obtain ⟨y, hy, hyk, hys⟩ := (h x List.mem_cons_self hs).mp hsk
      exact ⟨y, hy, hyk.trans hk, hys⟩

/-- **The forward walk stops exactly at the next version the reader sees.** -/
theorem scanFrom_eq_dropWhile (s : ℕ) : ∀ (l pre : List (Version κ ν)) (skip : Option κ),
    Ranked (pre ++ l) → SkipOk pre l s skip →
      scanFrom s skip l = l.dropWhile fun e => ¬ Seen (pre ++ l) s e := by
  intro l
  induction l with
  | nil => intro _ _ _ _; rfl
  | cons e l ih =>
    intro pre skip hr hok
    have hassoc : pre ++ e :: l = (pre ++ [e]) ++ l := by simp
    have hr' : Ranked ((pre ++ [e]) ++ l) := hassoc ▸ hr
    have hpass : ¬ Seen (pre ++ e :: l) s e → ∀ skip', SkipOk (pre ++ [e]) l s skip' →
        scanFrom s skip' l = (e :: l).dropWhile fun e' => ¬ Seen (pre ++ e :: l) s e' := by
      intro hns skip' hok'
      rw [List.dropWhile_cons_of_pos (by simpa using hns), ih _ _ hr' hok', hassoc]
    rw [scanFrom]
    by_cases hs : e.seq ≤ s
    · rw [if_pos hs]
      cases hv : e.val with
      | none =>
        exact hpass (fun h => by simp [Seen, hv] at h) _ (SkipOk.cons_skip hr hs)
      | some v =>
        by_cases hsk : Skipped skip e.key
        · rw [if_pos hsk]
          refine hpass (fun h => ?_) _ (hok.cons_hidden hs hsk)
          obtain ⟨x, hx, hk, hxs⟩ := (hok e List.mem_cons_self hs).mp hsk
          exact absurd hxs (not_le.mpr ((hr.seen_iff.mp h).2.2 x hx hk))
        · rw [if_neg hsk, List.dropWhile_cons_of_neg]
          simp only [decide_not, Bool.not_eq_true', decide_eq_false_iff_not, not_not]
          refine hr.seen_iff.mpr ⟨by simp [hv], hs, fun x hx hk => ?_⟩
          by_contra hle
          exact hsk ((hok e List.mem_cons_self hs).mpr ⟨x, hx, hk, not_lt.mp hle⟩)
    · rw [if_neg hs]
      exact hpass (fun h => hs h.2.1) _ (hok.cons_new hs)

/-- At the start of a list, or of any key, nothing is to be skipped. -/
theorem skipOk_none {pre l : List (Version κ ν)} {s : ℕ}
    (h : ∀ e ∈ l, e.seq ≤ s → ∀ e' ∈ pre, e'.key = e.key → s < e'.seq) :
    SkipOk pre l s none := by
  intro e he hs
  simp only [Skipped, Option.mem_def, reduceCtorEq, false_and, exists_false, false_iff]
  rintro ⟨e', he', hk, hs'⟩
  exact absurd hs' (not_le.mpr (h e he hs e' he' hk))

/-- **From a version the reader sees, the walk goes on to the next one.** -/
theorem scanFrom_next {pre l : List (Version κ ν)} {s : ℕ} {e : Version κ ν}
    (hr : Ranked (pre ++ e :: l)) (he : Seen (pre ++ e :: l) s e) :
    scanFrom s (some e.key) (e :: l) = l.dropWhile fun e' => ¬ Seen (pre ++ e :: l) s e' := by
  obtain ⟨hv, hs, -⟩ := he
  obtain ⟨v, hv⟩ := Option.isSome_iff_exists.mp hv
  have hassoc : pre ++ e :: l = (pre ++ [e]) ++ l := by simp
  have hskip : Skipped (some e.key) e.key := ⟨e.key, rfl, le_rfl⟩
  simp only [scanFrom, if_pos hs, hv, if_pos hskip]
  rw [scanFrom_eq_dropWhile s l (pre ++ [e]) _ (hassoc ▸ hr) (SkipOk.cons_skip hr hs), hassoc]

/-! ## The backward walk -/

/-- **The backward walk** over a list in descending order: the pair it yields and what is left.
`saved` is the pair to be yielded once every version of its key has been passed. -/
def scanBack (s : ℕ) : Option (κ × ν) → List (Version κ ν) → Option (κ × ν) × List (Version κ ν)
  | saved, [] => (saved, [])
  | saved, e :: r =>
    if e.seq ≤ s then
      if ∃ p ∈ saved, e.key < p.1 then (saved, e :: r)
      else scanBack s (e.val.map fun v => (e.key, v)) r
    else scanBack s saved r

/-- The pair a version yields. -/
def pair (e : Version κ ν) : Option (κ × ν) := e.val.map fun v => (e.key, v)

/-- `e` may still have to be yielded: only versions in `r` could hide it. -/
structure Candidate (L r : List (Version κ ν)) (s : ℕ) (e : Version κ ν) : Prop where
  isSome : e.val.isSome
  le : e.seq ≤ s
  newer : ∀ x ∈ L, x.key = e.key → x.seq ≤ s → e.seq < x.seq → x ∈ r
  before : ∀ x ∈ r, x.rank < e.rank

/-- A candidate that nothing in `r` hides is seen. -/
theorem Candidate.seen {L r : List (Version κ ν)} {s : ℕ} {e : Version κ ν}
    (h : Candidate L r s e) (hr : ∀ x ∈ r, x.seq ≤ s → x.key ≠ e.key) : Seen L s e := by
  refine ⟨h.isSome, h.le, fun x hx hk hs => ?_⟩
  by_contra hlt
  exact hr x (h.newer x hx hk hs (not_le.mp hlt)) hs hk

/-- A readable version with a value becomes the candidate when it is passed. -/
theorem candidate_of_ranked {r post : List (Version κ ν)} {s : ℕ} {e : Version κ ν}
    (h : Ranked ((e :: r).reverse ++ post)) (hv : e.val.isSome) (hs : e.seq ≤ s) :
    Candidate ((e :: r).reverse ++ post) r s e := by
  have hsplit : (e :: r).reverse ++ post = r.reverse ++ e :: post := by simp
  rw [hsplit] at h ⊢
  refine ⟨hv, hs, fun x hx hk hxs hlt => ?_, fun x hx => ?_⟩
  · rcases List.mem_append.mp hx with hx | hx
    · exact List.mem_reverse.mp hx
    · rcases List.mem_cons.mp hx with rfl | hx
      · exact absurd hlt (lt_irrefl _)
      · exact absurd hlt (h.seq_lt_of_key hx hk).not_gt
  · exact (List.pairwise_append.mp h).2.2 x (List.mem_reverse.mpr hx) e List.mem_cons_self

/-- What a backward walk over `l` yields: a version `x` the reader sees, having passed only
versions it does not see, with nothing readable between `x` and the list `left`; or nothing. -/
inductive Yields (L : List (Version κ ν)) (s : ℕ) (l : List (Version κ ν)) :
    Option (κ × ν) × List (Version κ ν) → Prop
  | yield (x : Version κ ν) (W U left : List (Version κ ν)) : Seen L s x →
      l = W ++ x :: (U ++ left) → (∀ w ∈ W, ¬ Seen L s w) → (∀ u ∈ U, s < u.seq) →
      Yields L s l (pair x, left)
  | done : (∀ w ∈ l, ¬ Seen L s w) → Yields L s l (none, [])

omit [LinearOrder κ] in
/-- A version the reader may not see can be put in front, behind the candidate. -/
theorem Yields.cons_new {L : List (Version κ ν)} {s : ℕ} {c : Option (Version κ ν)}
    {r : List (Version κ ν)} {y : Version κ ν} {res : Option (κ × ν) × List (Version κ ν)}
    (h : Yields L s (c.toList ++ r) res) (hy : s < y.seq) :
    Yields L s (c.toList ++ y :: r) res := by
  have hns : ¬ Seen L s y := fun h => absurd h.2.1 (not_le.mpr hy)
  cases h with
  | done hl =>
    refine .done fun w hw => ?_
    rcases List.mem_append.mp hw with hw | hw
    · exact hl w (List.mem_append_left _ hw)
    · rcases List.mem_cons.mp hw with rfl | hw
      · exact hns
      · exact hl w (List.mem_append_right _ hw)
  | yield x W U left hx hl hW hU =>
    cases c with
    | none =>
      refine .yield x (y :: W) U left hx (by simpa using hl) (fun w hw => ?_) hU
      rcases List.mem_cons.mp hw with rfl | hw
      · exact hns
      · exact hW w hw
    | some z =>
      cases W with
      | nil =>
        obtain ⟨rfl, rfl⟩ := List.cons.inj hl
        refine .yield z [] (y :: U) left hx rfl (by simp) fun u hu => ?_
        rcases List.mem_cons.mp hu with rfl | hu
        · exact hy
        · exact hU u hu
      | cons w W =>
        obtain ⟨rfl, rfl⟩ := List.cons.inj hl
        refine .yield x (z :: y :: W) U left hx rfl (fun w hw => ?_) hU
        rcases List.mem_cons.mp hw with rfl | hw
        · exact hW w List.mem_cons_self
        · rcases List.mem_cons.mp hw with rfl | hw
          · exact hns
          · exact hW w (List.mem_cons_of_mem _ hw)

omit [LinearOrder κ] in
/-- Versions that are not seen can be put in front. -/
theorem Yields.append {L : List (Version κ ν)} {s : ℕ} {M l : List (Version κ ν)}
    {res : Option (κ × ν) × List (Version κ ν)} (h : Yields L s l res)
    (hM : ∀ w ∈ M, ¬ Seen L s w) : Yields L s (M ++ l) res := by
  cases h with
  | done hl =>
    refine .done fun w hw => ?_
    rcases List.mem_append.mp hw with hw | hw
    · exact hM w hw
    · exact hl w hw
  | yield x W U left hx hl hW hU =>
    refine .yield x (M ++ W) U left hx (by rw [hl, List.append_assoc]) (fun w hw => ?_) hU
    rcases List.mem_append.mp hw with hw | hw
    · exact hM w hw
    · exact hW w hw

/-- The candidate is not seen if the next readable version has its key. -/
theorem Candidate.not_seen {L r : List (Version κ ν)} {s : ℕ} {e y : Version κ ν}
    (h : Candidate L r s e) (hyL : y ∈ L) (hy : y ∈ r) (hs : y.seq ≤ s) (hk : ¬ y.key < e.key) :
    ¬ Seen L s e := by
  intro hseen
  rcases rank_lt_iff.mp (h.before y hy) with hl | ⟨hk', hl⟩
  · exact hk hl
  · exact absurd (hseen.2.2 y hyL hk' hs) (not_le.mpr hl)

/-- **The backward walk yields the next version the reader sees.** -/
theorem scanBack_yields (s : ℕ) : ∀ (r post : List (Version κ ν)) (c : Option (Version κ ν)),
    Ranked (r.reverse ++ post) → (∀ e ∈ c, Candidate (r.reverse ++ post) r s e) →
      Yields (r.reverse ++ post) s (c.toList ++ r) (scanBack s (c.bind pair) r) := by
  intro r
  induction r with
  | nil =>
    intro post c _ hc
    cases c with
    | none => exact .done (by simp)
    | some e => exact .yield e [] [] [] ((hc e rfl).seen (by simp)) rfl (by simp) (by simp)
  | cons y r ih =>
    intro post c hr hc
    have hsplit : (y :: r).reverse ++ post = r.reverse ++ y :: post := by simp
    have hyL : y ∈ (y :: r).reverse ++ post := by simp
    rw [scanBack]
    by_cases hs : y.seq ≤ s
    · rw [if_pos hs]
      by_cases hbreak : ∃ p ∈ c.bind pair, y.key < p.1
      · -- the walk has left the candidate's key
        rw [if_pos hbreak]
        obtain ⟨p, hp, hlt⟩ := hbreak
        obtain ⟨e, rfl, hep⟩ := Option.bind_eq_some_iff.mp hp
        obtain ⟨v, -, rfl⟩ := Option.map_eq_some_iff.mp hep
        refine .yield e [] [] (y :: r) ((hc e rfl).seen fun x hx _ hk => ?_) rfl (by simp)
          (by simp)
        have hxy : x.key ≤ y.key := by
          rcases List.mem_cons.mp hx with rfl | hx
          · exact le_rfl
          · have hxy := (List.pairwise_append.mp (hsplit ▸ hr)).2.2 x
              (List.mem_reverse.mpr hx) y List.mem_cons_self
            rcases rank_lt_iff.mp hxy with hl | ⟨hl, -⟩
            · exact hl.le
            · exact hl.le
        exact absurd (hk ▸ hxy) (not_le.mpr hlt)
      · -- `y` hides the candidate, or there was none: `y` is looked at instead
        rw [if_neg hbreak]
        have hdrop : ∀ e ∈ c.toList, ¬ Seen ((y :: r).reverse ++ post) s e := by
          intro e he
          obtain rfl : c = some e := by simpa using he
          have hcand := hc e rfl
          obtain ⟨v, hv⟩ := Option.isSome_iff_exists.mp hcand.isSome
          refine hcand.not_seen hyL List.mem_cons_self hs fun hlt => hbreak ⟨(e.key, v), ?_, hlt⟩
          simp [pair, hv]
        refine Yields.append ?_ hdrop
        rw [hsplit] at hr ⊢
        cases hv : y.val with
        | none =>
          have hy : ∀ w ∈ [y], ¬ Seen (r.reverse ++ y :: post) s w := by
            simp [Seen, hv]
          exact (ih (y :: post) none hr (by simp)).append hy
        | some v =>
          have hcand : ∀ e ∈ some y, Candidate (r.reverse ++ y :: post) r s e := by
            intro e he
            obtain rfl := Option.mem_some_iff.mp he
            exact hsplit ▸ candidate_of_ranked (hsplit ▸ hr) (by simp [hv]) hs
          have hy := ih (y :: post) (some y) hr hcand
          rwa [show (some y).bind pair = some (y.key, v) by simp [pair, hv]] at hy
    · rw [if_neg hs]
      have hc' : ∀ e ∈ c, Candidate (r.reverse ++ y :: post) r s e := by
        intro e he
        have hcand := hsplit ▸ hc e he
        refine ⟨hcand.isSome, hcand.le, fun x hx hk hxs hlt => ?_,
          fun x hx => hcand.before x (List.mem_cons_of_mem _ hx)⟩
        rcases List.mem_cons.mp (hcand.newer x hx hk hxs hlt) with rfl | hxr
        · exact absurd hxs hs
        · exact hxr
      rw [hsplit] at hr ⊢
      exact (ih (y :: post) c hr hc').cons_new (not_le.mp hs)

/-- Versions the reader may not see do not change a walk. -/
theorem scanFrom_append_new {s : ℕ} {skip : Option κ} {M l : List (Version κ ν)}
    (hM : ∀ e ∈ M, s < e.seq) : scanFrom s skip (M ++ l) = scanFrom s skip l := by
  induction M with
  | nil => rfl
  | cons e M ih =>
    have he : ¬ e.seq ≤ s := not_le.mpr (hM e List.mem_cons_self)
    rw [List.cons_append, scanFrom, if_neg he, ih fun x hx => hM x (List.mem_cons_of_mem _ hx)]

end Version
