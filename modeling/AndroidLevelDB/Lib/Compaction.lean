import Mathlib.Data.List.Basic
import Mathlib.Order.Lattice.Nat
import AndroidLevelDB.Lib.Versions

/-!
# Lib/Compaction — versions that no reader misses

A compaction may drop a version that a newer one hides from every reader, and a deletion that has
nothing to hide.  Readers above the oldest sequence number in use find the same (`reads_drop`).
-/

namespace Version

variable {κ ν : Type*} [LinearOrder κ]

/-- A newer version hides `e` from the readers at `s` and above. -/
def Hidden (l : List (Version κ ν)) (s : ℕ) (e : Version κ ν) : Prop :=
  ∃ e' ∈ l, e'.key = e.key ∧ e.seq < e'.seq ∧ e'.seq ≤ s

/-- The versions of `l` that a compaction drops; for a key in `base` there is nothing older
elsewhere. -/
def Dropped (l : List (Version κ ν)) (s : ℕ) (base : κ → Prop) (e : Version κ ν) : Prop :=
  Hidden l s e ∨ e.val = none ∧ e.seq ≤ s ∧ base e.key

instance (l : List (Version κ ν)) (s : ℕ) : DecidablePred (Hidden l s) :=
  fun e => inferInstanceAs (Decidable (∃ e' ∈ l, e'.key = e.key ∧ e.seq < e'.seq ∧ e'.seq ≤ s))

instance [DecidableEq ν] (l : List (Version κ ν)) (s : ℕ) (base : κ → Prop) [DecidablePred base] :
    DecidablePred (Dropped l s base) :=
  fun e => inferInstanceAs (Decidable (Hidden l s e ∨ e.val = none ∧ e.seq ≤ s ∧ base e.key))

/-- What a compaction leaves of the versions `l`, besides the versions `O` it does not touch. -/
def compacted (l : List (Version κ ν)) (s : ℕ) (base : κ → Prop) (O : Set (Version κ ν)) :
    Set (Version κ ν) := {e | e ∈ l ∧ ¬ Dropped l s base e ∨ e ∈ O}

/-- **In a ranked list the version right before `v` tells whether `v` is hidden.** -/
theorem hidden_iff_getLast {pre post : List (Version κ ν)} {v : Version κ ν}
    (h : Ranked (pre ++ v :: post)) {s : ℕ} :
    Hidden (pre ++ v :: post) s v ↔ ∃ u ∈ pre.getLast?, u.key = v.key ∧ u.seq ≤ s := by
  obtain ⟨hpre, hpost, hcross⟩ := List.pairwise_append.mp h
  constructor
  · rintro ⟨e, he, hk, hlt, hs⟩
    have hmem : e ∈ pre := by
      rcases List.mem_append.mp he with he | he
      · exact he
      · rcases List.mem_cons.mp he with rfl | he
        · exact absurd hlt (lt_irrefl _)
        · rcases rank_lt_iff.mp ((List.pairwise_cons.mp hpost).1 e he) with hkey | ⟨-, hseq⟩
          · exact absurd hk hkey.ne'
          · exact absurd hlt hseq.not_gt
    obtain ⟨init, u, rfl⟩ := (List.eq_nil_or_concat' pre).resolve_left (List.ne_nil_of_mem hmem)
    have huv := rank_lt_iff.mp (hcross u (List.mem_append_right _ List.mem_cons_self) v
      List.mem_cons_self)
    refine ⟨u, List.getLast?_concat, ?_⟩
    rcases List.mem_append.mp hmem with he | he
    · rcases rank_lt_iff.mp ((List.pairwise_append.mp hpre).2.2 e he u List.mem_cons_self) with
        heu | ⟨heu, hseq⟩
      · have hle : u.key ≤ v.key := huv.elim le_of_lt fun h => h.1.le
        exact absurd (heu.trans_le hle) (by rw [hk]; exact lt_irrefl _)
      · exact ⟨heu.symm.trans hk, hseq.le.trans hs⟩
    · obtain rfl := List.mem_singleton.mp he
      exact ⟨hk, hs⟩
  · rintro ⟨u, hu, hk, hs⟩
    have hmem := List.mem_of_getLast? hu
    rcases rank_lt_iff.mp (hcross u hmem v List.mem_cons_self) with hkey | ⟨-, hseq⟩
    · exact absurd hk hkey.ne
    · exact ⟨u, List.mem_append_left _ hmem, hk, hseq, hs⟩

omit [LinearOrder κ] in
/-- Among versions of a key up to `s` there is a newest one. -/
theorem exists_newest {S : Set (Version κ ν)} {s : ℕ} {e : Version κ ν} (he : e ∈ S)
    (hs : e.seq ≤ s) : ∃ e', Newest S s e' ∧ e'.key = e.key := by
  set seqs : Set ℕ := {n | ∃ x ∈ S, x.key = e.key ∧ x.seq = n ∧ n ≤ s} with hseqs
  have hne : seqs.Nonempty := ⟨e.seq, e, he, rfl, rfl, hs⟩
  have hbdd : BddAbove seqs := ⟨s, fun n hn => by obtain ⟨x, -, -, -, hn⟩ := hn; exact hn⟩
  obtain ⟨x, hx, hk, hseq, hle⟩ := Nat.sSup_mem hne hbdd
  refine ⟨x, ⟨hx, hseq.trans_le hle, fun y hy hky hys => ?_⟩, hk⟩
  rw [hseq]
  exact le_csSup hbdd ⟨y, hy, hky.trans hk, rfl, hys⟩

section Drop

variable {l : List (Version κ ν)} {O : Set (Version κ ν)} {s : ℕ} {base : κ → Prop}

omit [LinearOrder κ] in
/-- Above `s` a version that was the newest is kept, or was a deletion without anything to hide. -/
theorem newest_compacted (hd : Distinct {e | e ∈ l ∨ e ∈ O})
    (hbase : ∀ e ∈ l, e.val = none → e.seq ≤ s → base e.key →
      ∀ o ∈ O, o.key = e.key → e.seq < o.seq) {t : ℕ} (ht : s ≤ t) {e : Version κ ν}
    (he : Newest {x | x ∈ l ∨ x ∈ O} t e) :
    Newest (compacted l s base O) t e ∨
      e.val = none ∧ ∀ x, Newest (compacted l s base O) t x → x.key ≠ e.key := by
  have hsub : ∀ x ∈ compacted l s base O, x ∈ {x | x ∈ l ∨ x ∈ O} :=
    fun x hx => hx.imp_left And.left
  by_cases hmem : e ∈ compacted l s base O
  · exact .inl ⟨hmem, he.2.1, fun x hx hk hxt => he.2.2 x (hsub x hx) hk hxt⟩
  · -- nothing newer hides `e` from a reader at `t`, so that it was dropped as a deletion
    have hl : e ∈ l := he.1.resolve_right fun ho => hmem (.inr ho)
    have hdrop : Dropped l s base e := by
      by_contra hn
      exact hmem (.inl ⟨hl, hn⟩)
    obtain ⟨hval, hes, hb⟩ := hdrop.resolve_left fun ⟨y, hy, hk, hlt, hys⟩ =>
      absurd (he.2.2 y (.inl hy) hk (hys.trans ht)) (not_le.mpr hlt)
    refine .inr ⟨hval, fun x hx hk => ?_⟩
    have hle := he.2.2 x (hsub x hx.1) hk hx.2.1
    rcases hx.1 with ⟨hxl, hxd⟩ | hxo
    · rcases hle.lt_or_eq with hlt | heq
      · exact hxd (.inl ⟨e, hl, hk.symm, hlt, hes⟩)
      · exact hxd (hd x (.inl hxl) e (.inl hl) hk heq ▸ hdrop)
    · exact absurd (hbase e hl hval hes hb x hxo hk) (not_lt.mpr hle)

omit [LinearOrder κ] in
/-- **A compaction changes nothing for readers at `s` and above.** -/
theorem reads_drop (hd : Distinct {e | e ∈ l ∨ e ∈ O})
    (hbase : ∀ e ∈ l, e.val = none → e.seq ≤ s → base e.key →
      ∀ o ∈ O, o.key = e.key → e.seq < o.seq) {t : ℕ} (ht : s ≤ t) (k : κ) (r : Option ν) :
    Reads (compacted l s base O) t k r ↔ Reads {e | e ∈ l ∨ e ∈ O} t k r := by
  have hd' : Distinct (compacted l s base O) := fun a ha b hb =>
    hd a (ha.imp_left And.left) b (hb.imp_left And.left)
  -- both readers find the same thing `r₀`
  obtain ⟨r₀, h, h'⟩ : ∃ r₀, Reads {e | e ∈ l ∨ e ∈ O} t k r₀ ∧
      Reads (compacted l s base O) t k r₀ := by
    by_cases hex : ∃ e, Newest {e | e ∈ l ∨ e ∈ O} t e ∧ e.key = k
    · obtain ⟨e, he, rfl⟩ := hex
      have hread {S : Set (Version κ ν)} (hS : Distinct S) (h : Newest S t e) :
          Reads S t e.key e.val := by
        cases hv : e.val with
        | none => exact fun x hx hk => hx.unique hS h hk ▸ hv
        | some v => exact ⟨e, h, rfl, hv⟩
      rcases newest_compacted hd hbase ht he with hkept | ⟨hval, hnone⟩
      · exact ⟨e.val, hread hd he, hread hd' hkept⟩
      · have hr := hread hd he
        rw [hval] at hr
        exact ⟨none, hr, fun x hx hk => absurd hk (hnone x hx)⟩
    · refine ⟨none, fun e he hk => absurd ⟨e, he, hk⟩ hex, fun e he hk => absurd ?_ hex⟩
      have hmem : e ∈ {e | e ∈ l ∨ e ∈ O} := he.1.imp_left And.left
      obtain ⟨x, hx, hkx⟩ := exists_newest hmem he.2.1
      exact ⟨x, hx, hkx.trans hk⟩
  exact ⟨fun hr => hr.unique hd' h' ▸ h, fun hr => hr.unique hd h ▸ h'⟩

end Drop

end Version
