import Mathlib.Data.List.Sort
import Mathlib.Order.Lattice

/-!
# Lib/SortedMerge — the merge of several sorted lists

`Merged key ls l` says that `l` holds the elements of the lists `ls`, strictly ascending in `key`.
A merge proceeds by popping a list whose head is least (`Merged.pop`), and cutting every list at a
bound cuts the merge at that bound (`Merged.dropWhile`).  The merge in descending order is the same
notion over the dual order.
-/

variable {α κ : Type*} [LinearOrder κ] {key : α → κ}

/-- Strictly ascending in `key`. -/
def KeySorted (key : α → κ) (l : List α) : Prop := l.Pairwise fun a b => key a < key b

instance (key : α → κ) : DecidablePred (KeySorted key) :=
  fun l => inferInstanceAs (Decidable (l.Pairwise fun a b => key a < key b))

namespace KeySorted

theorem tail {a : α} {l : List α} (h : KeySorted key (a :: l)) : KeySorted key l :=
  (List.pairwise_cons.mp h).2

theorem lt_of_mem {a b : α} {l : List α} (h : KeySorted key (a :: l)) (hb : b ∈ l) :
    key a < key b := (List.pairwise_cons.mp h).1 b hb

theorem le_of_mem {a b : α} {l : List α} (h : KeySorted key (a :: l)) (hb : b ∈ a :: l) :
    key a ≤ key b := by
  rcases List.mem_cons.mp hb with rfl | hb
  · exact le_rfl
  · exact (h.lt_of_mem hb).le

theorem eq_of_key_eq {l : List α} (h : KeySorted key l) {a b : α} (ha : a ∈ l) (hb : b ∈ l)
    (hk : key a = key b) : a = b := by
  induction l with
  | nil => cases ha
  | cons c l ih =>
    rcases List.mem_cons.mp ha with rfl | ha'
    · rcases List.mem_cons.mp hb with rfl | hb'
      · rfl
      · exact absurd hk (h.lt_of_mem hb').ne
    · rcases List.mem_cons.mp hb with rfl | hb'
      · exact absurd hk (h.lt_of_mem ha').ne'
      · exact ih h.tail ha' hb'

/-- Cutting a sorted list at a bound keeps the elements not below it. -/
theorem dropWhile_eq_filter {l : List α} (h : KeySorted key l) (t : κ) :
    l.dropWhile (fun a => key a < t) = l.filter fun a => ¬ key a < t := by
  induction l with
  | nil => rfl
  | cons a l ih =>
    by_cases ha : key a < t
    · rw [List.dropWhile_cons_of_pos (by simpa using ha),
        List.filter_cons_of_neg (by simpa using ha), ih h.tail]
    · rw [List.dropWhile_cons_of_neg (by simpa using ha), List.filter_eq_self.mpr]
      intro b hb
      simpa using (not_lt.mp ha).trans (h.le_of_mem hb)

theorem takeWhile_eq_filter {l : List α} (h : KeySorted key l) (t : κ) :
    l.takeWhile (fun a => key a < t) = l.filter fun a => key a < t := by
  induction l with
  | nil => rfl
  | cons a l ih =>
    by_cases ha : key a < t
    · rw [List.takeWhile_cons_of_pos (by simpa using ha),
        List.filter_cons_of_pos (by simpa using ha), ih h.tail]
    · rw [List.takeWhile_cons_of_neg (by simpa using ha), eq_comm, List.filter_eq_nil_iff]
      intro b hb
      simpa using (not_lt.mp ha).trans (h.le_of_mem hb)

/-- Where a property that goes down ends to hold, it does not hold again. -/
theorem eq_false_of_mem_dropWhile {l : List α} (h : KeySorted key l) {p : α → Bool}
    (hp : ∀ a b, key a < key b → p b = true → p a = true) : ∀ b ∈ l.dropWhile p, p b = false := by
  cases hd : l.dropWhile p with
  | nil => exact fun b hb => absurd hb List.not_mem_nil
  | cons y r =>
    have hy := List.head?_dropWhile_not p l
    rw [hd] at hy
    have hr : KeySorted key (y :: r) :=
      List.Pairwise.sublist (hd ▸ List.dropWhile_sublist p : (y :: r).Sublist l) h
    intro b hb
    rcases List.mem_cons.mp hb with rfl | hb
    · exact hy
    · exact Bool.eq_false_iff.mpr fun hpb =>
        Bool.eq_false_iff.mp hy (hp y b ((List.pairwise_cons.mp hr).1 b hb) hpb)

/-- A sorted list around one of its elements: what precedes it is below, what follows is above. -/
theorem filter_split {pre post : List α} {a : α} (h : KeySorted key (pre ++ a :: post)) :
    (pre ++ a :: post).filter (fun b => key b < key a) = pre ∧
      (pre ++ a :: post).filter (fun b => key a < key b) = post := by
  obtain ⟨-, hpost, hpre⟩ := List.pairwise_append.mp h
  have hlt : ∀ b ∈ pre, key b < key a := fun b hb => hpre b hb a List.mem_cons_self
  have hgt : ∀ b ∈ post, key a < key b := (List.pairwise_cons.mp hpost).1
  rw [List.filter_append, List.filter_append, List.filter_cons_of_neg (by simp),
    List.filter_cons_of_neg (by simp)]
  constructor
  · rw [List.filter_eq_self.mpr fun b hb => by simpa using hlt b hb,
      List.filter_eq_nil_iff.mpr fun b hb => by simpa using (hgt b hb).le, List.append_nil]
  · rw [List.filter_eq_nil_iff.mpr fun b hb => by simpa using (hlt b hb).le,
      List.filter_eq_self.mpr fun b hb => by simpa using hgt b hb, List.nil_append]

theorem sublist {l l' : List α} (h : KeySorted key l) (hs : l'.Sublist l) : KeySorted key l' :=
  List.Pairwise.sublist hs h

/-- Two sorted lists with the same elements are equal. -/
theorem eq_of_perm {l l' : List α} (h : KeySorted key l) (h' : KeySorted key l')
    (hp : l.Perm l') : l = l' :=
  List.Perm.eq_of_pairwise (fun _ _ _ _ hab hba => absurd hab hba.not_gt) h h' hp

/-- Two sorted lists with the same members are equal. -/
theorem eq_of_mem_iff {l l' : List α} (h : KeySorted key l) (h' : KeySorted key l')
    (hm : ∀ a, a ∈ l ↔ a ∈ l') : l = l' := by
  have : Std.Antisymm fun a b : α => key a < key b := ⟨fun _ _ hab hba => absurd hab hba.not_gt⟩
  have : Std.Irrefl fun a b : α => key a < key b := ⟨fun a => lt_irrefl (key a)⟩
  exact List.Pairwise.eq_of_mem_iff h h' hm

end KeySorted

/-- **`l` is the merge of the lists `ls`.** -/
structure Merged (key : α → κ) (ls : List (List α)) (l : List α) : Prop where
  perm : l.Perm ls.flatten
  sorted : KeySorted key l

/-- Popping the head of one list pops one element of all of them. -/
theorem flatten_perm_set {a : α} {r : List α} : ∀ {ls : List (List α)} {i : ℕ},
    ls[i]? = some (a :: r) → ls.flatten.Perm (a :: (ls.set i r).flatten)
  | [], i, h => by simp at h
  | x :: ls, 0, h => by
      obtain rfl : x = a :: r := by simpa using h
      simp
  | x :: ls, i + 1, h => by
      have hi : ls[i]? = some (a :: r) := by simpa using h
      have ih := flatten_perm_set hi
      rw [List.set_cons_succ, List.flatten_cons, List.flatten_cons]
      exact (ih.append_left x).trans List.perm_middle

namespace Merged

variable {ls : List (List α)} {l : List α}

theorem mem_iff (h : Merged key ls l) {a : α} : a ∈ l ↔ ∃ x ∈ ls, a ∈ x := by
  rw [h.perm.mem_iff, List.mem_flatten]

theorem eq_nil_iff (h : Merged key ls l) : l = [] ↔ ∀ x ∈ ls, x = [] := by
  rw [← List.perm_nil, h.perm.congr_left, List.perm_nil, List.flatten_eq_nil_iff]

/-- **The least of the heads is the head of the merge**, and popping it there pops it here. -/
theorem pop (h : Merged key ls l) (hs : ∀ x ∈ ls, KeySorted key x) {i : ℕ} {a : α} {r : List α}
    (hi : ls[i]? = some (a :: r)) (hmin : ∀ x ∈ ls, ∀ b ∈ x.head?, key a ≤ key b) :
    ∃ t, l = a :: t ∧ Merged key (ls.set i r) t := by
  have hmem : a ∈ l := h.mem_iff.mpr ⟨a :: r, List.mem_of_getElem? hi, List.mem_cons_self⟩
  have hle : ∀ b ∈ l, key a ≤ key b := by
    intro b hb
    obtain ⟨x, hx, hbx⟩ := h.mem_iff.mp hb
    cases x with
    | nil => cases hbx
    | cons c x => exact (hmin _ hx c rfl).trans ((hs _ hx).le_of_mem hbx)
  cases l with
  | nil => cases hmem
  | cons c t =>
    have hca : c = a := h.sorted.eq_of_key_eq List.mem_cons_self hmem
      (le_antisymm (h.sorted.le_of_mem hmem) (hle c List.mem_cons_self))
    subst hca
    exact ⟨t, rfl, (h.perm.trans (flatten_perm_set hi)).cons_inv, h.sorted.tail⟩

/-- **Filtering every list filters the merge.** -/
theorem filter (h : Merged key ls l) (p : α → Bool) :
    Merged key (ls.map fun x => x.filter p) (l.filter p) := by
  refine ⟨?_, h.sorted.sublist List.filter_sublist⟩
  rw [← List.filter_flatten]
  exact h.perm.filter p

/-- **Reversing every list reverses the merge**, which then descends. -/
theorem reverse (h : Merged key ls l) :
    Merged (fun a => OrderDual.toDual (key a)) (ls.map List.reverse) l.reverse := by
  refine ⟨(List.reverse_perm l).trans (h.perm.trans ?_), List.pairwise_reverse.mpr h.sorted⟩
  refine List.Perm.flatten_congr (List.forall₂_map_right_iff.mpr ?_)
  exact List.forall₂_same.mpr fun x _ => (List.reverse_perm x).symm

end Merged

/-- The merge of lists that share no key. -/
def mergeAll (key : α → κ) (ls : List (List α)) : List α :=
  ls.flatten.mergeSort fun a b => key a ≤ key b

theorem mergeAll_perm (ls : List (List α)) : (mergeAll key ls).Perm ls.flatten :=
  List.mergeSort_perm _ _

/-- **Lists that share no key have a merge.** -/
theorem merged_mergeAll {ls : List (List α)} (h : (ls.flatten.map key).Nodup) :
    Merged key ls (mergeAll key ls) := by
  refine ⟨mergeAll_perm ls, ?_⟩
  have hle : (mergeAll key ls).Pairwise fun a b => key a ≤ key b := by
    refine (List.pairwise_mergeSort ?_ ?_ ls.flatten).imp fun hab => by simpa using hab
    · intro a b c hab hbc
      simpa using (show key a ≤ key b by simpa using hab).trans (by simpa using hbc)
    · intro a b
      simpa using le_total (key a) (key b)
  have hne : (mergeAll key ls).Pairwise fun a b => key a ≠ key b := by
    have hnd : ((mergeAll key ls).map key).Nodup :=
      (List.Perm.nodup_iff ((mergeAll_perm ls).map key)).mpr h
    exact List.pairwise_map.mp hnd
  exact (hle.and hne).imp fun hab => lt_of_le_of_ne hab.1 hab.2
