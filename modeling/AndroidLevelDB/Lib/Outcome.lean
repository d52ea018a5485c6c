import Mathlib.Data.Set.Basic

/-!
# Lib/Outcome — how a program with state and exceptions ends

`Ends m s Q E` says that `m`, run from the state `s`, ends with a result and a state of which `Q`
holds, or with an error and a state of which `E` holds.  The `ends_*` lemmas run a program step by
step; `Ends.mono` weakens what holds at the end.

`Keeps R m` says that `m`, however it ends, relates its first state to its last by `R`; for a
reflexive and transitive `R` a program keeps what its steps keep (`Keeps.bind`).  `Throws E m` says
that `m` ends with no errors but those of `E`.  Both are properties that a program has if its parts
have them (`Compositional`).
-/

variable {ε σ α β : Type}

/-- How `m` ends. -/
def Ends (m : EStateM ε σ α) (s : σ) (Q : α → σ → Prop) (E : ε → σ → Prop) : Prop :=
  match m s with
  | .ok a s' => Q a s'
  | .error e s' => E e s'

/-- `m` returns `a`. -/
def Returns (m : EStateM ε σ α) (s : σ) (a : α) : Prop := ∃ s', m s = .ok a s'

section Run

variable {s : σ} {Q : α → σ → Prop} {E : ε → σ → Prop}

@[simp] theorem ends_pure (a : α) : Ends (pure a) s Q E ↔ Q a s := Iff.rfl

@[simp] theorem ends_throw (e : ε) : Ends (throw e : EStateM ε σ α) s Q E ↔ E e s := Iff.rfl

@[simp] theorem ends_get {Q : σ → σ → Prop} :
    Ends (get : EStateM ε σ σ) s Q E ↔ Q s s := Iff.rfl

@[simp] theorem ends_modify {Q : PUnit → σ → Prop} (f : σ → σ) :
    Ends (modify f : EStateM ε σ PUnit) s Q E ↔ Q ⟨⟩ (f s) := Iff.rfl

/-- **A program in two parts ends as its second part does, from where the first one ends.** -/
@[simp] theorem ends_bind (m : EStateM ε σ β) (f : β → EStateM ε σ α) :
    Ends (m >>= f) s Q E ↔ Ends m s (fun b s' => Ends (f b) s' Q E) E := by
  change (match EStateM.bind m f s with
    | .ok a s' => Q a s'
    | .error e s' => E e s') ↔ _
  simp only [EStateM.bind, Ends]
  cases m s <;> rfl

@[simp] theorem ends_map (m : EStateM ε σ β) (f : β → α) :
    Ends (f <$> m) s Q E ↔ Ends m s (fun b => Q (f b)) E := by
  change (match EStateM.map f m s with
    | .ok a s' => Q a s'
    | .error e s' => E e s') ↔ _
  simp only [EStateM.map, Ends]
  cases m s <;> rfl

theorem ends_ite (c : Prop) [Decidable c] (m n : EStateM ε σ α) :
    Ends (if c then m else n) s Q E ↔ (c → Ends m s Q E) ∧ (¬ c → Ends n s Q E) := by
  by_cases h : c <;> simp [h]

theorem Ends.mono {m : EStateM ε σ α} {Q' : α → σ → Prop} {E' : ε → σ → Prop}
    (h : Ends m s Q E) (hQ : ∀ a s', Q a s' → Q' a s') (hE : ∀ e s', E e s' → E' e s') :
    Ends m s Q' E' := by
  rw [Ends] at h ⊢
  cases hm : m s with
  | ok a s' =>
    rw [hm] at h
    exact hQ a s' h
  | error e s' =>
    rw [hm] at h
    exact hE e s' h

theorem Ends.and {m : EStateM ε σ α} {Q' : α → σ → Prop} {E' : ε → σ → Prop}
    (h : Ends m s Q E) (h' : Ends m s Q' E') :
    Ends m s (fun a s' => Q a s' ∧ Q' a s') (fun e s' => E e s' ∧ E' e s') := by
  rw [Ends] at h h' ⊢
  cases hm : m s with
  | ok a s' =>
    rw [hm] at h h'
    exact ⟨h, h'⟩
  | error e s' =>
    rw [hm] at h h'
    exact ⟨h, h'⟩

/-- What holds at the end, given how the run ended. -/
theorem Ends.of_ok {m : EStateM ε σ α} {a : α} {s' : σ} (h : Ends m s Q E) (hm : m s = .ok a s') :
    Q a s' := by
  rwa [Ends, hm] at h

theorem Ends.of_error {m : EStateM ε σ α} {e : ε} {s' : σ} (h : Ends m s Q E)
    (hm : m s = .error e s') : E e s' := by
  rwa [Ends, hm] at h

/-- A program that cannot end with an error ends with a result. -/
theorem Ends.exists_ok {m : EStateM ε σ α} (h : Ends m s Q fun _ _ => False) :
    ∃ a s', m s = .ok a s' ∧ Q a s' := by
  rw [Ends] at h
  cases hm : m s with
  | ok a s' =>
    rw [hm] at h
    exact ⟨a, s', rfl, h⟩
  | error e s' =>
    rw [hm] at h
    exact h.elim

/-- A program that must return `a` returns nothing else. -/
theorem Ends.returns_iff {m : EStateM ε σ α} {a : α}
    (h : Ends m s (fun b _ => a = b) fun _ _ => False) (b : α) : Returns m s b ↔ a = b := by
  rw [Ends] at h
  rw [Returns]
  cases hm : m s with
  | ok c s' =>
    rw [hm] at h
    obtain rfl : a = c := h
    simp
  | error e s' =>
    rw [hm] at h
    exact h.elim

end Run

/-! ## Properties of the parts -/

/-- `P` holds of a program put together from programs of which it holds. -/
structure Compositional (P : ∀ {α : Type}, EStateM ε σ α → Prop) : Prop where
  pure : ∀ {α : Type} (a : α), P (Pure.pure a)
  get : P (MonadState.get : EStateM ε σ σ)
  bind : ∀ {α β : Type} {m : EStateM ε σ β} {f : β → EStateM ε σ α}, P m → (∀ b, P (f b)) →
    P (m >>= f)

theorem Compositional.ite {P : ∀ {α : Type}, EStateM ε σ α → Prop} (_ : Compositional P) {c : Prop}
    [Decidable c] {m n : EStateM ε σ α} (hm : P m) (hn : P n) : P (if c then m else n) := by
  split
  · exact hm
  · exact hn

/-! ## What a program keeps -/

/-- However `m` ends, its first and its last state are related. -/
def Keeps (R : σ → σ → Prop) (m : EStateM ε σ α) : Prop :=
  ∀ s, Ends m s (fun _ => R s) (fun _ => R s)

namespace Keeps

variable {R : σ → σ → Prop} [Std.Refl R] [IsTrans σ R]

omit [IsTrans σ R] in
theorem pure (a : α) : Keeps R (pure a : EStateM ε σ α) := fun s => Std.Refl.refl s

omit [IsTrans σ R] in
theorem throw (e : ε) : Keeps R (throw e : EStateM ε σ α) := fun s => Std.Refl.refl s

omit [IsTrans σ R] in
theorem get : Keeps R (get : EStateM ε σ σ) := fun s => Std.Refl.refl s

omit [Std.Refl R] [IsTrans σ R] in
theorem modify {f : σ → σ} (h : ∀ s, R s (f s)) : Keeps R (modify f : EStateM ε σ PUnit) := h

omit [Std.Refl R] in
theorem bind {m : EStateM ε σ β} {f : β → EStateM ε σ α} (hm : Keeps R m)
    (hf : ∀ b, Keeps R (f b)) : Keeps R (m >>= f) := by
  intro s
  rw [ends_bind]
  refine (hm s).mono (fun b s' h => ?_) (fun _ _ h => h)
  exact (hf b s').mono (fun _ _ h' => Trans.trans h h') (fun _ _ h' => Trans.trans h h')

omit [Std.Refl R] [IsTrans σ R] in
theorem ite {c : Prop} [Decidable c] {m n : EStateM ε σ α} (hm : Keeps R m) (hn : Keeps R n) :
    Keeps R (if c then m else n) := by
  split
  · exact hm
  · exact hn

theorem compositional : Compositional (Keeps R : ∀ {α : Type}, EStateM ε σ α → Prop) :=
  ⟨pure, get, bind⟩

end Keeps

/-! ## What a program throws -/

/-- The errors that `m` may end with are among `E`. -/
def Throws (E : ε → Prop) (m : EStateM ε σ α) : Prop :=
  ∀ s, Ends m s (fun _ _ => True) fun e _ => E e

namespace Throws

variable {E : ε → Prop}

theorem pure (a : α) : Throws E (pure a : EStateM ε σ α) := fun _ => trivial

theorem throw {e : ε} (h : E e) : Throws E (throw e : EStateM ε σ α) := fun _ => h

theorem get : Throws E (get : EStateM ε σ σ) := fun _ => trivial

theorem modify (f : σ → σ) : Throws E (modify f : EStateM ε σ PUnit) := fun _ => trivial

theorem bind {m : EStateM ε σ β} {f : β → EStateM ε σ α} (hm : Throws E m)
    (hf : ∀ b, Throws E (f b)) : Throws E (m >>= f) := by
  intro s
  rw [ends_bind]
  exact (hm s).mono (fun b s' _ => hf b s') fun _ _ he => he

theorem ite {c : Prop} [Decidable c] {m n : EStateM ε σ α} (hm : Throws E m) (hn : Throws E n) :
    Throws E (if c then m else n) := by
  split
  · exact hm
  · exact hn

theorem compositional : Compositional (Throws E : ∀ {α : Type}, EStateM ε σ α → Prop) :=
  ⟨pure, get, bind⟩

end Throws
