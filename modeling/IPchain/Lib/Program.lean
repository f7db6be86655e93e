import Mathlib.Logic.Basic

/-! Programs that may raise and that keep what they wrote before they raised.

`Simulates f x y` says that `y` does on the image of a state under `f` what `x`
does on the state, results and exceptions included. `Preserves f x` says that `x` leaves
the part `f` of the state alone, and `Spares f x` that it does so whenever it raises. -/

namespace IPchain.Lib

variable {ε σ τ α β : Type}

theorem except_bind_eq_ok {x : Except ε α} {f : α → Except ε β} {b : β} :
    (x >>= f) = .ok b ↔ ∃ a, x = .ok a ∧ f a = .ok b := by
  cases x with
  | ok a =>
      constructor
      · intro run
        exact ⟨a, rfl, run⟩
      · rintro ⟨a', same, run⟩
        cases same
        exact run
  | error e =>
      constructor
      · intro run
        cases run
      · rintro ⟨a, same, -⟩
        cases same

theorem except_bind_eq_error {x : Except ε α} {f : α → Except ε β} {e : ε} :
    (x >>= f) = .error e ↔ x = .error e ∨ ∃ a, x = .ok a ∧ f a = .error e := by
  cases x with
  | ok a =>
      constructor
      · intro run
        exact Or.inr ⟨a, rfl, run⟩
      · rintro (same | ⟨a', same, run⟩)
        · cases same
        · cases same
          exact run
  | error e' =>
      constructor
      · intro run
        cases run
        exact Or.inl rfl
      · rintro (same | ⟨a, same, -⟩)
        · cases same
          rfl
        · cases same

theorem except_map_eq_error {x : Except ε α} {f : α → β} {e : ε} :
    f <$> x = .error e ↔ x = .error e := by
  cases x with
  | ok a =>
      constructor <;>
        · intro run
          cases run
  | error e' =>
      constructor <;>
        · intro run
          cases run
          rfl

theorem except_map_eq_ok {x : Except ε α} {f : α → β} {b : β} :
    f <$> x = .ok b ↔ ∃ a, x = .ok a ∧ f a = b := by
  cases x with
  | ok a =>
      constructor
      · intro run
        exact ⟨a, rfl, Except.ok.inj run⟩
      · rintro ⟨a', same, rfl⟩
        cases same
        rfl
  | error e =>
      constructor
      · intro run
        cases run
      · rintro ⟨a, same, -⟩
        cases same

def raised (e : ε) : EStateM ε σ α := fun s => .error e s

def lift : Except ε α → EStateM ε σ α
  | .ok a => pure a
  | .error e => raised e

@[simp] theorem lift_ok (a : α) : (lift (.ok a) : EStateM ε σ α) = pure a := rfl
@[simp] theorem lift_error (e : ε) : (lift (.error e) : EStateM ε σ α) = raised e := rfl

theorem pure_run (a : α) (s : σ) : (pure a : EStateM ε σ α) s = .ok a s := rfl
theorem raised_run (e : ε) (s : σ) : (raised e : EStateM ε σ α) s = .error e s := rfl

theorem bind_run (x : EStateM ε σ α) (f : α → EStateM ε σ β) (s : σ) :
    (x >>= f) s = match x s with
      | .ok a s' => f a s'
      | .error e s' => .error e s' := rfl

theorem bind_of_ok {x : EStateM ε σ α} {s s' : σ} {a : α} (first : x s = .ok a s')
    (f : α → EStateM ε σ β) : (x >>= f) s = f a s' := by
  rw [bind_run, first]

theorem bind_of_error {x : EStateM ε σ α} {s s' : σ} {e : ε} (first : x s = .error e s')
    (f : α → EStateM ε σ β) : (x >>= f) s = .error e s' := by
  rw [bind_run, first]

theorem bind_eq_ok {x : EStateM ε σ α} {f : α → EStateM ε σ β} {s s'' : σ} {b : β} :
    (x >>= f) s = .ok b s'' ↔ ∃ a s', x s = .ok a s' ∧ f a s' = .ok b s'' := by
  rw [bind_run]
  cases x s with
  | ok a s' =>
      constructor
      · intro run
        exact ⟨a, s', rfl, run⟩
      · rintro ⟨a', t, same, run⟩
        cases same
        exact run
  | error e s' => simp

theorem bind_eq_error {x : EStateM ε σ α} {f : α → EStateM ε σ β} {s s'' : σ} {e : ε} :
    (x >>= f) s = .error e s'' ↔
      x s = .error e s'' ∨ ∃ a s', x s = .ok a s' ∧ f a s' = .error e s'' := by
  rw [bind_run]
  cases x s with
  | ok a s' =>
      constructor
      · intro run
        exact Or.inr ⟨a, s', rfl, run⟩
      · rintro (same | ⟨a', t, same, run⟩)
        · cases same
        · cases same
          exact run
  | error e' s' => simp

theorem lift_eq_ok {x : Except ε α} {s s' : σ} {a : α} :
    (lift x : EStateM ε σ α) s = .ok a s' ↔ x = .ok a ∧ s' = s := by
  cases x with
  | ok b => simp [pure_run, eq_comm]
  | error e => simp [raised_run]

theorem lift_eq_error {x : Except ε α} {s s' : σ} {e : ε} :
    (lift x : EStateM ε σ α) s = .error e s' ↔ x = .error e ∧ s' = s := by
  cases x with
  | ok b => simp [pure_run]
  | error e => simp [raised_run, eq_comm]

theorem lift_bind_eq_ok {x : Except ε α} {f : α → EStateM ε σ β} {s s' : σ} {b : β} :
    (lift x >>= f) s = .ok b s' ↔ ∃ a, x = .ok a ∧ f a s = .ok b s' := by
  cases x with
  | ok a =>
      constructor
      · intro run
        exact ⟨a, rfl, run⟩
      · rintro ⟨a', same, run⟩
        cases same
        exact run
  | error e =>
      constructor
      · intro run
        cases run
      · rintro ⟨a, same, -⟩
        cases same

theorem lift_bind_eq_error {x : Except ε α} {f : α → EStateM ε σ β} {s s' : σ} {e : ε} :
    (lift x >>= f) s = .error e s' ↔
      (x = .error e ∧ s' = s) ∨ ∃ a, x = .ok a ∧ f a s = .error e s' := by
  cases x with
  | ok a =>
      constructor
      · intro run
        exact Or.inr ⟨a, rfl, run⟩
      · rintro (⟨same, -⟩ | ⟨a', same, run⟩)
        · cases same
        · cases same
          exact run
  | error e' =>
      constructor
      · intro run
        cases run
        exact Or.inl ⟨rfl, rfl⟩
      · rintro (⟨same, rfl⟩ | ⟨a, same, -⟩)
        · cases same
          rfl
        · cases same

theorem guard_eq_ok {c : Prop} [Decidable c] {e : ε} {x : EStateM ε σ α} {s s' : σ} {a : α} :
    (if c then raised e else x) s = .ok a s' ↔ ¬ c ∧ x s = .ok a s' := by
  split
  · rename_i holds
    simp [raised_run, holds]
  · rename_i fails
    simp [fails]

def Passes (x : Except ε α) (test : α → Bool) : Bool :=
  match x with
  | .ok a => test a
  | .error _ => false

theorem passes_iff {x : Except ε α} {test : α → Bool} :
    Passes x test = true ↔ ∃ a, x = .ok a ∧ test a = true := by
  cases x <;> simp [Passes]

def RunPasses (x : EStateM.Result ε σ α) (test : α → σ → Bool) : Bool :=
  match x with
  | .ok a s => test a s
  | .error _ _ => false

theorem runPasses_iff {x : EStateM.Result ε σ α} {test : α → σ → Bool} :
    RunPasses x test = true ↔ ∃ a s, x = .ok a s ∧ test a s = true := by
  cases x with
  | ok a s =>
      constructor
      · intro passes
        exact ⟨a, s, rfl, passes⟩
      · rintro ⟨b, t, same, passes⟩
        cases same
        exact passes
  | error e s => simp [RunPasses]

def RunFails (x : EStateM.Result ε σ α) (test : ε → σ → Bool) : Bool :=
  match x with
  | .ok _ _ => false
  | .error e s => test e s

theorem runFails_iff {x : EStateM.Result ε σ α} {test : ε → σ → Bool} :
    RunFails x test = true ↔ ∃ e s, x = .error e s ∧ test e s = true := by
  cases x with
  | ok a s => simp [RunFails]
  | error e s =>
      constructor
      · intro passes
        exact ⟨e, s, rfl, passes⟩
      · rintro ⟨e', t, same, passes⟩
        cases same
        exact passes

def mapState (f : σ → τ) : EStateM.Result ε σ α → EStateM.Result ε τ α
  | .ok a s => .ok a (f s)
  | .error e s => .error e (f s)

def Simulates (f : σ → τ) (x : EStateM ε σ α) (y : EStateM ε τ α) : Prop :=
  ∀ s, mapState f (x s) = y (f s)

namespace Simulates

variable {f : σ → τ} {x : EStateM ε σ α} {y : EStateM ε τ α}

theorem pure (a : α) : Simulates f (Pure.pure a : EStateM ε σ α) (Pure.pure a) := fun _ => rfl

theorem raised (e : ε) : Simulates f (raised e : EStateM ε σ α) (raised e) := fun _ => rfl

theorem lift (a : Except ε α) : Simulates f (lift a) (lift a) := by
  cases a with
  | ok a => exact pure a
  | error e => exact raised e

theorem bind {g : α → EStateM ε σ β} {h : α → EStateM ε τ β} (first : Simulates f x y)
    (next : ∀ a, Simulates f (g a) (h a)) : Simulates f (x >>= g) (y >>= h) := by
  intro s
  have step := first s
  rw [bind_run, bind_run, ← step]
  cases x s with
  | ok a s' => exact next a s'
  | error e s' => rfl

theorem ite {c : Prop} [Decidable c] {x' : EStateM ε σ α} {y' : EStateM ε τ α}
    (holds : Simulates f x y) (fails : Simulates f x' y') :
    Simulates f (if c then x else x') (if c then y else y') := by
  split
  · exact holds
  · exact fails

theorem ok (simulates : Simulates f x y) {s s' : σ} {a : α} (run : x s = .ok a s') :
    y (f s) = .ok a (f s') := by
  rw [← simulates s, run]
  rfl

theorem error (simulates : Simulates f x y) {s s' : σ} {e : ε} (run : x s = .error e s') :
    y (f s) = .error e (f s') := by
  rw [← simulates s, run]
  rfl

theorem exists_ok (simulates : Simulates f x y) {s : σ} {t : τ} {a : α}
    (run : y (f s) = .ok a t) : ∃ s', x s = .ok a s' ∧ f s' = t := by
  have step := simulates s
  rw [run] at step
  cases result : x s with
  | ok b s' =>
      rw [result] at step
      simp only [mapState, EStateM.Result.ok.injEq] at step
      exact ⟨s', by rw [step.1], step.2⟩
  | error e s' =>
      rw [result] at step
      cases step

theorem exists_error (simulates : Simulates f x y) {s : σ} {t : τ} {e : ε}
    (run : y (f s) = .error e t) : ∃ s', x s = .error e s' ∧ f s' = t := by
  have step := simulates s
  rw [run] at step
  cases result : x s with
  | ok b s' =>
      rw [result] at step
      cases step
  | error e' s' =>
      rw [result] at step
      simp only [mapState, EStateM.Result.error.injEq] at step
      exact ⟨s', by rw [step.1], step.2⟩

end Simulates

def finish : EStateM.Result ε σ α → σ
  | .ok _ s => s
  | .error _ s => s

/-- Whatever happens, the program leaves the part `f` of the state as it was. -/
def Preserves (f : σ → τ) (x : EStateM ε σ α) : Prop := ∀ s, f (finish (x s)) = f s

namespace Preserves

variable {f : σ → τ} {x y : EStateM ε σ α}

theorem ok (preserves : Preserves f x) {s s' : σ} {a : α} (run : x s = .ok a s') : f s' = f s := by
  rw [← preserves s, run]
  rfl

theorem error (preserves : Preserves f x) {s s' : σ} {e : ε} (run : x s = .error e s') :
    f s' = f s := by
  rw [← preserves s, run]
  rfl

theorem pure (a : α) : Preserves f (Pure.pure a : EStateM ε σ α) := fun _ => rfl

theorem raised (e : ε) : Preserves f (raised e : EStateM ε σ α) := fun _ => rfl

theorem lift (a : Except ε α) : Preserves f (lift a : EStateM ε σ α) := by
  cases a with
  | ok a => exact pure a
  | error e => exact raised e

theorem bind {g : α → EStateM ε σ β} (first : Preserves f x) (next : ∀ a, Preserves f (g a)) :
    Preserves f (x >>= g) := by
  intro s
  rw [bind_run, ← first s]
  cases x s with
  | ok a s' => exact next a s'
  | error e s' => rfl

theorem ite {c : Prop} [Decidable c] (holds : Preserves f x) (fails : Preserves f y) :
    Preserves f (if c then x else y) := by
  split
  · exact holds
  · exact fails

end Preserves

def Spares (f : σ → τ) (x : EStateM ε σ α) : Prop := ∀ s s' e, x s = .error e s' → f s' = f s

namespace Spares

variable {f : σ → τ} {x y : EStateM ε σ α}

theorem bind {g : α → EStateM ε σ β} (first : Preserves f x) (next : ∀ a, Spares f (g a)) :
    Spares f (x >>= g) := by
  intro s s'' e failed
  rcases bind_eq_error.mp failed with early | ⟨a, s', done, late⟩
  · exact first.error early
  · exact (next a s' s'' e late).trans (first.ok done)

theorem returns (always : ∀ s, ∃ a s', x s = .ok a s') : Spares f x := by
  intro s s' e failed
  obtain ⟨a, t, done⟩ := always s
  rw [done] at failed
  cases failed

theorem ite {c : Prop} [Decidable c] (holds : Spares f x) (fails : Spares f y) :
    Spares f (if c then x else y) := by
  split
  · exact holds
  · exact fails

end Spares

end IPchain.Lib
