import IPchain.Lib.Program
import Mathlib.Order.Defs.Unbundled

/-! Programs that only ever move their state along a preorder. -/

namespace IPchain.Lib

variable {ε σ α β : Type}

def Advances (r : σ → σ → Prop) (x : EStateM ε σ α) : Prop := ∀ s, r s (finish (x s))

namespace Advances

variable {r : σ → σ → Prop} {x y : EStateM ε σ α}

theorem ok (advances : Advances r x) {s s' : σ} {a : α} (run : x s = .ok a s') : r s s' := by
  have step := advances s
  rwa [run] at step

theorem ite {c : Prop} [Decidable c] (holds : Advances r x) (fails : Advances r y) :
    Advances r (if c then x else y) := by
  split
  · exact holds
  · exact fails

variable [IsPreorder σ r]

theorem pure (a : α) : Advances r (Pure.pure a : EStateM ε σ α) := fun s => refl_of r s

theorem raised (e : ε) : Advances r (raised e : EStateM ε σ α) := fun s => refl_of r s

theorem lift (a : Except ε α) : Advances r (lift a : EStateM ε σ α) := by
  cases a with
  | ok a => exact pure a
  | error e => exact raised e

theorem bind {g : α → EStateM ε σ β} (first : Advances r x) (next : ∀ a, Advances r (g a)) :
    Advances r (x >>= g) := by
  intro s
  have step := first s
  rw [bind_run]
  cases run : x s with
  | ok a s' =>
      rw [run] at step
      exact trans_of r step (next a s')
  | error e s' =>
      rw [run] at step
      exact step

end Advances

end IPchain.Lib
