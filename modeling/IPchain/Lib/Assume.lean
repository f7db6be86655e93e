import IPchain.Lib.Advance

/-! What programs do if an assumption on everything they did holds where they end.

The assumption is one that is lost for good once it is lost, as that nothing that was recorded
so far collides. It may speak of steps that are still to come, so it is made of the end of
the whole run. -/

namespace IPchain.Lib

variable {ε σ α β : Type}

def Assures (A : σ → Prop) (x : EStateM ε σ α) (s : σ) (Q : α → σ → Prop) : Prop :=
  A (finish (x s)) → ∃ a s', x s = .ok a s' ∧ Q a s'

namespace Assures

variable {A : σ → Prop} {x : EStateM ε σ α} {s : σ} {Q R : α → σ → Prop}

theorem of_run {a : α} {s' : σ} (run : x s = .ok a s') (post : A s' → Q a s') :
    Assures A x s Q := by
  intro assumed
  rw [run] at assumed
  exact ⟨a, s', run, post assumed⟩

theorem mono (assures : Assures A x s Q) (weaker : ∀ a s', A s' → Q a s' → R a s') :
    Assures A x s R := by
  intro assumed
  obtain ⟨a, s', run, post⟩ := assures assumed
  rw [run] at assumed
  exact ⟨a, s', run, weaker a s' assumed post⟩

theorem with_run (assures : Assures A x s Q) :
    Assures A x s fun a s' => x s = .ok a s' ∧ Q a s' := by
  intro assumed
  obtain ⟨a, s', run, post⟩ := assures assumed
  exact ⟨a, s', run, run, post⟩

theorem pure {a : α} (post : A s → Q a s) : Assures A (Pure.pure a : EStateM ε σ α) s Q :=
  of_run rfl post

section Bind

variable {r : σ → σ → Prop} {g : α → EStateM ε σ β} {T : β → σ → Prop}

theorem bind (kept : ∀ s s', r s s' → A s' → A s) (later : ∀ a, Advances r (g a))
    (first : Assures A x s Q) (next : ∀ a s', A s' → Q a s' → Assures A (g a) s' T) :
    Assures A (x >>= g) s T := by
  intro assumed
  rw [bind_run] at assumed ⊢
  cases run : x s with
  | ok a s' =>
      rw [run] at assumed
      have here : A s' := kept _ _ (later a s') assumed
      obtain ⟨b, s'', same, post⟩ := first (by rwa [run])
      rw [run] at same
      cases same
      exact next a s' here post assumed
  | error e s' =>
      rw [run] at assumed
      obtain ⟨b, s'', same, -⟩ := first (by rwa [run])
      rw [run] at same
      cases same

theorem bind_ok {a : α} {s' : σ} (run : x s = .ok a s') (next : Assures A (g a) s' T) :
    Assures A (x >>= g) s T := by
  rw [Assures, bind_of_ok run]
  exact next

end Bind

end Assures

end IPchain.Lib
