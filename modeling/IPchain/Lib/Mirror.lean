import IPchain.Lib.Assume

/-! Programs that do on one state what other programs do on an abstract one, results and
exceptions included, if an assumption on everything they did holds where they end. -/

namespace IPchain.Lib

variable {ε σ τ α β κ : Type}

theorem Advances.mapM {r : σ → σ → Prop} [IsPreorder σ r] {x : κ → EStateM ε σ α}
    (each : ∀ k, Advances r (x k)) (ks : List κ) : Advances r (ks.mapM x) := by
  induction ks with
  | nil =>
      rw [List.mapM_nil]
      exact Advances.pure _
  | cons k ks ih =>
      rw [List.mapM_cons]
      exact Advances.bind (each k) fun _ => Advances.bind ih fun _ => Advances.pure _

def Mirrors (A : σ → Prop) (R : σ → τ → Prop) (x : EStateM ε σ α) (y : EStateM ε τ α) (s : σ)
    (t : τ) : Prop :=
  A (finish (x s)) →
    match y t with
    | .ok a t' => ∃ s', x s = .ok a s' ∧ R s' t'
    | .error e _ => ∃ s', x s = .error e s'

def outcome : EStateM.Result ε σ α → Except ε α
  | .ok a _ => .ok a
  | .error e _ => .error e

namespace Mirrors

variable {A : σ → Prop} {R Q : σ → τ → Prop} {x : EStateM ε σ α} {y : EStateM ε τ α} {s : σ} {t : τ}

theorem ok (mirrors : Mirrors A R x y s t) (assumed : A (finish (x s))) {a : α} {t' : τ}
    (run : y t = .ok a t') : ∃ s', x s = .ok a s' ∧ R s' t' := by
  have outcome := mirrors assumed
  rwa [run] at outcome

theorem error (mirrors : Mirrors A R x y s t) (assumed : A (finish (x s))) {e : ε} {t' : τ}
    (run : y t = .error e t') : ∃ s', x s = .error e s' := by
  have outcome := mirrors assumed
  rwa [run] at outcome

theorem backward (mirrors : Mirrors A R x y s t) (assumed : A (finish (x s))) {a : α} {s' : σ}
    (run : x s = .ok a s') : ∃ t', y t = .ok a t' ∧ R s' t' := by
  cases run' : y t with
  | ok b t' =>
      rcases mirrors.ok assumed run' with ⟨s'', same, related⟩
      rw [run] at same
      cases same
      exact ⟨t', rfl, related⟩
  | error e t' =>
      rcases mirrors.error assumed run' with ⟨s'', same⟩
      rw [run] at same
      cases same

theorem outcome_eq (mirrors : Mirrors A R x y s t) (assumed : A (finish (x s))) :
    outcome (x s) = outcome (y t) := by
  cases run : y t with
  | ok a t' =>
      rcases mirrors.ok assumed run with ⟨s', same, -⟩
      rw [same]
      rfl
  | error e t' =>
      rcases mirrors.error assumed run with ⟨s', same⟩
      rw [same]
      rfl

theorem of_assures {a : α} {t' : τ} (run : y t = .ok a t')
    (assures : Assures A x s fun b s' => b = a ∧ R s' t') : Mirrors A R x y s t := by
  intro assumed
  rcases assures assumed with ⟨b, s', same, rfl, related⟩
  rw [run]
  exact ⟨s', same, related⟩

theorem pure (a : α) (related : R s t) :
    Mirrors A R (Pure.pure a : EStateM ε σ α) (Pure.pure a : EStateM ε τ α) s t :=
  fun _ => ⟨s, rfl, related⟩

section Bind

variable {r : σ → σ → Prop} {g : α → EStateM ε σ β} {h : α → EStateM ε τ β}

theorem bind (kept : ∀ s s', r s s' → A s' → A s) (later : ∀ a, Advances r (g a))
    (first : Mirrors A R x y s t)
    (next : ∀ a s' t', x s = .ok a s' → A s' → R s' t' → Mirrors A Q (g a) (h a) s' t') :
    Mirrors A Q (x >>= g) (y >>= h) s t := by
  intro assumed
  rw [bind_run] at assumed ⊢
  rw [bind_run]
  cases run : x s with
  | ok a s' =>
      rw [run] at assumed
      have here : A s' := kept _ _ (later a s') assumed
      have outcome := first (by rwa [run])
      cases run' : y t with
      | ok b t' =>
          rw [run', run] at outcome
          rcases outcome with ⟨s'', same, related⟩
          cases same
          exact next a s' t' run here related assumed
      | error e t' =>
          rw [run', run] at outcome
          rcases outcome with ⟨s'', same⟩
          cases same
  | error e s' =>
      rw [run] at assumed
      have outcome := first (by rwa [run])
      cases run' : y t with
      | ok b t' =>
          rw [run', run] at outcome
          rcases outcome with ⟨s'', same, -⟩
          cases same
      | error e' t' =>
          rw [run', run] at outcome
          rcases outcome with ⟨s'', same⟩
          cases same
          exact ⟨s', rfl⟩

theorem mapM [IsPreorder σ r] (kept : ∀ s s', r s s' → A s' → A s) {x : κ → EStateM ε σ α}
    {y : κ → EStateM ε τ α} (later : ∀ k, Advances r (x k)) {ks : List κ}
    (each : ∀ k ∈ ks, ∀ s t, R s t → Mirrors A R (x k) (y k) s t) (related : R s t) :
    Mirrors A R (ks.mapM x) (ks.mapM y) s t := by
  induction ks generalizing s t with
  | nil =>
      rw [List.mapM_nil, List.mapM_nil]
      exact Mirrors.pure _ related
  | cons k ks ih =>
      rcases List.forall_mem_cons.mp each with ⟨first, rest⟩
      rw [List.mapM_cons, List.mapM_cons]
      apply Mirrors.bind kept (fun _ => Advances.bind (Advances.mapM later ks) fun _ => Advances.pure _)
        (first s t related)
      intro a s' t' _ _ related
      apply Mirrors.bind kept (fun _ => Advances.pure _) (ih rest related)
      intro b s'' t'' _ _ related
      exact Mirrors.pure _ related

end Bind

end Mirrors

end IPchain.Lib
