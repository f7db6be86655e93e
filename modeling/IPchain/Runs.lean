import IPchain.Effect
import IPchain.Genesis

/-! The states that transactions reach from a genesis declaration. -/

namespace IPchain

open Lib IPSet

variable {S : Type} [IPSet S] [Platform]

/-- `txs` are the transactions that were applied one after another, with any dictionary of
new rows each. Readers may fill the cache at any time. -/
inductive Run (s₀ : State S) : List Transaction → State S → Prop
  | start : Run s₀ [] s₀
  | apply {txs : List Transaction} {s s' : State S} {tx : Transaction} {cached c : Cached}
      (run : Run s₀ txs s) (applied : applyTransaction tx cached s = .ok (true, c) s') :
      Run s₀ (txs ++ [tx]) s'
  | read {txs : List Transaction} {s : State S} (run : Run s₀ txs s) (a : Address) :
      Run s₀ txs (s.getAndCacheAccount a).2

theorem applied_step {s s' : State S} {tx : Transaction} {cached : Cached} {r : Bool × Cached}
    (applied : applyTransaction tx cached s = .ok r s') :
    ∃ a V, Step tx a V cached s.account r s'.account :=
  applyTransaction_step ((simulates_applyTransaction tx cached).ok applied)

theorem Run.preserves {P : Ledger S → Prop}
    (step : ∀ tx a V cached L r L', Step tx a V cached L r L' → P L → P L')
    {s₀ s : State S} {txs : List Transaction} (run : Run s₀ txs s) (start : P s₀.account) :
    P s.account := by
  induction run with
  | start => exact start
  | apply run applied ih =>
      obtain ⟨a, V, done⟩ := applied_step applied
      exact step _ a V _ _ _ _ done ih
  | read run a ih =>
      rw [State.account_getAndCacheAccount]
      exact ih

def Ledger.Fresh (L : Ledger S) : Prop :=
  ∀ a, (L a).balance.delegatedIps = ∅ ∧ (L a).balance.receivedIps = ∅

omit [Platform] in
theorem fresh_initial : Ledger.Fresh (State.initial : State S).account := fun _ => ⟨rfl, rfl⟩

theorem fresh_loadAlloc {entries : List (Bytes × Option (List IPNetwork))} {s t : State S}
    {rows result : Cached} (fresh : Ledger.Fresh s.account)
    (loaded : loadAlloc entries s rows = .ok (t, result)) : Ledger.Fresh t.account := by
  induction entries generalizing s rows with
  | nil =>
      cases loaded
      exact fresh
  | cons head tail ih =>
      obtain ⟨addr, data⟩ := head
      obtain ⟨a, -, loaded⟩ := except_bind_eq_ok.mp loaded
      cases data with
      | none => exact ih fresh loaded
      | some ownIps =>
          refine ih ?_ loaded
          intro b
          rw [State.setBalance, State.account_setParam]
          by_cases same : b = a
          · subst same
            rw [Function.update_self]
            exact ⟨rfl, rfl⟩
          · rw [Function.update_of_ne same]
            exact fresh b

theorem genesis_account [StateRoot S] {g : GenesisData} {s : State S} {rows : Cached}
    (genesis : stateFromGenesisDeclaration g = .ok (s, rows)) : ∃ t : State S,
    loadAlloc (Platform.items ((allocData g.alloc).entries.map fun entry => (entry.1, entry.2)))
      State.initial ∅ = .ok (t, rows) ∧ s.account = t.account ∧ s.journal = [] := by
  obtain ⟨⟨t, rows'⟩, loaded, result⟩ := except_bind_eq_ok.mp genesis
  cases result
  exact ⟨t, loaded, t.account_commit, rfl⟩

theorem fresh_genesis [StateRoot S] {g : GenesisData} {s : State S} {rows : Cached}
    (genesis : stateFromGenesisDeclaration g = .ok (s, rows)) : Ledger.Fresh s.account := by
  obtain ⟨t, loaded, same, -⟩ := genesis_account genesis
  rw [same]
  exact fresh_loadAlloc fresh_initial loaded

omit [Platform] in
theorem live_fresh {L : Ledger S} (fresh : L.Fresh) : L.Live := by
  intro a
  rw [(fresh a).1, (fresh a).2]
  constructor <;>
    · intro b s present
      cases present

/-- The loans of a registry stay within ownership, do not overlap, and are mirrored. -/
structure Ledger.Sound (L : Ledger S) : Prop where
  live : L.Live
  loopless : L.Loopless
  within : L.registry.Within
  split : L.registry.Split
  mirrored : L.registry.Mirrored

omit [Platform] in
theorem sound_fresh {L : Ledger S} (fresh : L.Fresh) : L.Sound := by
  have none (a b : Address) (x : IPAddress) : x ∉ L.registry.delegated a b := by
    rintro ⟨s, present, -⟩
    rw [(fresh a).1] at present
    cases present
  refine ⟨live_fresh fresh, fun a => by rw [(fresh a).2]; rfl, ?_, ?_, ?_⟩
  · exact fun a b x member => absurd member (none a b x)
  · exact fun a b c _ x member => absurd member (none a b x)
  · intro a b _ x
    refine iff_of_false (none a b x) ?_
    rintro ⟨s, present, -⟩
    rw [(fresh b).2] at present
    cases present

theorem Step.owned {tx : Transaction} {s : Address} {V : IPNetwork} {cached : Cached}
    {L L' : Ledger S} {r : Bool × Cached} (step : Step tx s V cached L r L')
    (moves : tx.category = 0 ∨ tx.category = 1) : V.addresses ⊆ L.registry.own s :=
  fun x member => step.valid.owned moves x member

theorem Step.sound {tx : Transaction} {s : Address} {V : IPNetwork} {cached : Cached}
    {L L' : Ledger S} {r : Bool × Cached} (step : Step tx s V cached L r L') (sound : L.Sound) :
    L'.Sound := by
  refine ⟨step.frame.live sound.live, step.frame.loopless sound.loopless, ?_, ?_, ?_⟩ <;>
    rcases step.effect with ⟨t, category, -, -, registry⟩ | ⟨t, category, -, -, registry⟩ |
      ⟨category, -, registry⟩ <;> rw [registry]
  · exact Registry.within_transfer _ sound.within
  · exact Registry.within_delegate _ (step.owned (Or.inr category)) sound.within
  · exact sound.within
  · exact Registry.split_revoke _ sound.split
  · exact Registry.split_delegate _ sound.split
  · exact sound.split
  · exact Registry.mirrored_revoke _ sound.mirrored
  · exact Registry.mirrored_delegate _ sound.mirrored
  · exact sound.mirrored

end IPchain
