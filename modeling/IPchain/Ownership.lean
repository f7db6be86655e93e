import IPchain.Runs

/-! Who owns the address space: conservation, no double ownership, and authorisation. -/

namespace IPchain

open Lib IPSet

section Conservation

variable {S : Type} [IPSet S]

theorem mem_space_account (s : State S) (x : IPAddress) :
    x ∈ s.account.registry.space ↔ ∃ a, x ∈ (s.getBalance a).1.ownIps := by
  simp only [Registry.mem_space, State.getBalance_fst]
  exact Iff.rfl

variable [Platform]

theorem Step.space {tx : Transaction} {s : Address} {V : IPNetwork} {cached : Cached}
    {L L' : Ledger S} {r : Bool × Cached} (step : Step tx s V cached L r L') :
    L'.registry.space = L.registry.space ↔ (tx.category = 0 → tx.toAddr = some s →
      ∀ x ∈ V, ∃ a, a ≠ s ∧ x ∈ L.registry.own a) := by
  rcases step.effect with ⟨t, category, recipient, -, registry⟩ |
    ⟨t, category, recipient, -, registry⟩ | ⟨category, -, registry⟩
  · rw [registry, Registry.space_transfer _ (step.owned (Or.inl category)), recipient]
    constructor
    · exact fun covered _ same => covered (Option.some.inj same)
    · exact fun covered same => covered category (congrArg some same)
  · refine iff_of_true (by rw [registry]; rfl) ?_
    intro allocation
    omega
  · refine iff_of_true (by rw [registry]) ?_
    intro allocation
    omega

/-- A transaction keeps the space that is owned at all, except when an account allocates to
itself what no other account owns. -/
theorem applyTransaction_space_iff {s s' : State S} {tx : Transaction} {cached c : Cached}
    (applied : applyTransaction tx cached s = .ok (true, c) s') :
    (∀ x, (∃ a, x ∈ (s'.getBalance a).1.ownIps) ↔ ∃ a, x ∈ (s.getBalance a).1.ownIps) ↔
      ∀ sender V, tx.sender = .ok sender → tx.ipNetwork = .ok V → tx.category = 0 →
        tx.toAddr = some sender → ∀ x ∈ V, ∃ a, a ≠ sender ∧ x ∈ (s.getBalance a).1.ownIps := by
  obtain ⟨a, V, step⟩ := applied_step applied
  have same : (∀ x, (∃ a, x ∈ (s'.getBalance a).1.ownIps) ↔
      ∃ a, x ∈ (s.getBalance a).1.ownIps) ↔
        s'.account.registry.space = s.account.registry.space := by
    simp only [Set.ext_iff, mem_space_account]
  rw [same, step.space]
  simp only [State.getBalance_fst]
  constructor
  · intro covers sender W signed network
    rw [step.valid.signed] at signed
    rw [step.valid.network] at network
    cases signed
    cases network
    exact covers
  · exact fun covers => covers a V step.valid.signed step.valid.network

end Conservation

section Sample

open Sample

theorem allocation_keeps_space : ∃ (s s' : State AddressRanges) (c : Cached),
    applyTransaction (move 0 alice bob 0 (net 0 16)) ∅ s = .ok (true, c) s' ∧
      ∀ x, (∃ a, x ∈ (s'.getBalance a).1.ownIps) ↔ ∃ a, x ∈ (s.getBalance a).1.ownIps := by
  obtain ⟨s, rows, c, s', -, applied, -, -⟩ := applied_of_passes
    (move 0 alice bob 0 (net 0 16)) (fun _ => true) (fun _ => true) (by decide)
  refine ⟨s, s', c, applied, (applyTransaction_space_iff applied).mpr ?_⟩
  intro sender V signed _ _ recipient
  cases signed
  cases recipient

/-- Alice allocates a part of her own network to herself, and nobody owns it afterwards. -/
theorem self_allocation_loses_space : ∃ (s : State AddressRanges) (rows : Cached)
    (s' : State AddressRanges) (c : Cached) (x : IPAddress),
    stateFromGenesisDeclaration genesis = .ok (s, rows) ∧
      applyTransaction (move 0 alice alice 0 (net 0 16)) ∅ s = .ok (true, c) s' ∧
      (∃ a, x ∈ (s.getBalance a).1.ownIps) ∧ ¬ ∃ a, x ∈ (s'.getBalance a).1.ownIps := by
  obtain ⟨s, rows, c, s', built, applied, before, -⟩ := applied_of_passes
    (move 0 alice alice 0 (net 0 16)) (fun s => owns s alice (net 0 16)) (fun _ => true)
    (by decide)
  have held := mem_of_owns before (net 0 16).ip (IPNetwork.ip_mem _)
  refine ⟨s, rows, s', c, (net 0 16).ip, built, applied, ⟨alice, held⟩, ?_⟩
  obtain ⟨a, V, step⟩ := applied_step applied
  have network := step.valid.network
  rw [ipNetwork_move 0 alice alice 0 _ (net 0 16) (by decide)] at network
  cases network
  cases step.valid.signed
  rintro ⟨b, owned⟩
  rw [State.getBalance_fst] at owned
  rcases step.effect with ⟨t, -, recipient, -, registry⟩ | ⟨t, category, -⟩ | ⟨category, -⟩
  · cases recipient
    have after : (net 0 16).ip ∈ s'.account.registry.own b := owned
    rw [registry, Registry.mem_own_transfer] at after
    split at after
    · exact after.2 (IPNetwork.ip_mem _)
    · rename_i other
      obtain ⟨ip, lists, inside⟩ := genesis_owned built (after.resolve_right fun same => other same.1)
      rcases lists_genesis lists with ⟨same, -⟩ | ⟨-, rfl⟩
      · exact other same
      · revert inside
        decide
  · cases category
  · exact absurd category (by decide)

end Sample

section Exclusion

variable {S : Type} [IPSet S] [Platform]

theorem Step.disjoint {tx : Transaction} {s : Address} {V : IPNetwork} {cached : Cached}
    {L L' : Ledger S} {r : Bool × Cached} (step : Step tx s V cached L r L')
    (disjoint : L.registry.Disjoint) : L'.registry.Disjoint := by
  rcases step.effect with ⟨t, category, -, -, registry⟩ | ⟨t, category, -, -, registry⟩ |
    ⟨category, -, registry⟩ <;> rw [registry]
  · exact Registry.disjoint_transfer _ (step.owned (Or.inl category)) disjoint
  · exact disjoint
  · exact disjoint

omit [Platform] in
theorem disjoint_account (s : State S) : s.account.registry.Disjoint ↔
    ∀ a b, a ≠ b → ∀ x ∈ (s.getBalance a).1.ownIps, x ∉ (s.getBalance b).1.ownIps := by
  simp only [State.getBalance_fst]
  exact Iff.rfl

/-- From any state in which no two accounts share an address, and so from any such genesis,
no run leads to two accounts that share one. -/
theorem no_double_ownership {s₀ s : State S} {txs : List Transaction}
    (disjoint : ∀ a b, a ≠ b → ∀ x ∈ (s₀.getBalance a).1.ownIps, x ∉ (s₀.getBalance b).1.ownIps)
    (run : Run s₀ txs s) :
    ∀ a b, a ≠ b → ∀ x ∈ (s.getBalance a).1.ownIps, x ∉ (s.getBalance b).1.ownIps := by
  rw [← disjoint_account] at disjoint ⊢
  exact run.preserves (fun _ _ _ _ _ _ _ step => step.disjoint) disjoint

end Exclusion

section Sample

open Sample

theorem disjoint_genesis {s : State AddressRanges} {rows : Cached}
    (built : stateFromGenesisDeclaration genesis = .ok (s, rows)) : ∀ a b, a ≠ b →
    ∀ x ∈ (s.getBalance a).1.ownIps, x ∉ (s.getBalance b).1.ownIps := by
  have apart (x : IPAddress) (first : x ∈ net 0 9) : x ∉ net 128 9 := by
    intro second
    exact absurd (first.2.symm.trans second.2) (by decide)
  intro a b different x first second
  rw [State.getBalance_fst] at first second
  obtain ⟨m, listsA, inA⟩ := genesis_owned built first
  obtain ⟨n, listsB, inB⟩ := genesis_owned built second
  rcases lists_genesis listsA with ⟨rfl, rfl⟩ | ⟨rfl, rfl⟩ <;>
    rcases lists_genesis listsB with ⟨rfl, rfl⟩ | ⟨rfl, rfl⟩
  · exact different rfl
  · exact apart x inA inB
  · exact apart x inB inA
  · exact different rfl

theorem no_double_ownership_after_allocation : ∃ (s s' : State AddressRanges) (rows : Cached),
    stateFromGenesisDeclaration genesis = .ok (s, rows) ∧
      Run s [move 0 alice bob 0 (net 0 16)] s' ∧
      ∀ a b, a ≠ b → ∀ x ∈ (s'.getBalance a).1.ownIps, x ∉ (s'.getBalance b).1.ownIps := by
  obtain ⟨s, rows, c, s', built, applied, -, -⟩ := applied_of_passes
    (move 0 alice bob 0 (net 0 16)) (fun _ => true) (fun _ => true) (by decide)
  have run : Run s [move 0 alice bob 0 (net 0 16)] s' := Run.start.apply applied
  exact ⟨s, s', rows, built, run, no_double_ownership (disjoint_genesis built) run⟩

end Sample

section Authorisation

variable {S : Type} [IPSet S] [Platform]

theorem Step.own_frame {tx : Transaction} {s : Address} {V : IPNetwork} {cached : Cached}
    {L L' : Ledger S} {r : Bool × Cached} (step : Step tx s V cached L r L') {a : Address}
    (other : a ≠ s) (x : IPAddress) : x ∈ L'.registry.own a ↔
      x ∈ L.registry.own a ∨ (tx.category = 0 ∧ tx.toAddr = some a ∧ x ∈ V) := by
  rcases step.effect with ⟨t, category, recipient, -, registry⟩ | ⟨t, category, -, -, registry⟩ |
    ⟨category, -, registry⟩ <;> rw [registry]
  · rw [Registry.mem_own_transfer, if_neg other, recipient]
    simp [category, eq_comm]
  · simp [category, Registry.delegate]
  · have later : tx.category ≠ 0 := by omega
    simp [later]

/-- What a transaction can change of an account that did not sign it. -/
theorem authorisation_frame {s s' : State S} {tx : Transaction} {cached c : Cached}
    (applied : applyTransaction tx cached s = .ok (true, c) s') {sender : Address}
    (signed : tx.sender = .ok sender) {a : Address} (other : a ≠ sender) :
    (s'.getNonce a).1 = (s.getNonce a).1 ∧
      (s'.getBalance a).1.delegatedIps = (s.getBalance a).1.delegatedIps ∧
      (s'.getBalance a).1.mapServer = (s.getBalance a).1.mapServer ∧
      (s'.getBalance a).1.locator = (s.getBalance a).1.locator ∧
      (∀ x ∈ (s.getBalance a).1.ownIps, x ∈ (s'.getBalance a).1.ownIps) ∧
      (∀ x ∈ (s'.getBalance a).1.ownIps, x ∉ (s.getBalance a).1.ownIps → tx.category = 0 ∧
        tx.toAddr = some a ∧ ∃ V, tx.ipNetwork = .ok V ∧ x ∈ V) ∧
      ∀ b, b ≠ sender → (s'.getBalance a).1.receivedIps.lookup b =
        (s.getBalance a).1.receivedIps.lookup b := by
  obtain ⟨sender', V, step⟩ := applied_step applied
  have same := step.valid.signed
  rw [signed] at same
  cases same
  simp only [State.getBalance_fst, State.getNonce_fst]
  have own := step.own_frame other
  refine ⟨step.frame.nonce a other, step.frame.delegated a other, step.frame.mapServer a other,
    step.frame.locator a other, ?_, ?_, ?_⟩
  · exact fun x held => (own x).mpr (Or.inl held)
  · intro x after before
    obtain ⟨category, recipient, inside⟩ := ((own x).mp after).resolve_left before
    exact ⟨category, recipient, V, step.valid.network, inside⟩
  · exact fun b different => step.frame.received a b (Or.inr different)

end Authorisation

section Sample

open Sample

/-- Alice allocates to Bob, who gets no more than the network. -/
theorem recipient_framed : ∃ (s s' : State AddressRanges) (c : Cached),
    applyTransaction (move 0 alice bob 0 (net 0 16)) ∅ s = .ok (true, c) s' ∧
      owns s bob (net 0 16) = false ∧ owns s' bob (net 0 16) = true ∧
      (s'.getNonce bob).1 = (s.getNonce bob).1 ∧
      (s'.getBalance bob).1.delegatedIps = (s.getBalance bob).1.delegatedIps ∧
      ∀ x ∈ (s'.getBalance bob).1.ownIps, x ∉ (s.getBalance bob).1.ownIps → x ∈ net 0 16 := by
  obtain ⟨s, rows, c, s', -, applied, before, after⟩ := applied_of_passes
    (move 0 alice bob 0 (net 0 16)) (fun s => !owns s bob (net 0 16))
    (fun s => owns s bob (net 0 16)) (by decide)
  obtain ⟨nonce, delegated, -, -, -, gained, -⟩ := authorisation_frame applied
    (show _ = Except.ok alice from rfl) (show bob ≠ alice by decide)
  refine ⟨s, s', c, applied, by simpa using before, after, nonce, delegated, ?_⟩
  intro x held fresh
  obtain ⟨-, -, V, network, inside⟩ := gained x held fresh
  have read : (move 0 alice bob 0 (net 0 16)).ipNetwork = .ok (net 0 16) := by decide
  rw [read] at network
  cases network
  exact inside

end Sample

end IPchain
