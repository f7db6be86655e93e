import IPchain.Applicability

/-! Delegations: they stay inside ownership, and their two halves agree except for what an
account delegates to itself. -/

namespace IPchain

open Lib IPSet

section Ownership

variable {S : Type} [IPSet S] [Platform] [StateRoot S]

/-- From any genesis, what an account has delegated is non-empty borrower by borrower, is
delegated to one borrower at a time, and is its own. -/
theorem delegations_within_ownership {g : GenesisData} {s₀ s : State S} {rows : Cached}
    {txs : List Transaction} (genesis : stateFromGenesisDeclaration g = .ok (s₀, rows))
    (run : Run s₀ txs s) (a : Address) :
    (∀ b d, (s.getBalance a).1.delegatedIps.lookup b = some d → ∃ x, x ∈ d) ∧
      (∀ b c d e, b ≠ c → (s.getBalance a).1.delegatedIps.lookup b = some d →
        (s.getBalance a).1.delegatedIps.lookup c = some e → ∀ x ∈ d, x ∉ e) ∧
      ∀ b d, (s.getBalance a).1.delegatedIps.lookup b = some d →
        ∀ x ∈ d, x ∈ (s.getBalance a).1.ownIps := by
  have sound := run.sound genesis
  simp only [State.getBalance_fst]
  refine ⟨(sound.live a).1, ?_, ?_⟩
  · intro b c d e different first second x inD inE
    exact sound.split a b c different x ⟨d, first, inD⟩ ⟨e, second, inE⟩
  · exact fun b d present x inside => sound.within a b x ⟨d, present, inside⟩

end Ownership

section Sample

open Sample

theorem delegation_within_ownership : ∃ (s s' : State AddressRanges) (rows : Cached) (d : AddressRanges),
    stateFromGenesisDeclaration genesis = .ok (s, rows) ∧
      Run s [move 1 alice bob 0 (net 0 16)] s' ∧
      (s'.getBalance alice).1.delegatedIps.lookup bob = some d ∧
      ∀ x ∈ d, x ∈ (s'.getBalance alice).1.ownIps := by
  obtain ⟨s, rows, c, s', built, applied, -, after⟩ := applied_of_passes
    (move 1 alice bob 0 (net 0 16)) (fun _ => true)
    (fun s => ((s.getBalance alice).1.delegatedIps.lookup bob).isSome) (by decide)
  have run : Run s [move 1 alice bob 0 (net 0 16)] s' := Run.start.apply applied
  obtain ⟨d, present⟩ := Option.isSome_iff_exists.mp after
  exact ⟨s, s', rows, d, built, run, present,
    (delegations_within_ownership built run alice).2.2 bob d present⟩

end Sample

section Symmetry

variable {S : Type} [IPSet S] [Platform]

def Ledger.Outward (L : Ledger S) : Prop := ∀ a x, x ∉ L.registry.delegated a a

def SelfDelegation (tx : Transaction) : Prop :=
  tx.category = 1 ∧ ∃ sender, tx.sender = .ok sender ∧ tx.toAddr = some sender

omit [Platform] in
theorem symmetric_iff {L : Ledger S} (sound : L.Sound) :
    (∀ a b x, x ∈ L.registry.delegated a b ↔ x ∈ L.registry.received b a) ↔ L.Outward := by
  have none (a : Address) (x : IPAddress) : x ∉ L.registry.received a a := by
    rintro ⟨r, present, -⟩
    rw [sound.loopless a] at present
    cases present
  constructor
  · exact fun symmetric a x lent => none a x ((symmetric a a x).mp lent)
  · intro outward a b x
    by_cases same : a = b
    · subst same
      exact iff_of_false (outward a x) (none a x)
    · exact sound.mirrored a b same x

theorem moves_outward {L L' : Ledger S} (sound : L.Sound) {tx : Transaction} {cached : Cached}
    {r : Bool × Cached} (applied : applyTransaction tx cached L = .ok r L')
    (moves : tx.category = 0 ∨ tx.category = 1) {s : Address} {V : IPNetwork}
    (valid : Valid L tx s V) : ∀ x ∈ V, x ∉ L.registry.delegated s s := by
  obtain ⟨-, -, done⟩ := applyTransaction_eq_ok.mp applied
  have reclaimable : L.Reclaimable s V := by
    rcases moves with category | category <;>
      simp only [perform, category, reduceIte, one_ne_zero] at done
    · exact ((moveIps_ok_iff sound valid cached _ _).mp ⟨_, _, done⟩).2
    · exact ((moveIps_ok_iff sound valid cached _ _).mp ⟨_, _, done⟩).2
  rintro x inV ⟨d, present, inD⟩
  exact ((reclaimable s d present).2 ⟨x, inV, inD⟩).1 rfl

theorem outward_step {L L' : Ledger S} (sound : L.Sound) {tx : Transaction} {cached : Cached}
    {r : Bool × Cached} (applied : applyTransaction tx cached L = .ok r L') :
    L'.Outward ↔ L.Outward ∧ ¬ SelfDelegation tx := by
  obtain ⟨s, V, step⟩ := applyTransaction_step applied
  have kept (moves : tx.category = 0 ∨ tx.category = 1) (a : Address) (x : IPAddress) :
      x ∈ (L.registry.revoke s V.addresses).delegated a a ↔ x ∈ L.registry.delegated a a := by
    rw [Registry.mem_delegated_revoke]
    refine ⟨And.left, fun lent => ⟨lent, ?_⟩⟩
    rintro ⟨rfl, moved⟩
    exact moves_outward sound applied moves step.valid x moved lent
  have other (category : tx.category ≠ 1) : ¬ SelfDelegation tx := fun same => category same.1
  rcases step.effect with ⟨t, category, -, -, registry⟩ | ⟨t, category, recipient, -, registry⟩ |
    ⟨category, -, registry⟩
  · rw [Ledger.Outward, registry, and_iff_left (other (by omega))]
    exact forall₂_congr fun a x => not_congr (kept (Or.inl category) a x)
  · have target : SelfDelegation tx ↔ s = t := by
      simp [SelfDelegation, category, step.valid.signed, recipient, eq_comm]
    rw [Ledger.Outward, registry, target]
    simp only [Registry.mem_delegated_delegate, ← Registry.mem_delegated_revoke,
      kept (Or.inr category), not_or]
    constructor
    · intro outward
      refine ⟨fun a x => (outward a x).1, ?_⟩
      rintro rfl
      exact (outward s V.ip).2 ⟨⟨rfl, rfl⟩, V.ip_mem⟩
    · rintro ⟨outward, different⟩ a x
      refine ⟨outward a x, ?_⟩
      rintro ⟨⟨rfl, same⟩, -⟩
      exact different same
  · rw [Ledger.Outward, registry, and_iff_left (other (by omega))]
    exact Iff.rfl

variable [StateRoot S]

theorem outward_run {g : GenesisData} {s₀ s : State S} {rows : Cached} {txs : List Transaction}
    (genesis : stateFromGenesisDeclaration g = .ok (s₀, rows)) (run : Run s₀ txs s) :
    s.account.Outward ↔ ∀ tx ∈ txs, ¬ SelfDelegation tx := by
  induction run with
  | start =>
      refine iff_of_true ?_ (fun tx member => by cases member)
      rintro a x ⟨d, present, -⟩
      rw [(fresh_genesis genesis a).1] at present
      cases present
  | @apply txs s s' tx cached c run applied ih =>
      have step := outward_step (run.sound genesis)
        ((simulates_applyTransaction tx cached).ok applied)
      rw [step, ih]
      simp [or_imp, forall_and]
  | read run a ih =>
      rw [State.account_getAndCacheAccount]
      exact ih

/-- At the end of a run from genesis both halves of all delegations agree if and only if no
account has delegated to itself in it. -/
theorem delegations_symmetric_iff {g : GenesisData} {s₀ s : State S} {rows : Cached}
    {txs : List Transaction} (genesis : stateFromGenesisDeclaration g = .ok (s₀, rows))
    (run : Run s₀ txs s) :
    (∀ a b x, (∃ d, (s.getBalance a).1.delegatedIps.lookup b = some d ∧ x ∈ d) ↔
      ∃ r, (s.getBalance b).1.receivedIps.lookup a = some r ∧ x ∈ r) ↔
        ∀ tx ∈ txs, tx.category = 1 → ∀ sender, tx.sender = .ok sender →
          tx.toAddr ≠ some sender := by
  simp only [State.getBalance_fst]
  refine ((symmetric_iff (run.sound genesis)).trans (outward_run genesis run)).trans ?_
  simp only [SelfDelegation, not_and, not_exists, ne_eq]

end Symmetry

section Sample

open Sample

theorem delegation_symmetric : ∃ (s s' : State AddressRanges) (rows : Cached),
    stateFromGenesisDeclaration genesis = .ok (s, rows) ∧
      Run s [move 1 alice bob 0 (net 0 16)] s' ∧
      ∀ a b x, (∃ d, (s'.getBalance a).1.delegatedIps.lookup b = some d ∧ x ∈ d) ↔
        ∃ r, (s'.getBalance b).1.receivedIps.lookup a = some r ∧ x ∈ r := by
  obtain ⟨s, rows, c, s', built, applied, -, -⟩ := applied_of_passes
    (move 1 alice bob 0 (net 0 16)) (fun _ => true) (fun _ => true) (by decide)
  have run : Run s [move 1 alice bob 0 (net 0 16)] s' := Run.start.apply applied
  refine ⟨s, s', rows, built, run, (delegations_symmetric_iff built run).mpr ?_⟩
  intro tx member _ sender signed recipient
  rw [List.mem_singleton] at member
  subst member
  cases signed
  cases recipient

/-- Alice delegates a part of her own network to herself. She is on record as the lender, and
not as the borrower. -/
theorem self_delegation_one_sided : ∃ (s s' : State AddressRanges) (rows : Cached)
    (x : IPAddress), stateFromGenesisDeclaration genesis = .ok (s, rows) ∧
      Run s [move 1 alice alice 0 (net 0 16)] s' ∧
      (∃ d, (s'.getBalance alice).1.delegatedIps.lookup alice = some d ∧ x ∈ d) ∧
      ¬ ∃ r, (s'.getBalance alice).1.receivedIps.lookup alice = some r ∧ x ∈ r := by
  obtain ⟨s, rows, c, s', built, applied, -, after⟩ := applied_of_passes
    (move 1 alice alice 0 (net 0 16)) (fun _ => true)
    (fun s => ((s.getBalance alice).1.delegatedIps.lookup alice).isSome) (by decide)
  have run : Run s [move 1 alice alice 0 (net 0 16)] s' := Run.start.apply applied
  have sound := run.sound built
  obtain ⟨d, present⟩ := Option.isSome_iff_exists.mp after
  have lent := present
  rw [State.getBalance_fst] at lent
  obtain ⟨x, inside⟩ := (sound.live alice).1 alice d lent
  refine ⟨s, s', rows, x, built, run, ⟨d, present, inside⟩, ?_⟩
  rintro ⟨r, borrowed, -⟩
  rw [State.getBalance_fst, sound.loopless alice] at borrowed
  cases borrowed

end Sample

end IPchain
