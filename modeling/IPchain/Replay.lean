import IPchain.Chain
import IPchain.Lib.Serial

/-! No transaction is accepted twice. -/

namespace IPchain

open Lib

section Numbers

variable {S : Type} [IPSet S]

/-- Who sent a transaction, as far as it is signed. -/
def Transaction.origin [Platform] (tx : Transaction) : Option Address := tx.sender.toOption

/-- The transactions of the blocks in the order of the chain. -/
def transactionsOf (blocks : List Block) : List Transaction :=
  blocks.flatMap Block.transactions

def Ledger.nonces (L : Ledger S) : Address → Nat := fun a => (L a).nonce

variable [Platform]

theorem Step.nonces {tx : Transaction} {s : Address} {V : IPNetwork} {cached : Cached}
    {L L' : Ledger S} {r : Bool × Cached} (step : Step tx s V cached L r L') :
    L'.nonces = Function.update L.nonces s (L.nonces s + 1) := by
  funext a
  by_cases same : a = s
  · subst same
    rw [Function.update_self]
    exact step.frame.sender
  · rw [Function.update_of_ne same]
    exact step.frame.nonce a same

theorem applyTransactions_serial {txs : List Transaction} {cached c : Cached} {L L' : Ledger S}
    (run : applyTransactions txs cached L = .ok c L') :
    Serial Transaction.origin Transaction.nonce L.nonces txs L'.nonces := by
  induction txs generalizing L cached with
  | nil =>
      cases run
      exact .nil _
  | cons tx txs ih =>
      obtain ⟨r, M, applied, run⟩ := bind_eq_ok.mp run
      obtain ⟨s, V, step⟩ := applyTransaction_step applied
      have signed : tx.origin = some s := by rw [Transaction.origin, step.valid.signed]; rfl
      have rest := ih run
      rw [step.nonces] at rest
      exact .cons signed step.valid.nonce.symm rest

theorem applyBlock_serial [TrieRoot] {R : Type} [Radix R Address] {block : Block} {s t : State S}
    {p q : R} (applied : applyBlock block (s, p) = .ok () (t, q)) :
    Serial Transaction.origin Transaction.nonce s.account.nonces block.transactions
      t.account.nonces := by
  obtain ⟨-, cached, u, loop, rfl, -⟩ := applyBlock_eq_ok.mp applied
  have run := (simulates_applyTransactions _ _).ok loop
  exact applyTransactions_serial run

theorem loadAlloc_nonces {entries : List (Bytes × Option (List IPNetwork))} {s t : State S}
    {rows result : Cached} (loaded : loadAlloc entries s rows = .ok (t, result)) :
    t.account.nonces = s.account.nonces := by
  induction entries generalizing s rows with
  | nil =>
      cases loaded
      rfl
  | cons head tail ih =>
      obtain ⟨addr, data⟩ := head
      obtain ⟨a, -, loaded⟩ := except_bind_eq_ok.mp loaded
      cases data with
      | none => exact ih loaded
      | some ownIps =>
          rw [ih loaded]
          funext b
          rw [Ledger.nonces, State.setBalance, State.account_setParam]
          by_cases same : b = a
          · subst same
            rw [Function.update_self]
            rfl
          · rw [Function.update_of_ne same]
            rfl

theorem genesis_nonces [StateRoot S] {g : GenesisData} {s : State S} {rows : Cached}
    (genesis : stateFromGenesisDeclaration g = .ok (s, rows)) :
    s.account.nonces = fun _ => 0 := by
  obtain ⟨t, loaded, same, -⟩ := genesis_account genesis
  rw [same, loadAlloc_nonces loaded]
  rfl

end Numbers

section Runs

variable {S R : Type} [IPSet S] [Radix R Address] [Platform] [TrieRoot] [Poststate] [StateRoot S]

theorem Chain.Reachable.serial {g : GenesisData} {blocks : List Block} {c : Chain S R}
    (reachable : c.Reachable g blocks) :
    Serial Transaction.origin Transaction.nonce (fun _ => 0) (transactionsOf blocks)
      c.state.account.nonces := by
  apply reachable.invariant (P := fun blocks c => Serial Transaction.origin Transaction.nonce
    (fun _ => 0) (transactionsOf blocks) c.state.account.nonces)
  · intro c built
    obtain ⟨s, rows, header, genesis, -, rfl⟩ := Chain.init_spec built
    rw [genesis_nonces genesis]
    exact .nil _
  · intro blocks c block s t p _ ih alike applied
    have block := applyBlock_serial applied
    rw [alike.account] at block
    rw [transactionsOf, List.flatMap_append, List.flatMap_singleton]
    exact ih.append block
  · intro blocks c s queue ih alike
    rw [← alike.account] at ih
    exact ih

/-- The nonces of a sender are 0, 1, 2, ... in the order of the chain, and its nonce in the
state is their number. No pair of a sender and a nonce comes twice, and no transaction. -/
theorem no_replay {g : GenesisData} {blocks : List Block} {c : Chain S R}
    (reachable : c.Reachable g blocks) :
    (∀ a, (sentBy Transaction.origin a (transactionsOf blocks)).map Transaction.nonce =
        List.range (sentBy Transaction.origin a (transactionsOf blocks)).length ∧
      (c.state.getNonce a).1 = (sentBy Transaction.origin a (transactionsOf blocks)).length) ∧
    ((transactionsOf blocks).map fun tx => (tx.origin, tx.nonce)).Nodup ∧
      (∀ tx ∈ transactionsOf blocks, ∃ a, tx.sender = .ok a) ∧ (transactionsOf blocks).Nodup := by
  have serial := reachable.serial
  refine ⟨fun a => ⟨?_, ?_⟩, serial.nodup, ?_, serial.nodup.of_map⟩
  · rw [serial.numbers a, List.range_eq_range']
  · rw [State.getNonce_fst]
    exact (serial.count a).trans (Nat.zero_add _)
  · intro tx member
    obtain ⟨a, signed, -⟩ := serial.known tx member
    cases sender : tx.sender with
    | ok b => exact ⟨b, rfl⟩
    | error e =>
        rw [Transaction.origin, sender] at signed
        cases signed

end Runs

section Sample

open Sample

theorem no_replay_moved : ∃ c : Chain AddressRanges (PrefixTable Address),
    c.Reachable genesis6 [firstBlock [move 0 alice carol 0 (net6 0 48)]] ∧
      (c.state.getNonce alice).1 = (sentBy Transaction.origin alice
        (transactionsOf [firstBlock [move 0 alice carol 0 (net6 0 48)]])).length := by
  obtain ⟨s, rows, c, t, built, reachable, -⟩ := moved_of_passes 0 carol (by decide)
    (fun _ _ => true) (by decide)
  exact ⟨c, reachable, ((no_replay reachable).1 alice).2⟩

end Sample

end IPchain
