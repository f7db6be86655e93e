import IPchain.State

/-! Validation and application of transactions, over any store of accounts. -/

namespace IPchain

open Lib

class AccountStore (σ : Type) (S : outParam Type) where
  getBalance : σ → Address → Balance S × σ
  getNonce : σ → Address → Nat × σ
  setBalance : σ → Address → Balance S → σ
  incrementNonce : σ → Address → σ
  commit : σ → σ

abbrev Cached := AList fun _ : IPNetwork => Address

variable {σ S : Type} [IPSet S] [AccountStore σ S]

def getBalance (a : Address) : EStateM PyExc σ (Balance S) := fun s =>
  .ok (AccountStore.getBalance s a).1 (AccountStore.getBalance s a).2

def getNonce (a : Address) : EStateM PyExc σ Nat := fun s =>
  .ok (AccountStore.getNonce s a).1 (AccountStore.getNonce s a).2

def setBalance (a : Address) (b : Balance S) : EStateM PyExc σ Unit := fun s =>
  .ok () (AccountStore.setBalance s a b)

def incrementNonce (a : Address) : EStateM PyExc σ Unit := fun s =>
  .ok () (AccountStore.incrementNonce s a)

def commit : EStateM PyExc σ Unit := fun s => .ok () (AccountStore.commit s)

/-- `affected.iteritems()`, each borrower in turn. The balance of the sender is a copy that
is only written back after the loop. -/
def reclaim (sender : Address) : List (Address × S) → Balance S → EStateM PyExc σ (Balance S)
  | [], senderBalance => pure senderBalance
  | (add, ips) :: rest, senderBalance => do
      let senderBalance ← lift (senderBalance.removeDelegatedIps add ips)
      let receivedBalance ← getBalance add
      let receivedBalance ← lift (receivedBalance.removeReceivedIps sender ips)
      setBalance add receivedBalance
      reclaim sender rest senderBalance

variable [Platform]

def validateTransaction (tx : Transaction) : EStateM PyExc σ Bool := do
  let sender ← lift tx.sender
  if sender = nullAddress then raised ⟨.unsignedTransaction, ""⟩
  else do
    let reqNonce ← getNonce sender
    if reqNonce ≠ tx.nonce then raised ⟨.invalidNonce, ""⟩
    else if 3 < tx.category then raised ⟨.invalidCategory, ""⟩
    else do
      let balance ← getBalance sender
      let value ← lift tx.ipNetwork
      if (tx.category = 0 ∨ tx.category = 1) ∧ balance.inOwnIps value = false then
        raised ⟨.insufficientBalance, ""⟩
      else pure true

/-- The common course of the categories 0 and 1: `debit` and `credit` update the copies of
the balances of the sender and of the recipient. -/
def moveIps (tx : Transaction) (debit : Address → IPNetwork → Balance S → Balance S)
    (credit : Address → IPNetwork → Balance S → Balance S) (cached : Cached) :
    EStateM PyExc σ Cached := do
  let sender ← lift tx.sender
  let value ← lift tx.ipNetwork
  let holder ← lift (normalizeAddress (.bytes (toBytes tx.toAddr)))
  let senderBalance ← getBalance sender
  let affected ← lift (senderBalance.affectedDelegatedIps value)
  let senderBalance ← reclaim sender (Platform.items affected) senderBalance
  let toBalance ← getBalance holder
  setBalance holder (credit sender value toBalance)
  setBalance sender (debit holder value senderBalance)
  incrementNonce sender
  pure (cached.insert value holder)

def allocate (tx : Transaction) (cached : Cached) : EStateM PyExc σ Cached :=
  moveIps tx (fun _ value b => b.removeOwnIps value) (fun _ value b => b.addOwnIps value) cached

def delegate (tx : Transaction) (cached : Cached) : EStateM PyExc σ Cached :=
  moveIps tx (fun holder value b => b.addDelegatedIps holder value)
    (fun sender value b => b.addReceivedIps sender value) cached

def Metadata.elements : Metadata → List Bytes
  | .bytes b => b.map fun c => [c]
  | .list items => items

def setMapping (tx : Transaction) (set : Balance S → List Bytes → Except PyExc (Balance S)) :
    EStateM PyExc σ Unit := do
  let sender ← lift tx.sender
  let senderBalance ← getBalance sender
  let senderBalance ← lift (set senderBalance tx.metadata.elements)
  setBalance sender senderBalance
  incrementNonce sender

def perform (tx : Transaction) (cached : Cached) : EStateM PyExc σ Cached :=
  if tx.category = 0 then allocate tx cached
  else if tx.category = 1 then delegate tx cached
  else if tx.category = 2 then do
    setMapping tx Balance.setMapServer
    pure cached
  else if tx.category = 3 then do
    setMapping tx Balance.setLocator
    pure cached
  else pure cached

def applyTransaction (tx : Transaction) (cached : Cached) : EStateM PyExc σ (Bool × Cached) := do
  let _ ← validateTransaction tx
  let cached ← perform tx cached
  commit
  pure (true, cached)

theorem applyTransaction_noted {tx : Transaction} {a : Address} (signed : tx.sender = .ok a)
    (cached : Cached) :
    (applyTransaction { tx with cachedSender := some a } cached : EStateM PyExc σ (Bool × Cached)) =
      applyTransaction tx cached := by
  have noted : ({ tx with cachedSender := some a } : Transaction).sender = .ok a := rfl
  simp only [applyTransaction, validateTransaction, perform, allocate, delegate, moveIps, setMapping,
    noted, signed]
  rfl

instance : AccountStore (State S) S where
  getBalance := State.getBalance
  getNonce := State.getNonce
  setBalance := State.setBalance
  incrementNonce := State.incrementNonce
  commit := State.commit

end IPchain
