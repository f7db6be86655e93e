import IPchain.Apply

/-! The ledger: a function from addresses to accounts, as the abstract store. What a
program does on a state is what it does on the ledger that a reader of the state sees. -/

namespace IPchain

open Lib

variable {S : Type} [IPSet S]

instance : AccountStore (Ledger S) S where
  getBalance L a := ((L a).balance, L)
  getNonce L a := ((L a).nonce, L)
  setBalance L a b := Function.update L a { L a with balance := b }
  incrementNonce L a := Function.update L a { L a with nonce := (L a).nonce + 1 }
  commit L := L

section Binds

omit [IPSet S]

theorem getBalance_bind {α : Type} (a : Address) (f : Balance S → EStateM PyExc (Ledger S) α)
    (L : Ledger S) : (getBalance a >>= f) L = f (L a).balance L := rfl

theorem getNonce_bind {α : Type} (a : Address) (f : Nat → EStateM PyExc (Ledger S) α)
    (L : Ledger S) : (getNonce a >>= f) L = f (L a).nonce L := rfl

end Binds

structure Commutes {σ τ : Type} [AccountStore σ S] [AccountStore τ S] (f : σ → τ) : Prop where
  getBalance : ∀ a, Simulates f (getBalance a : EStateM PyExc σ (Balance S)) (getBalance a)
  getNonce : ∀ a, Simulates f (getNonce a : EStateM PyExc σ Nat) (getNonce a)
  setBalance : ∀ a (b : Balance S),
    Simulates f (setBalance a b : EStateM PyExc σ Unit) (setBalance a b)
  incrementNonce : ∀ a, Simulates f (incrementNonce a : EStateM PyExc σ Unit) (incrementNonce a)
  commit : Simulates f (commit : EStateM PyExc σ Unit) commit

namespace Commutes

variable {σ τ : Type} [AccountStore σ S] [AccountStore τ S] {f : σ → τ} (commutes : Commutes f)

include commutes

theorem reclaim (sender : Address) (affected : List (Address × S)) (b : Balance S) :
    Simulates f (reclaim sender affected b : EStateM PyExc σ (Balance S))
      (reclaim sender affected b) := by
  induction affected generalizing b with
  | nil => exact Simulates.pure b
  | cons head tail ih =>
      obtain ⟨add, ips⟩ := head
      refine (Simulates.lift _).bind fun senderBalance => ?_
      refine (commutes.getBalance add).bind fun receivedBalance => ?_
      refine (Simulates.lift _).bind fun receivedBalance => ?_
      exact (commutes.setBalance add receivedBalance).bind fun _ => ih senderBalance

variable [Platform]

theorem validateTransaction (tx : Transaction) :
    Simulates f (validateTransaction tx : EStateM PyExc σ Bool) (validateTransaction tx) := by
  refine (Simulates.lift _).bind fun sender => ?_
  refine Simulates.ite (Simulates.raised _) ?_
  refine (commutes.getNonce sender).bind fun reqNonce => ?_
  refine Simulates.ite (Simulates.raised _) (Simulates.ite (Simulates.raised _) ?_)
  refine (commutes.getBalance sender).bind fun balance => ?_
  refine (Simulates.lift _).bind fun value => ?_
  exact Simulates.ite (Simulates.raised _) (Simulates.pure true)

theorem moveIps (tx : Transaction) (debit credit : Address → IPNetwork → Balance S →
    Balance S) (cached : Cached) :
    Simulates f (moveIps tx debit credit cached : EStateM PyExc σ Cached)
      (moveIps tx debit credit cached) := by
  refine (Simulates.lift _).bind fun sender => ?_
  refine (Simulates.lift _).bind fun value => ?_
  refine (Simulates.lift _).bind fun holder => ?_
  refine (commutes.getBalance sender).bind fun senderBalance => ?_
  refine (Simulates.lift _).bind fun affected => ?_
  refine (commutes.reclaim sender _ senderBalance).bind fun senderBalance => ?_
  refine (commutes.getBalance holder).bind fun toBalance => ?_
  refine (commutes.setBalance holder _).bind fun _ => ?_
  refine (commutes.setBalance sender _).bind fun _ => ?_
  exact (commutes.incrementNonce sender).bind fun _ => Simulates.pure _

omit [IPSet S] in
theorem setMapping (tx : Transaction) (set : Balance S → List Bytes → Except PyExc (Balance S)) :
    Simulates f (setMapping tx set : EStateM PyExc σ Unit) (setMapping tx set) := by
  refine (Simulates.lift _).bind fun sender => ?_
  refine (commutes.getBalance sender).bind fun senderBalance => ?_
  refine (Simulates.lift _).bind fun senderBalance => ?_
  exact (commutes.setBalance sender _).bind fun _ => commutes.incrementNonce sender

theorem perform (tx : Transaction) (cached : Cached) :
    Simulates f (perform tx cached : EStateM PyExc σ Cached) (perform tx cached) := by
  refine Simulates.ite (commutes.moveIps tx _ _ cached) ?_
  refine Simulates.ite (commutes.moveIps tx _ _ cached) ?_
  refine Simulates.ite ((commutes.setMapping tx _).bind fun _ => Simulates.pure cached) ?_
  exact Simulates.ite ((commutes.setMapping tx _).bind fun _ => Simulates.pure cached)
    (Simulates.pure cached)

theorem applyTransaction (tx : Transaction) (cached : Cached) :
    Simulates f (applyTransaction tx cached : EStateM PyExc σ (Bool × Cached))
      (applyTransaction tx cached) := by
  refine (commutes.validateTransaction tx).bind fun _ => ?_
  refine (commutes.perform tx cached).bind fun cached => ?_
  exact commutes.commit.bind fun _ => Simulates.pure _

end Commutes

theorem commutes_account : Commutes (State.account : State S → Ledger S) where
  getBalance a s := by
    have read := (s.getAndCacheAccount_spec a).2
    change EStateM.Result.ok (s.getAndCacheAccount a).1.account.balance
      (s.getAndCacheAccount a).2.account = _
    rw [read, s.account_getAndCacheAccount a]
    rfl
  getNonce a s := by
    have read := (s.getAndCacheAccount_spec a).2
    change EStateM.Result.ok (s.getAndCacheAccount a).1.account.nonce
      (s.getAndCacheAccount a).2.account = _
    rw [read, s.account_getAndCacheAccount a]
    rfl
  setBalance a b s := by
    change EStateM.Result.ok () (s.setBalance a b).account = _
    rw [State.setBalance, s.account_setParam]
    rfl
  incrementNonce a s := by
    change EStateM.Result.ok () (s.incrementNonce a).account = _
    rw [State.incrementNonce, s.account_setParam]
    rfl
  commit s := by
    change EStateM.Result.ok () s.commit.account = _
    rw [s.account_commit]
    rfl

variable [Platform]

theorem simulates_validateTransaction (tx : Transaction) :
    Simulates State.account (validateTransaction tx : EStateM PyExc (State S) Bool)
      (validateTransaction tx) := commutes_account.validateTransaction tx

theorem simulates_applyTransaction (tx : Transaction) (cached : Cached) :
    Simulates State.account
      (applyTransaction tx cached : EStateM PyExc (State S) (Bool × Cached))
      (applyTransaction tx cached) := commutes_account.applyTransaction tx cached

end IPchain
