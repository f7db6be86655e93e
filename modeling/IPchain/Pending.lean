import IPchain.ApplyBlock

/-! The trie with the writes that wait for the next commit. Unlike the ledger it tells a blank
account from a missing one, so it decides what the trie is after the next commit. -/

namespace IPchain

open Lib

structure Pending (S : Type) where
  trie : Address → Option (Account S)
  dirty : Address → Option (Account S)

variable {S : Type} [IPSet S]

namespace Pending

def account (p : Pending S) (a : Address) : Account S := ((p.dirty a).or (p.trie a)).getD .blank

def write (p : Pending S) (a : Address) (account : Account S) : Pending S :=
  { p with dirty := Function.update p.dirty a (some account) }

instance : AccountStore (Pending S) S where
  getBalance p a := ((p.account a).balance, p)
  getNonce p a := ((p.account a).nonce, p)
  setBalance p a b := p.write a { p.account a with balance := b }
  incrementNonce p a := p.write a { p.account a with nonce := (p.account a).nonce + 1 }
  commit p := ⟨fun a => (p.dirty a).or (p.trie a), fun _ => none⟩

end Pending

namespace State

def pending (s : State S) : Pending S where
  trie a := s.trie.lookup a
  dirty a := (s.cache.lookup a).bind CachedAccount.written

theorem account_pending (s : State S) (a : Address) : s.pending.account a = s.account a := by
  simp only [Pending.account, pending, account]
  cases present : s.cache.lookup a with
  | none => rfl
  | some acct =>
      cases touched : acct.touched with
      | false =>
          have read := (s.undoable.coherent a acct present touched).2
          simp [CachedAccount.written, touched, read, stored]
      | true => simp [CachedAccount.written, touched]

theorem pending_getAndCacheAccount (s : State S) (a : Address) :
    (s.getAndCacheAccount a).2.pending = s.pending := by
  have clean := (s.loadAccount_spec a).1
  simp only [getAndCacheAccount]
  split
  · rfl
  · rename_i absent
    simp only [pending, cacheAccount, Pending.mk.injEq, true_and]
    funext b
    by_cases same : b = a
    · subst same
      simp [AList.lookup_insert, absent, CachedAccount.written, clean]
    · rw [AList.lookup_insert_ne same]

theorem pending_setParam (s : State S) (a : Address) (p : Account S → Param S) :
    (s.setParam a p).pending =
      s.pending.write a ((p (s.account a)).assign (s.account a)) := by
  have read := (s.getAndCacheAccount_spec a).2
  have before := s.pending_getAndCacheAccount a
  simp only [Pending.write, pending, Pending.mk.injEq] at before ⊢
  refine ⟨before.1, ?_⟩
  funext b
  by_cases same : b = a
  · subst same
    simp [setParam, setAndJournal, AList.lookup_insert, CachedAccount.written, read]
  · rw [Function.update_of_ne same, ← congrFun before.2 b]
    simp [setParam, setAndJournal, AList.lookup_insert_ne same]

theorem pending_commit (s : State S) :
    s.commit.pending = ⟨fun a => (s.pending.dirty a).or (s.pending.trie a), fun _ => none⟩ := by
  simp only [pending, commit, Pending.mk.injEq]
  refine ⟨?_, rfl⟩
  funext a
  exact lookup_commit s.trie s.cache s.undoable.coherent a

theorem pending_quiet (s : State S) (quiet : s.journal = []) :
    s.pending = ⟨fun a => s.trie.lookup a, fun _ => none⟩ := by
  have undoable := s.undoable
  rw [quiet] at undoable
  simp only [pending, Pending.mk.injEq, true_and]
  funext a
  cases present : s.cache.lookup a with
  | none => rfl
  | some acct => simp [CachedAccount.written, undoable.2 a acct present]

end State

theorem commutes_pending : Commutes (State.pending : State S → Pending S) where
  getBalance a s := by
    have read := (s.getAndCacheAccount_spec a).2
    change EStateM.Result.ok (s.getAndCacheAccount a).1.account.balance
      (s.getAndCacheAccount a).2.pending = EStateM.Result.ok (s.pending.account a).balance _
    rw [read, s.pending_getAndCacheAccount a, s.account_pending]
    rfl
  getNonce a s := by
    have read := (s.getAndCacheAccount_spec a).2
    change EStateM.Result.ok (s.getAndCacheAccount a).1.account.nonce
      (s.getAndCacheAccount a).2.pending = EStateM.Result.ok (s.pending.account a).nonce _
    rw [read, s.pending_getAndCacheAccount a, s.account_pending]
    rfl
  setBalance a b s := by
    change EStateM.Result.ok () (s.setBalance a b).pending =
      EStateM.Result.ok () (s.pending.write a { s.pending.account a with balance := b })
    rw [State.setBalance, s.pending_setParam, s.account_pending]
    rfl
  incrementNonce a s := by
    change EStateM.Result.ok () (s.incrementNonce a).pending = EStateM.Result.ok ()
      (s.pending.write a { s.pending.account a with nonce := (s.pending.account a).nonce + 1 })
    rw [State.incrementNonce, s.pending_setParam, s.account_pending]
    rfl
  commit s := by
    change EStateM.Result.ok () s.commit.pending = _
    rw [s.pending_commit]
    rfl

variable [Platform]

theorem applyTransactions_trie {txs : List Transaction} {cached c : Cached} {s t u : State S}
    (quiet : s.journal = []) (quiet' : t.journal = []) (same : s.trie = t.trie)
    (run : applyTransactions txs cached s = .ok c u) :
    ∃ v, applyTransactions txs cached t = .ok c v ∧ v.trie = u.trie ∧ v.journal = [] := by
  have simulates := commutes_pending.applyTransactions (S := S) txs cached
  have alike : s.pending = t.pending := by
    rw [s.pending_quiet quiet, t.pending_quiet quiet', same]
  have pending := simulates.ok run
  rw [alike] at pending
  obtain ⟨v, run', after⟩ := simulates.exists_ok pending
  have quietU := applyTransactions_quiet run quiet
  have quietV := applyTransactions_quiet run' quiet'
  refine ⟨v, run', ?_, quietV⟩
  rw [v.pending_quiet quietV, u.pending_quiet quietU, Pending.mk.injEq] at after
  exact Finmap.ext_lookup (congrFun after.1)

theorem applyTransactions_trie_error {txs : List Transaction} {cached : Cached} {s t u : State S}
    {e : PyExc} (quiet : s.journal = []) (quiet' : t.journal = []) (same : s.trie = t.trie)
    (run : applyTransactions txs cached s = .error e u) :
    ∃ v, applyTransactions txs cached t = .error e v := by
  have simulates := commutes_pending.applyTransactions (S := S) txs cached
  have alike : s.pending = t.pending := by
    rw [s.pending_quiet quiet, t.pending_quiet quiet', same]
  have pending := simulates.error run
  rw [alike] at pending
  obtain ⟨v, run', -⟩ := simulates.exists_error pending
  exact ⟨v, run'⟩

end IPchain
