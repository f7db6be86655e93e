import IPchain.Blocks
import IPchain.Cache

/-! The account state, its accessors, and what a reader sees of it. -/

namespace IPchain

open Lib

structure AuxVars where
  txindex : Nat
  blockNumber : Nat
  blockCoinbase : Bytes
  timestamp : Nat
  prevHeaders : List PrevHeader
  deriving DecidableEq

structure State (S : Type) [IPSet S] extends AuxVars where
  trie : Accounts S
  cache : Cache S
  journal : List (Undo S)
  undoable : Undoable trie journal cache

/-- What `snapshot` returns: the root, the length of the journal and the other variables. -/
structure Snapshot (S : Type) [IPSet S] where
  trie : Accounts S
  journalLength : Nat
  auxvars : AuxVars

abbrev Ledger (S : Type) := Address → Account S

variable {S : Type} [IPSet S]

namespace State

def initial : State S where
  trie := ∅
  cache := ∅
  journal := []
  txindex := 0
  blockNumber := 0
  blockCoinbase := List.replicate 20 0
  timestamp := 0
  prevHeaders := []
  undoable := by constructor <;> simp [Coherent]

def account (s : State S) : Ledger S := fun a =>
  ((s.cache.lookup a).map CachedAccount.account).getD (stored s.trie a)

def loadAccount (s : State S) (a : Address) : CachedAccount S :=
  match s.trie.lookup a with
  | some account => ⟨account, false, true, false⟩
  | none => ⟨.blank, false, false, false⟩

theorem loadAccount_spec (s : State S) (a : Address) : (s.loadAccount a).touched = false ∧
    (s.loadAccount a).deleted = false ∧ (s.loadAccount a).account = stored s.trie a := by
  simp only [loadAccount, stored]
  cases s.trie.lookup a <;> exact ⟨rfl, rfl, rfl⟩

def cacheAccount (s : State S) (a : Address) (absent : s.cache.lookup a = none) : State S :=
  { s with
    cache := s.cache.insert a (s.loadAccount a)
    undoable := s.undoable.insert_read absent (s.loadAccount_spec a).1 (s.loadAccount_spec a).2.1
      (s.loadAccount_spec a).2.2 }

def getAndCacheAccount (s : State S) (a : Address) : CachedAccount S × State S :=
  match present : s.cache.lookup a with
  | some acct => (acct, s)
  | none => (s.loadAccount a, s.cacheAccount a present)

theorem getAndCacheAccount_spec (s : State S) (a : Address) :
    (s.getAndCacheAccount a).2.cache.lookup a = some (s.getAndCacheAccount a).1 ∧
      (s.getAndCacheAccount a).1.account = s.account a := by
  simp only [getAndCacheAccount, account]
  split
  · rename_i acct present
    simp [present]
  · rename_i absent
    simp [absent, cacheAccount, AList.lookup_insert, s.loadAccount_spec a]

def getBalance (s : State S) (a : Address) : Balance S × State S :=
  let (acct, s) := s.getAndCacheAccount a
  (acct.account.balance, s)

def getNonce (s : State S) (a : Address) : Nat × State S :=
  let (acct, s) := s.getAndCacheAccount a
  (acct.account.nonce, s)

def setAndJournal (s : State S) (a : Address) (acct : CachedAccount S)
    (present : s.cache.lookup a = some acct) (p : Param S) : State S :=
  { s with
    cache := s.cache.insert a { acct with account := p.assign acct.account, touched := true }
    journal := ⟨a, p.current acct.account, acct.touched⟩ :: s.journal
    undoable := s.undoable.write present p }

def setParam (s : State S) (a : Address) (p : Account S → Param S) : State S :=
  (s.getAndCacheAccount a).2.setAndJournal a (s.getAndCacheAccount a).1
    (s.getAndCacheAccount_spec a).1 (p (s.getAndCacheAccount a).1.account)

def setBalance (s : State S) (a : Address) (b : Balance S) : State S :=
  s.setParam a fun _ => .balance b

def incrementNonce (s : State S) (a : Address) : State S :=
  s.setParam a fun account => .nonce (account.nonce + 1)

def commit (s : State S) : State S :=
  { s with
    trie := s.cache.entries.foldl commitAccount s.trie
    cache := ∅
    journal := []
    undoable := by constructor <;> simp [Coherent] }

def addBlockHeader (s : State S) (h : BlockHeader) : State S :=
  { s with prevHeaders := .block h :: s.prevHeaders }

def snapshot (s : State S) : Snapshot S := ⟨s.trie, s.journal.length, s.toAuxVars⟩

def unwind (s : State S) (L : Nat) : State S :=
  { s with
    journal := (rollback L s.journal s.cache).1
    cache := (rollback L s.journal s.cache).2
    undoable := s.undoable.rollback L }

/-- The root is only set back when nothing was journalled at the snapshot. -/
def revert (h : Snapshot S) : EStateM PyExc (State S) Unit := fun s =>
  let t := s.unwind h.journalLength
  if h.trie = t.trie then .ok () { t with toAuxVars := h.auxvars }
  else if h.journalLength = 0 then
    .ok () {
      toAuxVars := h.auxvars
      trie := h.trie
      cache := ∅
      journal := []
      undoable := by constructor <;> simp [Coherent] }
  else .error ⟨.assertionError, ""⟩ t

theorem account_eq_stored (s : State S) (quiet : s.journal = []) (a : Address) :
    s.account a = stored s.trie a := by
  have undoable := s.undoable
  rw [quiet] at undoable
  cases present : s.cache.lookup a with
  | none => simp [account, present]
  | some acct =>
      have clean := undoable.1 a acct present (undoable.2 a acct present)
      simp [account, present, clean.2]

@[simp] theorem account_getAndCacheAccount (s : State S) (a : Address) :
    (s.getAndCacheAccount a).2.account = s.account := by
  funext b
  simp only [getAndCacheAccount, account]
  split
  · rfl
  · rename_i absent
    by_cases same : b = a
    · subst same
      simp [cacheAccount, AList.lookup_insert, absent, s.loadAccount_spec b]
    · simp [cacheAccount, AList.lookup_insert_ne same]

theorem getBalance_fst (s : State S) (a : Address) : (s.getBalance a).1 = (s.account a).balance :=
  congrArg Account.balance (s.getAndCacheAccount_spec a).2

theorem getNonce_fst (s : State S) (a : Address) : (s.getNonce a).1 = (s.account a).nonce :=
  congrArg Account.nonce (s.getAndCacheAccount_spec a).2

theorem account_setParam (s : State S) (a : Address) (p : Account S → Param S) :
    (s.setParam a p).account =
      Function.update s.account a ((p (s.account a)).assign (s.account a)) := by
  funext b
  have read := (s.getAndCacheAccount_spec a).2
  have before := congrFun (s.account_getAndCacheAccount a) b
  by_cases same : b = a
  · subst same
    simp [setParam, setAndJournal, account, AList.lookup_insert, read]
  · rw [Function.update_of_ne same, ← before]
    simp [setParam, setAndJournal, account, AList.lookup_insert_ne same]

@[simp] theorem account_commit (s : State S) : s.commit.account = s.account := by
  funext a
  simp only [commit, account, AList.lookup_empty, Option.map_none, Option.getD_none]
  exact stored_commit s.trie s.cache s.undoable.coherent a

@[simp] theorem toAuxVars_getAndCacheAccount (s : State S) (a : Address) :
    (s.getAndCacheAccount a).2.toAuxVars = s.toAuxVars := by
  simp only [getAndCacheAccount]
  split <;> rfl

@[simp] theorem toAuxVars_setParam (s : State S) (a : Address) (p : Account S → Param S) :
    (s.setParam a p).toAuxVars = s.toAuxVars := s.toAuxVars_getAndCacheAccount a

@[simp] theorem toAuxVars_commit (s : State S) : s.commit.toAuxVars = s.toAuxVars := rfl

@[simp] theorem trie_getAndCacheAccount (s : State S) (a : Address) :
    (s.getAndCacheAccount a).2.trie = s.trie := by
  simp only [getAndCacheAccount]
  split <;> rfl

@[simp] theorem journal_getAndCacheAccount (s : State S) (a : Address) :
    (s.getAndCacheAccount a).2.journal = s.journal := by
  simp only [getAndCacheAccount]
  split <;> rfl

theorem revert_snapshot (s t : State S) (quiet : s.journal = []) :
    ∃ u, revert s.snapshot t = .ok () u ∧ u.account = s.account ∧ u.toAuxVars = s.toAuxVars ∧
      u.journal = [] := by
  have depth : s.snapshot.journalLength = 0 := by rw [snapshot, quiet, List.length_nil]
  have popped : (t.unwind 0).journal = [] :=
    List.eq_nil_of_length_eq_zero (Nat.le_zero.mp (rollback_length 0 t.journal t.cache))
  simp only [revert, depth, if_pos]
  split
  · rename_i same
    refine ⟨_, rfl, ?_, rfl, popped⟩
    funext a
    change (t.unwind 0).account a = s.account a
    rw [account_eq_stored _ popped, s.account_eq_stored quiet, ← same]
    rfl
  · refine ⟨_, rfl, ?_, rfl, rfl⟩
    funext a
    exact (s.account_eq_stored quiet a).symm

end State

end IPchain
