import IPchain.Balance
import Mathlib.Data.Finmap

/-! The write-back cache in front of the account trie, and the journal that undoes writes. -/

namespace IPchain

open Lib

@[ext]
structure Account (S : Type) where
  nonce : Nat
  balance : Balance S

structure CachedAccount (S : Type) where
  account : Account S
  touched : Bool
  existentAtStart : Bool
  deleted : Bool

variable {S : Type} [IPSet S]

instance : DecidableEq (Account S) := fun a b =>
  decidable_of_iff (a.nonce = b.nonce ∧ a.balance = b.balance) (by
    cases a
    cases b
    simp only [Account.mk.injEq])

def Account.blank : Account S := ⟨0, Balance.blank⟩

abbrev Accounts (S : Type) := Finmap fun _ : Address => Account S

abbrev Cache (S : Type) := AList fun _ : Address => CachedAccount S

/-- The attribute that `set_and_journal` assigns, with its value. -/
inductive Param (S : Type) where
  | nonce (n : Nat)
  | balance (b : Balance S)

def Param.assign (account : Account S) : Param S → Account S
  | .nonce n => { account with nonce := n }
  | .balance b => { account with balance := b }

def Param.current (account : Account S) : Param S → Param S
  | .nonce _ => .nonce account.nonce
  | .balance _ => .balance account.balance

omit [IPSet S] in
theorem Param.assign_current (account : Account S) (p : Param S) :
    (p.current account).assign (p.assign account) = account := by
  cases p <;> rfl

/-- Every setter journals its attribute and then `touched`. One record stands for the two. -/
structure Undo (S : Type) where
  address : Address
  preval : Param S
  touched : Bool

def Undo.run (u : Undo S) (cache : Cache S) : Cache S :=
  match cache.lookup u.address with
  | none => cache
  | some acct => cache.insert u.address
      { acct with account := u.preval.assign acct.account, touched := u.touched }

def stored (trie : Accounts S) (a : Address) : Account S := (trie.lookup a).getD .blank

def Coherent (trie : Accounts S) (cache : Cache S) : Prop :=
  ∀ a acct, cache.lookup a = some acct → acct.touched = false →
    acct.deleted = false ∧ acct.account = stored trie a

/-- Undoing the journal from its end leaves a cache of accounts that were only read. -/
def Undoable (trie : Accounts S) : List (Undo S) → Cache S → Prop
  | [], cache => Coherent trie cache ∧ ∀ a acct, cache.lookup a = some acct → acct.touched = false
  | u :: rest, cache => Coherent trie cache ∧ u.address ∈ cache ∧ Undoable trie rest (u.run cache)

theorem Undoable.coherent {trie : Accounts S} {journal : List (Undo S)} {cache : Cache S}
    (undoable : Undoable trie journal cache) : Coherent trie cache := by
  cases journal with
  | nil => exact undoable.1
  | cons u rest => exact undoable.1

omit [IPSet S] in
theorem Undo.lookup_run (u : Undo S) (cache : Cache S) (a : Address) :
    (u.run cache).lookup a = if a = u.address then (cache.lookup a).map fun acct =>
      { acct with account := u.preval.assign acct.account, touched := u.touched }
    else cache.lookup a := by
  simp only [run]
  split_ifs with same
  · subst same
    split
    · rename_i absent
      simp [absent]
    · rename_i acct present
      simp [present, AList.lookup_insert]
  · split
    · rfl
    · exact AList.lookup_insert_ne same

theorem Undoable.congr {trie : Accounts S} {journal : List (Undo S)} {c d : Cache S}
    (same : ∀ a, c.lookup a = d.lookup a) (undoable : Undoable trie journal c) :
    Undoable trie journal d := by
  have coherent : Coherent trie d := fun a acct present =>
    undoable.coherent a acct ((same a).trans present)
  induction journal generalizing c d with
  | nil => exact ⟨coherent, fun a acct present => undoable.2 a acct ((same a).trans present)⟩
  | cons u rest ih =>
      have runs (a : Address) : (u.run c).lookup a = (u.run d).lookup a := by
        rw [u.lookup_run, u.lookup_run, same]
      have present : u.address ∈ d := by
        rw [← AList.lookup_isSome, ← same, AList.lookup_isSome]
        exact undoable.2.1
      refine ⟨coherent, present, ih runs undoable.2.2 ?_⟩
      intro a acct found
      exact undoable.2.2.coherent a acct ((runs a).trans found)

theorem Undoable.insert_read {trie : Accounts S} {journal : List (Undo S)} {cache : Cache S}
    (undoable : Undoable trie journal cache) {a : Address} (absent : cache.lookup a = none)
    {acct : CachedAccount S} (untouched : acct.touched = false) (kept : acct.deleted = false)
    (read : acct.account = stored trie a) : Undoable trie journal (cache.insert a acct) := by
  have coherent {c : Cache S} (before : Coherent trie c) : Coherent trie (c.insert a acct) := by
    intro b other present clean
    by_cases same : b = a
    · subst same
      rw [AList.lookup_insert] at present
      cases present
      exact ⟨kept, read⟩
    · rw [AList.lookup_insert_ne same] at present
      exact before b other present clean
  induction journal generalizing cache with
  | nil =>
      refine ⟨coherent undoable.1, ?_⟩
      intro b other present
      by_cases same : b = a
      · subst same
        rw [AList.lookup_insert] at present
        cases present
        exact untouched
      · rw [AList.lookup_insert_ne same] at present
        exact undoable.2 b other present
  | cons u rest ih =>
      have other : u.address ≠ a := by
        rintro same
        have present := undoable.2.1
        rw [← AList.lookup_isSome, same, absent] at present
        cases present
      refine ⟨coherent undoable.1, (AList.mem_insert _).mpr (Or.inr undoable.2.1), ?_⟩
      have hidden : (u.run cache).lookup a = none := by
        rw [u.lookup_run, if_neg (Ne.symm other), absent]
      refine (ih undoable.2.2 hidden).congr ?_
      intro b
      rw [u.lookup_run]
      by_cases same : b = a
      · subst same
        rw [if_neg (Ne.symm other), AList.lookup_insert, AList.lookup_insert]
      · rw [AList.lookup_insert_ne same, AList.lookup_insert_ne same, u.lookup_run]

theorem Undoable.write {trie : Accounts S} {journal : List (Undo S)} {cache : Cache S}
    (undoable : Undoable trie journal cache) {a : Address} {acct : CachedAccount S}
    (present : cache.lookup a = some acct) (p : Param S) :
    Undoable trie (⟨a, p.current acct.account, acct.touched⟩ :: journal)
      (cache.insert a { acct with account := p.assign acct.account, touched := true }) := by
  refine ⟨?_, (AList.mem_insert _).mpr (Or.inl rfl), undoable.congr ?_⟩
  · intro b other found clean
    by_cases same : b = a
    · subst same
      rw [AList.lookup_insert] at found
      cases found
      cases clean
    · rw [AList.lookup_insert_ne same] at found
      exact undoable.coherent b other found clean
  · intro b
    rw [Undo.lookup_run]
    by_cases same : b = a
    · subst same
      rw [if_pos rfl, AList.lookup_insert, present]
      simp [Param.assign_current]
    · rw [if_neg same, AList.lookup_insert_ne same]

/-- `while len(journal) > L: journal.pop()()`, on a journal with its newest record first. -/
def rollback (L : Nat) : List (Undo S) → Cache S → List (Undo S) × Cache S
  | [], cache => ([], cache)
  | u :: rest, cache =>
      if L < rest.length + 1 then rollback L rest (u.run cache) else (u :: rest, cache)

theorem Undoable.rollback {trie : Accounts S} {journal : List (Undo S)} {cache : Cache S}
    (undoable : Undoable trie journal cache) (L : Nat) :
    Undoable trie (rollback L journal cache).1 (rollback L journal cache).2 := by
  induction journal generalizing cache with
  | nil => exact undoable
  | cons u rest ih =>
      simp only [IPchain.rollback]
      split
      · exact ih undoable.2.2
      · exact undoable

omit [IPSet S] in
theorem rollback_length (L : Nat) (journal : List (Undo S)) (cache : Cache S) :
    (rollback L journal cache).1.length ≤ L := by
  induction journal generalizing cache with
  | nil => exact Nat.zero_le L
  | cons u rest ih =>
      simp only [rollback]
      split
      · exact ih _
      · rename_i short
        exact Nat.le_of_not_lt short

def CachedAccount.exists (acct : CachedAccount S) : Bool :=
  if acct.deleted && !acct.touched then false
  else if acct.touched then true
  else acct.existentAtStart

/-- What `commit` does with one account of the cache. -/
def commitAccount (trie : Accounts S) (entry : Sigma fun _ : Address => CachedAccount S) :
    Accounts S :=
  if entry.2.touched || entry.2.deleted then
    if entry.2.exists then trie.insert entry.1 entry.2.account else trie.erase entry.1
  else trie

def CachedAccount.written (acct : CachedAccount S) : Option (Account S) :=
  if acct.touched then some acct.account else none

omit [IPSet S] in
theorem lookup_commitAccount (trie : Accounts S) (a : Address) (acct : CachedAccount S)
    (kept : acct.touched = false → acct.deleted = false) (b : Address) :
    (commitAccount trie ⟨a, acct⟩).lookup b =
      if b = a then acct.written.or (trie.lookup b) else trie.lookup b := by
  cases touched : acct.touched with
  | false => simp [commitAccount, CachedAccount.written, touched, kept touched]
  | true =>
      by_cases same : b = a
      · subst same
        simp [commitAccount, touched, CachedAccount.exists, CachedAccount.written,
          Finmap.lookup_insert]
      · simp [commitAccount, touched, CachedAccount.exists, same, Finmap.lookup_insert_of_ne]

theorem lookup_commit (trie : Accounts S) (cache : Cache S) (coherent : Coherent trie cache)
    (a : Address) : (cache.entries.foldl commitAccount trie).lookup a =
      ((cache.lookup a).bind CachedAccount.written).or (trie.lookup a) := by
  have general (entries : List (Sigma fun _ : Address => CachedAccount S))
      (nodup : entries.NodupKeys)
      (kept : ∀ entry ∈ entries, entry.2.touched = false → entry.2.deleted = false)
      (t : Accounts S) : (entries.foldl commitAccount t).lookup a =
        ((entries.dlookup a).bind CachedAccount.written).or (t.lookup a) := by
    induction entries generalizing t with
    | nil => rfl
    | cons head tail ih =>
        obtain ⟨b, acct⟩ := head
        obtain ⟨unique, others⟩ := List.nodupKeys_cons.mp nodup
        obtain ⟨first, later⟩ := List.forall_mem_cons.mp kept
        rw [List.foldl_cons, ih others later, lookup_commitAccount t b acct first]
        by_cases same : a = b
        · subst same
          rw [List.dlookup_eq_none.mpr unique, List.dlookup_cons_eq, if_pos rfl]
          rfl
        · rw [List.dlookup_cons_ne _ _ same, if_neg same]
  refine general cache.entries cache.nodupKeys ?_ trie
  rintro ⟨b, acct⟩ member clean
  exact (coherent b acct (AList.mem_lookup_iff.mpr member) clean).1

theorem stored_commit (trie : Accounts S) (cache : Cache S) (coherent : Coherent trie cache)
    (a : Address) : stored (cache.entries.foldl commitAccount trie) a =
      ((cache.lookup a).map CachedAccount.account).getD (stored trie a) := by
  rw [stored, lookup_commit trie cache coherent]
  cases present : cache.lookup a with
  | none => rfl
  | some acct =>
      cases touched : acct.touched with
      | false =>
          have read := (coherent a acct present touched).2
          simp [CachedAccount.written, touched, read, stored]
      | true => simp [CachedAccount.written, touched]

end IPchain
