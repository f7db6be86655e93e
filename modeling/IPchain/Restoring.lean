import IPchain.Chain
import IPchain.Snapshots

/-! What is read of the accounts below a root of the database, and which calls on a new state have
led to the accounts of a chain. -/

namespace IPchain

open Lib Platform

namespace SecureTrie

open MerkleTrie

variable {S : Type} [Pickle S] [Platform] [Decoder] {D : Type} [Database D]

def readAccounts : List Address → EStateM PyExc (MerkleTrie D) (Accounts S)
  | [] => pure ∅
  | a :: rest => do
      let rlpdata ← get a.bytes
      let acct ← lift (decodeAccount rlpdata)
      let balance ← lift (binToObject acct.balance)
      let accounts ← readAccounts rest
      return accounts.insert a ⟨acct.nonce, balance⟩

def accounts (depth : Nat) : EStateM PyExc (MerkleTrie D) (Accounts S) := do
  let rows ← toDict depth
  let addresses ← lift (rows.keys.mapM twentyBytes)
  readAccounts addresses

variable [Archive D] {U : Set Bytes} {z : Bytes} {t : MerkleTrie D} {accounts : Accounts S}

theorem Keeps.readAccounts_run (free : CollisionFree U) (keeps : Keeps z U t accounts)
    (within : Within U t.toStore) {addresses : List Address} (known : ∀ a ∈ addresses, a ∈ accounts) :
    ∃ read, readAccounts addresses t = .ok read t ∧
      ∀ a, read.lookup a = if a ∈ addresses then accounts.lookup a else none := by
  induction addresses with
  | nil => exact ⟨∅, rfl, fun a => rfl⟩
  | cons a rest ih =>
      rcases List.forall_mem_cons.mp known with ⟨here, later⟩
      rcases ih later with ⟨read, run, found⟩
      rcases Option.isSome_iff_exists.mp (Finmap.lookup_isSome.mpr here) with ⟨account, present⟩
      have fetched := keeps.get_run free within (keeps.known within a here)
      have short := keeps.short free within present
      rw [present, Option.map_some, Option.getD_some] at fetched
      refine ⟨read.insert a account, ?_, ?_⟩
      · rw [readAccounts, bind_of_ok fetched, decodeAccount_recordOf short]
        simp only [lift_ok, pure_bind, binToObject_objectToBin]
        rw [bind_of_ok run]
        rfl
      · intro b
        by_cases same : b = a
        · subst same
          rw [Finmap.lookup_insert, if_pos List.mem_cons_self, present]
        · rw [Finmap.lookup_insert_of_ne _ same, found]
          simp [same]

theorem Keeps.accounts_run (free : CollisionFree U) (keeps : Keeps z U t accounts)
    (within : Within U t.toStore) : ∃ enough, ∀ depth, enough ≤ depth →
      SecureTrie.accounts depth t = .ok accounts t := by
  rcases keeps.toDict_run free within with ⟨enough, listed⟩
  refine ⟨enough, ?_⟩
  intro depth deep
  rcases listed depth deep with ⟨rows, run, keys⟩
  have inside : ∀ k ∈ rows.keys, ∃ a ∈ accounts, k = a.bytes := fun k member =>
    (keys k).mp (AList.mem_keys.mpr member)
  rcases mapM_twentyBytes fun k member => (inside k member).imp fun _ found => found.2 with
    ⟨addresses, named, same⟩
  have members (a : Address) : a ∈ addresses ↔ a ∈ accounts := by
    constructor
    · intro member
      have key : a.bytes ∈ rows.keys := by
        rw [same]
        exact List.mem_map_of_mem member
      rcases inside _ key with ⟨b, present, equal⟩
      rwa [Address.ext equal]
    · intro member
      have key := AList.mem_keys.mp ((keys _).mpr ⟨a, member, rfl⟩)
      rw [same] at key
      rcases List.mem_map.mp key with ⟨b, listed, equal⟩
      rwa [← Address.ext equal]
  rcases keeps.readAccounts_run free within fun a => (members a).mp with ⟨read, ran, found⟩
  rw [SecureTrie.accounts, bind_of_ok run, named, lift_ok, pure_bind, ran]
  congr 1
  apply Finmap.ext_lookup
  intro a
  rw [found]
  split
  · rfl
  · rename_i absent
    exact (Finmap.lookup_eq_none.mpr fun member => absent ((members a).mpr member)).symm

end SecureTrie

namespace DbState

variable {S D : Type} [IPSet S] [Pickle S] [Platform] [Decoder] [Database D]

def accountsAt (store : Store (RefcountDB D)) (root : Bytes) (depth : Nat) :
    Except PyExc (Accounts S) := do
  let s : DbState S D ← init store root true
  match SecureTrie.accounts depth s.trie with
  | .ok accounts _ => return accounts
  | .error e _ => .error e

end DbState

/-- The calls on a new state end in `s`. -/
def State.Leads {S : Type} [IPSet S] (calls : List (Access S)) (s : State S) : Prop :=
  ∃ answers snapshots, Session.run State.interface calls ⟨State.initial, []⟩ =
    .ok answers ⟨s, snapshots⟩

namespace DbState

open MerkleTrie (blankRoot)

variable {S D : Type} [IPSet S] [Pickle S] [Platform] [Decoder] [Database D] [Forgets D]
  [Dictionary D] {U : Set Bytes} {known : Set Address} {c : DbState S D} {root : Bytes} {head : Bool}
  {store : Store (RefcountDB D)} {calls : List (Access S)} {s : State S}

theorem accountsAt_run (opened : init store root head = .ok c)
    (empty : root = [] ∨ root = blankRoot) (named : ∀ access ∈ calls, access.Names known)
    (leads : s.Leads calls)
    (trusted : Trusted U known c (finish (Session.run interface calls ⟨c, []⟩)).state) :
    ∃ enough, ∀ depth, enough ≤ depth →
      accountsAt (finish (Session.run interface calls ⟨c, []⟩)).state.trie.toStore
        (finish (Session.run interface calls ⟨c, []⟩)).state.trie.rootHash depth = .ok s.trie := by
  rcases leads with ⟨answers, snapshots, led⟩
  rcases (session_mirrors opened empty named trusted).ok trusted.assumed led with
    ⟨e, ran, related⟩
  rw [ran] at trusted ⊢
  have within : Assumed U e.state := trusted.assumed
  rcases init_earlier related.refines.trie (refl_of Grows e.state) related.refines.sound within
    trusted.free trusted.blankIn empty true with ⟨u, again, store', fresh⟩
  have within' : MerkleTrie.Within U u.trie.toStore := by
    rw [store']
    exact within
  rcases fresh.refines.trie.accounts_run trusted.free within' with ⟨enough, read⟩
  refine ⟨enough, ?_⟩
  intro depth deep
  rw [accountsAt, finish, again]
  simp only [bind, Except.bind, read depth deep]
  rfl

end DbState

namespace State

variable {S : Type} [IPSet S] {calls : List (Access S)} {s t : State S}

theorem leads_initial : (State.initial : State S).Leads [] := ⟨[], [], rfl⟩

theorem Leads.call (leads : s.Leads calls) {access : Access S}
    (done : ∀ snapshots, ∃ answer, Session.call State.interface access ⟨s, snapshots⟩ =
      .ok answer ⟨t, snapshots⟩) : t.Leads (calls ++ [access]) := by
  rcases leads with ⟨answers, snapshots, ran⟩
  rcases done snapshots with ⟨answer, called⟩
  refine ⟨answers ++ [answer], snapshots, ?_⟩
  rw [Session.run] at ran
  rw [Session.run, List.mapM_append, bind_of_ok ran, List.mapM_cons, List.mapM_nil]
  simp only [bind_assoc, pure_bind]
  rw [bind_of_ok called]
  rfl

end State

structure Logged (S : Type) [IPSet S] where
  state : State S
  calls : List (Access S)
  leads : state.Leads calls

section Logs

variable {S : Type} [IPSet S]

instance : AccountStore (Logged S) S where
  getBalance l a := ((l.state.getBalance a).1,
    ⟨(l.state.getBalance a).2, l.calls ++ [.getBalance a], l.leads.call fun _ => ⟨_, rfl⟩⟩)
  getNonce l a := ((l.state.getNonce a).1,
    ⟨(l.state.getNonce a).2, l.calls ++ [.getNonce a], l.leads.call fun _ => ⟨_, rfl⟩⟩)
  setBalance l a b := ⟨l.state.setBalance a b, l.calls ++ [.setBalance a b],
    l.leads.call fun _ => ⟨_, rfl⟩⟩
  incrementNonce l a := ⟨l.state.incrementNonce a, l.calls ++ [.incrementNonce a],
    l.leads.call fun _ => ⟨_, rfl⟩⟩
  commit l := ⟨l.state.commit, l.calls ++ [.commit], l.leads.call fun _ => ⟨_, rfl⟩⟩

theorem commutes_logged : Commutes (Logged.state : Logged S → State S) where
  getBalance _ _ := rfl
  getNonce _ _ := rfl
  setBalance _ _ _ := rfl
  incrementNonce _ _ := rfl
  commit _ := rfl

namespace State

variable [Platform] {calls : List (Access S)} {s t : State S}

theorem Leads.applyTransactions (leads : s.Leads calls) {txs : List Transaction}
    {cached cached' : Cached} (run : applyTransactions txs cached s = .ok cached' t) :
    ∃ calls', t.Leads calls' := by
  rcases (commutes_logged.applyTransactions txs cached).exists_ok
    (s := (⟨s, calls, leads⟩ : Logged S)) run with ⟨l, -, rfl⟩
  exact ⟨l.calls, l.leads⟩

theorem Leads.loadAlloc (leads : s.Leads calls) {entries : List (Bytes × Option (List IPNetwork))}
    {rows rows' : Cached} (loaded : loadAlloc entries s rows = .ok (t, rows')) :
    ∃ calls', t.Leads calls' := by
  induction entries generalizing s calls rows with
  | nil =>
      cases loaded
      exact ⟨calls, leads⟩
  | cons entry rest ih =>
      rcases entry with ⟨addr, data⟩
      rw [IPchain.loadAlloc] at loaded
      rcases except_bind_eq_ok.mp loaded with ⟨a, -, later⟩
      cases data with
      | none => exact ih leads later
      | some ownIps =>
          have balanced : (s.setBalance a (genesisBalance ownIps)).Leads
              (calls ++ [.setBalance a (genesisBalance ownIps)]) := leads.call fun _ => ⟨_, rfl⟩
          exact ih balanced later

end State

end Logs

namespace Chain

variable {S R : Type} [IPSet S] [Radix R Address] [Platform] [TrieRoot] [Poststate] [StateRoot S]

theorem Reachable.leads {g : GenesisData} {blocks : List Block} {c : Chain S R}
    (reachable : c.Reachable g blocks) :
    ∃ calls, ∃ s : State S, s.Leads calls ∧ s.trie = c.state.trie := by
  have whole : ∃ calls, ∃ s : State S, s.Leads calls ∧ s.trie = c.state.trie ∧
      s.journal = [] := by
    apply reachable.invariant (P := fun _ c => ∃ calls, ∃ s : State S, s.Leads calls ∧
      s.trie = c.state.trie ∧ s.journal = [])
    · intro c built
      rcases init_spec built with ⟨s, rows, header, genesis, -, rfl⟩
      rcases except_bind_eq_ok.mp genesis with ⟨⟨t, rows'⟩, loaded, done⟩
      cases done
      rcases State.leads_initial.loadAlloc loaded with ⟨calls, leads⟩
      have committed : t.commit.Leads (calls ++ [.commit]) := leads.call fun _ => ⟨_, rfl⟩
      exact ⟨_, t.commit, committed, rfl, rfl⟩
    · rintro blocks c block s t p sane ⟨calls, u, leads, trie, quiet⟩ alike applied
      rcases applyBlock_eq_ok.mp applied with ⟨-, cached, v, loop, rfl, -⟩
      rcases applyTransactions_trie (alike.journal.trans sane.quiet) quiet
        (alike.trie.trans trie.symm) loop with ⟨w, loop', trie', quiet'⟩
      rcases leads.applyTransactions loop' with ⟨calls', leads'⟩
      exact ⟨calls', w, leads', trie', quiet'⟩
    · rintro blocks c s queue ⟨calls, u, leads, trie, quiet⟩ alike
      exact ⟨calls, u, leads, trie.trans alike.trie.symm, quiet⟩
  rcases whole with ⟨calls, s, leads, trie, -⟩
  exact ⟨calls, s, leads, trie⟩

end Chain

end IPchain
