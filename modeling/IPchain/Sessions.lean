import IPchain.Persistence

/-! Runs of calls on a state: what the callers of state.py can tell of the database below it. -/

namespace IPchain

open Lib Platform

inductive Access (S : Type) where
  | getBalance (a : Address)
  | getNonce (a : Address)
  | setBalance (a : Address) (balance : Balance S)
  | setNonce (a : Address) (value : Nat)
  | incrementNonce (a : Address)
  | addBlockHeader (h : BlockHeader)
  | setAuxVars (auxvars : AuxVars)
  | commit
  | snapshot
  | revert (i : Nat)

def Access.Names {S : Type} (known : Set Address) : Access S → Prop
  | .getBalance a | .getNonce a | .setBalance a _ | .setNonce a _ | .incrementNonce a => a ∈ known
  | _ => True

inductive Answer (S : Type) where
  | done
  | balance (b : Balance S)
  | nonce (n : Nat)

structure Interface (S σ γ : Type) where
  getBalance : Address → EStateM PyExc σ (Balance S)
  getNonce : Address → EStateM PyExc σ Nat
  setBalance : Address → Balance S → EStateM PyExc σ Unit
  setNonce : Address → Nat → EStateM PyExc σ Unit
  incrementNonce : Address → EStateM PyExc σ Unit
  addBlockHeader : BlockHeader → EStateM PyExc σ Unit
  setAuxVars : AuxVars → EStateM PyExc σ Unit
  commit : EStateM PyExc σ Unit
  snapshot : EStateM PyExc σ γ
  revert : γ → EStateM PyExc σ Unit

structure Session (σ γ : Type) where
  state : σ
  snapshots : List γ

namespace Session

variable {S σ γ α : Type}

def onState (x : EStateM PyExc σ α) : EStateM PyExc (Session σ γ) α := fun s =>
  match x s.state with
  | .ok a t => .ok a { s with state := t }
  | .error e t => .error e { s with state := t }

def keep (h : γ) : EStateM PyExc (Session σ γ) Unit :=
  modify fun s => { s with snapshots := s.snapshots ++ [h] }

def revertTo (I : Interface S σ γ) : Option γ → EStateM PyExc (Session σ γ) Unit
  | some h => onState (I.revert h)
  | none => pure ()

def call (I : Interface S σ γ) : Access S → EStateM PyExc (Session σ γ) (Answer S)
  | .getBalance a => do
      let b ← onState (I.getBalance a)
      return .balance b
  | .getNonce a => do
      let n ← onState (I.getNonce a)
      return .nonce n
  | .setBalance a b => do
      onState (I.setBalance a b)
      return .done
  | .setNonce a n => do
      onState (I.setNonce a n)
      return .done
  | .incrementNonce a => do
      onState (I.incrementNonce a)
      return .done
  | .addBlockHeader h => do
      onState (I.addBlockHeader h)
      return .done
  | .setAuxVars auxvars => do
      onState (I.setAuxVars auxvars)
      return .done
  | .commit => do
      onState I.commit
      return .done
  | .snapshot => do
      let h ← onState I.snapshot
      keep h
      return .done
  | .revert i => do
      let s ← get
      revertTo I s.snapshots[i]?
      return .done

def run (I : Interface S σ γ) (calls : List (Access S)) :
    EStateM PyExc (Session σ γ) (List (Answer S)) := calls.mapM (call I)

end Session

section Interfaces

variable {S D : Type} [IPSet S]

def State.interface : Interface S (State S) (Snapshot S) where
  getBalance a := modifyGet fun s => s.getBalance a
  getNonce a := modifyGet fun s => s.getNonce a
  setBalance a b := modify fun s => s.setBalance a b
  setNonce a n := modify fun s => s.setNonce a n
  incrementNonce a := modify fun s => s.incrementNonce a
  addBlockHeader h := modify fun s => s.addBlockHeader h
  setAuxVars auxvars := modify fun s => { s with toAuxVars := auxvars }
  commit := modify fun s => s.commit
  snapshot := do
    let s ← get
    return s.snapshot
  revert := State.revert

def DbState.interface [Pickle S] [Platform] [Decoder] [Database D] [Forgets D] :
    Interface S (DbState S D) DbSnapshot where
  getBalance := DbState.getBalance
  getNonce := DbState.getNonce
  setBalance := DbState.setBalance
  setNonce := DbState.setNonce
  incrementNonce := DbState.incrementNonce
  addBlockHeader := DbState.addBlockHeader
  setAuxVars := DbState.setAuxVars
  commit := DbState.commit
  snapshot := DbState.snapshot
  revert := DbState.revert

end Interfaces

namespace Session

open MerkleTrie (blankNode blankRoot)

variable {S D : Type} [IPSet S] [Pickle S] [Platform] [Decoder] [Database D] [Forgets D] {α : Type}

def Along (r : Store (RefcountDB D) → Store (RefcountDB D) → Prop)
    (c c' : Session (DbState S D) DbSnapshot) : Prop := DbState.Along r c.state c'.state

def Grows (c c' : Session (DbState S D) DbSnapshot) : Prop := DbState.Grows c.state c'.state

omit [IPSet S] [Pickle S] [Platform] [Decoder] [Database D] [Forgets D] in
instance : IsPreorder (Session (DbState S D) DbSnapshot) Grows where
  refl c := refl_of DbState.Grows c.state
  trans _ _ _ first second := trans_of DbState.Grows first second

section Growth

variable {r : Store (RefcountDB D) → Store (RefcountDB D) → Prop}

omit [IPSet S] [Pickle S] [Decoder] [Forgets D] in
instance [MerkleTrie.Growth r] : IsPreorder (Session (DbState S D) DbSnapshot) (Along r) where
  refl c := refl_of (DbState.Along r) c.state
  trans _ _ _ first second := trans_of (DbState.Along r) first second

omit [IPSet S] [Pickle S] [Platform] [Decoder] [Database D] [Forgets D] in
theorem advances_onState {x : EStateM PyExc (DbState S D) α}
    (advances : Advances (DbState.Along r) x) :
    Advances (Along r) (onState x : EStateM PyExc (Session (DbState S D) DbSnapshot) α) := by
  intro c
  have step := advances c.state
  rw [onState]
  cases run : x c.state with
  | ok a t =>
      rw [run] at step
      exact step
  | error e t =>
      rw [run] at step
      exact step

variable [DbState.Drops r]

theorem advances_revertTo (h : Option DbSnapshot) : Advances (Along r)
    (revertTo DbState.interface h : EStateM PyExc (Session (DbState S D) DbSnapshot) Unit) := by
  cases h with
  | none => exact Advances.pure _
  | some h => exact advances_onState (DbState.advances_revert h)

theorem advances_getBalance (a : Address) : Advances (DbState.Along r)
    (DbState.getBalance a : EStateM PyExc (DbState S D) (Balance S)) :=
  Advances.bind (DbState.advances_getAndCacheAccount a) fun _ => Advances.lift _

theorem advances_getNonce (a : Address) : Advances (DbState.Along r)
    (DbState.getNonce a : EStateM PyExc (DbState S D) Nat) :=
  Advances.bind (DbState.advances_getAndCacheAccount a) fun _ => Advances.pure _

theorem advances_call (access : Access S) : Advances (Along r)
    (call DbState.interface access : EStateM PyExc (Session (DbState S D) DbSnapshot) (Answer S)) := by
  have silent {x : EStateM PyExc (DbState S D) Unit} (advances : Advances (DbState.Along r) x) :
      Advances (Along r) (do
        onState x
        return .done : EStateM PyExc (Session (DbState S D) DbSnapshot) (Answer S)) :=
    Advances.bind (advances_onState advances) fun _ => Advances.pure _
  cases access with
  | getBalance a =>
      exact Advances.bind (advances_onState (advances_getBalance a)) fun _ => Advances.pure _
  | getNonce a =>
      exact Advances.bind (advances_onState (advances_getNonce a)) fun _ => Advances.pure _
  | setBalance a b => exact silent (DbState.advances_assign a _)
  | setNonce a n => exact silent (DbState.advances_assign a _)
  | incrementNonce a => exact silent (DbState.advances_assign a _)
  | addBlockHeader h => exact silent (DbState.advances_modify fun _ => rfl)
  | setAuxVars auxvars => exact silent (DbState.advances_setAuxVars auxvars)
  | commit => exact silent DbState.advances_commit
  | snapshot =>
      have reads : Advances (DbState.Along r)
          (DbState.snapshot : EStateM PyExc (DbState S D) DbSnapshot) :=
        Advances.bind DbState.advances_get fun _ => Advances.pure _
      refine Advances.bind (advances_onState reads) fun h => Advances.bind ?_ fun _ => Advances.pure _
      exact fun c => refl_of (Along r) c
  | revert i =>
      refine Advances.bind (fun c => refl_of (Along r) c) fun c => ?_
      exact Advances.bind (advances_revertTo _) fun _ => Advances.pure _

theorem advances_run (calls : List (Access S)) : Advances (Along r)
    (run DbState.interface calls :
      EStateM PyExc (Session (DbState S D) DbSnapshot) (List (Answer S))) :=
  Advances.mapM advances_call calls

end Growth

theorem grows_run {calls : List (Access S)} {c c' : Session (DbState S D) DbSnapshot}
    {answers : List (Answer S)} (ran : run DbState.interface calls c = .ok answers c') : Grows c c' := by
  have grows : Along MerkleTrie.Grows c c' := (advances_run calls).ok ran
  exact grows

variable [Dictionary D] {z : Bytes} {U : Set Bytes} {known : Set Address}
  {c c' : Session (DbState S D) DbSnapshot} {s s' : Session (State S) (Snapshot S)}

structure Related (z : Bytes) (U : Set Bytes) (c : Session (DbState S D) DbSnapshot)
    (s : Session (State S) (Snapshot S)) : Prop where
  refines : DbState.Refines z U c.state s.state
  taken : List.Forall₂ (DbState.Taken z U c.state.trie) c.snapshots s.snapshots

def Assumed (U : Set Bytes) (c : Session (DbState S D) DbSnapshot) : Prop :=
  DbState.Assumed U c.state

omit [IPSet S] [Pickle S] [Decoder] [Forgets D] in
theorem Assumed.of_grows (grows : Grows c c') (assumed : Assumed U c') : Assumed U c :=
  DbState.Assumed.of_grows grows assumed

omit [Decoder] [Forgets D] in
theorem onState_mirrors {x : EStateM PyExc (DbState S D) α} {y : EStateM PyExc (State S) α}
    (advances : Advances DbState.Grows x) (related : Related z U c s)
    (mirrors : Mirrors (DbState.Assumed U) (DbState.Refines z U) x y c.state s.state) :
    Mirrors (Assumed U) (Related z U) (onState x) (onState y) c s := by
  have step := advances c.state
  intro assumed
  rw [onState] at assumed ⊢
  rw [onState]
  cases run : x c.state with
  | ok a t =>
      rw [run] at assumed step
      have outcome := mirrors (by rw [run]; exact assumed)
      cases run' : y s.state with
      | ok b t' =>
          rw [run', run] at outcome
          rcases outcome with ⟨u, same, refines⟩
          cases same
          exact ⟨_, rfl, refines, related.taken.imp fun _ _ taken => taken.later step⟩
      | error e t' =>
          rw [run', run] at outcome
          rcases outcome with ⟨u, same⟩
          cases same
  | error e t =>
      rw [run] at assumed
      have outcome := mirrors (by rw [run]; exact assumed)
      cases run' : y s.state with
      | ok b t' =>
          rw [run', run] at outcome
          rcases outcome with ⟨u, same, -⟩
          cases same
      | error e' t' =>
          rw [run', run] at outcome
          rcases outcome with ⟨u, same⟩
          cases same
          exact ⟨_, rfl⟩

omit [IPSet S] [Pickle S] [Decoder] [Forgets D] in
theorem mirrors_bind {β τ : Type} {R Q : Session (DbState S D) DbSnapshot → τ → Prop} {t : τ}
    {x : EStateM PyExc (Session (DbState S D) DbSnapshot) α} {y : EStateM PyExc τ α}
    {g : α → EStateM PyExc (Session (DbState S D) DbSnapshot) β} {h : α → EStateM PyExc τ β}
    (later : ∀ a, Advances Grows (g a)) (first : Mirrors (Assumed U) R x y c t)
    (next : ∀ a c' t', R c' t' → Mirrors (Assumed U) Q (g a) (h a) c' t') :
    Mirrors (Assumed U) Q (x >>= g) (y >>= h) c t :=
  Mirrors.bind (fun _ _ => Assumed.of_grows) later first fun a c' t' _ _ => next a c' t'

omit [Decoder] [Forgets D] in
theorem answer_mirrors {x : EStateM PyExc (DbState S D) α} {y : EStateM PyExc (State S) α}
    (advances : Advances DbState.Grows x) (related : Related z U c s)
    (mirrors : Mirrors (DbState.Assumed U) (DbState.Refines z U) x y c.state s.state)
    (f : α → Answer S) : Mirrors (Assumed U) (Related z U) (do
      let a ← onState x
      return f a : EStateM PyExc (Session (DbState S D) DbSnapshot) (Answer S)) (do
      let a ← onState y
      return f a) c s :=
  mirrors_bind (fun _ => Advances.pure _) (onState_mirrors advances related mirrors)
    fun _ _ _ related => Mirrors.pure _ related

omit [Decoder] [Forgets D] in
theorem setter_mirrors {x : EStateM PyExc (DbState S D) Unit} {f : State S → State S}
    (advances : Advances DbState.Grows x) (related : Related z U c s)
    (assures : Assures (DbState.Assumed U) x c.state fun _ c' => DbState.Refines z U c' (f s.state)) :
    Mirrors (Assumed U) (Related z U) (do
      onState x
      return .done : EStateM PyExc (Session (DbState S D) DbSnapshot) (Answer S)) (do
      onState (modify f)
      return .done) c s := by
  have run : (modify f : EStateM PyExc (State S) Unit) s.state = .ok () (f s.state) := rfl
  have mirrors := Mirrors.of_assures run (assures.mono fun _ _ _ refines => ⟨rfl, refines⟩)
  exact answer_mirrors advances related mirrors fun _ => .done

section Calls

variable (free : CollisionFree U) (nothing : ∀ v ∈ U, sha3 v ≠ sha3 [])
  (blankIn : blankNode.encode ∈ U) (empty : z = [] ∨ z = blankRoot)
  (inside : ∀ a ∈ known, a.bytes ∈ U)

include free blankIn empty

theorem revertTo_mirrors {h : Option DbSnapshot} {h' : Option (Snapshot S)}
    (related : Related z U c s) (taken : Option.Rel (DbState.Taken z U c.state.trie) h h') :
    Mirrors (Assumed U) (Related z U) (revertTo DbState.interface h)
      (revertTo State.interface h') c s := by
  cases taken with
  | none => exact Mirrors.pure _ related
  | some taken =>
      exact onState_mirrors (DbState.advances_revert _) related
        (DbState.revert_mirrors free blankIn empty related.refines taken)

include nothing inside

theorem call_mirrors {access : Access S} (named : access.Names known) (related : Related z U c s) :
    Mirrors (Assumed U) (Related z U) (call DbState.interface access) (call State.interface access)
      c s := by
  have refines := related.refines
  cases access with
  | getBalance a =>
      have mirrors : Mirrors (DbState.Assumed U) (DbState.Refines z U) (DbState.getBalance a)
          (modifyGet fun s => s.getBalance a) c.state s.state :=
        Mirrors.of_assures rfl (DbState.getBalance_assures free nothing refines (inside a named))
      exact answer_mirrors (advances_getBalance a) related mirrors .balance
  | getNonce a =>
      have mirrors : Mirrors (DbState.Assumed U) (DbState.Refines z U) (DbState.getNonce a)
          (modifyGet fun s => s.getNonce a) c.state s.state :=
        Mirrors.of_assures rfl (DbState.getNonce_assures free nothing refines (inside a named))
      exact answer_mirrors (advances_getNonce a) related mirrors .nonce
  | setBalance a b =>
      have sets : Assures (DbState.Assumed U) (DbState.setBalance a b) c.state fun _ c' =>
          DbState.Refines z U c' (s.state.setBalance a b) :=
        DbState.assign_assures free nothing (fun _ => rfl) refines (inside a named)
      exact setter_mirrors (DbState.advances_assign a _) related sets
  | setNonce a n =>
      have sets : Assures (DbState.Assumed U) (DbState.setNonce a n) c.state fun _ c' =>
          DbState.Refines z U c' (s.state.setNonce a n) :=
        DbState.assign_assures free nothing (fun _ => rfl) refines (inside a named)
      exact setter_mirrors (DbState.advances_assign a _) related sets
  | incrementNonce a =>
      have sets : Assures (DbState.Assumed U) (DbState.incrementNonce a) c.state fun _ c' =>
          DbState.Refines z U c' (s.state.incrementNonce a) :=
        DbState.assign_assures free nothing (fun _ => rfl) refines (inside a named)
      exact setter_mirrors (DbState.advances_assign a _) related sets
  | addBlockHeader h =>
      have advances : Advances DbState.Grows
          (DbState.addBlockHeader h : EStateM PyExc (DbState S D) Unit) :=
        DbState.advances_modify fun _ => rfl
      have adds : Assures (DbState.Assumed U) (DbState.addBlockHeader h) c.state fun _ c' =>
          DbState.Refines z U c' (s.state.addBlockHeader h) := by
        apply Assures.of_run rfl
        intro _
        refine ⟨?_, refines.cache, refines.journal, refines.trie, refines.cached⟩
        exact congrArg
          (fun aux : AuxVars => { aux with prevHeaders := .block h :: aux.prevHeaders })
          refines.auxvars
      exact setter_mirrors advances related adds
  | setAuxVars auxvars =>
      have sets : Assures (DbState.Assumed U) (DbState.setAuxVars auxvars) c.state fun _ c' =>
          DbState.Refines z U c' { s.state with toAuxVars := auxvars } :=
        Assures.of_run rfl fun _ =>
          ⟨rfl, refines.cache, refines.journal, refines.trie, refines.cached⟩
      exact setter_mirrors (DbState.advances_setAuxVars auxvars) related sets
  | commit =>
      exact setter_mirrors DbState.advances_commit related (DbState.commit_assures free refines)
  | snapshot =>
      intro _
      refine ⟨_, rfl, refines, ?_⟩
      exact List.rel_append related.taken (.cons (DbState.taken_snapshot refines) .nil)
  | revert i =>
      have found : Option.Rel (DbState.Taken z U c.state.trie) c.snapshots[i]? s.snapshots[i]? := by
        rcases List.forall₂_iff_get.mp related.taken with ⟨lengths, each⟩
        by_cases inside : i < c.snapshots.length
        · have inside' : i < s.snapshots.length := by omega
          rw [List.getElem?_eq_getElem inside, List.getElem?_eq_getElem inside']
          exact .some (each i inside inside')
        · rw [List.getElem?_eq_none (by omega), List.getElem?_eq_none (by omega)]
          exact .none
      have reverted := revertTo_mirrors free blankIn empty related found
      have answered : Mirrors (Assumed U) (Related z U) (do
          revertTo DbState.interface c.snapshots[i]?
          return .done : EStateM PyExc (Session (DbState S D) DbSnapshot) (Answer S)) (do
          revertTo State.interface s.snapshots[i]?
          return .done) c s :=
        mirrors_bind (fun _ => Advances.pure _) reverted fun _ _ _ related => Mirrors.pure _ related
      exact answered

theorem run_mirrors {calls : List (Access S)} (named : ∀ access ∈ calls, access.Names known)
    (related : Related z U c s) :
    Mirrors (Assumed U) (Related z U) (run DbState.interface calls) (run State.interface calls)
      c s := by
  have kept (c c' : Session (DbState S D) DbSnapshot) (grows : Grows c c') (assumed : Assumed U c') :
      Assumed U c := Assumed.of_grows grows assumed
  apply Mirrors.mapM kept advances_call _ related
  intro access member c s related
  exact call_mirrors free nothing blankIn empty inside (named access member) related

end Calls

end Session

theorem undoable_fresh {S : Type} [IPSet S] (accounts : Accounts S) :
    Undoable accounts [] (∅ : Cache S) := by
  constructor <;> simp [Coherent]

def State.over {S : Type} [IPSet S] (accounts : Accounts S) : State S where
  toAuxVars := stateDefaults
  trie := accounts
  cache := ∅
  journal := []
  undoable := undoable_fresh accounts

theorem Session.run_append {S σ γ : Type} {I : Interface S σ γ} {first second : List (Access S)}
    {s t : Session σ γ} {answers : List (Answer S)}
    (ran : Session.run I (first ++ second) s = .ok answers t) : ∃ before u after,
      Session.run I first s = .ok before u ∧ Session.run I second u = .ok after t := by
  rw [Session.run, List.mapM_append] at ran
  rcases bind_eq_ok.mp ran with ⟨before, u, earlier, rest⟩
  rcases bind_eq_ok.mp rest with ⟨after, t', last, same⟩
  cases same
  exact ⟨before, u, after, earlier, last⟩

theorem Session.run_commit {S : Type} [IPSet S] {calls : List (Access S)} {answers : List (Answer S)}
    {s t : Session (State S) (Snapshot S)}
    (ran : Session.run State.interface (calls ++ [.commit]) s = .ok answers t) :
    ∃ v : State S, t.state = v.commit := by
  rcases Session.run_append ran with ⟨_, u, _, -, last⟩
  rw [Session.run, List.mapM_cons, List.mapM_nil] at last
  cases last
  exact ⟨u.state, rfl⟩

namespace DbState

open MerkleTrie (blankNode blankRoot hashed)
open Session (Related)

variable {S D E : Type} [IPSet S] [Pickle S] [Platform] [Decoder] [Database D] [Forgets D]
  [Dictionary D] [Database E] [Forgets E] [Dictionary E] {U : Set Bytes} {known known' : Set Address}
  {c e : DbState S D} {root root' : Bytes} {head : Bool}

/-- The data of `U` has different hashes, none of them the hash of the empty string. It has
everything that is hashed until `e`, and the addresses that are asked for. -/
structure Trusted (U : Set Bytes) (known : Set Address) (c e : DbState S D) : Prop where
  free : CollisionFree U
  nothing : ∀ v ∈ U, sha3 v ≠ sha3 []
  covers : ∀ v ∈ hashed e.trie.toStore, v ∈ U
  names : ∀ a ∈ known, a.bytes ∈ U
  room : Archive.Room (RefcountDB D) e.trie.puts
  sound : MerkleTrie.Sound U c.trie.toStore

omit [IPSet S] [Pickle S] [Decoder] [Forgets D] in
theorem Trusted.assumed (trusted : Trusted U known c e) : Assumed U e :=
  ⟨fun _ put => trusted.covers _ (Or.inr put), trusted.room⟩

omit [IPSet S] [Pickle S] [Decoder] [Forgets D] in
theorem Trusted.blankIn (trusted : Trusted U known c e) : blankNode.encode ∈ U :=
  trusted.covers _ (Or.inl rfl)

omit [IPSet S] [Pickle S] [Dictionary D] [Forgets D] in
theorem init_blank {store : Store (RefcountDB D)} (empty : root = [] ∨ root = blankRoot) :
    (init store root head : Except PyExc (DbState S D)) =
      .ok ⟨stateDefaults, ⟨store, blankNode, root⟩, ∅, [], head⟩ := by
  have opened : MerkleTrie.new store root = .ok () ⟨store, blankNode, root⟩ := by
    rcases empty with rfl | rfl
    · have differs : ([] : Bytes) ≠ blankRoot := fun same => MerkleTrie.sha3_ne_nil _ same.symm
      rw [MerkleTrie.new, MerkleTrie.setRootHash, if_neg (by simp), if_neg differs]
      rfl
    · have length : (blankRoot : Bytes).length = 32 := sha3_length _
      rw [MerkleTrie.new, MerkleTrie.setRootHash, if_neg (by omega), if_pos rfl]
  rw [init, opened]

omit [Decoder] [Forgets D] in
theorem related_initial {store : Store (RefcountDB D)} (sound : MerkleTrie.Sound U store) :
    Related root U (⟨⟨stateDefaults, ⟨store, blankNode, root⟩, ∅, [], head⟩, []⟩ :
      Session (DbState S D) DbSnapshot) ⟨State.initial, []⟩ where
  refines := by
    refine ⟨rfl, rfl, rfl, ⟨.blank, ∅, ⟨rfl, rfl, trivial, trivial, Or.inl rfl, sound⟩,
      MerkleTrie.matches_blank, SecureTrie.spells_empty, ?_⟩, ?_⟩
    · exact fun a member => absurd member Finmap.notMem_empty
    · exact fun a member => absurd member (AList.notMem_empty a)
  taken := .nil

section Runs

variable {store : Store (RefcountDB D)} {calls later : List (Access S)}

theorem session_mirrors (opened : init store root head = .ok c)
    (empty : root = [] ∨ root = blankRoot) (named : ∀ access ∈ calls, access.Names known)
    (trusted : Trusted U known c e) :
    Mirrors (Session.Assumed U) (Related root U) (Session.run interface calls)
      (Session.run State.interface calls) ⟨c, []⟩ ⟨State.initial, []⟩ := by
  rw [init_blank empty] at opened
  cases opened
  exact Session.run_mirrors trusted.free trusted.nothing trusted.blankIn empty trusted.names named
    (related_initial trusted.sound)

omit [Forgets D] in
theorem init_earlier {t t' : MerkleTrie (RefcountDB D)} {accounts : Accounts S}
    (keeps : SecureTrie.Keeps root U t accounts) (extend : MerkleTrie.Extends t t')
    (sound : MerkleTrie.Sound U t'.toStore) (within : MerkleTrie.Within U t'.toStore)
    (free : CollisionFree U) (blankIn : blankNode.encode ∈ U) (empty : root = [] ∨ root = blankRoot)
    (head : Bool) : ∃ u : DbState S D, init t'.toStore t.rootHash head = .ok u ∧
      u.trie.toStore = t'.toStore ∧ Related root U ⟨u, []⟩ ⟨State.over accounts, []⟩ := by
  have later : MerkleTrie.Extends t ⟨t'.toStore, blankNode, []⟩ := extend
  have within' : MerkleTrie.Within U
      (⟨t'.toStore, blankNode, []⟩ : MerkleTrie (RefcountDB D)).toStore := within
  rcases keeps.setRootHash_run free within' later sound blankIn empty with ⟨u, run, same, -, keeps'⟩
  have opened : MerkleTrie.new t'.toStore t.rootHash = .ok () u := run
  refine ⟨⟨stateDefaults, u, ∅, [], head⟩, ?_, same, ⟨rfl, rfl, rfl, keeps', fun a member =>
    absurd member (AList.notMem_empty a)⟩, .nil⟩
  rw [init, opened]

/-- A root that was committed is opened again at any later time, by a state with the accounts of
the commit. -/
theorem reopened_answers {answers answers' : List (Answer S)}
    {s s' : Session (DbState S D) DbSnapshot} (opened : init store root head = .ok c)
    (empty : root = [] ∨ root = blankRoot) (named : ∀ access ∈ calls, access.Names known)
    (named' : ∀ access ∈ later, access.Names known)
    (committed : Session.run interface (calls ++ [.commit]) ⟨c, []⟩ = .ok answers s)
    (continued : Session.run interface later s = .ok answers' s')
    (trusted : Trusted U known c s'.state) (head' : Bool) :
    ∃ t u, Session.run State.interface (calls ++ [.commit]) ⟨State.initial, []⟩ = .ok answers t ∧
      init s'.state.trie.toStore s.state.trie.rootHash head' = .ok u ∧
      (State.over t.state.trie).account = t.state.account ∧
      ∀ more : List (Access S), (∀ access ∈ more, access.Names known) →
        Trusted U known c (finish (Session.run interface more ⟨u, []⟩)).state →
          outcome (Session.run interface more ⟨u, []⟩) =
            outcome (Session.run State.interface more ⟨State.over t.state.trie, []⟩) := by
  have ends : ∀ access ∈ calls ++ [.commit], access.Names known := by
    intro access member
    rcases List.mem_append.mp member with earlier | last
    · exact named access earlier
    · rw [List.mem_singleton.mp last]
      trivial
  have grows : Session.Grows s s' := Session.grows_run continued
  have assumed' : Session.Assumed U s' := trusted.assumed
  have assumed : Session.Assumed U s := Session.Assumed.of_grows grows assumed'
  have mirrors := session_mirrors opened empty ends trusted
  rcases mirrors.backward (by rw [committed]; exact assumed) committed with ⟨t, committed', related⟩
  have continues := Session.run_mirrors trusted.free trusted.nothing trusted.blankIn empty
    trusted.names named' related
  rcases continues.backward (by rw [continued]; exact assumed') continued with ⟨t', -, related'⟩
  rcases init_earlier related.refines.trie grows related'.refines.sound assumed' trusted.free
    trusted.blankIn empty head' with ⟨u, again, -, fresh⟩
  refine ⟨t, u, committed', again, ?_, ?_⟩
  · rcases Session.run_commit committed' with ⟨v, same⟩
    rw [same]
    rfl
  · intro more names trusted'
    exact (Session.run_mirrors trusted.free trusted.nothing trusted.blankIn empty trusted.names names
      fresh).outcome_eq trusted'.assumed

end Runs

end DbState

namespace Sample

open DbState

@[reducible] def numbered {α β : Type} [Encodable β] (parts : α → β) (formed : β → Prop)
    [DecidablePred formed] (build : ∀ b, formed b → α) (good : ∀ a, formed (parts a))
    (back : ∀ a, build (parts a) (good a) = a) : Encodable α :=
  Encodable.ofLeftInjection parts (fun b => if h : formed b then some (build b h) else none)
    fun a => by rw [dif_pos (good a), back]

scoped instance byteNumber : Encodable UInt8 :=
  Encodable.ofLeftInverse UInt8.toNat UInt8.ofNat fun _ => UInt8.ofNat_toNat

scoped instance : Encodable Family :=
  Encodable.ofLeftInverse (fun f => decide (f = .v4)) (fun b => if b then .v4 else .v6) fun f => by
    cases f <;> rfl

scoped instance : Encodable IPNetwork :=
  numbered (fun n => (n.family, n.value, n.prefixlen))
    (fun b => b.2.1 < 2 ^ b.1.width ∧ b.2.2 ≤ b.1.width)
    (fun b h => ⟨b.1, b.2.1, b.2.2, h.1, h.2⟩) (fun n => ⟨n.bound, n.short⟩) fun _ => rfl

scoped instance : DecidableRel Apart := fun _ _ => inferInstanceAs (Decidable (_ ∨ _))

scoped instance : Encodable AddressRanges :=
  numbered Ranges.spans (fun l => (∀ s ∈ l, s.1 < s.2 ∧ s.2 ≤ lineEnd) ∧ l.Pairwise Apart)
    (fun l h => ⟨l, h.1, h.2⟩) (fun r => ⟨r.ordered, r.apart⟩) fun _ => rfl

scoped instance : Encodable Address :=
  numbered Address.bytes (fun b => b.length = 20) Address.mk Address.sized fun _ => rfl

scoped instance dictNumber {α β : Type} [DecidableEq α] [Encodable α] [Encodable β] :
    Encodable (AList fun _ : α => β) :=
  numbered AList.entries (fun l => l.keys.Nodup) AList.mk AList.nodupKeys fun _ => rfl

scoped instance : Encodable (Balance AddressRanges) :=
  numbered (fun b => (b.ownIps, b.delegatedIps, b.receivedIps, b.mapServer, b.locator))
    (fun _ => True) (fun b _ => ⟨b.1, b.2.1, b.2.2.1, b.2.2.2.1, b.2.2.2.2⟩) (fun _ => trivial)
    fun _ => rfl

scoped instance : Pickle AddressRanges where
  dumps b := intToBigEndian (Encodable.encode b)
  loads data :=
    match Encodable.decode (bytesToNat data) with
    | some b => .ok b
    | none => .error ⟨.exception, "UnpicklingError"⟩
  loads_dumps b := by rw [bytesToNat_intToBigEndian, Encodable.encodek]

def owning (n : IPNetwork) : Balance AddressRanges := Balance.blank.addOwnIps n

def early : List (Access AddressRanges) := [.setBalance alice (owning (net 0 9))]

def late : List (Access AddressRanges) :=
  [.snapshot, .incrementNonce alice, .commit, .revert 0, .getBalance alice]

def accesses : List (Access AddressRanges) := early ++ [.commit] ++ late

def opening [Platform] : DbState AddressRanges EphemDB :=
  ⟨stateDefaults, MerkleTrie.blank counted, ∅, [], true⟩

theorem init_opening [Platform] : init counted MerkleTrie.blankRoot true = .ok opening :=
  init_blank (Or.inr rfl)

def heard (asked : List Address) (c : DbState AddressRanges EphemDB) : List Bytes :=
  MerkleTrie.blankNode.encode :: asked.map Address.bytes ++ c.trie.puts

theorem names_early : ∀ access ∈ early, access.Names {a | a ∈ [alice]} := by
  simp [early, Access.Names]

theorem names_late : ∀ access ∈ late, access.Names {a | a ∈ [alice]} := by
  simp [late, Access.Names]

theorem names_accesses : ∀ access ∈ accesses, access.Names {a | a ∈ [alice]} := by
  simp [accesses, early, late, Access.Names]

theorem trusted_opening [Platform] {asked : List Address} {c e : DbState AddressRanges EphemDB}
    (distinct : Distinct ([] :: (heard asked e).dedup)) (few : e.trie.puts.length < 2 ^ 32)
    (grows : Grows c e) : Trusted {v | v ∈ heard asked e} {a | a ∈ asked} opening c where
  free := by
    apply distinct.free
    intro v member
    exact List.mem_cons_of_mem _ (List.mem_dedup.mpr member)
  nothing := by
    intro v member same
    have apart := (List.nodup_cons.mp distinct.1).1
    rw [← same] at apart
    exact apart (List.mem_map_of_mem (List.mem_dedup.mpr member))
  covers := by
    apply mem_of_hashed
    intro v member
    rcases List.mem_cons.mp member with rfl | put
    · exact List.mem_cons_self
    · exact List.mem_append_right _ (grows.subset put)
  names _ member := List.mem_append_left _ (List.mem_cons_of_mem _ (List.mem_map_of_mem member))
  room _ := Nat.lt_of_le_of_lt (List.count_le_length.trans grows.length_le) few
  sound _ _ := rfl

def tellsOwner : List (Answer AddressRanges) → Bool
  | [.balance b] => b.inOwnIps (net 0 9)
  | _ => false

theorem tellsOwner_iff {answers : List (Answer AddressRanges)} :
    tellsOwner answers = true ↔ ∃ b, answers = [.balance b] ∧ b.inOwnIps (net 0 9) = true := by
  constructor
  · intro told
    unfold tellsOwner at told
    split at told
    · rename_i b
      exact ⟨b, rfl, told⟩
    · cases told
  · rintro ⟨b, rfl, told⟩
    exact told

/-- The calls in two parts, the first of which ends with the commit, and a read of the account by
a state that is opened at its root. -/
theorem accesses_parts : ∃ answers s answers' s', ∃ u : DbState AddressRanges EphemDB, ∃ b v,
    Session.run interface (early ++ [.commit]) ⟨opening, []⟩ = .ok answers s ∧
      Session.run interface late s = .ok answers' s' ∧
        s.state.trie.rootHash = s'.state.trie.rootHash ∧
          init s'.state.trie.toStore s.state.trie.rootHash false = .ok u ∧
            Session.run interface [.getBalance alice] ⟨u, []⟩ = .ok [.balance b] v ∧
              b.inOwnIps (net 0 9) = true ∧ Grows s'.state v.state ∧
                Distinct ([] :: (heard [alice] v.state).dedup) ∧ v.state.trie.puts.length < 2 ^ 32 := by
  have passes : RunPasses (Session.run interface (early ++ [.commit]) ⟨opening, []⟩) (fun _ s =>
      RunPasses (Session.run interface late s) fun _ s' =>
        decide (s.state.trie.rootHash = s'.state.trie.rootHash) &&
          Passes (init s'.state.trie.toStore s.state.trie.rootHash false :
            Except PyExc (DbState AddressRanges EphemDB)) fun u =>
              RunPasses (Session.run interface [.getBalance alice] ⟨u, []⟩) fun answers v =>
                tellsOwner answers && decide (s'.state.trie.puts <:+ v.state.trie.puts ∧
                  Distinct ([] :: (heard [alice] v.state).dedup) ∧
                    v.state.trie.puts.length < 2 ^ 32)) = true := by
    decide +kernel
  rcases runPasses_iff.mp passes with ⟨answers, s, ran, passes⟩
  rcases runPasses_iff.mp passes with ⟨answers', s', ran', passes⟩
  simp only [Bool.and_eq_true, decide_eq_true_eq] at passes
  rcases passes with ⟨root, passes⟩
  rcases passes_iff.mp passes with ⟨u, again, passes⟩
  rcases runPasses_iff.mp passes with ⟨answers'', v, read, passes⟩
  simp only [Bool.and_eq_true, decide_eq_true_eq] at passes
  rcases passes with ⟨told, grows, distinct, few⟩
  rcases tellsOwner_iff.mp told with ⟨b, rfl, owned⟩
  exact ⟨answers, s, answers', s', u, b, v, ran, ran', root, again, read, owned, grows, distinct,
    few⟩

theorem reopened_answers_commit : ∃ answers s answers' s' t b,
    ∃ u : DbState AddressRanges EphemDB,
      Session.run interface (early ++ [.commit]) ⟨opening, []⟩ = .ok answers s ∧
        Session.run interface late s = .ok answers' s' ∧
          Session.run State.interface (early ++ [.commit]) ⟨State.initial, []⟩ = .ok answers t ∧
            init s'.state.trie.toStore s.state.trie.rootHash false = .ok u ∧
              (State.over t.state.trie).account = t.state.account ∧ b.inOwnIps (net 0 9) = true ∧
                outcome (Session.run interface [.getBalance alice] ⟨u, []⟩) = .ok [.balance b] ∧
                  outcome (Session.run State.interface [.getBalance alice]
                    ⟨State.over t.state.trie, []⟩) = .ok [.balance b] := by
  rcases accesses_parts with
    ⟨answers, s, answers', s', u, b, v, first, second, -, again, read, own, grows, distinct, few⟩
  rcases reopened_answers init_opening (Or.inr rfl) names_early names_late first second
    (trusted_opening distinct few grows) false with ⟨t, u', map, again', same, answered⟩
  rw [again] at again'
  cases again'
  have told := answered [.getBalance alice] (by simp [Access.Names]) (by
    rw [read]
    exact trusted_opening distinct few (refl_of Grows v.state))
  rw [read] at told
  refine ⟨answers, s, answers', s', t, b, u, first, second, map, again, same, own, ?_, told.symm⟩
  rw [read]
  rfl

end Sample

end IPchain
