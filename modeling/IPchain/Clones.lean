import IPchain.Snapshots

/-! A clone of a state: a state at the same root, over a database that catches every write. It
answers like the state it was made of, comes to the same roots, and leaves its database alone. -/

namespace IPchain

open Lib Platform

namespace State

variable {S : Type} [IPSet S]

def cacheView (trie : Accounts S) (cache : Cache S) (a : Address) : Account S × Bool :=
  ((cache.lookup a).map fun acct => (acct.account, acct.touched)).getD (stored trie a, false)

/-- The accounts as the next reader finds them, and whether they were written. -/
def view (s : State S) : Address → Account S × Bool := cacheView s.trie s.cache

/-- The accounts that were only read may be cached in one of the states and not in the other. -/
structure Tracks (s t : State S) : Prop where
  trie : t.trie = s.trie
  auxvars : t.toAuxVars = s.toAuxVars
  journal : t.journal = s.journal
  view : t.view = s.view

theorem view_getAndCacheAccount (s : State S) (a : Address) :
    (s.getAndCacheAccount a).2.view = s.view := by
  funext b
  simp only [getAndCacheAccount]
  split
  · rfl
  · rename_i absent
    by_cases same : b = a
    · subst same
      rcases s.loadAccount_spec b with ⟨clean, -, read⟩
      simp only [view, cacheView, cacheAccount, AList.lookup_insert, absent, Option.map_some,
        Option.map_none, Option.getD_some, Option.getD_none, clean, read]
    · simp only [view, cacheView, cacheAccount, AList.lookup_insert_ne same]

theorem getAndCacheAccount_view (s : State S) (a : Address) :
    ((s.getAndCacheAccount a).1.account, (s.getAndCacheAccount a).1.touched) = s.view a := by
  rw [← s.view_getAndCacheAccount a, view, cacheView, (s.getAndCacheAccount_spec a).1]
  rfl

theorem Tracks.read {s t : State S} (tracks : Tracks s t) (a : Address) :
    Tracks (s.getAndCacheAccount a).2 (t.getAndCacheAccount a).2 where
  trie := by simp only [trie_getAndCacheAccount, tracks.trie]
  auxvars := by simp only [toAuxVars_getAndCacheAccount, tracks.auxvars]
  journal := by simp only [journal_getAndCacheAccount, tracks.journal]
  view := by simp only [view_getAndCacheAccount, tracks.view]

theorem Tracks.account {s t : State S} (tracks : Tracks s t) : t.account = s.account := by
  funext a
  have found (u : State S) : u.account a = (u.view a).1 := by
    rw [← u.getAndCacheAccount_view a]
    exact (u.getAndCacheAccount_spec a).2.symm
  rw [found, found, tracks.view]

theorem view_setParam (s : State S) (a : Address) (p : Account S → Param S) :
    (s.setParam a p).view = Function.update s.view a
      ((p (s.view a).1).assign (s.view a).1, true) := by
  have found : (s.getAndCacheAccount a).1.account = (s.view a).1 :=
    congrArg Prod.fst (s.getAndCacheAccount_view a)
  funext b
  by_cases same : b = a
  · subst same
    rw [Function.update_self, ← found]
    simp only [view, cacheView, setParam, setAndJournal, AList.lookup_insert, Option.map_some,
      Option.getD_some]
  · rw [Function.update_of_ne same, ← s.view_getAndCacheAccount a]
    simp only [view, cacheView, setParam, setAndJournal, AList.lookup_insert_ne same]

theorem journal_setParam (s : State S) (a : Address) (p : Account S → Param S) :
    (s.setParam a p).journal =
      ⟨a, (p (s.view a).1).current (s.view a).1, (s.view a).2⟩ :: s.journal := by
  have found := s.getAndCacheAccount_view a
  rw [← s.journal_getAndCacheAccount a, ← found]
  rfl

theorem trie_setParam (s : State S) (a : Address) (p : Account S → Param S) :
    (s.setParam a p).trie = s.trie := s.trie_getAndCacheAccount a

theorem Tracks.setParam {s t : State S} (tracks : Tracks s t) (a : Address)
    (p : Account S → Param S) : Tracks (s.setParam a p) (t.setParam a p) where
  trie := by rw [trie_setParam, trie_setParam, tracks.trie]
  auxvars := by rw [toAuxVars_setParam, toAuxVars_setParam, tracks.auxvars]
  journal := by rw [journal_setParam, journal_setParam, tracks.journal, tracks.view]
  view := by rw [view_setParam, view_setParam, tracks.view]

theorem lookup_trie_commit (s : State S) (a : Address) : s.commit.trie.lookup a =
    if (s.view a).2 then some (s.view a).1 else s.trie.lookup a := by
  change (s.cache.entries.foldl commitAccount s.trie).lookup a = _
  rw [lookup_commit s.trie s.cache s.undoable.coherent, view, cacheView]
  cases present : s.cache.lookup a with
  | none => rfl
  | some acct =>
      cases touched : acct.touched with
      | false => simp [CachedAccount.written, touched]
      | true => simp [CachedAccount.written, touched]

theorem Tracks.commit {s t : State S} (tracks : Tracks s t) : Tracks s.commit t.commit := by
  have trie : t.commit.trie = s.commit.trie := by
    apply Finmap.ext_lookup
    intro a
    rw [lookup_trie_commit, lookup_trie_commit, tracks.view, tracks.trie]
  refine ⟨trie, ?_, rfl, ?_⟩
  · rw [toAuxVars_commit, toAuxVars_commit, tracks.auxvars]
  · funext a
    change (stored t.commit.trie a, false) = (stored s.commit.trie a, false)
    rw [trie]

theorem cacheView_run {trie : Accounts S} {cache : Cache S} {u : Undo S}
    (known : u.address ∈ cache) : cacheView trie (u.run cache) =
      Function.update (cacheView trie cache) u.address
        (u.preval.assign (cacheView trie cache u.address).1, u.touched) := by
  rcases Option.isSome_iff_exists.mp (AList.lookup_isSome.mpr known) with ⟨acct, present⟩
  funext a
  rw [cacheView, u.lookup_run]
  by_cases same : a = u.address
  · subst same
    rw [if_pos rfl, Function.update_self, cacheView, present]
    rfl
  · rw [if_neg same, Function.update_of_ne same, cacheView]

theorem rollback_views {trie : Accounts S} {journal : List (Undo S)} {c d : Cache S} (L : Nat)
    (undoable : Undoable trie journal c) (undoable' : Undoable trie journal d)
    (same : cacheView trie d = cacheView trie c) :
    (rollback L journal d).1 = (rollback L journal c).1 ∧
      cacheView trie (rollback L journal d).2 = cacheView trie (rollback L journal c).2 := by
  induction journal generalizing c d with
  | nil => exact ⟨rfl, same⟩
  | cons u rest ih =>
      simp only [rollback]
      split
      · apply ih undoable.2.2 undoable'.2.2
        rw [cacheView_run undoable.2.1, cacheView_run undoable'.2.1, same]
      · exact ⟨rfl, same⟩

theorem Tracks.unwind {s t : State S} (tracks : Tracks s t) (L : Nat) :
    Tracks (s.unwind L) (t.unwind L) := by
  have undoable := t.undoable
  rw [tracks.trie, tracks.journal] at undoable
  have same : cacheView s.trie t.cache = cacheView s.trie s.cache := by
    have views : cacheView t.trie t.cache = cacheView s.trie s.cache := tracks.view
    rwa [tracks.trie] at views
  rcases rollback_views L s.undoable undoable same with ⟨journal, views⟩
  refine ⟨tracks.trie, tracks.auxvars, ?_, ?_⟩
  · change (rollback L t.journal t.cache).1 = _
    rw [tracks.journal]
    exact journal
  · change cacheView t.trie (rollback L t.journal t.cache).2 = _
    rw [tracks.trie, tracks.journal]
    exact views

theorem revert_tracks {s t : State S} (tracks : Tracks s t) (h : Snapshot S) :
    Mirrors (fun _ => True) Tracks (revert h) (revert h) s t := by
  have unwound := tracks.unwind h.journalLength
  have keep {u : State S} (same : u.trie = h.trie) :
      revert h u = .ok () { u.unwind h.journalLength with toAuxVars := h.auxvars } :=
    if_pos same.symm
  have reset {u : State S} (differs : h.trie ≠ u.trie) (start : h.journalLength = 0) :
      revert h u = .ok () ⟨h.auxvars, h.trie, ∅, [], by constructor <;> simp [Coherent]⟩ :=
    (if_neg differs).trans (if_pos start)
  have stuck {u : State S} (differs : h.trie ≠ u.trie) (later : h.journalLength ≠ 0) :
      revert h u = .error ⟨.assertionError, ""⟩ (u.unwind h.journalLength) :=
    (if_neg differs).trans (if_neg later)
  intro _
  by_cases same : s.trie = h.trie
  · rw [keep (tracks.trie.trans same), keep same]
    exact ⟨_, rfl, unwound.trie, rfl, unwound.journal, unwound.view⟩
  · have differs : h.trie ≠ s.trie := Ne.symm same
    have differs' : h.trie ≠ t.trie := by rwa [tracks.trie]
    by_cases start : h.journalLength = 0
    · rw [reset differs' start, reset differs start]
      exact ⟨_, rfl, rfl, rfl, rfl, rfl⟩
    · rw [stuck differs' start, stuck differs start]
      exact ⟨_, rfl⟩

end State

namespace Session

variable {S α : Type} [IPSet S]

structure Tracks (c d : Session (State S) (Snapshot S)) : Prop where
  state : State.Tracks c.state d.state
  snapshots : d.snapshots = c.snapshots

variable {c d : Session (State S) (Snapshot S)}

theorem setter_tracks {f : State S → State S} (tracks : Tracks c d)
    (next : State.Tracks (f c.state) (f d.state)) : Mirrors (fun _ => True) Tracks (do
      onState (modify f)
      return .done : EStateM PyExc (Session (State S) (Snapshot S)) (Answer S)) (do
      onState (modify f)
      return .done) c d :=
  fun _ => ⟨⟨f c.state, c.snapshots⟩, rfl, next, tracks.snapshots⟩

theorem getter_tracks {f : State S → α × State S} (tracks : Tracks c d) (answer : α → Answer S)
    (same : (f d.state).1 = (f c.state).1) (next : State.Tracks (f c.state).2 (f d.state).2) :
    Mirrors (fun _ => True) Tracks (do
      let a ← onState (modifyGet f)
      return answer a : EStateM PyExc (Session (State S) (Snapshot S)) (Answer S)) (do
      let a ← onState (modifyGet f)
      return answer a) c d := by
  have run (e : Session (State S) (Snapshot S)) : (do
      let a ← onState (modifyGet f)
      return answer a : EStateM PyExc (Session (State S) (Snapshot S)) (Answer S)) e =
        .ok (answer (f e.state).1) ⟨(f e.state).2, e.snapshots⟩ := rfl
  intro _
  rw [run, run, same]
  exact ⟨_, rfl, next, tracks.snapshots⟩

theorem onState_tracks {x : EStateM PyExc (State S) α} (tracks : Tracks c d)
    (mirrors : Mirrors (fun _ => True) State.Tracks x x c.state d.state) :
    Mirrors (fun _ => True) Tracks (onState x) (onState x) c d := by
  have step := mirrors trivial
  intro _
  simp only [onState]
  cases run : x d.state with
  | ok a t =>
      rw [run] at step
      rcases step with ⟨s', same, state⟩
      rw [same]
      exact ⟨_, rfl, state, tracks.snapshots⟩
  | error e t =>
      rw [run] at step
      rcases step with ⟨s', same⟩
      rw [same]
      exact ⟨_, rfl⟩

theorem bind_tracks {β : Type} {x y : EStateM PyExc (Session (State S) (Snapshot S)) α}
    {g h : α → EStateM PyExc (Session (State S) (Snapshot S)) β}
    (first : Mirrors (fun _ => True) Tracks x y c d)
    (next : ∀ a c d, Tracks c d → Mirrors (fun _ => True) Tracks (g a) (h a) c d) :
    Mirrors (fun _ => True) Tracks (x >>= g) (y >>= h) c d := by
  have steady : ∀ a, Advances (fun _ _ => True) (g a) := fun _ _ => trivial
  exact Mirrors.bind (fun _ _ _ _ => trivial) steady first fun a c d _ _ tracks => next a c d tracks

theorem revertTo_tracks (tracks : Tracks c d) (h : Option (Snapshot S)) :
    Mirrors (fun _ => True) Tracks (revertTo State.interface h) (revertTo State.interface h)
      c d := by
  cases h with
  | none => exact Mirrors.pure _ tracks
  | some h => exact onState_tracks tracks (State.revert_tracks tracks.state h)

theorem call_tracks (tracks : Tracks c d) (access : Access S) : Mirrors (fun _ => True) Tracks
    (call State.interface access) (call State.interface access) c d := by
  have state := tracks.state
  cases access with
  | getBalance a =>
      apply getter_tracks tracks .balance _ (state.read a)
      rw [State.getBalance_fst, State.getBalance_fst, state.account]
  | getNonce a =>
      apply getter_tracks tracks .nonce _ (state.read a)
      rw [State.getNonce_fst, State.getNonce_fst, state.account]
  | setBalance a b => exact setter_tracks tracks (state.setParam a _)
  | setNonce a n => exact setter_tracks tracks (state.setParam a _)
  | incrementNonce a => exact setter_tracks tracks (state.setParam a _)
  | addBlockHeader h =>
      have added : State.Tracks (c.state.addBlockHeader h) (d.state.addBlockHeader h) := by
        refine ⟨state.trie, ?_, state.journal, state.view⟩
        exact congrArg (fun aux : AuxVars =>
          { aux with prevHeaders := .block h :: aux.prevHeaders }) state.auxvars
      exact setter_tracks tracks added
  | setAuxVars auxvars =>
      exact setter_tracks tracks ⟨state.trie, rfl, state.journal, state.view⟩
  | commit => exact setter_tracks tracks state.commit
  | snapshot =>
      have taken : d.state.snapshot = c.state.snapshot := by
        rw [State.snapshot, State.snapshot, state.trie, state.journal, state.auxvars]
      intro _
      refine ⟨_, rfl, state, ?_⟩
      change d.snapshots ++ [d.state.snapshot] = c.snapshots ++ [c.state.snapshot]
      rw [tracks.snapshots, taken]
  | revert i =>
      have reverted := revertTo_tracks tracks c.snapshots[i]?
      have answered : Mirrors (fun _ => True) Tracks (do
          revertTo State.interface c.snapshots[i]?
          return .done : EStateM PyExc (Session (State S) (Snapshot S)) (Answer S)) (do
          revertTo State.interface d.snapshots[i]?
          return .done) c d := by
        rw [tracks.snapshots]
        exact bind_tracks reverted fun _ _ _ tracks => Mirrors.pure _ tracks
      exact answered

theorem run_tracks (tracks : Tracks c d) (calls : List (Access S)) :
    Mirrors (fun _ => True) Tracks (run State.interface calls) (run State.interface calls) c d := by
  rw [run]
  induction calls generalizing c d with
  | nil =>
      rw [List.mapM_nil]
      exact Mirrors.pure _ tracks
  | cons access calls ih =>
      rw [List.mapM_cons]
      apply bind_tracks (call_tracks tracks access)
      intro answer c d tracks
      apply bind_tracks (ih tracks)
      intro answers c d tracks
      exact Mirrors.pure _ tracks

end Session

namespace DbState

variable {S D : Type} [IPSet S] [Pickle S] [Platform] [Decoder] [Database D]

def Shields (s s' : Store (RefcountDB (OverlayDB D))) : Prop := s'.db.db.db = s.db.db.db

omit [Database D] in
instance : IsPreorder (Store (RefcountDB (OverlayDB D))) Shields where
  refl _ := rfl
  trans _ _ _ first second := second.trans first

omit [Platform] [Decoder] in
theorem refcount_put {d d' : RefcountDB (OverlayDB D)} {key value : Bytes}
    (run : Database.put d key value = .ok d') : d'.db.db = d.db.db := by
  simp only [Database.put] at run
  split at run
  · rename_i db again
    cases run
    rcases except_bind_eq_ok.mp again with ⟨existing, -, rest⟩
    split at rest
    · cases rest
      rfl
    · cases rest
  · split at run
    · cases run
      rfl
    · cases run

instance : MerkleTrie.Growth (Shields : Store (RefcountDB (OverlayDB D)) → _ → Prop) where
  store data s := by
    rw [MerkleTrie.store]
    split
    · rename_i db put
      exact refcount_put put
    · rfl

instance : Drops (Shields : Store (RefcountDB (OverlayDB D)) → _ → Prop) where
  put _ _ _ _ put := OverlayDB.db_put put
  delete _ _ _ deleted := by
    cases deleted
    rfl

structure RootSnapshot where
  stateRoot : Bytes
  txindex : Bytes
  blockNumber : Bytes
  blockCoinbase : Bytes
  timestamp : Bytes

/-- `to_snapshot(root_only=True, no_prevblocks=True)`. -/
def toRootSnapshot (c : DbState S D) : RootSnapshot where
  stateRoot := prefixedHex c.trie.rootHash
  txindex := strOfInt c.txindex
  blockNumber := strOfInt c.blockNumber
  blockCoinbase := prefixedHex c.blockCoinbase
  timestamp := strOfInt c.timestamp

/-- `from_snapshot`, from the new state on. -/
def readRootSnapshot [Forgets D] (h : RootSnapshot) : EStateM PyExc (DbState S D) Unit := do
  let rootHash ← lift (parseAsBin h.stateRoot)
  onTrie (MerkleTrie.setRootHash rootHash)
  let auxvars ← lift (readAuxVars ⟨[], h.txindex, h.blockNumber, h.blockCoinbase, h.timestamp, []⟩)
  setAuxVars auxvars
  commit

def overlaid (s : Store (RefcountDB D)) : Store (RefcountDB (OverlayDB D)) :=
  ⟨⟨⟨s.db.db, ∅⟩⟩, s.puts⟩

/-- The calls in a copied journal would set the accounts of this state. -/
def clone (c : DbState S D) : Except PyExc (DbState S (OverlayDB D)) := do
  let s : DbState S (OverlayDB D) ← init (overlaid c.trie.toStore) [] false
  match readRootSnapshot c.toRootSnapshot s with
  | .error e _ => .error e
  | .ok _ s => do
      pyAssert (∀ entry ∈ c.cache.entries, entry.2.touched = false)
      return { s with toAuxVars := c.toAuxVars, cache := ∅, journal := c.journal }

section Faithful

open MerkleTrie (blankNode blankRoot)

variable [Dictionary D] {z root : Bytes} {U : Set Bytes} {known : Set Address}

omit [Decoder] in
theorem sound_overlaid {s : Store (RefcountDB D)} (sound : MerkleTrie.Sound U s) :
    MerkleTrie.Sound U (overlaid s) := by
  intro v member
  have found := sound v member
  have same : Database.lookup (OverlayDB.mk s.db.db ∅) (sha3 v) =
    Database.lookup s.db.db (sha3 v) := rfl
  exact same.trans found

omit [IPSet S] [Decoder] in
theorem keeps_overlaid {t : MerkleTrie (RefcountDB D)} {accounts : Accounts S}
    (keeps : SecureTrie.Keeps z U t accounts) :
    SecureTrie.Keeps z U ⟨overlaid t.toStore, t.rootNode, t.rootHash⟩ accounts := by
  rcases keeps with ⟨tree, m, opened, matched, spells, known⟩
  exact ⟨tree, m, ⟨opened.node, opened.hash, opened.normal, opened.below, opened.root,
    sound_overlaid opened.sound⟩, matched, spells, known⟩

omit [Decoder] in
theorem Refines.quiet {c : DbState S D} {s : State S} (refines : Refines z U c s)
    (quiet : c.journal = []) : s.journal = [] := by
  have journal := refines.journal
  rw [quiet] at journal
  cases same : s.journal with
  | nil => rfl
  | cons u rest =>
      rw [same] at journal
      cases journal

omit [Decoder] in
theorem Refines.untouched {c : DbState S D} {s : State S} (refines : Refines z U c s)
    (quiet : c.journal = []) : ∀ entry ∈ c.cache.entries, entry.2.touched = false := by
  have undoable := s.undoable
  rw [refines.quiet quiet] at undoable
  intro entry member
  rw [refines.cache, entries_objectsOf] at member
  rcases List.mem_map.mp member with ⟨kept, listed, rfl⟩
  exact undoable.2 kept.1 kept.2 (AList.mem_lookup_iff.mpr listed)

variable (free : CollisionFree U) (blankIn : blankNode.encode ∈ U)
  (empty : z = [] ∨ z = blankRoot)

include free blankIn empty

omit [IPSet S] in
theorem readRootSnapshot_run [Forgets D] {t : MerkleTrie (RefcountDB D)} {accounts : Accounts S}
    (keeps : SecureTrie.Keeps z U t accounts) (within : MerkleTrie.Within U t.toStore)
    {h : RootSnapshot} (root : h.stateRoot = prefixedHex t.rootHash) {aux : AuxVars}
    (read : readAuxVars ⟨[], h.txindex, h.blockNumber, h.blockCoinbase, h.timestamp, []⟩ = .ok aux)
    (head : Bool) : ∃ u, SecureTrie.Keeps z U u accounts ∧ u.toStore = t.toStore ∧
      u.rootHash = t.rootHash ∧ readRootSnapshot h
        (⟨stateDefaults, ⟨t.toStore, blankNode, []⟩, ∅, [], head⟩ : DbState S D) =
          .ok () ⟨aux, u, ∅, [], head⟩ := by
  have sound : MerkleTrie.Sound U t.toStore := by
    rcases keeps with ⟨tree, m, opened, -⟩
    exact opened.sound
  have same : MerkleTrie.Extends t ⟨t.toStore, blankNode, []⟩ := refl_of MerkleTrie.Grows t.toStore
  have found : ∃ u, MerkleTrie.setRootHash t.rootHash ⟨t.toStore, blankNode, []⟩ = .ok () u ∧
      u.toStore = t.toStore ∧ u.rootHash = t.rootHash ∧ SecureTrie.Keeps z U u accounts :=
    keeps.setRootHash_run free within same sound blankIn empty
  rcases found with ⟨u, run, store, hash, keeps'⟩
  refine ⟨u, keeps', store, hash, ?_⟩
  have set : onTrie (MerkleTrie.setRootHash t.rootHash)
      (⟨stateDefaults, ⟨t.toStore, blankNode, []⟩, ∅, [], head⟩ : DbState S D) =
        .ok () ⟨stateDefaults, u, ∅, [], head⟩ := by
    rw [onTrie]
    dsimp only
    rw [run]
  rw [readRootSnapshot, root, parseAsBin_prefixedHex, read]
  exact bind_of_ok set _

theorem clone_run [Forgets D] {c : DbState S D} {s : State S} (refines : Refines z U c s)
    (assumed : Assumed U c) (quiet : c.journal = []) : ∃ k, clone c = .ok k ∧
      k.toAuxVars = c.toAuxVars ∧ k.trie.rootHash = c.trie.rootHash ∧
        ∃ u : State S, Session.Related z U ⟨k, []⟩ ⟨u, []⟩ ∧ u.Tracks s := by
  have keeps := keeps_overlaid refines.trie
  have within : MerkleTrie.Within U (overlaid c.trie.toStore) := assumed
  have read := readAuxVars_text { c.toAuxVars with prevHeaders := [] } []
  have texts : c.toRootSnapshot.stateRoot = prefixedHex c.trie.rootHash := rfl
  rcases readRootSnapshot_run free blankIn empty keeps within texts read false with
    ⟨u, keeps', -, hash, run⟩
  have fresh : (init (overlaid c.trie.toStore) [] false : Except PyExc (DbState S (OverlayDB D))) =
      .ok ⟨stateDefaults, ⟨overlaid c.trie.toStore, blankNode, []⟩, ∅, [], false⟩ :=
    init_blank (Or.inl rfl)
  have clean : (∀ entry ∈ c.cache.entries, entry.2.touched = false) := refines.untouched quiet
  have undoable := s.undoable
  rw [refines.quiet quiet] at undoable
  refine ⟨⟨c.toAuxVars, u, ∅, c.journal, false⟩, ?_, rfl, ?_,
    ⟨s.toAuxVars, s.trie, ∅, [], by constructor <;> simp [Coherent]⟩, ?_, ?_⟩
  · simp only [clone, fresh, bind, Except.bind, run]
    rw [pyAssert, if_pos (decide_eq_true clean)]
    rfl
  · exact hash
  · refine ⟨⟨refines.auxvars, rfl, ?_, keeps', fun a member =>
      absurd member (AList.notMem_empty a)⟩, .nil⟩
    exact quiet
  · refine ⟨rfl, rfl, refines.quiet quiet, ?_⟩
    funext a
    change State.cacheView s.trie s.cache a = (stored s.trie a, false)
    rw [State.cacheView]
    cases present : s.cache.lookup a with
    | none => rfl
    | some acct =>
        have untouched := undoable.2 a acct present
        have read := undoable.1 a acct present untouched
        rw [Option.map_some, Option.getD_some, read.2, untouched]

end Faithful

section Whole

open MerkleTrie (blankRoot)

variable [Forgets D] [Dictionary D] {root : Bytes} {U : Set Bytes} {known : Set Address}
  {c : DbState S D} {head : Bool} {store : Store (RefcountDB D)}

omit [IPSet S] [Pickle S] [Forgets D] [Dictionary D] in
theorem clone_below {k : DbState S (OverlayDB D)} (made : clone c = .ok k) :
    k.trie.db.db.db = c.trie.db.db := by
  have fresh : (init (overlaid c.trie.toStore) [] false : Except PyExc (DbState S (OverlayDB D))) =
      .ok ⟨stateDefaults, ⟨overlaid c.trie.toStore, MerkleTrie.blankNode, []⟩, ∅, [], false⟩ :=
    init_blank (Or.inl rfl)
  have shields : Advances (Along Shields) (readRootSnapshot c.toRootSnapshot :
      EStateM PyExc (DbState S (OverlayDB D)) Unit) := by
    refine Advances.bind (Advances.lift _) fun rootHash => ?_
    refine Advances.bind (advances_onTrie (MerkleTrie.advances_setRootHash rootHash)) fun _ => ?_
    refine Advances.bind (Advances.lift _) fun auxvars => ?_
    exact Advances.bind (advances_setAuxVars auxvars) fun _ => advances_commit
  rw [clone, fresh] at made
  simp only [bind, Except.bind] at made
  split at made
  · cases made
  · rename_i u run
    have below := shields.ok run
    rcases except_bind_eq_ok.mp made with ⟨_, -, same⟩
    cases same
    exact below

/-- What is called on a clone leaves the database of the state alone. The clone of a state with
nothing to undo answers as the state itself would, or raises what it would raise, and comes to
the root that the state would come to. -/
theorem clone_isolated {calls : List (Access S)} {answers : List (Answer S)}
    {s : Session (DbState S D) DbSnapshot} (opened : init store root head = .ok c)
    (empty : root = [] ∨ root = blankRoot) (named : ∀ access ∈ calls, access.Names known)
    (ran : Session.run interface calls ⟨c, []⟩ = .ok answers s) :
    (∀ k, clone s.state = .ok k → ∀ more : List (Access S),
      (finish (Session.run interface more ⟨k, []⟩)).state.trie.db.db.db = s.state.trie.db.db) ∧
    (s.state.journal = [] → Trusted U known c s.state →
      ∃ k, clone s.state = .ok k ∧ k.toAuxVars = s.state.toAuxVars ∧
        k.trie.rootHash = s.state.trie.rootHash ∧
        ∀ more : List (Access S), (∀ access ∈ more, access.Names known) →
          Assumed U (finish (Session.run interface more ⟨k, []⟩)).state →
            Assumed U (finish (Session.run interface more ⟨s.state, []⟩)).state →
              outcome (Session.run interface more ⟨k, []⟩) =
                  outcome (Session.run interface more ⟨s.state, []⟩) ∧
                ∀ later k' s', Session.run interface more ⟨k, []⟩ = .ok later k' →
                  Session.run interface more ⟨s.state, []⟩ = .ok later s' →
                    k'.state.trie.rootHash = s'.state.trie.rootHash) := by
  refine ⟨?_, ?_⟩
  · intro k made more
    have shielded : Session.Along Shields ⟨k, []⟩ _ := Session.advances_run more ⟨k, []⟩
    exact Eq.trans shielded (clone_below made)
  intro quiet trusted
  have mirrors := session_mirrors opened empty named trusted
  have assumed : Assumed U s.state := trusted.assumed
  rcases mirrors.backward (by rw [ran]; exact assumed) ran with ⟨t, -, related⟩
  rcases clone_run trusted.free trusted.blankIn empty related.refines assumed quiet with
    ⟨k, made, auxvars, hash, u, related', tracks⟩
  refine ⟨k, made, auxvars, hash, ?_⟩
  intro more names assumedK assumedS
  have cloned := Session.run_mirrors trusted.free trusted.nothing trusted.blankIn empty
    trusted.names names related'
  have continued := Session.run_mirrors trusted.free trusted.nothing trusted.blankIn empty
    trusted.names names
    (⟨related.refines, .nil⟩ : Session.Related root U ⟨s.state, []⟩ ⟨t.state, []⟩)
  have maps := Session.run_tracks (⟨tracks, rfl⟩ : Session.Tracks ⟨u, []⟩ ⟨t.state, []⟩) more
  constructor
  · calc
      _ = outcome (Session.run State.interface more ⟨u, []⟩) := cloned.outcome_eq assumedK
      _ = outcome (Session.run State.interface more ⟨t.state, []⟩) := maps.outcome_eq trivial
      _ = _ := (continued.outcome_eq assumedS).symm
  · intro later k' s' ranK ranS
    have withinK : Assumed U k'.state := by rwa [ranK] at assumedK
    have withinS : Assumed U s'.state := by rwa [ranS] at assumedS
    rcases cloned.backward assumedK ranK with ⟨u', mapK, endK⟩
    rcases continued.backward assumedS ranS with ⟨t', mapS, endS⟩
    rcases maps.ok trivial mapS with ⟨u'', again, same⟩
    rw [mapK] at again
    cases again
    apply (endK.refines.trie.root_eq_iff trusted.free withinK endS.refines.trie withinS
      trusted.blankIn empty).mpr
    exact same.state.trie.symm

omit [Dictionary D] in
theorem quiet_of_commit {calls : List (Access S)} {answers : List (Answer S)}
    {s t : Session (DbState S D) DbSnapshot}
    (ran : Session.run interface (calls ++ [.commit]) s = .ok answers t) :
    t.state.journal = [] := by
  rcases Session.run_append ran with ⟨_, u, _, -, last⟩
  rw [Session.run, List.mapM_cons, List.mapM_nil] at last
  rcases bind_eq_ok.mp last with ⟨_, v, called, rest⟩
  cases rest
  rcases bind_eq_ok.mp called with ⟨_, w, committed, done⟩
  cases done
  simp only [Session.onState] at committed
  split at committed
  · rename_i run
    cases committed
    rcases bind_eq_ok.mp run with ⟨_, _, -, written⟩
    rcases bind_eq_ok.mp written with ⟨_, _, -, cleared⟩
    cases cleared
    rfl
  · cases committed

end Whole

end DbState

namespace Sample

open DbState

theorem clone_parts : ∃ answers, ∃ s : Session (DbState AddressRanges EphemDB) DbSnapshot,
    ∃ k later k' later' s', Session.run interface (early ++ [.commit]) ⟨opening, []⟩ = .ok answers s ∧
      clone s.state = .ok k ∧ Session.run interface accesses ⟨k, []⟩ = .ok later k' ∧
        Session.run interface accesses ⟨s.state, []⟩ = .ok later' s' ∧
          k'.state.trie.puts = s'.state.trie.puts ∧ Distinct ([] :: (heard [alice] s'.state).dedup) ∧
            s'.state.trie.puts.length < 2 ^ 32 := by
  have passes : RunPasses (Session.run interface (early ++ [.commit]) ⟨opening, []⟩) (fun _ s =>
      Passes (clone s.state) fun k => RunPasses (Session.run interface accesses ⟨k, []⟩) fun _ k' =>
        RunPasses (Session.run interface accesses ⟨s.state, []⟩) fun _ s' =>
          decide (k'.state.trie.puts = s'.state.trie.puts ∧
            Distinct ([] :: (heard [alice] s'.state).dedup) ∧ s'.state.trie.puts.length < 2 ^ 32)) =
              true := by
    decide +kernel
  rcases runPasses_iff.mp passes with ⟨answers, s, ran, passes⟩
  rcases passes_iff.mp passes with ⟨k, made, passes⟩
  rcases runPasses_iff.mp passes with ⟨later, k', ranK, passes⟩
  rcases runPasses_iff.mp passes with ⟨later', s', ranS, tested⟩
  exact ⟨answers, s, k, later, k', later', s', ran, made, ranK, ranS, of_decide_eq_true tested⟩

theorem clone_isolated_commit : ∃ answers, ∃ s : Session (DbState AddressRanges EphemDB) DbSnapshot,
    Session.run interface (early ++ [.commit]) ⟨opening, []⟩ = .ok answers s ∧
      ∃ k later k' s', clone s.state = .ok k ∧
        Session.run interface accesses ⟨k, []⟩ = .ok later k' ∧
          Session.run interface accesses ⟨s.state, []⟩ = .ok later s' ∧
            k'.state.trie.rootHash = s'.state.trie.rootHash ∧
              k'.state.trie.db.db.db = s.state.trie.db.db := by
  rcases clone_parts with
    ⟨answers, s, k, later, k', later', s', ran, made, ranK, ranS, same, distinct, few⟩
  have ends : ∀ access ∈ early ++ [.commit], access.Names {a | a ∈ [alice]} := by
    simp [early, Access.Names]
  have grows : Grows s.state s'.state := Session.grows_run (c := ⟨s.state, []⟩) ranS
  have trusted := trusted_opening distinct few grows
  have assumed : Assumed {v | v ∈ heard [alice] s'.state} s'.state :=
    (trusted_opening (c := s'.state) distinct few (refl_of Grows s'.state)).assumed
  have assumedK : Assumed {v | v ∈ heard [alice] s'.state} k'.state :=
    ⟨fun v put => assumed.1 v (same ▸ put), fun v => by rw [same]; exact assumed.2 v⟩
  rcases clone_isolated init_opening (Or.inr rfl) ends ran with ⟨isolated, faithful⟩
  rcases faithful (quiet_of_commit ran) trusted with ⟨k₀, made₀, -, -, answered⟩
  rw [made] at made₀
  cases made₀
  rcases answered accesses names_accesses (by rw [ranK]; exact assumedK)
    (by rw [ranS]; exact assumed) with ⟨outcomes, roots⟩
  rw [ranK, ranS] at outcomes
  cases outcomes
  have below := isolated k made accesses
  rw [ranK] at below
  exact ⟨answers, s, ran, k, later, k', s', made, ranK, ranS, roots later k' s' ranK ranS, below⟩

end Sample

end IPchain
