import IPchain.Securing

/-! The state over the database does what the state over a map of the accounts does, in any run
of calls, and any root that was committed reads the accounts of that time. -/

namespace IPchain

open Lib Platform

namespace MerkleTrie

variable [Platform] [Decoder] {D : Type} [Database D] {r : Store D → Store D → Prop} [Growth r]

theorem advances_getNode (depth : Nat) (node : Rlp) (key : List Nat) :
    Advances r (getNode depth node key : EStateM PyExc (Store D) Rlp) := by
  induction depth generalizing node key with
  | zero => exact Advances.raised _
  | succ depth ih =>
      refine Advances.bind (Advances.lift _) ?_
      intro type
      cases type with
      | blank => exact Advances.pure _
      | leaf path value => exact Advances.bind (Advances.lift _) fun _ => Advances.pure _
      | extension path sub =>
          refine Advances.bind (Advances.lift _) ?_
          intro curr
          apply Advances.ite
          · exact Advances.bind (advances_decodeToNode sub) fun _ => ih _ _
          · exact Advances.pure _
      | branch items =>
          cases key with
          | nil => exact Advances.lift _
          | cons d rest => exact Advances.bind (advances_child items d) fun _ => ih _ _

theorem advances_setRootHash (rootHash : Bytes) :
    Advances (Along r) (setRootHash rootHash : EStateM PyExc (MerkleTrie D) Unit) := by
  intro t
  rw [setRootHash]
  split
  · exact refl_of r t.toStore
  · split
    · exact refl_of r t.toStore
    · have step : r t.toStore _ := advances_decodeToNode (.bytes rootHash) t.toStore
      cases run : decodeToNode (.bytes rootHash) t.toStore with
      | ok node s =>
          rw [run] at step
          exact step
      | error e s =>
          rw [run] at step
          exact step

end MerkleTrie

open MerkleTrie (blankNode blankRoot hashed)

section Objects

variable {S : Type} [Pickle S]

def AccountObject.of (acct : CachedAccount S) : AccountObject :=
  ⟨acct.account.nonce, objectToBin acct.account.balance, acct.touched, acct.existentAtStart,
    acct.deleted⟩

def Param.attribute : Param S → Attribute
  | .nonce n => .nonce n
  | .balance b => .balance (objectToBin b)

def Undo.items (u : Undo S) : Reverts :=
  [(u.address, .touched u.touched), (u.address, u.preval.attribute)]

def objectsOf (cache : Cache S) : ObjectCache :=
  ⟨cache.entries.map fun entry => ⟨entry.1, .of entry.2⟩, by
    have keys := cache.nodupKeys
    rw [List.NodupKeys, List.keys, List.map_map]
    exact keys⟩

theorem entries_objectsOf (cache : Cache S) : (objectsOf cache).entries =
    cache.entries.map fun entry => ⟨entry.1, .of entry.2⟩ := rfl

theorem lookup_objectsOf (cache : Cache S) (a : Address) :
    (objectsOf cache).lookup a = (cache.lookup a).map AccountObject.of := by
  have rows (entries : List (Sigma fun _ : Address => CachedAccount S)) :
      (entries.map fun entry => (⟨entry.1, .of entry.2⟩ : Sigma fun _ : Address => AccountObject)).dlookup
        a = (entries.dlookup a).map AccountObject.of := by
    induction entries with
    | nil => rfl
    | cons entry rest ih =>
        rcases entry with ⟨b, acct⟩
        by_cases same : a = b
        · subst same
          rw [List.map_cons, List.dlookup_cons_eq, List.dlookup_cons_eq]
          rfl
        · rw [List.map_cons, List.dlookup_cons_ne _ _ same, List.dlookup_cons_ne _ _ same, ih]
  exact rows cache.entries

theorem objectsOf_insert (cache : Cache S) (a : Address) (acct : CachedAccount S) :
    objectsOf (cache.insert a acct) = (objectsOf cache).insert a (.of acct) := by
  apply AList.ext
  have erased (entries : List (Sigma fun _ : Address => CachedAccount S)) :
      (entries.kerase a).map (fun entry =>
        (⟨entry.1, .of entry.2⟩ : Sigma fun _ : Address => AccountObject)) =
      (entries.map fun entry => ⟨entry.1, .of entry.2⟩).kerase a := by
    induction entries with
    | nil => rfl
    | cons entry rest ih =>
        rcases entry with ⟨b, other⟩
        by_cases same : a = b
        · rw [List.map_cons, List.kerase_cons_eq same, List.kerase_cons_eq same]
        · rw [List.map_cons, List.kerase_cons_ne same, List.kerase_cons_ne same, List.map_cons, ih]
  rw [AList.entries_insert, entries_objectsOf, AList.entries_insert, List.map_cons, erased,
    entries_objectsOf]

theorem of_assign (acct : CachedAccount S) (p : Param S) :
    AccountObject.of { acct with account := p.assign acct.account, touched := true } =
      (Attribute.touched true).set (p.attribute.set (.of acct)) := by
  cases p with
  | nonce n => rfl
  | balance b => rfl

theorem attribute_current (acct : CachedAccount S) (p : Param S) :
    (p.current acct.account).attribute = p.attribute.get (.of acct) := by
  cases p with
  | nonce n => rfl
  | balance b => rfl

theorem touched_get (acct : CachedAccount S) (p : Param S) :
    (Attribute.touched true).get (p.attribute.set (.of acct)) = .touched acct.touched := by
  cases p with
  | nonce n => rfl
  | balance b => rfl

theorem undo_items (u : Undo S) (cache : Cache S) :
    undo (u.address, u.preval.attribute) (undo (u.address, .touched u.touched) (objectsOf cache)) =
      objectsOf (u.run cache) := by
  cases found : cache.lookup u.address with
  | none => simp only [undo, lookup_objectsOf, found, Option.map_none, Undo.run]
  | some acct =>
      simp only [undo, lookup_objectsOf, found, Option.map_some, AList.lookup_insert,
        AList.insert_insert, Undo.run, objectsOf_insert]
      congr 1
      cases u.preval with
      | nonce n => rfl
      | balance b => rfl

theorem length_items (journal : List (Undo S)) :
    (journal.flatMap Undo.items).length = 2 * journal.length := by
  induction journal with
  | nil => rfl
  | cons u rest ih =>
      rw [List.flatMap_cons, List.length_append, ih, List.length_cons]
      simp only [Undo.items, List.length_cons, List.length_nil]
      omega

theorem unwind_items (L : Nat) (journal : List (Undo S)) (cache : Cache S) :
    unwind (2 * L) (journal.flatMap Undo.items) (objectsOf cache) =
      ((rollback L journal cache).1.flatMap Undo.items, objectsOf (rollback L journal cache).2) := by
  induction journal generalizing cache with
  | nil => rfl
  | cons u rest ih =>
      have length := length_items rest
      simp only [List.flatMap_cons, Undo.items, List.cons_append, List.nil_append, unwind,
        List.length_cons, rollback]
      by_cases pops : L < rest.length + 1
      · rw [if_pos (by omega), if_pos (by omega), if_pos pops, undo_items]
        exact ih (u.run cache)
      · rw [if_neg (by omega), if_neg pops]
        rfl

omit [Pickle S] in
theorem mem_rollback (L : Nat) (journal : List (Undo S)) (cache : Cache S) (a : Address) :
    a ∈ (rollback L journal cache).2 ↔ a ∈ cache := by
  induction journal generalizing cache with
  | nil => rfl
  | cons u rest ih =>
      simp only [rollback]
      split
      · rw [ih, ← AList.lookup_isSome, u.lookup_run]
        split
        · rw [Option.isSome_map, AList.lookup_isSome]
        · rw [AList.lookup_isSome]
      · rfl

end Objects

namespace State

variable {S : Type} [IPSet S] {s : State S} {a : Address}

theorem getAndCacheAccount_cached {acct : CachedAccount S} (found : s.cache.lookup a = some acct) :
    s.getAndCacheAccount a = (acct, s) := by
  simp only [getAndCacheAccount]
  split
  · rename_i other present
    rw [found] at present
    cases present
    rfl
  · rename_i absent
    rw [found] at absent
    cases absent

theorem getAndCacheAccount_absent (found : s.cache.lookup a = none) :
    s.getAndCacheAccount a = (s.loadAccount a, s.cacheAccount a found) := by
  simp only [getAndCacheAccount]
  split
  · rename_i other present
    rw [found] at present
    cases present
  · rfl

end State

namespace DbState

variable {S D : Type} [IPSet S] [Pickle S] [Platform] [Decoder] [Database D] {α : Type}

class Spread (r : Store (RefcountDB D) → Store (RefcountDB D) → Prop) : Prop
    extends MerkleTrie.Growth r where
  put : ∀ s key value db, Database.put s.db.db key value = .ok db → r s ⟨⟨db⟩, s.puts⟩

class Drops [Forgets D] (r : Store (RefcountDB D) → Store (RefcountDB D) → Prop) : Prop
    extends Spread r where
  delete : ∀ s key db, Forgets.delete s.db.db key = .ok db → r s ⟨⟨db⟩, s.puts⟩

def Along (r : Store (RefcountDB D) → Store (RefcountDB D) → Prop) (c c' : DbState S D) : Prop :=
  MerkleTrie.Along r c.trie c'.trie

def Grows (c c' : DbState S D) : Prop := MerkleTrie.Extends c.trie c'.trie

omit [IPSet S] [Pickle S] [Platform] [Decoder] [Database D] in
instance : IsPreorder (DbState S D) Grows where
  refl c := List.suffix_refl c.trie.puts
  trans _ _ _ first second := List.IsSuffix.trans first second

instance : Spread (MerkleTrie.Grows : Store (RefcountDB D) → Store (RefcountDB D) → Prop) where
  put s _ _ _ _ := List.suffix_refl s.puts

instance [Forgets D] :
    Drops (MerkleTrie.Grows : Store (RefcountDB D) → Store (RefcountDB D) → Prop) where
  delete s _ _ _ := List.suffix_refl s.puts

section Advances

variable {r : Store (RefcountDB D) → Store (RefcountDB D) → Prop}

section Growth

variable [MerkleTrie.Growth r]

omit [IPSet S] [Pickle S] [Decoder] in
instance : IsPreorder (DbState S D) (Along r) where
  refl c := refl_of r c.trie.toStore
  trans _ _ _ first second := trans_of r first second

omit [Platform] [Database D] [IPSet S] [Pickle S] [Decoder] [MerkleTrie.Growth r] in
theorem advances_onTrie {x : EStateM PyExc (MerkleTrie (RefcountDB D)) α}
    (advances : Advances (MerkleTrie.Along r) x) :
    Advances (Along r) (onTrie x : EStateM PyExc (DbState S D) α) := by
  intro c
  have step := advances c.trie
  rw [onTrie]
  cases run : x c.trie with
  | ok a t =>
      rw [run] at step
      exact step
  | error e t =>
      rw [run] at step
      exact step

omit [IPSet S] [Pickle S] [Decoder] in
theorem advances_get : Advances (Along r) (get : EStateM PyExc (DbState S D) (DbState S D)) :=
  fun c => refl_of r c.trie.toStore

omit [IPSet S] [Pickle S] [Decoder] in
theorem advances_modify {f : DbState S D → DbState S D} (kept : ∀ c, (f c).trie = c.trie) :
    Advances (Along r) (modify f : EStateM PyExc (DbState S D) Unit) := by
  intro c
  change MerkleTrie.Along r c.trie (f c).trie
  rw [kept c]
  exact refl_of r c.trie.toStore

omit [IPSet S] [Pickle S] [Decoder] in
theorem advances_cacheAccount (a : Address) (o : AccountObject) :
    Advances (Along r) (cacheAccount a o : EStateM PyExc (DbState S D) Unit) :=
  advances_modify fun _ => rfl

omit [IPSet S] [Pickle S] [Decoder] in
theorem advances_setAndJournal (a : Address) (acct : AccountObject) (val : Attribute) :
    Advances (Along r) (setAndJournal a acct val : EStateM PyExc (DbState S D) AccountObject) :=
  fun c => refl_of r c.trie.toStore

omit [IPSet S] [Pickle S] [Decoder] in
theorem advances_setAuxVars (auxvars : AuxVars) :
    Advances (Along r) (setAuxVars auxvars : EStateM PyExc (DbState S D) Unit) :=
  advances_modify fun _ => rfl

omit [IPSet S] [Pickle S] [Decoder] in
theorem advances_clear : Advances (Along r) (clear : EStateM PyExc (DbState S D) Unit) :=
  advances_modify fun _ => rfl

omit [IPSet S] [Pickle S] in
theorem advances_revert (h : DbSnapshot) :
    Advances (Along r) (revert h : EStateM PyExc (DbState S D) Unit) := by
  refine Advances.bind (advances_modify fun _ => rfl) fun _ => ?_
  refine Advances.bind ?_ fun _ => advances_setAuxVars h.auxvars
  refine Advances.bind advances_get fun c => ?_
  apply Advances.ite
  · apply Advances.ite
    · refine Advances.bind (advances_onTrie (MerkleTrie.advances_setRootHash _)) fun _ => ?_
      exact advances_modify fun _ => rfl
    · exact Advances.raised _
  · exact Advances.pure _

end Growth

section Spread

variable [Spread r]

omit [IPSet S] [Pickle S] [Decoder] in
theorem advances_dbPut (key value : Bytes) :
    Advances (Along r) (dbPut key value : EStateM PyExc (DbState S D) Unit) := by
  intro c
  rw [dbPut]
  split
  · rename_i db put
    exact Spread.put c.trie.toStore key value db put
  · exact refl_of r c.trie.toStore

theorem advances_loadAccount (a : Address) :
    Advances (Along r) (loadAccount a : EStateM PyExc (DbState S D) AccountObject) := by
  have reads : Advances (MerkleTrie.Along r)
      (SecureTrie.get a.bytes : EStateM PyExc (MerkleTrie (RefcountDB D)) Rlp) :=
    MerkleTrie.advances_reading fun node => MerkleTrie.advances_getNode _ node _
  refine Advances.bind (advances_onTrie reads) fun rlpdata => ?_
  apply Advances.ite
  · exact Advances.lift _
  · exact Advances.bind (advances_dbPut _ _) fun _ => Advances.pure _

theorem advances_getAndCacheAccount (a : Address) :
    Advances (Along r) (getAndCacheAccount a : EStateM PyExc (DbState S D) AccountObject) := by
  refine Advances.bind advances_get ?_
  intro c
  split
  · exact Advances.pure _
  · refine Advances.bind (advances_loadAccount a) fun o => ?_
    exact Advances.bind (advances_cacheAccount a o) fun _ => Advances.pure _

end Spread

def assign (a : Address) (val : AccountObject → Attribute) : EStateM PyExc (DbState S D) Unit := do
  let acct ← getAndCacheAccount a
  let acct ← setAndJournal a acct (val acct)
  let _ ← setAndJournal a acct (.touched true)
  return ()

theorem advances_assign [Spread r] (a : Address) (val : AccountObject → Attribute) :
    Advances (Along r) (assign a val : EStateM PyExc (DbState S D) Unit) := by
  refine Advances.bind (advances_getAndCacheAccount a) fun acct => ?_
  refine Advances.bind (advances_setAndJournal a acct _) fun acct' => ?_
  exact Advances.bind (advances_setAndJournal a acct' _) fun _ => Advances.pure _

variable [Forgets D] [Drops r]

omit [IPSet S] [Pickle S] [Decoder] in
theorem advances_dbDelete (key : Bytes) :
    Advances (Along r) (dbDelete key : EStateM PyExc (DbState S D) Unit) := by
  intro c
  rw [dbDelete]
  split
  · rename_i db deleted
    exact Drops.delete c.trie.toStore key db deleted
  · split
    · exact refl_of r c.trie.toStore
    · exact refl_of r c.trie.toStore

omit [IPSet S] [Pickle S] in
theorem advances_commitAccount (addr : Address) (acct : AccountObject) :
    Advances (Along r) (commitAccount addr acct : EStateM PyExc (DbState S D) Unit) := by
  apply Advances.ite
  · apply Advances.ite
    · refine Advances.bind (advances_onTrie (SecureTrie.advances_update _ _)) fun _ => ?_
      refine Advances.bind advances_get fun c => ?_
      exact Advances.ite (advances_dbPut _ _) (Advances.pure _)
    · have deletes : Advances (MerkleTrie.Along r)
          (SecureTrie.delete addr.bytes : EStateM PyExc (MerkleTrie (RefcountDB D)) Unit) :=
        (MerkleTrie.Op.delete (sha3 addr.bytes)).advances_run
      refine Advances.bind (advances_onTrie deletes) fun _ => ?_
      refine Advances.bind advances_get fun c => ?_
      exact Advances.ite (advances_dbDelete _) (Advances.pure _)
  · exact Advances.pure _

omit [IPSet S] [Pickle S] in
theorem advances_commitAll (entries : List (Sigma fun _ : Address => AccountObject)) :
    Advances (Along r) (commitAll entries : EStateM PyExc (DbState S D) Unit) := by
  induction entries with
  | nil => exact Advances.pure _
  | cons entry rest ih => exact Advances.bind (advances_commitAccount _ _) fun _ => ih

omit [IPSet S] [Pickle S] in
theorem advances_commit : Advances (Along r) (commit : EStateM PyExc (DbState S D) Unit) := by
  refine Advances.bind advances_get fun c => ?_
  exact Advances.bind (advances_commitAll _) fun _ => advances_clear

end Advances

structure Refines (z : Bytes) (U : Set Bytes) [Dictionary D] (c : DbState S D) (s : State S) :
    Prop where
  auxvars : c.toAuxVars = s.toAuxVars
  cache : c.cache = objectsOf s.cache
  journal : c.journal = s.journal.flatMap Undo.items
  trie : SecureTrie.Keeps z U c.trie s.trie
  cached : ∀ a ∈ s.cache, a.bytes ∈ U

variable [Dictionary D] {z : Bytes} {U : Set Bytes} {c c' : DbState S D} {s : State S} {a : Address}

def Assumed (U : Set Bytes) (c : DbState S D) : Prop := MerkleTrie.Within U c.trie.toStore

omit [IPSet S] [Pickle S] [Decoder] in
theorem Assumed.of_grows (grows : Grows c c') (assumed : Assumed U c') : Assumed U c :=
  MerkleTrie.Within.of_grows grows assumed

omit [IPSet S] [Pickle S] [Decoder] in
theorem assures_bind {β : Type} {x : EStateM PyExc (DbState S D) α}
    {g : α → EStateM PyExc (DbState S D) β} {Q : α → DbState S D → Prop}
    {T : β → DbState S D → Prop} (later : ∀ a, Advances Grows (g a))
    (first : Assures (Assumed U) x c Q)
    (next : ∀ a c', Assumed U c' → Q a c' → Assures (Assumed U) (g a) c' T) :
    Assures (Assumed U) (x >>= g) c T :=
  Assures.bind (fun _ _ => Assumed.of_grows) later first next

omit [IPSet S] [Pickle S] [Decoder] in
theorem onTrie_assures {x : EStateM PyExc (MerkleTrie (RefcountDB D)) α}
    {Q : α → MerkleTrie (RefcountDB D) → Prop}
    (assures : Assures (MerkleTrie.Assumed U) x c.trie Q) :
    Assures (Assumed U) (onTrie x) c fun a c' => ∃ t, c' = { c with trie := t } ∧ Q a t := by
  intro assumed
  rw [onTrie] at assumed ⊢
  cases run : x c.trie with
  | ok a t =>
      rw [run] at assumed
      rcases assures (by rw [run]; exact assumed) with ⟨b, t', same, post⟩
      rw [run] at same
      cases same
      exact ⟨a, _, rfl, t, rfl, post⟩
  | error e t =>
      rw [run] at assumed
      rcases assures (by rw [run]; exact assumed) with ⟨b, t', same, -⟩
      rw [run] at same
      cases same

omit [IPSet S] [Pickle S] [Decoder] in
theorem dbPut_run {key : Bytes} (apart : ∀ v ∈ U, sha3 v ≠ key)
    (sound : MerkleTrie.Sound U c.trie.toStore) (value : Bytes) :
    ∃ db, dbPut key value c = .ok () { c with trie := { c.trie with db := db } } ∧
      MerkleTrie.Sound U ⟨db, c.trie.puts⟩ := by
  rcases Dictionary.put_run c.trie.db.db key value with ⟨db, run, reads⟩
  refine ⟨⟨db⟩, ?_, ?_⟩
  · rw [dbPut, run]
  · intro v member
    change Database.lookup db (sha3 v) = _
    rw [reads, if_neg (apart v member)]
    exact sound v member

omit [IPSet S] [Decoder] in
theorem dbPut_assures {key : Bytes} (apart : ∀ v ∈ U, sha3 v ≠ key) {accounts : Accounts S}
    (keeps : SecureTrie.Keeps z U c.trie accounts) (value : Bytes) :
    Assures (Assumed U) (dbPut key value) c fun _ c' =>
      ∃ t, c' = { c with trie := t } ∧ SecureTrie.Keeps z U t accounts := by
  have sound : MerkleTrie.Sound U c.trie.toStore := by
    rcases keeps with ⟨tree, m, opened, -⟩
    exact opened.sound
  rcases dbPut_run apart sound value with ⟨db, run, sound'⟩
  apply Assures.of_run run
  intro _
  exact ⟨_, rfl, keeps.later (List.suffix_refl _) sound' rfl rfl⟩

section Calls

variable (free : CollisionFree U) (nothing : ∀ v ∈ U, sha3 v ≠ sha3 [])

include free nothing

theorem loadAccount_assures (refines : Refines z U c s) (here : a.bytes ∈ U) :
    Assures (Assumed U) (loadAccount a) c fun o c' =>
      o = .of (s.loadAccount a) ∧ Refines z U c' s := by
  intro assumed
  have within := Assumed.of_grows (advances_loadAccount a c) assumed
  have read := refines.trie.get_run free within here
  have fetched : onTrie (SecureTrie.get a.bytes) c =
      .ok (.bytes (((s.trie.lookup a).map recordOf).getD [])) c := by
    rw [onTrie, read]
  have unfolded := bind_of_ok fetched fun rlpdata =>
    (if rlpdata ≠ blankNode then lift (decodeAccount rlpdata) else blankAccount :
      EStateM PyExc (DbState S D) AccountObject)
  have program : loadAccount a c = _ := unfolded
  rw [program] at assumed ⊢
  cases found : s.trie.lookup a with
  | some account =>
      have short := refines.trie.short free within found
      have record : Rlp.bytes (recordOf account) ≠ blankNode := by
        intro same
        exact recordOf_ne_nil account (Rlp.bytes.inj same)
      simp only [Option.map_some, Option.getD_some, if_pos record, decodeAccount_recordOf short]
      refine ⟨_, c, rfl, ?_, refines⟩
      rw [State.loadAccount, found]
      rfl
  | none =>
      rw [found] at assumed
      have blank : Assures (Assumed U) (blankAccount : EStateM PyExc (DbState S D) AccountObject) c
          fun o c' => o = .of (s.loadAccount a) ∧ Refines z U c' s := by
        apply assures_bind (fun _ => Advances.pure _) (dbPut_assures nothing refines.trie [])
        rintro _ c' - ⟨t, rfl, keeps⟩
        apply Assures.pure
        intro _
        refine ⟨?_, refines.auxvars, refines.cache, refines.journal, keeps, refines.cached⟩
        rw [State.loadAccount, found]
        rfl
      exact blank assumed

theorem getAndCacheAccount_assures (refines : Refines z U c s) (here : a.bytes ∈ U) :
    Assures (Assumed U) (getAndCacheAccount a) c fun o c' =>
      o = .of (s.getAndCacheAccount a).1 ∧ Refines z U c' (s.getAndCacheAccount a).2 := by
  have looked := lookup_objectsOf s.cache a
  rw [← refines.cache] at looked
  intro assumed
  simp only [getAndCacheAccount] at assumed ⊢
  rw [bind_of_ok (show (get : EStateM PyExc (DbState S D) (DbState S D)) c = .ok c c from rfl)]
    at assumed ⊢
  cases found : s.cache.lookup a with
  | some acct =>
      rw [found] at looked
      simp only [looked, Option.map_some, State.getAndCacheAccount_cached found]
      exact ⟨_, c, rfl, rfl, refines⟩
  | none =>
      rw [found] at looked
      simp only [looked, Option.map_none] at assumed ⊢
      have loaded := loadAccount_assures free nothing refines here
      have cached : Assures (Assumed U) (do
          let o ← loadAccount a
          cacheAccount a o
          return o : EStateM PyExc (DbState S D) AccountObject) c fun o c' =>
          o = .of (s.getAndCacheAccount a).1 ∧ Refines z U c' (s.getAndCacheAccount a).2 := by
        apply assures_bind (fun o => Advances.bind (advances_cacheAccount a o) fun _ =>
          Advances.pure _) loaded
        rintro o c' - ⟨rfl, refines⟩
        apply Assures.of_run rfl
        intro _
        rw [State.getAndCacheAccount_absent found]
        refine ⟨rfl, refines.auxvars, ?_, refines.journal, refines.trie, ?_⟩
        · change c'.cache.insert a _ = objectsOf (s.cache.insert a (s.loadAccount a))
          rw [objectsOf_insert, refines.cache]
        · intro b member
          rcases (AList.mem_insert _).mp member with rfl | earlier
          · exact here
          · exact refines.cached b earlier
      exact cached assumed

theorem getNonce_assures (refines : Refines z U c s) (here : a.bytes ∈ U) :
    Assures (Assumed U) (getNonce a) c fun n c' =>
      n = (s.getNonce a).1 ∧ Refines z U c' (s.getNonce a).2 := by
  apply assures_bind (fun _ => Advances.pure _) (getAndCacheAccount_assures free nothing refines here)
  rintro o c' - ⟨rfl, refines⟩
  exact Assures.pure fun _ => ⟨rfl, refines⟩

theorem getBalance_assures (refines : Refines z U c s) (here : a.bytes ∈ U) :
    Assures (Assumed U) (getBalance a) c fun b c' =>
      b = (s.getBalance a).1 ∧ Refines z U c' (s.getBalance a).2 := by
  apply assures_bind (fun _ => Advances.lift _)
    (getAndCacheAccount_assures free nothing refines here)
  rintro o c' - ⟨rfl, refines⟩
  have read := binToObject_objectToBin (s.getAndCacheAccount a).1.account.balance
  rw [AccountObject.of, read]
  exact Assures.pure fun _ => ⟨rfl, refines⟩

theorem assign_assures {p : Account S → Param S} {val : AccountObject → Attribute}
    (same : ∀ acct : CachedAccount S, val (.of acct) = (p acct.account).attribute)
    (refines : Refines z U c s) (here : a.bytes ∈ U) :
    Assures (Assumed U) (assign a val) c fun _ c' => Refines z U c' (s.setParam a p) := by
  apply assures_bind (fun acct => Advances.bind (advances_setAndJournal a acct _) fun acct' =>
    Advances.bind (advances_setAndJournal a acct' _) fun _ => Advances.pure _)
    (getAndCacheAccount_assures free nothing refines here)
  rintro o c' - ⟨rfl, refines⟩
  apply Assures.of_run rfl
  intro _
  have acct := same (s.getAndCacheAccount a).1
  refine ⟨?_, ?_, ?_, refines.trie, ?_⟩
  · rw [State.toAuxVars_setParam, ← s.toAuxVars_getAndCacheAccount a]
    exact refines.auxvars
  · change (c'.cache.insert a _).insert a _ = objectsOf ((s.getAndCacheAccount a).2.cache.insert a _)
    rw [AList.insert_insert, objectsOf_insert, of_assign, refines.cache, acct]
  · change (a, Attribute.get _ _) :: (a, Attribute.get _ _) :: c'.journal = _
    rw [acct, touched_get, ← attribute_current, refines.journal]
    rfl
  · intro b member
    rcases (AList.mem_insert _).mp member with rfl | earlier
    · exact here
    · exact refines.cached b earlier

end Calls

omit [IPSet S] [Pickle S] [Decoder] [Database D] [Dictionary D] in
theorem sha3_ne_addressKey (v : Bytes) (a : Address) : sha3 v ≠ addressKey a := by
  intro same
  have lengths := congrArg List.length same
  rw [sha3_length, addressKey, List.length_append, a.sized] at lengths
  cases lengths

omit [IPSet S] [Decoder] in
theorem putRecord_assures {accounts : Accounts S} (keeps : SecureTrie.Keeps z U c.trie accounts)
    (data : Bytes) : Assures (Assumed U) (putRecord a data) c fun _ c' =>
      ∃ t, c' = { c with trie := t } ∧ SecureTrie.Keeps z U t accounts := by
  have program : putRecord a data c =
      (if c.executingOnHead then dbPut (addressKey a) data else pure () :
        EStateM PyExc (DbState S D) Unit) c := rfl
  rw [Assures, program]
  split
  · exact dbPut_assures (fun v _ => sha3_ne_addressKey v a) keeps data
  · exact Assures.pure fun _ => ⟨c.trie, rfl, keeps⟩

variable [Forgets D]

section Commits

variable (free : CollisionFree U)

include free

omit [IPSet S] in
theorem commitAccount_assures {accounts : Accounts S} {acct : CachedAccount S}
    (kept : acct.touched = false → acct.deleted = false)
    (keeps : SecureTrie.Keeps z U c.trie accounts) :
    Assures (Assumed U) (commitAccount a (.of acct)) c fun _ c' =>
      ∃ t, c' = { c with trie := t } ∧
        SecureTrie.Keeps z U t (IPchain.commitAccount accounts ⟨a, acct⟩) := by
  cases touched : acct.touched with
  | false =>
      have skipped : commitAccount a (.of acct) c = (pure () : EStateM PyExc (DbState S D) Unit) c := by
        simp only [commitAccount, AccountObject.of, touched, kept touched, Bool.or_self,
          Bool.false_eq_true, if_false]
      have same : IPchain.commitAccount accounts ⟨a, acct⟩ = accounts := by
        simp [IPchain.commitAccount, touched, kept touched]
      rw [Assures, skipped, same]
      exact Assures.pure fun _ => ⟨c.trie, rfl, keeps⟩
  | true =>
      have written : commitAccount a (.of acct) c = (do
          onTrie (SecureTrie.update a.bytes (recordOf acct.account))
          putRecord a (recordOf acct.account) : EStateM PyExc (DbState S D) Unit) c := by
        simp only [commitAccount, AccountObject.of, AccountObject.exists, touched, Bool.true_or,
          if_true, Bool.not_true, Bool.and_false, Bool.false_eq_true, if_false]
        rfl
      have same : IPchain.commitAccount accounts ⟨a, acct⟩ = accounts.insert a acct.account := by
        simp [IPchain.commitAccount, CachedAccount.exists, touched]
      rw [Assures, written, same]
      have advances (_ : Unit) : Advances Grows
          (putRecord a (recordOf acct.account) : EStateM PyExc (DbState S D) Unit) :=
        Advances.bind advances_get fun _ => Advances.ite (advances_dbPut _ _) (Advances.pure _)
      apply assures_bind advances (onTrie_assures (keeps.update_spec free a acct.account))
      rintro _ c' - ⟨t, rfl, keeps⟩
      apply (putRecord_assures keeps (recordOf acct.account)).mono
      rintro _ c'' - ⟨t', rfl, keeps⟩
      exact ⟨t', rfl, keeps⟩

omit [IPSet S] in
theorem commitAll_assures {accounts : Accounts S}
    {entries : List (Sigma fun _ : Address => CachedAccount S)}
    (kept : ∀ entry ∈ entries, entry.2.touched = false → entry.2.deleted = false)
    (keeps : SecureTrie.Keeps z U c.trie accounts) :
    Assures (Assumed U) (commitAll (entries.map fun entry => ⟨entry.1, .of entry.2⟩)) c fun _ c' =>
      ∃ t, c' = { c with trie := t } ∧
        SecureTrie.Keeps z U t (entries.foldl IPchain.commitAccount accounts) := by
  induction entries generalizing c accounts with
  | nil => exact Assures.pure fun _ => ⟨c.trie, rfl, keeps⟩
  | cons entry rest ih =>
      rcases List.forall_mem_cons.mp kept with ⟨first, later⟩
      apply assures_bind (fun _ => advances_commitAll _) (commitAccount_assures free first keeps)
      rintro _ c' - ⟨t, rfl, keeps⟩
      apply (ih later keeps).mono
      rintro _ c'' - ⟨t', rfl, keeps⟩
      exact ⟨t', rfl, keeps⟩

theorem commit_assures (refines : Refines z U c s) :
    Assures (Assumed U) commit c fun _ c' => Refines z U c' s.commit := by
  have kept : ∀ entry ∈ s.cache.entries, entry.2.touched = false → entry.2.deleted = false :=
    fun entry member untouched => (s.undoable.coherent entry.1 entry.2
      (AList.mem_lookup_iff.mpr member) untouched).1
  have program : commit c = (do
      commitAll (s.cache.entries.map fun entry => ⟨entry.1, .of entry.2⟩)
      clear : EStateM PyExc (DbState S D) Unit) c := by
    rw [← entries_objectsOf, ← refines.cache]
    rfl
  rw [Assures, program]
  apply assures_bind (fun _ => advances_clear) (commitAll_assures free kept refines.trie)
  rintro _ c' - ⟨t, rfl, keeps⟩
  apply Assures.of_run rfl
  intro _
  exact ⟨refines.auxvars, rfl, rfl, keeps, fun a member => absurd member (AList.notMem_empty a)⟩

end Commits

structure Taken (z : Bytes) (U : Set Bytes) (t : MerkleTrie (RefcountDB D)) (h : DbSnapshot)
    (h' : Snapshot S) : Prop where
  auxvars : h.auxvars = h'.auxvars
  journalLength : h.journalLength = 2 * h'.journalLength
  root : ∃ t', t'.rootHash = h.rootHash ∧ SecureTrie.Keeps z U t' h'.trie ∧ MerkleTrie.Extends t' t

omit [Decoder] [Forgets D] in
theorem Taken.later {t t' : MerkleTrie (RefcountDB D)} {h : DbSnapshot} {h' : Snapshot S}
    (taken : Taken z U t h h') (extend : MerkleTrie.Extends t t') : Taken z U t' h h' := by
  rcases taken.root with ⟨u, root, keeps, earlier⟩
  exact ⟨taken.auxvars, taken.journalLength, u, root, keeps,
    trans_of MerkleTrie.Extends earlier extend⟩

omit [Decoder] [Forgets D] in
theorem taken_snapshot (refines : Refines z U c s) :
    Taken z U c.trie ⟨c.trie.rootHash, c.journal.length, c.toAuxVars⟩ s.snapshot where
  auxvars := refines.auxvars
  journalLength := by
    rw [refines.journal, length_items]
    rfl
  root := ⟨c.trie, rfl, refines.trie, refl_of MerkleTrie.Extends c.trie⟩

section Reverts

omit [IPSet S] [Pickle S] [Platform] [Decoder] [Database D] [Dictionary D] [Forgets D] in
theorem unwind_length (L : Nat) (journal : Reverts) (cache : ObjectCache) :
    (unwind L journal cache).1.length ≤ L := by
  induction journal generalizing cache with
  | nil => exact Nat.zero_le L
  | cons item rest ih =>
      simp only [unwind]
      split
      · exact ih _
      · rename_i short
        exact Nat.le_of_not_lt short

def popped (c : DbState S D) (L : Nat) : DbState S D :=
  { c with
    journal := (unwind L c.journal c.cache).1
    cache := (unwind L c.journal c.cache).2 }

omit [IPSet S] [Pickle S] [Dictionary D] [Forgets D] in
theorem revert_run (h : DbSnapshot) (c : DbState S D) :
    revert h c = (do
      resetRoot h
      setAuxVars h.auxvars : EStateM PyExc (DbState S D) Unit) (c.popped h.journalLength) := rfl

section Roots

variable {h : DbSnapshot}

omit [IPSet S] [Pickle S] [Dictionary D] [Forgets D] in
theorem resetRoot_same (same : h.rootHash = c.trie.rootHash) : resetRoot h c = .ok () c :=
  congrFun (if_neg (not_not.mpr same)) c

omit [IPSet S] [Pickle S] [Dictionary D] [Forgets D] in
theorem resetRoot_other {t : MerkleTrie (RefcountDB D)} (differs : h.rootHash ≠ c.trie.rootHash)
    (start : h.journalLength = 0) (run : MerkleTrie.setRootHash h.rootHash c.trie = .ok () t) :
    resetRoot h c = .ok () { c with trie := t, cache := ∅ } := by
  have set : onTrie (MerkleTrie.setRootHash h.rootHash) c = .ok () { c with trie := t } := by
    rw [onTrie, run]
  have program : resetRoot h c = (do
      onTrie (MerkleTrie.setRootHash h.rootHash)
      dropCache : EStateM PyExc (DbState S D) Unit) c :=
    (congrFun (if_pos differs) c).trans (congrFun (if_pos start) c)
  rw [program, bind_of_ok set]
  rfl

omit [IPSet S] [Pickle S] [Dictionary D] [Forgets D] in
theorem resetRoot_stuck (differs : h.rootHash ≠ c.trie.rootHash) (later : h.journalLength ≠ 0) :
    resetRoot h c = .error ⟨.assertionError, ""⟩ c :=
  (congrFun (if_pos differs) c).trans (congrFun (if_neg later) c)

end Roots

omit [Decoder] [Forgets D] in
theorem Refines.sound (refines : Refines z U c s) : MerkleTrie.Sound U c.trie.toStore := by
  rcases refines.trie with ⟨tree, m, opened, -⟩
  exact opened.sound

omit [Decoder] [Forgets D] in
theorem Refines.unwind (refines : Refines z U c s) (L : Nat) :
    Refines z U (c.popped (2 * L)) (s.unwind L) := by
  have unwound := unwind_items L s.journal s.cache
  rw [← refines.journal, ← refines.cache] at unwound
  refine ⟨refines.auxvars, ?_, ?_, refines.trie, ?_⟩
  · exact congrArg Prod.snd unwound
  · exact congrArg Prod.fst unwound
  · exact fun a member => refines.cached a ((mem_rollback L s.journal s.cache a).mp member)

variable (free : CollisionFree U) (blankIn : blankNode.encode ∈ U) (empty : z = [] ∨ z = blankRoot)

include free blankIn empty

omit [Forgets D] in
theorem revert_mirrors {h : DbSnapshot} {h' : Snapshot S} (refines : Refines z U c s)
    (taken : Taken z U c.trie h h') :
    Mirrors (Assumed U) (Refines z U) (revert h) (State.revert h') c s := by
  intro assumed
  have within := Assumed.of_grows (advances_revert h c) assumed
  rcases taken.root with ⟨t, root, keeps, extend⟩
  have before : MerkleTrie.Within U t.toStore := MerkleTrie.Within.of_grows extend within
  have roots := keeps.root_eq_iff free before refines.trie within blankIn empty
  rw [root] at roots
  have popped := refines.unwind h'.journalLength
  rw [← taken.journalLength] at popped
  rw [revert_run] at assumed ⊢
  simp only [State.revert]
  by_cases same : h'.trie = (s.unwind h'.journalLength).trie
  · have equal : h.rootHash = (c.popped h.journalLength).trie.rootHash := roots.mpr same
    rw [if_pos same, bind_of_ok (resetRoot_same equal)]
    exact ⟨_, rfl, taken.auxvars, popped.cache, popped.journal, popped.trie,
      popped.cached⟩
  · have differs : h.rootHash ≠ (c.popped h.journalLength).trie.rootHash :=
      fun equal => same (roots.mp equal)
    rw [if_neg same]
    by_cases first : h'.journalLength = 0
    · have start : h.journalLength = 0 := by rw [taken.journalLength, first]
      rw [if_pos first]
      rcases keeps.setRootHash_run free within extend refines.sound blankIn empty with
        ⟨u, run, -, -, keeps'⟩
      rw [root] at run
      rw [bind_of_ok (resetRoot_other differs start run)]
      refine ⟨_, rfl, taken.auxvars, rfl, ?_, keeps', fun a member =>
        absurd member (AList.notMem_empty a)⟩
      have nothing : (c.popped h.journalLength).journal.length ≤ 0 := by
        rw [start]
        exact unwind_length 0 c.journal c.cache
      exact List.eq_nil_of_length_eq_zero (Nat.le_zero.mp nothing)
    · have later : h.journalLength ≠ 0 := by
        rw [taken.journalLength]
        omega
      rw [if_neg first]
      exact ⟨_, bind_of_error (resetRoot_stuck differs later) _⟩

end Reverts

end DbState

end IPchain
