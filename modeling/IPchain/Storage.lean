import IPchain.Roots
import IPchain.Copies
import IPchain.Parser

/-! state.py with the trie of the accounts, the database below it, and the pickled balances. -/

namespace IPchain

open Lib Platform

class Pickle (S : Type) where
  dumps : Balance S → Bytes
  loads : Bytes → Except PyExc (Balance S)
  loads_dumps : ∀ b, loads (dumps b) = .ok b

section Pickles

variable {S : Type} [Pickle S]

def objectToBin (o : Balance S) : Bytes := encodeHex (Pickle.dumps o)

def binToObject (b : Bytes) : Except PyExc (Balance S) := do
  let data ← decodeHex b
  Pickle.loads data

end Pickles

class Forgets (D : Type) where
  delete : D → Bytes → Except PyExc D

instance : Forgets EphemDB where
  delete d key := if key ∈ d.db then .ok ⟨d.db.erase key⟩ else .error ⟨.keyError, ""⟩

instance {D : Type} : Forgets (OverlayDB D) where
  delete d key := .ok { d with overlay := d.overlay.insert key none }

/-- An `Account`. The storage trie of an account is never written. -/
structure AccountObject where
  nonce : Nat
  balance : Bytes
  touched : Bool
  existentAtStart : Bool
  deleted : Bool

def AccountObject.serialize (acct : AccountObject) : Rlp :=
  .list [.int acct.nonce, .bytes acct.balance]

def AccountObject.exists (acct : AccountObject) : Bool :=
  if acct.deleted && !acct.touched then false
  else if acct.touched then true
  else acct.existentAtStart

def deserializeInt : Rlp → Except PyExc Nat
  | .bytes (0 :: _) => .error ⟨.exception, "Invalid serialization (not minimal length)"⟩
  | .bytes serial => .ok (bytesToNat serial)
  | .list _ => .error ⟨.typeError, ""⟩

/-- `rlp.decode(rlpdata, Account, ...)`. -/
def decodeAccount [Decoder] : Rlp → Except PyExc AccountObject
  | .bytes rlpdata => do
      match ← Decoder.decode rlpdata with
      | .list [nonce, .bytes balance] => do
          let nonce ← deserializeInt nonce
          return ⟨nonce, balance, false, true, false⟩
      | _ => .error ⟨.exception, "Serializable has wrong fields"⟩
  | .list _ => .error ⟨.exception, "Can only decode RLP bytes"⟩

def accountInitialNonce : Nat := 0

/-- The attribute that `set_and_journal` assigns, with its value. -/
inductive Attribute where
  | nonce (n : Nat)
  | balance (b : Bytes)
  | touched (t : Bool)

namespace Attribute

def set (acct : AccountObject) : Attribute → AccountObject
  | .nonce n => { acct with nonce := n }
  | .balance b => { acct with balance := b }
  | .touched t => { acct with touched := t }

def get (acct : AccountObject) : Attribute → Attribute
  | .nonce _ => .nonce acct.nonce
  | .balance _ => .balance acct.balance
  | .touched _ => .touched acct.touched

end Attribute

abbrev ObjectCache := AList fun _ : Address => AccountObject

abbrev Reverts := List (Address × Attribute)

def undo (item : Address × Attribute) (cache : ObjectCache) : ObjectCache :=
  match cache.lookup item.1 with
  | none => cache
  | some acct => cache.insert item.1 (item.2.set acct)

def unwind (L : Nat) : Reverts → ObjectCache → Reverts × ObjectCache
  | [], cache => ([], cache)
  | item :: rest, cache =>
      if L < rest.length + 1 then unwind L rest (undo item cache) else (item :: rest, cache)

namespace SecureTrie

open MerkleTrie

variable [Platform] [Decoder] {D : Type} [Database D]

def putKey (k : Bytes) : EStateM PyExc (MerkleTrie D) Unit := reading fun _ => store k

def update (k v : Bytes) : EStateM PyExc (MerkleTrie D) Unit := do
  putKey k
  MerkleTrie.update (sha3 k) v

def get (k : Bytes) : EStateM PyExc (MerkleTrie D) Rlp := MerkleTrie.get (sha3 k)

def delete (k : Bytes) : EStateM PyExc (MerkleTrie D) Unit := MerkleTrie.delete (sha3 k)

def toDict (depth : Nat) : EStateM PyExc (MerkleTrie D) Rows := do
  let rows ← MerkleTrie.toDict depth
  rows.entries.foldlM (fun o row => do
    let k ← reading fun _ => fetch row.1
    return o.insert k row.2) ∅

end SecureTrie

structure DbState (S D : Type) extends AuxVars where
  trie : MerkleTrie (RefcountDB D)
  cache : ObjectCache
  journal : Reverts
  executingOnHead : Bool

structure DbSnapshot where
  rootHash : Bytes
  journalLength : Nat
  auxvars : AuxVars

def addressKey (a : Address) : Bytes :=
  [0x61, 0x64, 0x64, 0x72, 0x65, 0x73, 0x73, 0x3a] ++ a.bytes

def stateDefaults : AuxVars := ⟨0, 0, List.replicate 20 0, 0, []⟩

namespace DbState

variable {S D : Type} [IPSet S] [Pickle S] [Platform] [Decoder] [Database D] [Forgets D]
  {α : Type}

def onTrie (x : EStateM PyExc (MerkleTrie (RefcountDB D)) α) : EStateM PyExc (DbState S D) α :=
  fun s =>
    match x s.trie with
    | .ok a t => .ok a { s with trie := t }
    | .error e t => .error e { s with trie := t }

/-- `self.db.put(key, value)`, without a reference count. -/
def dbPut (key value : Bytes) : EStateM PyExc (DbState S D) Unit := fun s =>
  match Database.put s.trie.db.db key value with
  | .ok db => .ok () { s with trie := { s.trie with db := ⟨db⟩ } }
  | .error e => .error e s

/-- `try: self.db.delete(key)` with `except KeyError: pass`. -/
def dbDelete (key : Bytes) : EStateM PyExc (DbState S D) Unit := fun s =>
  match Forgets.delete s.trie.db.db key with
  | .ok db => .ok () { s with trie := { s.trie with db := ⟨db⟩ } }
  | .error e => if e.isInstance .keyError then .ok () s else .error e s

/-- `Account.blank_account`, which puts the empty string under its hash. -/
def blankAccount : EStateM PyExc (DbState S D) AccountObject := do
  dbPut (sha3 []) []
  return ⟨accountInitialNonce, objectToBin (Balance.blank : Balance S), false, false, false⟩

def loadAccount (a : Address) : EStateM PyExc (DbState S D) AccountObject := do
  let rlpdata ← onTrie (SecureTrie.get a.bytes)
  if rlpdata ≠ MerkleTrie.blankNode then lift (decodeAccount rlpdata) else blankAccount

def cacheAccount (a : Address) (o : AccountObject) : EStateM PyExc (DbState S D) Unit :=
  modify fun s => { s with cache := s.cache.insert a o }

def getAndCacheAccount (a : Address) : EStateM PyExc (DbState S D) AccountObject := do
  let s ← get
  match s.cache.lookup a with
  | some acct => return acct
  | none => do
      let o ← loadAccount a
      cacheAccount a o
      return o

def getBalance (a : Address) : EStateM PyExc (DbState S D) (Balance S) := do
  let acct ← getAndCacheAccount a
  lift (binToObject acct.balance)

def getNonce (a : Address) : EStateM PyExc (DbState S D) Nat := do
  let acct ← getAndCacheAccount a
  return acct.nonce

def setAndJournal (a : Address) (acct : AccountObject) (val : Attribute) :
    EStateM PyExc (DbState S D) AccountObject := fun s =>
  .ok (val.set acct) { s with
    journal := (a, val.get acct) :: s.journal
    cache := s.cache.insert a (val.set acct) }

def setBalance (a : Address) (balance : Balance S) : EStateM PyExc (DbState S D) Unit := do
  let acct ← getAndCacheAccount a
  let acct ← setAndJournal a acct (.balance (objectToBin balance))
  let _ ← setAndJournal a acct (.touched true)
  return ()

def setNonce (a : Address) (value : Nat) : EStateM PyExc (DbState S D) Unit := do
  let acct ← getAndCacheAccount a
  let acct ← setAndJournal a acct (.nonce value)
  let _ ← setAndJournal a acct (.touched true)
  return ()

def incrementNonce (a : Address) : EStateM PyExc (DbState S D) Unit := do
  let acct ← getAndCacheAccount a
  let acct ← setAndJournal a acct (.nonce (acct.nonce + 1))
  let _ ← setAndJournal a acct (.touched true)
  return ()

/-- The record of a head state, `address:` and the address. -/
def putRecord (addr : Address) (data : Bytes) : EStateM PyExc (DbState S D) Unit := do
  let s ← get
  if s.executingOnHead then dbPut (addressKey addr) data

def dropRecord (addr : Address) : EStateM PyExc (DbState S D) Unit := do
  let s ← get
  if s.executingOnHead then dbDelete (addressKey addr)

def commitAccount (addr : Address) (acct : AccountObject) : EStateM PyExc (DbState S D) Unit := do
  if acct.touched || acct.deleted then
    if acct.exists then do
      onTrie (SecureTrie.update addr.bytes acct.serialize.encode)
      putRecord addr acct.serialize.encode
    else do
      onTrie (SecureTrie.delete addr.bytes)
      dropRecord addr

def commitAll : List (Sigma fun _ : Address => AccountObject) → EStateM PyExc (DbState S D) Unit
  | [] => pure ()
  | entry :: rest => do
      commitAccount entry.1 entry.2
      commitAll rest

def clear : EStateM PyExc (DbState S D) Unit :=
  modify fun s => { s with cache := ∅, journal := [] }

def commit : EStateM PyExc (DbState S D) Unit := do
  let s ← get
  commitAll s.cache.entries
  clear

def addBlockHeader (h : BlockHeader) : EStateM PyExc (DbState S D) Unit :=
  modify fun s => { s with prevHeaders := .block h :: s.prevHeaders }

def setAuxVars (auxvars : AuxVars) : EStateM PyExc (DbState S D) Unit :=
  modify fun s => { s with toAuxVars := auxvars }

def snapshot : EStateM PyExc (DbState S D) DbSnapshot := do
  let s ← get
  return ⟨s.trie.rootHash, s.journal.length, s.toAuxVars⟩

def popJournal (L : Nat) : EStateM PyExc (DbState S D) Unit :=
  modify fun s => { s with
    journal := (unwind L s.journal s.cache).1
    cache := (unwind L s.journal s.cache).2 }

def dropCache : EStateM PyExc (DbState S D) Unit := modify fun s => { s with cache := ∅ }

def resetRoot (h : DbSnapshot) : EStateM PyExc (DbState S D) Unit := do
  let s ← get
  if h.rootHash ≠ s.trie.rootHash then
    if h.journalLength = 0 then do
      onTrie (MerkleTrie.setRootHash h.rootHash)
      dropCache
    else raised ⟨.assertionError, ""⟩
  else pure ()

def revert (h : DbSnapshot) : EStateM PyExc (DbState S D) Unit := do
  popJournal h.journalLength
  resetRoot h
  setAuxVars h.auxvars

def init (store : Store (RefcountDB D)) (root : Bytes) (executingOnHead : Bool) :
    Except PyExc (DbState S D) :=
  match MerkleTrie.new store root with
  | .ok _ trie => .ok ⟨stateDefaults, trie, ∅, [], executingOnHead⟩
  | .error e _ => .error e

end DbState

end IPchain
