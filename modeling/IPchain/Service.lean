import IPchain.Chain

/-! The chain service: the pool of pending transactions, and the blocks that a node makes. -/

namespace IPchain

open Lib

class Config where
  dkgRenewalInterval : Nat
  renews : 0 < dkgRenewalInterval

/-- The order in which the addresses of an account trie are listed. -/
class TrieKeys (S : Type) where
  keys : Accounts S → List Address
  mem_keys : ∀ trie a, a ∈ keys trie ↔ a ∈ trie

def prevHeaderDepth : Nat := 256

/-- `dict_to_prev_header` of `prev_header_to_dict`. -/
def PrevHeader.reread [Platform] (h : PrevHeader) : PrevHeader :=
  .fake h.hash h.number h.timestamp

structure FullSnapshot (S : Type) where
  alloc : List (Address × Account S)
  auxvars : AuxVars

namespace State

variable {S : Type} [IPSet S]

def cacheAll (s : State S) : List Address → State S
  | [] => s
  | a :: rest => (s.getAndCacheAccount a).2.cacheAll rest

/-- `to_snapshot`, which reads every account into the cache. -/
def toSnapshot [Platform] [TrieKeys S] (s : State S) : FullSnapshot S × State S :=
  let s := s.cacheAll (TrieKeys.keys s.trie)
  ({ alloc := s.cache.entries.map fun entry => (entry.1, entry.2.account)
     auxvars := { s.toAuxVars with
      prevHeaders := (s.prevHeaders.take prevHeaderDepth).map PrevHeader.reread } }, s)

def setNonce (s : State S) (a : Address) (n : Nat) : State S := s.setParam a fun _ => .nonce n

def setAlloc : List (Address × Account S) → State S → State S
  | [], s => s
  | (a, account) :: rest, s =>
      setAlloc rest ((s.setBalance a account.balance).setNonce a account.nonce)

def fromSnapshot [Platform] (h : FullSnapshot S) : State S :=
  State.commit { setAlloc (Platform.items h.alloc) State.initial with toAuxVars := h.auxvars }

/-- `clone`: another state over the same root. A journalled write leaves a touched account in
the cache, which the assertion does not let pass. -/
def clone (s : State S) : Except PyExc (State S) :=
  match s.journal with
  | [] => .ok {
      toAuxVars := s.toAuxVars
      trie := s.trie
      cache := ∅
      journal := []
      undoable := by constructor <;> simp [Coherent] }
  | _ :: _ => .error ⟨.assertionError, ""⟩

end State

namespace Chain

variable {S R : Type} [IPSet S] [Radix R Address] [Platform] [TrieRoot] [Poststate]

/-- `timestamp <= new_time`. In Python 2 no number is at most None. -/
def due (block : Block) : Option Nat → Bool
  | none => false
  | some newTime => block.header.timestamp ≤ newTime

/-- The loop of `process_time_queue` at index `i`. Every turn pops a block or moves on, so it
takes at most as many turns as there are blocks. -/
def processTimeQueueFrom (now depth : Nat) (newTime : Option Nat) :
    Nat → Nat → EStateM PyExc (Chain S R) Unit
  | 0, _ => pure ()
  | turns + 1, i => fun c =>
      match c.timeQueue[i]? with
      | none => .ok () c
      | some block =>
          if due block newTime then
            (do
              let _ ← addBlock now depth block
              fun c' =>
                if c'.timeQueue.length = c.timeQueue.length then
                  processTimeQueueFrom now depth newTime turns (i + 1) c'
                else processTimeQueueFrom now depth newTime turns i c')
              { c with timeQueue := c.timeQueue.eraseIdx i }
          else .ok () c

def processTimeQueue (now depth : Nat) (newTime : Option Nat) : EStateM PyExc (Chain S R) Unit :=
  fun c => processTimeQueueFrom now depth newTime c.timeQueue.length 0 c

end Chain

/-- Transactions are equal when they are equal after serialization. -/
def Transaction.same (t u : Transaction) : Bool :=
  { t with cachedSender := none } = { u with cachedSender := none }

structure Service (S R : Type) [IPSet S] where
  chain : Chain S R
  transactions : List Transaction

section Tries

variable {S : Type} [IPSet S] [Platform] [TrieRoot] [StateRoot S]

/-- `_create_tries`: the transactions are applied to a clone of the state. -/
def createTries (block : Block) (s : State S) : Except PyExc Block := do
  let temp ← s.clone
  match applyTransactions block.transactions ∅ temp with
  | .error e _ => .error e
  | .ok _ temp =>
      .ok { block with
        header := { block.header with
          txRoot := mkTransactionSha block.transactions
          stateRoot := StateRoot.stateRoot temp.trie } }

end Tries

namespace Service

section State

variable {S R : Type} [IPSet S]

def onChain {α : Type} (x : EStateM PyExc (Chain S R) α) : EStateM PyExc (Service S R) α :=
  fun svc =>
    match x svc.chain with
    | .ok a c => .ok a { svc with chain := c }
    | .error e c => .error e { svc with chain := c }

def onState {α : Type} (x : EStateM PyExc (State S) α) : EStateM PyExc (Service S R) α :=
  onChain fun c =>
    match x c.state with
    | .ok a s => .ok a { c with state := s }
    | .error e s => .error e { c with state := s }

variable [Platform]

def addPendingTransaction (tx : Transaction) : EStateM PyExc (Service S R) Unit := do
  let _ ← onState (validateTransaction tx)
  let sender ← lift tx.sender
  if sender = nullAddress then raised ⟨.unsignedTransaction, ""⟩
  else fun svc => .ok () { svc with transactions := svc.transactions ++ [tx] }

/-- The transactions of the pool that go into block `number`, as they apply to a copy of the
state. A transaction that fails leaves on the copy whatever it had done. The size of the
block object itself never gets near the limit. -/
def collect (number : Nat) : List Transaction → State S → List Transaction × State S
  | [], s => ([], s)
  | tx :: rest, s =>
      if number % 2 = 0 ∧ tx.afi = 1 ∨ number % 2 ≠ 0 ∧ tx.afi = 2 then
        match applyTransaction tx ∅ s with
        | .ok _ s => ((collect number rest s).1.cons tx, (collect number rest s).2)
        | .error _ s => collect number rest s
      else collect number rest s

/-- Blocks with an even number hold transactions about IPv4, the others about IPv6. -/
def checkFamilies (number : Nat) : List Transaction → Except PyExc Unit
  | [] => .ok ()
  | tx :: rest =>
      if number % 2 = 0 ∧ tx.afi ≠ 1 then
        .error ⟨.exception, "IPv6 block with an IPv4 transaction, afi detected: %s"⟩
      else if number % 2 ≠ 0 ∧ tx.afi ≠ 2 then
        .error ⟨.exception, "IPv4 block with an IPv6 transaction, afi detected: " ++ toString tx.afi⟩
      else checkFamilies number rest

/-- `self.transactions.remove(tx)` where the pool has one. -/
def removeFirst (pool : List Transaction) (tx : Transaction) : List Transaction :=
  pool.eraseP fun other => other.same tx

def invalidTransactions : List Transaction → State S → List Transaction × State S
  | [], s => ([], s)
  | tx :: rest, s =>
      match validateTransaction tx s with
      | .ok _ s => invalidTransactions rest s
      | .error _ s => ((invalidTransactions rest s).1.cons tx, (invalidTransactions rest s).2)

/-- What `add_block` does to the pool. -/
def purge (block : Block) (svc : Service S R) : Service S R :=
  let pool := block.transactions.foldl removeFirst svc.transactions
  let found := invalidTransactions pool svc.chain.state
  { chain := { svc.chain with state := found.2 }
    transactions := found.1.foldl removeFirst pool }

def parseAsBin (s : Bytes) : Except PyExc Bytes :=
  decodeHex (if s.take 2 = [0x30, 0x78] then s.drop 2 else s)

/-- The group key for the header of block `number`, `0x00` in most of them. -/
def headerKey [Config] (number : Nat) (groupKey : Option Bytes) : Except PyExc Bytes :=
  if number % Config.dkgRenewalInterval = 0 then
    match groupKey with
    | none | some [] => .error ⟨.dkgBlockRequiresGroupKey, ""⟩
    | some key => .ok key
  else .ok [0x30, 0x78, 0x30, 0x30]

def blankRoot : Bytes := Platform.sha3 (Rlp.bytes []).encode

def draft (c : Chain S R) (now : Nat) (coinbase : Address) (randomNumber groupPubkey groupSig : Bytes)
    (count : Nat) : Block where
  header := {
    prevhash := c.headHash
    timestamp := now
    extraData := []
    stateRoot := blankRoot
    txRoot := blankRoot
    number := c.state.blockNumber + 1
    coinbase := coinbase.bytes
    randomNumber := randomNumber
    groupPubkey := groupPubkey
    groupSig := groupSig
    count := count }
  transactions := []
  v := 0
  r := 0
  s := 0
  cachedSigner := none

end State

section Blocks

variable {S R : Type} [IPSet S] [Radix R Address] [Platform] [TrieRoot] [Poststate]

def addBlock (now depth : Nat) (block : Block) : EStateM PyExc (Service S R) Unit := do
  lift (checkFamilies block.header.number block.transactions)
  let _ ← onChain (Chain.addBlock now depth block)
  fun svc => .ok () (svc.purge block)

variable [StateRoot S] [TrieKeys S] [Config]

def createBlock (now depth : Nat) (coinbase : Item) (randomNo : Bytes) (groupKey : Option Bytes)
    (groupSig : Bytes) (count : Nat) : EStateM PyExc (Service S R) Block := do
  onChain (Chain.processTimeQueue now depth none)
  fun svc =>
    (do
      let number := svc.chain.state.blockNumber + 1
      let coinbase ← lift (normalizeAddress coinbase)
      let groupKey ← lift (headerKey number groupKey)
      let randomNumber ← lift (parseAsBin randomNo)
      let block := draft svc.chain now coinbase randomNumber groupKey groupSig count
      let snapshot ← onState fun s => .ok s.toSnapshot.1 s.toSnapshot.2
      let taken := (collect number svc.transactions (State.fromSnapshot snapshot)).1
      onState fun s =>
        match createTries { block with transactions := taken } s.toSnapshot.2 with
        | .ok block => .ok block s.toSnapshot.2
        | .error e => .error e s.toSnapshot.2) svc

end Blocks

end Service

end IPchain
