import IPchain.Consensus
import IPchain.Retrieval
import IPchain.Service
import IPchain.Signer

/-! The main loop of a node: the blocks, transactions and shares that it receives, the blocks
that it signs, and the renewal of the group key. -/

namespace IPchain

open Lib Platform

/-- The settings of chain_config.cfg that the main loop reads. Times are in seconds. -/
class NodeConfig extends Config, Threshold where
  dkgNumberParticipants : Nat
  blockTime : Nat
  timeout : Nat
  dkgTimeout : Nat
  extTxPerLoop : Nat

class Signing where
  ecsign : Bytes → Bytes → Nat × Nat × Nat
  privtoaddr : Bytes → Address

class FirstAddress (S : Type) [IPSet S] where
  first : S → Option IPAddress
  mem_first : ∀ s x, first s = some x → x ∈ s
  first_eq_none : ∀ s, first s = none ↔ ∀ x, x ∉ s

/-- What a process starts with: the genesis, the key store, and the file with the keys of the
master where there is one. -/
structure Operator where
  genesis : BlockHeader
  keys : List (Address × Bytes)
  masterKeys : Option (List (Address × Bytes))

def Operator.addresses (op : Operator) : List Address := op.keys.map Prod.fst

def Operator.isMaster (op : Operator) : Bool := op.masterKeys.isSome

def Block.sign [Platform] [Signing] (key : Bytes) (b : Block) : Except PyExc Block := do
  b.header.checkLengths
  let (v, r, s) := Signing.ecsign (sha3 (Rlp.list b.unsignedItems).encode) key
  return { b with v := v, r := r, s := s, cachedSigner := some (Signing.privtoaddr key) }

theorem Block.sign_eq_ok [Platform] [Signing] {key : Bytes} {b c : Block}
    (signed : b.sign key = .ok c) : ∃ v r s, c =
      { b with v := v, r := r, s := s, cachedSigner := some (Signing.privtoaddr key) } := by
  obtain ⟨_, -, rest⟩ := except_bind_eq_ok.mp signed
  cases rest
  exact ⟨_, _, _, rfl⟩

section Chain

variable {S R : Type} [IPSet S] [Platform]

def Chain.getHeadBlock (first : BlockHeader) (c : Chain S R) : Option Block :=
  (c.getBlock first (some c.headHash)).toOption

def Chain.headHeader (first : BlockHeader) (c : Chain S R) : Except PyExc BlockHeader :=
  match c.getHeadBlock first with
  | some block => .ok block.header
  | none => .error ⟨.attributeError, "'NoneType' object has no attribute 'header'"⟩

variable [NodeConfig]

open NodeConfig Config

/-- The number of the last block with a group key, at a head of this number. -/
def lastRenewal (number : Nat) : Nat := number - number % dkgRenewalInterval

def Chain.getCurrentGroupKey (first : BlockHeader) (c : Chain S R) : Except PyExc Bytes := do
  let head ← c.headHeader first
  let block ← c.getBlockByNumber first (lastRenewal head.number)
  return block.header.groupPubkey

variable [Hashlib]

def drawGroup : Nat → Nat → List Address → Except PyExc (List Address)
  | 0, _, _ => .ok []
  | participants + 1, randomNo, allAddresses =>
      match allAddresses[randomNo % allAddresses.length]? with
      | none => .error ⟨.zeroDivisionError, "integer division or modulo by zero"⟩
      | some address => do
          let next ← compressRandomNoToInt (hexdigest (strOfInt randomNo))
          let others ← drawGroup participants next
            (allAddresses.eraseIdx (randomNo % allAddresses.length))
          return address :: others

def Chain.getCurrentDkgGroup [TrieKeys S] (first : BlockHeader) (c : Chain S R) :
    Except PyExc (List Address) := do
  let head ← c.headHeader first
  let block ← c.getBlockByNumber first (lastRenewal head.number)
  let randomNo ← compressRandomNoToInt (encodeHex block.header.randomNumber)
  drawGroup dkgNumberParticipants randomNo (TrieKeys.keys c.state.trie)

def dkgSigner (randomNo : Bytes) (dkgGroup : List Address) : Except PyExc Address := do
  let number ← compressRandomNoToInt randomNo
  match dkgGroup[number % dkgGroup.length]? with
  | none => .error ⟨.zeroDivisionError, "integer division or modulo by zero"⟩
  | some address => return address

end Chain

inductive Phase where
  | bootstrap
  | blocks
  | txs
  | sign
  | user
  | oor
  | blockQueries
  | shares
  | futureShares
  | watch
  | trigger
  | collect
  deriving DecidableEq

inductive Message where
  | tx (tx : Transaction)
  | block (block : Block)
  | share (share : Share)
  | dkgShare (share : DkgShare)
  | blocks (blocks : List Block)
  deriving DecidableEq

/-- The variables of `run`, and what was sent to the network. `signerSet` tells whether the
variable `signer` has a value. -/
structure Node (S R : Type) [IPSet S] where
  service : Service S R
  consensus : Consensus
  cache : ShareCache
  phase : Phase
  count : Nat
  processed : Nat
  dkgOn : Bool
  exitFromDkg : Bool
  timestamp : Nat
  blockNum : Nat
  lastRandomNo : Bytes
  inDkgGroup : Bool
  myDkgIds : List Address
  createShares : Bool
  signingAddr : Option Address
  signerSet : Bool
  fromBootstrap : Bool
  sent : List Message

def findMeInDkgGroup (currentGroup nodeAddresses : List Address) : Bool × List Address :=
  let mine := nodeAddresses.filter fun address => address ∈ currentGroup
  (!mine.isEmpty, mine)

namespace Node

section Lifting

variable {S R : Type} [IPSet S] {α : Type}

def onService (x : EStateM PyExc (Service S R) α) : EStateM PyExc (Node S R) α := fun n =>
  match x n.service with
  | .ok a svc => .ok a { n with service := svc }
  | .error e svc => .error e { n with service := svc }

def onConsensus (x : EStateM PyExc Consensus α) : EStateM PyExc (Node S R) α := fun n =>
  match x n.consensus with
  | .ok a c => .ok a { n with consensus := c }
  | .error e c => .error e { n with consensus := c }

def asks (f : Chain S R → Except PyExc α) : EStateM PyExc (Node S R) α := fun n =>
  match f n.service.chain with
  | .ok a => .ok a n
  | .error e => .error e n

def update (f : Node S R → Node S R) : EStateM PyExc (Node S R) Unit := fun n => .ok () (f n)

def send (now : Nat) (shares : List Share) (n : Node S R) : Node S R :=
  { n with
    sent := n.sent ++ shares.map Message.share
    cache := shares.foldl (fun cache share => cache.storeBls now share) n.cache }

def sendDkg (now : Nat) (shares : List DkgShare) (n : Node S R) : Node S R :=
  { n with
    sent := n.sent ++ shares.map Message.dkgShare
    cache := shares.foldl (fun cache share => cache.storeDkg now share) n.cache }

end Lifting

section Start

variable {S R : Type} [IPSet S] [Platform] [Hashlib] [Bls] [NodeConfig] [TrieKeys S]

/-- Up to the bootstrap. The group of a node that is in none is stored after the master keys. -/
def start (op : Operator) (now : Nat) (svc : Service S R) : Except PyExc (Node S R) := do
  let head ← svc.chain.headHeader op.genesis
  let lastRandomNo := encodeHex head.randomNumber
  let currentGroupKey ← svc.chain.getCurrentGroupKey op.genesis
  let dkgGroup ← svc.chain.getCurrentDkgGroup op.genesis
  let (inDkgGroup, myDkgIds) := findMeInDkgGroup dkgGroup op.addresses
  let consensus ← Consensus.init dkgGroup myDkgIds lastRandomNo currentGroupKey head.number
    head.groupSig currentGroupKey
  let setUp : EStateM PyExc Consensus Unit := do
    match op.masterKeys with
    | some keys => Consensus.bootstrapMasterAddSecretKeysManual keys myDkgIds
    | none => pure ()
    if inDkgGroup then pure () else Consensus.storeIds dkgGroup
    if op.isMaster then do
      let _ ← Consensus.createShares lastRandomNo head.number 0
  match setUp consensus with
  | .error e _ => .error e
  | .ok () consensus => .ok {
      service := svc
      consensus := consensus
      cache := ShareCache.init now
      phase := .bootstrap
      count := 0
      processed := 0
      dkgOn := false
      exitFromDkg := false
      timestamp := head.timestamp
      blockNum := head.number
      lastRandomNo := lastRandomNo
      inDkgGroup := inDkgGroup
      myDkgIds := myDkgIds
      createShares := op.isMaster
      signingAddr := none
      signerSet := false
      fromBootstrap := false
      sent := [] }

end Start

section Blocks

variable {S R : Type} [IPSet S] [Radix R Address] [FirstAddress S] [Platform] [Hashlib] [Bls]

def extractFirstIpFromAddress (address : Address) : EStateM PyExc (Node S R) (Option IPAddress) := do
  let balance ← onService (Service.onState (getBalance address))
  return FirstAddress.first balance.ownIps

/-- The log line asks for the owner of the address before the signature is verified. There is
no owner where there is no address. -/
def verifySigner (block : Block) (signer : Option IPAddress) : EStateM PyExc (Node S R) Bool :=
  match signer with
  | none => raised ⟨.valueError, "no address"⟩
  | some signer => do
      let _ ← asks fun c => c.getAddrFromIp signer
      onService (Service.onState (verifyBlockSignature block signer))

/-- Who has to sign a received block. Only a node of the group that is out of a key generation
gets to the first branch, and a node that waits for the end of one to the second. -/
def expectedSigner (block : Block) : EStateM PyExc (Node S R) (Option IPAddress) := fun n =>
  let signingAddress : EStateM PyExc (Node S R) (Option IPAddress) :=
    match n.signingAddr with
    | none => raised ⟨.unboundLocalError, "local variable 'signing_addr' referenced before assignment"⟩
    | some address => extractFirstIpFromAddress address
  let n := { n with signerSet := true }
  if n.consensus.verifyGroupSig (beaconMessage n.lastRandomNo n.blockNum n.count)
      block.header.groupSig (n.exitFromDkg || n.dkgOn) = false then
    .error ⟨.blsInvalidGroupSignature, ""⟩ n
  else if n.inDkgGroup && n.exitFromDkg then
    if block.header.groupPubkey ≠ n.consensus.groupKey then
      .error ⟨.exception, "Unexpected group key in block header. Stopping"⟩
        { n with exitFromDkg := false }
    else signingAddress { n with exitFromDkg := false }
  else if n.dkgOn then
    (do
      let signer ← signingAddress
      update fun n => { n with
        consensus := { n.consensus with groupKey := block.header.groupPubkey }, dkgOn := false }
      return signer) n
  else .ok (some n.consensus.nextSigner) n

/-- The except clauses around the checks. A block that fails one of them is skipped. -/
def orSkip (skips : PyExc → Bool) (x : EStateM PyExc (Node S R) Bool) :
    EStateM PyExc (Node S R) Bool := fun n =>
  match x n with
  | .ok res n => .ok res n
  | .error e n => if skips e then .ok false n else .error e n

def wrongSigner (e : PyExc) : Bool :=
  e.isInstance .unsignedBlock || e.isInstance .invalidBlockSigner

def checkBlock (block : Block) : EStateM PyExc (Node S R) Bool :=
  orSkip (fun e => wrongSigner e || e.isInstance .blsInvalidGroupSignature) do
    let signer ← expectedSigner block
    verifySigner block signer

variable [NodeConfig]

open NodeConfig Config

def newRound (now : Nat) : EStateM PyExc (Node S R) Unit := fun n =>
  if n.inDkgGroup && n.createShares then
    (do
      let shares ← onConsensus (Consensus.createShares n.lastRandomNo n.blockNum 0)
      update (send now shares)) { n with count := 0 }
  else .ok () n

variable [TrieRoot] [Poststate]

/-- A block that passed the checks. Whether the chain took it makes no difference here. -/
def adoptBlock (op : Operator) (now depth : Nat) (block : Block) : EStateM PyExc (Node S R) Unit := do
  onService (Service.addBlock now depth block)
  let head ← asks fun c => c.headHeader op.genesis
  let lastRandomNo := encodeHex block.header.randomNumber
  update fun n => { n with
    timestamp := head.timestamp, blockNum := head.number, lastRandomNo := lastRandomNo }
  update fun n =>
    if n.fromBootstrap then { n with
      fromBootstrap := false
      consensus := { n.consensus with
        currentRandomNo := lastRandomNo, groupSig := block.header.groupSig } }
    else n
  onConsensus (Consensus.calculateNextSigner head.number)
  update fun n => { n with consensus := n.consensus.resetBls }
  newRound now

def receiveBlock (op : Operator) (now depth : Nat) (block : Block) :
    EStateM PyExc (Node S R) Unit := do
  let res ← checkBlock block
  if res then adoptBlock op now depth block else pure ()

variable [TrieKeys S]

/-- `number % DKG_RENEWAL_INTERVAL == 0`. -/
def renews (number : Nat) : Bool := number % dkgRenewalInterval = 0

/-- The signer during the bootstrap. The group key is taken from the block before any check. -/
def bootstrapSigner (op : Operator) (block : Block) : EStateM PyExc (Node S R) (Option IPAddress) :=
  fun n =>
    if renews block.header.number then
      (do
        let dkgGroup ← asks fun c => c.getCurrentDkgGroup op.genesis
        let signingAddr ← lift (dkgSigner n.lastRandomNo dkgGroup)
        let signer ← extractFirstIpFromAddress signingAddr
        update fun n => { n with
          consensus := { n.consensus with groupKey := block.header.groupPubkey } }
        return signer) n
    else .ok (some n.consensus.nextSigner) n

def checkBootstrap (op : Operator) (block : Block) : EStateM PyExc (Node S R) Bool :=
  orSkip wrongSigner do
    let signer ← bootstrapSigner op block
    fun n =>
      if n.consensus.verifyGroupSig (beaconMessage n.lastRandomNo n.blockNum n.count)
          block.header.groupSig (renews block.header.number) = false then
        .error ⟨.blsInvalidGroupSignature, ""⟩ n
      else if encodeHex block.header.randomNumber ≠ hexdigest block.header.groupSig then
        .error ⟨.exception, ""⟩ n
      else verifySigner block signer n

def adoptBootstrap (now depth : Nat) (block : Block) : EStateM PyExc (Node S R) Unit := do
  onService (Service.addBlock now depth block)
  let lastRandomNo := encodeHex block.header.randomNumber
  update fun n => { n with
    lastRandomNo := lastRandomNo
    blockNum := block.header.number
    consensus := { n.consensus with
      currentRandomNo := lastRandomNo, groupSig := block.header.groupSig } }
  onConsensus (Consensus.calculateNextSigner block.header.number)

def bootstrapBlock (op : Operator) (now depth : Nat) (block : Block) :
    EStateM PyExc (Node S R) Unit := do
  let res ← checkBootstrap op block
  if res then adoptBootstrap now depth block else pure ()

def finishBootstrap (op : Operator) : EStateM PyExc (Node S R) Unit := do
  let head ← asks fun c => c.headHeader op.genesis
  let _ ← asks fun c => c.getCurrentGroupKey op.genesis
  update fun n => { n with
    timestamp := head.timestamp
    lastRandomNo := encodeHex head.randomNumber
    fromBootstrap := true
    phase := .blocks }

end Blocks

end Node

end IPchain
