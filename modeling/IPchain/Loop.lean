import IPchain.Node

/-! The rest of the main loop, and its runs. -/

namespace IPchain

open Lib Platform

namespace Node

def second : Nat := 10 ^ 6

section Transactions

variable {S R : Type} [IPSet S] [Radix R Address] [Platform]

def inChain (svc : Service S R) (tx : Transaction) : Bool := (svc.chain.txIndex.lookup tx.hash).isSome

def inPool (svc : Service S R) (tx : Transaction) : Bool :=
  svc.transactions.any fun other => other.same tx

def submit (tx : Transaction) : EStateM PyExc (Node S R) Unit := fun n =>
  match onService (Service.addPendingTransaction tx) n with
  | .ok () n => .ok () { n with sent := n.sent ++ [.tx tx] }
  | .error _ n => .ok () n

def receiveTx (tx : Transaction) : EStateM PyExc (Node S R) Unit := fun n =>
  let n := { n with processed := n.processed + 1 }
  if inChain n.service tx || inPool n.service tx then .ok () n else submit tx n

def userTx (tx : Option Transaction) : EStateM PyExc (Node S R) Unit := fun n =>
  match tx with
  | some tx => if n.dkgOn then .ok () n else submit tx n
  | none => .ok () n

/-- `query_eid`, which catches everything. The answer is a balance of the state. -/
def queryEid (eid : IPAddress) : EStateM PyExc (Node S R) Unit := fun n =>
  match n.service.chain.getAddrFromIp eid with
  | .ok address => .ok () (match onService (Service.onState (getBalance address)) n with
      | .ok _ n | .error _ n => n)
  | .error _ => .ok () n

/-- `get_block_by_number`. No record has a name with a negative number. -/
def blockOfQuery (first : BlockHeader) (c : Chain S R) (number : Int) : Except PyExc Block :=
  if 0 ≤ number then c.getBlockByNumber first number.toNat else c.getBlock first none

def answerBlocks (op : Operator) (numbers : List Int) : EStateM PyExc (Node S R) Unit := do
  let response ← asks fun c => numbers.mapM fun number => blockOfQuery op.genesis c number
  update fun n => { n with sent := n.sent ++ [.blocks response] }

end Transactions

section Own

variable {S R : Type} [IPSet S] [Radix R Address] [Platform] [Hashlib] [Bls] [NodeConfig]
  [TrieKeys S] [TrieRoot] [Poststate] [StateRoot S] [Signing]

open NodeConfig Config

/-- The account that signs next. Out of a key generation it is the one that was drawn then. -/
def electSigner : EStateM PyExc (Node S R) Unit := fun n =>
  if n.exitFromDkg then .ok () n
  else
    match n.service.chain.getAddrFromIp n.consensus.nextSigner with
    | .error e => .error e { n with signerSet := true }
    | .ok address => .ok () { n with signerSet := true, signingAddr := some address }

/-- A new block when this node holds the key of the account. A log line needs `signer`. -/
def createOwn (op : Operator) (now depth : Nat) : EStateM PyExc (Node S R) (Option Block) := fun n =>
  match n.signingAddr with
  | none =>
      .error ⟨.unboundLocalError, "local variable 'signing_addr' referenced before assignment"⟩ n
  | some address =>
      match op.keys.find? fun key => key.1 = address with
      | none => .ok none n
      | some key =>
          let n := { n with exitFromDkg := false }
          if n.signerSet then
            (do
              let block ← onService (Service.createBlock (now / second) depth (.bytes address.bytes)
                n.consensus.currentRandomNo (some n.consensus.groupKey) n.consensus.groupSig n.count)
              let signed ← lift (block.sign key.2)
              return some signed) n
          else
            .error ⟨.unboundLocalError, "local variable 'signer' referenced before assignment"⟩ n

def makeBlock (op : Operator) (now depth : Nat) : EStateM PyExc (Node S R) (Option Block) := do
  let head ← asks fun c => c.headHeader op.genesis
  update fun n => { n with timestamp := head.timestamp, blockNum := head.number }
  fun n =>
    if now < (n.timestamp + blockTime) * second then .ok none n
    else if (n.timestamp + timeout) * second ≤ now then
      .error ⟨.exception, "FATAL ERROR, Block tiemout expired. The feature to re-calculte the " ++
        "random number after a block timeout exprity is not implemented. Stopping..."⟩ n
    else if (n.consensus.verified || n.exitFromDkg) && !n.dkgOn then
      (do
        electSigner
        createOwn op now depth) n
    else .ok none n

def adoptOwn (now wait depth : Nat) (block : Block) : EStateM PyExc (Node S R) Unit := do
  onService (Service.addBlock (now / second + wait) depth block)
  update fun n => { n with
    sent := n.sent ++ [.block block], count := 0, blockNum := block.header.number }
  onConsensus (Consensus.calculateNextSigner block.header.number)
  update fun n => { n with
    lastRandomNo := n.consensus.currentRandomNo, consensus := n.consensus.resetBls }
  newRound now

/-- The clock reads `now` until the block is made, and `wait` seconds more when it is added. -/
def signBlock (op : Operator) (now wait depth : Nat) : EStateM PyExc (Node S R) Unit := do
  match ← makeBlock op now depth with
  | some block => adoptOwn now wait depth block
  | none => pure ()

end Own

section Shares

variable {S R : Type} [IPSet S] [Platform] [Hashlib] [Bls] [NodeConfig]

open NodeConfig Config

/-- During a key generation the share that was taken from the network is lost. -/
def receiveShare (now : Nat) (share : Share) : EStateM PyExc (Node S R) Unit := fun n =>
  if n.dkgOn then .ok () { n with phase := .futureShares }
  else if n.cache.inBlsCache share then .ok () n
  else
    (do
      if share.blockNumber = n.blockNum then do
        let _ ← onConsensus
          (Consensus.storeShare share (beaconMessage n.lastRandomNo n.blockNum n.count))
      else if n.blockNum < share.blockNumber then
        update fun n => { n with cache := n.cache.storeFutureBls share }
      else pure ()
      update (send now [share])) n

def takeFutureShare : EStateM PyExc (Node S R) Unit := fun n =>
  match (n.cache.futureBls n.blockNum).getLast? with
  | none => .ok () { n with phase := .watch }
  | some share =>
      (do
        let _ ← onConsensus
          (Consensus.storeShare share (beaconMessage n.lastRandomNo n.blockNum n.count)))
        { n with cache := n.cache.popFutureBls n.blockNum }

/-- Without the shares of the round near the time of the next block, the random number is going
to be taken from that block. -/
def watchShares (op : Operator) (now : Nat) (n : Node S R) : Node S R :=
  if 100 * n.timestamp * second + 99 * blockTime * second < 100 * now ∧
      n.consensus.verified = false ∧ op.isMaster = false then
    { n with fromBootstrap := true }
  else n

end Shares

section Renewal

variable {S R : Type} [IPSet S] [Platform] [Hashlib] [Bls] [NodeConfig] [TrieKeys S]

open NodeConfig Config

def leaveDkg : EStateM PyExc (Node S R) Unit := fun n =>
  match n.consensus.allNodeDkgsFinished with
  | .error e => .error e n
  | .ok finished => .ok () (if finished then { n with dkgOn := false, exitFromDkg := true } else n)

def enterDkg (now : Nat) (draw : Address → Nat → Bytes × Bytes) (dkgGroup : List Address) :
    EStateM PyExc (Node S R) Unit := fun n =>
  if n.inDkgGroup then
    (do
      let shares ← onConsensus (Consensus.newDkg draw dkgGroup n.myDkgIds)
      update (sendDkg now shares)
      leaveDkg) n
  else onConsensus (Consensus.storeIds dkgGroup) n

def triggerDkg (op : Operator) (now : Nat) (draw : Address → Nat → Bytes × Bytes) :
    EStateM PyExc (Node S R) Unit := fun n =>
  if renews (n.blockNum + 1) && !n.dkgOn && !n.exitFromDkg && n.consensus.verified then
    (do
      update fun n => { n with dkgOn := true, createShares := true }
      let dkgGroup ← asks fun c => c.getCurrentDkgGroup op.genesis
      let (inDkgGroup, myDkgIds) := findMeInDkgGroup dkgGroup op.addresses
      update fun n => { n with inDkgGroup := inDkgGroup, myDkgIds := myDkgIds }
      enterDkg now draw dkgGroup
      let last ← asks fun c => c.getBlockByNumber op.genesis n.blockNum
      let address ← lift (dkgSigner (encodeHex last.header.randomNumber) dkgGroup)
      update fun n => { n with signingAddr := some address }) n
  else .ok () n

def receiveDkgShare (now : Nat) (share : DkgShare) : EStateM PyExc (Node S R) Unit := fun n =>
  if n.dkgOn = false then .ok () { n with phase := .blocks }
  else if n.cache.inDkgCache share then .ok () n
  else
    (do
      match share.destination with
      | some destination =>
          if destination ∈ n.myDkgIds then do
            onConsensus (Consensus.verifyDkgContribution share)
            leaveDkg
            fun n =>
              if n.dkgOn && decide ((n.timestamp + dkgTimeout) * second ≤ now) then
                .error ⟨.exception, ""⟩ n
              else .ok () n
          else update fun n => { n with sent := n.sent ++ [Message.dkgShare share] }
      | none => update fun n => { n with sent := n.sent ++ [Message.dkgShare share] }
      update fun n => { n with cache := n.cache.storeDkg now share }) n

def endCollect (now : Nat) : EStateM PyExc (Node S R) Unit := fun n =>
  if !n.inDkgGroup && n.dkgOn && decide ((n.timestamp + dkgTimeout) * second ≤ now) then
    .error ⟨.exception, ""⟩ n
  else .ok () { n with phase := .blocks }

end Renewal

/-- What happens next: what comes from the network, from the user or from the clock. -/
inductive Event where
  | bootstrapBlock (now depth : Nat) (block : Block)
  | finishBootstrap
  | block (now depth : Nat) (block : Block)
  | noBlock
  | tx (tx : Transaction)
  | noTx
  | sign (now wait depth : Nat)
  | userTx (tx : Option Transaction)
  | query (eid : Option IPAddress)
  | blockQuery (numbers : List Int)
  | share (now : Nat) (share : Share)
  | noShare
  | futureShare
  | watch (now : Nat)
  | trigger (now : Nat) (draw : Address → Nat → Bytes × Bytes)
  | dkgShare (now : Nat) (share : DkgShare)
  | noDkgShare (now : Nat)

def Event.phase : Event → Phase
  | .bootstrapBlock _ _ _ | .finishBootstrap => .bootstrap
  | .block _ _ _ | .noBlock => .blocks
  | .tx _ | .noTx => .txs
  | .sign _ _ _ => .sign
  | .userTx _ => .user
  | .query _ => .oor
  | .blockQuery _ => .blockQueries
  | .share _ _ | .noShare => .shares
  | .futureShare => .futureShares
  | .watch _ => .watch
  | .trigger _ _ => .trigger
  | .dkgShare _ _ | .noDkgShare _ => .collect

section Runs

variable {S R : Type} [IPSet S] [Radix R Address] [FirstAddress S] [Platform] [Hashlib] [Bls]
  [NodeConfig] [TrieKeys S] [TrieRoot] [Poststate] [StateRoot S] [Signing]

open NodeConfig Config

def enter (phase : Phase) (n : Node S R) : Node S R := { n with phase := phase }

def handle (op : Operator) : Event → EStateM PyExc (Node S R) Unit
  | .bootstrapBlock now depth block => bootstrapBlock op now depth block
  | .finishBootstrap => finishBootstrap op
  | .block now depth block => receiveBlock op now depth block
  | .noBlock => update fun n => { n with phase := .txs, processed := 0 }
  | .tx tx => do
      receiveTx tx
      update fun n => if n.processed < extTxPerLoop then n else n.enter .sign
  | .noTx => update (enter .sign)
  | .sign now wait depth => do
      signBlock op now wait depth
      update (enter .user)
  | .userTx tx => do
      userTx tx
      update (enter .oor)
  | .query eid => do
      match eid with
      | some eid => queryEid eid
      | none => pure ()
      update (enter .blockQueries)
  | .blockQuery numbers => do
      answerBlocks op numbers
      update (enter .shares)
  | .share now share => receiveShare now share
  | .noShare => update (enter .futureShares)
  | .futureShare => takeFutureShare
  | .watch now => update fun n => (watchShares op now n).enter .trigger
  | .trigger now draw => do
      triggerDkg op now draw
      update (enter .collect)
  | .dkgShare now share => fun n =>
      if n.inDkgGroup then receiveDkgShare now share n else .ok () n
  | .noDkgShare now => endCollect now

/-- The block that an event passes to `chain.add_block`, and the node at this moment. -/
def handed (op : Operator) (n : Node S R) : Event → Option (Block × Node S R)
  | .bootstrapBlock _ _ block =>
      match checkBootstrap op block n with
      | .ok true m => some (block, m)
      | _ => none
  | .block _ _ block =>
      match checkBlock block n with
      | .ok true m => some (block, m)
      | _ => none
  | .sign now _ depth =>
      match makeBlock op now depth n with
      | .ok (some block) m => some (block, m)
      | _ => none
  | _ => none

/-- The clock when a block is passed on, and the depth of the stack. -/
def Event.clock : Event → Nat × Nat
  | .bootstrapBlock now depth _ | .block now depth _ => (now, depth)
  | .sign now wait depth => (now / second + wait, depth)
  | _ => (0, 0)

def taken (op : Operator) (n : Node S R) (e : Event) : List Block :=
  match handed op n e with
  | none => []
  | some (block, m) =>
      match Chain.addBlock e.clock.1 e.clock.2 block m.service.chain with
      | .ok true _ => [block]
      | _ => []

/-- The runs of a process whose steps all meet a condition, with the blocks that became the
head of its chain. -/
inductive Run (op : Operator) (svc : Service S R) (meets : Node S R → Event → Prop) :
    List Block → Node S R → Prop
  | start {now : Nat} {n : Node S R} (started : start op now svc = .ok n) : Run op svc meets [] n
  | step {blocks : List Block} {n n' : Node S R} (run : Run op svc meets blocks n) (e : Event)
      (turn : e.phase = n.phase) (met : meets n e) (handled : handle op e n = .ok () n') :
      Run op svc meets (blocks ++ taken op n e) n'

end Runs

end Node

end IPchain
