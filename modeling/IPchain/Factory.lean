import IPchain.Blocks
import Mathlib.Data.List.AList

/-! The network process: the blocks that it collects from its peers and serves to the process of
the chain. -/

namespace IPchain

def base64Digit (n : Nat) : UInt8 :=
  UInt8.ofNat (if n < 26 then 65 + n else if n < 52 then 71 + n else if n < 62 then n - 4
    else if n = 62 then 43 else 47)

/-- One line of `encode('base64')`, with its padding. -/
def base64Line : Bytes → Bytes
  | [] => []
  | [a] => [base64Digit (a.toNat / 4), base64Digit (a.toNat % 4 * 16), 61, 61]
  | [a, b] =>
      [base64Digit (a.toNat / 4), base64Digit (a.toNat % 4 * 16 + b.toNat / 16),
        base64Digit (b.toNat % 16 * 4), 61]
  | a :: b :: c :: rest =>
      base64Digit (a.toNat / 4) :: base64Digit (a.toNat % 4 * 16 + b.toNat / 16) ::
        base64Digit (b.toNat % 16 * 4 + c.toNat / 64) :: base64Digit (c.toNat % 64) ::
          base64Line rest

def base64 (data : Bytes) : Bytes :=
  (List.range ((data.length + 56) / 57)).flatMap fun i =>
    base64Line ((data.drop (57 * i)).take 57) ++ [10]

def Block.serialize (b : Block) : Rlp :=
  .list (b.unsignedItems ++ [.int b.v, .int b.r, .int b.s])

def Block.raw (b : Block) : Bytes := base64 b.serialize.encode

/-- `rlp.decode(text.decode('base64'), Block)`, where it raises nothing. -/
class Wire where
  decodeBlock : Bytes → Option Block

inductive Packet where
  | getBlockNum (num : Nat)
  | getBlocks (num chunk : Nat)
  | getTxPool
  | setBlocks (peer : Nat) (blocks : List Bytes)
  | setBlock (block : Bytes)
  deriving DecidableEq

/-- `myFactory`. The last four fields tell which of its timers are running. -/
structure Factory where
  numBlock : Nat
  lastServedBlock : Nat
  blocks : AList fun _ : Nat => Bytes
  bootstrap : Bool
  ckNum : Bool
  txPool : Bool
  blockQueries : List (Nat × Int)
  ckNumBlocks : Bool
  ckBlocks : Bool
  ckTx : Bool
  ckDhtBlock : Bool

namespace Factory

def blockChunk : Nat := 10

def start (lastBlock : Nat) : Factory where
  numBlock := lastBlock
  lastServedBlock := lastBlock
  blocks := ∅
  bootstrap := true
  ckNum := false
  txPool := false
  blockQueries := []
  ckNumBlocks := true
  ckBlocks := false
  ckTx := false
  ckDhtBlock := false

def setNumBlocks (num : Nat) (f : Factory) : Factory :=
  if f.bootstrap then
    { f with numBlock := if f.numBlock < num then num else f.numBlock, ckNum := true }
  else f

section Wire

variable [Wire]

def setBlock (raw : Bytes) (f : Factory) : Factory :=
  match Wire.decodeBlock raw with
  | none => f
  | some block =>
      if f.numBlock + 1 = block.header.number then
        { f with blocks := f.blocks.insert block.header.number raw, numBlock := f.numBlock + 1 }
      else f

def storeBlock (raw : Bytes) (f : Factory) : Factory :=
  match Wire.decodeBlock raw with
  | none => f
  | some block =>
      if f.lastServedBlock < block.header.number ∧ block.header.number ∉ f.blocks then
        { f with blocks := f.blocks.insert block.header.number raw }
      else f

def setBlocks (raws : List Bytes) (f : Factory) : Factory :=
  if f.bootstrap then raws.foldl (fun f raw => storeBlock raw f) f else f

end Wire

def query (peer : Nat) (num : Int) (f : Factory) : Factory :=
  { f with
    blockQueries := if (peer, num) ∈ f.blockQueries then f.blockQueries
      else f.blockQueries ++ [(peer, num)] }

/-- `blocks.get(num)`, where no block has a negative number. -/
def blockAt (num : Int) (f : Factory) : Option Bytes :=
  if 0 ≤ num then f.blocks.lookup num.toNat else none

def getBlockNum (peer : Nat) (num : Int) (f : Factory) : Factory × List Packet :=
  if num ≤ f.lastServedBlock ∧ f.bootstrap = false then (f.query peer num, [])
  else if num ≤ f.numBlock then
    match f.blockAt num with
    | some raw => (f, [.setBlocks peer [raw]])
    | none => (f, [])
  else (f, [])

/-- The numbers of one `get_blocks` and the blocks that are there. -/
def chunk (peer : Nat) : List Int → Factory → Factory × List Bytes
  | [], f => (f, [])
  | n :: numbers, f =>
      if n ≤ f.lastServedBlock ∧ f.bootstrap = false then chunk peer numbers (f.query peer n)
      else
        let (g, blocks) := chunk peer numbers f
        match if n ≤ f.numBlock then f.blockAt n else none with
        | some raw => (g, raw :: blocks)
        | none => (g, blocks)

def chunkNumbers (num size : Int) : List Int :=
  (List.range size.toNat).map fun (i : Nat) => num + i

def getBlocks (peer : Nat) (num size : Int) (f : Factory) : Factory × List Packet :=
  match chunk peer (chunkNumbers num size) f with
  | (g, []) => (g, [])
  | (g, blocks) => (g, [.setBlocks peer blocks])

/-- `connectionLost` forgets what the peer asked for. -/
def connectionLost (peer : Nat) (f : Factory) : Factory :=
  { f with blockQueries := f.blockQueries.filter fun query => query.1 ≠ peer }

/-- `set_tx_pool`, of which only the flag matters here. -/
def setTxPool (f : Factory) : Factory :=
  if f.bootstrap && !f.txPool then { f with txPool := true } else f

def getBlock (f : Factory) : Factory × Option Bytes :=
  match f.blocks.lookup (f.lastServedBlock + 1) with
  | some (b :: rest) => ({ f with lastServedBlock := f.lastServedBlock + 1 }, some (b :: rest))
  | _ => (f, none)

/-- `set_block` of an own block, which goes to all peers. -/
def announce (raw : Bytes) (f : Factory) : Factory × List Packet :=
  ({ f with numBlock := f.numBlock + 1, lastServedBlock := f.lastServedBlock + 1 }, [.setBlock raw])

def askers (f : Factory) : List Nat := (f.blockQueries.map Prod.fst).dedup

def gather (f : Factory) : List Nat → List Int → List Int
  | [], numbers => numbers
  | peer :: peers, numbers =>
      let asked := (f.blockQueries.filter fun query => query.1 = peer).map Prod.snd
      let numbers := numbers ++ asked.filter fun num => num ∉ numbers
      if 10 ≤ numbers.length then numbers else gather f peers numbers

/-- `get_block_queries`, with the order in which the dictionary lists the peers and the set lists
the numbers. -/
def getBlockQueries (peers : List Nat) (listed : List Int → List Int) (f : Factory) :
    Option (List Int) :=
  if f.blockQueries = [] then none else some ((listed (f.gather peers [])).take 10)

section Wire

variable [Wire]

def discard (peer : Nat) (num : Int) (f : Factory) : Factory :=
  { f with blockQueries := f.blockQueries.filter fun query => query ≠ (peer, num) }

/-- What is in an answer for one peer. A block that cannot be decoded raises an exception. -/
def answerPeer (peer : Nat) : List Bytes → Factory → Factory × List Bytes × Bool
  | [], f => (f, [], true)
  | raw :: raws, f =>
      match Wire.decodeBlock raw with
      | none => (f, [], false)
      | some block =>
          if (peer, (block.header.number : Int)) ∈ f.blockQueries then
            let (g, blocks, decoded) := answerPeer peer raws (f.discard peer block.header.number)
            (g, raw :: blocks, decoded)
          else answerPeer peer raws f

def answerPeers (raws : List Bytes) : List Nat → Factory → Factory × List Packet
  | [], f => (f, [])
  | peer :: peers, f =>
      match answerPeer peer raws f with
      | (g, blocks, true) =>
          let (g, packets) := answerPeers raws peers g
          (g, .setBlocks peer blocks :: packets)
      | (g, _, false) => (g, [])

def answerBlockQueries (raws : List Bytes) (f : Factory) : Factory × List Packet :=
  answerPeers raws f.askers f

end Wire

/-- `get_blocks`: the requests in chunks, of which the last one is smaller. -/
def requests (f : Factory) : List Packet :=
  (List.range ((f.numBlock - f.lastServedBlock + blockChunk - 1) / blockChunk)).map fun i =>
    let first := f.lastServedBlock + 1 + blockChunk * i
    if f.numBlock < first + blockChunk - 1 then .getBlocks first (f.numBlock % blockChunk)
    else .getBlocks first blockChunk

def checkNumBlocks (f : Factory) : Factory × List Packet :=
  if f.ckNumBlocks && f.ckNum then ({ f with ckNumBlocks := false, ckBlocks := true }, f.requests)
  else (f, [])

/-- All blocks have come, judged by how many there are. -/
def downloaded (f : Factory) : Prop :=
  (f.blocks.keys.length : Int) = (f.numBlock : Int) - (f.lastServedBlock : Int)

instance (f : Factory) : Decidable f.downloaded := inferInstanceAs (Decidable (_ = _))

def checkAllBlocks (f : Factory) : Factory × List Packet :=
  if f.ckBlocks ∧ f.downloaded then ({ f with ckBlocks := false, ckTx := true }, [.getTxPool])
  else (f, [])

def checkTx (f : Factory) : Factory × List Packet :=
  if f.ckTx then
    if f.txPool then ({ f with ckTx := false, bootstrap := false, ckDhtBlock := true }, [])
    else (f, [.getTxPool])
  else (f, [])

/-- `check_blocks`, some time after the request of a chunk. -/
def checkBlocks (num : Nat) (f : Factory) : List Packet :=
  ((List.range' num blockChunk).filter fun i => i ∉ f.blocks ∧ i ≤ f.numBlock).map .getBlockNum

/-- `ask_dht`, with the number of the last block that the table answers. -/
def askDht (result : Option Nat) (f : Factory) : List Packet :=
  match result with
  | some last => (List.range' (f.numBlock + 1) (last - f.numBlock)).map .getBlockNum
  | none => []

inductive Event where
  | setNumBlocks (num : Nat)
  | setBlock (raw : Bytes)
  | setBlocks (raws : List Bytes)
  | getBlockNum (peer : Nat) (num : Int)
  | getBlocks (peer : Nat) (num size : Int)
  | connectionLost (peer : Nat)
  | setTxPool
  | getBlock
  | announce (raw : Bytes)
  | answerBlockQueries (raws : List Bytes)
  | checkNumBlocks
  | checkAllBlocks
  | checkTx
  | checkBlocks (num : Nat)
  | askDht (result : Option Nat)

variable [Wire]

def handle : Event → Factory → Factory
  | .setNumBlocks num, f => f.setNumBlocks num
  | .setBlock raw, f => f.setBlock raw
  | .setBlocks raws, f => f.setBlocks raws
  | .getBlockNum peer num, f => (f.getBlockNum peer num).1
  | .getBlocks peer num size, f => (f.getBlocks peer num size).1
  | .connectionLost peer, f => f.connectionLost peer
  | .setTxPool, f => f.setTxPool
  | .getBlock, f => f.getBlock.1
  | .announce raw, f => (f.announce raw).1
  | .answerBlockQueries raws, f => (f.answerBlockQueries raws).1
  | .checkNumBlocks, f => f.checkNumBlocks.1
  | .checkAllBlocks, f => f.checkAllBlocks.1
  | .checkTx, f => f.checkTx.1
  | .checkBlocks _, f | .askDht _, f => f

def run (events : List Event) (f : Factory) : Factory :=
  events.foldl (fun f e => handle e f) f

def served : List Event → Factory → List Bytes
  | [], _ => []
  | .getBlock :: events, f => f.getBlock.2.toList ++ served events f.getBlock.1
  | e :: events, f => served events (handle e f)

end Factory

end IPchain
