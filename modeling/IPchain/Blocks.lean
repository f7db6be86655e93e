import IPchain.Lib.Program
import IPchain.Transactions

/-! Block headers and signed blocks. -/

namespace IPchain

open Lib Platform

structure BlockHeader where
  prevhash : Bytes
  timestamp : Nat
  extraData : Bytes
  stateRoot : Bytes
  txRoot : Bytes
  number : Nat
  coinbase : Bytes
  randomNumber : Bytes
  groupPubkey : Bytes
  groupSig : Bytes
  count : Nat
  deriving DecidableEq

/-- What a state keeps of an older header: all of it, or after a restart its hash,
number and timestamp alone. -/
inductive PrevHeader where
  | block (header : BlockHeader)
  | fake (hash : Bytes) (number timestamp : Nat)
  deriving DecidableEq

structure Block where
  header : BlockHeader
  transactions : List Transaction
  v : Nat
  r : Nat
  s : Nat
  cachedSigner : Option Address
  deriving DecidableEq

/-- The lengths of `hash32`, `trie_root` and `address`. -/
def BlockHeader.Fits (h : BlockHeader) : Prop :=
  h.prevhash.length = 32 ∧ (h.stateRoot.length = 32 ∨ h.stateRoot = []) ∧
    (h.txRoot.length = 32 ∨ h.txRoot = []) ∧ (h.coinbase.length = 20 ∨ h.coinbase = []) ∧
      h.randomNumber.length = 32

instance : DecidablePred BlockHeader.Fits := fun _ => inferInstanceAs (Decidable (_ ∧ _))

/-- `rlp.encode` raises for a header with a field of another length. -/
def BlockHeader.checkLengths (h : BlockHeader) : Except PyExc Unit :=
  if h.Fits then .ok () else .error ⟨.objectSerializationError, ""⟩

theorem BlockHeader.checkLengths_eq_ok {h : BlockHeader} : h.checkLengths = .ok () ↔ h.Fits := by
  rw [checkLengths]
  split
  · rename_i fits
    exact iff_of_true rfl fits
  · rename_i misfit
    exact iff_of_false nofun misfit

def BlockHeader.serialize (h : BlockHeader) : Rlp :=
  .list [.bytes h.prevhash, .int h.timestamp, .bytes h.extraData, .bytes h.stateRoot,
    .bytes h.txRoot, .int h.number, .bytes h.coinbase, .bytes h.randomNumber,
    .bytes h.groupPubkey, .bytes h.groupSig, .int h.count]

variable [Platform]

def BlockHeader.hash (h : BlockHeader) : Bytes := sha3 h.serialize.encode

namespace PrevHeader

def hash : PrevHeader → Bytes
  | .block h => h.hash
  | .fake hash _ _ => hash

def number : PrevHeader → Nat
  | .block h => h.number
  | .fake _ number _ => number

def timestamp : PrevHeader → Nat
  | .block h => h.timestamp
  | .fake _ _ timestamp => timestamp

end PrevHeader

namespace Block

def unsignedItems (b : Block) : List Rlp :=
  [b.header.serialize, .list (b.transactions.map Transaction.serialize)]

/-- Unlike a transaction, a block has no `network_id`. In the branch for `v >= 37` the missing
attribute makes `signer` itself be looked up in the header, which has none. -/
def sighash (b : Block) : Except PyExc (Option Bytes) :=
  if b.v = 27 ∨ b.v = 28 then do
    b.header.checkLengths
    return some (sha3 (Rlp.list b.unsignedItems).encode)
  else if 37 ≤ b.v then
    .error ⟨.attributeError, "'BlockHeader' object has no attribute 'signer'"⟩
  else .ok none

theorem sighash_of_fits {b : Block} (v : b.v = 27 ∨ b.v = 28) (fits : b.header.Fits) :
    b.sighash = .ok (some (sha3 (Rlp.list b.unsignedItems).encode)) := by
  rw [sighash, if_pos v, BlockHeader.checkLengths_eq_ok.mpr fits]
  rfl

def signer (b : Block) : Except PyExc Address :=
  match b.cachedSigner with
  | some a => .ok a
  | none =>
      if b.r = 0 ∧ b.s = 0 then .ok nullAddress
      else recoverSigner .invalidBlock b.sighash b.v b.r b.s

end Block

/-- The root hash that trie.py computes for a list of updates of an empty trie. -/
class TrieRoot where
  rootHash : List (Bytes × Bytes) → Bytes

def mkTransactionSha [TrieRoot] (transactions : List Transaction) : Bytes :=
  TrieRoot.rootHash (transactions.zipIdx.map fun (tx, i) =>
    ((Rlp.int i).encode, tx.serialize.encode))

end IPchain
