import IPchain.Utils
import Mathlib.Data.Nat.Digits.Defs

/-! The random numbers that the nodes agree on, and the addresses that they select. -/

namespace IPchain

open Lib

class Hashlib where
  sha256 : Bytes → Bytes
  sha256_length : ∀ data, (sha256 data).length = 32

/-- `hashlib.sha256(data).hexdigest()`. -/
def hexdigest [Hashlib] (data : Bytes) : Bytes := encodeHex (Hashlib.sha256 data)

/-- The message that the shares of the next block sign. -/
def beaconMessage (lastRandomNo : Bytes) (blockNum count : Nat) : Bytes :=
  lastRandomNo ++ strOfInt blockNum ++ strOfInt count

/-- `int(digits, 16)`, of a string without a sign, blanks or a prefix. -/
def intBase16 : Bytes → Except PyExc Nat
  | [] => .error ⟨.valueError, "invalid literal for int() with base 16"⟩
  | digits => digits.foldlM (fun n digit =>
      match hexValue digit with
      | some d => .ok (16 * n + d)
      | none => .error ⟨.valueError, "invalid literal for int() with base 16"⟩) 0

def remove0xHead (s : Bytes) : Bytes := if s.take 2 = [0x30, 0x78] then s.drop 2 else s

/-- `compress_random_no_to_int(s, 16)`: the groups of 16 digits, without the rest. -/
def compressRandomNoToInt (s : Bytes) : Except PyExc Nat :=
  let s := remove0xHead s
  (List.range (s.length / 16)).foldlM (fun number i => do
    let group ← intBase16 ((s.drop (16 * i)).take 16)
    return number ^^^ group) 0

def binZfill (n : Nat) : List Nat :=
  let bits := (Nat.digits 2 n).reverse
  List.replicate (256 - bits.length) 0 ++ bits

def bitAt (hash : List Nat) (i : Nat) : Except PyExc Nat :=
  match hash[i]? with
  | some bit => .ok bit
  | none => .error ⟨.indexError, "string index out of range"⟩

/-- The bits from `first` on, every group of them put into one. The exclusive or of a group
starts with its first bit, and goes on with the bit that is `skip` further. -/
def foldGroups (skip width : Nat) (hash : List Nat) : Except PyExc (List Nat) :=
  let ngroup := hash.length / width
  if ngroup = 0 then .error ⟨.valueError, "range() arg 3 must not be zero"⟩
  else
    (List.range' 0 ((hash.length + ngroup - 1) / ngroup) ngroup).mapM fun i => do
      let first ← bitAt hash i
      (List.range' (i + skip) (ngroup - skip)).foldlM (fun x j => do
        let bit ← bitAt hash j
        return x ^^^ bit) first

def consensusForIPv6 (hash : List Nat) : Except PyExc (List Nat) := foldGroups 1 128 hash

def consensusForIPv4 (hash : List Nat) : Except PyExc (List Nat) := foldGroups 0 32 hash

def netaddrOfInt (n : Nat) : Except PyExc IPAddress :=
  if small : n < 2 ^ Family.v4.width then .ok ⟨.v4, n, small⟩
  else if large : n < 2 ^ Family.v6.width then .ok ⟨.v6, n, large⟩
  else .error ⟨.addrFormatError, "failed to detect a valid IP address from " ++ toString n⟩

def formalizeIP (bits : List Nat) : Except PyExc IPAddress :=
  netaddrOfInt (bits.foldl (fun n bit => 2 * n + bit) 0)

/-- The address that signs after block `blockNumber`. The blocks that follow an even number
are about IPv6. -/
def selectSigner (randomNo : Bytes) (blockNumber : Nat) : Except PyExc IPAddress := do
  let randomNoInBits := binZfill (← intBase16 randomNo)
  if blockNumber % 2 ≠ 0 then formalizeIP (← consensusForIPv4 randomNoInBits)
  else formalizeIP (← consensusForIPv6 randomNoInBits)

end IPchain
