import IPchain.Exceptions
import IPchain.Lib.Network
import Mathlib.Data.Nat.Digits.Defs
import Mathlib.Tactic.IntervalCases

/-! Byte strings, account addresses and the encodings of utils.py and rlp. -/

namespace IPchain

open Lib

abbrev Bytes := List UInt8

instance instLawfulBEqBytes : LawfulBEq Bytes := inferInstance

structure Address where
  bytes : Bytes
  sized : bytes.length = 20
  deriving DecidableEq

theorem Address.ext {a b : Address} (same : a.bytes = b.bytes) : a = b := by
  cases a
  cases b
  cases same
  rfl

def nullAddress : Address := ⟨List.replicate 20 0xff, rfl⟩

inductive Item where
  | int (n : Int)
  | bytes (b : Bytes)
  deriving DecidableEq

def bytesToNat (data : Bytes) : Nat := data.foldl (fun n b => 256 * n + b.toNat) 0

theorem bytesToNat_foldl (data : Bytes) (n : Nat) :
    data.foldl (fun n b => 256 * n + b.toNat) n < 256 ^ data.length * (n + 1) := by
  induction data generalizing n with
  | nil => simp
  | cons b rest ih =>
      have bound := b.toNat_lt
      calc
        _ < 256 ^ rest.length * (256 * n + b.toNat + 1) := ih _
        _ ≤ 256 ^ rest.length * (256 * (n + 1)) := Nat.mul_le_mul_left _ (by omega)
        _ = 256 ^ (b :: rest).length * (n + 1) := by rw [List.length_cons, pow_succ, mul_assoc]

theorem bytesToNat_lt (data : Bytes) : bytesToNat data < 256 ^ data.length := by
  simpa [bytesToNat] using bytesToNat_foldl data 0

/-- `int('', 16)` is a ValueError, so the empty string stands for no number. -/
def bytesToInt (data : Bytes) : Except PyExc Nat :=
  if data = [] then .error ⟨.valueError, "invalid literal for int() with base 16: ''"⟩
  else .ok (bytesToNat data)

def bigEndian (width n : Nat) : Bytes :=
  (List.range width).reverse.map fun i => UInt8.ofNat (n / 256 ^ i)

theorem bigEndian_length (width n : Nat) : (bigEndian width n).length = width := by
  simp [bigEndian]

def intToBigEndian (n : Nat) : Bytes := (Nat.digits 256 n).reverse.map UInt8.ofNat

def encodeInt8 (n : Int) : Except PyExc Bytes :=
  if 0 ≤ n ∧ n < 256 then .ok [UInt8.ofNat n.toNat]
  else .error ⟨.structError, "ubyte format requires 0 <= number <= 255"⟩

def encodeInt32 (n : Nat) : Bytes :=
  List.replicate (32 - (intToBigEndian n).length) 0 ++ intToBigEndian n

def hexDigit (n : Nat) : UInt8 := UInt8.ofNat (if n < 10 then 48 + n else 87 + n)

def encodeHex (data : Bytes) : Bytes :=
  data.flatMap fun b => [hexDigit (b.toNat / 16), hexDigit (b.toNat % 16)]

def hexValue (digit : UInt8) : Option Nat :=
  let c := digit.toNat
  if 48 ≤ c ∧ c ≤ 57 then some (c - 48)
  else if 97 ≤ c ∧ c ≤ 102 then some (c - 87)
  else if 65 ≤ c ∧ c ≤ 70 then some (c - 55)
  else none

def decodeHex : Bytes → Except PyExc Bytes
  | [] => .ok []
  | [_] => .error ⟨.typeError, "Odd-length string"⟩
  | high :: low :: rest =>
      match hexValue high, hexValue low with
      | some h, some l => do
          let tail ← decodeHex rest
          return UInt8.ofNat (16 * h + l) :: tail
      | _, _ => .error ⟨.typeError, "Non-hexadecimal digit found"⟩

theorem hexValue_hexDigit (n : Nat) (small : n < 16) : hexValue (hexDigit n) = some n := by
  interval_cases n <;> rfl

theorem hexDigit_ne (n : Nat) (small : n < 16) : hexDigit n ≠ 0x78 := by
  interval_cases n <;> decide

theorem decodeHex_encodeHex (data : Bytes) : decodeHex (encodeHex data) = .ok data := by
  induction data with
  | nil => rfl
  | cons b rest ih =>
      have bound := b.toNat_lt
      have high := hexValue_hexDigit (b.toNat / 16) (by omega)
      have low := hexValue_hexDigit (b.toNat % 16) (Nat.mod_lt _ (by decide))
      change decodeHex (hexDigit (b.toNat / 16) :: hexDigit (b.toNat % 16) :: encodeHex rest) = _
      rw [decodeHex, high, low]
      simp only [ih, Nat.div_add_mod, UInt8.ofNat_toNat]
      rfl

theorem encodeHex_length (data : Bytes) : (encodeHex data).length = 2 * data.length := by
  induction data with
  | nil => rfl
  | cons b rest ih =>
      simp only [encodeHex, List.flatMap_cons, List.length_append, List.length_cons,
        List.length_nil] at ih ⊢
      omega

def intToAddr (x : Int) : Address :=
  ⟨bigEndian 20 (x % 2 ^ 160).toNat, by simp [bigEndian]⟩

/-- What the program calls and the repository does not contain: keccak, secp256k1, the
text parsers of ipaddr, and the order in which Python 2 walks through a dictionary. -/
class Platform where
  sha3 : Bytes → Bytes
  sha3_length : ∀ data, (sha3 data).length = 32
  ecdsaRawRecover : Bytes → Nat → Nat → Nat → Except PyExc (Option (Nat × Nat))
  parseAddress : (f : Family) → Bytes → Option {x : IPAddress // x.family = f}
  parseNetwork : (f : Family) → Bytes → Option {n : IPNetwork // n.family = f}
  items : ∀ {K V : Type}, List (K × V) → List (K × V)
  items_perm : ∀ {K V : Type} (l : List (K × V)), (items l).Perm l

section Platform

variable [Platform]

open Platform

def pubkeyToAddress (pubkey : Bytes) : Address :=
  ⟨(sha3 pubkey).drop 12, by rw [List.length_drop, sha3_length]⟩

def withoutMarker (x : Bytes) : Bytes :=
  if (x.length = 42 ∨ x.length = 50) ∧ x.take 2 = [0x30, 0x78] then x.drop 2 else x

def withoutHex (x : Bytes) : Except PyExc Bytes :=
  if x.length = 40 ∨ x.length = 48 then decodeHex x else .ok x

def withoutChecksum (x : Bytes) : Except PyExc Bytes :=
  if x.length = 24 then
    if (sha3 (x.take 20)).take 4 = x.drop 20 then .ok (x.take 20) else .error ⟨.assertionError, ""⟩
  else .ok x

def twentyBytes (x : Bytes) : Except PyExc Address :=
  if sized : x.length = 20 then .ok ⟨x, sized⟩
  else .error ⟨.exception, "Invalid address format"⟩

def normalizeAddress : Item → Except PyExc Address
  | .int x => .ok (intToAddr x)
  | .bytes x => (withoutHex (withoutMarker x)).bind fun x => (withoutChecksum x).bind twentyBytes

/-- With `allow_blank` the empty string is kept as it is. -/
def normalizeAddressOrBlank : Item → Except PyExc (Option Address)
  | .bytes [] => .ok none
  | x => some <$> normalizeAddress x

/-- `if result:` is false for the None of an unrecoverable signature. -/
def ecrecoverToPub (rawhash : Bytes) (v r s : Nat) : Except PyExc Bytes := do
  match ← ecdsaRawRecover rawhash v r s with
  | none => .error ⟨.valueError, "Invalid VRS"⟩
  | some (x, y) =>
      let pub := encodeInt32 x ++ encodeInt32 y
      if pub.length = 64 then pure pub else .error ⟨.assertionError, ""⟩

def secpk1n : Nat :=
  115792089237316195423570985008687907852837564279074904382605163141518161494337

/-- The signer of a transaction or of a block: `sighash` is the hash that was signed, or
`none` where no branch assigned it, and `cls` is the class raised for a bad signature. -/
def recoverSigner (cls : ExcClass) (sighash : Except PyExc (Option Bytes)) (v r s : Nat) :
    Except PyExc Address := do
  let sighash ← sighash
  if secpk1n ≤ r ∨ secpk1n ≤ s ∨ r = 0 ∨ s = 0 then .error ⟨cls, "Invalid signature values!"⟩
  else
    match sighash with
    | none => .error ⟨.unboundLocalError, "local variable 'sighash' referenced before assignment"⟩
    | some rawhash => do
        let pub ← ecrecoverToPub rawhash v r s
        if pub = List.replicate 64 0 then
          .error ⟨cls, "Invalid signature (zero privkey cannot sign)"⟩
        else pure (pubkeyToAddress pub)

theorem normalize_twenty {x : Bytes} (sized : x.length = 20) :
    (withoutChecksum x).bind twentyBytes = .ok ⟨x, sized⟩ := by
  rw [withoutChecksum, if_neg (by omega)]
  simp only [Except.bind, twentyBytes, dif_pos sized]

theorem normalizeAddress_bytes (a : Address) : normalizeAddress (.bytes a.bytes) = .ok a := by
  have sized := a.sized
  have same : withoutMarker a.bytes = a.bytes := if_neg (by omega)
  simp only [normalizeAddress, same, withoutHex, if_neg (show ¬(a.bytes.length = 40 ∨
    a.bytes.length = 48) by omega), Except.bind]
  exact normalize_twenty a.sized

theorem normalizeAddress_hex (a : Address) :
    normalizeAddress (.bytes (encodeHex a.bytes)) = .ok a := by
  have length : (encodeHex a.bytes).length = 40 := by rw [encodeHex_length, a.sized]
  have same : withoutMarker (encodeHex a.bytes) = encodeHex a.bytes := if_neg (by omega)
  simp only [normalizeAddress, same, withoutHex, if_pos (show (encodeHex a.bytes).length = 40 ∨
    (encodeHex a.bytes).length = 48 by omega), decodeHex_encodeHex, Except.bind]
  exact normalize_twenty a.sized

theorem normalizeAddress_blank :
    normalizeAddress (.bytes []) = .error ⟨.exception, "Invalid address format"⟩ := rfl

end Platform

def Lib.Family.packedSize (f : Family) : Nat := f.width / 8

/-- `IPv4Address(Bytes(b))` or `IPv6Address(Bytes(b))`. -/
def addressOfPacked (f : Family) (b : Bytes) : Except PyExc IPAddress :=
  if sized : b.length = f.packedSize then
    .ok ⟨f, bytesToNat b, by
      have bound := bytesToNat_lt b
      have width : 256 ^ f.packedSize = 2 ^ f.width := by cases f <;> rfl
      rwa [sized, width] at bound⟩
  else .error ⟨.addressValueError, ""⟩

def addressOfInt (f : Family) (n : Int) : Except PyExc IPAddress :=
  if bound : n.toNat < 2 ^ f.width ∧ 0 ≤ n then .ok ⟨f, n.toNat, bound.1⟩
  else .error ⟨.addressValueError, ""⟩

def packed (x : IPAddress) : Bytes := bigEndian x.family.packedSize x.value

def networkOf (x : IPAddress) (prefixlen : Nat) : Except PyExc IPNetwork :=
  if short : prefixlen ≤ x.family.width then .ok ⟨x.family, x.value, prefixlen, x.bound, short⟩
  else .error ⟨.netmaskValueError, ""⟩

def networkOfPacked (f : Family) (b : Bytes) : Except PyExc IPNetwork := do
  let x ← addressOfPacked f (b.take f.packedSize)
  match b[f.packedSize]? with
  | none => .error ⟨.indexError, "string index out of range"⟩
  | some prefixlen => networkOf x prefixlen.toNat

/-- `ip` is only assigned for the two known families. -/
def ipaddrToNetaddr (afi : Nat) (ipaddr : Bytes) : Except PyExc IPNetwork :=
  if afi = 1 then IPNetwork.ofAddress <$> addressOfPacked .v4 ipaddr
  else if afi = 2 then IPNetwork.ofAddress <$> addressOfPacked .v6 ipaddr
  else .error ⟨.unboundLocalError, "local variable 'ip' referenced before assignment"⟩

/-- The decimal digits of a number, which is what `Bytes` makes of an integer. -/
def strOfInt (n : Int) : Bytes := (toString n).toList.map fun c => UInt8.ofNat c.toNat

theorem packed_length (x : IPAddress) : (packed x).length = x.family.packedSize := by
  simp [packed, bigEndian]

inductive Rlp where
  | bytes (b : Bytes)
  | list (items : List Rlp)

def lengthPrefix (offset length : Nat) : Bytes :=
  if length < 56 then [UInt8.ofNat (offset + length)]
  else
    let digits := intToBigEndian length
    UInt8.ofNat (offset + 55 + digits.length) :: digits

mutual

def Rlp.encode : Rlp → Bytes
  | .bytes b =>
      match b with
      | [single] => if single < 0x80 then [single] else lengthPrefix 0x80 1 ++ [single]
      | many => lengthPrefix 0x80 many.length ++ many
  | .list items =>
      let payload := Rlp.encodeList items
      lengthPrefix 0xc0 payload.length ++ payload

def Rlp.encodeList : List Rlp → Bytes
  | [] => []
  | item :: rest => item.encode ++ Rlp.encodeList rest

end

def Rlp.int (n : Nat) : Rlp := .bytes (intToBigEndian n)

end IPchain
