import IPchain.Lib.Program
import IPchain.Utils

/-! Transactions: what the constructor accepts, who signed, and which network is meant. -/

namespace IPchain

open Lib Platform

inductive RawMetadata where
  | bytes (b : Bytes)
  | list (items : List Item)

inductive Metadata where
  | bytes (b : Bytes)
  | list (items : List Bytes)
  deriving DecidableEq

def Metadata.rlp : Metadata → Rlp
  | .bytes b => .bytes b
  | .list items => .list (items.map .bytes)

/-- `toAddr` is the field `to`, `none` for the blank recipient, and `cachedSender` is the attribute
`_sender`. -/
structure Transaction where
  nonce : Nat
  category : Nat
  toAddr : Option Address
  afi : Nat
  value : Bytes
  metadata : Metadata
  time : Nat
  v : Nat
  r : Nat
  s : Nat
  cachedSender : Option Address
  deriving DecidableEq

def toBytes : Option Address → Bytes
  | none => []
  | some a => a.bytes

def invalid {α : Type} (text : String) : Except PyExc α := .error ⟨.invalidTransaction, text⟩

/-- `try: ... except: raise InvalidTransaction(text)`. -/
def orInvalid {α : Type} (text : String) : Except PyExc α → Except PyExc α
  | .ok a => .ok a
  | .error _ => invalid text

theorem orInvalid_eq_ok {α : Type} {text : String} {x : Except PyExc α} {a : α} :
    orInvalid text x = .ok a ↔ x = .ok a := by
  cases x <;> simp [orInvalid, invalid]

def familyOf (afi : Nat) : Family := if afi = 1 then .v4 else .v6

def storedAfi (asBytes : Bool) (item : Item) : Except PyExc (Nat × Bytes) :=
  match asBytes, item with
  | true, .bytes b => (fun n => (n, b)) <$> bytesToInt b
  | true, .int _ => .error ⟨.attributeError, "'int' object has no attribute 'encode'"⟩
  | false, .int n => (fun b => (n.toNat, b)) <$> encodeInt8 n
  | false, .bytes _ => .error ⟨.structError, "cannot convert argument to integer"⟩

def metadataAfi (asBytes : Bool) (item : Item) : Except PyExc (Nat × Bytes) := do
  let afi ← storedAfi asBytes item
  if afi.1 ≠ 1 ∧ afi.1 ≠ 2 then invalid "Invalid Metadata AFI" else pure afi

theorem bytesToInt_encodeInt8 {n : Int} {b : Bytes} (encoded : encodeInt8 n = .ok b) :
    bytesToInt b = .ok n.toNat := by
  simp only [encodeInt8] at encoded
  split at encoded
  · rename_i bounds
    cases encoded
    have small : n.toNat < 256 := by omega
    simp [bytesToInt, bytesToNat, Nat.mod_eq_of_lt small]
  · cases encoded

theorem metadataAfi_ok {asBytes : Bool} {item : Item} {n : Nat} {stored : Bytes}
    (read : metadataAfi asBytes item = .ok (n, stored)) :
    (n = 1 ∨ n = 2) ∧ bytesToInt stored = .ok n := by
  obtain ⟨afi, value, checked⟩ := except_bind_eq_ok.mp read
  have stores : bytesToInt afi.2 = .ok afi.1 := by
    rcases asBytes with _ | _ <;> rcases item with i | b <;>
      simp only [storedAfi, reduceCtorEq] at value
    · obtain ⟨c, encoded, rfl⟩ := except_map_eq_ok.mp value
      exact bytesToInt_encodeInt8 encoded
    · obtain ⟨c, decoded, rfl⟩ := except_map_eq_ok.mp value
      exact decoded
  split at checked
  · cases checked
  · rename_i known
    cases checked
    exact ⟨by omega, stores⟩

variable [Platform]

def metadataIp (asBytes : Bool) (afi : Nat) (item : Item) : Except PyExc Bytes :=
  let f := familyOf afi
  match asBytes, item with
  | true, .bytes b => packed <$> addressOfPacked f b
  | true, .int n => packed <$> addressOfPacked f (strOfInt n)
  | false, .int n => packed <$> addressOfInt f n
  | false, .bytes b =>
      match parseAddress f b with
      | some x => .ok (packed x.val)
      | none => .error ⟨.addressValueError, ""⟩

/-- A priority or a weight. In Python 2 a string is greater than every number. -/
def metadataByte (asBytes : Bool) (text : String) (item : Item) : Except PyExc Bytes :=
  match asBytes, item with
  | true, .bytes b => do
      let n ← bytesToInt b
      if 255 < n then invalid text else pure (intToBigEndian n)
  | true, .int _ => .error ⟨.attributeError, "'int' object has no attribute 'encode'"⟩
  | false, .int n => if n < 0 ∨ 255 < n then invalid text else .ok (intToBigEndian n.toNat)
  | false, .bytes _ => invalid text

def mapServerEntry (asBytes : Bool) (afi ip addr : Item) : Except PyExc (List Bytes) := do
  let (n, stored) ← orInvalid "Invalid Metadata AFI" (metadataAfi asBytes afi)
  orInvalid "Invalid Metadata" do
    let ip ← metadataIp asBytes n ip
    let addr ← normalizeAddressOrBlank addr
    pure [stored, ip, toBytes addr]

def mapServerEntries (asBytes : Bool) : List Item → Except PyExc (List Bytes)
  | [] => .ok []
  | afi :: ip :: addr :: rest => do
      let entry ← mapServerEntry asBytes afi ip addr
      let entries ← mapServerEntries asBytes rest
      pure (entry ++ entries)
  | _ => invalid "Invalid Metadata"

def locatorEntry (asBytes : Bool) (afi ip priority weight : Item) : Except PyExc (List Bytes) := do
  let (n, stored) ← orInvalid "Invalid Metadata AFI" (metadataAfi asBytes afi)
  orInvalid "Invalid Metadata" do
    let ip ← metadataIp asBytes n ip
    let priority ← metadataByte asBytes "Invalid Metadata Priority" priority
    let weight ← metadataByte asBytes "Invalid Metadata Weight" weight
    pure [stored, ip, priority, weight]

def locatorEntries (asBytes : Bool) : List Item → Except PyExc (List Bytes)
  | [] => .ok []
  | afi :: ip :: priority :: weight :: rest => do
      let entry ← locatorEntry asBytes afi ip priority weight
      let entries ← locatorEntries asBytes rest
      pure (entry ++ entries)
  | _ => invalid "Invalid Metadata"

def metadataList (size : Nat) (entries : Bool → List Item → Except PyExc (List Bytes)) :
    RawMetadata → Except PyExc Metadata
  | .bytes _ => invalid "Invalid Metadata"
  | .list items =>
      if items.length % size = 0 then
        match items with
        | [] => .error ⟨.indexError, "list index out of range"⟩
        | .bytes b :: rest => .list <$> entries true (.bytes b :: rest)
        | .int n :: rest => .list <$> entries false (.int n :: rest)
      else invalid "Invalid Metadata"

def checkMetadata (category : Nat) (metadata : RawMetadata) : Except PyExc Metadata :=
  match category with
  | 0 | 1 =>
      match metadata with
      | .bytes [] => .ok (.bytes [])
      | _ => invalid "Invalid Metadata"
  | 2 => metadataList 3 mapServerEntries metadata
  | 3 => metadataList 4 locatorEntries metadata
  | _ => invalid "Invalid Category"

/-- `IPv4Network(value)` or `IPv6Network(value)`. -/
def networkOfItem (f : Family) : Item → Except PyExc IPNetwork
  | .int n => do
      let x ← addressOfInt f n
      networkOf x f.width
  | .bytes b =>
      match parseNetwork f b with
      | some n => .ok n.val
      | none => .error ⟨.addressValueError, ""⟩

/-- A value that is no text is read by its length, whatever the address family says. -/
def checkValue (afi : Nat) (value : Item) : Except PyExc IPNetwork :=
  match networkOfItem (familyOf afi) value with
  | .ok n => .ok n
  | .error _ =>
      match value with
      | .int _ => .error ⟨.typeError, "object of type 'int' has no len()"⟩
      | .bytes b =>
          if b.length = 5 then orInvalid "Invalid Value" (networkOfPacked .v4 b)
          else if b.length = 17 then orInvalid "Invalid Value" (networkOfPacked .v6 b)
          else invalid "Invalid Value"

def valueOf (n : IPNetwork) : Bytes := packed n.ip ++ [UInt8.ofNat n.prefixlen]

namespace Transaction

def init (nonce category : Nat) (toAddr : Item) (afi : Nat) (value : Item) (metadata : RawMetadata)
    (time v r s : Nat) : Except PyExc Transaction := do
  let metadata ← checkMetadata category metadata
  let toAddr ← normalizeAddressOrBlank toAddr
  if afi ≠ 1 ∧ afi ≠ 2 then invalid "Invalid AFI"
  else do
    let network ← checkValue afi value
    pure ⟨nonce, category, toAddr, afi, valueOf network, metadata, time, v, r, s, none⟩

/-- What the constructor returns, before or after `sign` or `sender` filled in `_sender`. -/
def Accepted (tx : Transaction) : Prop :=
  ∃ nonce category toAddr afi value metadata time v r s,
    init nonce category toAddr afi value metadata time v r s = .ok { tx with cachedSender := none }

def unsignedItems (tx : Transaction) : List Rlp :=
  [.int tx.nonce, .int tx.category, .bytes (toBytes tx.toAddr), .bytes (bigEndian 1 tx.afi),
    .bytes tx.value, tx.metadata.rlp, .int tx.time]

def serialize (tx : Transaction) : Rlp :=
  .list (tx.unsignedItems ++ [.int tx.v, .int tx.r, .int tx.s])

def hash (tx : Transaction) : Bytes := sha3 tx.serialize.encode

/-- `none` where the property is None. -/
def networkId (tx : Transaction) : Option Int :=
  if tx.r = 0 ∧ tx.s = 0 then some tx.v
  else if tx.v = 27 ∨ tx.v = 28 then none
  else some (((tx.v : Int) - 1) / 2 - 17)

/-- The hash that was signed, if the branch that `v` selects assigns one. -/
def sighash (tx : Transaction) : Except PyExc (Option Bytes) :=
  if tx.v = 27 ∨ tx.v = 28 then .ok (some (sha3 (Rlp.list tx.unsignedItems).encode))
  else if 37 ≤ tx.v then
    let id := ((tx.v : Int) - 1) / 2 - 17
    let vee := (tx.v : Int) - id * 2 - 8
    if vee = 27 ∨ vee = 28 then
      .ok (some (sha3 (Rlp.list (tx.unsignedItems ++
        [.int id.toNat, .bytes [], .bytes []])).encode))
    else .error ⟨.assertionError, ""⟩
  else .ok none

def sender (tx : Transaction) : Except PyExc Address :=
  match tx.cachedSender with
  | some a => .ok a
  | none =>
      if tx.r = 0 ∧ tx.s = 0 then .ok nullAddress
      else recoverSigner .invalidTransaction tx.sighash tx.v tx.r tx.s

def ipNetwork (tx : Transaction) : Except PyExc IPNetwork :=
  networkOfPacked (familyOf tx.afi) tx.value

end Transaction

def AfiAddress (afi ip : Bytes) : Prop :=
  (bytesToInt afi = .ok 1 ∧ ip.length = 4) ∨ (bytesToInt afi = .ok 2 ∧ ip.length = 16)

def MapServerItems : List Bytes → Prop
  | [] => True
  | afi :: ip :: _ :: rest => AfiAddress afi ip ∧ MapServerItems rest
  | _ => False

def LocatorItems : List Bytes → Prop
  | [] => True
  | afi :: ip :: _ :: _ :: rest => AfiAddress afi ip ∧ LocatorItems rest
  | _ => False

theorem metadataIp_length {asBytes : Bool} {n : Nat} {item : Item} {ip : Bytes}
    (read : metadataIp asBytes n item = .ok ip) : ip.length = (familyOf n).packedSize := by
  have ofPacked {b : Bytes} {x : IPAddress} (done : addressOfPacked (familyOf n) b = .ok x) :
      x.family = familyOf n := by
    simp only [addressOfPacked] at done
    split at done <;> cases done
    rfl
  have ofInt {i : Int} {x : IPAddress} (done : addressOfInt (familyOf n) i = .ok x) :
      x.family = familyOf n := by
    simp only [addressOfInt] at done
    split at done <;> cases done
    rfl
  simp only [metadataIp] at read
  rcases asBytes with _ | _ <;> rcases item with i | b <;> simp only at read
  · obtain ⟨x, done, rfl⟩ := except_map_eq_ok.mp read
    rw [packed_length, ofInt done]
  · split at read
    · rename_i x parsed
      cases read
      rw [packed_length, x.property]
    · cases read
  · obtain ⟨x, done, rfl⟩ := except_map_eq_ok.mp read
    rw [packed_length, ofPacked done]
  · obtain ⟨x, done, rfl⟩ := except_map_eq_ok.mp read
    rw [packed_length, ofPacked done]

theorem afiAddress_of {asBytes : Bool} {afi ip : Item} {n : Nat} {stored address : Bytes}
    (first : metadataAfi asBytes afi = .ok (n, stored))
    (second : metadataIp asBytes n ip = .ok address) : AfiAddress stored address := by
  obtain ⟨known, reads⟩ := metadataAfi_ok first
  have length := metadataIp_length second
  rcases known with rfl | rfl
  · exact Or.inl ⟨reads, length⟩
  · exact Or.inr ⟨reads, length⟩

theorem mapServerEntries_shape (asBytes : Bool) (items : List Item) (stored : List Bytes)
    (read : mapServerEntries asBytes items = .ok stored) : MapServerItems stored := by
  fun_induction mapServerEntries asBytes items generalizing stored with
  | case1 =>
      cases read
      trivial
  | case2 afi ip addr rest ih =>
      obtain ⟨entry, one, more⟩ := except_bind_eq_ok.mp read
      obtain ⟨entries, others, result⟩ := except_bind_eq_ok.mp more
      cases result
      obtain ⟨family, known, body⟩ := except_bind_eq_ok.mp one
      obtain ⟨address, located, body⟩ := except_bind_eq_ok.mp (orInvalid_eq_ok.mp body)
      obtain ⟨account, -, result⟩ := except_bind_eq_ok.mp body
      cases result
      exact ⟨afiAddress_of (orInvalid_eq_ok.mp known) located, ih entries others⟩
  | case3 => cases read

theorem locatorEntries_shape (asBytes : Bool) (items : List Item) (stored : List Bytes)
    (read : locatorEntries asBytes items = .ok stored) : LocatorItems stored := by
  fun_induction locatorEntries asBytes items generalizing stored with
  | case1 =>
      cases read
      trivial
  | case2 afi ip priority weight rest ih =>
      obtain ⟨entry, one, more⟩ := except_bind_eq_ok.mp read
      obtain ⟨entries, others, result⟩ := except_bind_eq_ok.mp more
      cases result
      obtain ⟨family, known, body⟩ := except_bind_eq_ok.mp one
      obtain ⟨address, located, body⟩ := except_bind_eq_ok.mp (orInvalid_eq_ok.mp body)
      obtain ⟨first, -, body⟩ := except_bind_eq_ok.mp body
      obtain ⟨second, -, result⟩ := except_bind_eq_ok.mp body
      cases result
      exact ⟨afiAddress_of (orInvalid_eq_ok.mp known) located, ih entries others⟩
  | case3 => cases read

omit [Platform] in
theorem metadataList_shape {size : Nat} {entries : Bool → List Item → Except PyExc (List Bytes)}
    {Shape : List Bytes → Prop}
    (shaped : ∀ asBytes items stored, entries asBytes items = .ok stored → Shape stored)
    {raw : RawMetadata} {metadata : Metadata} (read : metadataList size entries raw = .ok metadata) :
    ∃ stored, metadata = .list stored ∧ Shape stored := by
  cases raw with
  | bytes b => cases read
  | list items =>
      simp only [metadataList] at read
      split at read
      · split at read
        · cases read
        · obtain ⟨stored, done, rfl⟩ := except_map_eq_ok.mp read
          exact ⟨stored, rfl, shaped _ _ _ done⟩
        · obtain ⟨stored, done, rfl⟩ := except_map_eq_ok.mp read
          exact ⟨stored, rfl, shaped _ _ _ done⟩
      · cases read

theorem Transaction.Accepted.checked {tx : Transaction} (accepted : tx.Accepted) :
    ∃ raw, checkMetadata tx.category raw = .ok tx.metadata := by
  obtain ⟨nonce, category, toAddr, afi, value, raw, time, v, r, s, built⟩ := accepted
  obtain ⟨metadata, checked, built⟩ := except_bind_eq_ok.mp built
  obtain ⟨to', -, built⟩ := except_bind_eq_ok.mp built
  split at built
  · cases built
  · obtain ⟨network, -, built⟩ := except_bind_eq_ok.mp built
    have same := Except.ok.inj built
    simp only [Transaction.mk.injEq] at same
    exact ⟨raw, same.2.1 ▸ same.2.2.2.2.2.1 ▸ checked⟩

theorem Transaction.Accepted.mapServer {tx : Transaction} (accepted : tx.Accepted)
    (category : tx.category = 2) : ∃ items, tx.metadata = .list items ∧ MapServerItems items := by
  obtain ⟨raw, checked⟩ := accepted.checked
  rw [category] at checked
  exact metadataList_shape mapServerEntries_shape checked

theorem Transaction.Accepted.locator {tx : Transaction} (accepted : tx.Accepted)
    (category : tx.category = 3) : ∃ items, tx.metadata = .list items ∧ LocatorItems items := by
  obtain ⟨raw, checked⟩ := accepted.checked
  rw [category] at checked
  exact metadataList_shape locatorEntries_shape checked

end IPchain
