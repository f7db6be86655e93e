import IPchain.Retrieval

/-! What a peer recovers from the encoding of a transaction or of a block: its fields, its hash
and the account that signed it. -/

namespace IPchain

open Lib Platform

section Wire

variable [Platform]

/-- The constructor accepts the stored value and the stored metadata again, and as they are. -/
def Transaction.Durable (tx : Transaction) : Prop :=
  ¬ tx.Misread ∧ (tx.category = 3 → [] ∉ tx.metadata.elements)

instance (tx : Transaction) : Decidable tx.Durable :=
  inferInstanceAs (Decidable (¬ tx.Misread ∧ (tx.category = 3 → [] ∉ tx.metadata.elements)))

omit [Platform] in
theorem metadataByte_nonempty {text : String} {b c : Bytes}
    (read : metadataByte true text (.bytes b) = .ok c) : b ≠ [] := by
  rintro rfl
  cases read

theorem locatorEntries_nonempty {stored entries : List Bytes} (shaped : LocatorItems stored)
    (read : locatorEntries true (stored.map Item.bytes) = .ok entries) : [] ∉ stored := by
  fun_induction LocatorItems stored generalizing entries with
  | case1 => exact List.not_mem_nil
  | case2 afi ip priority weight rest ih =>
      obtain ⟨entry, one, more⟩ := except_bind_eq_ok.mp read
      obtain ⟨others, later, -⟩ := except_bind_eq_ok.mp more
      obtain ⟨known, shaped⟩ := shaped
      obtain ⟨family, -, body⟩ := except_bind_eq_ok.mp one
      obtain ⟨address, -, body⟩ := except_bind_eq_ok.mp (orInvalid_eq_ok.mp body)
      obtain ⟨p, first, body⟩ := except_bind_eq_ok.mp body
      obtain ⟨w, second, -⟩ := except_bind_eq_ok.mp body
      have priority := metadataByte_nonempty first
      have weight := metadataByte_nonempty second
      have numbered : afi ≠ [] ∧ ip ≠ [] := by
        constructor
        · rintro rfl
          rcases known with ⟨read, -⟩ | ⟨read, -⟩ <;> cases read
        · rintro rfl
          rcases known with ⟨-, sized⟩ | ⟨-, sized⟩ <;> cases sized
      simp only [List.mem_cons, not_or]
      exact ⟨Ne.symm numbered.1, Ne.symm numbered.2, Ne.symm priority, Ne.symm weight,
        ih shaped later⟩
  | case3 => exact shaped.elim

namespace Transaction

theorem Accepted.nonzero {tx u : Transaction} (accepted : tx.Accepted)
    (read : tx.decoded = .ok u) (category : tx.category = 3) : [] ∉ tx.metadata.elements := by
  obtain ⟨items, listed, shaped⟩ := accepted.locator category
  obtain ⟨metadata, checked, -⟩ := except_bind_eq_ok.mp read
  rw [category, listed] at checked
  rw [listed]
  cases items with
  | nil => exact List.not_mem_nil
  | cons first rest =>
      simp only [checkMetadata, Metadata.raw, metadataList, List.map_cons] at checked
      split at checked
      · obtain ⟨entries, done, -⟩ := except_map_eq_ok.mp checked
        exact locatorEntries_nonempty shaped done
      · cases checked

/-- A peer gets the transaction as it was if and only if it is durable. -/
theorem survives_wire_iff {tx : Transaction} (accepted : tx.Accepted) :
    (∃ u, tx.decoded = .ok u ∧ { u with cachedSender := none } = { tx with cachedSender := none } ∧
      u.hash = tx.hash ∧ u.sender = sender { tx with cachedSender := none }) ↔ tx.Durable := by
  constructor
  · rintro ⟨u, read, same, -⟩
    have nonzero := accepted.nonzero read
    rw [accepted.decoded nonzero] at read
    cases read
    simp only [mk.injEq] at same
    exact ⟨not_not.mpr same.2.2.2.2.1, nonzero⟩
  · rintro ⟨clear, nonzero⟩
    exact ⟨_, accepted.decoded_eq nonzero clear, rfl, rfl, rfl⟩

end Transaction

end Wire

namespace Sample

def located (priority weight : Bytes) : Transaction :=
  ⟨0, 3, none, 1, valueOf (net 0 9), .list [[1], [10, 0, 0, 1], priority, weight], 0, 0, 0, 0, none⟩

def locate (priority weight : Int) : Except PyExc Transaction :=
  Transaction.init 0 3 (.bytes []) 1 (.bytes (valueOf (net 0 9)))
    (.list [.int 1, .int 0x0a000001, .int priority, .int weight]) 0 0 0 0

theorem located_accepted : (located [1] [100]).Accepted :=
  ⟨0, 3, .bytes [], 1, .bytes (valueOf (net 0 9)),
    .list [.int 1, .int 0x0a000001, .int 1, .int 100], 0, 0, 0, 0, rfl⟩

theorem located_survives : ∃ u, (located [1] [100]).decoded = .ok u ∧
    { u with cachedSender := none } = { located [1] [100] with cachedSender := none } ∧
      u.hash = (located [1] [100]).hash ∧
      u.sender = Transaction.sender { located [1] [100] with cachedSender := none } :=
  (Transaction.survives_wire_iff located_accepted).mpr (by decide)

/-- The priority 0 is stored as the empty string, which no peer can read. -/
theorem zero_priority_lost : locate 0 100 = .ok (located [] [100]) ∧
    ¬ ∃ u, (located [] [100]).decoded = .ok u ∧
      { u with cachedSender := none } = { located [] [100] with cachedSender := none } ∧
        u.hash = (located [] [100]).hash ∧
        u.sender = Transaction.sender { located [] [100] with cachedSender := none } := by
  refine ⟨rfl, ?_⟩
  rintro ⟨u, read, -⟩
  have refused : (located [] [100]).decoded = .error ⟨.invalidTransaction, "Invalid Metadata"⟩ := rfl
  rw [refused] at read
  cases read

end Sample

class Curve where
  privtopub : Bytes → Nat × Nat
  ecdsaRawSign : Bytes → Bytes → Nat × Nat × Nat

section Keys

variable [Platform]

def checkKey (key : Bytes) : Except PyExc Bytes :=
  if key = List.replicate 32 0 then .error ⟨.exception, "Zero privkey invalid"⟩ else .ok key

def normalizeKey : Item → Except PyExc Bytes
  | .int key =>
      if key < 0 then .error ⟨.exception, "Cannot serialize negative integers"⟩
      else checkKey (encodeInt32 key.toNat)
  | .bytes key =>
      if key.length = 32 then checkKey key
      else if key.length = 64 then do
        let key ← decodeHex key
        checkKey key
      else if key.length = 66 ∧ key.take 2 = [0x30, 0x78] then do
        let key ← decodeHex (key.drop 2)
        checkKey key
      else .error ⟨.exception, "Invalid key format"⟩

def publicKey [Curve] (key : Bytes) : Bytes :=
  encodeInt32 (Curve.privtopub key).1 ++ encodeInt32 (Curve.privtopub key).2

def privtoaddr [Curve] (key : Item) : Except PyExc Address := do
  let key ← normalizeKey key
  return pubkeyToAddress (publicKey key)

def rawhash (unsignedItems : List Rlp) : Option Nat → Except PyExc Bytes
  | none => .ok (sha3 (Rlp.list unsignedItems).encode)
  | some id =>
      if 1 ≤ id ∧ id < 2 ^ 63 - 18 then
        .ok (sha3 (Rlp.list (unsignedItems ++ [.int id, .bytes [], .bytes []])).encode)
      else .error ⟨.assertionError, ""⟩

/-- The values that `sign` gives to `v`, `r`, `s` and to the noted account. -/
def signature [Curve] (unsignedItems : List Rlp) (key : Item) (networkId : Option Nat) :
    Except PyExc (Nat × Nat × Nat × Address) := do
  let hash ← rawhash unsignedItems networkId
  let key ← normalizeKey key
  let (v, r, s) := Curve.ecdsaRawSign hash key
  return (v + (networkId.map fun id => 8 + id * 2).getD 0, r, s, pubkeyToAddress (publicKey key))

def Transaction.signWith [Curve] (key : Item) (networkId : Option Nat) (tx : Transaction) :
    Except PyExc Transaction := do
  let (v, r, s, sender) ← signature tx.unsignedItems key networkId
  return { tx with v := v, r := r, s := s, cachedSender := some sender }

def Block.signWith [Curve] (key : Item) (networkId : Option Nat) (block : Block) :
    Except PyExc Block := do
  -- the assertion on the network comes before the encoding
  let _ ← rawhash block.unsignedItems networkId
  block.header.checkLengths
  let (v, r, s, signer) ← signature block.unsignedItems key networkId
  return { block with v := v, r := r, s := s, cachedSigner := some signer }

/-- What py_ecc promises: recovery inverts signing, refuses a `v` above 34, and the parts of a
signature and of a point are in their ranges. -/
structure LawfulCurve [Curve] : Prop where
  recovers : ∀ hash key v r s, Curve.ecdsaRawSign hash key = (v, r, s) →
    ecdsaRawRecover hash v r s = .ok (some (Curve.privtopub key))
  parity : ∀ hash key v r s, Curve.ecdsaRawSign hash key = (v, r, s) → v = 27 ∨ v = 28
  scalars : ∀ hash key v r s, Curve.ecdsaRawSign hash key = (v, r, s) →
    0 < r ∧ r < secpk1n ∧ 0 < s ∧ s < secpk1n
  coordinates : ∀ key, (Curve.privtopub key).1 < 2 ^ 256 ∧ (Curve.privtopub key).2 < 2 ^ 256
  refuses : ∀ hash v r s p, 34 < v → ecdsaRawRecover hash v r s ≠ .ok (some p)

omit [Platform] in
theorem encodeInt32_length {n : Nat} (small : n < 2 ^ 256) : (encodeInt32 n).length = 32 := by
  have digits : (intToBigEndian n).length ≤ 32 := by
    rw [intToBigEndian, List.length_map, List.length_reverse]
    exact (Nat.digits_length_le_iff (by decide) n).mpr small
  rw [encodeInt32, List.length_append, List.length_replicate]
  omega

omit [Platform] in
theorem encodeInt32_eq_zero {n : Nat} :
    encodeInt32 n = List.replicate 32 0 ↔ n = 0 := by
  constructor
  · intro zero
    have value := congrArg bytesToNat zero
    rw [encodeInt32, bytesToNat_padded, bytesToNat_intToBigEndian] at value
    exact value
  · rintro rfl
    rfl

variable [Curve]

/-- The key is no multiple of the curve order, so its point is not the one at infinity. -/
def ProperKey (key : Bytes) : Prop := Curve.privtopub key ≠ (0, 0)

theorem publicKey_length (lawful : LawfulCurve) (key : Bytes) : (publicKey key).length = 64 := by
  obtain ⟨x, y⟩ := lawful.coordinates key
  rw [publicKey, List.length_append, encodeInt32_length x, encodeInt32_length y]

theorem publicKey_eq_zero (lawful : LawfulCurve) (key : Bytes) :
    publicKey key = List.replicate 64 0 ↔ ¬ ProperKey key := by
  have split : List.replicate 64 (0 : UInt8) = List.replicate 32 0 ++ List.replicate 32 0 := rfl
  have length := encodeInt32_length (lawful.coordinates key).1
  rw [publicKey, split, ProperKey, not_not, Prod.ext_iff, ← encodeInt32_eq_zero,
    ← encodeInt32_eq_zero]
  constructor
  · intro same
    exact List.append_inj same length
  · rintro ⟨x, y⟩
    rw [x, y]

theorem recoverSigner_signed (lawful : LawfulCurve) (cls : ExcClass) {hash key : Bytes}
    {v r s : Nat} (signed : Curve.ecdsaRawSign hash key = (v, r, s)) (a : Address) :
    recoverSigner cls (.ok (some hash)) v r s = .ok a ↔
      ProperKey key ∧ pubkeyToAddress (publicKey key) = a := by
  obtain ⟨rPos, rLow, sPos, sLow⟩ := lawful.scalars hash key v r s signed
  have pub : ecrecoverToPub hash v r s = .ok (publicKey key) := by
    rw [ecrecoverToPub, lawful.recovers hash key v r s signed]
    exact if_pos (publicKey_length lawful key)
  have ranges : ¬ (secpk1n ≤ r ∨ secpk1n ≤ s ∨ r = 0 ∨ s = 0) := by omega
  simp only [recoverSigner, bind, Except.bind, if_neg ranges, pub]
  by_cases zero : publicKey key = List.replicate 64 0
  · rw [if_pos zero]
    have improper := (publicKey_eq_zero lawful key).mp zero
    constructor
    · intro done
      cases done
    · rintro ⟨proper, -⟩
      exact absurd proper improper
  · rw [if_neg zero]
    have proper := not_not.mp (mt (publicKey_eq_zero lawful key).mpr zero)
    constructor
    · intro done
      exact ⟨proper, Except.ok.inj done⟩
    · rintro ⟨-, rfl⟩
      rfl

theorem recoverSigner_networked (lawful : LawfulCurve) (cls : ExcClass)
    (sighash : Except PyExc (Option Bytes)) {v : Nat} (high : 34 < v) (r s : Nat) (a : Address) :
    recoverSigner cls sighash v r s ≠ .ok a := by
  intro done
  obtain ⟨hash, -, rest⟩ := except_bind_eq_ok.mp done
  split at rest
  · cases rest
  · split at rest
    · cases rest
    · rename_i rawhash
      obtain ⟨pub, recovered, -⟩ := except_bind_eq_ok.mp rest
      obtain ⟨point, found, result⟩ := except_bind_eq_ok.mp recovered
      cases point with
      | none => cases result
      | some p => exact lawful.refuses rawhash v r s p high found

theorem signature_eq_ok {unsignedItems : List Rlp} {key : Item} {networkId : Option Nat}
    {v r s : Nat} {a : Address}
    (signed : signature unsignedItems key networkId = .ok (v, r, s, a)) :
    ∃ hash k u, rawhash unsignedItems networkId = .ok hash ∧ normalizeKey key = .ok k ∧
      Curve.ecdsaRawSign hash k = (u, r, s) ∧ pubkeyToAddress (publicKey k) = a ∧
      v = u + (networkId.map fun id => 8 + id * 2).getD 0 := by
  obtain ⟨hash, hashed, rest⟩ := except_bind_eq_ok.mp signed
  obtain ⟨k, normal, result⟩ := except_bind_eq_ok.mp rest
  cases same : Curve.ecdsaRawSign hash k with
  | mk u rs =>
      obtain ⟨r', s'⟩ := rs
      simp only [same] at result
      cases result
      exact ⟨hash, k, u, hashed, normal, same, rfl, rfl⟩

/-- The key that was given to `sign`, in its 32 bytes, is proper. -/
def Proper (key : Item) : Prop := ∀ k, normalizeKey key = .ok k → ProperKey k

theorem signature_high (lawful : LawfulCurve) {unsignedItems : List Rlp} {key : Item} {id : Nat}
    {v r s : Nat} {a : Address}
    (signed : signature unsignedItems key (some id) = .ok (v, r, s, a)) : 34 < v := by
  obtain ⟨hash, k, u, hashed, -, pair, -, rfl⟩ := signature_eq_ok signed
  have parity := lawful.parity hash k u r s pair
  have positive : 1 ≤ id := by
    simp only [rawhash] at hashed
    split at hashed
    · rename_i bounds
      exact bounds.1
    · cases hashed
  simp only [Option.map_some, Option.getD_some]
  omega

theorem recoverSigner_plain (lawful : LawfulCurve) {cls : ExcClass} {unsignedItems : List Rlp}
    {key : Item} {networkId : Option Nat} {v r s : Nat} {a b : Address}
    (signed : signature unsignedItems key networkId = .ok (v, r, s, a))
    {sighash : Except PyExc (Option Bytes)} (done : recoverSigner cls sighash v r s = .ok b) :
    networkId = none := by
  cases networkId with
  | none => rfl
  | some id =>
      exact absurd done (recoverSigner_networked lawful cls sighash (signature_high lawful signed) r s b)

theorem recoverSigner_signature (lawful : LawfulCurve) (cls : ExcClass)
    {unsignedItems : List Rlp} {key : Item} {networkId : Option Nat} {v r s : Nat} {a : Address}
    (signed : signature unsignedItems key networkId = .ok (v, r, s, a))
    (sighash : Except PyExc (Option Bytes))
    (reads : v = 27 ∨ v = 28 → sighash = .ok (some (sha3 (Rlp.list unsignedItems).encode))) :
    recoverSigner cls sighash v r s = .ok a ↔ networkId = none ∧ Proper key := by
  cases networkId with
  | none =>
      obtain ⟨hash, k, u, hashed, normal, pair, rfl, rfl⟩ := signature_eq_ok signed
      cases hashed
      rw [reads (lawful.parity _ k _ r s pair)]
      have proper : Proper key ↔ ProperKey k := by
        rw [Proper, normal]
        simp
      simp only [recoverSigner_signed lawful cls pair, and_true, true_and, proper]
  | some id =>
      have high := signature_high lawful signed
      simp [recoverSigner_networked lawful cls sighash high]

omit [Curve] in
theorem decodeTransactions_member {txs read : List Transaction}
    (decoded : decodeTransactions txs = .ok read) {tx : Transaction} (member : tx ∈ txs) :
    ∃ u, tx.decoded = .ok u := by
  induction txs generalizing read with
  | nil => cases member
  | cons first rest ih =>
      obtain ⟨u, head, more⟩ := except_bind_eq_ok.mp decoded
      obtain ⟨others, tail, -⟩ := except_bind_eq_ok.mp more
      rcases List.mem_cons.mp member with rfl | later
      · exact ⟨u, head⟩
      · exact ih tail later

omit [Curve] in
theorem Transaction.Accepted.resign {tx : Transaction} (accepted : tx.Accepted) (v r s : Nat)
    (sender : Option Address) :
    Transaction.Accepted { tx with v := v, r := r, s := s, cachedSender := sender } := by
  obtain ⟨nonce, category, toAddr, afi, value, raw, time, v', r', s', built⟩ := accepted
  refine ⟨nonce, category, toAddr, afi, value, raw, time, v, r, s, ?_⟩
  obtain ⟨metadata, checked, rest⟩ := except_bind_eq_ok.mp built
  obtain ⟨holder, named, rest⟩ := except_bind_eq_ok.mp rest
  rw [Transaction.init, checked, named]
  simp only [bind, Except.bind]
  split at rest
  · cases rest
  · rename_i known
    obtain ⟨network, read, result⟩ := except_bind_eq_ok.mp rest
    have same := Except.ok.inj result
    simp only [Transaction.mk.injEq] at same
    obtain ⟨rfl, rfl, rfl, rfl, value, rfl, rfl, -⟩ := same
    rw [if_neg known, read, ← value]
    rfl

theorem privtoaddr_signature {unsignedItems : List Rlp} {key : Item} {networkId : Option Nat}
    {v r s : Nat} {a : Address}
    (signed : signature unsignedItems key networkId = .ok (v, r, s, a)) :
    privtoaddr key = .ok a := by
  obtain ⟨hash, k, u, -, normal, -, rfl, -⟩ := signature_eq_ok signed
  rw [privtoaddr, normal]
  rfl

theorem signature_scalars (lawful : LawfulCurve) {unsignedItems : List Rlp} {key : Item}
    {networkId : Option Nat} {v r s : Nat} {a : Address}
    (signed : signature unsignedItems key networkId = .ok (v, r, s, a)) : ¬ (r = 0 ∧ s = 0) := by
  obtain ⟨hash, k, u, -, -, pair, -, -⟩ := signature_eq_ok signed
  obtain ⟨positive, -⟩ := lawful.scalars hash k u r s pair
  omega

/-- A peer that decodes the signed transaction finds the owner of the key. -/
def Transaction.Recovered (key : Item) (signed : Transaction) : Prop :=
  ∃ u, signed.decoded = .ok u ∧ u.sender = privtoaddr key

/-- A peer that decodes the signed block finds the owner of the key. -/
def Block.Recovered (key : Item) (signed : Block) : Prop :=
  ∃ u, signed.decoded = .ok u ∧ u.signer = privtoaddr key

theorem Transaction.recovered_iff (lawful : LawfulCurve) {tx signed : Transaction}
    (accepted : tx.Accepted) {key : Item} {networkId : Option Nat}
    (done : tx.signWith key networkId = .ok signed) :
    (tx.Durable → (signed.Recovered key ↔ networkId = none ∧ Proper key)) ∧
      (signed.Recovered key →
        networkId = none ∧ (tx.category = 3 → [] ∉ tx.metadata.elements)) := by
  obtain ⟨⟨v, r, s, a⟩, pair, result⟩ := except_bind_eq_ok.mp done
  cases result
  have accepted' := accepted.resign v r s (some a)
  have unsigned := signature_scalars lawful pair
  have owner := privtoaddr_signature pair
  constructor
  · rintro ⟨clear, nonzero⟩
    have read := accepted'.decoded_eq nonzero clear
    have recovers := recoverSigner_signature lawful .invalidTransaction pair
      (Transaction.sighash { tx with v := v, r := r, s := s, cachedSender := none })
      fun plain => if_pos plain
    rw [← recovers, Recovered, read, owner]
    simp only [Except.ok.injEq, exists_eq_left', sender, if_neg unsigned]
  · rintro ⟨u, read, recovered⟩
    have nonzero := accepted'.nonzero read
    refine ⟨?_, nonzero⟩
    rw [accepted'.decoded nonzero] at read
    cases read
    rw [owner] at recovered
    simp only [sender, if_neg unsigned] at recovered
    exact recoverSigner_plain lawful pair recovered

theorem Block.recovered_iff (lawful : LawfulCurve) {block signed : Block}
    (accepted : ∀ tx ∈ block.transactions, tx.Accepted) {key : Item} {networkId : Option Nat}
    (done : block.signWith key networkId = .ok signed) :
    ((∀ tx ∈ block.transactions, tx.Durable) →
      (signed.Recovered key ↔ networkId = none ∧ Proper key)) ∧
      (signed.Recovered key → networkId = none ∧
        ∀ tx ∈ block.transactions, tx.category = 3 → [] ∉ tx.metadata.elements) := by
  obtain ⟨_, -, rest⟩ := except_bind_eq_ok.mp done
  obtain ⟨_, checked, rest⟩ := except_bind_eq_ok.mp rest
  obtain ⟨⟨v, r, s, a⟩, pair, result⟩ := except_bind_eq_ok.mp rest
  cases result
  have unsigned := signature_scalars lawful pair
  have owner := privtoaddr_signature pair
  constructor
  · intro durable
    have each : ∀ tx ∈ block.transactions, tx.decoded = .ok { tx with cachedSender := none } :=
      fun tx member =>
        (accepted tx member).decoded_eq (durable tx member).2 (durable tx member).1
    have items : Block.unsignedItems { block with
        transactions := block.transactions.map fun tx => { tx with cachedSender := none } } =
        block.unsignedItems := by
      rw [unsignedItems, unsignedItems, List.map_map]
      rfl
    have recovers := recoverSigner_signature lawful .invalidBlock pair
      (Block.sighash ⟨block.header,
        block.transactions.map fun tx => { tx with cachedSender := none }, v, r, s, none⟩)
      fun plain => (if_pos plain).trans (by rw [checked, ← items]; rfl)
    rw [← recovers, Recovered, Block.decoded, decodeTransactions_eq each, owner]
    simp only [bind, Except.bind, pure, Except.pure, Except.ok.injEq, exists_eq_left', signer,
      if_neg unsigned]
  · rintro ⟨u, read, recovered⟩
    obtain ⟨transactions, each, result⟩ := except_bind_eq_ok.mp read
    cases result
    rw [owner] at recovered
    simp only [signer, if_neg unsigned] at recovered
    refine ⟨recoverSigner_plain lawful pair recovered, ?_⟩
    intro tx member
    obtain ⟨t, decoded⟩ := decodeTransactions_member each member
    exact (accepted tx member).nonzero decoded

/-- Peers find the owner of the key behind everything durable that is signed with a proper key
and without a network, and behind nothing that is signed for a network. -/
theorem signing_recovered (lawful : LawfulCurve) (key : Item) (networkId : Option Nat) :
    (∀ tx signed : Transaction, tx.Accepted → tx.signWith key networkId = .ok signed →
      (tx.Durable → (signed.Recovered key ↔ networkId = none ∧ Proper key)) ∧
        (signed.Recovered key →
          networkId = none ∧ (tx.category = 3 → [] ∉ tx.metadata.elements))) ∧
      ∀ block signed : Block, (∀ tx ∈ block.transactions, tx.Accepted) →
        block.signWith key networkId = .ok signed →
        ((∀ tx ∈ block.transactions, tx.Durable) →
          (signed.Recovered key ↔ networkId = none ∧ Proper key)) ∧
          (signed.Recovered key → networkId = none ∧
            ∀ tx ∈ block.transactions, tx.category = 3 → [] ∉ tx.metadata.elements) :=
  ⟨fun _ _ accepted done => Transaction.recovered_iff lawful accepted done,
    fun _ _ accepted done => Block.recovered_iff lawful accepted done⟩

end Keys

namespace Sample.Keyed

theorem items_kept {K V : Type} (l : List (K × V)) : (id l).Perm l := List.Perm.refl l

scoped instance : Platform where
  sha3 := Keccak.keccak256
  sha3_length := Keccak.keccak256_length
  ecdsaRawRecover _ v _ s :=
    if 27 ≤ v ∧ v ≤ 34 then .ok (some (s, s)) else .error ⟨.valueError, "must in range 27-31"⟩
  parseAddress _ _ := none
  parseNetwork _ _ := none
  items := id
  items_perm := items_kept

def scalar (key : Bytes) : Nat := 1 + bytesToNat key % (secpk1n - 1)

scoped instance : Curve where
  privtopub key := (scalar key, scalar key)
  ecdsaRawSign _ key := (27, 1, scalar key)

theorem scalar_bounds (key : Bytes) : 0 < scalar key ∧ scalar key < secpk1n := by
  have bound : bytesToNat key % (secpk1n - 1) < secpk1n - 1 := Nat.mod_lt _ (by decide)
  simp only [scalar, secpk1n] at bound ⊢
  omega

theorem lawful : LawfulCurve where
  recovers hash key v r s signed := by
    cases signed
    rfl
  parity hash key v r s signed := by
    cases signed
    exact Or.inl rfl
  scalars hash key v r s signed := by
    cases signed
    exact ⟨by decide, by decide, scalar_bounds key⟩
  coordinates key := by
    have bound := (scalar_bounds key).2
    have small : scalar key < 2 ^ 256 := bound.trans (by decide)
    exact ⟨small, small⟩
  refuses hash v r s p high := by
    have outside : ¬ (27 ≤ v ∧ v ≤ 34) := by omega
    simp [ecdsaRawRecover, outside]

def allocation : Transaction :=
  ⟨0, 0, some bob, 1, valueOf (net 0 9), .bytes [], 0, 0, 0, 0, none⟩

theorem allocation_accepted : allocation.Accepted :=
  ⟨0, 0, .bytes bob.bytes, 1, .bytes (valueOf (net 0 9)), .bytes [], 0, 0, 0, 0, rfl⟩

def signed (v : Nat) : Transaction :=
  { allocation with
    v := v
    r := 1
    s := 2
    cachedSender := some (pubkeyToAddress (publicKey (encodeInt32 1))) }

theorem proper : Proper (.int 1) := by
  intro k _ infinity
  have positive := (scalar_bounds k).1
  rw [show scalar k = 0 from congrArg Prod.fst infinity] at positive
  exact absurd positive (lt_irrefl 0)

theorem allocation_recovered :
    allocation.signWith (.int 1) none = .ok (signed 27) ∧ (signed 27).Recovered (.int 1) := by
  have done : allocation.signWith (.int 1) none = .ok (signed 27) := rfl
  have found := (signing_recovered lawful (.int 1) none).1 allocation (signed 27) allocation_accepted done
  exact ⟨done, (found.1 (by decide)).mpr ⟨rfl, proper⟩⟩

theorem networked_lost :
    allocation.signWith (.int 1) (some 1) = .ok (signed 37) ∧ ¬ (signed 37).Recovered (.int 1) := by
  have done : allocation.signWith (.int 1) (some 1) = .ok (signed 37) := rfl
  refine ⟨done, ?_⟩
  intro recovered
  cases ((Transaction.recovered_iff lawful allocation_accepted done).2 recovered).1

end Sample.Keyed

end IPchain
