import IPchain.Folds
import IPchain.Making

/-! The family of an address that went through a plain integer: the address that signs next, and
the address of a query from the router. -/

namespace IPchain

open Lib

/-- The family of the transactions in the block after `blockNumber`. -/
def nextFamily (blockNumber : Nat) : Family := if blockNumber % 2 ≠ 0 then .v4 else .v6

/-- The two bits of one of the 96 highest pairs differ. -/
def HighPair (n : Nat) : Prop := ∃ k < 96, n.testBit (255 - 2 * k) ≠ n.testBit (254 - 2 * k)

instance (n : Nat) : Decidable (HighPair n) :=
  inferInstanceAs (Decidable (∃ k < 96, n.testBit (255 - 2 * k) ≠ n.testBit (254 - 2 * k)))

theorem netaddrOfInt_family {n : Nat} (small : n < 2 ^ 128) :
    ∃ x, netaddrOfInt n = .ok x ∧ x.value = n ∧ (x.family = .v6 ↔ 2 ^ 32 ≤ n) := by
  rw [netaddrOfInt]
  by_cases low : n < 2 ^ Family.v4.width
  · rw [dif_pos low]
    refine ⟨_, rfl, rfl, ?_⟩
    have below : ¬ 2 ^ 32 ≤ n := not_le.mpr low
    exact iff_of_false Family.noConfusion below
  · have fits : n < 2 ^ Family.v6.width := small
    rw [dif_neg low, dif_pos fits]
    exact ⟨_, rfl, rfl, iff_of_true rfl (not_lt.mp low)⟩

theorem selectSigner_eq {data : Bytes} (sized : data.length = 32) (blockNumber : Nat) :
    selectSigner (encodeHex data) blockNumber =
      netaddrOfInt (bitsValue (addressBits (nextFamily blockNumber)
        (binZfill (bytesToNat data)))) := by
  have small : bytesToNat data < 2 ^ 256 := by
    have bound := bytesToNat_lt data
    rwa [sized] at bound
  have random := binZfill_random small
  have v4 := consensusFor_eq .v4 random.sized
  have v6 := consensusFor_eq .v6 random.sized
  simp only [consensusFor] at v4 v6
  have present : data ≠ [] := by
    rintro rfl
    cases sized
  rw [selectSigner, intBase16_encodeHex present, nextFamily]
  simp only [bind, Except.bind]
  split
  · rw [v4]
    rfl
  · rw [v6]
    rfl

theorem addressBits_small (f : Family) {hash : List Nat} (random : RandomBits hash) :
    ∀ b ∈ addressBits f hash, b < 2 := by
  intro b member
  obtain ⟨k, -, rfl⟩ := List.mem_map.mp member
  exact groupBit_lt f random k

theorem high_bits_iff {n : Nat} (small : n < 2 ^ 256) :
    2 ^ 32 ≤ bitsValue (addressBits .v6 (binZfill n)) ↔ HighPair n := by
  have random := binZfill_random small
  have length := addressBits_length .v6 (binZfill n)
  rw [bitsValue_large (addressBits_small .v6 random) 32 (by rw [length]; decide), length]
  apply exists_congr
  intro k
  apply and_congr_right
  intro low
  have near : k < 96 := low
  have pair : groupBit (firstJoined .v6) (groupSize .v6) (binZfill n) k =
      (binZfill n).getD (2 * k) 0 ^^^ (binZfill n).getD (2 * k + 1) 0 :=
    congrArg _ (Nat.xor_zero _)
  rw [getD_addressBits _ _ (near.trans (by decide)), pair,
    getD_binZfill small (by omega), getD_binZfill small (by omega), Nat.testBit_eq_decide_div_mod_eq,
    Nat.testBit_eq_decide_div_mod_eq, show 255 - (2 * k + 1) = 254 - 2 * k by omega]
  have first := Nat.mod_lt (n / 2 ^ (255 - 2 * k)) (show 0 < 2 by decide)
  have second := Nat.mod_lt (n / 2 ^ (254 - 2 * k)) (show 0 < 2 by decide)
  generalize n / 2 ^ (255 - 2 * k) % 2 = a at first ⊢
  generalize n / 2 ^ (254 - 2 * k) % 2 = b at second ⊢
  interval_cases a <;> interval_cases b <;> decide

theorem signer_family_iff {data : Bytes} (sized : data.length = 32) (blockNumber : Nat) :
    (∃ x, selectSigner (encodeHex data) blockNumber = .ok x ∧ x.family = nextFamily blockNumber) ↔
      (blockNumber % 2 = 0 → HighPair (bytesToNat data)) := by
  have small : bytesToNat data < 2 ^ 256 := by
    have bound := bytesToNat_lt data
    rwa [sized] at bound
  have random := binZfill_random small
  have bound := bitsValue_lt (addressBits_small (nextFamily blockNumber) random)
  rw [addressBits_length] at bound
  have below : bitsValue (addressBits (nextFamily blockNumber) (binZfill (bytesToNat data))) <
      2 ^ 128 := lt_of_lt_of_le bound
        (Nat.pow_le_pow_right (by decide) (by cases nextFamily blockNumber <;> decide))
  obtain ⟨x, made, value, family⟩ := netaddrOfInt_family below
  rw [selectSigner_eq sized, made]
  simp only [Except.ok.injEq, exists_eq_left']
  by_cases odd : blockNumber % 2 = 0
  · have next : nextFamily blockNumber = .v6 := if_neg (not_not.mpr odd)
    rw [next] at family ⊢
    rw [family, high_bits_iff small]
    simp [odd]
  · have next : nextFamily blockNumber = .v4 := if_pos odd
    rw [next] at family bound ⊢
    have low : ¬ 2 ^ 32 ≤ bitsValue (addressBits .v4 (binZfill (bytesToNat data))) :=
      not_le.mpr bound
    refine iff_of_true ?_ fun even => absurd even odd
    cases kind : x.family with
    | v4 => rfl
    | v6 => exact absurd (family.mp kind) low

/-- The text that netaddr makes of an address. Only an IPv6 address is written with colons. -/
class AddressText where
  str : IPAddress → Bytes
  colon_iff : ∀ x, 0x3a ∈ str x ↔ x.family = .v6

inductive Received where
  | datagram (data : Bytes)
  | wouldBlock
  | failed

/-- What `read_socket` returns: a query, three times None, or None. -/
inductive SocketQuery where
  | query (nonce afi : Nat) (address : Bytes)
  | blank
  | absent
  deriving DecidableEq

/-- `struct.unpack` of an unsigned number, on a machine that stores the lowest byte first. -/
def structUnpack (size : Nat) (b : Bytes) : Except PyExc Nat :=
  if b.length = size then .ok (bytesToNat b.reverse)
  else .error ⟨.structError, "unpack requires a string argument of length " ++ toString size⟩

def slice (res : Bytes) (first last : Nat) : Bytes := (res.drop first).take (last - first)

section Queries

variable [AddressText]

open AddressText

def readAddress (field : Bytes) : Except PyExc Bytes := do
  let n ← intBase16 (encodeHex field)
  let ip ← netaddrOfInt n
  return str ip

def readSocket : Received → Except PyExc SocketQuery
  | .wouldBlock => .ok .blank
  | .failed => .ok .absent
  | .datagram data => do
      let res := data.take 26
      let high ← structUnpack 4 (slice res 0 4)
      let low ← structUnpack 4 (slice res 4 8)
      let nonce ← intBase16 (encodeHex (bigEndian 4 high ++ bigEndian 4 low))
      let afi ← structUnpack 2 (slice res 8 10)
      if afi = 1 then do
        let address ← readAddress (slice res 10 14)
        return .query nonce afi address
      else if afi = 2 then do
        let address ← readAddress (slice res 10 26)
        return .query nonce afi address
      else .error ⟨.exception, "Incorrect AFI read from socket."⟩

end Queries

def Lib.Family.afi : Family → Nat
  | .v4 => 1
  | .v6 => 2

/-- A query for an address. The router may send more than the address takes. -/
def queryPacket (nonce : Bytes) (x : IPAddress) (rest : Bytes) : Bytes :=
  nonce ++ ([UInt8.ofNat x.family.afi, 0] ++ (packed x ++ rest))

/-- The two halves of the nonce, each with its lowest byte first. -/
def nonceValue (nonce : Bytes) : Nat :=
  bytesToNat ((nonce.take 4).reverse ++ (nonce.drop 4).reverse)

theorem structUnpack_eq {size : Nat} {b : Bytes} (sized : b.length = size) :
    structUnpack size b = .ok (bytesToNat b.reverse) := if_pos sized

theorem slice_take (res : Bytes) {first last : Nat} (short : last ≤ 26) :
    slice (res.take 26) first last = slice res first last := by
  rw [slice, slice, List.drop_take, List.take_take, Nat.min_eq_left (by omega)]

theorem slice_append (front : Bytes) {middle : Bytes} (back : Bytes) {first last : Nat}
    (before : front.length = first) (sized : first + middle.length = last) :
    slice (front ++ (middle ++ back)) first last = middle := by
  subst before sized
  rw [slice, List.drop_left, Nat.add_sub_cancel_left, List.take_left]

section Packets

variable [AddressText] {nonce : Bytes} (x : IPAddress) (rest : Bytes)

open AddressText

theorem readAddress_packed : ∃ y, readAddress (packed x) = .ok (str y) ∧ y.value = x.value ∧
    (y.family = .v6 ↔ 2 ^ 32 ≤ x.value) := by
  have present : packed x ≠ [] := by
    intro blank
    have length := packed_length x
    rw [blank] at length
    cases family : x.family <;> rw [family] at length <;> cases length
  have width : 256 ^ x.family.packedSize = 2 ^ x.family.width := by cases x.family <;> rfl
  have value : bytesToNat (packed x) = x.value := bytesToNat_bigEndian (width ▸ x.bound)
  have small : x.value < 2 ^ 128 := lt_of_lt_of_le x.bound
    (Nat.pow_le_pow_right (by decide) (by cases x.family <;> decide))
  obtain ⟨y, made, same, family⟩ := netaddrOfInt_family small
  refine ⟨y, ?_, same, family⟩
  rw [readAddress, intBase16_encodeHex present, value]
  simp only [bind, Except.bind, made]
  rfl

omit [AddressText] in
theorem halves_length (sized : nonce.length = 8) :
    (nonce.take 4).length = 4 ∧ (nonce.drop 4).length = 4 := by
  constructor
  · rw [List.length_take, sized]
    rfl
  · rw [List.length_drop, sized]

omit [AddressText] in
theorem nonce_read (sized : nonce.length = 8) :
    intBase16 (encodeHex (bigEndian 4 (bytesToNat (nonce.take 4).reverse) ++
      bigEndian 4 (bytesToNat (nonce.drop 4).reverse))) = .ok (nonceValue nonce) := by
  obtain ⟨upper, lower⟩ := halves_length sized
  have first := bigEndian_bytesToNat (nonce.take 4).reverse
  have second := bigEndian_bytesToNat (nonce.drop 4).reverse
  rw [List.length_reverse, upper] at first
  rw [List.length_reverse, lower] at second
  rw [first, second]
  apply intBase16_encodeHex
  intro blank
  have none := congrArg List.length blank
  rw [List.length_append, List.length_reverse, List.length_reverse, upper, lower] at none
  cases none

theorem readSocket_packet (sized : nonce.length = 8) : ∃ y,
    readSocket (.datagram (queryPacket nonce x rest)) =
      .ok (.query (nonceValue nonce) x.family.afi (str y)) ∧ y.value = x.value ∧
        (y.family = .v6 ↔ 2 ^ 32 ≤ x.value) := by
  obtain ⟨y, read, value, family⟩ := readAddress_packed x
  refine ⟨y, ?_, value, family⟩
  obtain ⟨upper, lower⟩ := halves_length sized
  have parts : nonce = nonce.take 4 ++ nonce.drop 4 := (List.take_append_drop 4 nonce).symm
  have high : slice (queryPacket nonce x rest) 0 4 = nonce.take 4 := by
    rw [queryPacket]
    nth_rewrite 1 [parts]
    rw [List.append_assoc]
    exact slice_append [] _ rfl (by rw [upper])
  have low : slice (queryPacket nonce x rest) 4 8 = nonce.drop 4 := by
    rw [queryPacket]
    nth_rewrite 1 [parts]
    rw [List.append_assoc]
    exact slice_append _ _ upper (by rw [lower])
  have mark : slice (queryPacket nonce x rest) 8 10 = [UInt8.ofNat x.family.afi, 0] :=
    slice_append _ _ sized rfl
  have field {last : Nat} (ends : 10 + x.family.packedSize = last) :
      slice (queryPacket nonce x rest) 10 last = packed x := by
    rw [queryPacket, ← List.append_assoc]
    exact slice_append _ _ (by simp [sized]) (by rw [packed_length, ends])
  have afi : structUnpack 2 [UInt8.ofNat x.family.afi, 0] = .ok x.family.afi := by
    cases x.family <;> rfl
  simp only [readSocket, slice_take _ (show 4 ≤ 26 by decide),
    slice_take _ (show 8 ≤ 26 by decide), slice_take _ (show 10 ≤ 26 by decide),
    slice_take _ (show 14 ≤ 26 by decide), slice_take _ (show 26 ≤ 26 by decide), high, low, mark,
    structUnpack_eq upper, structUnpack_eq lower, afi, bind, Except.bind, nonce_read sized]
  cases kind : x.family with
  | v4 =>
      rw [if_pos (show Family.v4.afi = 1 from rfl), field (by rw [kind]; rfl), read]
      rfl
  | v6 =>
      rw [if_neg (by decide), if_pos (show Family.v6.afi = 2 from rfl),
        field (by rw [kind]; rfl), read]
      rfl

theorem readSocket_family_iff (sized : nonce.length = 8) :
    readSocket (.datagram (queryPacket nonce x rest)) =
      .ok (.query (nonceValue nonce) x.family.afi (str x)) ↔
        (x.family = .v6 → 2 ^ 32 ≤ x.value) := by
  obtain ⟨y, read, value, family⟩ := readSocket_packet x rest sized
  rw [read]
  simp only [Except.ok.injEq, SocketQuery.query.injEq, true_and]
  constructor
  · intro same six
    apply family.mp
    apply (colon_iff y).mp
    rw [same]
    exact (colon_iff x).mpr six
  · intro large
    have kind : y.family = x.family := by
      cases six : x.family with
      | v6 => exact family.mpr (large six)
      | v4 =>
          have bound := x.bound
          rw [six] at bound
          cases four : y.family with
          | v4 => rfl
          | v6 => exact absurd (family.mp four) (not_le.mpr bound)
    rw [IPAddress.eq_of_value kind value]

end Packets

section Families

variable {S R : Type} [IPSet S] [Radix R Address] [Platform] [TrieRoot] [Poststate] [StateRoot S]
  [TrieKeys S] [Config]

omit [Platform] [TrieRoot] [Poststate] [Config] [StateRoot S] [TrieKeys S] [IPSet S]
  [Radix R Address] in
theorem checkFamilies_afi {number : Nat} {txs : List Transaction}
    (checked : Service.checkFamilies number txs = .ok ()) :
    ∀ tx ∈ txs, tx.afi = if number % 2 = 0 then 1 else 2 := by
  induction txs with
  | nil => simp
  | cons tx rest ih =>
      simp only [Service.checkFamilies] at checked
      split at checked
      · cases checked
      · split at checked
        · cases checked
        · refine List.forall_mem_cons.mpr ⟨?_, ih checked⟩
          split <;> omega

theorem created_family {now depth : Nat} {coinbase : Item} {randomNo : Bytes}
    {groupKey : Option Bytes} {groupSig : Bytes} {count : Nat} {svc svc' : Service S R}
    {block : Block} (created : Service.createBlock now depth coinbase randomNo groupKey groupSig
      count svc = .ok block svc') :
    ∀ tx ∈ block.transactions, tx.afi = (nextFamily svc.chain.state.blockNumber).afi := by
  obtain ⟨a, key, randomNumber, -, -, -, tries, -⟩ := Service.createBlock_eq_ok.mp created
  obtain ⟨temp, -, rest⟩ := except_bind_eq_ok.mp tries
  split at rest
  · cases rest
  · cases rest
    have checked := checkFamilies_afi (collect_families (svc.chain.state.blockNumber + 1)
      svc.transactions (State.fromSnapshot svc.chain.state.toSnapshot.1))
    intro tx member
    rw [checked tx member, nextFamily]
    split <;> split <;> first | rfl | omega

/-- The family that parity or the query gives is kept exactly where the number tells it: after
an odd block always, after an even one when two bits of a high pair differ, and from the router
for every address but the IPv6 ones below 2 ^ 32. -/
theorem family_kept_iff [AddressText] :
    (∀ (data : Bytes) (blockNumber : Nat), data.length = 32 →
      ((∃ x, selectSigner (encodeHex data) blockNumber = .ok x ∧
        x.family = nextFamily blockNumber) ↔
          (blockNumber % 2 = 0 → HighPair (bytesToNat data)))) ∧
    (∀ (now depth : Nat) (coinbase : Item) (randomNo : Bytes) (groupKey : Option Bytes)
      (groupSig : Bytes) (count : Nat) (svc svc' : Service S R) (block : Block),
      Service.createBlock now depth coinbase randomNo groupKey groupSig count svc = .ok block svc' →
        ∀ tx ∈ block.transactions, tx.afi = (nextFamily svc.chain.state.blockNumber).afi) ∧
    (∀ (nonce : Bytes) (x : IPAddress) (rest : Bytes), nonce.length = 8 →
      (readSocket (.datagram (queryPacket nonce x rest)) =
        .ok (.query (nonceValue nonce) x.family.afi (AddressText.str x)) ↔
          (x.family = .v6 → 2 ^ 32 ≤ x.value))) :=
  ⟨fun _ blockNumber sized => signer_family_iff sized blockNumber,
    fun _ _ _ _ _ _ _ _ _ _ created => created_family created,
    fun _ x rest sized => readSocket_family_iff x rest sized⟩

end Families

namespace Sample.Recovered

def decimal (n : Nat) : Bytes :=
  if n = 0 then [48] else (Nat.digits 10 n).reverse.map fun d => UInt8.ofNat (48 + d)

def hexadecimal (n : Nat) : Bytes :=
  if n = 0 then [48] else (Nat.digits 16 n).reverse.map hexDigit

def addressText (x : IPAddress) : Bytes :=
  match x.family with
  | .v4 => decimal (x.value / 2 ^ 24) ++ 0x2e :: (decimal (x.value / 2 ^ 16 % 256) ++
      0x2e :: (decimal (x.value / 2 ^ 8 % 256) ++ 0x2e :: decimal (x.value % 256)))
  | .v6 => hexadecimal (x.value / 2 ^ 112) ++ ((List.range 7).flatMap fun i =>
      0x3a :: hexadecimal (x.value / 2 ^ (96 - 16 * i) % 2 ^ 16))

theorem decimal_plain (n : Nat) : 0x3a ∉ decimal n := by
  intro colon
  simp only [decimal] at colon
  split at colon
  · exact absurd colon (by decide)
  · obtain ⟨d, digit, same⟩ := List.mem_map.mp colon
    have small := Nat.digits_lt_base (show 1 < 10 by decide) (List.mem_reverse.mp digit)
    revert same
    interval_cases d <;> decide

scoped instance : AddressText where
  str := addressText
  colon_iff x := by
    rw [addressText]
    cases x.family with
    | v4 => simp [decimal_plain]
    | v6 =>
        refine iff_of_true (List.mem_append_right _ ?_) rfl
        exact List.mem_flatMap.mpr ⟨0, by decide, List.mem_cons_self⟩

def router : IPAddress := ⟨.v6, 0x20010db8000100020003000400050006, by decide⟩

def loopback : IPAddress := ⟨.v6, 1, by decide⟩

def localhost : IPAddress := ⟨.v4, 1, by decide⟩

def nonce : Bytes := [1, 0, 0, 0, 2, 0, 0, 0]

theorem family_kept : (∃ x, selectSigner (encodeHex (1 :: List.replicate 31 0)) 1 = .ok x ∧
      x.family = .v4) ∧
    readSocket (.datagram (queryPacket nonce router [])) =
      .ok (.query (nonceValue nonce) 2 (addressText router)) := by
  obtain ⟨signer, -, packet⟩ := family_kept_iff (S := AddressRanges) (R := PrefixTable Address)
  exact ⟨(signer _ 1 rfl).mpr (by decide), (packet nonce router [] rfl).mpr (by decide)⟩

/-- The address ::1 of the fold and the one of a query both become 0.0.0.1. -/
theorem low_address_confused :
    selectSigner (encodeHex (List.replicate 31 0 ++ [1])) 2 = .ok localhost ∧
      nextFamily 2 = .v6 ∧
      readSocket (.datagram (queryPacket nonce loopback [])) =
        .ok (.query (nonceValue nonce) 2 (addressText localhost)) ∧
      addressText localhost ≠ addressText loopback := by
  refine ⟨by decide +kernel, rfl, by decide +kernel, by decide +kernel⟩

end Sample.Recovered

end IPchain
