import IPchain.MerkleTrie

/-! A decoder of rlp that reads back every encoding of less than 2 ^ 64 bytes. -/

namespace IPchain

namespace Rlp

/-- A string of `n` bytes in front of the rest. -/
def splitBytes (n : Nat) (data : Bytes) : Option (Bytes × Bytes) :=
  if n ≤ data.length then some (data.take n, data.drop n) else none

/-- The payload behind a first byte that counts from `offset`, and the rest. -/
def payload (offset b : Nat) (data : Bytes) : Option (Bytes × Bytes) :=
  if b < offset + 56 then splitBytes (b - offset) data
  else do
    let (digits, rest) ← splitBytes (b - (offset + 55)) data
    splitBytes (bytesToNat digits) rest

mutual

def decodeItem : Nat → Bytes → Option (Rlp × Bytes)
  | 0, _ => none
  | _ + 1, [] => none
  | fuel + 1, b :: rest =>
      if b.toNat < 0x80 then some (.bytes [b], rest)
      else if b.toNat < 0xc0 then do
        let (data, rest) ← payload 0x80 b.toNat rest
        return (.bytes data, rest)
      else do
        let (data, rest) ← payload 0xc0 b.toNat rest
        let items ← decodeItems fuel data
        return (.list items, rest)

def decodeItems : Nat → Bytes → Option (List Rlp)
  | 0, _ => none
  | _ + 1, [] => some []
  | fuel + 1, data => do
      let (item, rest) ← decodeItem fuel data
      let items ← decodeItems fuel rest
      return item :: items

end

def decode (data : Bytes) : Except PyExc Rlp :=
  match decodeItem (2 * data.length) data with
  | some (item, []) => .ok item
  | _ => .error ⟨.valueError, ""⟩

theorem splitBytes_append (data rest : Bytes) :
    splitBytes data.length (data ++ rest) = some (data, rest) := by
  rw [splitBytes, if_pos (by rw [List.length_append]; omega), List.take_left, List.drop_left]

theorem payload_lengthPrefix (offset : Nat) (bounded : offset ≤ 192) {data : Bytes}
    (small : data.length < 2 ^ 64) (rest : Bytes) :
    ∃ b more, lengthPrefix offset data.length ++ data ++ rest = b :: more ∧
      offset ≤ b.toNat ∧ b.toNat < offset + 64 ∧ payload offset b.toNat more = some (data, rest) := by
  have digits := intToBigEndian_length small
  simp only [lengthPrefix]
  split
  · have byte : (UInt8.ofNat (offset + data.length)).toNat = offset + data.length := by
      rw [toNat_ofNat_mod]
      omega
    refine ⟨_, _, rfl, ?_⟩
    rw [byte]
    refine ⟨by omega, by omega, ?_⟩
    rw [payload, if_pos (by omega), Nat.add_sub_cancel_left]
    exact splitBytes_append data rest
  · rename_i large
    have positive : 0 < (intToBigEndian data.length).length := by
      apply List.length_pos_of_ne_nil
      intro none
      have zero : data.length = 0 := intToBigEndian_inj (none.trans (by simp [intToBigEndian]))
      omega
    have byte : (UInt8.ofNat (offset + 55 + (intToBigEndian data.length).length)).toNat =
        offset + 55 + (intToBigEndian data.length).length := by
      rw [toNat_ofNat_mod]
      omega
    refine ⟨UInt8.ofNat (offset + 55 + (intToBigEndian data.length).length),
      intToBigEndian data.length ++ (data ++ rest), ?_, ?_⟩
    · rw [List.cons_append, List.cons_append, List.append_assoc]
    rw [byte]
    refine ⟨by omega, by omega, ?_⟩
    rw [payload, if_neg (by omega), Nat.add_sub_cancel_left, splitBytes_append]
    change splitBytes (bytesToNat (intToBigEndian data.length)) (data ++ rest) = _
    rw [bytesToNat_intToBigEndian, splitBytes_append]

theorem decodeItem_bytes (b rest : Bytes) (small : b.length < 2 ^ 64) (fuel : Nat) :
    decodeItem (fuel + 1) ((Rlp.bytes b).encode ++ rest) = some (.bytes b, rest) := by
  rcases encode_bytes b with ⟨c, rfl, below, same⟩ | ⟨-, same⟩
  · rw [same, List.singleton_append, decodeItem, if_pos below]
  · obtain ⟨first, more, starts, above, below, read⟩ :=
      payload_lengthPrefix 0x80 (by decide) small rest
    rw [same, starts, decodeItem, if_neg (by omega), if_pos (by omega), read]
    rfl

/-- What follows the prefix of an item. The payloads inside a list are parts of its own. -/
def content : Rlp → Bytes
  | .bytes b => b
  | .list items => encodeList items

theorem content_length_le (x : Rlp) : x.content.length ≤ x.encode.length := by
  cases x with
  | bytes b => exact length_bytes b
  | list items => exact length_list items

theorem encode_length_pos {x : Rlp} (small : x.content.length < 2 ^ 64) : 0 < x.encode.length := by
  cases x with
  | bytes b =>
      change b.length < 2 ^ 64 at small
      rcases encode_bytes b with ⟨c, rfl, -, same⟩ | ⟨-, same⟩
      · simp [same]
      · obtain ⟨c, rest, starts, -⟩ := lengthPrefix_head 0x80 (by decide) small
        simp [same, starts]
  | list items =>
      change (encodeList items).length < 2 ^ 64 at small
      obtain ⟨c, rest, starts, -⟩ := lengthPrefix_head 0xc0 (by decide) small
      simp [encode, starts]

mutual

theorem decodeItem_encode : (x : Rlp) → (rest : Bytes) → (fuel : Nat) → x.content.length < 2 ^ 64 →
    2 * x.encode.length ≤ fuel → decodeItem fuel (x.encode ++ rest) = some (x, rest)
  | .bytes b, rest, fuel, small, enough => by
      have present := encode_length_pos small
      obtain ⟨fuel, rfl⟩ := Nat.exists_eq_add_of_le' (show 1 ≤ fuel by omega)
      exact decodeItem_bytes b rest small fuel
  | .list items, rest, fuel, small, enough => by
      have present := encode_length_pos small
      obtain ⟨fuel, rfl⟩ := Nat.exists_eq_add_of_le' (show 1 ≤ fuel by omega)
      have inner : (encodeList items).length < 2 ^ 64 := small
      obtain ⟨first, more, starts, above, below, read⟩ :=
        payload_lengthPrefix 0xc0 (by decide) inner rest
      have whole : (Rlp.list items).encode ++ rest = first :: more := by
        rw [← starts]
        simp [encode]
      have longer : (encodeList items).length + 1 ≤ (Rlp.list items).encode.length := by
        obtain ⟨c, rest, same, -⟩ := lengthPrefix_head 0xc0 (by decide) inner
        simp only [encode, same, List.length_append, List.length_cons]
        omega
      have decoded := decodeItems_encode items fuel inner (by omega)
      rw [whole, decodeItem, if_neg (by omega), if_neg (by omega), read]
      change (do
        let items ← decodeItems fuel (encodeList items)
        return (Rlp.list items, rest)) = _
      rw [decoded]
      rfl

theorem decodeItems_encode : (items : List Rlp) → (fuel : Nat) →
    (encodeList items).length < 2 ^ 64 → 2 * (encodeList items).length + 1 ≤ fuel →
    decodeItems fuel (encodeList items) = some items
  | [], fuel, _, enough => by
      obtain ⟨fuel, rfl⟩ := Nat.exists_eq_add_of_le' (show 1 ≤ fuel by omega)
      rfl
  | x :: xs, fuel, small, enough => by
      obtain ⟨fuel, rfl⟩ := Nat.exists_eq_add_of_le' (show 1 ≤ fuel by omega)
      simp only [encodeList, List.length_append] at small enough ⊢
      have shorter := content_length_le x
      have inner : x.content.length < 2 ^ 64 := by omega
      have present := encode_length_pos inner
      have first := decodeItem_encode x (encodeList xs) fuel inner (by omega)
      have rest := decodeItems_encode xs fuel (by omega) (by omega)
      cases data : x.encode ++ encodeList xs with
      | nil =>
          have empty := (List.append_eq_nil_iff.mp data).1
          rw [empty] at present
          cases present
      | cons b more =>
          rw [data] at first
          rw [decodeItems, first]
          · change (do
              let items ← decodeItems fuel (encodeList xs)
              return x :: items) = _
            rw [rest]
            rfl
          · simp

end

theorem decode_of_content {x : Rlp} (small : x.content.length < 2 ^ 64) :
    decode x.encode = .ok x := by
  have read := decodeItem_encode x [] (2 * x.encode.length) small (Nat.le_refl _)
  rw [List.append_nil] at read
  rw [decode, read]

theorem decode_encode (x : Rlp) (small : x.encode.length < 2 ^ 64) : decode x.encode = .ok x :=
  decode_of_content (Nat.lt_of_le_of_lt x.content_length_le small)

end Rlp

@[reducible] def rlpDecoder : Decoder := ⟨Rlp.decode, Rlp.decode_encode⟩

end IPchain
