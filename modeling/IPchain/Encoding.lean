import IPchain.Blocks
import Mathlib.Data.Nat.Digits.Lemmas
import Mathlib.Data.Set.Function

/-! What an encoding determines: rlp is injective on everything of less than 2 ^ 64 bytes, and
so are the serialized headers and transactions. -/

namespace IPchain

open Lib

theorem bytesToNat_append (data : Bytes) (b : UInt8) :
    bytesToNat (data ++ [b]) = 256 * bytesToNat data + b.toNat := by
  rw [bytesToNat, List.foldl_append]
  rfl

theorem toNat_ofNat_mod (n : Nat) : (UInt8.ofNat n).toNat = n % 256 := UInt8.toNat_ofNat'

theorem bytesToNat_digits (digits : List Nat) (small : ∀ d ∈ digits, d < 256) :
    bytesToNat (digits.reverse.map UInt8.ofNat) = Nat.ofDigits 256 digits := by
  induction digits with
  | nil => rfl
  | cons d rest ih =>
      obtain ⟨first, others⟩ := List.forall_mem_cons.mp small
      rw [List.reverse_cons, List.map_append, List.map_singleton, bytesToNat_append, ih others,
        Nat.ofDigits_cons, toNat_ofNat_mod, Nat.mod_eq_of_lt first]
      exact Nat.add_comm _ _

theorem bytesToNat_intToBigEndian (n : Nat) : bytesToNat (intToBigEndian n) = n := by
  rw [intToBigEndian, bytesToNat_digits _ fun d member => Nat.digits_lt_base (by decide) member]
  exact Nat.ofDigits_digits 256 n

theorem intToBigEndian_inj {m n : Nat} (same : intToBigEndian m = intToBigEndian n) : m = n := by
  rw [← bytesToNat_intToBigEndian m, same, bytesToNat_intToBigEndian]

theorem intToBigEndian_length {n : Nat} (small : n < 2 ^ 64) : (intToBigEndian n).length ≤ 8 := by
  rw [intToBigEndian, List.length_map, List.length_reverse]
  exact (Nat.digits_length_le_iff (by decide) n).mpr small

theorem bytesToNat_padded (n : Nat) (data : Bytes) :
    bytesToNat (List.replicate n 0 ++ data) = bytesToNat data := by
  induction n with
  | zero => rfl
  | succ n ih => exact ih

theorem bigEndian_succ (width n : Nat) :
    bigEndian (width + 1) n = bigEndian width (n / 256) ++ [UInt8.ofNat n] := by
  simp only [bigEndian, List.range_succ_eq_map, List.reverse_cons, List.map_append,
    List.map_reverse, List.map_map, List.map_singleton, pow_zero, Nat.div_one]
  congr 3
  funext i
  simp only [Function.comp_apply, Nat.succ_eq_add_one, pow_succ', Nat.div_div_eq_div_mul]

theorem bytesToNat_bigEndian {width n : Nat} (small : n < 256 ^ width) :
    bytesToNat (bigEndian width n) = n := by
  induction width generalizing n with
  | zero =>
      rw [pow_zero, Nat.lt_one_iff] at small
      subst small
      rfl
  | succ width ih =>
      have smaller : n / 256 < 256 ^ width := by
        apply Nat.div_lt_of_lt_mul
        rwa [← pow_succ']
      rw [bigEndian_succ, bytesToNat_append, ih smaller, toNat_ofNat_mod]
      exact Nat.div_add_mod n 256

theorem bigEndian_bytesToNat (data : Bytes) : bigEndian data.length (bytesToNat data) = data := by
  induction data using List.reverseRecOn with
  | nil => rfl
  | append_singleton data b ih =>
      have small := b.toNat_lt
      have shifted : (256 * bytesToNat data + b.toNat) / 256 = bytesToNat data := by omega
      have last : UInt8.ofNat (256 * bytesToNat data + b.toNat) = b := by
        apply UInt8.toNat_inj.mp
        rw [toNat_ofNat_mod]
        omega
      rw [List.length_append, List.length_singleton, bigEndian_succ, bytesToNat_append, shifted,
        ih, last]

theorem lengthPrefix_head (offset : Nat) {length : Nat} (bounded : offset ≤ 192) (small : length < 2 ^ 64) :
    ∃ b rest, lengthPrefix offset length = b :: rest ∧ offset ≤ b.toNat ∧ b.toNat < offset + 64 := by
  have digits := intToBigEndian_length small
  simp only [lengthPrefix]
  split
  · refine ⟨_, _, rfl, ?_⟩
    rw [toNat_ofNat_mod]
    omega
  · refine ⟨_, _, rfl, ?_⟩
    rw [toNat_ofNat_mod]
    omega

theorem lengthPrefix_inj {offset m n : Nat} {s t : Bytes} (_bounded : offset ≤ 192)
    (smallM : m < 2 ^ 64) (smallN : n < 2 ^ 64)
    (same : lengthPrefix offset m ++ s = lengthPrefix offset n ++ t) : m = n ∧ s = t := by
  have digitsM := intToBigEndian_length smallM
  have digitsN := intToBigEndian_length smallN
  have positive {k : Nat} (large : ¬ k < 56) : 0 < (intToBigEndian k).length := by
    apply List.length_pos_of_ne_nil
    intro none
    have zero : k = 0 := intToBigEndian_inj (none.trans (by simp [intToBigEndian]))
    omega
  simp only [lengthPrefix] at same
  split at same <;> split at same <;>
    simp only [List.cons_append, List.nil_append, List.cons.injEq, ← UInt8.toNat_inj,
      toNat_ofNat_mod] at same
  · exact ⟨by omega, same.2⟩
  · rename_i large
    have := positive large
    omega
  · rename_i large _
    have := positive large
    omega
  · have lengths : (intToBigEndian m).length = (intToBigEndian n).length := by omega
    obtain ⟨digits, rest⟩ := List.append_inj same.2 lengths
    exact ⟨intToBigEndian_inj digits, rest⟩

namespace Rlp

theorem encode_bytes (b : Bytes) :
    (∃ c : UInt8, b = [c] ∧ c.toNat < 128 ∧ (Rlp.bytes b).encode = [c]) ∨
      (¬ (∃ c : UInt8, b = [c] ∧ c.toNat < 128) ∧
        (Rlp.bytes b).encode = lengthPrefix 0x80 b.length ++ b) := by
  have compare (c : UInt8) : c < 0x80 ↔ c.toNat < 128 := Iff.rfl
  rcases b with _ | ⟨c, _ | ⟨d, rest⟩⟩
  · exact Or.inr ⟨by simp, by simp [encode]⟩
  · by_cases small : c < 0x80
    · exact Or.inl ⟨c, rfl, small, by simp [encode, small]⟩
    · refine Or.inr ⟨?_, by simp [encode, small]⟩
      rintro ⟨d, same, below⟩
      cases same
      exact small below
  · exact Or.inr ⟨by simp, by simp [encode]⟩

theorem length_bytes (b : Bytes) : b.length ≤ (Rlp.bytes b).encode.length := by
  rcases encode_bytes b with ⟨c, rfl, -, same⟩ | ⟨-, same⟩
  · simp [same]
  · simp [same]

theorem length_list (items : List Rlp) :
    (encodeList items).length ≤ (Rlp.list items).encode.length := by
  simp [encode]

theorem head_bytes (b : Bytes) (small : (Rlp.bytes b).encode.length < 2 ^ 64) :
    ∃ c rest, (Rlp.bytes b).encode = c :: rest ∧ c.toNat < 192 := by
  have shorter := length_bytes b
  rcases encode_bytes b with ⟨c, rfl, below, same⟩ | ⟨-, same⟩
  · exact ⟨c, [], same, by omega⟩
  · obtain ⟨c, rest, starts, -, below⟩ :=
      lengthPrefix_head 0x80 (by decide) (Nat.lt_of_le_of_lt shorter small)
    exact ⟨c, rest ++ b, by rw [same, starts]; rfl, below⟩

theorem head_list (items : List Rlp) (small : (Rlp.list items).encode.length < 2 ^ 64) :
    ∃ c rest, (Rlp.list items).encode = c :: rest ∧ 192 ≤ c.toNat := by
  have shorter := length_list items
  obtain ⟨c, rest, starts, above, -⟩ :=
    lengthPrefix_head 0xc0 (by decide) (Nat.lt_of_le_of_lt shorter small)
  exact ⟨c, rest ++ encodeList items, by simp [encode, starts], above⟩

theorem encode_ne_nil (x : Rlp) (small : x.encode.length < 2 ^ 64) : x.encode ≠ [] := by
  cases x with
  | bytes b =>
      obtain ⟨c, rest, same, -⟩ := head_bytes b small
      simp [same]
  | list items =>
      obtain ⟨c, rest, same, -⟩ := head_list items small
      simp [same]

theorem encode_bytes_inj {b c s t : Bytes} (smallB : (Rlp.bytes b).encode.length < 2 ^ 64)
    (smallC : (Rlp.bytes c).encode.length < 2 ^ 64)
    (same : (Rlp.bytes b).encode ++ s = (Rlp.bytes c).encode ++ t) : b = c ∧ s = t := by
  have lengthB := Nat.lt_of_le_of_lt (length_bytes b) smallB
  have lengthC := Nat.lt_of_le_of_lt (length_bytes c) smallC
  -- a small byte is below every prefix of a string
  have apart {d : UInt8} {u v : Bytes} {n : Nat} (below : d.toNat < 128) (small : n < 2 ^ 64)
      (same : [d] ++ u = lengthPrefix 0x80 n ++ v) : False := by
    obtain ⟨e, rest, starts, above, -⟩ :=
      lengthPrefix_head 0x80 (by decide) small
    rw [starts] at same
    cases same
    exact absurd below (Nat.not_lt.mpr above)
  rcases encode_bytes b with ⟨d, rfl, belowD, one⟩ | ⟨-, one⟩ <;>
    rcases encode_bytes c with ⟨e, rfl, belowE, two⟩ | ⟨-, two⟩ <;> rw [one, two] at same
  · cases same
    exact ⟨rfl, rfl⟩
  · rw [List.append_assoc] at same
    exact (apart belowD lengthC same).elim
  · rw [List.append_assoc] at same
    exact (apart belowE lengthB same.symm).elim
  · rw [List.append_assoc, List.append_assoc] at same
    obtain ⟨lengths, rest⟩ := lengthPrefix_inj (by decide) lengthB lengthC same
    exact List.append_inj rest lengths

mutual

theorem encode_inj : (x y : Rlp) → (s t : Bytes) → x.encode.length < 2 ^ 64 →
    y.encode.length < 2 ^ 64 → x.encode ++ s = y.encode ++ t → x = y ∧ s = t
  | .bytes b, .bytes c, s, t, smallX, smallY, same => by
      obtain ⟨bytes, rest⟩ := encode_bytes_inj smallX smallY same
      exact ⟨congrArg Rlp.bytes bytes, rest⟩
  | .bytes b, .list ys, s, t, smallX, smallY, same => by
      obtain ⟨c, u, one, below⟩ := head_bytes b smallX
      obtain ⟨d, v, two, above⟩ := head_list ys smallY
      rw [one, two] at same
      have head := (List.cons.inj same).1
      subst head
      omega
  | .list xs, .bytes b, s, t, smallX, smallY, same => by
      obtain ⟨c, u, one, above⟩ := head_list xs smallX
      obtain ⟨d, v, two, below⟩ := head_bytes b smallY
      rw [one, two] at same
      have head := (List.cons.inj same).1
      subst head
      omega
  | .list xs, .list ys, s, t, smallX, smallY, same => by
      have lengthX := Nat.lt_of_le_of_lt (length_list xs) smallX
      have lengthY := Nat.lt_of_le_of_lt (length_list ys) smallY
      simp only [encode, List.append_assoc] at same
      obtain ⟨lengths, rest⟩ := lengthPrefix_inj (by decide) lengthX lengthY same
      obtain ⟨payload, rest⟩ := List.append_inj rest lengths
      exact ⟨congrArg Rlp.list (encodeList_inj xs ys lengthX lengthY payload), rest⟩

theorem encodeList_inj : (xs ys : List Rlp) → (encodeList xs).length < 2 ^ 64 →
    (encodeList ys).length < 2 ^ 64 → encodeList xs = encodeList ys → xs = ys
  | [], [], _, _, _ => rfl
  | [], y :: ys, _, smallY, same => by
      simp only [encodeList, List.length_append] at same smallY
      exact absurd (List.append_eq_nil_iff.mp same.symm).1 (encode_ne_nil y (by omega))
  | x :: xs, [], smallX, _, same => by
      simp only [encodeList, List.length_append] at same smallX
      exact absurd (List.append_eq_nil_iff.mp same).1 (encode_ne_nil x (by omega))
  | x :: xs, y :: ys, smallX, smallY, same => by
      simp only [encodeList, List.length_append] at same smallX smallY
      obtain ⟨first, rest⟩ := encode_inj x y _ _ (by omega) (by omega) same
      rw [first, encodeList_inj xs ys (by omega) (by omega) rest]

end

theorem eq_of_encode {x y : Rlp} (small : x.encode.length < 2 ^ 64) (same : x.encode = y.encode) :
    x = y := by
  have smallY : y.encode.length < 2 ^ 64 := by rwa [← same]
  apply (encode_inj x y [] [] small smallY ?_).1
  rw [List.append_nil, List.append_nil, same]

theorem int_inj {m n : Nat} (same : Rlp.int m = Rlp.int n) : m = n :=
  intToBigEndian_inj (Rlp.bytes.inj same)

end Rlp

theorem BlockHeader.serialize_inj {h k : BlockHeader} (same : h.serialize = k.serialize) : h = k := by
  cases h
  cases k
  simp only [serialize, Rlp.list.injEq, List.cons.injEq, Rlp.bytes.injEq, and_true] at same
  obtain ⟨prevhash, timestamp, extraData, stateRoot, txRoot, number, coinbase, randomNumber,
    groupPubkey, groupSig, count⟩ := same
  simp only [mk.injEq]
  exact ⟨prevhash, Rlp.int_inj timestamp, extraData, stateRoot, txRoot, Rlp.int_inj number,
    coinbase, randomNumber, groupPubkey, groupSig, Rlp.int_inj count⟩

theorem toBytes_inj {a b : Option Address} (same : toBytes a = toBytes b) : a = b := by
  cases a with
  | none =>
      cases b with
      | none => rfl
      | some b =>
          have sized := b.sized
          rw [show b.bytes = [] from same.symm] at sized
          cases sized
  | some a =>
      cases b with
      | none =>
          have sized := a.sized
          rw [show a.bytes = [] from same] at sized
          cases sized
      | some b => exact congrArg some (Address.ext same)

theorem Metadata.rlp_inj {m n : Metadata} (same : m.rlp = n.rlp) : m = n := by
  cases m with
  | bytes b =>
      cases n with
      | bytes c =>
          simp only [rlp, Rlp.bytes.injEq] at same
          rw [same]
      | list items => cases same
  | list items =>
      cases n with
      | bytes c => cases same
      | list others =>
          simp only [rlp, Rlp.list.injEq] at same
          have bytes : Function.Injective Rlp.bytes := fun b c equal => Rlp.bytes.inj equal
          rw [List.map_injective_iff.mpr bytes same]

namespace Transaction

variable [Platform]

theorem Accepted.family {tx : Transaction} (accepted : tx.Accepted) : tx.afi = 1 ∨ tx.afi = 2 := by
  obtain ⟨nonce, category, toAddr, afi, value, raw, time, v, r, s, built⟩ := accepted
  obtain ⟨metadata, -, rest⟩ := except_bind_eq_ok.mp built
  obtain ⟨to', -, rest⟩ := except_bind_eq_ok.mp rest
  split at rest
  · cases rest
  · rename_i known
    obtain ⟨network, -, result⟩ := except_bind_eq_ok.mp rest
    have same := Except.ok.inj result
    simp only [mk.injEq] at same
    omega

theorem serialize_inj {t u : Transaction} (acceptedT : t.Accepted) (acceptedU : u.Accepted)
    (same : t.serialize = u.serialize) :
    { t with cachedSender := none } = { u with cachedSender := none } := by
  have familyT := acceptedT.family
  have familyU := acceptedU.family
  simp only [serialize, unsignedItems, List.cons_append, List.nil_append, Rlp.list.injEq,
    List.cons.injEq, Rlp.bytes.injEq, and_true] at same
  obtain ⟨nonce, category, holder, afi, value, metadata, time, v, r, s⟩ := same
  have afi : t.afi = u.afi := by
    rw [← bytesToNat_bigEndian (show t.afi < 256 ^ 1 by omega), afi,
      bytesToNat_bigEndian (show u.afi < 256 ^ 1 by omega)]
  simp only [mk.injEq]
  exact ⟨Rlp.int_inj nonce, Rlp.int_inj category, toBytes_inj holder, afi, value,
    Metadata.rlp_inj metadata, Rlp.int_inj time, Rlp.int_inj v, Rlp.int_inj r, Rlp.int_inj s, trivial⟩

end Transaction

/-- Encodings of different things with different hashes, none of them beyond what rlp can
encode. -/
structure CollisionFree [Platform] (D : Set Bytes) : Prop where
  injective : Set.InjOn Platform.sha3 D
  short : ∀ data ∈ D, data.length < 2 ^ 64

end IPchain
