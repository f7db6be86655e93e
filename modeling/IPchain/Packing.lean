import IPchain.Nodes
import IPchain.RlpDecoder

/-! The two packings of trie.py: items into bytes, and paths into the keys of nodes. -/

namespace IPchain.MerkleTrie

open Lib Platform

mutual

/-- The encoder of trie.py, beside the one of the rlp library. `ord(item)` is the value of the
only byte. -/
def encodeOptimized : Rlp → Bytes
  | .bytes item =>
      if item.length = 1 ∧ bytesToNat item < 128 then item
      else lengthPrefix 128 item.length ++ item
  | .list items =>
      let item := encodeAll items
      lengthPrefix 192 item.length ++ item

def encodeAll : List Rlp → Bytes
  | [] => []
  | x :: items => encodeOptimized x ++ encodeAll items

end

theorem encodeOptimized_bytes (item : Bytes) :
    encodeOptimized (.bytes item) = (Rlp.bytes item).encode := by
  rw [encodeOptimized]
  rcases Rlp.encode_bytes item with ⟨c, rfl, below, same⟩ | ⟨other, same⟩
  · have value : bytesToNat [c] = c.toNat := by simp [bytesToNat]
    rw [same, if_pos ⟨rfl, by omega⟩]
  · rw [same, if_neg]
    rintro ⟨one, below⟩
    obtain ⟨c, rfl⟩ := List.length_eq_one_iff.mp one
    have value : bytesToNat [c] = c.toNat := by simp [bytesToNat]
    exact other ⟨c, rfl, by omega⟩

mutual

theorem encodeOptimized_eq : (item : Rlp) → encodeOptimized item = item.encode
  | .bytes item => encodeOptimized_bytes item
  | .list items => by
      rw [encodeOptimized, Rlp.encode, encodeAll_eq items]

theorem encodeAll_eq : (items : List Rlp) → encodeAll items = Rlp.encodeList items
  | [] => rfl
  | x :: items => by
      rw [encodeAll, Rlp.encodeList, encodeOptimized_eq x, encodeAll_eq items]

end

theorem eq_of_encode_prefix {x y : Rlp} (smallX : x.content.length < 2 ^ 64)
    (smallY : y.content.length < 2 ^ 64) (front : x.encode <+: y.encode) : x = y := by
  obtain ⟨rest, same⟩ := front
  have first := Rlp.decodeItem_encode x rest (2 * x.encode.length + 2 * y.encode.length) smallX
    (by omega)
  have second := Rlp.decodeItem_encode y [] (2 * x.encode.length + 2 * y.encode.length) smallY
    (by omega)
  rw [same] at first
  rw [List.append_nil, first, Option.some_inj] at second
  exact (Prod.mk.inj second).1

/-- The decoder gets every item back, and encodings do not start one another. -/
theorem encoder_exact :
    (∀ item : Rlp, item.content.length < 2 ^ 64 →
      Rlp.decode (encodeOptimized item) = .ok item) ∧
    ∀ x y : Rlp, x.content.length < 2 ^ 64 → y.content.length < 2 ^ 64 →
      (encodeOptimized x = encodeOptimized y → x = y) ∧
        (encodeOptimized x <+: encodeOptimized y → x = y) := by
  constructor
  · intro item small
    rw [encodeOptimized_eq]
    exact Rlp.decode_of_content small
  · intro x y smallX smallY
    rw [encodeOptimized_eq, encodeOptimized_eq]
    constructor
    · intro same
      apply eq_of_encode_prefix smallX smallY
      rw [same]
    · exact eq_of_encode_prefix smallX smallY

def ended (ns : List Nat) (terminated : Bool) : List Nat :=
  ns ++ if terminated then [nibbleTerminator] else []

theorem exists_path {ns : List Nat} (small : ∀ n ∈ ns, n < 16) : ∃ path : Path, nibbles path = ns :=
  ⟨ns.pmap Fin.mk small, by rw [nibbles, List.map_pmap, List.pmap_eq_map, List.map_id']⟩

theorem unpack_pack {ns : List Nat} (small : ∀ n ∈ ns, n < 16) (terminated : Bool) :
    unpackToNibbles (packNibbles (ended ns terminated)) = .ok (ended ns terminated) := by
  obtain ⟨path, rfl⟩ := exists_path small
  exact unpackToNibbles_packNibbles path terminated

theorem pack_inj {p q : List Nat} (smallP : ∀ n ∈ p, n < 16) (smallQ : ∀ n ∈ q, n < 16)
    {a b : Bool} (same : packNibbles (ended p a) = packNibbles (ended q b)) : p = q ∧ a = b := by
  obtain ⟨path, rfl⟩ := exists_path smallP
  obtain ⟨other, rfl⟩ := exists_path smallQ
  obtain ⟨paths, kinds⟩ := packNibbles_inj same
  exact ⟨congrArg nibbles paths, kinds⟩

theorem nodeType_pack {ns : List Nat} (small : ∀ n ∈ ns, n < 16) (terminated : Bool) (item : Rlp) :
    getNodeType (.list [.bytes (packNibbles (ended ns terminated)), item]) =
      .ok (if terminated then .leaf (packNibbles (ended ns terminated)) item
        else .extension (packNibbles (ended ns terminated)) item) := by
  obtain ⟨path, rfl⟩ := exists_path small
  exact getNodeType_kvNode path terminated item

/-- The packed key of a node tells its path and its kind, and is what these pack to. -/
theorem packing_exact :
    (∀ ns : List Nat, (∀ n ∈ ns, n < 16) → ∀ terminated,
      unpackToNibbles (packNibbles (ended ns terminated)) = .ok (ended ns terminated)) ∧
    (∀ x ns terminated, (∀ n ∈ ns, n < 16) → x = packNibbles (ended ns terminated) →
      ∃ unpacked, unpackToNibbles x = .ok unpacked ∧ packNibbles unpacked = x) ∧
    (∀ p q : List Nat, (∀ n ∈ p, n < 16) → (∀ n ∈ q, n < 16) → ∀ a b,
      packNibbles (ended p a) = packNibbles (ended q b) → p = q ∧ a = b) ∧
    ∀ ns : List Nat, (∀ n ∈ ns, n < 16) → ∀ terminated item,
      getNodeType (.list [.bytes (packNibbles (ended ns terminated)), item]) =
        .ok (if terminated then .leaf (packNibbles (ended ns terminated)) item
          else .extension (packNibbles (ended ns terminated)) item) := by
  refine ⟨fun ns small => unpack_pack small, ?_, ?_, fun ns small => nodeType_pack small⟩
  · rintro x ns terminated small rfl
    exact ⟨_, unpack_pack small terminated, rfl⟩
  · intro p q smallP smallQ a b same
    exact pack_inj smallP smallQ same

end IPchain.MerkleTrie

namespace IPchain.Sample

open MerkleTrie

def bounds : Rlp :=
  .list [.bytes [0x7f], .bytes [0x80], .bytes (List.replicate 55 1), .bytes (List.replicate 56 1),
    .list [.bytes []]]

theorem bounds_exact : Rlp.decode (encodeOptimized bounds) = .ok bounds ∧
    ¬ encodeOptimized (.list []) <+: encodeOptimized bounds := by
  refine ⟨encoder_exact.1 bounds (by decide +kernel), fun front => ?_⟩
  have same := (encoder_exact.2 (.list []) bounds (by decide) (by decide +kernel)).2 front
  cases same

theorem leaf_packed : unpackToNibbles (packNibbles (ended [1, 15, 3] true)) =
      .ok (ended [1, 15, 3] true) ∧
    packNibbles (ended [1, 15, 3] true) ≠ packNibbles (ended [1, 15, 3] false) := by
  refine ⟨packing_exact.1 [1, 15, 3] (by decide) true, fun same => ?_⟩
  have kinds := (packing_exact.2.2.1 [1, 15, 3] [1, 15, 3] (by decide) (by decide) true false same).2
  cases kinds

end IPchain.Sample
