import IPchain.Apply
import IPchain.Encoding

/-! Transactions that are read back from the database, where the constructor runs once more. -/

namespace IPchain

open Lib Platform

def Metadata.raw : Metadata → RawMetadata
  | .bytes b => .bytes b
  | .list items => .list (items.map Item.bytes)

variable [Platform]

/-- `Transaction.deserialize` calls the constructor with the stored fields. -/
def Transaction.decoded (tx : Transaction) : Except PyExc Transaction :=
  Transaction.init tx.nonce tx.category (.bytes (toBytes tx.toAddr)) tx.afi (.bytes tx.value)
    tx.metadata.raw tx.time tx.v tx.r tx.s

def decodeTransactions : List Transaction → Except PyExc (List Transaction)
  | [] => .ok []
  | tx :: rest => do
      let tx ← tx.decoded
      let rest ← decodeTransactions rest
      pure (tx :: rest)

def Block.decoded (block : Block) : Except PyExc Block := do
  let transactions ← decodeTransactions block.transactions
  pure { block with transactions := transactions, cachedSigner := none }

omit [Platform] in
theorem addressOfPacked_packed (x : IPAddress) : addressOfPacked x.family (packed x) = .ok x := by
  have sized := packed_length x
  have width : 256 ^ x.family.packedSize = 2 ^ x.family.width := by cases x.family <;> rfl
  have small : x.value < 256 ^ x.family.packedSize := width ▸ x.bound
  simp only [addressOfPacked, dif_pos sized, Except.ok.injEq]
  apply IPAddress.eq_of_value
  · rfl
  · exact bytesToNat_bigEndian small

omit [Platform] in
theorem packed_addressOfPacked {f : Family} {b : Bytes} (sized : b.length = f.packedSize) :
    packed <$> addressOfPacked f b = .ok b := by
  simp only [addressOfPacked, dif_pos sized]
  change Except.ok (bigEndian f.packedSize (bytesToNat b)) = _
  rw [← sized, bigEndian_bytesToNat]

omit [Platform] in
theorem networkOfPacked_valueOf (n : IPNetwork) :
    networkOfPacked n.family (valueOf n) = .ok n := by
  have sized : (packed n.ip).length = n.family.packedSize := packed_length n.ip
  have front : (valueOf n).take n.family.packedSize = packed n.ip := by
    rw [valueOf, ← sized, List.take_left]
  have last : (valueOf n)[n.family.packedSize]? = some (UInt8.ofNat n.prefixlen) := by
    rw [valueOf, ← sized, List.getElem?_concat_length]
  have short : n.prefixlen < 256 := by
    have bound := n.short.trans (width_le n.family)
    omega
  have read : addressOfPacked n.family (packed n.ip) = .ok n.ip := addressOfPacked_packed n.ip
  simp only [networkOfPacked, front, last, read, bind, Except.bind, toNat_ofNat_mod,
    Nat.mod_eq_of_lt short, networkOf]
  exact dif_pos n.short

omit [Platform] in
theorem valueOf_length (n : IPNetwork) : (valueOf n).length = n.family.packedSize + 1 := by
  rw [valueOf, List.length_append, packed_length, List.length_singleton]
  rfl

theorem normalizeAddressOrBlank_toBytes (toAddr : Option Address) :
    normalizeAddressOrBlank (.bytes (toBytes toAddr)) = .ok toAddr := by
  cases toAddr with
  | none => rfl
  | some a =>
      have read := normalizeAddress_bytes a
      obtain ⟨bytes, sized⟩ := a
      cases bytes with
      | nil => cases sized
      | cons b rest =>
          simp only [toBytes, normalizeAddressOrBlank, read]
          rfl

omit [Platform] in
theorem metadataAfi_reread {asBytes : Bool} {item : Item} {n : Nat} {stored : Bytes}
    (read : metadataAfi asBytes item = .ok (n, stored)) :
    metadataAfi true (.bytes stored) = .ok (n, stored) := by
  obtain ⟨known, reads⟩ := metadataAfi_ok read
  have allowed : ¬ (n ≠ 1 ∧ n ≠ 2) := by omega
  rw [metadataAfi, storedAfi, reads]
  exact if_neg allowed

theorem metadataIp_reread {asBytes : Bool} {n : Nat} {item : Item} {ip : Bytes}
    (read : metadataIp asBytes n item = .ok ip) : metadataIp true n (.bytes ip) = .ok ip :=
  packed_addressOfPacked (metadataIp_length read)

omit [Platform] in
theorem metadataByte_reread {asBytes : Bool} {text : String} {item : Item} {b : Bytes}
    (read : metadataByte asBytes text item = .ok b) (nonzero : b ≠ []) :
    metadataByte true text (.bytes b) = .ok b := by
  have reread {n : Nat} (small : n ≤ 255) (same : intToBigEndian n = b) :
      metadataByte true text (.bytes b) = .ok b := by
    have reads : bytesToInt b = .ok n := by
      rw [bytesToInt, if_neg nonzero, ← same, bytesToNat_intToBigEndian]
    simp only [metadataByte, reads, bind, Except.bind]
    rw [if_neg (by omega), same]
    rfl
  simp only [metadataByte] at read
  rcases asBytes with _ | _ <;> rcases item with i | c <;> simp only at read
  · split at read
    · cases read
    · rename_i bounds
      cases read
      exact reread (by omega) rfl
  · cases read
  · cases read
  · obtain ⟨n, value, checked⟩ := except_bind_eq_ok.mp read
    split at checked
    · cases checked
    · rename_i bound
      cases checked
      exact reread (by omega) rfl

theorem mapServerEntry_reread {asBytes : Bool} {afi ip addr : Item} {entry : List Bytes}
    (read : mapServerEntry asBytes afi ip addr = .ok entry) :
    ∃ a b c, entry = [a, b, c] ∧ mapServerEntry true (.bytes a) (.bytes b) (.bytes c) = .ok entry := by
  obtain ⟨⟨n, stored⟩, known, body⟩ := except_bind_eq_ok.mp read
  obtain ⟨address, located, body⟩ := except_bind_eq_ok.mp (orInvalid_eq_ok.mp body)
  obtain ⟨account, named, result⟩ := except_bind_eq_ok.mp body
  cases result
  refine ⟨stored, address, toBytes account, rfl, except_bind_eq_ok.mpr ⟨(n, stored), ?_, ?_⟩⟩
  · rw [metadataAfi_reread (orInvalid_eq_ok.mp known)]
    rfl
  · apply orInvalid_eq_ok.mpr
    rw [metadataIp_reread located, normalizeAddressOrBlank_toBytes]
    rfl

theorem mapServerEntries_reread {asBytes : Bool} {items : List Item} {stored : List Bytes}
    (read : mapServerEntries asBytes items = .ok stored) : stored.length = items.length ∧
      mapServerEntries true (stored.map Item.bytes) = .ok stored := by
  fun_induction mapServerEntries asBytes items generalizing stored with
  | case1 =>
      cases read
      exact ⟨rfl, rfl⟩
  | case2 afi ip addr rest ih =>
      obtain ⟨entry, one, more⟩ := except_bind_eq_ok.mp read
      obtain ⟨entries, others, result⟩ := except_bind_eq_ok.mp more
      cases result
      obtain ⟨a, b, c, rfl, again⟩ := mapServerEntry_reread one
      obtain ⟨length, rest⟩ := ih others
      simp only [List.cons_append, List.nil_append, List.map_cons, mapServerEntries, again, rest,
        List.length_cons, length]
      exact ⟨trivial, rfl⟩
  | case3 => cases read

theorem locatorEntry_reread {asBytes : Bool} {afi ip priority weight : Item} {entry : List Bytes}
    (read : locatorEntry asBytes afi ip priority weight = .ok entry) (nonzero : [] ∉ entry) :
    ∃ a b c d, entry = [a, b, c, d] ∧
      locatorEntry true (.bytes a) (.bytes b) (.bytes c) (.bytes d) = .ok entry := by
  obtain ⟨⟨n, stored⟩, known, body⟩ := except_bind_eq_ok.mp read
  obtain ⟨address, located, body⟩ := except_bind_eq_ok.mp (orInvalid_eq_ok.mp body)
  obtain ⟨p, first, body⟩ := except_bind_eq_ok.mp body
  obtain ⟨w, second, result⟩ := except_bind_eq_ok.mp body
  cases result
  simp only [List.mem_cons, List.not_mem_nil, or_false, not_or] at nonzero
  obtain ⟨-, -, priority, weight⟩ := nonzero
  refine ⟨stored, address, p, w, rfl, except_bind_eq_ok.mpr ⟨(n, stored), ?_, ?_⟩⟩
  · rw [metadataAfi_reread (orInvalid_eq_ok.mp known)]
    rfl
  · apply orInvalid_eq_ok.mpr
    rw [metadataIp_reread located, metadataByte_reread first (Ne.symm priority),
      metadataByte_reread second (Ne.symm weight)]
    rfl

theorem locatorEntries_reread {asBytes : Bool} {items : List Item} {stored : List Bytes}
    (read : locatorEntries asBytes items = .ok stored) (nonzero : [] ∉ stored) :
    stored.length = items.length ∧
      locatorEntries true (stored.map Item.bytes) = .ok stored := by
  fun_induction locatorEntries asBytes items generalizing stored with
  | case1 =>
      cases read
      exact ⟨rfl, rfl⟩
  | case2 afi ip priority weight rest ih =>
      obtain ⟨entry, one, more⟩ := except_bind_eq_ok.mp read
      obtain ⟨entries, others, result⟩ := except_bind_eq_ok.mp more
      cases result
      rw [List.mem_append, not_or] at nonzero
      obtain ⟨a, b, c, d, rfl, again⟩ := locatorEntry_reread one nonzero.1
      obtain ⟨length, rest⟩ := ih others nonzero.2
      simp only [List.cons_append, List.nil_append, List.map_cons, locatorEntries, again, rest,
        List.length_cons, length]
      exact ⟨trivial, rfl⟩
  | case3 => cases read

omit [Platform] in
theorem metadataList_reread {size : Nat} {entries : Bool → List Item → Except PyExc (List Bytes)}
    {raw : RawMetadata} {metadata : Metadata} (read : metadataList size entries raw = .ok metadata)
    (reread : ∀ asBytes items stored, entries asBytes items = .ok stored → metadata = .list stored →
      stored.length = items.length ∧ entries true (stored.map Item.bytes) = .ok stored) :
    metadataList size entries metadata.raw = .ok metadata := by
  have listed {asBytes : Bool} {first : Item} {rest : List Item}
      (whole : (first :: rest).length % size = 0)
      (read : Metadata.list <$> entries asBytes (first :: rest) = .ok metadata) :
      metadataList size entries metadata.raw = .ok metadata := by
    obtain ⟨stored, done, same⟩ := except_map_eq_ok.mp read
    obtain ⟨length, again⟩ := reread _ _ _ done same.symm
    cases stored with
    | nil => cases length
    | cons b others =>
        rw [List.map_cons] at again
        rw [← same, Metadata.raw, List.map_cons, metadataList, List.length_cons, List.length_map,
          ← List.length_cons, length, if_pos whole, again]
        rfl
  simp only [metadataList] at read
  split at read
  · cases read
  · split at read
    · rename_i whole
      split at read
      · cases read
      · exact listed whole read
      · exact listed whole read
    · cases read

omit [Platform] in
theorem checkMetadata_blank {raw : RawMetadata} {metadata : Metadata} (read : (match raw with
    | .bytes [] => .ok (.bytes [])
    | _ => invalid "Invalid Metadata" : Except PyExc Metadata) = .ok metadata) :
    metadata = .bytes [] := by
  split at read
  · cases read
    rfl
  · cases read

theorem checkMetadata_reread {category : Nat} {raw : RawMetadata} {metadata : Metadata}
    (read : checkMetadata category raw = .ok metadata)
    (nonzero : category = 3 → [] ∉ metadata.elements) :
    checkMetadata category metadata.raw = .ok metadata := by
  rcases category with _ | _ | _ | _ | category
  · cases checkMetadata_blank read
    rfl
  · cases checkMetadata_blank read
    rfl
  · apply metadataList_reread read
    intro asBytes items stored done _
    exact mapServerEntries_reread done
  · apply metadataList_reread read
    intro asBytes items stored done same
    apply locatorEntries_reread done
    rw [same] at nonzero
    exact nonzero rfl
  · cases read

/-- What the constructor makes of a stored value, which it takes for text first. -/
def rereadValue (afi : Nat) (value : Bytes) : Bytes :=
  match parseNetwork (familyOf afi) value with
  | some n => valueOf n.val
  | none => value

theorem checkValue_reread (afi : Nat) {value : Bytes} (n : IPNetwork) (stored : value = valueOf n) :
    ∃ m, checkValue afi (.bytes value) = .ok m ∧ valueOf m = rereadValue afi value := by
  have sized := valueOf_length n
  have packedRead := networkOfPacked_valueOf n
  rw [← stored] at sized packedRead
  simp only [checkValue, networkOfItem, rereadValue]
  cases parseNetwork (familyOf afi) value with
  | some m => exact ⟨m.val, rfl, rfl⟩
  | none =>
      refine ⟨n, ?_, stored.symm⟩
      cases family : n.family with
      | v4 =>
          rw [family] at sized packedRead
          have five : value.length = 5 := sized
          simp only [five, if_true, packedRead]
          rfl
      | v6 =>
          rw [family] at sized packedRead
          have seventeen : value.length = 17 := sized
          simp only [seventeen, if_neg (show ¬ 17 = 5 by decide), if_true, packedRead]
          rfl

namespace Transaction

def reread (tx : Transaction) : Bytes := rereadValue tx.afi tx.value

theorem Accepted.decoded {tx : Transaction} (accepted : tx.Accepted)
    (nonzero : tx.category = 3 → [] ∉ tx.metadata.elements) :
    tx.decoded = .ok { tx with value := tx.reread, cachedSender := none } := by
  obtain ⟨nonce, category, toAddr, afi, value, raw, time, v, r, s, built⟩ := accepted
  obtain ⟨metadata, checked, rest⟩ := except_bind_eq_ok.mp built
  obtain ⟨holder, named, rest⟩ := except_bind_eq_ok.mp rest
  split at rest
  · cases rest
  · rename_i known
    obtain ⟨network, -, result⟩ := except_bind_eq_ok.mp rest
    have same := Except.ok.inj result
    simp only [mk.injEq] at same
    obtain ⟨-, sameCategory, sameTo, sameAfi, stored, sameMetadata, -⟩ := same
    subst sameCategory sameTo sameAfi sameMetadata
    obtain ⟨m, reads, written⟩ := checkValue_reread tx.afi network stored.symm
    rw [Transaction.decoded, init, checkMetadata_reread checked nonzero,
      normalizeAddressOrBlank_toBytes]
    simp only [bind, Except.bind, if_neg known, reads, written]
    rfl

/-- The stored value is the text of another network. -/
def Misread (tx : Transaction) : Prop := tx.reread ≠ tx.value

instance (tx : Transaction) : Decidable tx.Misread :=
  inferInstanceAs (Decidable (tx.reread ≠ tx.value))

theorem Accepted.decoded_eq {tx : Transaction} (accepted : tx.Accepted)
    (nonzero : tx.category = 3 → [] ∉ tx.metadata.elements) (clear : ¬ tx.Misread) :
    tx.decoded = .ok { tx with cachedSender := none } := by
  rw [accepted.decoded nonzero, not_not.mp clear]

end Transaction

end IPchain
