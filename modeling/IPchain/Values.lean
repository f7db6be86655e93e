import IPchain.Decoding
import IPchain.Genesis

/-! The value of a transaction that the constructor accepts: when it is a network of the address
family that the transaction names. -/

namespace IPchain

open Lib Platform

namespace Transaction

/-- What `create_block` and `add_block` take for granted when they look at `afi`. -/
def WellFormed (tx : Transaction) : Prop :=
  ∃ prefixlen : UInt8, tx.value.getLast? = some prefixlen ∧
    (tx.afi = 1 ∧ tx.value.length = 5 ∧ prefixlen.toNat ≤ 32 ∨
      tx.afi = 2 ∧ tx.value.length = 17 ∧ prefixlen.toNat ≤ 128)

end Transaction

section Values

variable [Platform]

/-- The value reads as a network of the family, or it is packed and as long as one. -/
def Fitting (afi : Nat) (value : Item) : Prop :=
  (∃ n, networkOfItem (familyOf afi) value = .ok n) ∨
    ∃ b, value = .bytes b ∧ b.length = (familyOf afi).packedSize + 1

theorem networkOfItem_family {f : Family} {value : Item} {n : IPNetwork}
    (read : networkOfItem f value = .ok n) : n.family = f := by
  cases value with
  | int i =>
      obtain ⟨x, address, network⟩ := except_bind_eq_ok.mp read
      simp only [addressOfInt] at address
      split at address
      · cases address
        simp only [networkOf] at network
        split at network <;> cases network
        rfl
      · cases address
  | bytes b =>
      simp only [networkOfItem] at read
      split at read
      · rename_i m parsed
        cases read
        exact m.property
      · cases read

omit [Platform] in
theorem networkOfPacked_family {f : Family} {b : Bytes} {n : IPNetwork}
    (read : networkOfPacked f b = .ok n) : n.family = f := by
  obtain ⟨x, address, rest⟩ := except_bind_eq_ok.mp read
  simp only [addressOfPacked] at address
  split at address
  · cases address
    split at rest
    · cases rest
    · simp only [networkOf] at rest
      split at rest <;> cases rest
      rfl
  · cases address

theorem checkValue_family_iff {afi : Nat} {value : Item} {n : IPNetwork}
    (read : checkValue afi value = .ok n) : n.family = familyOf afi ↔ Fitting afi value := by
  simp only [checkValue] at read
  split at read
  · rename_i m first
    cases read
    exact iff_of_true (networkOfItem_family first) (Or.inl ⟨_, first⟩)
  · rename_i e failed
    have unread : ¬ ∃ n, networkOfItem (familyOf afi) value = .ok n := by
      rintro ⟨m, first⟩
      rw [first] at failed
      cases failed
    cases value with
    | int i => cases read
    | bytes b =>
        have sized : Fitting afi (.bytes b) ↔ b.length = (familyOf afi).packedSize + 1 := by
          simp only [Fitting, unread, false_or, Item.bytes.injEq, exists_eq_left']
        rw [sized]
        simp only at read
        split at read
        · rename_i five
          have four := networkOfPacked_family (orInvalid_eq_ok.mp read)
          rw [four, five]
          cases familyOf afi <;> decide
        · split at read
          · rename_i seventeen
            have six := networkOfPacked_family (orInvalid_eq_ok.mp read)
            rw [six, seventeen]
            cases familyOf afi <;> decide
          · cases read

omit [Platform] in
theorem toNat_prefixlen (n : IPNetwork) : (UInt8.ofNat n.prefixlen).toNat = n.prefixlen := by
  have short := n.short
  have width : n.family.width ≤ 128 := by cases n.family <;> decide
  rw [UInt8.toNat_ofNat']
  exact Nat.mod_eq_of_lt (by omega)

omit [Platform] in
theorem wellFormed_iff (tx : Transaction) {n : IPNetwork} (stored : tx.value = valueOf n)
    (known : tx.afi = 1 ∨ tx.afi = 2) : tx.WellFormed ↔ n.family = familyOf tx.afi := by
  have last : tx.value.getLast? = some (UInt8.ofNat n.prefixlen) := by
    rw [stored, valueOf, List.getLast?_append]
    rfl
  have length : tx.value.length = n.family.packedSize + 1 := by rw [stored, valueOf_length]
  have short := n.short
  simp only [Transaction.WellFormed, last, Option.some.injEq, exists_eq_left', length,
    toNat_prefixlen]
  rcases known with afi | afi <;> rw [afi] <;> cases family : n.family <;>
    rw [family] at short <;> simp_all [familyOf, Family.packedSize, Family.width]

/-- What an accepted transaction stores is well formed, and read back as a network of the family
that it names, if and only if the value fits the family. -/
theorem accepted_well_formed_iff {nonce category : Nat} {toAddr : Item} {afi : Nat} {value : Item}
    {metadata : RawMetadata} {time v r s : Nat} {tx : Transaction}
    (built : Transaction.init nonce category toAddr afi value metadata time v r s = .ok tx) :
    (tx.WellFormed ∧ ∃ n, tx.ipNetwork = .ok n ∧ n.family = familyOf tx.afi) ↔
      Fitting afi value := by
  obtain ⟨stored, -, rest⟩ := except_bind_eq_ok.mp built
  obtain ⟨holder, -, rest⟩ := except_bind_eq_ok.mp rest
  split at rest
  · cases rest
  · rename_i known
    obtain ⟨n, read, result⟩ := except_bind_eq_ok.mp rest
    cases result
    have shape := wellFormed_iff ⟨nonce, category, holder, afi, valueOf n, stored, time, v,
      r, s, none⟩ rfl (by simp only; omega)
    rw [shape, ← checkValue_family_iff read]
    constructor
    · exact fun both => both.1
    · intro family
      refine ⟨family, n, ?_, family⟩
      rw [Transaction.ipNetwork]
      simp only
      rw [← family]
      exact networkOfPacked_valueOf n

end Values

namespace Sample

def constructed (afi : Nat) (n : IPNetwork) : Except PyExc Transaction :=
  Transaction.init 0 0 (.bytes bob.bytes) afi (.bytes (valueOf n)) (.bytes []) 0 27 1 1

def mixed (afi : Nat) (n : IPNetwork) : Transaction :=
  ⟨0, 0, some bob, afi, valueOf n, .bytes [], 0, 27, 1, 1, none⟩

theorem fitting_well_formed : (mixed 1 (net 0 9)).WellFormed ∧
    ∃ n, (mixed 1 (net 0 9)).ipNetwork = .ok n ∧ n.family = .v4 :=
  (accepted_well_formed_iff (show constructed 1 (net 0 9) = .ok (mixed 1 (net 0 9)) from rfl)).mpr
    (Or.inr ⟨_, rfl, rfl⟩)

/-- An IPv4 network under the number of IPv6, and the other way round: both are accepted. The
first has no network to read, the second reads as a network that nobody sent. -/
theorem mixed_accepted : constructed 2 (net 0 9) = .ok (mixed 2 (net 0 9)) ∧
    (mixed 2 (net 0 9)).value.length = 5 ∧ ¬ (∃ n, (mixed 2 (net 0 9)).ipNetwork = .ok n) ∧
    constructed 1 (net6 0 48) = .ok (mixed 1 (net6 0 48)) ∧
    (mixed 1 (net6 0 48)).value.length = 17 ∧ ¬ (mixed 1 (net6 0 48)).WellFormed ∧
      ¬ (mixed 2 (net 0 9)).WellFormed := by
  have unread : (mixed 2 (net 0 9)).ipNetwork = .error ⟨.addressValueError, ""⟩ := rfl
  refine ⟨rfl, rfl, ?_, rfl, rfl, ?_, ?_⟩
  · rintro ⟨n, read⟩
    cases unread.symm.trans read
  · exact mt (wellFormed_iff _ rfl (by decide)).mp (by decide)
  · exact mt (wellFormed_iff _ rfl (by decide)).mp (by decide)

end Sample

end IPchain
