import Mathlib.Data.Fintype.Prod
import Mathlib.Data.Set.Finite.Basic

/-! Addresses and prefixes of both IP families.

A prefix is kept as it is written, host bits included. Two prefixes that share
an address are nested, which is all that longest-prefix matching rests on. -/

namespace IPchain.Lib

inductive Family where
  | v4
  | v6
  deriving DecidableEq, Repr

instance : Fintype Family := ⟨{.v4, .v6}, by intro f; cases f <;> decide⟩

def Family.width : Family → Nat
  | .v4 => 32
  | .v6 => 128

structure IPAddress where
  family : Family
  value : Nat
  bound : value < 2 ^ family.width
  deriving DecidableEq, Repr

theorem IPAddress.eq_of_value {x y : IPAddress} (family : x.family = y.family)
    (value : x.value = y.value) : x = y := by
  cases x
  cases y
  simp only at family value
  subst family
  subst value
  rfl

theorem width_le (f : Family) : f.width ≤ 128 := by
  cases f <;> decide

instance : Finite IPAddress := by
  have small (x : IPAddress) : x.value < 2 ^ 128 :=
    lt_of_lt_of_le x.bound (Nat.pow_le_pow_right (by decide) (width_le x.family))
  apply Finite.of_injective (fun x : IPAddress => (x.family, (⟨x.value, small x⟩ : Fin (2 ^ 128))))
  intro x y same
  simp only [Prod.mk.injEq, Fin.mk.injEq] at same
  exact IPAddress.eq_of_value same.1 same.2

/-- A network as it is written, such as 10.0.0.1/8: `value` keeps the host bits. -/
structure IPNetwork where
  family : Family
  value : Nat
  prefixlen : Nat
  bound : value < 2 ^ family.width
  short : prefixlen ≤ family.width
  deriving DecidableEq, Repr

namespace IPNetwork

def hostBits (n : IPNetwork) : Nat := n.family.width - n.prefixlen

def stem (n : IPNetwork) : Nat := n.value / 2 ^ n.hostBits

instance : Membership IPAddress IPNetwork where
  mem n x := x.family = n.family ∧ x.value / 2 ^ n.hostBits = n.stem

instance (x : IPAddress) (n : IPNetwork) : Decidable (x ∈ n) :=
  inferInstanceAs (Decidable (x.family = n.family ∧ x.value / 2 ^ n.hostBits = n.stem))

theorem mem_iff (x : IPAddress) (n : IPNetwork) :
    x ∈ n ↔ x.family = n.family ∧ x.value / 2 ^ n.hostBits = n.stem := Iff.rfl

def addresses (n : IPNetwork) : Set IPAddress := {x | x ∈ n}

@[simp] theorem mem_addresses (x : IPAddress) (n : IPNetwork) : x ∈ n.addresses ↔ x ∈ n := Iff.rfl

def cidr (n : IPNetwork) : IPNetwork where
  family := n.family
  value := n.stem * 2 ^ n.hostBits
  prefixlen := n.prefixlen
  bound := lt_of_le_of_lt (Nat.div_mul_le_self _ _) n.bound
  short := n.short

@[simp] theorem cidr_family (n : IPNetwork) : n.cidr.family = n.family := rfl
@[simp] theorem cidr_prefixlen (n : IPNetwork) : n.cidr.prefixlen = n.prefixlen := rfl
@[simp] theorem cidr_hostBits (n : IPNetwork) : n.cidr.hostBits = n.hostBits := rfl

@[simp] theorem cidr_stem (n : IPNetwork) : n.cidr.stem = n.stem := by
  change n.stem * 2 ^ n.hostBits / 2 ^ n.hostBits = n.stem
  exact Nat.mul_div_cancel _ (Nat.two_pow_pos _)

theorem cidr_eq_iff (m n : IPNetwork) :
    m.cidr = n.cidr ↔ m.family = n.family ∧ m.prefixlen = n.prefixlen ∧ m.stem = n.stem := by
  constructor
  · intro same
    have families := congrArg family same
    have lengths := congrArg prefixlen same
    have stems := congrArg stem same
    simp only [cidr_family, cidr_prefixlen, cidr_stem] at families lengths stems
    exact ⟨families, lengths, stems⟩
  · rintro ⟨family, len, stems⟩
    have bits : m.hostBits = n.hostBits := by simp only [hostBits, family, len]
    simp only [cidr, family, len, stems, bits]

@[simp] theorem mem_cidr (x : IPAddress) (n : IPNetwork) : x ∈ n.cidr ↔ x ∈ n := by
  simp only [mem_iff, cidr_family, cidr_hostBits, cidr_stem]

theorem mem_of_cidr_eq {m n : IPNetwork} {x : IPAddress} (same : m.cidr = n.cidr)
    (inside : x ∈ m) : x ∈ n := by
  rw [← mem_cidr, same, mem_cidr] at inside
  exact inside

def ip (n : IPNetwork) : IPAddress := ⟨n.family, n.value, n.bound⟩

theorem ip_mem (n : IPNetwork) : n.ip ∈ n := ⟨rfl, rfl⟩

def ofAddress (x : IPAddress) : IPNetwork := ⟨x.family, x.value, x.family.width, x.bound, le_rfl⟩

@[simp] theorem mem_ofAddress (x y : IPAddress) : y ∈ ofAddress x ↔ y = x := by
  simp only [mem_iff, ofAddress, hostBits, stem, Nat.sub_self, pow_zero, Nat.div_one]
  constructor
  · rintro ⟨family, value⟩
    exact IPAddress.eq_of_value family value
  · rintro rfl
    exact ⟨rfl, rfl⟩

theorem nested {m n : IPNetwork} {x : IPAddress} (inM : x ∈ m) (inN : x ∈ n)
    (longer : n.prefixlen ≤ m.prefixlen) {y : IPAddress} (member : y ∈ m) : y ∈ n := by
  have family : m.family = n.family := inM.1.symm.trans inN.1
  have split : n.hostBits = m.hostBits + (m.prefixlen - n.prefixlen) := by
    have bound := m.short
    simp only [hostBits, ← family]
    omega
  refine ⟨member.1.trans family, ?_⟩
  have agree : y.value / 2 ^ m.hostBits = x.value / 2 ^ m.hostBits := member.2.trans inM.2.symm
  rw [split, pow_add, ← Nat.div_div_eq_div_mul, agree, Nat.div_div_eq_div_mul, ← pow_add, ← split]
  exact inN.2

theorem cidr_eq_of_mem {m n : IPNetwork} {x : IPAddress} (inM : x ∈ m) (inN : x ∈ n)
    (len : m.prefixlen = n.prefixlen) : m.cidr = n.cidr := by
  have family : m.family = n.family := inM.1.symm.trans inN.1
  have bits : m.hostBits = n.hostBits := by simp only [hostBits, family, len]
  have stems : m.stem = n.stem := by rw [← inM.2, ← inN.2, bits]
  exact (cidr_eq_iff m n).mpr ⟨family, len, stems⟩

end IPNetwork

end IPchain.Lib
