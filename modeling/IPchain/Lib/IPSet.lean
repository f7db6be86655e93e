import IPchain.Lib.Network
import Mathlib.Data.Set.Card

/-! Finite sets of addresses as exact set algebra.

An implementation of `IPSet` supplies the operations together with the law that
each of them computes the set it is named after, and that `size` counts. -/

namespace IPchain.Lib

class IPSet (S : Type) where
  decEq : DecidableEq S
  mem : IPAddress → S → Prop
  empty : S
  ofNetwork : IPNetwork → S
  add : S → IPNetwork → S
  remove : S → IPNetwork → S
  inter : S → S → S
  diff : S → S → S
  contains : S → IPNetwork → Bool
  size : S → Nat
  mem_empty : ∀ x, ¬ mem x empty
  mem_ofNetwork : ∀ n x, mem x (ofNetwork n) ↔ x ∈ n
  mem_add : ∀ s n x, mem x (add s n) ↔ mem x s ∨ x ∈ n
  mem_remove : ∀ s n x, mem x (remove s n) ↔ mem x s ∧ x ∉ n
  mem_inter : ∀ s t x, mem x (inter s t) ↔ mem x s ∧ mem x t
  mem_diff : ∀ s t x, mem x (diff s t) ↔ mem x s ∧ ¬ mem x t
  contains_iff : ∀ s n, contains s n = true ↔ ∀ x ∈ n, mem x s
  size_eq : ∀ s, size s = {x | mem x s}.ncard

namespace IPSet

variable {S : Type} [IPSet S]

instance : Membership IPAddress S where
  mem s x := mem x s

instance : DecidableEq S := decEq

@[simp] theorem not_mem_empty (x : IPAddress) : x ∉ (empty : S) := mem_empty x

@[simp] theorem mem_ofNetwork_iff (n : IPNetwork) (x : IPAddress) :
    x ∈ (ofNetwork n : S) ↔ x ∈ n := mem_ofNetwork n x

@[simp] theorem mem_add_iff (s : S) (n : IPNetwork) (x : IPAddress) :
    x ∈ add s n ↔ x ∈ s ∨ x ∈ n := mem_add s n x

@[simp] theorem mem_remove_iff (s : S) (n : IPNetwork) (x : IPAddress) :
    x ∈ remove s n ↔ x ∈ s ∧ x ∉ n := mem_remove s n x

@[simp] theorem mem_inter_iff (s t : S) (x : IPAddress) :
    x ∈ inter s t ↔ x ∈ s ∧ x ∈ t := mem_inter s t x

@[simp] theorem mem_diff_iff (s t : S) (x : IPAddress) :
    x ∈ diff s t ↔ x ∈ s ∧ x ∉ t := mem_diff s t x

theorem contains_eq_true (s : S) (n : IPNetwork) : contains s n = true ↔ ∀ x ∈ n, x ∈ s :=
  contains_iff s n

theorem size_congr (s t : S) (same : ∀ x, x ∈ s ↔ x ∈ t) : size s = size t := by
  rw [size_eq, size_eq]
  exact congrArg Set.ncard (Set.ext same)

theorem size_eq_zero (s : S) : size s = 0 ↔ ∀ x, x ∉ s := by
  rw [size_eq, Set.ncard_eq_zero (Set.toFinite _), Set.eq_empty_iff_forall_notMem]
  exact Iff.rfl

theorem size_pos (s : S) : 0 < size s ↔ ∃ x, x ∈ s := by
  rw [Nat.pos_iff_ne_zero, ne_eq, size_eq_zero, not_forall_not]

def ofNetworks (networks : List IPNetwork) : S := networks.foldl add empty

theorem mem_foldl_add (networks : List IPNetwork) (s : S) (x : IPAddress) :
    x ∈ networks.foldl add s ↔ x ∈ s ∨ ∃ n ∈ networks, x ∈ n := by
  induction networks generalizing s with
  | nil => simp
  | cons head tail ih => simp [ih, or_assoc]

@[simp] theorem mem_ofNetworks (networks : List IPNetwork) (x : IPAddress) :
    x ∈ (ofNetworks networks : S) ↔ ∃ n ∈ networks, x ∈ n := by
  simp [ofNetworks, mem_foldl_add]

end IPSet

end IPchain.Lib
