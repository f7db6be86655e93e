import Mathlib.Data.List.Basic
import Mathlib.Data.List.Range
import Mathlib.Data.Nat.Bitwise

/-! The exclusive or of lists of bits, and what becomes of it when one bit is flipped. -/

namespace IPchain.Lib

def xorAll : List Nat → Nat
  | [] => 0
  | b :: bits => b ^^^ xorAll bits

@[simp] theorem xorAll_nil : xorAll [] = 0 := rfl

@[simp] theorem xorAll_cons (b : Nat) (bits : List Nat) :
    xorAll (b :: bits) = b ^^^ xorAll bits := rfl

theorem xorAll_map_xor {α : Type} (f g : α → Nat) (items : List α) :
    xorAll (items.map fun i => f i ^^^ g i) = xorAll (items.map f) ^^^ xorAll (items.map g) := by
  induction items with
  | nil => simp
  | cons i items ih =>
      simp only [List.map_cons, xorAll_cons, ih]
      rw [Nat.xor_assoc, Nat.xor_assoc]
      congr 1
      rw [← Nat.xor_assoc, Nat.xor_comm (g i), Nat.xor_assoc]

theorem xorAll_lt_two {bits : List Nat} (small : ∀ b ∈ bits, b < 2) : xorAll bits < 2 := by
  induction bits with
  | nil => decide
  | cons b bits ih =>
      obtain ⟨first, others⟩ := List.forall_mem_cons.mp small
      have rest := ih others
      rw [xorAll_cons]
      exact Nat.xor_lt_two_pow (n := 1) first rest

theorem xor_eq_self_iff (a b : Nat) : a ^^^ b = a ↔ b = 0 := by
  constructor
  · intro same
    calc
      b = a ^^^ (a ^^^ b) := by rw [← Nat.xor_assoc, Nat.xor_self, Nat.zero_xor]
      _ = 0 := by rw [same, Nat.xor_self]
  · rintro rfl
    exact Nat.xor_zero a

def indicator (p i : Nat) : Nat := if i = p then 1 else 0

theorem xorAll_indicator (p first n : Nat) :
    xorAll ((List.range' first n).map (indicator p)) =
      if first ≤ p ∧ p < first + n then 1 else 0 := by
  induction n generalizing first with
  | zero =>
      rw [if_neg (by omega)]
      rfl
  | succ n ih =>
      rw [List.range'_succ, List.map_cons, xorAll_cons, ih, indicator]
      by_cases here : first = p
      · rw [if_pos here, if_neg (by omega), if_pos (by omega)]
        rfl
      · rw [if_neg here, Nat.zero_xor]
        exact if_congr (by omega) rfl rfl

def flipBit (p : Nat) (bits : List Nat) : List Nat := bits.modify p fun b => 1 - b

@[simp] theorem flipBit_length (p : Nat) (bits : List Nat) : (flipBit p bits).length = bits.length :=
  List.length_modify ..

theorem getD_flipBit {bits : List Nat} (small : ∀ b ∈ bits, b < 2) {p : Nat} (inside : p < bits.length)
    (i : Nat) : (flipBit p bits).getD i 0 = bits.getD i 0 ^^^ indicator p i := by
  by_cases past : i < bits.length
  · have bound := small _ (List.getElem_mem past)
    rw [List.getD_eq_getElem _ _ (by simpa using past), List.getD_eq_getElem _ _ past]
    simp only [flipBit, List.getElem_modify, indicator, eq_comm (a := p)]
    split
    · rcases Nat.lt_succ_iff.mp bound |>.lt_or_eq with zero | one
      · rw [Nat.lt_one_iff.mp zero]
        rfl
      · rw [one]
        rfl
    · rw [Nat.xor_zero]
  · rw [List.getD_eq_default _ _ (by simpa using past), List.getD_eq_default _ _ (by omega),
      indicator, if_neg (by omega)]
    rfl

theorem flipBit_eq_iff {bits others : List Nat} (small : ∀ b ∈ bits, b < 2) {p : Nat}
    (inside : p < bits.length) (length : others.length = bits.length) :
    others = flipBit p bits ↔ ∀ i, others.getD i 0 = bits.getD i 0 ^^^ indicator p i := by
  constructor
  · rintro rfl i
    exact getD_flipBit small inside i
  · intro same
    apply List.ext_getElem (by rw [length, flipBit_length])
    intro i first second
    have here := same i
    rw [← getD_flipBit small inside, List.getD_eq_getElem _ _ first,
      List.getD_eq_getElem _ _ second] at here
    exact here

end IPchain.Lib
