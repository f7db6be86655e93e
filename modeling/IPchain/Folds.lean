import IPchain.Beacon
import IPchain.Encoding
import IPchain.Lib.Parity

/-! The two folds of the random number: which of its bits an address depends on, and the family
of the address that comes out. -/

namespace IPchain

open Lib

def groupSize : Family → Nat
  | .v4 => 8
  | .v6 => 2

def consensusFor : Family → List Nat → Except PyExc (List Nat)
  | .v4 => consensusForIPv4
  | .v6 => consensusForIPv6

theorem except_mapM_eq {α β : Type} {f : α → Except PyExc β} {g : α → β} {items : List α}
    (runs : ∀ a ∈ items, f a = .ok (g a)) : items.mapM f = .ok (items.map g) := by
  induction items with
  | nil => rfl
  | cons a items ih =>
      obtain ⟨first, others⟩ := List.forall_mem_cons.mp runs
      rw [List.mapM_cons, first, ih others]
      rfl

theorem bitAt_eq {hash : List Nat} {i : Nat} (inside : i < hash.length) :
    bitAt hash i = .ok (hash.getD i 0) := by
  rw [bitAt, List.getElem?_eq_getElem inside, List.getD_eq_getElem _ _ inside]

def groupBit (skip ngroup : Nat) (hash : List Nat) (k : Nat) : Nat :=
  hash.getD (ngroup * k) 0 ^^^
    xorAll ((List.range' (ngroup * k + skip) (ngroup - skip)).map fun j => hash.getD j 0)

theorem foldBits (hash positions : List Nat)
    (inside : ∀ j ∈ positions, j < hash.length) (first : Nat) :
    positions.foldlM (fun x j => do
      let bit ← bitAt hash j
      return x ^^^ bit) first =
        (.ok (first ^^^ xorAll (positions.map fun j => hash.getD j 0)) : Except PyExc Nat) := by
  induction positions generalizing first with
  | nil => simp [pure, Except.pure]
  | cons j positions ih =>
      obtain ⟨here, others⟩ := List.forall_mem_cons.mp inside
      rw [List.foldlM_cons, bitAt_eq here]
      change (positions.foldlM _ (first ^^^ hash.getD j 0)) = _
      rw [ih others, List.map_cons, xorAll_cons, Nat.xor_assoc]

theorem range'_step (n step : Nat) :
    List.range' 0 n step = (List.range n).map fun k => step * k := by
  induction n with
  | zero => rfl
  | succ n ih =>
      rw [List.range'_concat, ih, List.range_succ, List.map_append, Nat.zero_add]
      rfl

theorem foldGroups_eq {skip width ngroup : Nat} {hash : List Nat} (some : 0 < width)
    (positive : 0 < ngroup) (short : skip ≤ ngroup) (whole : hash.length = ngroup * width) :
    foldGroups skip width hash = .ok ((List.range width).map (groupBit skip ngroup hash)) := by
  have group : hash.length / width = ngroup := by rw [whole, Nat.mul_div_cancel _ some]
  have count : (hash.length + ngroup - 1) / ngroup = width := by
    rw [whole, Nat.add_sub_assoc positive, Nat.mul_add_div positive,
      Nat.div_eq_of_lt (by omega), Nat.add_zero]
  have inside {k j : Nat} (low : k < width) (near : j < ngroup) :
      ngroup * k + j < hash.length := by
    have bound := Nat.mul_le_mul_left ngroup (Nat.succ_le_of_lt low)
    rw [Nat.mul_succ] at bound
    omega
  simp only [foldGroups, group, count, if_neg positive.ne']
  rw [range'_step, List.mapM_map]
  apply except_mapM_eq
  intro k member
  have low := List.mem_range.mp member
  have first := bitAt_eq (inside low positive)
  rw [Nat.add_zero] at first
  have loop := foldBits hash (List.range' (ngroup * k + skip) (ngroup - skip))
    (by
      intro j listed
      obtain ⟨i, near, rfl⟩ := List.mem_range'.mp listed
      rw [Nat.one_mul, Nat.add_assoc]
      exact inside low (by omega)) (hash.getD (ngroup * k) 0)
  simp only [Function.comp, first, bind, Except.bind] at loop ⊢
  exact loop

/-- The bit that the inner loop of the family's fold starts with, counted from the first. -/
def firstJoined : Family → Nat
  | .v4 => 0
  | .v6 => 1

structure RandomBits (hash : List Nat) : Prop where
  sized : hash.length = 256
  bits : ∀ b ∈ hash, b < 2

def addressBits (f : Family) (hash : List Nat) : List Nat :=
  (List.range f.width).map (groupBit (firstJoined f) (groupSize f) hash)

theorem addressBits_length (f : Family) (hash : List Nat) :
    (addressBits f hash).length = f.width := by
  rw [addressBits, List.length_map, List.length_range]

theorem consensusFor_eq (f : Family) {hash : List Nat} (sized : hash.length = 256) :
    consensusFor f hash = .ok (addressBits f hash) := by
  have positive : 0 < groupSize f := by cases f <;> decide
  have width : 0 < f.width := by cases f <;> decide
  have short : firstJoined f ≤ groupSize f := by cases f <;> decide
  have whole : hash.length = groupSize f * f.width := by
    rw [sized]
    cases f <;> rfl
  have folded := foldGroups_eq width positive short whole
  cases f <;> exact folded

def groupOf (f : Family) (hash : List Nat) (k : Nat) : List Nat :=
  (List.range' (groupSize f * k) (groupSize f)).map fun j => hash.getD j 0

theorem groupBit_eq (f : Family) (hash : List Nat) (k : Nat) :
    groupBit (firstJoined f) (groupSize f) hash k =
      xorAll (groupOf f hash k) ^^^ (match f with
        | .v4 => hash.getD (8 * k) 0
        | .v6 => 0) := by
  cases f with
  | v4 => exact Nat.xor_comm _ _
  | v6 => exact (Nat.xor_zero _).symm

theorem getD_addressBits (f : Family) (hash : List Nat) {k : Nat} (low : k < f.width) :
    (addressBits f hash).getD k 0 = groupBit (firstJoined f) (groupSize f) hash k := by
  rw [List.getD_eq_getElem _ _ (by rw [addressBits_length]; exact low)]
  simp [addressBits]

theorem groupBit_flip (f : Family) {hash : List Nat} (random : RandomBits hash) {p : Nat}
    (inside : p < 256) (k : Nat) :
    groupBit (firstJoined f) (groupSize f) (flipBit p hash) k =
      groupBit (firstJoined f) (groupSize f) hash k ^^^ indicator (p / groupSize f) k ^^^
        (match f with
          | .v4 => indicator p (8 * k)
          | .v6 => 0) := by
  have flipped (j : Nat) := getD_flipBit random.bits (random.sized.symm ▸ inside) j
  have group : xorAll (groupOf f (flipBit p hash) k) =
      xorAll (groupOf f hash k) ^^^ indicator (p / groupSize f) k := by
    have within : groupSize f * k ≤ p ∧ p < groupSize f * k + groupSize f ↔
        k = p / groupSize f := by
      cases f <;> simp only [groupSize] <;> omega
    simp only [groupOf, flipped]
    rw [xorAll_map_xor, xorAll_indicator, if_congr within rfl rfl]
    rfl
  rw [groupBit_eq, groupBit_eq, group]
  cases f with
  | v4 =>
      simp only [flipped]
      ac_rfl
  | v6 => simp

theorem groupBit_lt (f : Family) {hash : List Nat} (random : RandomBits hash) (k : Nat) :
    groupBit (firstJoined f) (groupSize f) hash k < 2 := by
  have bit (j : Nat) : hash.getD j 0 < 2 := by
    by_cases inside : j < hash.length
    · rw [List.getD_eq_getElem _ _ inside]
      exact random.bits _ (List.getElem_mem inside)
    · rw [List.getD_eq_default _ _ (by omega)]
      decide
  refine Nat.xor_lt_two_pow (n := 1) (bit _) (xorAll_lt_two ?_)
  intro b member
  obtain ⟨j, -, rfl⟩ := List.mem_map.mp member
  exact bit j

/-- One bit of the random number, turned over, turns over the bit of its group and no other. -/
def Counts (f : Family) (hash : List Nat) (p : Nat) : Prop :=
  ∃ address, consensusFor f hash = .ok address ∧
    consensusFor f (flipBit p hash) = .ok (flipBit (p / groupSize f) address)

theorem counts_iff (f : Family) {hash : List Nat} (random : RandomBits hash) {p : Nat}
    (inside : p < 256) : Counts f hash p ↔ (f = .v4 → p % 8 ≠ 0) := by
  have sized : (flipBit p hash).length = 256 := by rw [flipBit_length, random.sized]
  have low : p / groupSize f < f.width := by
    cases f
    · exact Nat.div_lt_of_lt_mul inside
    · exact Nat.div_lt_of_lt_mul inside
  have bits : ∀ b ∈ addressBits f hash, b < 2 := by
    intro b member
    obtain ⟨k, -, rfl⟩ := List.mem_map.mp member
    exact groupBit_lt f random k
  have flipped : Counts f hash p ↔
      addressBits f (flipBit p hash) = flipBit (p / groupSize f) (addressBits f hash) := by
    rw [Counts, consensusFor_eq f random.sized, consensusFor_eq f sized]
    simp [eq_comm]
  have joined (k : Nat) (near : k < f.width) :
      (addressBits f (flipBit p hash)).getD k 0 =
        (addressBits f hash).getD k 0 ^^^ indicator (p / groupSize f) k ↔
          (f = .v4 → p ≠ 8 * k) := by
    rw [getD_addressBits f _ near, getD_addressBits f _ near, groupBit_flip f random inside]
    cases f with
    | v4 =>
        rw [xor_eq_self_iff, indicator]
        simp [eq_comm]
    | v6 => simp
  rw [flipped, flipBit_eq_iff bits (by rw [addressBits_length]; exact low)
    (by rw [addressBits_length, addressBits_length])]
  constructor
  · rintro same rfl
    have here := (joined (p / 8) low).mp (same _) rfl
    omega
  · intro loose k
    by_cases near : k < f.width
    · apply (joined k near).mpr
      rintro rfl rfl
      exact loose rfl (Nat.mul_mod_right 8 k)
    · rw [List.getD_eq_default _ _ (by rw [addressBits_length]; omega),
        List.getD_eq_default _ _ (by rw [addressBits_length]; omega), indicator,
        if_neg (by omega)]
      rfl

theorem addressBit_iff (f : Family) (hash : List Nat) {k : Nat} (low : k < f.width) :
    (addressBits f hash).getD k 0 = xorAll (groupOf f hash k) ↔
      (f = .v4 → hash.getD (8 * k) 0 = 0) := by
  rw [getD_addressBits f hash low, groupBit_eq, xor_eq_self_iff]
  cases f <;> simp

/-- Each bit of the random number counts, except for the first one of every group of the fold
for IPv4; and a bit of the address is the exclusive or of all bits of its group, except where
that first one is set. -/
theorem every_bit_counts_iff (f : Family) {hash : List Nat} (random : RandomBits hash) :
    (∀ p < 256, Counts f hash p ↔ (f = .v4 → p % 8 ≠ 0)) ∧
      ∃ address, consensusFor f hash = .ok address ∧ ∀ k < f.width,
        address[k]? = some (xorAll (groupOf f hash k)) ↔
          (f = .v4 → hash.getD (8 * k) 0 = 0) := by
  refine ⟨fun p inside => counts_iff f random inside, _, consensusFor_eq f random.sized, ?_⟩
  intro k low
  rw [← addressBit_iff f hash low, List.getElem?_eq_getElem (by rw [addressBits_length]; exact low),
    List.getD_eq_getElem _ _ (by rw [addressBits_length]; exact low), Option.some.injEq]

def hexStep (n : Nat) (digit : UInt8) : Except PyExc Nat :=
  match hexValue digit with
  | some d => .ok (16 * n + d)
  | none => .error ⟨.valueError, "invalid literal for int() with base 16"⟩

theorem hexStep_hexDigit (n : Nat) {d : Nat} (small : d < 16) :
    hexStep n (hexDigit d) = .ok (16 * n + d) := by
  rw [hexStep, hexValue_hexDigit d small]

theorem hexSteps_encodeHex (data : Bytes) (n : Nat) :
    (encodeHex data).foldlM hexStep n = .ok (data.foldl (fun n b => 256 * n + b.toNat) n) := by
  induction data generalizing n with
  | nil => rfl
  | cons b rest ih =>
      have bound := b.toNat_lt
      have joined : 16 * (16 * n + b.toNat / 16) + b.toNat % 16 = 256 * n + b.toNat := by omega
      change (hexDigit (b.toNat / 16) :: hexDigit (b.toNat % 16) :: encodeHex rest).foldlM
        hexStep n = _
      rw [List.foldlM_cons, hexStep_hexDigit n (by omega)]
      change (hexDigit (b.toNat % 16) :: encodeHex rest).foldlM hexStep _ = _
      rw [List.foldlM_cons, hexStep_hexDigit _ (Nat.mod_lt _ (by decide)), joined]
      exact ih _

theorem intBase16_encodeHex {data : Bytes} (present : data ≠ []) :
    intBase16 (encodeHex data) = .ok (bytesToNat data) := by
  cases data with
  | nil => exact absurd rfl present
  | cons b rest => exact hexSteps_encodeHex (b :: rest) 0

theorem digits_two_length {n : Nat} (small : n < 2 ^ 256) : (Nat.digits 2 n).length ≤ 256 :=
  (Nat.digits_length_le_iff (by decide) n).mpr small

theorem binZfill_random {n : Nat} (small : n < 2 ^ 256) : RandomBits (binZfill n) where
  sized := by
    have length := digits_two_length small
    simp only [binZfill, List.length_append, List.length_replicate, List.length_reverse]
    omega
  bits b member := by
    rcases List.mem_append.mp member with zero | digit
    · rw [List.eq_of_mem_replicate zero]
      decide
    · exact Nat.digits_lt_base (by decide) (List.mem_reverse.mp digit)

theorem getD_binZfill {n : Nat} (small : n < 2 ^ 256) {i : Nat} (inside : i < 256) :
    (binZfill n).getD i 0 = n / 2 ^ (255 - i) % 2 := by
  have length := digits_two_length small
  rw [← Nat.getD_digits n (255 - i) (le_refl 2), binZfill, List.length_reverse]
  by_cases filled : i < 256 - (Nat.digits 2 n).length
  · rw [List.getD_append _ _ _ _ (by rw [List.length_replicate]; exact filled),
      List.getD_replicate _ filled, List.getD_eq_default _ _ (by omega)]
  · rw [List.getD_append_right _ _ _ _ (by rw [List.length_replicate]; omega),
      List.length_replicate,
      List.getD_eq_getElem _ _ (by rw [List.length_reverse]; omega), List.getElem_reverse,
      List.getD_eq_getElem _ _ (by omega)]
    congr 1
    omega

def bitsValue (bits : List Nat) : Nat := bits.foldl (fun n bit => 2 * n + bit) 0

theorem bitsValue_append (high low : List Nat) :
    bitsValue (high ++ low) = 2 ^ low.length * bitsValue high + bitsValue low := by
  induction low using List.reverseRecOn with
  | nil => simp [bitsValue]
  | append_singleton low bit ih =>
      have snoc (bits : List Nat) : bitsValue (bits ++ [bit]) = 2 * bitsValue bits + bit := by
        rw [bitsValue, List.foldl_append]
        rfl
      rw [← List.append_assoc, snoc, ih, snoc, List.length_append, List.length_singleton, pow_succ]
      ring

theorem bitsValue_lt {bits : List Nat} (small : ∀ b ∈ bits, b < 2) :
    bitsValue bits < 2 ^ bits.length := by
  induction bits using List.reverseRecOn with
  | nil => decide
  | append_singleton bits bit ih =>
      rw [List.forall_mem_append] at small
      have rest := ih small.1
      have last := small.2 bit (List.mem_singleton_self _)
      rw [bitsValue_append, List.length_append, List.length_singleton, pow_succ]
      change 2 ^ 1 * bitsValue bits + (2 * 0 + bit) < _
      omega

theorem bitsValue_eq_zero (bits : List Nat) : bitsValue bits = 0 ↔ ∀ b ∈ bits, b = 0 := by
  induction bits using List.reverseRecOn with
  | nil => simp [bitsValue]
  | append_singleton bits bit ih =>
      rw [bitsValue_append, List.forall_mem_append, ← ih]
      simp [bitsValue]

theorem bitsValue_large {bits : List Nat} (small : ∀ b ∈ bits, b < 2) (rest : Nat)
    (long : rest ≤ bits.length) : 2 ^ rest ≤ bitsValue bits ↔
      ∃ k < bits.length - rest, bits.getD k 0 ≠ 0 := by
  have parts := List.take_append_drop (bits.length - rest) bits
  have dropped : (bits.drop (bits.length - rest)).length = rest := by
    rw [List.length_drop]
    omega
  have low : bitsValue (bits.drop (bits.length - rest)) < _ :=
    bitsValue_lt fun b member => small b (List.mem_of_mem_drop member)
  rw [dropped] at low
  have value := bitsValue_append (bits.take (bits.length - rest)) (bits.drop (bits.length - rest))
  rw [parts, dropped] at value
  have high : bitsValue (bits.take (bits.length - rest)) = 0 ↔
      ¬ ∃ k < bits.length - rest, bits.getD k 0 ≠ 0 := by
    rw [bitsValue_eq_zero]
    push Not
    constructor
    · intro zero k below
      rw [List.getD_eq_getElem _ _ (by omega)]
      exact zero _ (List.mem_take_iff_getElem.mpr ⟨k, by omega, rfl⟩)
    · intro zero b member
      obtain ⟨k, below, rfl⟩ := List.mem_take_iff_getElem.mp member
      have here := zero k (by omega)
      rwa [List.getD_eq_getElem _ _ (by omega)] at here
  by_cases zero : bitsValue (bits.take (bits.length - rest)) = 0
  · refine iff_of_false ?_ (high.mp zero)
    rw [value, zero, Nat.mul_zero, Nat.zero_add]
    exact not_le.mpr low
  · refine iff_of_true ?_ (not_not.mp (mt high.mpr zero))
    rw [value]
    calc
      2 ^ rest = 2 ^ rest * 1 := (Nat.mul_one _).symm
      _ ≤ 2 ^ rest * bitsValue (bits.take (bits.length - rest)) :=
        Nat.mul_le_mul_left _ (Nat.pos_of_ne_zero zero)
      _ ≤ _ := Nat.le_add_right _ _

namespace Sample

def lastBit : List Nat := List.replicate 255 0 ++ [1]

theorem lastBit_random : RandomBits lastBit where
  sized := by rw [lastBit, List.length_append, List.length_replicate, List.length_singleton]
  bits b member := by
    rcases List.mem_append.mp member with zero | one
    · rw [List.eq_of_mem_replicate zero]
      decide
    · rw [List.mem_singleton.mp one]
      decide

theorem lastBit_counts : Counts .v6 lastBit 255 ∧ Counts .v4 lastBit 255 := by
  have v6 := (every_bit_counts_iff .v6 lastBit_random).1 255 (by decide)
  have v4 := (every_bit_counts_iff .v4 lastBit_random).1 255 (by decide)
  exact ⟨v6.mpr (by decide), v4.mpr (by decide)⟩

/-- The highest bit of the random number changes nothing of an IPv4 address. -/
theorem first_bit_idle : RandomBits lastBit ∧
    consensusForIPv4 lastBit = .ok (List.replicate 31 0 ++ [1]) ∧
      consensusForIPv4 (flipBit 0 lastBit) = .ok (List.replicate 31 0 ++ [1]) ∧
        ¬ Counts .v4 lastBit 0 := by
  have before : consensusForIPv4 lastBit = .ok (List.replicate 31 0 ++ [1]) := by decide +kernel
  have after : consensusForIPv4 (flipBit 0 lastBit) = .ok (List.replicate 31 0 ++ [1]) := by decide +kernel
  refine ⟨lastBit_random, before, after, ?_⟩
  rintro ⟨address, selected, flipped⟩
  cases before.symm.trans selected
  cases after.symm.trans flipped

end Sample

end IPchain
