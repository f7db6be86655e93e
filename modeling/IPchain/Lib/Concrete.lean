import IPchain.Lib.IPSet
import IPchain.Lib.Radix
import IPchain.Lib.Ranges

/-! Executable address sets and prefix tables.

Addresses of both families are laid out on one line, the IPv4 ones first, so
that a set of addresses is a set of ranges and a network is one span of it. -/

namespace IPchain.Lib

def Family.base : Family → Nat
  | .v4 => 0
  | .v6 => 2 ^ 32

def lineEnd : Nat := 2 ^ 32 + 2 ^ 128

def IPAddress.code (x : IPAddress) : Nat := x.family.base + x.value

theorem base_width_le (f : Family) : f.base + 2 ^ f.width ≤ lineEnd := by
  cases f <;> decide

theorem code_injective : Function.Injective IPAddress.code := by
  intro x y same
  have boundX := x.bound
  have boundY := y.bound
  simp only [IPAddress.code] at same
  have family : x.family = y.family := by
    cases fx : x.family <;> cases fy : y.family <;>
      simp only [fx, fy, Family.base, Family.width] at same boundX boundY <;>
      first | rfl | omega
  rw [family] at same
  exact IPAddress.eq_of_value family (by omega)

theorem code_surjective (n : Nat) (small : n < lineEnd) : ∃ x : IPAddress, x.code = n := by
  by_cases low : n < 2 ^ 32
  · exact ⟨⟨.v4, n, low⟩, by simp [IPAddress.code, Family.base]⟩
  · refine ⟨⟨.v6, n - 2 ^ 32, ?_⟩, ?_⟩
    · simp only [lineEnd] at small
      simp only [Family.width]
      omega
    · simp only [IPAddress.code, Family.base]
      omega

/-- The addresses of a network, from its first one to the one after its last. -/
def IPNetwork.span (n : IPNetwork) : Span :=
  (n.family.base + n.stem * 2 ^ n.hostBits, n.family.base + (n.stem + 1) * 2 ^ n.hostBits)

theorem span_within (n : IPNetwork) : n.span.2 ≤ n.family.base + 2 ^ n.family.width := by
  have width : 2 ^ n.family.width = 2 ^ n.prefixlen * 2 ^ n.hostBits := by
    rw [← pow_add]
    congr 1
    have short := n.short
    simp only [IPNetwork.hostBits]
    omega
  have stem : n.stem < 2 ^ n.prefixlen := by
    rw [IPNetwork.stem, Nat.div_lt_iff_lt_mul (Nat.two_pow_pos _), ← width]
    exact n.bound
  calc
    n.span.2 = n.family.base + (n.stem + 1) * 2 ^ n.hostBits := rfl
    _ ≤ n.family.base + 2 ^ n.prefixlen * 2 ^ n.hostBits :=
      Nat.add_le_add_left (Nat.mul_le_mul_right _ stem) _
    _ = n.family.base + 2 ^ n.family.width := by rw [width]

theorem span_le (n : IPNetwork) : n.span.2 ≤ lineEnd :=
  (span_within n).trans (base_width_le n.family)

theorem family_of_code (f : Family) (x : IPAddress) (lower : f.base ≤ x.code)
    (upper : x.code < f.base + 2 ^ f.width) : x.family = f := by
  have bound := x.bound
  simp only [IPAddress.code] at lower upper
  cases fx : x.family <;> cases f <;>
    simp only [fx, Family.base, Family.width] at lower upper bound <;>
    first | rfl | omega

theorem span_holds (n : IPNetwork) (x : IPAddress) : n.span.Holds x.code ↔ x ∈ n := by
  have block (a : Nat) : a / 2 ^ n.hostBits = n.stem ↔
      n.stem * 2 ^ n.hostBits ≤ a ∧ a < (n.stem + 1) * 2 ^ n.hostBits := by
    rw [← Nat.le_div_iff_mul_le (Nat.two_pow_pos _), ← Nat.div_lt_iff_lt_mul (Nat.two_pow_pos _)]
    omega
  rw [IPNetwork.mem_iff, block]
  constructor
  · rintro ⟨lower, upper⟩
    have family : x.family = n.family :=
      family_of_code n.family x (le_trans (Nat.le_add_right _ _) lower)
        (lt_of_lt_of_le upper (span_within n))
    simp only [IPNetwork.span, IPAddress.code, family] at lower upper
    exact ⟨family, by omega, by omega⟩
  · rintro ⟨family, lower, upper⟩
    simp only [Span.Holds, IPNetwork.span, IPAddress.code, family]
    omega

abbrev AddressRanges := Ranges lineEnd

theorem ncard_codes (r : AddressRanges) : r.size = {x : IPAddress | r.Holds x.code}.ncard := by
  rw [r.size_eq_ncard, ← Set.ncard_image_of_injective _ code_injective]
  congr 1
  ext n
  simp only [Set.mem_ofPred_eq, Set.mem_image]
  constructor
  · intro holds
    obtain ⟨x, rfl⟩ := code_surjective n (r.holds_lt n holds)
    exact ⟨x, holds, rfl⟩
  · rintro ⟨x, holds, rfl⟩
    exact holds

instance : IPSet AddressRanges where
  decEq := inferInstance
  mem x r := r.Holds x.code
  empty := Ranges.empty
  ofNetwork n := Ranges.single n.span (span_le n)
  add r n := r.addSpan n.span (span_le n)
  remove r n := r.removeSpan n.span
  inter := Ranges.inter
  diff := Ranges.diff
  contains r n := r.covers n.span (span_le n)
  size := Ranges.size
  mem_empty x := Ranges.holds_empty x.code
  mem_ofNetwork n x := by rw [Ranges.holds_single, span_holds]
  mem_add r n x := by rw [Ranges.holds_addSpan, span_holds]
  mem_remove r n x := by rw [Ranges.holds_removeSpan, span_holds]
  mem_inter r t x := Ranges.holds_inter r t x.code
  mem_diff r t x := Ranges.holds_diff r t x.code
  contains_iff r n := by
    rw [Ranges.covers_iff]
    constructor
    · intro all x member
      exact all x.code ((span_holds n x).mpr member)
    · intro all k holds
      obtain ⟨x, rfl⟩ := code_surjective k (lt_of_lt_of_le holds.2 (span_le n))
      exact all x ((span_holds n x).mp holds)
  size_eq := ncard_codes

structure PrefixTable (D : Type) where
  rows : List (IPNetwork × D)
  deriving DecidableEq

namespace PrefixTable

variable {D : Type}

def exactRow (m : IPNetwork) : List (IPNetwork × D) → Option D
  | [] => none
  | (n, d) :: rest => if m.cidr = n.cidr then some d else exactRow m rest

def bestRow (x : IPAddress) : List (IPNetwork × D) → Option (IPNetwork × D)
  | [] => none
  | (n, d) :: rest =>
      match bestRow x rest with
      | none => if x ∈ n then some (n, d) else none
      | some (m, e) => if x ∈ n ∧ m.prefixlen ≤ n.prefixlen then some (n, d) else some (m, e)

theorem bestRow_none (x : IPAddress) (rows : List (IPNetwork × D)) (absent : bestRow x rows = none)
    (m : IPNetwork) (member : x ∈ m) : exactRow m rows = none := by
  induction rows with
  | nil => rfl
  | cons head tail ih =>
      obtain ⟨n, d⟩ := head
      simp only [bestRow] at absent
      cases rest : bestRow x tail with
      | none =>
          simp only [rest, ite_eq_right_iff, reduceCtorEq, imp_false] at absent
          rw [exactRow, if_neg, ih rest]
          intro same
          exact absent (IPNetwork.mem_of_cidr_eq same member)
      | some pair =>
          simp only [rest] at absent
          split at absent <;> cases absent

theorem bestRow_some (x : IPAddress) (rows : List (IPNetwork × D)) (m : IPNetwork) (d : D)
    (found : bestRow x rows = some (m, d)) : x ∈ m ∧ exactRow m rows = some d ∧
      ∀ longer, x ∈ longer → m.prefixlen < longer.prefixlen → exactRow longer rows = none := by
  induction rows generalizing m d with
  | nil => cases found
  | cons head tail ih =>
      obtain ⟨n, e⟩ := head
      simp only [bestRow] at found
      have shorter (k l : IPNetwork) (bound : k.prefixlen < l.prefixlen) : l.cidr ≠ k.cidr :=
        fun same => Nat.ne_of_lt bound ((IPNetwork.cidr_eq_iff l k).mp same).2.1.symm
      cases rest : bestRow x tail with
      | none =>
          simp only [rest] at found
          split at found
          · rename_i inside
            cases found
            refine ⟨inside, by rw [exactRow, if_pos rfl], ?_⟩
            intro longer member bound
            rw [exactRow, if_neg (shorter m longer bound)]
            exact bestRow_none x tail rest longer member
          · cases found
      | some pair =>
          obtain ⟨k, f⟩ := pair
          obtain ⟨inside, stored, longest⟩ := ih k f rest
          simp only [rest] at found
          split at found
          · rename_i wins
            cases found
            refine ⟨wins.1, by rw [exactRow, if_pos rfl], ?_⟩
            intro longer member bound
            rw [exactRow, if_neg (shorter m longer bound)]
            exact longest longer member (lt_of_le_of_lt wins.2 bound)
          · rename_i loses
            cases found
            refine ⟨inside, ?_, ?_⟩
            · rw [exactRow, if_neg, stored]
              intro same
              exact loses ⟨IPNetwork.mem_of_cidr_eq same inside,
                ((IPNetwork.cidr_eq_iff m n).mp same).2.1.le⟩
            · intro longer member bound
              rw [exactRow, if_neg, longest longer member bound]
              intro same
              have len := ((IPNetwork.cidr_eq_iff longer n).mp same).2.1
              exact loses ⟨IPNetwork.mem_of_cidr_eq same member, by omega⟩

theorem exactRow_cidr (rows : List (IPNetwork × D)) (m n : IPNetwork) (same : m.cidr = n.cidr) :
    exactRow m rows = exactRow n rows := by
  induction rows with
  | nil => rfl
  | cons head tail ih => simp only [exactRow, same, ih]

instance : Radix (PrefixTable D) D where
  empty := ⟨[]⟩
  add r n d := ⟨(n, d) :: r.rows⟩
  exact r m := exactRow m r.rows
  best r x := bestRow x r.rows
  exact_empty _ := rfl
  exact_add _ _ _ _ := rfl
  exact_cidr r := exactRow_cidr r.rows
  best_none r x := bestRow_none x r.rows
  best_some r x := bestRow_some x r.rows

end PrefixTable

end IPchain.Lib
