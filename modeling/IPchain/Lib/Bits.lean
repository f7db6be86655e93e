import Mathlib.Data.Nat.Bitwise

/-! Strings of bits: numbers of a fixed width, strings written one after the other, and when the
strings that are written tell what they were written for. -/

namespace IPchain.Lib

def bits : Nat → Nat → List Bool
  | 0, _ => []
  | n + 1, v => v.testBit n :: bits n v

theorem length_bits (n v : Nat) : (bits n v).length = n := by
  induction n with
  | zero => rfl
  | succ n ih => rw [bits, List.length_cons, ih]

theorem testBit_eq {n v w : Nat} (same : bits n v = bits n w) (i : Nat) (low : i < n) :
    v.testBit i = w.testBit i := by
  induction n with
  | zero => cases low
  | succ n ih =>
      obtain ⟨first, rest⟩ := List.cons.inj same
      rcases Nat.lt_succ_iff_lt_or_eq.mp low with lower | rfl
      · exact ih rest lower
      · exact first

theorem bits_inj {n v w : Nat} (small : v < 2 ^ n) (small' : w < 2 ^ n)
    (same : bits n v = bits n w) : v = w := by
  apply Nat.eq_of_testBit_eq
  intro i
  by_cases low : i < n
  · exact testBit_eq same i low
  · have high : 2 ^ n ≤ 2 ^ i := Nat.pow_le_pow_right Nat.two_pos (not_lt.mp low)
    rw [Nat.testBit_lt_two_pow (small.trans_le high), Nat.testBit_lt_two_pow (small'.trans_le high)]

section Writers

variable {ε α β : Type}

/-- What several writers write, one after the other. The first one that fails ends it. -/
def joined : List (Except ε (List Bool)) → Except ε (List Bool)
  | [] => .ok []
  | x :: xs => do
      let s ← x
      let t ← joined xs
      return s ++ t

theorem joined_cons_ok {x : Except ε (List Bool)} {xs : List (Except ε (List Bool))}
    {s : List Bool} : joined (x :: xs) = .ok s ↔
      ∃ a b, x = .ok a ∧ joined xs = .ok b ∧ s = a ++ b := by
  cases x with
  | error e =>
      constructor
      · intro written
        cases written
      · rintro ⟨a, b, written, -⟩
        cases written
  | ok a =>
      cases rest : joined xs with
      | error e =>
          rw [joined, rest]
          constructor
          · intro written
            cases written
          · rintro ⟨a, b, -, written, -⟩
            cases written
      | ok b =>
          rw [joined, rest]
          constructor
          · intro written
            cases written
            exact ⟨a, b, rfl, rfl, rfl⟩
          · rintro ⟨a', b', first, second, rfl⟩
            cases first
            cases second
            rfl

theorem joined_ok_iff {xs : List (Except ε (List Bool))} :
    (∃ s, joined xs = .ok s) ↔ ∀ x ∈ xs, ∃ s, x = .ok s := by
  induction xs with
  | nil => exact iff_of_true ⟨[], rfl⟩ (List.forall_mem_nil _)
  | cons x xs ih =>
      rw [List.forall_mem_cons, ← ih]
      constructor
      · rintro ⟨s, written⟩
        rcases joined_cons_ok.mp written with ⟨a, b, first, rest, -⟩
        exact ⟨⟨a, first⟩, b, rest⟩
      · rintro ⟨⟨a, first⟩, b, rest⟩
        exact ⟨a ++ b, joined_cons_ok.mpr ⟨a, b, first, rest, rfl⟩⟩

/-- When two writers write the same, whatever follows, then `P` holds, and the same follows. -/
def Told (x y : Except ε (List Bool)) (P : Prop) : Prop :=
  ∀ s t u w, x = .ok s → y = .ok t → s ++ u = t ++ w → P ∧ u = w

variable {x y : Except ε (List Bool)} {xs ys : List (Except ε (List Bool))} {P Q : Prop}

theorem Told.imp (told : Told x y P) (follows : P → Q) : Told x y Q := by
  intro s t u w written written' same
  obtain ⟨holds, rest⟩ := told s t u w written written' same
  exact ⟨follows holds, rest⟩

theorem Told.nil : Told (joined ([] : List (Except ε (List Bool)))) (joined []) True := by
  intro s t u w written written' same
  cases written
  cases written'
  exact ⟨trivial, same⟩

theorem Told.cons (first : Told x y P) (rest : P → Told (joined xs) (joined ys) Q) :
    Told (joined (x :: xs)) (joined (y :: ys)) (P ∧ Q) := by
  intro s t u w written written' same
  obtain ⟨a, b, one, others, rfl⟩ := joined_cons_ok.mp written
  obtain ⟨a', b', one', others', rfl⟩ := joined_cons_ok.mp written'
  rw [List.append_assoc, List.append_assoc] at same
  obtain ⟨holds, later⟩ := first a a' _ _ one one' same
  obtain ⟨holds', end'⟩ := rest holds b b' u w others others' later
  exact ⟨⟨holds, holds'⟩, end'⟩

theorem Told.map {code : α → Except ε (List Bool)} {view : α → β}
    (one : ∀ a b, Told (code a) (code b) (view a = view b)) {l l' : List α}
    (lengths : l.length = l'.length) :
    Told (joined (l.map code)) (joined (l'.map code)) (l.map view = l'.map view) := by
  induction l generalizing l' with
  | nil =>
      rw [List.eq_nil_of_length_eq_zero lengths.symm]
      exact Told.nil.imp fun _ => rfl
  | cons a l ih =>
      cases l' with
      | nil => cases lengths
      | cons b l' =>
          apply (Told.cons (one a b) fun _ => ih (Nat.succ.inj lengths)).imp
          rintro ⟨first, rest⟩
          rw [List.map_cons, List.map_cons, first, rest]

theorem Told.bit (b c : Bool) : Told (.ok [b] : Except ε (List Bool)) (.ok [c]) (b = c) := by
  intro s t u w written written' same
  cases written
  cases written'
  exact List.cons.inj same

theorem Told.fixed (s : List Bool) (holds : P) :
    Told (.ok s : Except ε (List Bool)) (.ok s) P := by
  intro s' t u w written written' same
  cases written
  cases written'
  exact ⟨holds, List.append_cancel_left same⟩

def Fills (n : Nat) (x : Except ε (List Bool)) : Prop := ∀ s, x = .ok s → s.length % 8 = n % 8

theorem Fills.nil : Fills 0 (joined ([] : List (Except ε (List Bool)))) := by
  intro s written
  cases written
  rfl

theorem Fills.fixed {s : List Bool} {n : Nat} (length : s.length = n) :
    Fills n (.ok s : Except ε (List Bool)) := by
  intro t written
  cases written
  rw [length]

theorem Fills.cons {m n : Nat} (first : Fills m x) (rest : Fills n (joined xs)) :
    Fills (m + n) (joined (x :: xs)) := by
  intro s written
  obtain ⟨a, b, one, others, rfl⟩ := joined_cons_ok.mp written
  have head := first a one
  have tail := rest b others
  rw [List.length_append]
  omega

theorem Fills.map {code : α → Except ε (List Bool)} (one : ∀ a, Fills 0 (code a)) (l : List α) :
    Fills 0 (joined (l.map code)) := by
  induction l with
  | nil => exact Fills.nil
  | cons a l ih => exact (one a).cons ih

end Writers

def octet (b7 b6 b5 b4 b3 b2 b1 b0 : Bool) : UInt8 :=
  UInt8.ofNat (128 * b7.toNat + 64 * b6.toNat + 32 * b5.toNat + 16 * b4.toNat + 8 * b3.toNat +
    4 * b2.toNat + 2 * b1.toNat + b0.toNat)

def octets : List Bool → Option (List UInt8)
  | [] => some []
  | b7 :: b6 :: b5 :: b4 :: b3 :: b2 :: b1 :: b0 :: rest =>
      (octets rest).map (List.cons (octet b7 b6 b5 b4 b3 b2 b1 b0))
  | _ => none

theorem bits_octet (b7 b6 b5 b4 b3 b2 b1 b0 : Bool) :
    bits 8 (octet b7 b6 b5 b4 b3 b2 b1 b0).toNat = [b7, b6, b5, b4, b3, b2, b1, b0] := by
  revert b7 b6 b5 b4 b3 b2 b1 b0
  decide

theorem flatMap_octets {s : List Bool} {data : List UInt8} (read : octets s = some data) :
    data.flatMap (fun d => bits 8 d.toNat) = s := by
  induction s using octets.induct generalizing data with
  | case1 =>
      cases read
      rfl
  | case2 b7 b6 b5 b4 b3 b2 b1 b0 rest ih =>
      obtain ⟨later, others, rfl⟩ := Option.map_eq_some_iff.mp read
      rw [List.flatMap_cons, bits_octet, ih others]
      rfl
  | case3 s short long =>
      rw [octets] at read
      · cases read
      · exact short
      · exact long

theorem octets_inj {s t : List Bool} {data : List UInt8} (read : octets s = some data)
    (read' : octets t = some data) : s = t :=
  (flatMap_octets read).symm.trans (flatMap_octets read')

theorem octets_total {s : List Bool} (whole : s.length % 8 = 0) : ∃ data, octets s = some data := by
  induction s using octets.induct with
  | case1 => exact ⟨[], rfl⟩
  | case2 b7 b6 b5 b4 b3 b2 b1 b0 rest ih =>
      obtain ⟨data, read⟩ := ih (by simp only [List.length_cons] at whole; omega)
      exact ⟨octet b7 b6 b5 b4 b3 b2 b1 b0 :: data, by rw [octets, read]; rfl⟩
  | case3 s short long =>
      have filled : 0 < s.length := List.length_pos_iff.mpr short
      have eight : 8 ≤ s.length := by omega
      have first {s : List Bool} {n : Nat} (long : n + 1 ≤ s.length) :
          ∃ b t, s = b :: t ∧ n ≤ t.length := by
        obtain ⟨b, t, rfl⟩ := List.exists_cons_of_length_pos (by omega : 0 < s.length)
        exact ⟨b, t, rfl, Nat.le_of_succ_le_succ long⟩
      obtain ⟨b7, s, rfl, seven⟩ := first eight
      obtain ⟨b6, s, rfl, six⟩ := first seven
      obtain ⟨b5, s, rfl, five⟩ := first six
      obtain ⟨b4, s, rfl, four⟩ := first five
      obtain ⟨b3, s, rfl, three⟩ := first four
      obtain ⟨b2, s, rfl, two⟩ := first three
      obtain ⟨b1, s, rfl, one⟩ := first two
      obtain ⟨b0, s, rfl, -⟩ := first one
      exact (long _ _ _ _ _ _ _ _ _ rfl).elim

end IPchain.Lib
