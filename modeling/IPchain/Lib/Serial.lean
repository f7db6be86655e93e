import Mathlib.Data.List.Range
import Mathlib.Logic.Function.Basic

/-! Messages that carry the next serial number of their sender. -/

namespace IPchain.Lib

variable {A M : Type*} [DecidableEq A] {sender : M → Option A} {number : M → Nat}

/-- From the numbers that are next before the messages to those that are next after them. -/
inductive Serial (sender : M → Option A) (number : M → Nat) :
    (A → Nat) → List M → (A → Nat) → Prop
  | nil (next : A → Nat) : Serial sender number next [] next
  | cons {next last : A → Nat} {m : M} {rest : List M} {a : A} (signed : sender m = some a)
      (numbered : number m = next a)
      (serial : Serial sender number (Function.update next a (next a + 1)) rest last) :
      Serial sender number next (m :: rest) last

def sentBy (sender : M → Option A) (a : A) (messages : List M) : List M :=
  messages.filter fun m => sender m = some a

namespace Serial

variable {next middle last : A → Nat} {first second : List M}

theorem append (one : Serial sender number next first middle)
    (two : Serial sender number middle second last) :
    Serial sender number next (first ++ second) last := by
  induction one with
  | nil => exact two
  | cons signed numbered serial ih => exact .cons signed numbered (ih two)

theorem numbers (serial : Serial sender number next first last) (a : A) :
    (sentBy sender a first).map number = List.range' (next a) (sentBy sender a first).length := by
  induction serial with
  | nil => rfl
  | @cons next last m rest b signed numbered serial ih =>
      by_cases same : b = a
      · subst same
        have head : sentBy sender b (m :: rest) = m :: sentBy sender b rest := by
          simp [sentBy, signed]
        rw [Function.update_self] at ih
        rw [head, List.map_cons, List.length_cons, List.range'_succ, numbered, ih]
      · have skipped : sentBy sender a (m :: rest) = sentBy sender a rest := by
          simp [sentBy, signed, same]
        rw [Function.update_of_ne (Ne.symm same)] at ih
        rw [skipped, ih]

theorem count (serial : Serial sender number next first last) (a : A) :
    last a = next a + (sentBy sender a first).length := by
  induction serial with
  | nil => rfl
  | @cons next last m rest b signed numbered serial ih =>
      by_cases same : b = a
      · subst same
        rw [ih, Function.update_self]
        simp only [sentBy, signed, decide_true, List.filter_cons_of_pos, List.length_cons]
        omega
      · rw [ih, Function.update_of_ne (Ne.symm same)]
        simp [sentBy, signed, same]

theorem known (serial : Serial sender number next first last) :
    ∀ m ∈ first, ∃ a, sender m = some a ∧ next a ≤ number m := by
  induction serial with
  | nil => exact List.forall_mem_nil _
  | @cons next last m rest b signed numbered serial ih =>
      refine List.forall_mem_cons.mpr ⟨⟨b, signed, numbered.ge⟩, ?_⟩
      intro other member
      obtain ⟨a, sent, late⟩ := ih other member
      refine ⟨a, sent, le_trans ?_ late⟩
      by_cases same : a = b
      · subst same
        rw [Function.update_self]
        exact Nat.le_succ _
      · exact (Function.update_of_ne same _ _).ge

theorem used (serial : Serial sender number next first last) :
    ∀ m ∈ first, ∃ a, sender m = some a ∧ number m < last a := by
  induction serial with
  | nil => exact List.forall_mem_nil _
  | @cons next last m rest b signed numbered serial ih =>
      refine List.forall_mem_cons.mpr ⟨⟨b, signed, ?_⟩, ih⟩
      rw [serial.count b, Function.update_self, numbered]
      omega

theorem nodup (serial : Serial sender number next first last) :
    (first.map fun m => (sender m, number m)).Nodup := by
  induction serial with
  | nil => exact List.nodup_nil
  | @cons next last m rest b signed numbered serial ih =>
      rw [List.map_cons, List.nodup_cons]
      refine ⟨?_, ih⟩
      intro repeated
      obtain ⟨other, member, same⟩ := List.mem_map.mp repeated
      obtain ⟨sender', number'⟩ := Prod.mk.inj same
      obtain ⟨a, sent, late⟩ := serial.known other member
      rw [sent, signed] at sender'
      cases sender'
      rw [Function.update_self, number', numbered] at late
      omega

end Serial

end IPchain.Lib
