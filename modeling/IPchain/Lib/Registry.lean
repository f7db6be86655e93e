import Mathlib.Data.Set.Lattice

/-! Ownership of the points of a space, with delegation.

Every account owns a part of the space and lends parts of what it owns to other
accounts. A loan is written down twice, with the lender and with the borrower.
Accounts and points are arbitrary types. -/

namespace IPchain.Lib

@[ext]
structure Registry (A X : Type) where
  own : A → Set X
  delegated : A → A → Set X
  received : A → A → Set X

namespace Registry

variable {A X : Type} [DecidableEq A]

/-- `s` takes back whatever of `V` it has lent out. The borrower's half is cut by the
part of the loan that lies in `V`; a loan to oneself has no second half to cut. -/
def revoke (r : Registry A X) (s : A) (V : Set X) : Registry A X where
  own := r.own
  delegated a b := if a = s then r.delegated s b \ V else r.delegated a b
  received b a := if a = s ∧ b ≠ s then r.received b s \ (V ∩ r.delegated s b) else r.received b a

def transfer (r : Registry A X) (s t : A) (V : Set X) : Registry A X :=
  { r.revoke s V with
    own := fun a => if a = s then r.own s \ V else if a = t then r.own t ∪ V else r.own a }

def delegate (r : Registry A X) (s t : A) (V : Set X) : Registry A X where
  own := r.own
  delegated a b := if a = s ∧ b = t then r.delegated s t ∪ V else (r.revoke s V).delegated a b
  received b a :=
    if b = t ∧ a = s ∧ t ≠ s then (r.revoke s V).received t s ∪ V else (r.revoke s V).received b a

def Disjoint (r : Registry A X) : Prop := ∀ a b, a ≠ b → ∀ x ∈ r.own a, x ∉ r.own b

def Within (r : Registry A X) : Prop := ∀ a b, ∀ x ∈ r.delegated a b, x ∈ r.own a

def Split (r : Registry A X) : Prop :=
  ∀ a b c, b ≠ c → ∀ x ∈ r.delegated a b, x ∉ r.delegated a c

def Mirrored (r : Registry A X) : Prop :=
  ∀ a b, a ≠ b → ∀ x, x ∈ r.delegated a b ↔ x ∈ r.received b a

def space (r : Registry A X) : Set X := ⋃ a, r.own a

omit [DecidableEq A] in
theorem mem_space (r : Registry A X) (x : X) : x ∈ r.space ↔ ∃ a, x ∈ r.own a := Set.mem_iUnion

section Own

variable (r : Registry A X) {s t : A} {V : Set X}

theorem mem_own_transfer (a : A) (x : X) : x ∈ (r.transfer s t V).own a ↔
    if a = s then x ∈ r.own s ∧ x ∉ V else x ∈ r.own a ∨ (a = t ∧ x ∈ V) := by
  simp only [transfer]
  split
  · rfl
  · split
    · rename_i same
      subst same
      simp
    · rename_i other
      simp [other]

theorem disjoint_transfer (owned : V ⊆ r.own s) (disjoint : r.Disjoint) :
    (r.transfer s t V).Disjoint := by
  intro a b different x first second
  rw [mem_own_transfer] at first second
  by_cases sender : a = s
  · subst sender
    rw [if_pos rfl] at first
    rw [if_neg (Ne.symm different)] at second
    rcases second with kept | ⟨-, moved⟩
    · exact disjoint a b different x first.1 kept
    · exact first.2 moved
  · rw [if_neg sender] at first
    have lost (y : X) (moved : y ∈ V) : y ∉ r.own a :=
      fun kept => disjoint a s sender y kept (owned moved)
    by_cases other : b = s
    · subst other
      rw [if_pos rfl] at second
      rcases first with kept | ⟨-, moved⟩
      · exact disjoint a b different x kept second.1
      · exact second.2 moved
    · rw [if_neg other] at second
      rcases first with kept | ⟨rfl, moved⟩
      · rcases second with held | ⟨rfl, moved⟩
        · exact disjoint a b different x kept held
        · exact lost x moved kept
      · rcases second with held | ⟨rfl, -⟩
        · exact disjoint b s other x held (owned moved)
        · exact different rfl

/-- A transfer keeps the space, except that what an account transfers to itself is
lost unless another account owns it as well. -/
theorem space_transfer (owned : V ⊆ r.own s) :
    (r.transfer s t V).space = r.space ↔ (t = s → ∀ x ∈ V, ∃ a, a ≠ s ∧ x ∈ r.own a) := by
  constructor
  · intro same target x moved
    subst target
    have before : x ∈ r.space := (r.mem_space x).mpr ⟨t, owned moved⟩
    rw [← same, mem_space] at before
    obtain ⟨a, held⟩ := before
    rw [mem_own_transfer] at held
    by_cases sender : a = t
    · rw [if_pos sender] at held
      exact absurd moved held.2
    · rw [if_neg sender] at held
      rcases held with kept | ⟨equal, -⟩
      · exact ⟨a, sender, kept⟩
      · exact absurd equal sender
  · intro covered
    ext x
    simp only [mem_space, mem_own_transfer]
    constructor
    · rintro ⟨a, held⟩
      split at held
      · exact ⟨s, held.1⟩
      · rcases held with kept | ⟨-, moved⟩
        · exact ⟨a, kept⟩
        · exact ⟨s, owned moved⟩
    · rintro ⟨a, held⟩
      by_cases moved : x ∈ V
      · by_cases target : t = s
        · obtain ⟨b, other, kept⟩ := covered target x moved
          exact ⟨b, by rw [if_neg other]; exact Or.inl kept⟩
        · exact ⟨t, by rw [if_neg target]; exact Or.inr ⟨rfl, moved⟩⟩
      · by_cases sender : a = s
        · subst sender
          exact ⟨a, by rw [if_pos rfl]; exact ⟨held, moved⟩⟩
        · exact ⟨a, by rw [if_neg sender]; exact Or.inl held⟩

end Own

section Loans

variable (r : Registry A X) {s t : A} {V : Set X}

theorem mem_delegated_revoke (a b : A) (x : X) :
    x ∈ (r.revoke s V).delegated a b ↔ x ∈ r.delegated a b ∧ ¬ (a = s ∧ x ∈ V) := by
  simp only [revoke]
  split
  · rename_i same
    subst same
    simp
  · rename_i other
    simp [other]

theorem mem_received_revoke (b a : A) (x : X) : x ∈ (r.revoke s V).received b a ↔
    x ∈ r.received b a ∧ ¬ ((a = s ∧ b ≠ s) ∧ x ∈ V ∧ x ∈ r.delegated a b) := by
  simp only [revoke]
  split
  · rename_i same
    obtain ⟨rfl, other⟩ := same
    simp [other]
  · rename_i other
    simp [other]

theorem mem_delegated_delegate (a b : A) (x : X) : x ∈ (r.delegate s t V).delegated a b ↔
    (x ∈ r.delegated a b ∧ ¬ (a = s ∧ x ∈ V)) ∨ ((a = s ∧ b = t) ∧ x ∈ V) := by
  simp only [delegate]
  split
  · rename_i same
    obtain ⟨rfl, rfl⟩ := same
    by_cases moved : x ∈ V <;> simp [moved]
  · rename_i other
    rw [mem_delegated_revoke]
    simp [other]

theorem mem_received_delegate (b a : A) (x : X) : x ∈ (r.delegate s t V).received b a ↔
    x ∈ (r.revoke s V).received b a ∨ ((b = t ∧ a = s ∧ t ≠ s) ∧ x ∈ V) := by
  simp only [delegate]
  split
  · rename_i same
    obtain ⟨rfl, rfl, different⟩ := same
    simp [different]
  · rename_i other
    simp only [other, false_and, or_false]

theorem within_transfer (within : r.Within) : (r.transfer s t V).Within := by
  intro a b x member
  rw [mem_own_transfer]
  obtain ⟨lent, outside⟩ := (r.mem_delegated_revoke a b x).mp member
  split
  · rename_i sender
    subst sender
    exact ⟨within a b x lent, fun moved => outside ⟨rfl, moved⟩⟩
  · exact Or.inl (within a b x lent)

theorem within_delegate (owned : V ⊆ r.own s) (within : r.Within) :
    (r.delegate s t V).Within := by
  intro a b x member
  rcases (r.mem_delegated_delegate a b x).mp member with ⟨lent, -⟩ | ⟨⟨rfl, -⟩, moved⟩
  · exact within a b x lent
  · exact owned moved

theorem split_revoke (split : r.Split) : (r.revoke s V).Split := by
  intro a b c different x first second
  rw [mem_delegated_revoke] at first second
  exact split a b c different x first.1 second.1

theorem split_delegate (split : r.Split) : (r.delegate s t V).Split := by
  intro a b c different x first second
  rw [mem_delegated_delegate] at first second
  rcases first with ⟨lent, kept⟩ | ⟨⟨rfl, rfl⟩, moved⟩
  · rcases second with ⟨other, -⟩ | ⟨⟨rfl, -⟩, moved⟩
    · exact split a b c different x lent other
    · exact kept ⟨rfl, moved⟩
  · rcases second with ⟨-, kept⟩ | ⟨⟨-, equal⟩, -⟩
    · exact kept ⟨rfl, moved⟩
    · exact different equal.symm

theorem mirrored_revoke (mirrored : r.Mirrored) : (r.revoke s V).Mirrored := by
  intro a b different x
  rw [mem_delegated_revoke, mem_received_revoke, ← mirrored a b different x]
  constructor
  · rintro ⟨lent, kept⟩
    exact ⟨lent, fun cut => kept ⟨cut.1.1, cut.2.1⟩⟩
  · rintro ⟨lent, kept⟩
    refine ⟨lent, ?_⟩
    rintro ⟨rfl, moved⟩
    exact kept ⟨⟨rfl, Ne.symm different⟩, moved, lent⟩

theorem mirrored_delegate (mirrored : r.Mirrored) : (r.delegate s t V).Mirrored := by
  intro a b different x
  have halves := r.mirrored_revoke (s := s) (V := V) mirrored a b different x
  rw [mem_delegated_delegate, mem_received_delegate, ← halves, mem_delegated_revoke]
  refine or_congr Iff.rfl (and_congr ?_ Iff.rfl)
  constructor
  · rintro ⟨rfl, rfl⟩
    exact ⟨rfl, rfl, Ne.symm different⟩
  · rintro ⟨rfl, rfl, -⟩
    exact ⟨rfl, rfl⟩

end Loans

section Holders

variable (r : Registry A X) {s t : A} {V : Set X}

/-- `h` has the use of `x`: it borrowed `x`, or owns `x` and has not lent it out. -/
def Holds (x : X) (h : A) : Prop :=
  (∃ a, x ∈ r.delegated a h) ∨ (x ∈ r.own h ∧ ∀ b, x ∉ r.delegated h b)

theorem holds_transfer_inside (disjoint : r.Disjoint) (within : r.Within) (owned : V ⊆ r.own s)
    {x : X} (inside : x ∈ V) (h : A) : (r.transfer s t V).Holds x h ↔ h = t ∧ t ≠ s := by
  have sole (a : A) (held : x ∈ r.own a) : a = s := by
    by_contra other
    exact disjoint a s other x held (owned inside)
  have unlent (a b : A) : x ∉ (r.revoke s V).delegated a b := by
    rw [mem_delegated_revoke]
    rintro ⟨lent, kept⟩
    exact kept ⟨sole a (within a b x lent), inside⟩
  constructor
  · rintro (⟨a, lent⟩ | ⟨held, -⟩)
    · exact absurd lent (unlent a h)
    · rw [mem_own_transfer] at held
      split at held
      · exact absurd inside held.2
      · rename_i other
        rcases held with held | ⟨rfl, -⟩
        · exact absurd (sole h held) other
        · exact ⟨rfl, other⟩
  · rintro ⟨rfl, other⟩
    refine Or.inr ⟨?_, unlent h⟩
    rw [mem_own_transfer, if_neg other]
    exact Or.inr ⟨rfl, inside⟩

theorem holds_transfer_outside {x : X} (outside : x ∉ V) (h : A) :
    (r.transfer s t V).Holds x h ↔ r.Holds x h := by
  have lent (a b : A) : x ∈ (r.transfer s t V).delegated a b ↔ x ∈ r.delegated a b :=
    (r.mem_delegated_revoke a b x).trans (by simp [outside])
  have held : x ∈ (r.transfer s t V).own h ↔ x ∈ r.own h := by
    rw [mem_own_transfer]
    split
    · rename_i same
      subst same
      exact and_iff_left outside
    · simp [outside]
  simp only [Holds, lent, held]

theorem holds_delegate_inside (disjoint : r.Disjoint) (within : r.Within) (owned : V ⊆ r.own s)
    {x : X} (inside : x ∈ V) (h : A) : (r.delegate s t V).Holds x h ↔ h = t := by
  have sole (a : A) (held : x ∈ r.own a) : a = s := by
    by_contra other
    exact disjoint a s other x held (owned inside)
  have given : x ∈ (r.delegate s t V).delegated s t :=
    (r.mem_delegated_delegate s t x).mpr (Or.inr ⟨⟨rfl, rfl⟩, inside⟩)
  constructor
  · rintro (⟨a, lent⟩ | ⟨held, unlent⟩)
    · rcases (r.mem_delegated_delegate a h x).mp lent with ⟨lent, kept⟩ | ⟨⟨-, same⟩, -⟩
      · exact absurd ⟨sole a (within a h x lent), inside⟩ kept
      · exact same
    · obtain rfl := sole h held
      exact absurd given (unlent t)
  · rintro rfl
    exact Or.inl ⟨s, given⟩

theorem holds_delegate_outside {x : X} (outside : x ∉ V) (h : A) :
    (r.delegate s t V).Holds x h ↔ r.Holds x h := by
  have lent (a b : A) : x ∈ (r.delegate s t V).delegated a b ↔ x ∈ r.delegated a b := by
    rw [mem_delegated_delegate]
    simp [outside]
  have held : x ∈ (r.delegate s t V).own h ↔ x ∈ r.own h := Iff.rfl
  simp only [Holds, lent, held]

end Holders

end Registry

end IPchain.Lib
