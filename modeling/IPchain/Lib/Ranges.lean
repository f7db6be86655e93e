import Mathlib.Data.Finset.Card
import Mathlib.Data.Set.Card
import Mathlib.Order.Interval.Finset.Nat

/-! Finite sets of naturals below a bound, as lists of disjoint half-open spans. -/

namespace IPchain.Lib

abbrev Span := Nat × Nat

def Span.Holds (s : Span) (n : Nat) : Prop := s.1 ≤ n ∧ n < s.2

instance (s : Span) (n : Nat) : Decidable (s.Holds n) :=
  inferInstanceAs (Decidable (s.1 ≤ n ∧ n < s.2))

def Apart (s t : Span) : Prop := s.2 ≤ t.1 ∨ t.2 ≤ s.1

def Spans (spans : List Span) (n : Nat) : Prop := ∃ s ∈ spans, s.Holds n

def clip (s t : Span) : List Span :=
  if max s.1 t.1 < min s.2 t.2 then [(max s.1 t.1, min s.2 t.2)] else []

/-- What is left of `s` when `t` is taken out: a part below `t` and a part above it. -/
def cut (t s : Span) : List Span :=
  (if s.1 < min s.2 t.1 then [(s.1, min s.2 t.1)] else []) ++
    (if max s.1 t.2 < s.2 then [(max s.1 t.2, s.2)] else [])

theorem mem_clip {s t u : Span} (member : u ∈ clip s t) :
    u = (max s.1 t.1, min s.2 t.2) ∧ u.1 < u.2 := by
  simp only [clip] at member
  split at member
  · rename_i wide
    rw [List.mem_singleton] at member
    subst member
    exact ⟨rfl, wide⟩
  · cases member

theorem spans_clip (s t : Span) (n : Nat) : Spans (clip s t) n ↔ s.Holds n ∧ t.Holds n := by
  simp only [Spans, clip, Span.Holds]
  split
  · simp only [List.mem_singleton, exists_eq_left]
    omega
  · simp only [List.not_mem_nil, false_and, exists_false, false_iff]
    omega

theorem mem_cut {t s u : Span} (member : u ∈ cut t s) :
    u.1 < u.2 ∧ s.1 ≤ u.1 ∧ u.2 ≤ s.2 ∧ Apart u t := by
  simp only [cut, List.mem_append] at member
  simp only [Apart]
  rcases member with low | high
  · split at low
    · rw [List.mem_singleton] at low
      subst low
      simp only
      omega
    · cases low
  · split at high
    · rw [List.mem_singleton] at high
      subst high
      simp only
      omega
    · cases high

theorem spans_cut (t s : Span) (n : Nat) :
    Spans (cut t s) n ↔ s.Holds n ∧ ¬ t.Holds n := by
  simp only [Spans, cut, Span.Holds, List.mem_append, or_and_right, exists_or]
  split <;> split <;> rename_i low high <;>
    simp only [lt_min_iff, max_lt_iff] at low high <;>
    simp only [List.mem_singleton, exists_eq_left, List.not_mem_nil, false_and, exists_false,
      or_false, false_or, false_iff, lt_min_iff, max_le_iff] <;>
    omega

theorem pairwise_cut (t s : Span) (ordered : t.1 ≤ t.2) : (cut t s).Pairwise Apart := by
  simp only [cut]
  split <;> split <;> simp only [List.cons_append, List.nil_append, List.pairwise_cons,
    List.mem_singleton, List.not_mem_nil, List.Pairwise.nil, false_implies, implies_true,
    forall_eq, and_self, and_true, Apart]
  omega

theorem apart_of_within {s t u v : Span} (apart : Apart s t) (first : s.1 ≤ u.1 ∧ u.2 ≤ s.2)
    (second : t.1 ≤ v.1 ∧ v.2 ≤ t.2) : Apart u v := by
  simp only [Apart] at *
  omega

structure Ranges (bound : Nat) where
  spans : List Span
  ordered : ∀ s ∈ spans, s.1 < s.2 ∧ s.2 ≤ bound
  apart : spans.Pairwise Apart

namespace Ranges

variable {bound : Nat}

theorem ext_spans {r t : Ranges bound} (same : r.spans = t.spans) : r = t := by
  cases r
  cases t
  subst same
  rfl

instance : DecidableEq (Ranges bound) := fun r t =>
  decidable_of_iff (r.spans = t.spans) ⟨ext_spans, congrArg spans⟩

def Holds (r : Ranges bound) (n : Nat) : Prop := Spans r.spans n

def empty : Ranges bound := ⟨[], by simp, List.Pairwise.nil⟩

def single (s : Span) (inside : s.2 ≤ bound) : Ranges bound :=
  if wide : s.1 < s.2 then ⟨[s], by simpa using ⟨wide, inside⟩, List.pairwise_singleton _ _⟩
  else empty

def removeSpan (r : Ranges bound) (t : Span) : Ranges bound :=
  if ordered : t.1 ≤ t.2 then
    { spans := r.spans.flatMap (cut t)
      ordered := by
        intro u member
        obtain ⟨s, present, piece⟩ := List.mem_flatMap.mp member
        have facts := mem_cut piece
        have limits := r.ordered s present
        omega
      apart := by
        rw [List.pairwise_flatMap]
        refine ⟨fun s _ => pairwise_cut t s ordered, r.apart.imp ?_⟩
        intro s u apart v first w second
        exact apart_of_within apart ⟨(mem_cut first).2.1, (mem_cut first).2.2.1⟩
          ⟨(mem_cut second).2.1, (mem_cut second).2.2.1⟩ }
  else r

def addSpan (r : Ranges bound) (t : Span) (inside : t.2 ≤ bound) : Ranges bound :=
  if wide : t.1 < t.2 then
    { spans := t :: (r.removeSpan t).spans
      ordered := by
        intro u member
        rcases List.mem_cons.mp member with rfl | member
        · exact ⟨wide, inside⟩
        · exact (r.removeSpan t).ordered u member
      apart := by
        refine List.Pairwise.cons ?_ (r.removeSpan t).apart
        intro u member
        rw [removeSpan, dif_pos (Nat.le_of_lt wide)] at member
        obtain ⟨s, -, piece⟩ := List.mem_flatMap.mp member
        exact (mem_cut piece).2.2.2.symm }
  else r

def inter (r t : Ranges bound) : Ranges bound where
  spans := r.spans.flatMap fun s => t.spans.flatMap (clip s)
  ordered := by
    intro u member
    obtain ⟨s, present, member⟩ := List.mem_flatMap.mp member
    obtain ⟨v, -, piece⟩ := List.mem_flatMap.mp member
    obtain ⟨rfl, wide⟩ := mem_clip piece
    have limits := r.ordered s present
    simp only at wide ⊢
    omega
  apart := by
    rw [List.pairwise_flatMap]
    constructor
    · intro s _
      rw [List.pairwise_flatMap]
      constructor
      · intro v _
        simp only [clip]
        split <;> simp
      · refine t.apart.imp ?_
        intro v w apart x first y second
        obtain ⟨rfl, -⟩ := mem_clip first
        obtain ⟨rfl, -⟩ := mem_clip second
        exact apart_of_within apart (by simp only; omega) (by simp only; omega)
    · refine r.apart.imp ?_
      intro s u apart x first y second
      obtain ⟨v, -, piece⟩ := List.mem_flatMap.mp first
      obtain ⟨w, -, other⟩ := List.mem_flatMap.mp second
      obtain ⟨rfl, -⟩ := mem_clip piece
      obtain ⟨rfl, -⟩ := mem_clip other
      exact apart_of_within apart (by simp only; omega) (by simp only; omega)

def diff (r t : Ranges bound) : Ranges bound := t.spans.foldl removeSpan r

def covers (r : Ranges bound) (t : Span) (inside : t.2 ≤ bound) : Bool :=
  ((single t inside).diff r).spans.isEmpty

def size (r : Ranges bound) : Nat := (r.spans.map fun s => s.2 - s.1).sum

theorem holds_empty (n : Nat) : ¬ (empty : Ranges bound).Holds n := by
  rintro ⟨s, member, -⟩
  cases member

theorem holds_single (s : Span) (inside : s.2 ≤ bound) (n : Nat) :
    (single s inside).Holds n ↔ s.Holds n := by
  rw [single]
  split
  · simp [Holds, Spans]
  · rename_i narrow
    simp only [Holds, Spans, empty, List.not_mem_nil, false_and, exists_false, Span.Holds,
      false_iff]
    omega

theorem holds_removeSpan (r : Ranges bound) (t : Span) (n : Nat) :
    (r.removeSpan t).Holds n ↔ r.Holds n ∧ ¬ t.Holds n := by
  rw [removeSpan]
  split
  · rename_i ordered
    simp only [Holds, Spans, List.mem_flatMap]
    constructor
    · rintro ⟨u, ⟨s, present, piece⟩, holds⟩
      have facts := (spans_cut t s n).mp ⟨u, piece, holds⟩
      exact ⟨⟨s, present, facts.1⟩, facts.2⟩
    · rintro ⟨⟨s, present, holds⟩, outside⟩
      obtain ⟨u, piece, inside⟩ := (spans_cut t s n).mpr ⟨holds, outside⟩
      exact ⟨u, ⟨s, present, piece⟩, inside⟩
  · rename_i reversed
    have outside : ¬ t.Holds n := by
      simp only [Span.Holds]
      omega
    simp [outside]

theorem holds_addSpan (r : Ranges bound) (t : Span) (inside : t.2 ≤ bound) (n : Nat) :
    (r.addSpan t inside).Holds n ↔ r.Holds n ∨ t.Holds n := by
  rw [addSpan]
  split
  · have rest := holds_removeSpan r t n
    have unfolded : (Spans (t :: (r.removeSpan t).spans) n) ↔
        t.Holds n ∨ (r.removeSpan t).Holds n := by
      simp [Spans, Holds]
    change Spans (t :: (r.removeSpan t).spans) n ↔ _
    rw [unfolded, rest]
    tauto
  · rename_i narrow
    have outside : ¬ t.Holds n := by
      simp only [Span.Holds]
      omega
    simp [outside]

theorem holds_inter (r t : Ranges bound) (n : Nat) :
    (r.inter t).Holds n ↔ r.Holds n ∧ t.Holds n := by
  simp only [Holds, inter]
  constructor
  · rintro ⟨u, member, holds⟩
    obtain ⟨s, present, member⟩ := List.mem_flatMap.mp member
    obtain ⟨v, other, piece⟩ := List.mem_flatMap.mp member
    have facts := (spans_clip s v n).mp ⟨u, piece, holds⟩
    exact ⟨⟨s, present, facts.1⟩, ⟨v, other, facts.2⟩⟩
  · rintro ⟨⟨s, present, first⟩, ⟨v, other, second⟩⟩
    obtain ⟨u, piece, holds⟩ := (spans_clip s v n).mpr ⟨first, second⟩
    exact ⟨u, List.mem_flatMap.mpr ⟨s, present, List.mem_flatMap.mpr ⟨v, other, piece⟩⟩, holds⟩

theorem holds_foldl_removeSpan (spans : List Span) (r : Ranges bound) (n : Nat) :
    (spans.foldl removeSpan r).Holds n ↔ r.Holds n ∧ ¬ Spans spans n := by
  induction spans generalizing r with
  | nil => simp [Spans]
  | cons head tail ih =>
      rw [List.foldl_cons, ih, holds_removeSpan]
      simp only [Spans, List.mem_cons, exists_eq_or_imp, not_or, and_assoc]

theorem holds_diff (r t : Ranges bound) (n : Nat) :
    (r.diff t).Holds n ↔ r.Holds n ∧ ¬ t.Holds n :=
  holds_foldl_removeSpan t.spans r n

theorem spans_eq_nil (r : Ranges bound) : r.spans = [] ↔ ∀ n, ¬ r.Holds n := by
  constructor
  · rintro nil n ⟨s, member, -⟩
    rw [nil] at member
    cases member
  · intro none
    rw [List.eq_nil_iff_forall_not_mem]
    intro s member
    exact none s.1 ⟨s, member, Nat.le_refl _, (r.ordered s member).1⟩

theorem covers_iff (r : Ranges bound) (t : Span) (inside : t.2 ≤ bound) :
    r.covers t inside = true ↔ ∀ n, t.Holds n → r.Holds n := by
  rw [covers, List.isEmpty_iff, spans_eq_nil]
  simp only [holds_diff, holds_single]
  constructor
  · intro none n holds
    by_contra missing
    exact none n ⟨holds, missing⟩
  · rintro all n ⟨holds, missing⟩
    exact missing (all n holds)

theorem holds_lt (r : Ranges bound) (n : Nat) (holds : r.Holds n) : n < bound := by
  obtain ⟨s, member, inside⟩ := holds
  exact lt_of_lt_of_le inside.2 (r.ordered s member).2

private theorem ncard_spans (spans : List Span) (apart : spans.Pairwise Apart) :
    {n | Spans spans n}.ncard = (spans.map fun s => s.2 - s.1).sum ∧
      {n | Spans spans n}.Finite := by
  induction spans with
  | nil => simp [Spans]
  | cons head tail ih =>
      rw [List.pairwise_cons] at apart
      obtain ⟨count, finite⟩ := ih apart.2
      have split : {n | Spans (head :: tail) n} =
          ((Finset.Ico head.1 head.2 : Finset Nat) : Set Nat) ∪ {n | Spans tail n} := by
        ext n
        simp [Spans, Span.Holds]
      have disjoint : Disjoint ((Finset.Ico head.1 head.2 : Finset Nat) : Set Nat)
          {n | Spans tail n} := by
        rw [Set.disjoint_left]
        rintro n first ⟨s, member, second⟩
        have separate := apart.1 s member
        simp only [Finset.coe_Ico, Set.mem_Ico] at first
        simp only [Span.Holds] at second
        simp only [Apart] at separate
        omega
      rw [split]
      refine ⟨?_, (Finset.finite_toSet _).union finite⟩
      rw [Set.ncard_union_eq disjoint (Finset.finite_toSet _) finite, Set.ncard_coe_finset,
        Nat.card_Ico, count, List.map_cons, List.sum_cons]

theorem size_eq_ncard (r : Ranges bound) : r.size = {n | r.Holds n}.ncard :=
  (ncard_spans r.spans r.apart).1.symm

end Ranges

end IPchain.Lib
