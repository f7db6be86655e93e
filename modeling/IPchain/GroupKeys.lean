import IPchain.Dealing

/-! The keys that a key generation ends with: those of the sum of the polynomials that the members
have dealt, and what happens to vectors of another length. -/

namespace IPchain

open Lib Platform Polynomial Threshold

section Keys

namespace Consensus

variable {F G : Type} [Field F] [AddCommGroup G] [Module F G] [Bls] [Platform] [Threshold]
  {curve : BlsCurve F G} {group : List Address} {place : Address → F}

structure Polynomials (curve : BlsCurve F G) (group : List Address)
    (draw : Address → Nat → Bytes × Bytes) (f : Address → F[X]) : Prop where
  low : ∀ j ∈ group, (f j).degree < threshold
  secret : ∀ j ∈ group, ∀ i < threshold, curve.scalar (draw j i).1 = some ((f j).coeff i)
  shown : ∀ j ∈ group, ∀ i < threshold, (draw j i).2 = Bls.getPublicKey (draw j i).1

/-- Every contribution that passes the check comes with the vector of its sender. -/
def OneVector (group : List Address) (draw : Address → Nat → Bytes × Bytes)
    (messages : List DkgShare) : Prop :=
  ∀ share ∈ messages, ∀ j ∈ group, ∀ m, share.source = some j → share.destination = some m →
    verifyContributionShare (Bls.genKeys (adler32 m.bytes)) share.secretShareContrib
      share.verifVector = true → share.verifVector = vector (draw j)

variable {draw : Address → Nat → Bytes × Bytes} {f : Address → F[X]}

omit [Platform] in
theorem vector_texts (dealt : Polynomials curve group draw f) {j : Address} (listed : j ∈ group) :
    vector (draw j) =
      (List.range threshold).map fun i => curve.text ((f j).coeff i • curve.generator) := by
  rw [vector, List.map_map]
  apply List.map_congr_left
  intro i small
  have below := List.mem_range.mp small
  rw [Function.comp_apply, dealt.shown j listed i below,
    curve.getPublicKey_valid _ _ (dealt.secret j listed i below)]

omit [Platform] in
theorem Polynomials.dealing (dealt : Polynomials curve group draw f) (positive : 0 < threshold) :
    Dealing curve (fun j vVec => j ∈ group ∧ vVec = vector (draw j))
      (fun key p => key = curve.text p) := by
  refine ⟨positive, ⟨?_, ?_⟩, ?_, ?_⟩
  · intro key p same empty
    have read := curve.point_text p
    rw [← same, empty, curve.point_nil] at read
    cases read
  · intro a b p q first second
    rw [first, second]
    exact curve.publicKeyAdd_valid _ _ p q (curve.point_text p) (curve.point_text q)
  · rintro j vVec ⟨listed, rfl⟩
    rw [vector_texts dealt listed, List.length_map, List.length_range]
  · rintro j vVec ps ⟨listed, rfl⟩ parsed
    rw [vector_texts dealt listed] at parsed ⊢
    rw [List.forall₂_map_left_iff] at parsed ⊢
    apply parsed.imp
    intro i p read
    rw [curve.point_text, Option.some.injEq] at read
    rw [read]

omit [Platform] in
theorem points_value (dealt : Polynomials curve group draw f) (positive : 0 < threshold)
    {j : Address} (listed : j ∈ group) {ps : List G}
    (parsed : List.Forall₂ (fun key p => curve.point key = some p) (vector (draw j)) ps) (x : F) :
    valueAt x ps = (f j).eval x • curve.generator := by
  rw [vector_texts dealt listed, List.forall₂_map_left_iff] at parsed
  have points : ps = ((List.range threshold).map (f j).coeff).map fun c => c • curve.generator := by
    rw [List.map_map]
    have equal := parsed.imp fun i p read => Option.some.inj ((curve.point_text _).symm.trans read)
    rw [← List.forall₂_map_left_iff (f := fun i => (f j).coeff i • curve.generator)] at equal
    rw [List.forall₂_eq_eq_eq] at equal
    exact equal.symm
  rw [points, valueAt_map_smul, valueAt_coeff x (dealt.low j listed) positive]

omit [Threshold] in
theorem rows_perm {g : Group} (roster : Roster group g) (distinct : group.Nodup) :
    ((rows g).map Prod.fst).Perm group := by
  have perm := (items_perm (g.entries.map fun row => (row.1, row.2))).map Prod.fst
  have keys : ((rows g).map Prod.fst).Nodup := by
    apply perm.nodup_iff.mpr
    rw [List.map_map]
    exact g.nodupKeys
  apply (List.perm_ext_iff_of_nodup keys distinct).mpr
  intro j
  rw [← roster.mem_iff, List.mem_map]
  constructor
  · rintro ⟨⟨k, member⟩, listed, rfl⟩
    exact AList.lookup_isSome.mp (by rw [(mem_rows g k member).mp listed]; rfl)
  · intro present
    obtain ⟨member, found⟩ := Option.isSome_iff_exists.mp (AList.lookup_isSome.mpr present)
    exact ⟨(j, member), (mem_rows g j member).mpr found, rfl⟩

theorem Summed.eval (dealt : Polynomials curve group draw f) (positive : 0 < threshold)
    (distinct : group.Nodup) {g : Group} (roster : Roster group g) {sums : List Bytes}
    {ps : List G} {pss : List (List G)}
    (summed : Summed curve (fun j vVec => j ∈ group ∧ vVec = vector (draw j))
      (fun key p => key = curve.text p) g sums ps pss) (x : F) :
    valueAt x ps = ((group.map f).sum).eval x • curve.generator := by
  have general (l : List (Address × Member)) (pss : List (List G))
      (parts : List.Forall₂ (fun row ps => ∃ vVec, row.2.vvec = some vVec ∧
        (row.1 ∈ group ∧ vVec = vector (draw row.1)) ∧
        List.Forall₂ (fun key p => curve.point key = some p) vVec ps) l pss) :
      (pss.map (valueAt x)).sum = (((l.map Prod.fst).map f).sum).eval x • curve.generator := by
    induction parts with
    | nil => simp
    | cons first parts ih =>
        obtain ⟨vVec, -, ⟨listed, rfl⟩, parsed⟩ := first
        rw [List.map_cons, List.sum_cons, ih, points_value dealt positive listed parsed,
          List.map_cons, List.map_cons, List.sum_cons, eval_add, add_smul]
  rw [summed.values, general _ _ summed.rows, ((rows_perm roster distinct).map f).sum_eq]

/-- Whatever comes in at the nodes of a group, a member with all contributions has the key of the
sum of all polynomials at its place, and its node has the public key of their constants. -/
theorem generation_exact (curve : BlsCurve F G)
    (placed : ∀ j ∈ group, curve.scalar (Bls.genKeys (adler32 j.bytes)) = some (place j))
    (distinct : (group.map place).Nodup) (positive : 0 < threshold)
    (dealt : Polynomials curve group draw f) {N : Type} {ids : N → List Address}
    (within : ∀ n, ids n ⊆ group) (start : N → Consensus) {messages : N → List DkgShare}
    (same : ∀ n, OneVector group draw (messages n)) (n : N) (m : Address) (g : Group)
    (complete : Complete
      (generation (messages n) (finish (newDkg draw group (ids n) (start n)))) m g) :
    (generation (messages n) (finish (newDkg draw group (ids n) (start n)))).groupKey =
        curve.text ((group.map fun j => (f j).coeff 0).sum • curve.generator) ∧
      ∃ secret,
        (generation (messages n) (finish (newDkg draw group (ids n) (start n)))).secretKeys.lookup m =
          some secret ∧
        curve.scalar secret = some ((group.map f).sum.eval (place m)) := by
  have dealing := dealt.dealing positive
  have begun := newDkg_generated dealing placed (within n) draw
    (fun j own => ⟨within n own, rfl⟩) (start n)
  have generated := generation_generated dealing placed begun (messages n) (messages n).length (by
    intro k share _ here generated j accepted
    obtain ⟨listed, m, -, addressed, valid⟩ := accepted.valid generated
    exact ⟨listed, same n share (List.mem_of_getElem? here) j listed m accepted.sourced addressed
      valid⟩)
  rw [List.take_length] at generated
  have nodup := distinct.of_map place
  obtain ⟨-, members, known, dictionaries⟩ := generated.keeping
  have roster {m : Address} {g : Group} (done : Complete
      (generation (messages n) (finish (newDkg draw group (ids n) (start n)))) m g) :
      Roster group g := by
    obtain ⟨⟨members', known', found⟩, -⟩ := done
    rw [known, Option.some.injEq] at known'
    subst known'
    exact (dictionaries.each _ _ found m rfl).roster
  constructor
  · obtain ⟨m', g', sums, ps, pss, done, summed, head⟩ := generated.groupKey m g complete
    have value := summed.eval dealt positive nodup (roster done) 0
    rw [valueAt_zero, ← coeff_zero_eq_eval_zero, coeff_list_sum, List.map_map] at value
    cases summed.shown with
    | nil => cases head
    | cons first rest =>
        rw [List.head?_cons, Option.some.injEq] at head
        rw [← head, first]
        exact congrArg curve.text value
  · obtain ⟨sums, ps, pss, secret, y, summed, kept, scalar, value⟩ := generated.secrets m g complete
    rw [summed.eval dealt positive nodup (roster complete) (place m)] at value
    rw [smul_left_injective F curve.generator_ne value] at scalar
    exact ⟨secret, kept, scalar⟩

end Consensus

end Keys

namespace Sample.Dealt

open Sample Consensus

noncomputable def polynomial (j : Address) : Scalar[X] :=
  C (coefficient j 1) * X + C (coefficient j 0)

theorem polynomials : Polynomials curve group draw polynomial := by
  have coefficients (j : Address) (i : Nat) (small : i < 2) :
      (polynomial j).coeff i = coefficient j i := by
    rcases (by omega : i = 0 ∨ i = 1) with rfl | rfl
    · simp [polynomial]
    · simp [polynomial]
  refine ⟨fun j _ => lt_of_le_of_lt degree_linear_le (by exact_mod_cast Nat.one_lt_two), ?_, ?_⟩
  · intro j _ i small
    rw [coefficients j i small]
    exact scalar_text _
  · intro j _ i _
    change text (coefficient j i) = ((scalar (text (coefficient j i))).map text).getD []
    rw [scalar_text, Option.map_some, Option.getD_some]

/-- Alice gets a wrong contribution of bob, the right one, and this one once more. -/
theorem alice_keyed : (generation [contribution [] (vector (draw bob)), honest, honest]
      (finish (newDkg draw group [alice] consensus))).groupKey =
    curve.text ((group.map fun j => (polynomial j).coeff 0).sum • curve.generator) := by
  have received : ((generation [contribution [] (vector (draw bob)), honest, honest]
      (finish (newDkg draw group [alice] consensus))).members.bind fun members =>
        members.lookup (some alice)).any allSharesReceived = true := by
    decide
  obtain ⟨g, complete⟩ := Complete.of_any received
  have same : OneVector group draw [contribution [] (vector (draw bob)), honest, honest] := by
    intro share listed j _ m sourced _ _
    have all : ∀ other ∈ [contribution [] (vector (draw bob)), honest, honest],
        other.source = some bob ∧ other.verifVector = vector (draw bob) := by
      decide
    obtain ⟨source, vectors⟩ := all share listed
    rw [source, Option.some.injEq] at sourced
    rw [vectors, sourced]
  have within : ∀ _ : Unit, [alice] ⊆ group := fun _ => by simp [group]
  exact (generation_exact curve placed (by decide) Nat.two_pos polynomials within
    (fun _ => consensus) (fun _ => same) () alice g complete).1

end Sample.Dealt

end IPchain
