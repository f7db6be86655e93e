import IPchain.Dealing

/-! The length of the vectors that a key generation adds up: with the threshold for all of them,
the sum has this length too, and as many shares make a group signature. -/

namespace IPchain

open Lib Platform Threshold

section Degrees

namespace Consensus

variable {F G S : Type} [Field F] [DecidableEq F] [AddCommGroup G] [Module F G] [AddCommGroup S]
  [Module F S] [Bls] {curve : BlsCurve F G} {group ids : List Address} {place : Address → F}

/-- How bls.exe signs. A signature is the hash of a digest, multiplied by a key, and signatures
are combined as values of a polynomial. -/
structure Signatures (curve : BlsCurve F G) (S : Type) [AddCommGroup S] [Module F S] where
  signature : Bytes → Option S
  hash : Bytes → S
  verify_iff : ∀ digest sig key, Bls.verify digest sig key = true ↔ ∃ x : F,
    curve.point key = some (x • curve.generator) ∧ signature sig = some (x • hash digest)
  recover_valid : ∀ ids sigs xs ss, ids ≠ [] → xs.Nodup → ids.length = sigs.length →
    List.Forall₂ (fun id x => curve.scalar id = some x) ids xs →
    List.Forall₂ (fun sig s => signature sig = some s) sigs ss →
      signature (Bls.recover ids sigs) = some (interpolated xs ss)

variable [Threshold]

/-- Shares of `threshold` different ids, each valid for the key of its id, combine. -/
def Recoverable (curve : BlsCurve F G) (sums : List Bytes) (key : Bytes) : Prop :=
  ∀ digest ids (xs : List F) sigs, ids.length = threshold → xs.Nodup →
    List.Forall₂ (fun id x => curve.scalar id = some x) ids xs →
    List.Forall₂ (fun id sig => Bls.verify digest sig (Bls.publicKeyShare id sums) = true) ids sigs →
      Bls.verify digest (Bls.recover ids sigs) key = true

theorem recoverable (signatures : Signatures curve S) (positive : 0 < threshold)
    {sums : List Bytes} {ps : List G} {key : Bytes}
    (shown : List.Forall₂ (fun key p => curve.point key = some p) sums ps)
    (length : ps.length = threshold) (head : sums.head? = some key) :
    Recoverable curve sums key := by
  intro digest ids xs sigs enough distinct read valid
  have nonempty : ids ≠ [] := by
    intro empty
    rw [empty] at enough
    rw [← enough] at positive
    cases positive
  have filled : sums ≠ [] := by
    intro empty
    rw [empty] at head
    cases head
  have keys : ∃ ys : List F, xs.map (fun x => valueAt x ps) = ys.map (fun y => y • curve.generator) ∧
      List.Forall₂ (fun sig s => signatures.signature sig = some s) sigs
        (ys.map fun y => y • signatures.hash digest) := by
    clear enough distinct nonempty
    induction read generalizing sigs with
    | nil =>
        cases valid
        exact ⟨[], rfl, .nil⟩
    | @cons id x ids xs scalar read ih =>
        cases valid with
        | cons first valid =>
            obtain ⟨ys, values, signed⟩ := ih _ valid
            obtain ⟨y, point, signature⟩ := (signatures.verify_iff _ _ _).mp first
            rw [curve.publicKeyShare_valid _ _ x ps filled scalar shown, Option.some.injEq] at point
            refine ⟨y :: ys, ?_, .cons signature signed⟩
            rw [List.map_cons, List.map_cons, point, values]
  obtain ⟨ys, values, signed⟩ := keys
  have few : ps.length ≤ xs.length := by
    rw [← read.length_eq, enough, length]
  have constant := interpolated_values distinct few
  rw [values, interpolated_map_smul] at constant
  have combined := signatures.recover_valid ids sigs xs _ nonempty distinct valid.length_eq read signed
  rw [interpolated_map_smul] at combined
  apply (signatures.verify_iff _ _ _).mpr
  refine ⟨interpolated xs ys, ?_, combined⟩
  cases shown with
  | nil => cases head
  | cons first shown =>
      rw [List.head?_cons, Option.some.injEq] at head
      rw [← head, first, constant]
      rfl

variable [Platform]

/-- All vectors have the threshold length, those that are added up and their sums, and as many
valid shares make a group signature. -/
structure Bounded (curve : BlsCurve F G) (c : Consensus) : Prop where
  stored : ∀ members m g j member vVec, c.members = some members →
    members.lookup (some m) = some g → g.lookup j = some member → member.vvec = some vVec →
      vVec.length = threshold
  sums : ∀ m g, Complete c m g → ∃ sums : List Bytes,
    addVerificationVectors ((rows g).filterMap fun row => row.2.vvec) = .ok (sums.map some) ∧
      sums.length = threshold
  groupKey : ∀ m g, Complete c m g → ∃ m' g', ∃ sums : List Bytes, Complete c m' g' ∧
    addVerificationVectors ((rows g').filterMap fun row => row.2.vvec) = .ok (sums.map some) ∧
      sums.head? = some c.groupKey ∧ Recoverable curve sums c.groupKey

omit [DecidableEq F] [Platform] in
theorem dealing_length (positive : 0 < threshold) :
    Dealing curve (fun _ vVec => vVec.length = threshold)
      (fun key p => curve.point key = some p) := by
  refine ⟨positive, ⟨?_, ?_⟩, fun _ _ length => length, fun _ _ _ _ parsed => parsed⟩
  · intro key p read empty
    rw [empty, curve.point_nil] at read
    cases read
  · intro a b p q first second
    rw [curve.publicKeyAdd_valid a b p q first second, curve.point_text]

theorem Generated.bounded (signatures : Signatures curve S) (positive : 0 < threshold)
    {c : Consensus} (generated : Generated curve (fun _ vVec => vVec.length = threshold)
      (fun key p => curve.point key = some p) group ids place c) : Bounded curve c := by
  constructor
  · intro members m g j member vVec known found entry vector
    obtain ⟨-, members', known', dictionaries⟩ := generated.keeping
    rw [known, Option.some.injEq] at known'
    subst known'
    have stored := dictionaries.each _ _ found m rfl
    have received : member.receivedShare ≠ none := by
      intro none
      rw [stored.missing j member entry none] at vector
      cases vector
    obtain ⟨ps, y, piece⟩ := stored.pieces j member entry received
    obtain ⟨vVec', vector', length, -⟩ := piece.vector
    rw [vector, Option.some.injEq] at vector'
    rw [vector']
    exact length
  · intro m g done
    obtain ⟨sums, ps, pss, secret, y, summed, -⟩ := generated.secrets m g done
    exact ⟨sums, summed.run, summed.shown.length_eq.trans summed.length⟩
  · intro m g done
    obtain ⟨m', g', sums, ps, pss, done', summed, head⟩ := generated.groupKey m g done
    exact ⟨m', g', sums, done', summed.run, head,
      recoverable signatures positive summed.shown summed.length head⟩

omit [DecidableEq F] in
theorem Generated.verify_ok {Allowed : Address → List Bytes → Prop} {R : Bytes → G → Prop}
    (dealing : Dealing curve Allowed R)
    (placed : ∀ j ∈ group, curve.scalar (Bls.genKeys (adler32 j.bytes)) = some (place j))
    (within : ids ⊆ group) {c : Consensus} {share : DkgShare} {j m : Address}
    (generated : Generated curve Allowed R group ids place c)
    (allowed : ∀ j, Accepted c share j → Allowed j share.verifVector)
    (sourced : share.source = some j) (addressed : share.destination = some m) (member : j ∈ group)
    (own : m ∈ ids) : ∃ d, verifyDkgContribution share c = .ok () d := by
  obtain ⟨-, members, known, dictionaries⟩ := generated.keeping
  have present := (dictionaries.mem_iff (some m)).mpr (List.mem_map_of_mem own)
  obtain ⟨g, found⟩ := Option.isSome_iff_exists.mp (AList.lookup_isSome.mpr present)
  have stored := dictionaries.each _ _ found m rfl
  obtain ⟨sender, sending⟩ := Option.isSome_iff_exists.mp
    (AList.lookup_isSome.mpr ((stored.roster.mem_iff j).mpr member))
  obtain ⟨receiver, receiving⟩ := Option.isSome_iff_exists.mp
    (AList.lookup_isSome.mpr ((stored.roster.mem_iff m).mpr (within own)))
  cases new : sender.receivedShare with
  | some _ =>
      refine ⟨c, ?_⟩
      simp only [verifyDkgContribution, known, sourced, addressed, found, Option.bind_some, sending,
        Option.map_some, new]
  | none =>
      have delivered : Delivered share members j m g sender receiver :=
        ⟨sourced, addressed, found, sending, receiving, new⟩
      have credited := stored_credit dealing placed delivered
        (fun valid => allowed j ⟨sourced, _, _, _, _, _, known, delivered, valid⟩) stored
      rw [verifyDkgContribution_delivered known delivered]
      split
      · rename_i complete
        obtain ⟨sums, ps, pss, secret, y, key, -, -, -, -, finished⟩ :=
          finishDkg_ok dealing credited (List.ne_nil_of_mem member) complete m
            (c.withGroup members m (credit share j sender receiver g))
        exact ⟨_, finished⟩
      · exact ⟨_, rfl⟩

omit [Threshold] in
theorem Accepted.stored {c : Consensus} {share : DkgShare} {j : Address}
    (accepted : Accepted c share j) :
    ∃ members m g member, (finish (verifyDkgContribution share c)).members = some members ∧
      members.lookup (some m) = some g ∧ g.lookup j = some member ∧
      member.vvec = some share.verifVector := by
  obtain ⟨sourced, members, m, g, sender, receiver, known, delivered, valid⟩ := accepted
  refine ⟨members.insert (some m) (credit share j sender receiver g), m,
    credit share j sender receiver g, credited share sender, ?_, AList.lookup_insert _, ?_, rfl⟩
  · rw [verifyDkgContribution_delivered known delivered]
    split
    · exact (Prod.mk.inj (preserves_members m _ (c.withGroup members m _))).1
    · rfl
  · rw [credit, if_pos valid]
    exact AList.lookup_insert _

/-- A key generation is bounded by the threshold, and takes every contribution of a member,
exactly when all contributions that it accepts have vectors of the threshold length. -/
theorem bounded_iff (signatures : Signatures curve S) (positive : 0 < threshold)
    (placed : ∀ j ∈ group, curve.scalar (Bls.genKeys (adler32 j.bytes)) = some (place j))
    (within : ids ⊆ group) (draw : Address → Nat → Bytes × Bytes) (start : Consensus)
    (messages : List DkgShare) :
    (∀ n, Bounded curve (generation (messages.take n) (finish (newDkg draw group ids start))) ∧
      ∀ share, messages[n]? = some share → ∀ j ∈ group, ∀ m ∈ ids, share.source = some j →
        share.destination = some m → ∃ d, verifyDkgContribution share
          (generation (messages.take n) (finish (newDkg draw group ids start))) = .ok () d) ↔
    ∀ n share, messages[n]? = some share → ∀ j, Accepted
      (generation (messages.take n) (finish (newDkg draw group ids start))) share j →
        share.verifVector.length = threshold := by
  have dealing : Dealing curve (fun _ vVec => vVec.length = threshold)
      (fun key p => curve.point key = some p) := dealing_length positive
  constructor
  · intro bounded n share here j accepted
    obtain ⟨members, m, g, member, known, found, entry, vector⟩ := accepted.stored
    have next := (bounded (n + 1)).1.stored members m g j member share.verifVector
    rw [List.take_add_one, here, Option.toList_some, generation, List.foldl_append] at next
    exact next known found entry vector
  · intro lengths n
    have begun := newDkg_generated dealing placed within draw
      (fun j _ => by simp [vector]) start
    have generated (n : Nat) := generation_generated dealing placed begun messages n
      fun k share _ here _ => lengths k share here
    refine ⟨(generated n).bounded signatures positive, ?_⟩
    intro share here j member m own sourced addressed
    exact (generated n).verify_ok dealing placed within (lengths n share here) sourced addressed
      member own

end Consensus

end Degrees

namespace Sample.Dealt

open Sample Consensus

noncomputable def signatures : Signatures curve Scalar where
  signature := scalar
  hash _ := 1
  verify_iff digest sig key := by
    change ((scalar key).isSome && decide (scalar key = scalar sig)) = true ↔
      ∃ x : Scalar, scalar key = some (x • 1) ∧ scalar sig = some (x • 1)
    rw [Bool.and_eq_true, decide_eq_true_eq, Option.isSome_iff_exists]
    constructor
    · rintro ⟨⟨x, read⟩, same⟩
      exact ⟨x, by rw [read, smul_eq_mul, mul_one], by rw [← same, read, smul_eq_mul, mul_one]⟩
    · rintro ⟨x, first, second⟩
      exact ⟨⟨_, first⟩, first.trans second.symm⟩
  recover_valid ids sigs xs ss _ _ _ read signed := by
    change scalar (((scalars ids).bind fun xs =>
      (scalars sigs).map fun ss => text (interpolated xs ss)).getD []) = _
    rw [scalars_valid read, scalars_valid signed, Option.bind_some, Option.map_some,
      Option.getD_some, scalar_text]

theorem alice_bounded : Bounded curve (generation [honest]
    (finish (newDkg draw group [alice] consensus))) := by
  have within : [alice] ⊆ group := by simp [group]
  refine ((bounded_iff signatures Nat.two_pos placed within draw consensus [honest]).mpr ?_ 1).1
  intro n share here j _
  rw [List.mem_singleton.mp (List.mem_of_getElem? here)]
  rfl

def short : DkgShare := contribution [3] [[3]]

/-- It passes the check and is stored, and the sum with the vector of alice is an error. -/
theorem short_accepted :
    verifyContributionShare (Bls.genKeys (adler32 alice.bytes)) short.secretShareContrib
      short.verifVector = true ∧
    (∃ d, verifyDkgContribution short (finish (newDkg draw group [alice] consensus)) =
      .error ⟨.indexError, "list index out of range"⟩ d) ∧
    ¬ ∀ (messages : List DkgShare) (n : Nat), Bounded curve (generation (messages.take n)
        (finish (newDkg draw group [alice] consensus))) ∧
      ∀ share, messages[n]? = some share → ∀ j ∈ group, ∀ m ∈ [alice], share.source = some j →
        share.destination = some m → ∃ d, verifyDkgContribution share (generation (messages.take n)
          (finish (newDkg draw group [alice] consensus))) = .ok () d := by
  have fails : RunFails (verifyDkgContribution short (finish (newDkg draw group [alice] consensus)))
      (fun e _ => e = ⟨.indexError, "list index out of range"⟩) = true := by
    decide
  obtain ⟨e, d, run, same⟩ := runFails_iff.mp fails
  have raised := of_decide_eq_true same
  rw [raised] at run
  refine ⟨by decide, ⟨d, run⟩, ?_⟩
  intro all
  obtain ⟨d', passes⟩ := (all [short] 0).2 short rfl bob (by simp [group]) alice
    (List.mem_singleton.mpr rfl) rfl rfl
  rw [List.take_zero, generation, List.foldl_nil, run] at passes
  cases passes

end Sample.Dealt

end IPchain
