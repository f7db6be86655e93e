import IPchain.Lib.Sharing
import IPchain.Members
import Mathlib.Algebra.Field.ZMod

/-! The key generation of a group: whatever contributions come in, and in whatever order, the keys
of a member that has all of them belong to the polynomial that their vectors add up to. -/

namespace IPchain

open Lib Platform

/-- What bls.exe computes. Some strings are read as scalars, some as points, and a point has one
way in which it is printed. Everything else is refused, with an empty string. -/
structure BlsCurve (F G : Type) [Field F] [AddCommGroup G] [Module F G] [Bls] where
  scalar : Bytes → Option F
  point : Bytes → Option G
  text : G → Bytes
  generator : G
  generator_ne : generator ≠ 0
  scalar_nil : scalar [] = none
  point_nil : point [] = none
  point_text : ∀ p, point (text p) = some p
  getPublicKey_valid : ∀ key x, scalar key = some x → Bls.getPublicKey key = text (x • generator)
  getPublicKey_invalid : ∀ key, scalar key = none → point (Bls.getPublicKey key) = none
  publicKeyIsEqual_iff : ∀ a b, Bls.publicKeyIsEqual a b = true ↔
    ∃ p, point a = some p ∧ point b = some p
  secretKeyShare_valid : ∀ id keys x cs, keys ≠ [] → scalar id = some x →
    List.Forall₂ (fun key c => scalar key = some c) keys cs →
      scalar (Bls.secretKeyShare id keys) = some (valueAt x cs)
  publicKeyShare_valid : ∀ id keys x ps, keys ≠ [] → scalar id = some x →
    List.Forall₂ (fun key p => point key = some p) keys ps →
      point (Bls.publicKeyShare id keys) = some (valueAt x ps)
  publicKeyShare_invalid : ∀ id keys, (∃ key ∈ keys, point key = none) →
    point (Bls.publicKeyShare id keys) = none
  secretKeyAdd_valid : ∀ a b x y, scalar a = some x → scalar b = some y →
    scalar (Bls.secretKeyAdd a b) = some (x + y)
  publicKeyAdd_valid : ∀ a b p q, point a = some p → point b = some q →
    Bls.publicKeyAdd a b = text (p + q)

section Dealing

variable {F G : Type} [Field F] [AddCommGroup G] [Module F G] [Bls]

section Sums

/-- `R key p` says that a string stands for a point, in one of the senses that addition keeps. -/
structure Additive (R : Bytes → G → Prop) : Prop where
  filled : ∀ key p, R key p → key ≠ []
  adds : ∀ a b p q, R a p → R b q → R (Bls.publicKeyAdd a b) (p + q)

variable {R : Bytes → G → Prop}

theorem addVector_first (vVec : List Bytes) :
    addVector (List.replicate vVec.length none) vVec = .ok (vVec.map some) := by
  induction vVec with
  | nil => rfl
  | cons pk vVec ih =>
      rw [List.length_cons, List.replicate_succ, addVector, ih]
      rfl

theorem addVector_next (additive : Additive R) {keys vVec : List Bytes} {ps qs : List G}
    (shown : List.Forall₂ R keys ps) (added : List.Forall₂ R vVec qs)
    (lengths : ps.length = qs.length) :
    ∃ sums, addVector (keys.map some) vVec = .ok (sums.map some) ∧
      List.Forall₂ R sums (List.zipWith (· + ·) ps qs) := by
  induction shown generalizing vVec qs with
  | nil =>
      obtain rfl := List.eq_nil_of_length_eq_zero lengths.symm
      cases added
      exact ⟨[], rfl, .nil⟩
  | @cons key p keys ps first shown ih =>
      cases added with
      | nil => cases lengths
      | @cons other q vVec qs second added =>
          obtain ⟨sums, run, sound⟩ := ih added (Nat.succ.inj lengths)
          have filled := additive.filled key p first
          have summed := additive.adds _ _ _ _ first second
          refine ⟨Bls.publicKeyAdd key other :: sums, ?_, .cons summed sound⟩
          cases key with
          | nil => exact absurd rfl filled
          | cons b key =>
              simp only [List.map_cons, addVector, run]
              rfl

theorem addVerificationVectors_ok (additive : Additive R) {n : Nat} {vVecs : List (List Bytes)}
    {pss : List (List G)} (shown : List.Forall₂ (List.Forall₂ R) vVecs pss)
    (lengths : ∀ ps ∈ pss, ps.length = n) (nonempty : vVecs ≠ []) :
    ∃ sums ps, addVerificationVectors vVecs = .ok (sums.map some) ∧ List.Forall₂ R sums ps ∧
      ps.length = n ∧ ∀ x : F, valueAt x ps = (pss.map (valueAt x)).sum := by
  have general (vVecs : List (List Bytes)) (pss : List (List G))
      (shown : List.Forall₂ (List.Forall₂ R) vVecs pss) (lengths : ∀ ps ∈ pss, ps.length = n)
      (keys : List Bytes) (start : List G) (begun : List.Forall₂ R keys start)
      (length : start.length = n) :
      ∃ sums ps, vVecs.foldlM addVector (keys.map some) = .ok (sums.map some) ∧
        List.Forall₂ R sums ps ∧ ps.length = n ∧
        ∀ x : F, valueAt x ps = valueAt x start + (pss.map (valueAt x)).sum := by
    induction shown generalizing keys start with
    | nil => exact ⟨keys, start, rfl, begun, length, fun x => by simp⟩
    | @cons vVec qs vVecs pss first shown ih =>
        obtain ⟨one, others⟩ := List.forall_mem_cons.mp lengths
        obtain ⟨sums, run, sound⟩ := addVector_next additive begun first (length.trans one.symm)
        have longer : (List.zipWith (· + ·) start qs).length = n := by
          rw [List.length_zipWith, length, one, Nat.min_self]
        obtain ⟨all, ps, later, kept, size, values⟩ := ih others sums _ sound longer
        refine ⟨all, ps, ?_, kept, size, ?_⟩
        · rw [List.foldlM_cons, run]
          exact later
        · intro x
          rw [values, valueAt_zipWith x (length.trans one.symm), List.map_cons, List.sum_cons,
            add_assoc]
  cases shown with
  | nil => exact absurd rfl nonempty
  | @cons vVec qs vVecs pss first shown =>
      obtain ⟨one, others⟩ := List.forall_mem_cons.mp lengths
      obtain ⟨sums, ps, run, sound, size, values⟩ := general vVecs pss shown others vVec qs first one
      refine ⟨sums, ps, ?_, sound, size, values⟩
      rw [addVerificationVectors, List.foldlM_cons, addVector_first]
      exact run

theorem addContributionShares_ok (curve : BlsCurve F G) {keys : List Bytes} {xs : List F}
    (shown : List.Forall₂ (fun key x => curve.scalar key = some x) keys xs) (nonempty : keys ≠ []) :
    ∃ key, addContributionShares keys = .ok key ∧ curve.scalar key = some xs.sum := by
  have general (keys : List Bytes) (xs : List F)
      (shown : List.Forall₂ (fun key x => curve.scalar key = some x) keys xs) (key : Bytes)
      (x : F) (begun : curve.scalar key = some x) :
      curve.scalar (keys.foldl Bls.secretKeyAdd key) = some (x + xs.sum) := by
    induction shown generalizing key x with
    | nil => rwa [List.sum_nil, add_zero]
    | cons first shown ih =>
        rw [List.foldl_cons, List.sum_cons, ← add_assoc]
        exact ih _ _ (curve.secretKeyAdd_valid _ _ _ _ begun first)
  have backwards := List.rel_reverse shown
  rw [addContributionShares]
  cases turned : keys.reverse with
  | nil => exact absurd (List.reverse_eq_nil_iff.mp turned) nonempty
  | cons last others =>
      rw [turned] at backwards
      cases values : xs.reverse with
      | nil =>
          rw [values] at backwards
          cases backwards
      | cons x ys =>
          rw [values] at backwards
          cases backwards with
          | cons first rest =>
              have total := general _ _ (List.rel_reverse rest) last x first
              have whole : x + ys.reverse.sum = xs.sum := by
                rw [← List.sum_reverse xs, values, List.sum_cons, List.sum_reverse]
              exact ⟨_, rfl, by rw [← whole]; exact total⟩

end Sums

theorem BlsCurve.parsed (curve : BlsCurve F G) {keys : List Bytes}
    (all : ∀ key ∈ keys, curve.point key ≠ none) :
    ∃ ps, List.Forall₂ (fun key p => curve.point key = some p) keys ps := by
  induction keys with
  | nil => exact ⟨[], .nil⟩
  | cons key keys ih =>
      obtain ⟨first, others⟩ := List.forall_mem_cons.mp all
      obtain ⟨p, parsed⟩ := Option.ne_none_iff_exists'.mp first
      obtain ⟨ps, rest⟩ := ih others
      exact ⟨p :: ps, .cons parsed rest⟩

/-- A contribution that passes the check is the value of its vector at the place of the receiver. -/
theorem BlsCurve.valid (curve : BlsCurve F G) {id contribution : Bytes} {vVec : List Bytes} {x : F}
    (placed : curve.scalar id = some x) (nonempty : vVec ≠ [])
    (valid : verifyContributionShare id contribution vVec = true) :
    ∃ ps y, List.Forall₂ (fun key p => curve.point key = some p) vVec ps ∧
      curve.scalar contribution = some y ∧ y • curve.generator = valueAt x ps := by
  obtain ⟨p, left, right⟩ := (curve.publicKeyIsEqual_iff _ _).mp valid
  have all : ∀ key ∈ vVec, curve.point key ≠ none := by
    intro key member failed
    rw [curve.publicKeyShare_invalid id vVec ⟨key, member, failed⟩] at left
    cases left
  obtain ⟨ps, parsed⟩ := curve.parsed all
  rw [curve.publicKeyShare_valid id vVec x ps nonempty placed parsed] at left
  cases secret : curve.scalar contribution with
  | none =>
      rw [curve.getPublicKey_invalid _ secret] at right
      cases right
  | some y =>
      rw [curve.getPublicKey_valid _ _ secret, curve.point_text] at right
      exact ⟨ps, y, parsed, rfl, Option.some.inj (right.trans left.symm)⟩

theorem BlsCurve.honest (curve : BlsCurve F G) {id : Bytes} {secrets : List Bytes} {x : F} {cs : List F}
    (placed : curve.scalar id = some x) (nonempty : secrets ≠ [])
    (read : List.Forall₂ (fun key c => curve.scalar key = some c) secrets cs) :
    verifyContributionShare id (Bls.secretKeyShare id secrets) (secrets.map Bls.getPublicKey) =
      true := by
  have shown : List.Forall₂ (fun key p => curve.point key = some p) (secrets.map Bls.getPublicKey)
      (cs.map fun c => c • curve.generator) := by
    rw [List.forall₂_map_left_iff, List.forall₂_map_right_iff]
    apply read.imp
    intro key c secret
    rw [curve.getPublicKey_valid _ _ secret, curve.point_text]
  have filled : secrets.map Bls.getPublicKey ≠ [] := by
    simpa using nonempty
  apply (curve.publicKeyIsEqual_iff _ _).mpr
  refine ⟨_, curve.publicKeyShare_valid _ _ x _ filled placed shown, ?_⟩
  rw [curve.getPublicKey_valid _ _ (curve.secretKeyShare_valid _ _ x _ nonempty placed read),
    curve.point_text, valueAt_map_smul]

namespace Consensus

variable [Platform] [Threshold]

open Threshold

/-- Vectors that are allowed have as many points as a group signature takes shares, in the sense
in which strings stand for points. -/
structure Dealing (curve : BlsCurve F G) (Allowed : Address → List Bytes → Prop)
    (R : Bytes → G → Prop) : Prop where
  positive : 0 < threshold
  additive : Additive R
  length : ∀ j vVec, Allowed j vVec → vVec.length = threshold
  shown : ∀ j vVec ps, Allowed j vVec →
    List.Forall₂ (fun key p => curve.point key = some p) vVec ps → List.Forall₂ R vVec ps

/-- What a member at `x` keeps of another one that has sent its contribution. -/
structure Piece (curve : BlsCurve F G) (Allowed : Address → List Bytes → Prop) (x : F)
    (row : Address × Member) (ps : List G) (y : F) : Prop where
  share : ∃ s, row.2.receivedShare = some s ∧ curve.scalar s = some y
  vector : ∃ vVec, row.2.vvec = some vVec ∧ Allowed row.1 vVec ∧
    List.Forall₂ (fun key p => curve.point key = some p) vVec ps
  value : y • curve.generator = valueAt x ps

structure Summed (curve : BlsCurve F G) (Allowed : Address → List Bytes → Prop) (R : Bytes → G → Prop)
    (g : Group) (sums : List Bytes) (ps : List G) (pss : List (List G)) : Prop where
  run : addVerificationVectors ((rows g).filterMap fun row => row.2.vvec) = .ok (sums.map some)
  shown : List.Forall₂ R sums ps
  length : ps.length = threshold
  rows : List.Forall₂ (fun row ps => ∃ vVec, row.2.vvec = some vVec ∧ Allowed row.1 vVec ∧
    List.Forall₂ (fun key p => curve.point key = some p) vVec ps) (rows g) pss
  values : ∀ x : F, valueAt x ps = (pss.map (valueAt x)).sum

variable {curve : BlsCurve F G} {Allowed : Address → List Bytes → Prop} {R : Bytes → G → Prop}
  {group ids : List Address} {place : Address → F}

omit [Platform] in
theorem pieces_ok (dealing : Dealing curve Allowed R) {x : F} {l : List (Address × Member)}
    (pieces : ∀ row ∈ l, ∃ ps y, Piece curve Allowed x row ps y) :
    ∃ ys pss,
      List.Forall₂ (fun key y => curve.scalar key = some y)
        (l.filterMap fun row => row.2.receivedShare) ys ∧
      List.Forall₂ (List.Forall₂ R) (l.filterMap fun row => row.2.vvec) pss ∧
      (∀ ps ∈ pss, ps.length = threshold) ∧
      List.Forall₂ (fun row ps => ∃ vVec, row.2.vvec = some vVec ∧ Allowed row.1 vVec ∧
        List.Forall₂ (fun key p => curve.point key = some p) vVec ps) l pss ∧
      ys.sum • curve.generator = (pss.map (valueAt x)).sum := by
  induction l with
  | nil => exact ⟨[], [], .nil, .nil, by simp, .nil, by simp⟩
  | cons row l ih =>
      obtain ⟨first, others⟩ := List.forall_mem_cons.mp pieces
      obtain ⟨ps, y, ⟨s, share, secret⟩, ⟨vVec, vector, allowed, parsed⟩, value⟩ := first
      obtain ⟨ys, pss, secrets, vectors, lengths, parts, sums⟩ := ih others
      have length : ps.length = threshold := by
        rw [← parsed.length_eq, dealing.length _ _ allowed]
      refine ⟨y :: ys, ps :: pss, ?_, ?_, ?_, .cons ⟨vVec, vector, allowed, parsed⟩ parts, ?_⟩
      · simp only [List.filterMap_cons, share]
        exact .cons secret secrets
      · simp only [List.filterMap_cons, vector]
        exact .cons (dealing.shown _ _ _ allowed parsed) vectors
      · exact List.forall_mem_cons.mpr ⟨length, lengths⟩
      · rw [List.sum_cons, add_smul, value, sums, List.map_cons, List.sum_cons]

structure Stored (curve : BlsCurve F G) (Allowed : Address → List Bytes → Prop) (group : List Address)
    (x : F) (g : Group) : Prop where
  roster : Roster group g
  pieces : ∀ j member, g.lookup j = some member → member.receivedShare ≠ none →
    ∃ ps y, Piece curve Allowed x (j, member) ps y
  missing : ∀ j member, g.lookup j = some member → member.receivedShare = none →
    member.vvec = none

theorem finishDkg_ok (dealing : Dealing curve Allowed R) {x : F} {g : Group}
    (stored : Stored curve Allowed group x g) (nonempty : group ≠ [])
    (complete : allSharesReceived g = true) (destination : Address) (c : Consensus) :
    ∃ sums ps pss secret y key, Summed curve Allowed R g sums ps pss ∧ sums.head? = some key ∧
      curve.scalar secret = some y ∧ y • curve.generator = valueAt x ps ∧
      finishDkg destination g c = .ok () { c with
        secretKeys := c.secretKeys.insert destination secret
        groupKey := key } := by
  have pieces : ∀ row ∈ rows g, ∃ ps y, Piece curve Allowed x row ps y := by
    rintro ⟨j, member⟩ listed
    apply stored.pieces j member ((mem_rows g j member).mp listed)
    intro none
    have received := List.all_eq_true.mp complete _ listed
    simp only [none] at received
    cases received
  obtain ⟨ys, pss, secrets, vectors, lengths, parts, total⟩ := pieces_ok dealing pieces
  have some : rows g ≠ [] := by
    intro empty
    obtain ⟨j, others, rfl⟩ := List.exists_cons_of_ne_nil nonempty
    have present := (stored.roster.mem_iff j).mpr List.mem_cons_self
    obtain ⟨member, found⟩ := Option.isSome_iff_exists.mp (AList.lookup_isSome.mpr present)
    have listed := (mem_rows g j member).mpr found
    rw [empty] at listed
    cases listed
  obtain ⟨row, others, walked⟩ := List.exists_cons_of_ne_nil some
  obtain ⟨ps, y, ⟨s, share, -⟩, ⟨vVec, vector, -, -⟩, -⟩ :=
    pieces row (walked ▸ List.mem_cons_self)
  have shares : (rows g).filterMap (fun row => row.2.receivedShare) ≠ [] := by
    simp [walked, share]
  have vVecs : (rows g).filterMap (fun row => row.2.vvec) ≠ [] := by
    simp [walked, vector]
  obtain ⟨secret, added, scalar⟩ := addContributionShares_ok curve secrets shares
  obtain ⟨sums, qs, run, shown, length, values⟩ :=
    addVerificationVectors_ok (F := F) dealing.additive vectors lengths vVecs
  have filled : secret ≠ [] := by
    intro empty
    rw [empty, curve.scalar_nil] at scalar
    cases scalar
  cases shown with
  | nil =>
      have positive := dealing.positive
      rw [← length] at positive
      cases positive
  | @cons key q keys qs head tail =>
      refine ⟨key :: keys, q :: qs, pss, secret, _, key, ⟨run, .cons head tail, length, parts, values⟩,
        rfl, scalar, total.trans (values x).symm, ?_⟩
      simp only [finishDkg, added, if_neg filled, run, List.map_cons,
        if_neg (dealing.additive.filled key q head)]

/-- The own id `m` has the dictionary `g`, with the contributions of all members. -/
structure Complete (c : Consensus) (m : Address) (g : Group) : Prop where
  found : ∃ members, c.members = some members ∧ members.lookup (some m) = some g
  received : allSharesReceived g = true

structure Generated (curve : BlsCurve F G) (Allowed : Address → List Bytes → Prop)
    (R : Bytes → G → Prop) (group ids : List Address) (place : Address → F) (c : Consensus) :
    Prop where
  keeping : Keeping (fun key g => ∀ m, key = some m → Stored curve Allowed group (place m) g) ids c
  secrets : ∀ m g, Complete c m g → ∃ sums ps pss secret y,
    Summed curve Allowed R g sums ps pss ∧ c.secretKeys.lookup m = some secret ∧
      curve.scalar secret = some y ∧ y • curve.generator = valueAt (place m) ps
  groupKey : ∀ m g, Complete c m g → ∃ m' g' sums ps pss, Complete c m' g' ∧
    Summed curve Allowed R g' sums ps pss ∧ sums.head? = some c.groupKey

structure Accepted (c : Consensus) (share : DkgShare) (j : Address) : Prop where
  sourced : share.source = some j
  taken : ∃ members destination g sender receiver, c.members = some members ∧
    Delivered share members j destination g sender receiver ∧ Valid share receiver

omit [Platform] in
theorem stored_credit {share : DkgShare} {members : AList fun _ : Option Address => Group}
    {oid destination : Address} {g : Group} {sender receiver : Member}
    (dealing : Dealing curve Allowed R)
    (placed : ∀ j ∈ group, curve.scalar (Bls.genKeys (adler32 j.bytes)) = some (place j))
    (delivered : Delivered share members oid destination g sender receiver)
    (allowed : Valid share receiver → Allowed oid share.verifVector)
    (stored : Stored curve Allowed group (place destination) g) :
    Stored curve Allowed group (place destination) (credit share oid sender receiver g) := by
  refine ⟨roster_credit delivered stored.roster, ?_, ?_⟩
  · intro j member found received
    rw [credit] at found
    split at found
    · rename_i valid
      by_cases here : j = oid
      · subst here
        rw [AList.lookup_insert] at found
        cases found
        have length := dealing.length _ _ (allowed valid)
        have nonempty : share.verifVector ≠ [] := by
          intro empty
          have positive := dealing.positive
          rw [empty] at length
          rw [← length] at positive
          cases positive
        have listed := (stored.roster.mem_iff destination).mp
          (AList.lookup_isSome.mp (by rw [delivered.receiving]; rfl))
        have placedId := placed destination listed
        rw [← stored.roster.id destination receiver delivered.receiving] at placedId
        obtain ⟨ps, y, parsed, secret, value⟩ := curve.valid placedId nonempty valid
        exact ⟨ps, y, ⟨_, rfl, secret⟩, ⟨_, rfl, allowed valid, parsed⟩, value⟩
      · rw [AList.lookup_insert_ne here] at found
        exact stored.pieces j member found received
    · exact stored.pieces j member found received
  · intro j member found lacking
    rw [credit] at found
    split at found
    · by_cases here : j = oid
      · subst here
        rw [AList.lookup_insert] at found
        cases found
        cases lacking
      · rw [AList.lookup_insert_ne here] at found
        exact stored.missing j member found lacking
    · exact stored.missing j member found lacking

omit [Bls] [Threshold] in
theorem incomplete {g : Group} {j : Address} {member : Member} (found : g.lookup j = some member)
    (none : member.receivedShare = none) : allSharesReceived g = false := by
  rw [allSharesReceived, List.all_eq_false]
  refine ⟨(j, member), (mem_rows g j member).mpr found, ?_⟩
  simp [none]

theorem Generated.verify (dealing : Dealing curve Allowed R)
    (placed : ∀ j ∈ group, curve.scalar (Bls.genKeys (adler32 j.bytes)) = some (place j))
    {share : DkgShare} {c : Consensus}
    (generated : Generated curve Allowed R group ids place c)
    (allowed : ∀ j, Accepted c share j → Allowed j share.verifVector) :
    Generated curve Allowed R group ids place (finish (verifyDkgContribution share c)) := by
  have accepted {members : AList fun _ : Option Address => Group} {oid destination : Address}
      {g : Group} {sender receiver : Member} (known : c.members = some members)
      (delivered : Delivered share members oid destination g sender receiver)
      (stored : Stored curve Allowed group (place destination) g) :=
    stored_credit dealing placed delivered
      (fun valid => allowed oid ⟨delivered.sourced, _, _, _, _, _, known, delivered, valid⟩) stored
  have keeping : Keeping (fun key g => ∀ m, key = some m → Stored curve Allowed group (place m) g)
      ids (finish (verifyDkgContribution share c)) := by
    apply generated.keeping.verify
    intro members oid destination g sender receiver known delivered stored m same
    cases same
    exact accepted known delivered (stored destination rfl)
  rcases verifyDkgContribution_cases share c with same | ⟨members, oid, destination, g, sender,
    receiver, known, delivered⟩
  · rw [same]
    exact generated
  · have run := verifyDkgContribution_delivered known delivered
    obtain ⟨members', known', dictionaries⟩ := generated.keeping.dictionaries
    rw [known, Option.some.injEq] at known'
    subst known'
    have stored := dictionaries.each _ _ delivered.dictionary destination rfl
    have credited := accepted known delivered stored
    have nonempty : group ≠ [] := by
      have listed := (stored.roster.mem_iff destination).mp
        (AList.lookup_isSome.mp (by rw [delivered.receiving]; rfl))
      exact List.ne_nil_of_mem listed
    have old {m : Address} {h : Group} (other : m ≠ destination)
        (found : (members.insert (some destination) (credit share oid sender receiver g)).lookup
          (some m) = some h) : members.lookup (some m) = some h := by
      rwa [AList.lookup_insert_ne (fun same => other (Option.some.inj same))] at found
    have new {h : Group} (found : (members.insert (some destination)
        (credit share oid sender receiver g)).lookup (some destination) = some h) :
        credit share oid sender receiver g = h := by
      rwa [AList.lookup_insert, Option.some.injEq] at found
    by_cases complete : allSharesReceived (credit share oid sender receiver g) = true
    · obtain ⟨sums, ps, pss, secret, y, key, summed, head, scalar, value, finished⟩ :=
        finishDkg_ok dealing credited nonempty complete destination
          (c.withGroup members destination (credit share oid sender receiver g))
      rw [if_pos complete, finished] at run
      rw [run] at keeping ⊢
      refine ⟨keeping, ?_, ?_⟩
      · rintro m h ⟨⟨members', known', found⟩, received⟩
        cases known'
        by_cases here : m = destination
        · subst here
          rw [← new found]
          exact ⟨sums, ps, pss, secret, y, summed, AList.lookup_insert _, scalar, value⟩
        · obtain ⟨sums', ps', pss', secret', y', summed', kept, rest⟩ :=
            generated.secrets m h ⟨⟨members, known, old here found⟩, received⟩
          exact ⟨sums', ps', pss', secret', y', summed',
            (AList.lookup_insert_ne here).trans kept, rest⟩
      · intro _ _ _
        exact ⟨destination, _, sums, ps, pss, ⟨⟨_, rfl, AList.lookup_insert _⟩, complete⟩, summed,
          head⟩
    · rw [if_neg complete] at run
      rw [run] at keeping ⊢
      have other {m : Address} {h : Group}
          (done : Complete (c.withGroup members destination (credit share oid sender receiver g)) m h) :
          m ≠ destination ∧ Complete c m h := by
        obtain ⟨⟨members', known', found⟩, received⟩ := done
        cases known'
        have apart : m ≠ destination := by
          intro here
          subst here
          rw [← new found] at received
          exact complete received
        exact ⟨apart, ⟨members, known, old apart found⟩, received⟩
      refine ⟨keeping, fun m h done => generated.secrets m h (other done).2, ?_⟩
      intro m h done
      obtain ⟨m', g', sums, ps, pss, ⟨⟨members', known', found⟩, received⟩, summed, head⟩ :=
        generated.groupKey m h (other done).2
      rw [known, Option.some.injEq] at known'
      subst known'
      have apart : m' ≠ destination := by
        intro here
        rw [here, delivered.dictionary, Option.some.injEq] at found
        rw [← found, incomplete delivered.sending delivered.new] at received
        cases received
      refine ⟨m', g', sums, ps, pss, ⟨⟨_, rfl, ?_⟩, received⟩, summed, head⟩
      exact (AList.lookup_insert_ne (fun same => apart (Option.some.inj same))).trans found

omit [Platform] [Threshold] in
theorem groupMembers_total (made : ∀ j ∈ group, Bls.genKeys (adler32 j.bytes) ≠ []) :
    ∃ g, groupMembers group ∅ = .ok g := by
  have general (group : List Address) (made : ∀ j ∈ group, Bls.genKeys (adler32 j.bytes) ≠ [])
      (m : Group) : ∃ g, groupMembers group m = .ok g := by
    induction group generalizing m with
    | nil => exact ⟨m, rfl⟩
    | cons oid group ih =>
        obtain ⟨first, others⟩ := List.forall_mem_cons.mp made
        simp only [groupMembers, if_neg first]
        exact ih others _
  exact general group made ∅

theorem newDkg_generated (dealing : Dealing curve Allowed R)
    (placed : ∀ j ∈ group, curve.scalar (Bls.genKeys (adler32 j.bytes)) = some (place j))
    (within : ids ⊆ group) (draw : Address → Nat → Bytes × Bytes)
    (own : ∀ j ∈ ids, Allowed j (vector (draw j))) (c : Consensus) :
    Generated curve Allowed R group ids place (finish (newDkg draw group ids c)) := by
  have filled : ∀ j ∈ group, Bls.genKeys (adler32 j.bytes) ≠ [] := by
    intro j member empty
    have scalar := placed j member
    rw [empty, curve.scalar_nil] at scalar
    cases scalar
  obtain ⟨g, made⟩ := groupMembers_total filled
  obtain ⟨roster, fresh⟩ := groupMembers_ok made
  have step (share : DkgShare) (good : ∀ j, share.source = some j → Allowed j share.verifVector) :
      Keeps (Generated curve Allowed R group ids place) (verifyDkgContribution share) :=
    fun c generated => generated.verify dealing placed fun j accepted => good j accepted.sourced
  apply newDkg_keeps step draw _ made c
  · have none (m : Address) (h : Group)
        (done : Complete { c with
          previousGroupKey := c.groupKey
          members := some (ids.foldl (fun members nodeId => AList.insert (some nodeId) g members) ∅)
          dkgGroup := group
          ownIds := ids } m h) : False := by
      obtain ⟨⟨members, known, found⟩, received⟩ := done
      cases known
      have all : Dictionaries (ids.map some) (fun _ h => h = g)
          (ids.foldl (fun members nodeId => AList.insert (some nodeId) g members) ∅) :=
        foldl_insert fun _ => rfl
      have same := all.each _ _ found
      subst same
      have listed := (all.mem_iff (some m)).mp (AList.lookup_isSome.mp (by rw [found]; rfl))
      obtain ⟨m', own, same⟩ := List.mem_map.mp listed
      cases same
      have present := (roster.mem_iff m).mpr (within own)
      obtain ⟨member, entry⟩ := Option.isSome_iff_exists.mp (AList.lookup_isSome.mpr present)
      rw [incomplete entry (fresh m member entry).1] at received
      cases received
    refine ⟨⟨rfl, _, rfl, foldl_insert fun key m same => ?_⟩, fun m h done => (none m h done).elim,
      fun m h done => (none m h done).elim⟩
    refine ⟨roster, ?_, fun j member found _ => (fresh j member found).2⟩
    intro j member found received
    exact absurd (fresh j member found).1 received
  · intro nodeId owned oid contrib j sourced
    cases sourced
    exact own nodeId owned

def generation (messages : List DkgShare) (c : Consensus) : Consensus :=
  messages.foldl (fun c share => finish (verifyDkgContribution share c)) c

theorem generation_generated (dealing : Dealing curve Allowed R)
    (placed : ∀ j ∈ group, curve.scalar (Bls.genKeys (adler32 j.bytes)) = some (place j))
    {c : Consensus} (start : Generated curve Allowed R group ids place c) (messages : List DkgShare)
    (n : Nat)
    (allowed : ∀ k share, k < n → messages[k]? = some share →
      Generated curve Allowed R group ids place (generation (messages.take k) c) →
        ∀ j, Accepted (generation (messages.take k) c) share j → Allowed j share.verifVector) :
    Generated curve Allowed R group ids place (generation (messages.take n) c) := by
  induction n with
  | zero => exact start
  | succ n ih =>
      have before := ih fun k share earlier => allowed k share (Nat.lt_succ_of_lt earlier)
      rw [List.take_add_one]
      cases here : messages[n]? with
      | none => simpa using before
      | some share =>
          rw [Option.toList_some, generation, List.foldl_append]
          exact before.verify dealing placed (allowed n share (Nat.lt_succ_self n) here before)

theorem Accepted.valid {c : Consensus} {share : DkgShare} {j : Address}
    (generated : Generated curve Allowed R group ids place c) (accepted : Accepted c share j) :
    j ∈ group ∧ ∃ m ∈ ids, share.destination = some m ∧
      verifyContributionShare (Bls.genKeys (adler32 m.bytes)) share.secretShareContrib
        share.verifVector = true := by
  obtain ⟨sourced, members, m, g, sender, receiver, known, delivered, valid⟩ := accepted
  obtain ⟨-, members', known', dictionaries⟩ := generated.keeping
  rw [known, Option.some.injEq] at known'
  subst known'
  have roster := (dictionaries.each _ _ delivered.dictionary m rfl).roster
  have listed := (dictionaries.mem_iff (some m)).mp
    (AList.lookup_isSome.mp (by rw [delivered.dictionary]; rfl))
  obtain ⟨m', own, same⟩ := List.mem_map.mp listed
  cases same
  refine ⟨(roster.mem_iff j).mp (AList.lookup_isSome.mp (by rw [delivered.sending]; rfl)), m, own,
    delivered.addressed, ?_⟩
  rw [← roster.id m receiver delivered.receiving]
  exact valid

omit [Bls] [Threshold] in
theorem Complete.of_any {c : Consensus} {m : Address}
    (found : (c.members.bind fun members => members.lookup (some m)).any allSharesReceived = true) :
    ∃ g, Complete c m g := by
  cases known : c.members.bind fun members => members.lookup (some m) with
  | none =>
      rw [known] at found
      cases found
  | some g =>
      rw [known] at found
      exact ⟨g, Option.bind_eq_some_iff.mp known, found⟩

end Consensus

end Dealing

namespace Sample.Dealt

open Sample Consensus

scoped instance : Threshold := ⟨2⟩

scoped instance primeSeven : Fact (Nat.Prime 7) := ⟨Nat.prime_seven⟩

abbrev Scalar : Type := ZMod 7

def scalar (key : Bytes) : Option Scalar :=
  if key.length = 1 ∧ (key.headD 0).toNat < 7 then some (key.headD 0).toNat else none

def text (x : Scalar) : Bytes := [UInt8.ofNat x.val]

def scalars : List Bytes → Option (List Scalar)
  | [] => some []
  | key :: keys => (scalar key).bind fun x => (scalars keys).map (List.cons x)

def shareAt (id : Bytes) (keys : List Bytes) : Bytes :=
  ((scalar id).bind fun x => (scalars keys).map fun cs => text (valueAt x cs)).getD []

def added (a b : Bytes) : Bytes :=
  ((scalar a).bind fun x => (scalar b).map fun y => text (x + y)).getD []

/-- The points are the scalars, a point being its discrete logarithm, and all hashes are 1. -/
noncomputable scoped instance : Bls where
  genKeys seed := text seed
  secretKeyShare := shareAt
  publicKeyShare := shareAt
  getPublicKey key := ((scalar key).map text).getD []
  publicKeyIsEqual a b := (scalar a).isSome && scalar a = scalar b
  secretKeyAdd := added
  publicKeyAdd := added
  sign _ key := ((scalar key).map text).getD []
  verify _ sig key := (scalar key).isSome && scalar key = scalar sig
  recover ids sigs := ((scalars ids).bind fun xs =>
    (scalars sigs).map fun ss => text (interpolated xs ss)).getD []

theorem scalar_text (x : Scalar) : scalar (text x) = some x := by
  revert x
  decide

theorem scalars_valid {keys : List Bytes} {cs : List Scalar}
    (read : List.Forall₂ (fun key c => scalar key = some c) keys cs) : scalars keys = some cs := by
  induction read with
  | nil => rfl
  | cons first read ih => rw [scalars, first, ih, Option.bind_some, Option.map_some]

theorem scalars_invalid {keys : List Bytes} (failed : ∃ key ∈ keys, scalar key = none) :
    scalars keys = none := by
  induction keys with
  | nil =>
      obtain ⟨key, member, -⟩ := failed
      cases member
  | cons key keys ih =>
      obtain ⟨other, member, none⟩ := failed
      rw [scalars]
      rcases List.mem_cons.mp member with rfl | later
      · rw [none, Option.bind_none]
      · rw [ih ⟨other, later, none⟩]
        cases scalar key with
        | none => rfl
        | some _ => rfl

theorem shareAt_valid (id : Bytes) (keys : List Bytes) (x : Scalar) (cs : List Scalar)
    (placed : scalar id = some x) (read : List.Forall₂ (fun key c => scalar key = some c) keys cs) :
    scalar (shareAt id keys) = some (valueAt x cs) := by
  rw [shareAt, placed, scalars_valid read, Option.bind_some, Option.map_some, Option.getD_some,
    scalar_text]

theorem added_valid (a b : Bytes) (x y : Scalar) (first : scalar a = some x)
    (second : scalar b = some y) : added a b = text (x + y) := by
  rw [added, first, second, Option.bind_some, Option.map_some, Option.getD_some]

noncomputable def curve : BlsCurve Scalar Scalar where
  scalar := scalar
  point := scalar
  text := text
  generator := 1
  generator_ne := one_ne_zero
  scalar_nil := rfl
  point_nil := rfl
  point_text := scalar_text
  getPublicKey_valid key x read := by
    change ((scalar key).map text).getD [] = _
    rw [read, Option.map_some, Option.getD_some, smul_eq_mul, mul_one]
  getPublicKey_invalid key failed := by
    change scalar (((scalar key).map text).getD []) = none
    rw [failed]
    rfl
  publicKeyIsEqual_iff a b := by
    change ((scalar a).isSome && decide (scalar a = scalar b)) = true ↔ _
    rw [Bool.and_eq_true, decide_eq_true_eq, Option.isSome_iff_exists]
    constructor
    · rintro ⟨⟨p, read⟩, same⟩
      exact ⟨p, read, same ▸ read⟩
    · rintro ⟨p, first, second⟩
      exact ⟨⟨p, first⟩, first.trans second.symm⟩
  secretKeyShare_valid id keys x cs _ := shareAt_valid id keys x cs
  publicKeyShare_valid id keys x ps _ := shareAt_valid id keys x ps
  publicKeyShare_invalid id keys failed := by
    change scalar (shareAt id keys) = none
    rw [shareAt, scalars_invalid failed]
    cases scalar id with
    | none => rfl
    | some _ => rfl
  secretKeyAdd_valid a b x y first second := by
    change scalar (added a b) = _
    rw [added_valid a b x y first second, scalar_text]
  publicKeyAdd_valid := added_valid

def group : List Address := [alice, bob]

def place (j : Address) : Scalar := (adler32 j.bytes : Scalar)

def coefficient (j : Address) (i : Nat) : Scalar :=
  if j = alice then (if i = 0 then 1 else 2) else if i = 0 then 3 else 4

def draw (j : Address) (i : Nat) : Bytes × Bytes := (text (coefficient j i), text (coefficient j i))

def contribution (contrib : Bytes) (vVec : List Bytes) : DkgShare :=
  ⟨some bob, some alice, contrib, vVec⟩

noncomputable def honest : DkgShare :=
  contribution (shareAt (Bls.genKeys (adler32 alice.bytes)) (vector (draw bob))) (vector (draw bob))

theorem zero_bound : 0 < 2 ^ Family.v4.width := by decide

def consensus : Consensus where
  currentRandomNo := []
  groupSig := []
  shares := []
  sharesIds := []
  verified := true
  nextSigner := ⟨.v4, 0, zero_bound⟩
  dkgGroup := []
  ownIds := []
  secretKeys := ∅
  groupKey := [0x31]
  previousGroupKey := [0x31]
  msg := []
  members := none

theorem placed : ∀ j ∈ group, curve.scalar (Bls.genKeys (adler32 j.bytes)) = some (place j) :=
  fun j _ => scalar_text (place j)

end Sample.Dealt

end IPchain
