import IPchain.Encoding
import IPchain.Lib.Advance
import IPchain.Shares

/-! The members of a group: what their ids tell of their addresses, and what the contributions
of a key generation leave as it is. -/

namespace IPchain

open Lib Platform

def byteSum : Bytes → Nat
  | [] => 0
  | d :: data => d.toNat + byteSum data

def weightedSum : Bytes → Nat
  | [] => 0
  | d :: data => (data.length + 1) * d.toNat + weightedSum data

theorem byteSum_le (data : Bytes) : byteSum data ≤ 255 * data.length := by
  induction data with
  | nil => exact Nat.le_refl 0
  | cons d data ih =>
      have bound := d.toNat_lt
      rw [byteSum, List.length_cons]
      omega

theorem weightedSum_le (data : Bytes) :
    2 * weightedSum data ≤ 255 * (data.length * (data.length + 1)) := by
  induction data with
  | nil => exact Nat.le_refl 0
  | cons d data ih =>
      have bound := d.toNat_lt
      have first : (data.length + 1) * d.toNat ≤ (data.length + 1) * 255 :=
        Nat.mul_le_mul_left _ (by omega)
      rw [weightedSum, List.length_cons]
      calc 2 * ((data.length + 1) * d.toNat + weightedSum data)
          = 2 * ((data.length + 1) * d.toNat) + 2 * weightedSum data := Nat.mul_add _ _ _
        _ ≤ 2 * ((data.length + 1) * 255) + 255 * (data.length * (data.length + 1)) :=
          Nat.add_le_add (Nat.mul_le_mul_left 2 first) ih
        _ = 255 * ((data.length + 1) * (data.length + 1 + 1)) := by ring

def adlerStep (sums : Nat × Nat) (d : UInt8) : Nat × Nat :=
  ((sums.1 + d.toNat) % 65521, (sums.2 + (sums.1 + d.toNat)) % 65521)

theorem foldl_adlerStep (data : Bytes) (a b : Nat) (smallA : a + byteSum data < 65521)
    (smallB : b + data.length * a + weightedSum data < 65521) :
    data.foldl adlerStep (a, b) = (a + byteSum data, b + data.length * a + weightedSum data) := by
  induction data generalizing a b with
  | nil => simp [byteSum, weightedSum]
  | cons d data ih =>
      rw [byteSum] at smallA
      rw [weightedSum, List.length_cons, Nat.succ_mul, Nat.succ_mul] at smallB
      have modA : (a + d.toNat) % 65521 = a + d.toNat := Nat.mod_eq_of_lt (by omega)
      have modB : (b + (a + d.toNat)) % 65521 = b + (a + d.toNat) := Nat.mod_eq_of_lt (by omega)
      have next := ih (a + d.toNat) (b + (a + d.toNat)) (by omega) (by rw [Nat.mul_add]; omega)
      rw [List.foldl_cons, adlerStep, modA, modB, next, byteSum, weightedSum, List.length_cons,
        Nat.succ_mul, Nat.succ_mul, Nat.mul_add]
      congr 1 <;> omega

theorem adler32_address (a : Address) : ∃ sum, sum = 65536 * (20 + weightedSum a.bytes) +
      (1 + byteSum a.bytes) ∧ sum < 2 ^ 32 ∧
    adler32 a.bytes = if sum < 2 ^ 31 then (sum : Int) else sum - 2 ^ 32 := by
  have low := byteSum_le a.bytes
  have high := weightedSum_le a.bytes
  rw [a.sized] at low high
  have sums := foldl_adlerStep a.bytes 1 0 (by omega) (by rw [a.sized]; omega)
  have unfolded {sums : Nat × Nat} (walked : a.bytes.foldl adlerStep (1, 0) = sums) :
      adler32 a.bytes = if 65536 * sums.2 + sums.1 < 2 ^ 31 then
        ((65536 * sums.2 + sums.1 : Nat) : Int) else (65536 * sums.2 + sums.1 : Nat) - 2 ^ 32 := by
    subst walked
    rfl
  refine ⟨_, rfl, by omega, ?_⟩
  rw [unfolded sums, a.sized]

theorem adler32_eq_iff (a b : Address) : adler32 a.bytes = adler32 b.bytes ↔
    byteSum a.bytes = byteSum b.bytes ∧ weightedSum a.bytes = weightedSum b.bytes := by
  have lowA := byteSum_le a.bytes
  have lowB := byteSum_le b.bytes
  rw [a.sized] at lowA
  rw [b.sized] at lowB
  obtain ⟨sum, whole, small, same⟩ := adler32_address a
  obtain ⟨sum', whole', small', same'⟩ := adler32_address b
  rw [same, same']
  constructor
  · intro equal
    have sums : sum = sum' := by
      split at equal <;> split at equal <;> omega
    omega
  · rintro ⟨first, second⟩
    have sums : sum = sum' := by rw [whole, whole', first, second]
    rw [sums]

section Members

variable [Bls] {group : List Address}

structure Roster (group : List Address) (g : Group) : Prop where
  mem_iff : ∀ j, j ∈ g ↔ j ∈ group
  id : ∀ j member, g.lookup j = some member → member.id = Bls.genKeys (adler32 j.bytes)

theorem Roster.insert {g : Group} (roster : Roster group g) {j : Address} {sender : Member}
    (present : g.lookup j = some sender) {member : Member} (same : member.id = sender.id) :
    Roster group (g.insert j member) := by
  constructor
  · intro k
    rw [AList.mem_insert, ← roster.mem_iff]
    constructor
    · rintro (rfl | member)
      · rw [← AList.lookup_isSome, present]
        rfl
      · exact member
    · exact Or.inr
  · intro k other found
    by_cases here : k = j
    · subst here
      rw [AList.lookup_insert] at found
      cases found
      rw [same]
      exact roster.id k sender present
    · rw [AList.lookup_insert_ne here] at found
      exact roster.id k other found

theorem groupMembers_ok {g : Group} (made : groupMembers group ∅ = .ok g) :
    Roster group g ∧ ∀ j member, g.lookup j = some member → member.receivedShare = none ∧
      member.vvec = none := by
  have general (group : List Address) (m g : Group) (made : groupMembers group m = .ok g) :
      ∀ j, g.lookup j =
        if j ∈ group then some ⟨Bls.genKeys (adler32 j.bytes), none, none⟩ else m.lookup j := by
    induction group generalizing m with
    | nil =>
        cases made
        intro j
        rw [if_neg List.not_mem_nil]
    | cons oid group ih =>
        simp only [groupMembers] at made
        split at made
        · cases made
        · intro j
          rw [ih _ made]
          by_cases later : j ∈ group
          · rw [if_pos later, if_pos (List.mem_cons_of_mem _ later)]
          · rw [if_neg later]
            by_cases here : j = oid
            · subst here
              rw [if_pos List.mem_cons_self, AList.lookup_insert]
            · rw [if_neg (by simp [here, later]), AList.lookup_insert_ne here]
  have found := general group ∅ g made
  have entry {j : Address} {member : Member} (known : g.lookup j = some member) :
      member = ⟨Bls.genKeys (adler32 j.bytes), none, none⟩ := by
    rw [found] at known
    split at known
    · exact (Option.some.inj known).symm
    · rw [AList.lookup_empty] at known
      cases known
  refine ⟨⟨?_, fun j member known => by rw [entry known]⟩,
    fun j member known => by rw [entry known]; exact ⟨rfl, rfl⟩⟩
  intro j
  rw [← AList.lookup_isSome, found]
  by_cases listed : j ∈ group
  · simp [listed]
  · simp [listed]

namespace Consensus

structure Dictionaries (keys : List (Option Address)) (P : Option Address → Group → Prop)
    (members : AList fun _ : Option Address => Group) : Prop where
  mem_iff : ∀ key, key ∈ members ↔ key ∈ keys
  each : ∀ key g, members.lookup key = some g → P key g

omit [Bls] in
theorem Dictionaries.insert {keys : List (Option Address)} {P : Option Address → Group → Prop}
    {members : AList fun _ : Option Address => Group} (dictionaries : Dictionaries keys P members)
    {key : Option Address} {g g' : Group} (present : members.lookup key = some g) (holds : P key g') :
    Dictionaries keys P (members.insert key g') := by
  constructor
  · intro k
    rw [AList.mem_insert, ← dictionaries.mem_iff]
    constructor
    · rintro (rfl | member)
      · rw [← AList.lookup_isSome, present]
        rfl
      · exact member
    · exact Or.inr
  · intro k other found
    by_cases here : k = key
    · subst here
      rw [AList.lookup_insert] at found
      cases found
      exact holds
    · rw [AList.lookup_insert_ne here] at found
      exact dictionaries.each k other found

/-- The contribution passes the check of its receiver. -/
def Valid (share : DkgShare) (receiver : Member) : Prop :=
  verifyContributionShare receiver.id share.secretShareContrib share.verifVector = true

instance (share : DkgShare) (receiver : Member) : Decidable (Valid share receiver) :=
  inferInstanceAs (Decidable (_ = true))

def credited (share : DkgShare) (sender : Member) : Member :=
  { sender with receivedShare := some share.secretShareContrib, vvec := some share.verifVector }

def credit (share : DkgShare) (oid : Address) (sender receiver : Member) (g : Group) : Group :=
  if Valid share receiver then g.insert oid (credited share sender) else g

/-- A contribution that has not come before, as `verify_dkg_contribution` finds it. -/
structure Delivered (share : DkgShare) (members : AList fun _ : Option Address => Group)
    (oid destination : Address) (g : Group) (sender receiver : Member) : Prop where
  sourced : share.source = some oid
  addressed : share.destination = some destination
  dictionary : members.lookup (some destination) = some g
  sending : g.lookup oid = some sender
  receiving : g.lookup destination = some receiver
  new : sender.receivedShare = none

variable [Platform]

def withGroup (c : Consensus) (members : AList fun _ : Option Address => Group)
    (destination : Address) (g : Group) : Consensus :=
  { c with members := some (members.insert (some destination) g) }

theorem verifyDkgContribution_delivered {share : DkgShare} {c : Consensus}
    {members : AList fun _ : Option Address => Group} {oid destination : Address} {g : Group}
    {sender receiver : Member} (stored : c.members = some members)
    (delivered : Delivered share members oid destination g sender receiver) :
    verifyDkgContribution share c =
      if allSharesReceived (credit share oid sender receiver g) then
        finishDkg destination (credit share oid sender receiver g)
          (c.withGroup members destination (credit share oid sender receiver g))
      else .ok () (c.withGroup members destination (credit share oid sender receiver g)) := by
  simp only [verifyDkgContribution, stored, delivered.sourced, delivered.addressed,
    delivered.dictionary, Option.bind_some, delivered.sending, Option.map_some, delivered.new,
    storeContribution, delivered.receiving]
  rfl

theorem verifyDkgContribution_cases (share : DkgShare) (c : Consensus) :
    finish (verifyDkgContribution share c) = c ∨
      ∃ members oid destination g sender receiver, c.members = some members ∧
        Delivered share members oid destination g sender receiver := by
  rw [verifyDkgContribution]
  split
  · rename_i members oid destination stored source addressed
    cases dictionary : members.lookup (some destination) with
    | none => exact Or.inl rfl
    | some g =>
        cases sending : g.lookup oid with
        | none =>
            left
            simp only [Option.bind_some, sending, Option.map_none, finish]
        | some sender =>
            simp only [Option.bind_some, sending, Option.map_some]
            cases new : sender.receivedShare with
            | some _ => exact Or.inl rfl
            | none =>
                simp only [storeContribution]
                cases receiving : g.lookup destination with
                | none => exact Or.inl rfl
                | some receiver =>
                    right
                    exact ⟨members, oid, destination, g, sender, receiver, stored,
                      ⟨source, addressed, dictionary, sending, receiving, new⟩⟩
  · exact Or.inl rfl
  · exact Or.inl rfl

theorem preserves_members (destination : Address) (g : Group) :
    Preserves (fun c => (c.members, c.ownIds)) (finishDkg destination g) := by
  intro c
  simp only [finishDkg]
  split
  · rfl
  · split
    · rfl
    · split
      · rfl
      · split
        · rfl
        · rfl
      · rfl

structure Keeping (P : Option Address → Group → Prop) (ids : List Address) (c : Consensus) :
    Prop where
  own : c.ownIds = ids
  dictionaries : ∃ members, c.members = some members ∧ Dictionaries (ids.map some) P members

theorem Keeping.verify {P : Option Address → Group → Prop} {ids : List Address} {c : Consensus}
    {share : DkgShare} (keeping : Keeping P ids c)
    (stable : ∀ members oid destination g sender receiver, c.members = some members →
      Delivered share members oid destination g sender receiver → P (some destination) g →
        P (some destination) (credit share oid sender receiver g)) :
    Keeping P ids (finish (verifyDkgContribution share c)) := by
  obtain ⟨own, members, stored, dictionaries⟩ := keeping
  rcases verifyDkgContribution_cases share c with same | ⟨members', oid, destination, g, sender,
    receiver, stored', delivered⟩
  · rw [same]
    exact ⟨own, members, stored, dictionaries⟩
  · have run := verifyDkgContribution_delivered stored' delivered
    rw [stored, Option.some.injEq] at stored'
    subst stored'
    have holds := stable _ _ _ _ _ _ stored delivered (dictionaries.each _ _ delivered.dictionary)
    have inserted := dictionaries.insert delivered.dictionary holds
    rw [run]
    split
    · have same := preserves_members destination (credit share oid sender receiver g)
        (c.withGroup members destination (credit share oid sender receiver g))
      obtain ⟨sameMembers, sameIds⟩ := Prod.mk.inj same
      exact ⟨sameIds.trans own, _, sameMembers, inserted⟩
    · exact ⟨own, _, rfl, inserted⟩

omit [Bls] in
theorem mem_rows {K V : Type} [DecidableEq K] (dict : AList fun _ : K => V) (k : K) (v : V) :
    (k, v) ∈ rows dict ↔ dict.lookup k = some v := by
  rw [rows, (items_perm _).mem_iff, List.mem_map]
  constructor
  · rintro ⟨entry, member, same⟩
    cases same
    exact AList.mem_lookup_iff.mpr member
  · intro found
    exact ⟨⟨k, v⟩, AList.mem_lookup_iff.mp found, rfl⟩

omit [Bls] [Platform] in
theorem foldl_insert {ids : List Address} {g : Group} {P : Option Address → Group → Prop}
    (holds : ∀ key, P key g) : Dictionaries (ids.map some) P
      (ids.foldl (fun members nodeId => AList.insert (some nodeId) g members) ∅) := by
  have general (ids : List Address) (keys : List (Option Address))
      (members : AList fun _ : Option Address => Group) (dictionaries : Dictionaries keys P members) :
      Dictionaries (ids.map some ++ keys) P
        (ids.foldl (fun members nodeId => AList.insert (some nodeId) g members) members) := by
    induction ids generalizing keys members with
    | nil => exact dictionaries
    | cons oid ids ih =>
        have next : Dictionaries (some oid :: keys) P (AList.insert (some oid) g members) := by
          constructor
          · intro key
            rw [AList.mem_insert, dictionaries.mem_iff, List.mem_cons]
          · intro key other found
            by_cases here : key = some oid
            · subst here
              rw [AList.lookup_insert] at found
              cases found
              exact holds _
            · rw [AList.lookup_insert_ne here] at found
              exact dictionaries.each key other found
        have all := ih _ _ next
        constructor
        · intro key
          rw [List.foldl_cons, all.mem_iff]
          simp only [List.map_cons, List.cons_append, List.mem_append, List.mem_cons]
          tauto
        · exact all.each
  have all := general ids [] ∅ ⟨fun key => by simp, fun key other found => by cases found⟩
  rwa [List.append_nil] at all

section Start

abbrev Keeps {σ α : Type} (I : σ → Prop) (x : EStateM PyExc σ α) : Prop :=
  Advances (fun s t => I s → I t) x

instance instPreorderKeeps {σ : Type} (I : σ → Prop) : IsPreorder σ fun s t => I s → I t where
  refl _ holds := holds
  trans _ _ _ first second holds := second (first holds)

variable {I : Consensus → Prop} {Good : DkgShare → Prop}
  (step : ∀ share, Good share → Keeps I (verifyDkgContribution share))

include step

theorem contribute_keeps {nodeId : Address} {vVec : List Bytes}
    (made : ∀ oid contrib, Good ⟨some nodeId, some oid, contrib, vVec⟩)
    (contribs : List (Address × Bytes)) : Keeps I (contribute nodeId vVec contribs) := by
  induction contribs with
  | nil => exact Advances.pure _
  | cons contrib contribs ih =>
      obtain ⟨oid, contrib⟩ := contrib
      intro c
      simp only [contribute]
      split
      · exact Advances.bind (step _ (made oid contrib)) (fun _ => ih) c
      · have mapped : Keeps I (List.cons (⟨some nodeId, some oid, contrib, vVec⟩ : DkgShare) <$>
            contribute nodeId vVec contribs) := Advances.bind ih fun _ => Advances.pure _
        exact mapped c

variable [Threshold]

def vector (draw : Nat → Bytes × Bytes) : List Bytes :=
  ((List.range Threshold.threshold).map draw).map Prod.snd

theorem contributeAll_keeps {draw : Address → Nat → Bytes × Bytes} {nodes : List (Address × Group)}
    (made : ∀ node ∈ nodes, ∀ oid contrib,
      Good ⟨some node.1, some oid, contrib, vector (draw node.1)⟩) :
    Keeps I (contributeAll draw nodes) := by
  induction nodes with
  | nil => exact Advances.pure _
  | cons node nodes ih =>
      obtain ⟨first, others⟩ := List.forall_mem_cons.mp made
      apply Advances.ite
      · exact Advances.raised _
      · apply Advances.bind (contribute_keeps step first _)
        intro sent
        exact Advances.bind (ih others) fun more => Advances.pure _

theorem newDkg_keeps (draw : Address → Nat → Bytes × Bytes) {group ids : List Address} {g : Group}
    (made : ∀ nodeId ∈ ids, ∀ oid contrib,
      Good ⟨some nodeId, some oid, contrib, vector (draw nodeId)⟩)
    (members : groupMembers group ∅ = .ok g) (c : Consensus)
    (start : I { c with
      previousGroupKey := c.groupKey
      members := some (ids.foldl (fun members nodeId => AList.insert (some nodeId) g members) ∅)
      dkgGroup := group
      ownIds := ids }) :
    I (finish (newDkg draw group ids c)) := by
  simp only [newDkg, members]
  refine contributeAll_keeps step ?_ _ start
  intro node listed oid contrib
  obtain ⟨row, member, same⟩ := List.mem_filterMap.mp listed
  obtain ⟨key, known, shown⟩ := Option.map_eq_some_iff.mp same
  obtain ⟨nodeId, own, shared⟩ := List.mem_map.mp (((foldl_insert fun _ => rfl :
    Dictionaries (ids.map some) (fun _ h => h = g) _).mem_iff row.1).mp
      (AList.lookup_isSome.mp (by rw [(mem_rows _ row.1 row.2).mp member]; rfl)))
  rw [known, Option.some.injEq] at shared
  subst shared
  rw [← shown]
  exact made nodeId own oid contrib

end Start

def Entered (group : List Address) (c : Consensus) : Prop :=
  ∃ members keys, c.members = some members ∧ keys ≠ [] ∧
    Dictionaries keys (fun _ => Roster group) members

omit [Platform] in
theorem storeIds_entered {c d : Consensus} (stored : storeIds group c = .ok () d) :
    Entered group d := by
  simp only [storeIds] at stored
  split at stored
  · cases stored
  · rename_i g made
    cases stored
    refine ⟨_, [none], rfl, by simp, ?_, ?_⟩
    · intro key
      rw [AList.mem_insert, List.mem_singleton]
      simp
    · intro key other found
      by_cases here : key = none
      · subst here
        rw [AList.lookup_insert] at found
        cases found
        exact (groupMembers_ok made).1
      · rw [AList.lookup_insert_ne here] at found
        cases found

omit [Platform] in
theorem roster_credit {share : DkgShare} {members : AList fun _ : Option Address => Group}
    {oid destination : Address} {g : Group} {sender receiver : Member}
    (delivered : Delivered share members oid destination g sender receiver)
    (roster : Roster group g) : Roster group (credit share oid sender receiver g) := by
  rw [credit]
  split
  · exact roster.insert delivered.sending rfl
  · exact roster

theorem newDkg_entered [Threshold] {draw : Address → Nat → Bytes × Bytes} {ids : List Address}
    {sent : List DkgShare} {c d : Consensus} (some : ids ≠ [])
    (entered : newDkg draw group ids c = .ok sent d) : Entered group d := by
  cases made : groupMembers group ∅ with
  | error e =>
      simp only [newDkg, made, if_neg some] at entered
      cases entered
  | ok g =>
      have step (share : DkgShare) (_ : True) :
          Keeps (Keeping (fun _ => Roster group) ids) (verifyDkgContribution share) :=
        fun c keeping => keeping.verify fun _ _ _ _ _ _ _ delivered => roster_credit delivered
      have kept := newDkg_keeps step draw (fun _ _ _ _ => trivial) made c
        ⟨rfl, _, rfl, foldl_insert fun _ => (groupMembers_ok made).1⟩
      rw [entered] at kept
      obtain ⟨-, members, stored, dictionaries⟩ := kept
      exact ⟨members, _, stored, by simp [some], dictionaries⟩

theorem Entered.memberId {c : Consensus} (entered : Entered group c) {a : Address}
    (listed : a ∈ group) : c.memberId (some a) = .ok (Bls.genKeys (adler32 a.bytes)) := by
  obtain ⟨members, keys, stored, some, dictionaries⟩ := entered
  simp only [Consensus.memberId, stored]
  cases walked : rows members with
  | nil =>
      obtain ⟨key, rest, rfl⟩ := List.exists_cons_of_ne_nil some
      have present := (dictionaries.mem_iff key).mpr List.mem_cons_self
      obtain ⟨g, found⟩ := Option.isSome_iff_exists.mp (AList.lookup_isSome.mpr present)
      have member := (mem_rows members key g).mpr found
      rw [walked] at member
      cases member
  | cons row others =>
      obtain ⟨key, g⟩ := row
      have found : members.lookup key = .some g := by
        rw [← mem_rows, walked]
        exact List.mem_cons_self
      have roster := dictionaries.each key g found
      obtain ⟨member, known⟩ := Option.isSome_iff_exists.mp
        (AList.lookup_isSome.mpr ((roster.mem_iff a).mpr listed))
      simp only [Option.bind_some, known, roster.id a member known]

section Shares

variable [Hashlib] [Threshold] {msg : Bytes} {shares : List Share} {c : Consensus}

theorem received_ids (c : Consensus) (shares : List Share) :
    ∀ id ∈ (received msg c shares).sharesIds,
      id ∈ c.sharesIds ∨ ∃ share ∈ shares, c.memberId share.source = .ok id := by
  induction shares generalizing c with
  | nil => exact fun id member => Or.inl member
  | cons share shares ih =>
      obtain ⟨r, stored, stores⟩ := storeShare_stores share msg c
      have one : (∀ a, (finish r).memberId a = c.memberId a) ∧ ∀ id ∈ (finish r).sharesIds,
          id ∈ c.sharesIds ∨ c.memberId share.source = .ok id := by
        have added {id : Bytes} (known : c.memberId share.source = .ok id) (signature : Bytes) :
            ∀ other ∈ (c.kept id signature).sharesIds,
              other ∈ c.sharesIds ∨ c.memberId share.source = .ok other := by
          intro other member
          rcases List.mem_append.mp member with earlier | last
          · exact Or.inl earlier
          · rw [List.mem_singleton.mp last]
            exact Or.inr known
        cases stores with
        | unknown failed => exact ⟨fun _ => rfl, fun _ => Or.inl⟩
        | ignored known useless => exact ⟨fun _ => rfl, fun _ => Or.inl⟩
        | waits known new lacking few => exact ⟨fun _ => rfl, added known share.signature⟩
        | fails known new lacking enough wrong => exact ⟨fun _ => rfl, added known share.signature⟩
        | completes known new lacking enough combines => exact ⟨fun _ => rfl, added known share.signature⟩
      intro id member
      rw [received_cons, stored] at member
      rcases ih _ id member with first | ⟨other, listed, known⟩
      · rcases one.2 id first with earlier | known
        · exact Or.inl earlier
        · exact Or.inr ⟨share, List.mem_cons_self, known⟩
      · rw [one.1] at known
        exact Or.inr ⟨other, List.mem_cons_of_mem _ listed, known⟩

/-- The ids of the members differ, in each dictionary and for `store_share`, and after any shares
of other members in a round the share of a member is not taken for one of theirs. -/
structure ToldApart (group : List Address) (c : Consensus) : Prop where
  points : ∀ members, c.members = some members → ∀ key g, members.lookup key = some g →
    ∀ a ∈ group, ∀ b ∈ group, ∀ x y, g.lookup a = some x → g.lookup b = some y →
      x.id = y.id → a = b
  ids : ∀ a ∈ group, ∀ b ∈ group, c.memberId (some a) = c.memberId (some b) → a = b
  stored : ∀ msg shares, (∀ share ∈ shares, ∃ a ∈ group, share.source = some a) →
    ∀ share, ∀ b ∈ group, share.source = some b → (∀ other ∈ shares, other.source ≠ some b) →
      (received msg c.resetBls shares).verified = false →
      ∃ id, c.memberId (some b) = .ok id ∧
        (finish (storeShare share msg (received msg c.resetBls shares))).sharesIds =
          (received msg c.resetBls shares).sharesIds ++ [id]

/-- The addresses differ in their sum of bytes or in their weighted sum of bytes. -/
def Spread (group : List Address) : Prop :=
  ∀ a ∈ group, ∀ b ∈ group, a ≠ b →
    byteSum a.bytes ≠ byteSum b.bytes ∨ weightedSum a.bytes ≠ weightedSum b.bytes

omit [Bls] [Platform] [Hashlib] [Threshold] in
theorem Spread.eq (spread : Spread group) {a b : Address} (first : a ∈ group) (second : b ∈ group)
    (same : adler32 a.bytes = adler32 b.bytes) : a = b := by
  by_contra differ
  obtain ⟨sums, weighted⟩ := (adler32_eq_iff a b).mp same
  rcases spread a first b second differ with other | other
  · exact other sums
  · exact other weighted

theorem memberId_received (c : Consensus) (shares : List Share) (a : Option Address) :
    (received msg c shares).memberId a = c.memberId a := by
  simp only [memberId, (received_frame shares).2]

theorem Entered.toldApart (injective : Function.Injective Bls.genKeys) (entered : Entered group c)
    (spread : Spread group) : ToldApart group c := by
  constructor
  · intro members stored key g found a first b second x y entryX entryY same
    obtain ⟨members', keys, stored', -, dictionaries⟩ := entered
    rw [stored, Option.some.injEq] at stored'
    subst stored'
    have roster := dictionaries.each key g found
    rw [roster.id a x entryX, roster.id b y entryY] at same
    exact spread.eq first second (injective same)
  · intro a first b second same
    rw [entered.memberId first, entered.memberId second, Except.ok.injEq] at same
    exact spread.eq first second (injective same)
  · intro msg shares sources share b listed source others lacking
    have known := entered.memberId listed
    refine ⟨_, known, ?_⟩
    have new : Bls.genKeys (adler32 b.bytes) ∉ (received msg c.resetBls shares).sharesIds := by
      intro member
      rcases received_ids c.resetBls shares _ member with none | ⟨other, sent, same⟩
      · cases none
      · obtain ⟨a, first, sourced⟩ := sources other sent
        have idA : c.resetBls.memberId other.source = c.memberId (some a) := by
          rw [sourced]
          rfl
        rw [idA, entered.memberId first, Except.ok.injEq] at same
        have equal := spread.eq first listed (injective same)
        rw [equal] at sourced
        exact others other sent sourced
    have here : (received msg c.resetBls shares).memberId share.source =
        .ok (Bls.genKeys (adler32 b.bytes)) := by
      rw [memberId_received, source]
      exact known
    obtain ⟨r, run, stores⟩ := storeShare_stores share msg (received msg c.resetBls shares)
    rw [run]
    have same {id : Bytes}
        (found : (received msg c.resetBls shares).memberId share.source = .ok id) :
        id = Bls.genKeys (adler32 b.bytes) := by
      rw [here] at found
      exact (Except.ok.inj found).symm
    cases stores with
    | unknown failed =>
        rw [here] at failed
        cases failed
    | ignored found useless =>
        rcases useless with old | ready
        · rw [same found] at old
          exact absurd old new
        · rw [lacking] at ready
          cases ready
    | waits found => rw [same found]; rfl
    | fails found => rw [same found]; rfl
    | completes found => rw [same found]; rfl

/-- The ids of a group are distinct, and no share is dropped for that of another member, exactly
where no two addresses have both sums of bytes in common. -/
theorem told_apart_iff (injective : Function.Injective Bls.genKeys) (group : List Address)
    (c d : Consensus) (entered : storeIds group c = .ok () d ∨ ∃ draw ids sent, ids ≠ [] ∧
      newDkg draw group ids c = .ok sent d) :
    ToldApart group d ↔ Spread group := by
  have known : Entered group d := by
    rcases entered with stored | ⟨draw, ids, sent, some, started⟩
    · exact storeIds_entered stored
    · exact newDkg_entered some started
  constructor
  · intro apart a first b second differ
    by_contra same
    rw [not_or, not_not, not_not, ← adler32_eq_iff] at same
    apply differ
    apply apart.ids a first b second
    rw [known.memberId first, known.memberId second, same]
  · exact known.toldApart injective

end Shares

end Consensus

end Members

namespace Sample.Twins

open Sample Consensus

scoped instance : Hashlib := ⟨Sha256.sha256, Sha256.sha256_length⟩

scoped instance : Threshold := ⟨2⟩

def seedKey (n : Int) : Bytes := (if n < 0 then 0x2d else 0x2b) :: intToBigEndian n.natAbs

theorem seedKey_injective : Function.Injective seedKey := by
  intro m n same
  obtain ⟨signs, digits⟩ := List.cons.inj same
  have sizes := intToBigEndian_inj digits
  split at signs <;> split at signs
  · omega
  · cases signs
  · cases signs
  · omega

scoped instance : Bls where
  genKeys := seedKey
  secretKeyShare key _ := key
  publicKeyShare _ _ := []
  getPublicKey key := key
  publicKeyIsEqual x y := x = y
  secretKeyAdd x _ := x
  publicKeyAdd x _ := x
  sign digest _ := digest
  verify digest sig key := sig = digest ++ key
  recover _ shares := shares.headD []

theorem zero_bound : 0 < 2 ^ Family.v4.width := by decide

def consensus : Consensus where
  currentRandomNo := []
  groupSig := []
  shares := []
  sharesIds := []
  verified := true
  nextSigner := ⟨.v4, 0, zero_bound⟩
  dkgGroup := []
  ownIds := []
  secretKeys := ∅
  groupKey := [0x31]
  previousGroupKey := [0x31]
  msg := []
  members := none

instance (group : List Address) : Decidable (Spread group) :=
  inferInstanceAs (Decidable (∀ a ∈ group, ∀ b ∈ group, a ≠ b → _))

theorem alice_bob_apart : ∃ d, storeIds [alice, bob] consensus = .ok () d ∧
    ToldApart [alice, bob] d := by
  refine ⟨_, rfl, ?_⟩
  apply (told_apart_iff seedKey_injective [alice, bob] consensus _ (Or.inl rfl)).mpr
  decide

def castor : Address := ⟨[1, 0, 1] ++ List.replicate 17 0, rfl⟩

def pollux : Address := ⟨[0, 2, 0] ++ List.replicate 17 0, rfl⟩

def share (address : Address) : Share := ⟨some address, [0x30], 1⟩

/-- The share of the second one is dropped for that of the first one. -/
theorem twins_confused : Function.Injective Bls.genKeys ∧ castor ≠ pollux ∧
    ∃ d, storeIds [castor, pollux] consensus = .ok () d ∧
      d.memberId (some castor) = d.memberId (some pollux) ∧
      (received [] d.resetBls [share castor]).sharesIds.length = 1 ∧
      (received [] d.resetBls [share castor, share pollux]).sharesIds.length = 1 :=
  ⟨seedKey_injective, by decide, _, rfl, by decide, by decide, by decide⟩

end Sample.Twins

end IPchain
