import IPchain.Genesis
import IPchain.Lib.Sha256
import IPchain.Rounds

/-! What shares bring a round to, whatever some of them raise. -/

namespace IPchain

open Lib Platform

namespace Consensus

section Shares

variable [Platform] [Hashlib] [Bls] [Threshold] {msg : Bytes} {c d : Consensus} {share : Share}

open Threshold

/-- The consensus after shares for a message. What one of them raises ends with it. -/
def received (msg : Bytes) (c : Consensus) (shares : List Share) : Consensus :=
  shares.foldl (fun c share => finish (storeShare share msg c)) c

theorem received_append (shares others : List Share) :
    received msg c (shares ++ others) = received msg (received msg c shares) others :=
  List.foldl_append

theorem received_cons (share : Share) (shares : List Share) :
    received msg c (share :: shares) = received msg (finish (storeShare share msg c)) shares := rfl

def kept (c : Consensus) (id signature : Bytes) : Consensus :=
  { c with sharesIds := c.sharesIds ++ [id], shares := c.shares ++ [signature] }

def combined (c : Consensus) : Consensus :=
  { c with groupSig := Bls.recover c.sharesIds c.shares }

def completed (c : Consensus) : Consensus :=
  { c.combined with verified := true, currentRandomNo := hexdigest c.combined.groupSig }

/-- Whether the shares of the round combine to the group signature of the message. -/
def Combines (msg : Bytes) (c : Consensus) : Prop :=
  c.combined.groupSig ≠ [] ∧ Bls.verify (hexdigest msg) c.combined.groupSig c.groupKey = true

inductive Stores (share : Share) (msg : Bytes) (c : Consensus) :
    EStateM.Result PyExc Consensus Bool → Prop
  | unknown {e : PyExc} (failed : c.memberId share.source = .error e) :
      Stores share msg c (.error e c)
  | ignored {id : Bytes} (known : c.memberId share.source = .ok id)
      (useless : id ∈ c.sharesIds ∨ c.verified = true) : Stores share msg c (.ok false c)
  | waits {id : Bytes} (known : c.memberId share.source = .ok id) (new : id ∉ c.sharesIds)
      (lacking : c.verified = false) (few : c.sharesIds.length + 1 < threshold) :
      Stores share msg c (.ok false (c.kept id share.signature))
  | fails {id : Bytes} {e : PyExc} (known : c.memberId share.source = .ok id)
      (new : id ∉ c.sharesIds) (lacking : c.verified = false)
      (enough : threshold ≤ c.sharesIds.length + 1)
      (wrong : ¬ Combines msg (c.kept id share.signature)) :
      Stores share msg c (.error e (c.kept id share.signature).combined)
  | completes {id : Bytes} (known : c.memberId share.source = .ok id) (new : id ∉ c.sharesIds)
      (lacking : c.verified = false) (enough : threshold ≤ c.sharesIds.length + 1)
      (combines : Combines msg (c.kept id share.signature)) :
      Stores share msg c (.ok true (c.kept id share.signature).completed)

theorem storeShare_stores (share : Share) (msg : Bytes) (c : Consensus) :
    ∃ r, storeShare share msg c = r ∧ Stores share msg c r := by
  refine ⟨_, rfl, ?_⟩
  cases known : c.memberId share.source with
  | error e =>
      simp only [storeShare, known]
      exact .unknown known
  | ok id =>
      simp only [storeShare, known]
      split
      · rename_i new
        have length : (c.sharesIds ++ [id]).length = c.sharesIds.length + 1 := by simp
        split
        · rename_i enough
          rw [length] at enough
          split
          · rename_i empty
            exact .fails known new.1 new.2 enough fun combines => combines.1 empty
          · rename_i some
            split
            · rename_i valid
              exact .completes known new.1 new.2 enough ⟨some, valid⟩
            · rename_i invalid
              exact .fails known new.1 new.2 enough fun combines => invalid combines.2
        · rename_i few
          rw [length] at few
          exact .waits known new.1 new.2 (Nat.lt_of_not_le few)
      · rename_i old
        apply Stores.ignored known
        by_cases member : id ∈ c.sharesIds
        · exact Or.inl member
        · refine Or.inr (Bool.of_not_eq_false fun lacking => old ⟨member, lacking⟩)

/-- The ids of the round are different, and a round that is ready has come to a signature. -/
structure Tallied (msg : Bytes) (c : Consensus) : Prop where
  nodup : c.sharesIds.Nodup
  paired : c.shares.length = c.sharesIds.length
  ready : c.verified = true → threshold ≤ c.sharesIds.length ∧
    Bls.verify (hexdigest msg) c.groupSig c.groupKey = true ∧
      c.currentRandomNo = hexdigest c.groupSig

omit [Platform] [Hashlib] [Bls] [Threshold] in
theorem kept_pairs {id : Bytes} (signature : Bytes) (nodup : c.sharesIds.Nodup)
    (paired : c.shares.length = c.sharesIds.length) (new : id ∉ c.sharesIds) :
    (c.kept id signature).sharesIds.Nodup ∧
      (c.kept id signature).shares.length = (c.kept id signature).sharesIds.length := by
  constructor
  · apply List.nodup_append.mpr
    refine ⟨nodup, List.nodup_singleton id, ?_⟩
    intro x member y single
    rw [List.mem_singleton.mp single]
    intro same
    exact new (same ▸ member)
  · simp [kept, paired]

theorem Tallied.step (tallied : Tallied msg c) (share : Share) :
    Tallied msg (finish (storeShare share msg c)) := by
  obtain ⟨r, stored, stores⟩ := storeShare_stores share msg c
  rw [stored]
  cases stores with
  | unknown failed => exact tallied
  | ignored known useless => exact tallied
  | waits known new lacking few =>
      obtain ⟨nodup, paired⟩ := kept_pairs share.signature tallied.nodup
        tallied.paired new
      exact ⟨nodup, paired, fun ready => absurd (lacking.symm.trans ready) (by decide)⟩
  | fails known new lacking enough wrong =>
      obtain ⟨nodup, paired⟩ := kept_pairs share.signature tallied.nodup
        tallied.paired new
      exact ⟨nodup, paired, fun ready => absurd (lacking.symm.trans ready) (by decide)⟩
  | completes known new lacking enough combines =>
      obtain ⟨nodup, paired⟩ := kept_pairs share.signature tallied.nodup
        tallied.paired new
      refine ⟨nodup, paired, fun _ => ⟨?_, combines.2, rfl⟩⟩
      exact enough.trans (by simp [finish, completed, combined, kept])

theorem received_tallied (tallied : Tallied msg c) (shares : List Share) :
    Tallied msg (received msg c shares) := by
  induction shares generalizing c with
  | nil => exact tallied
  | cons share shares ih => exact ih (tallied.step share)

omit [Platform] in
theorem tallied_resetBls (c : Consensus) : Tallied msg c.resetBls :=
  ⟨List.nodup_nil, rfl, fun ready => absurd ready Bool.false_ne_true⟩

theorem received_frame (shares : List Share) :
    (received msg c shares).groupKey = c.groupKey ∧
      (received msg c shares).members = c.members := by
  induction shares generalizing c with
  | nil => exact ⟨rfl, rfl⟩
  | cons share shares ih =>
      obtain ⟨r, stored, stores⟩ := storeShare_stores share msg c
      rw [received_cons, ih.1, ih.2, stored]
      cases stores with
      | unknown failed => exact ⟨rfl, rfl⟩
      | ignored known useless => exact ⟨rfl, rfl⟩
      | waits known new lacking few => exact ⟨rfl, rfl⟩
      | fails known new lacking enough wrong => exact ⟨rfl, rfl⟩
      | completes known new lacking enough combines => exact ⟨rfl, rfl⟩

theorem received_of_ready (ready : c.verified = true) (shares : List Share) :
    received msg c shares = c := by
  induction shares with
  | nil => rfl
  | cons share shares ih =>
      have busy {Q : Prop} (lacking : c.verified = false) : Q :=
        absurd (ready.symm.trans lacking) (by decide)
      obtain ⟨r, stored, stores⟩ := storeShare_stores share msg c
      rw [received_cons, stored]
      cases stores with
      | unknown failed => exact ih
      | ignored known useless => exact ih
      | waits known new lacking few => exact busy lacking
      | fails known new lacking enough wrong => exact busy lacking
      | completes known new lacking enough combines => exact busy lacking

/-- Two nodes that come to be ready for a message by any shares agree, each by the shares of
enough different ids, and no later share changes what they have come to. -/
theorem ready_agree (unique : ∀ digest key sig sig', Bls.verify digest sig key = true →
      Bls.verify digest sig' key = true → sig = sig') {c c' d d' : Consensus}
    (key : c.groupKey = c'.groupKey) {shares shares' : List Share}
    (gathered : received msg c.resetBls shares = d)
    (gathered' : received msg c'.resetBls shares' = d')
    (ready : d.sharesReady = true) (ready' : d'.sharesReady = true) :
    d.groupSig = d'.groupSig ∧ d.currentRandomNo = d'.currentRandomNo ∧
      ∀ e, e = d ∨ e = d' → threshold ≤ e.shares.length ∧
        e.shares.length = e.sharesIds.length ∧ e.sharesIds.Nodup ∧
          ∀ msg' later, received msg' e later = e := by
  have tallied : Tallied msg d := gathered ▸ received_tallied (tallied_resetBls c) shares
  have tallied' : Tallied msg d' := gathered' ▸ received_tallied (tallied_resetBls c') shares'
  obtain ⟨-, valid, random⟩ := tallied.ready ready
  obtain ⟨-, valid', random'⟩ := tallied'.ready ready'
  have keys : d.groupKey = d'.groupKey := by
    rw [← gathered, ← gathered', (received_frame shares).1, (received_frame shares').1]
    exact key
  have same : d.groupSig = d'.groupSig := unique _ _ _ _ (keys ▸ valid) valid'
  refine ⟨same, by rw [random, random', same], ?_⟩
  have each {e : Consensus} (tallied : Tallied msg e) (ready : e.verified = true) :
      threshold ≤ e.shares.length ∧ e.shares.length = e.sharesIds.length ∧ e.sharesIds.Nodup ∧
        ∀ msg' later, received msg' e later = e := by
    refine ⟨?_, tallied.paired, tallied.nodup, fun msg' later => received_of_ready ready later⟩
    rw [tallied.paired]
    exact (tallied.ready ready).1
  intro e either
  rcases either with rfl | rfl
  · exact each tallied ready
  · exact each tallied' ready'

/-- What bls.exe makes of shares: of enough valid ones the group signature, and nothing valid
where one of them is not. -/
structure Recovers (msg key : Bytes) (valid : Bytes → Bytes → Prop) : Prop where
  good : ∀ ids sigs, ids.Nodup → sigs.length = ids.length → ids ≠ [] → threshold ≤ ids.length →
    (∀ pair ∈ ids.zip sigs, valid pair.1 pair.2) →
      Bls.recover ids sigs ≠ [] ∧ Bls.verify (hexdigest msg) (Bls.recover ids sigs) key = true
  bad : ∀ ids sigs, (∃ pair ∈ ids.zip sigs, ¬ valid pair.1 pair.2) →
    ¬ (Bls.recover ids sigs ≠ [] ∧ Bls.verify (hexdigest msg) (Bls.recover ids sigs) key = true)

def firsts (pairs : List (Bytes × Bytes)) : List (Bytes × Bytes) :=
  pairs.foldl (fun kept pair => if pair.1 ∈ kept.map Prod.fst then kept else kept ++ [pair]) []

omit [Platform] [Hashlib] [Bls] [Threshold] in
theorem firsts_append (pairs : List (Bytes × Bytes)) (pair : Bytes × Bytes) :
    firsts (pairs ++ [pair]) =
      if pair.1 ∈ (firsts pairs).map Prod.fst then firsts pairs else firsts pairs ++ [pair] :=
  List.foldl_append

def offered (c : Consensus) (shares : List Share) : List (Bytes × Bytes) :=
  shares.filterMap fun share =>
    match c.memberId share.source with
    | .ok id => some (id, share.signature)
    | .error _ => none

def needed : Nat := max 1 threshold

/-- Every share comes from a member, and if enough members send one, the first ones are
valid. -/
structure Unspoilt (valid : Bytes → Bytes → Prop) (c : Consensus) (shares : List Share) :
    Prop where
  known : ∀ share ∈ shares, ∃ id, c.memberId share.source = .ok id
  sound : needed ≤ (firsts (c.offered shares)).length →
    ∀ pair ∈ (firsts (c.offered shares)).take needed, valid pair.1 pair.2

/-- No share of the round raises, and once enough valid ones are among those that it has
stored, the round is ready with the group signature. -/
def Unblocked (valid : Bytes → Bytes → Prop) (msg : Bytes) (c : Consensus)
    (shares : List Share) : Prop :=
  ∀ before share, before ++ [share] <+: shares →
    ∃ b d, storeShare share msg (received msg c before) = .ok b d ∧
      ∀ picked, picked ⊆ d.sharesIds.zip d.shares → (picked.map Prod.fst).Nodup →
        threshold ≤ picked.length → (∀ pair ∈ picked, valid pair.1 pair.2) →
          d.sharesReady = true ∧ Bls.verify (hexdigest msg) d.groupSig d.groupKey = true

def Reaches (msg : Bytes) (pairs : List (Bytes × Bytes)) (c d : Consensus) : Prop :=
  if pairs.length < needed then
    d = { c with sharesIds := pairs.map Prod.fst, shares := pairs.map Prod.snd }
  else d.verified = true ∧ Bls.verify (hexdigest msg) d.groupSig d.groupKey = true

variable {valid : Bytes → Bytes → Prop} {shares : List Share}

omit [Hashlib] [Bls] [Threshold] in
variable (shares) in
theorem offered_append (known : ∃ id, c.memberId share.source = .ok id) :
    ∃ id, c.memberId share.source = .ok id ∧
      c.offered (shares ++ [share]) = c.offered shares ++ [(id, share.signature)] := by
  obtain ⟨id, known⟩ := known
  refine ⟨id, known, ?_⟩
  simp only [offered, List.filterMap_append, List.filterMap_cons, known, List.filterMap_nil]

omit [Platform] [Hashlib] [Bls] [Threshold] in
theorem zip_firsts (pairs : List (Bytes × Bytes)) :
    (pairs.map Prod.fst).zip (pairs.map Prod.snd) = pairs := by
  rw [← List.unzip_fst, ← List.unzip_snd]
  exact List.zip_unzip pairs

omit [Platform] [Hashlib] [Bls] [Threshold] in
theorem firsts_nodup (pairs : List (Bytes × Bytes)) : ((firsts pairs).map Prod.fst).Nodup := by
  induction pairs using List.reverseRecOn with
  | nil => exact List.nodup_nil
  | append_singleton pairs pair ih =>
      rw [firsts_append]
      split
      · exact ih
      · rename_i new
        rw [List.map_append]
        apply List.nodup_append.mpr
        refine ⟨ih, List.nodup_singleton _, ?_⟩
        intro x member y single same
        rw [List.map_singleton, List.mem_singleton] at single
        exact new (single ▸ same ▸ member)

omit [Platform] in
theorem Recovers.combines {key : Bytes} (recovers : Recovers msg key valid)
    {pairs : List (Bytes × Bytes)} (some : pairs ≠ []) (nodup : (pairs.map Prod.fst).Nodup)
    (enough : threshold ≤ pairs.length) (sound : ∀ pair ∈ pairs, valid pair.1 pair.2) :
    Bls.recover (pairs.map Prod.fst) (pairs.map Prod.snd) ≠ [] ∧ Bls.verify (hexdigest msg)
      (Bls.recover (pairs.map Prod.fst) (pairs.map Prod.snd)) key = true := by
  apply recovers.good _ _ nodup
  · rw [List.length_map, List.length_map]
  · exact fun none => some (List.map_eq_nil_iff.mp none)
  · rw [List.length_map]
    exact enough
  · rw [zip_firsts]
    exact sound

theorem Reaches.step (recovers : Recovers msg c.groupKey valid) (lacking : c.verified = false)
    (reaches : Reaches msg (firsts (c.offered shares)) c d) (members : d.members = c.members)
    (known : ∃ id, c.memberId share.source = .ok id)
    (sound : needed ≤ (firsts (c.offered (shares ++ [share]))).length →
      ∀ pair ∈ (firsts (c.offered (shares ++ [share]))).take needed, valid pair.1 pair.2) :
    ∃ b e, storeShare share msg d = .ok b e ∧
      Reaches msg (firsts (c.offered (shares ++ [share]))) c e := by
  obtain ⟨id, known, offers⟩ := offered_append shares known
  have known : d.memberId share.source = .ok id := by
    rw [← known, memberId, memberId, members]
  rw [offers, firsts_append] at sound ⊢
  obtain ⟨r, stored, stores⟩ := storeShare_stores share msg d
  rw [stored]
  by_cases few : (firsts (c.offered shares)).length < needed
  · rw [Reaches, if_pos few] at reaches
    subst reaches
    cases stores with
    | unknown failed =>
        rw [known] at failed
        cases failed
    | ignored known' useless =>
        rw [known] at known'
        cases known'
        rcases useless with old | ready
        · rw [if_pos old]
          refine ⟨false, _, rfl, ?_⟩
          rw [Reaches, if_pos few]
        · exact absurd (lacking.symm.trans ready) (by decide)
    | waits known' new lacking' few' =>
        rw [known] at known'
        cases known'
        rw [if_neg new]
        refine ⟨false, _, rfl, ?_⟩
        have short : (firsts (c.offered shares) ++ [(id, share.signature)]).length < needed := by
          rw [List.length_map] at few'
          rw [List.length_append, List.length_singleton, needed]
          omega
        rw [Reaches, if_pos short, List.map_append, List.map_append]
        rfl
    | fails known' new lacking' enough wrong =>
        rw [known] at known'
        cases known'
        rw [if_neg new] at sound
        rw [List.length_map] at enough
        have length : (firsts (c.offered shares) ++ [(id, share.signature)]).length = needed := by
          rw [List.length_append, List.length_singleton]
          apply le_antisymm few
          rw [needed]
          omega
        have whole := List.take_of_length_le (Nat.le_of_eq length)
        rw [whole] at sound
        have pairs := firsts_nodup (c.offered shares ++ [(id, share.signature)])
        rw [firsts_append, if_neg new] at pairs
        have combines := recovers.combines (List.append_ne_nil_of_right_ne_nil _ (by simp)) pairs
          (by rw [length, needed]; exact Nat.le_max_right _ _) (sound (Nat.le_of_eq length.symm))
        rw [List.map_append, List.map_append] at combines
        exact absurd combines wrong
    | completes known' new lacking' enough combines =>
        rw [known] at known'
        cases known'
        rw [if_neg new]
        refine ⟨true, _, rfl, ?_⟩
        rw [List.length_map] at enough
        have full : ¬ (firsts (c.offered shares) ++ [(id, share.signature)]).length < needed := by
          rw [List.length_append, List.length_singleton, needed]
          omega
        rw [Reaches, if_neg full]
        exact ⟨rfl, combines.2⟩
  · rw [Reaches, if_neg few] at reaches
    have full : ¬ (if (id, share.signature).1 ∈ (firsts (c.offered shares)).map Prod.fst then
        firsts (c.offered shares)
      else firsts (c.offered shares) ++ [(id, share.signature)]).length < needed := by
      split
      · exact few
      · rw [List.length_append]
        omega
    cases stores with
    | unknown failed =>
        rw [known] at failed
        cases failed
    | ignored known' useless =>
        refine ⟨false, d, rfl, ?_⟩
        rw [Reaches, if_neg full]
        exact reaches
    | waits known' new lacking' few' => exact absurd (lacking'.symm.trans reaches.1) (by decide)
    | fails known' new lacking' enough wrong =>
        exact absurd (lacking'.symm.trans reaches.1) (by decide)
    | completes known' new lacking' enough combines =>
        exact absurd (lacking'.symm.trans reaches.1) (by decide)

omit [Platform] [Hashlib] [Bls] [Threshold] in
theorem firsts_prefix (pairs : List (Bytes × Bytes)) (pair : Bytes × Bytes) :
    firsts pairs <+: firsts (pairs ++ [pair]) := by
  rw [firsts_append]
  split
  · exact List.prefix_refl _
  · exact List.prefix_append _ _

omit [Hashlib] [Bls] in
theorem Unspoilt.before (unspoilt : Unspoilt valid c (shares ++ [share])) :
    Unspoilt valid c shares := by
  have known := unspoilt.known share (List.mem_append_right _ List.mem_cons_self)
  obtain ⟨id, -, offers⟩ := offered_append shares known
  have longer := firsts_prefix (c.offered shares) (id, share.signature)
  rw [← offers] at longer
  refine ⟨fun other member => unspoilt.known other (List.mem_append_left _ member), ?_⟩
  intro enough pair member
  apply unspoilt.sound (enough.trans longer.length_le)
  obtain ⟨rest, same⟩ := longer
  rw [← same, List.take_append_of_le_length enough]
  exact member

theorem Unspoilt.reaches (recovers : Recovers msg c.groupKey valid)
    (fresh : c.sharesIds = [] ∧ c.shares = [] ∧ c.verified = false)
    (unspoilt : Unspoilt valid c shares) :
    Reaches msg (firsts (c.offered shares)) c (received msg c shares) := by
  induction shares using List.reverseRecOn with
  | nil =>
      have short : (firsts (c.offered [])).length < needed := Nat.lt_of_lt_of_le Nat.zero_lt_one
        (Nat.le_max_left _ _)
      rw [Reaches, if_pos short]
      have same (ids shares : List Bytes) (first : c.sharesIds = ids) (second : c.shares = shares) :
          c = { c with sharesIds := ids, shares := shares } := by
        subst first second
        rfl
      exact same [] [] fresh.1 fresh.2.1
  | append_singleton shares share ih =>
      have known := unspoilt.known share (List.mem_append_right _ List.mem_cons_self)
      obtain ⟨b, e, stored, reaches⟩ := (ih unspoilt.before).step recovers fresh.2.2
        (received_frame shares).2 known unspoilt.sound
      rw [received_append, received_cons, stored]
      exact reaches

omit [Hashlib] [Bls] in
theorem Unspoilt.earlier {rest : List Share} (unspoilt : Unspoilt valid c (shares ++ rest)) :
    Unspoilt valid c shares := by
  induction rest using List.reverseRecOn with
  | nil => rwa [List.append_nil] at unspoilt
  | append_singleton rest share ih =>
      rw [← List.append_assoc] at unspoilt
      exact ih unspoilt.before

omit [Platform] in
theorem Reaches.ready {pairs : List (Bytes × Bytes)} (reaches : Reaches msg pairs c d)
    (some : pairs ≠ []) {picked : List (Bytes × Bytes)}
    (stored : picked ⊆ d.sharesIds.zip d.shares) (different : (picked.map Prod.fst).Nodup)
    (enough : threshold ≤ picked.length) :
    d.verified = true ∧ Bls.verify (hexdigest msg) d.groupSig d.groupKey = true := by
  by_cases few : pairs.length < needed
  · exfalso
    rw [Reaches, if_pos few] at reaches
    subst reaches
    rw [zip_firsts] at stored
    have within : picked.map Prod.fst ⊆ pairs.map Prod.fst := List.map_subset _ stored
    have fewer := (List.subperm_of_subset different within).length_le
    rw [List.length_map, List.length_map] at fewer
    have positive : 0 < pairs.length := List.length_pos_iff.mpr some
    rw [needed] at few
    omega
  · rwa [Reaches, if_neg few] at reaches

theorem Unspoilt.unblocked (recovers : Recovers msg c.groupKey valid)
    (fresh : c.sharesIds = [] ∧ c.shares = [] ∧ c.verified = false)
    (unspoilt : Unspoilt valid c shares) : Unblocked valid msg c shares := by
  intro before share earlier
  obtain ⟨rest, rfl⟩ := earlier
  have unspoilt := unspoilt.earlier
  have known := unspoilt.known share (List.mem_append_right _ List.mem_cons_self)
  obtain ⟨id, -, offers⟩ := offered_append before known
  obtain ⟨b, d, stored, reaches⟩ := (unspoilt.before.reaches recovers fresh).step recovers
    fresh.2.2 (received_frame before).2 known unspoilt.sound
  refine ⟨b, d, stored, fun picked within different enough _ => ?_⟩
  apply reaches.ready _ within different enough
  rw [offers, firsts_append]
  split
  · rename_i old
    intro none
    rw [none] at old
    cases old
  · exact List.append_ne_nil_of_right_ne_nil _ (List.cons_ne_nil _ _)

theorem Reaches.sound {id : Bytes} {b : Bool} {e : Consensus}
    (recovers : Recovers msg c.groupKey valid) (lacking : c.verified = false)
    {pairs : List (Bytes × Bytes)} (reaches : Reaches msg pairs c d)
    (few : pairs.length < needed) (known : d.memberId share.source = .ok id)
    (new : id ∉ pairs.map Prod.fst) (enough : needed ≤ pairs.length + 1)
    (stored : storeShare share msg d = .ok b e) :
    ∀ pair ∈ pairs ++ [(id, share.signature)], valid pair.1 pair.2 := by
  rw [Reaches, if_pos few] at reaches
  subst reaches
  obtain ⟨r, stored', stores⟩ := storeShare_stores share msg
    { c with sharesIds := pairs.map Prod.fst, shares := pairs.map Prod.snd }
  rw [stored] at stored'
  subst stored'
  cases stores with
  | ignored known' useless =>
      rw [known] at known'
      cases known'
      rcases useless with old | ready
      · exact absurd old new
      · exact absurd (lacking.symm.trans ready) (by decide)
  | waits known' new' lacking' few' =>
      rw [List.length_map] at few'
      rw [needed] at enough few
      omega
  | completes known' new' lacking' enough' combines =>
      rw [known] at known'
      cases known'
      intro pair member
      by_contra invalid
      apply recovers.bad _ _ ⟨pair, _, invalid⟩ combines
      have zipped := zip_firsts (pairs ++ [(id, share.signature)])
      rw [List.map_append, List.map_append] at zipped
      exact zipped.symm ▸ member

theorem Unblocked.unspoilt (recovers : Recovers msg c.groupKey valid)
    (fresh : c.sharesIds = [] ∧ c.shares = [] ∧ c.verified = false)
    (unblocked : Unblocked valid msg c shares) : Unspoilt valid c shares := by
  induction shares using List.reverseRecOn with
  | nil =>
      refine ⟨List.forall_mem_nil _, fun enough => absurd enough (Nat.not_le.mpr ?_)⟩
      exact Nat.lt_of_lt_of_le Nat.zero_lt_one (Nat.le_max_left _ _)
  | append_singleton shares share ih =>
      have before := ih fun before other earlier =>
        unblocked before other (earlier.trans (List.prefix_append _ _))
      obtain ⟨b, d, stored, -⟩ := unblocked shares share (List.prefix_refl _)
      have members : (received msg c shares).memberId share.source = c.memberId share.source := by
        rw [memberId, memberId, (received_frame shares).2]
      have known : ∃ id, c.memberId share.source = .ok id := by
        cases found : c.memberId share.source with
        | ok id => exact ⟨id, rfl⟩
        | error e =>
            rw [storeShare, members, found] at stored
            cases stored
      obtain ⟨id, found, offers⟩ := offered_append shares known
      have reaches := before.reaches recovers fresh
      constructor
      · intro other member
        rcases List.mem_append.mp member with earlier | last
        · exact before.known other earlier
        · rw [List.mem_singleton.mp last]
          exact known
      · intro enough
        by_cases few : (firsts (c.offered shares)).length < needed
        · rw [offers, firsts_append] at enough ⊢
          split at enough
          · exact absurd few (Nat.not_lt.mpr enough)
          · rename_i new
            rw [if_neg new]
            rw [List.length_append, List.length_singleton] at enough
            intro pair member
            exact reaches.sound recovers fresh.2.2 few (members.trans found) new enough stored pair
              (List.mem_of_mem_take member)
        · obtain ⟨rest, same⟩ := firsts_prefix (c.offered shares) (id, share.signature)
          rw [offers, ← same, List.take_append_of_le_length (Nat.le_of_not_lt few)]
          exact before.sound (Nat.le_of_not_lt few)

/-- The shares of a round neither raise nor keep it from its signature exactly where they are
unspoilt. -/
theorem unblocked_iff_unspoilt (recovers : Recovers msg c.groupKey valid)
    (shares : List Share) :
    Unblocked valid msg c.resetBls shares ↔ Unspoilt valid c.resetBls shares :=
  ⟨fun unblocked => unblocked.unspoilt recovers ⟨rfl, rfl, rfl⟩,
    fun unspoilt => unspoilt.unblocked recovers ⟨rfl, rfl, rfl⟩⟩

end Shares

end Consensus

namespace Sample.Shared

open Sample Consensus

scoped instance : Hashlib := ⟨Sha256.sha256, Sha256.sha256_length⟩

scoped instance : Threshold := ⟨2⟩

scoped instance : Bls where
  genKeys := strOfInt
  secretKeyShare key _ := key
  publicKeyShare _ _ := []
  getPublicKey key := key
  publicKeyIsEqual x y := x = y
  secretKeyAdd x _ := x
  publicKeyAdd x _ := x
  sign digest _ := digest
  verify digest sig key := sig = digest ++ key
  recover _ shares :=
    if shares.all fun share => share = shares.headD [] then shares.headD [] ++ [0x31] else []

def member (address : Address) : Member := ⟨strOfInt (adler32 address.bytes), none, none⟩

def group : Group :=
  AList.insert alice (member alice) (AList.insert bob (member bob)
    (AList.insert carol (member carol) ∅))

def consensus : Consensus where
  currentRandomNo := []
  groupSig := []
  shares := []
  sharesIds := []
  verified := true
  nextSigner := ⟨.v4, 0, by decide⟩
  dkgGroup := [alice, bob, carol]
  ownIds := []
  secretKeys := ∅
  groupKey := [0x31]
  previousGroupKey := [0x31]
  msg := []
  members := some (AList.insert none group ∅)

def message : Bytes := beaconMessage [0x30] 1 0

def good (address : Address) : Share := ⟨some address, hexdigest message, 1⟩

def bad (address : Address) : Share := ⟨some address, [0x30], 1⟩

def Valid (_ signature : Bytes) : Prop := signature = hexdigest message

theorem recover_of_all {ids sigs : List Bytes} {sig : Bytes} (some : sigs ≠ [])
    (all : ∀ other ∈ sigs, other = sig) : Bls.recover ids sigs = sig ++ [0x31] := by
  obtain ⟨first, rest, rfl⟩ := List.exists_cons_of_ne_nil some
  have head : first = sig := all first List.mem_cons_self
  subst head
  exact if_pos (List.all_eq_true.mpr fun other member => decide_eq_true (all other member))

theorem recovers : Recovers message [0x31] Valid where
  good ids sigs _ paired some _ sound := by
    have all (sig : Bytes) (member : sig ∈ sigs) : sig = hexdigest message := by
      have seconds : (ids.zip sigs).map Prod.snd = sigs := List.map_snd_zip (Nat.le_of_eq paired)
      rw [← seconds] at member
      obtain ⟨pair, zipped, rfl⟩ := List.mem_map.mp member
      exact sound pair zipped
    have full : sigs ≠ [] := by
      intro none
      rw [none] at paired
      exact some (List.length_eq_zero_iff.mp paired.symm)
    rw [recover_of_all full all]
    exact ⟨List.append_ne_nil_of_right_ne_nil _ (List.cons_ne_nil _ _), decide_eq_true rfl⟩
  bad ids sigs spoilt := by
    obtain ⟨pair, zipped, invalid⟩ := spoilt
    obtain ⟨-, member⟩ := List.of_mem_zip zipped
    rintro ⟨some, valid⟩
    by_cases all : ∀ other ∈ sigs, other = pair.2
    · rw [recover_of_all (List.ne_nil_of_mem member) all] at valid
      exact invalid (List.append_cancel_right (of_decide_eq_true valid))
    · apply some
      apply if_neg
      intro same
      have same := List.all_eq_true.mp same
      have head := of_decide_eq_true (same pair.2 member)
      exact all fun other present => (of_decide_eq_true (same other present)).trans head.symm

theorem unblocked_late :
    Unblocked Valid message consensus.resetBls [good alice, good bob, bad carol] := by
  apply (unblocked_iff_unspoilt recovers _).mpr
  constructor
  · intro share member
    simp only [List.mem_cons, List.not_mem_nil, or_false] at member
    rcases member with rfl | rfl | rfl
    · exact ⟨(Sample.Shared.member alice).id, by decide⟩
    · exact ⟨(Sample.Shared.member bob).id, by decide⟩
    · exact ⟨(Sample.Shared.member carol).id, by decide⟩
  · have taken : (firsts (consensus.resetBls.offered [good alice, good bob, bad carol])).take
        needed = [((Sample.Shared.member alice).id, hexdigest message),
          ((Sample.Shared.member bob).id, hexdigest message)] := by decide
    intro _ pair member
    rw [taken] at member
    simp only [List.mem_cons, List.not_mem_nil, or_false] at member
    rcases member with rfl | rfl
    · rfl
    · rfl

/-- A share that is not valid comes first, and the two valid ones are of no use. -/
theorem blocked_early :
    ¬ Unblocked Valid message consensus.resetBls [bad alice, good bob, good carol] := by
  intro unblocked
  obtain ⟨b, d, stored, -⟩ := unblocked [bad alice] (good bob) ⟨[good carol], rfl⟩
  have raises : (match storeShare (good bob) message
      (received message consensus.resetBls [bad alice]) with
    | .ok _ _ => true
    | .error _ _ => false) = false := by decide
  rw [stored] at raises
  cases raises

theorem ready_agree_two :
    let d := received message consensus.resetBls [good alice, good bob]
    let d' := received message consensus.resetBls [good carol, good bob, bad alice]
    d.sharesReady = true ∧ d'.sharesReady = true ∧ d.groupSig ≠ [] ∧ d.groupSig = d'.groupSig ∧
      d.currentRandomNo = d'.currentRandomNo ∧ d.sharesIds ≠ d'.sharesIds := by
  intro d d'
  have unique (digest key sig sig' : Bytes) (valid : Bls.verify digest sig key = true)
      (valid' : Bls.verify digest sig' key = true) : sig = sig' :=
    (of_decide_eq_true valid).trans (of_decide_eq_true valid').symm
  have ready : d.sharesReady = true := by decide
  have ready' : d'.sharesReady = true := by decide
  obtain ⟨sig, random, -⟩ := ready_agree unique rfl rfl rfl ready ready'
  exact ⟨ready, ready', by decide, sig, random, by decide⟩

end Sample.Shared

end IPchain
