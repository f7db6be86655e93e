import IPchain.Consensus

/-! What shares do to a round, and what the key generation leaves alone. -/

namespace IPchain

open Lib Platform

namespace Consensus

section Shares

variable [Bls]

/-- What shares of a message come to: nothing, some more of them, or a group signature. -/
inductive Gathers (msg : Bytes) [Hashlib] (c : Consensus) : Consensus → Prop
  | idle : Gathers msg c c
  | more {ids shares : List Bytes} (lacking : c.verified = false) (some : shares ≠ []) :
      Gathers msg c { c with sharesIds := ids, shares := shares }
  | full {ids shares : List Bytes} {sig : Bytes} (lacking : c.verified = false)
      (some : shares ≠ []) (valid : Bls.verify (hexdigest msg) sig c.groupKey = true) :
      Gathers msg c { c with
        sharesIds := ids
        shares := shares
        groupSig := sig
        verified := true
        currentRandomNo := hexdigest sig }

variable [Hashlib] {msg : Bytes} {c d e : Consensus}

theorem Gathers.trans (first : Gathers msg c d) (second : Gathers msg d e) : Gathers msg c e := by
  cases first with
  | idle => exact second
  | more lacking some =>
      cases second with
      | idle => exact .more lacking some
      | more lacking' some' => exact .more lacking some'
      | full lacking' some' valid => exact .full lacking some' valid
  | full lacking some valid =>
      cases second with
      | idle => exact .full lacking some valid
      | more lacking' => cases lacking'
      | full lacking' => cases lacking'

theorem Gathers.idle_of_verified (gathers : Gathers msg c d) (verified : c.verified = true) :
    d = c := by
  cases gathers with
  | idle => rfl
  | more lacking => exact absurd verified (by simp [lacking])
  | full lacking => exact absurd verified (by simp [lacking])

theorem Gathers.shares (gathers : Gathers msg c d) (some : c.shares ≠ []) : d.shares ≠ [] := by
  cases gathers with
  | idle => exact some
  | more lacking some' => exact some'
  | full lacking some' valid => exact some'

theorem Gathers.signer (gathers : Gathers msg c d) : d.nextSigner = c.nextSigner := by
  cases gathers with
  | idle => rfl
  | more lacking some => rfl
  | full lacking some valid => rfl

theorem Gathers.groupKey (gathers : Gathers msg c d) : d.groupKey = c.groupKey := by
  cases gathers with
  | idle => rfl
  | more lacking some => rfl
  | full lacking some valid => rfl

theorem Gathers.previous (gathers : Gathers msg c d) :
    d.previousGroupKey = c.previousGroupKey := by
  cases gathers with
  | idle => rfl
  | more lacking some => rfl
  | full lacking some valid => rfl

theorem Gathers.random (gathers : Gathers msg c d)
    (written : ∃ data, c.currentRandomNo = encodeHex data) :
    ∃ data, d.currentRandomNo = encodeHex data := by
  cases gathers with
  | idle => exact written
  | more lacking some => exact written
  | full lacking some valid => exact ⟨_, rfl⟩

variable [Platform] [Threshold]

theorem storeShare_ok {share : Share} {b : Bool} (stored : storeShare share msg c = .ok b d) :
    Gathers msg c d ∧ (c.verified = false → c.sharesIds = [] → d.shares ≠ []) := by
  simp only [storeShare] at stored
  split at stored
  · cases stored
  · rename_i dkgId known
    have full : c.shares ++ [share.signature] ≠ [] := List.append_ne_nil_of_right_ne_nil _ (by simp)
    split at stored
    · rename_i new
      split at stored
      · split at stored
        · cases stored
        · split at stored
          · rename_i valid
            cases stored
            exact ⟨.full new.2 full valid, fun _ _ => full⟩
          · cases stored
      · cases stored
        exact ⟨.more new.2 full, fun _ _ => full⟩
    · rename_i old
      cases stored
      refine ⟨.idle, fun lacking none => absurd ⟨?_, lacking⟩ old⟩
      rw [none]
      exact List.not_mem_nil

theorem storeShares_ok {shares : List Share} (stored : storeShares msg shares c = .ok () d) :
    Gathers msg c d ∧ (shares ≠ [] → c.verified = false → c.sharesIds = [] → d.shares ≠ []) := by
  induction shares generalizing c with
  | nil =>
      cases stored
      exact ⟨.idle, fun some => absurd rfl some⟩
  | cons share shares ih =>
      obtain ⟨b, m, first, rest⟩ := bind_eq_ok.mp stored
      obtain ⟨gathers, some⟩ := storeShare_ok first
      obtain ⟨others, -⟩ := ih rest
      exact ⟨gathers.trans others, fun _ lacking none => others.shares (some lacking none)⟩

theorem createShares_ok {lastRandomNo : Bytes} {blockNum count : Nat} {shares : List Share}
    (created : createShares lastRandomNo blockNum count c = .ok shares d) :
    newShares c.secretKeys (hexdigest (beaconMessage lastRandomNo blockNum count)) blockNum
        c.ownIds = .ok shares ∧
      storeShares (beaconMessage lastRandomNo blockNum count) shares
        { c with msg := beaconMessage lastRandomNo blockNum count } = .ok () d := by
  simp only [createShares] at created
  split at created
  · cases created
  · rename_i made found
    split at created
    · rename_i stored
      cases created
      exact ⟨found, stored⟩
    · cases created

omit [Platform] [Threshold] [Hashlib] in
theorem newShares_number {keys : AList fun _ : Address => Bytes} {digest : Bytes} {blockNum : Nat}
    {ids : List Address} {shares : List Share}
    (made : newShares keys digest blockNum ids = .ok shares) {share : Share}
    (mem : share ∈ shares) : share.blockNumber = blockNum := by
  induction ids generalizing shares with
  | nil =>
      cases made
      cases mem
  | cons oid ids ih =>
      simp only [newShares] at made
      split at made
      · exact ih made mem
      · split at made
        · cases made
        · obtain ⟨others, rest, rfl⟩ := except_map_eq_ok.mp made
          rcases List.mem_cons.mp mem with rfl | other
          · rfl
          · exact ih rest other

theorem storeShares_append {before after : List Share} :
    storeShares msg (before ++ after) = storeShares msg before >>= fun _ =>
      storeShares msg after := by
  induction before with
  | nil => rfl
  | cons share before ih =>
      rw [List.cons_append, storeShares, storeShares, ih, bind_assoc]

end Shares

section Dkg

variable [Platform] [Bls]

def settled (c : Consensus) : Round × Bytes := (c.toRound, c.previousGroupKey)

theorem preserves_finishDkg (destination : Address) (group : Group) :
    Preserves settled (finishDkg destination group) := by
  intro c
  simp only [finishDkg]
  split
  · rfl
  · split
    · rfl
    · split
      · rfl
      · split
        · rfl
        · rfl
      · rfl

theorem preserves_storeContribution (contribution : DkgShare) (oid destination : Address)
    (sender : Member) (group : Group) :
    Preserves settled (storeContribution contribution oid destination sender group) := by
  intro c
  have kept (group : Group) (d : Consensus) (same : d.settled = c.settled) :
      settled (finish (if allSharesReceived group then finishDkg destination group d
        else .ok () d)) = c.settled := by
    split
    · exact (preserves_finishDkg destination group d).trans same
    · exact same
  unfold storeContribution
  split
  · rfl
  · exact kept _ _ rfl

theorem preserves_verifyDkgContribution (contribution : DkgShare) :
    Preserves settled (verifyDkgContribution contribution) := by
  intro c
  simp only [verifyDkgContribution]
  split
  · split
    · rfl
    · split
      · rfl
      · exact preserves_storeContribution contribution _ _ _ _ c
  · rfl
  · rfl

theorem preserves_contribute (nodeId : Address) (vVec : List Bytes)
    (contribs : List (Address × Bytes)) : Preserves settled (contribute nodeId vVec contribs) := by
  induction contribs with
  | nil => exact Preserves.pure []
  | cons contrib contribs ih =>
      obtain ⟨oid, contrib⟩ := contrib
      intro c
      simp only [contribute]
      split
      · exact (preserves_verifyDkgContribution _).bind (fun _ => ih) c
      · have mapped : Preserves settled (List.cons (⟨some nodeId, some oid, contrib, vVec⟩ : DkgShare)
            <$> contribute nodeId vVec contribs) := ih.bind fun shares => Preserves.pure _
        exact mapped c

theorem preserves_contributeAll [Threshold] (draw : Address → Nat → Bytes × Bytes)
    (nodes : List (Address × Group)) : Preserves settled (contributeAll draw nodes) := by
  induction nodes with
  | nil => exact Preserves.pure []
  | cons node nodes ih =>
      refine Preserves.ite (Preserves.raised _) ((preserves_contribute _ _ _).bind fun sent => ?_)
      exact ih.bind fun more => Preserves.pure _

variable {c d : Consensus} {group : List Address}

omit [Platform] in
theorem storeIds_ok (stored : storeIds group c = .ok () d) :
    d.settled = (c.toRound, c.groupKey) ∧ d.groupKey = c.groupKey := by
  simp only [storeIds] at stored
  split at stored
  · cases stored
  · cases stored
    exact ⟨rfl, rfl⟩

theorem newDkg_ok [Threshold] {draw : Address → Nat → Bytes × Bytes} {ids : List Address}
    {shares : List DkgShare} (entered : newDkg draw group ids c = .ok shares d) :
    d.settled = (c.toRound, c.groupKey) := by
  simp only [newDkg] at entered
  split at entered
  · split at entered
    · cases entered
      rfl
    · cases entered
  · exact (preserves_contributeAll draw _).ok entered

end Dkg

end Consensus

end IPchain
