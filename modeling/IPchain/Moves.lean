import IPchain.Adoption

/-! What an event makes of a node. -/

namespace IPchain

open Lib Platform

namespace Service

section Calls

variable {S R : Type} [IPSet S] [Platform]

/-- What a service has been through between two blocks, when these transactions were submitted. -/
inductive Calls (submitted : Transaction → Prop) (svc : Service S R) : Service S R → Prop
  | reads {s : State S} (alike : svc.chain.state.Alike s) :
      Calls submitted svc { svc with chain := { svc.chain with state := s } }
  | pends {svc' : Service S R} {tx : Transaction} (sent : submitted tx)
      (added : addPendingTransaction tx svc = .ok () svc') : Calls submitted svc svc'

variable {submitted : Transaction → Prop} {svc svc' : Service S R}

theorem Calls.refl (submitted : Transaction → Prop) (svc : Service S R) :
    Calls submitted svc svc := .reads (State.Alike.refl _)

theorem pends_reads {tx : Transaction} (added : addPendingTransaction tx svc = .ok () svc') :
    svc.chain.Reads svc'.chain := by
  by_cases valid : ∃ a V, svc.chain.state.account.book.Accepts tx a V
  · obtain ⟨a, V, accepts⟩ := valid
    obtain ⟨s, alike, added'⟩ := addPendingTransaction_valid svc accepts
    rw [added] at added'
    cases added'
    exact Chain.reads_state alike
  · obtain ⟨e, s, -, failed⟩ := addPendingTransaction_invalid valid
    rw [added] at failed
    cases failed

theorem calls_of_error {tx : Transaction} {e : PyExc}
    (failed : addPendingTransaction tx svc = .error e svc') : Calls submitted svc svc' := by
  by_cases valid : ∃ a V, svc.chain.state.account.book.Accepts tx a V
  · obtain ⟨a, V, accepts⟩ := valid
    obtain ⟨s, -, added⟩ := addPendingTransaction_valid svc accepts
    rw [failed] at added
    cases added
  · obtain ⟨e', s, alike, failed'⟩ := addPendingTransaction_invalid valid
    rw [failed] at failed'
    cases failed'
    exact .reads alike

theorem Calls.chain (calls : Calls submitted svc svc') : svc.chain.Reads svc'.chain := by
  cases calls with
  | reads alike => exact Chain.reads_state alike
  | pends sent added => exact pends_reads added

theorem Calls.ready (calls : Calls submitted svc svc') (ready : svc.Ready)
    (genuine : ∀ tx, submitted tx → tx.Accepted ∧ tx.Genuine) : svc'.Ready := by
  cases calls with
  | reads alike => exact ready.idle alike svc.chain.timeQueue
  | @pends svc' tx sent added =>
      exact ready.pending (genuine tx sent).1 (genuine tx sent).2 added

end Calls

end Service

namespace Node

section Quiet

variable {S R : Type} [IPSet S] [Radix R Address] [Platform] {n m : Node S R}
  {submitted : Transaction → Prop}

def Stays (n : Node S R) (phase : Phase) : Prop := phase = n.phase ∨ phase ≠ .bootstrap

/-- Nothing but the service, the place in the loop and what was sent is different. -/
def Idles (submitted : Transaction → Prop) (n m : Node S R) : Prop :=
  ∃ svc phase processed sent, Service.Calls submitted n.service svc ∧ n.Stays phase ∧
    m = { n with service := svc, phase := phase, processed := processed, sent := sent }

omit [Radix R Address] in
theorem idles_of_phase {phase : Phase} (stays : n.Stays phase) (processed : Nat)
    (sent : List Message) :
    n.Idles submitted { n with phase := phase, processed := processed, sent := sent } :=
  ⟨n.service, phase, processed, sent, .refl _ _, stays, rfl⟩

omit [Radix R Address] [Platform] in
theorem stays_same (n : Node S R) : n.Stays n.phase := Or.inl rfl

omit [Radix R Address] in
theorem idles_submit {tx : Transaction} (sent : submitted tx) (done : submit tx n = .ok () m) :
    n.Idles submitted m := by
  simp only [submit] at done
  split at done
  · rename_i p added
    obtain ⟨svc, run, rfl⟩ := onService_eq_ok.mp added
    cases done
    exact ⟨svc, _, _, _, .pends sent run, n.stays_same, rfl⟩
  · rename_i e p failed
    obtain ⟨svc, run, rfl⟩ := onService_eq_error.mp failed
    cases done
    exact ⟨svc, _, _, _, Service.calls_of_error run, n.stays_same, rfl⟩

omit [Radix R Address] in
theorem Idles.enter (idles : n.Idles submitted m) {phase : Phase} (later : phase ≠ .bootstrap) :
    n.Idles submitted (m.enter phase) := by
  obtain ⟨svc, _, processed, sent, calls, -, rfl⟩ := idles
  exact ⟨svc, phase, processed, sent, calls, Or.inr later, rfl⟩

omit [Radix R Address] in
theorem idles_receiveTx {tx : Transaction} (sent : submitted tx)
    (done : receiveTx tx n = .ok () m) : n.Idles submitted m := by
  simp only [receiveTx] at done
  split at done
  · cases done
    exact idles_of_phase n.stays_same _ _
  · obtain ⟨svc, phase, processed, sent', calls, stays, rfl⟩ := idles_submit sent done
    exact ⟨svc, phase, processed, sent', calls, stays, rfl⟩

omit [Radix R Address] in
theorem idles_userTx {tx : Option Transaction} (sent : ∀ t ∈ tx, submitted t)
    (done : userTx tx n = .ok () m) : n.Idles submitted m := by
  cases tx with
  | none =>
      cases done
      exact idles_of_phase n.stays_same _ _
  | some tx =>
      simp only [userTx] at done
      split at done
      · cases done
        exact idles_of_phase n.stays_same _ _
      · exact idles_submit (sent tx rfl) done

theorem idles_queryEid {eid : IPAddress} (done : queryEid eid n = .ok () m) :
    n.Idles submitted m := by
  simp only [queryEid] at done
  split at done
  · rename_i address found
    cases done
    exact ⟨_, _, _, _, .reads (n.service.chain.state.alike_read address), n.stays_same, rfl⟩
  · cases done
    exact idles_of_phase n.stays_same _ _

omit [Radix R Address] in
theorem idles_answerBlocks {op : Operator} {numbers : List Int}
    (done : answerBlocks op numbers n = .ok () m) : n.Idles submitted m := by
  obtain ⟨response, -, rest⟩ := asks_bind_eq_ok.mp done
  cases rest
  exact idles_of_phase n.stays_same _ _

end Quiet

section Shares

variable {S R : Type} [IPSet S] [Platform] [Hashlib] [Bls] [NodeConfig] {n m : Node S R}

def Gathered (n m : Node S R) : Prop :=
  ∃ c cache phase sent,
    Consensus.Gathers (beaconMessage n.lastRandomNo n.blockNum n.count) n.consensus c ∧
      n.Stays phase ∧ m = { n with consensus := c, cache := cache, phase := phase, sent := sent }

omit [Platform] [NodeConfig] in
theorem gathered_of_phase {phase : Phase} (stays : n.Stays phase) :
    n.Gathered { n with phase := phase } :=
  ⟨n.consensus, n.cache, phase, n.sent, .idle, stays, rfl⟩

theorem gathered_receiveShare {now : Nat} {share : Share}
    (done : receiveShare now share n = .ok () m) : n.Gathered m := by
  simp only [receiveShare] at done
  split at done
  · cases done
    exact gathered_of_phase (Or.inr (by decide))
  · split at done
    · cases done
      exact gathered_of_phase n.stays_same
    · split at done
      · obtain ⟨b, q, stored, rest⟩ := bind_eq_ok.mp done
        obtain ⟨c, run, rfl⟩ := onConsensus_eq_ok.mp stored
        cases rest
        exact ⟨c, _, _, _, (Consensus.storeShare_ok run).1, n.stays_same, rfl⟩
      · split at done
        · cases done
          exact ⟨n.consensus, _, _, _, .idle, n.stays_same, rfl⟩
        · cases done
          exact ⟨n.consensus, _, _, _, .idle, n.stays_same, rfl⟩

theorem gathered_takeFutureShare (done : takeFutureShare n = .ok () m) : n.Gathered m := by
  simp only [takeFutureShare] at done
  split at done
  · cases done
    exact gathered_of_phase (Or.inr (by decide))
  · obtain ⟨b, q, stored, rest⟩ := bind_eq_ok.mp done
    obtain ⟨c, run, rfl⟩ := onConsensus_eq_ok.mp stored
    cases rest
    exact ⟨c, _, _, _, (Consensus.storeShare_ok run).1, n.stays_same, rfl⟩

end Shares

section Renewal

variable {S R : Type} [IPSet S] [Platform] [Hashlib] [Bls] [NodeConfig] [TrieKeys S]
  {op : Operator} {n m : Node S R} {now : Nat}

omit [Hashlib] [Bls] [NodeConfig] [TrieKeys S] in
theorem leaveDkg_ok (left : leaveDkg n = .ok () m) :
    m = n ∨ m = { n with dkgOn := false, exitFromDkg := true } := by
  simp only [leaveDkg] at left
  split at left
  · cases left
  · split at left
    · cases left
      exact Or.inr rfl
    · cases left
      exact Or.inl rfl

structure Triggered (op : Operator) (n m : Node S R) : Prop where
  number : renews (n.blockNum + 1) = true
  off : n.dkgOn = false
  stays : n.exitFromDkg = false
  verified : n.consensus.verified = true
  begun : ∃ group last a c on cache sent,
    n.service.chain.getCurrentDkgGroup op.genesis = .ok group ∧
    n.service.chain.getBlockByNumber op.genesis n.blockNum = .ok last ∧
    dkgSigner (encodeHex last.header.randomNumber) group = .ok a ∧
    c.settled = (n.consensus.toRound, n.consensus.groupKey) ∧
    ((findMeInDkgGroup group op.addresses).1 = false →
      on = true ∧ c.groupKey = n.consensus.groupKey) ∧
    m = { n with
      dkgOn := on
      exitFromDkg := !on
      createShares := true
      inDkgGroup := (findMeInDkgGroup group op.addresses).1
      myDkgIds := (findMeInDkgGroup group op.addresses).2
      consensus := c
      signingAddr := some a
      cache := cache
      sent := sent }

omit [Hashlib] [TrieKeys S] in
theorem enterDkg_ok {draw : Address → Nat → Bytes × Bytes} {group : List Address}
    (entered : enterDkg now draw group n = .ok () m) (on : n.dkgOn = true)
    (stays : n.exitFromDkg = false) : ∃ c on cache sent,
      c.settled = (n.consensus.toRound, n.consensus.groupKey) ∧
      (n.inDkgGroup = false → on = true ∧ c.groupKey = n.consensus.groupKey) ∧
      m = { n with
        dkgOn := on, exitFromDkg := !on, consensus := c, cache := cache, sent := sent } := by
  have kept (c : Consensus) (cache : ShareCache) (sent : List Message) :
      ({ n with consensus := c, cache := cache, sent := sent } : Node S R) =
        { n with
          dkgOn := true, exitFromDkg := !true, consensus := c, cache := cache, sent := sent } := by
    have out : n.exitFromDkg = !n.dkgOn := by rw [on, stays, Bool.not_true]
    rw [← on, ← out]
  simp only [enterDkg] at entered
  split at entered
  · rename_i mine
    obtain ⟨shares, p, first, rest⟩ := bind_eq_ok.mp entered
    obtain ⟨c, run, rfl⟩ := onConsensus_eq_ok.mp first
    have settled := Consensus.newDkg_ok run
    rw [update_bind] at rest
    have others (on : Bool) : n.inDkgGroup = false →
        on = true ∧ c.groupKey = n.consensus.groupKey :=
      fun out => absurd (mine.symm.trans out) (by decide)
    rcases leaveDkg_ok rest with rfl | rfl
    · exact ⟨c, true, _, _, settled, others true, kept c _ _⟩
    · exact ⟨c, false, _, _, settled, others false, rfl⟩
  · obtain ⟨c, run, rfl⟩ := onConsensus_eq_ok.mp entered
    obtain ⟨settled, key⟩ := Consensus.storeIds_ok run
    exact ⟨c, true, _, _, settled, fun _ => ⟨rfl, key⟩, kept c n.cache n.sent⟩

theorem triggerDkg_ok {draw : Address → Nat → Bytes × Bytes}
    (done : triggerDkg op now draw n = .ok () m) : m = n ∨ Triggered op n m := by
  simp only [triggerDkg] at done
  split at done
  · rename_i due
    simp only [Bool.and_eq_true, Bool.not_eq_true'] at due
    obtain ⟨⟨⟨number, off⟩, stays⟩, verified⟩ := due
    rw [update_bind] at done
    obtain ⟨group, known, rest⟩ := asks_bind_eq_ok.mp done
    rw [update_bind] at rest
    obtain ⟨_, p, entered, rest⟩ := bind_eq_ok.mp rest
    obtain ⟨c, on, cache, sent, settled, others, rfl⟩ := enterDkg_ok entered rfl stays
    obtain ⟨last, found, rest⟩ := asks_bind_eq_ok.mp rest
    obtain ⟨a, drawn, rest⟩ := lift_bind_eq_ok.mp rest
    cases rest
    exact Or.inr ⟨number, off, stays, verified, group, last, a, c, on, cache, sent, known, found,
      drawn, settled, others, rfl⟩
  · cases done
    exact Or.inl rfl

def Contributed (n m : Node S R) : Prop :=
  ∃ c on out cache sent phase, c.settled = n.consensus.settled ∧
    (n.dkgOn = false ∨ n.inDkgGroup = false → c = n.consensus) ∧
    (on = n.dkgOn ∧ out = n.exitFromDkg ∨
      n.inDkgGroup = true ∧ n.dkgOn = true ∧ on = false ∧ out = true) ∧ n.Stays phase ∧
    m = { n with
      consensus := c
      dkgOn := on
      exitFromDkg := out
      cache := cache
      sent := sent
      phase := phase }

omit [Platform] [Hashlib] [Bls] [NodeConfig] [TrieKeys S] in
theorem contributed_of_idle (cache : ShareCache) (sent : List Message) {phase : Phase}
    (stays : n.Stays phase) :
    n.Contributed { n with cache := cache, sent := sent, phase := phase } :=
  ⟨n.consensus, n.dkgOn, n.exitFromDkg, cache, sent, phase, rfl, fun _ => rfl,
    Or.inl ⟨rfl, rfl⟩, stays, rfl⟩

omit [Hashlib] [TrieKeys S] in
theorem contributed_receiveDkgShare {share : DkgShare} (mine : n.inDkgGroup = true)
    (done : receiveDkgShare now share n = .ok () m) : n.Contributed m := by
  simp only [receiveDkgShare] at done
  split at done
  · cases done
    exact contributed_of_idle _ _ (Or.inr (by decide))
  · rename_i on
    split at done
    · cases done
      exact contributed_of_idle _ _ n.stays_same
    · obtain ⟨source, destination, contrib, vVec⟩ := share
      cases destination with
      | none =>
          cases done
          exact contributed_of_idle _ _ n.stays_same
      | some destination =>
          by_cases member : destination ∈ n.myDkgIds
          · replace done := (congrFun (if_pos member) n).symm.trans done
            obtain ⟨_, p, first, rest⟩ := bind_eq_ok.mp done
            obtain ⟨c, verified, rfl⟩ := onConsensus_eq_ok.mp first
            have settled := (Consensus.preserves_verifyDkgContribution _).ok verified
            obtain ⟨_, q, left, rest⟩ := bind_eq_ok.mp rest
            obtain ⟨_, r, timely, rest⟩ := bind_eq_ok.mp rest
            split at timely
            · cases timely
            · cases timely
              cases rest
              have generating : n.dkgOn = false ∨ n.inDkgGroup = false → c = n.consensus := by
                rintro (off | out)
                · exact absurd off on
                · exact absurd (mine.symm.trans out) (by decide)
              rcases leaveDkg_ok left with rfl | rfl
              · exact ⟨c, _, _, _, _, _, settled, generating, Or.inl ⟨rfl, rfl⟩, n.stays_same, rfl⟩
              · exact ⟨c, _, _, _, _, _, settled, generating,
                  Or.inr ⟨mine, by simpa using on, rfl, rfl⟩, n.stays_same, rfl⟩
          · replace done := (congrFun (if_neg member) n).symm.trans done
            cases done
            exact contributed_of_idle _ _ n.stays_same

end Renewal

def Event.submits : Event → Transaction → Prop
  | .tx sent => fun other => other = sent
  | .userTx sent => fun other => other ∈ sent
  | _ => fun _ => False

section Events

variable {S R : Type} [IPSet S] [Radix R Address] [FirstAddress S] [Platform] [Hashlib] [Bls]
  [NodeConfig] [TrieKeys S] [TrieRoot] [Poststate] [StateRoot S] [Signing]

inductive Moves (op : Operator) (n : Node S R) : Event → Node S R → Prop
  | idles {e : Event} {m : Node S R} (nothing : handed op n e = none)
      (idles : n.Idles e.submits m) : Moves op n e m
  | skips {now depth : Nat} {block : Block} {m : Node S R}
      (checked : checkBlock block n = .ok false m) : Moves op n (.block now depth block) m
  | adopts {now depth : Nat} {block : Block} {p m : Node S R}
      (checked : checkBlock block n = .ok true p)
      (adopted : adoptBlock op now depth block p = .ok () m) : Moves op n (.block now depth block) m
  | bootSkips {now depth : Nat} {block : Block} {m : Node S R}
      (checked : checkBootstrap op block n = .ok false m) :
      Moves op n (.bootstrapBlock now depth block) m
  | bootAdopts {now depth : Nat} {block : Block} {p m : Node S R}
      (checked : checkBootstrap op block n = .ok true p)
      (adopted : adoptBootstrap now depth block p = .ok () m) :
      Moves op n (.bootstrapBlock now depth block) m
  | begins {head : BlockHeader} (found : n.service.chain.headHeader op.genesis = .ok head) :
      Moves op n .finishBootstrap { n with
        timestamp := head.timestamp
        lastRandomNo := encodeHex head.randomNumber
        fromBootstrap := true
        phase := .blocks }
  | waits {now wait depth : Nat} {p : Node S R} (made : makeBlock op now depth n = .ok none p) :
      Moves op n (.sign now wait depth) (p.enter .user)
  | makes {now wait depth : Nat} {block : Block} {p m : Node S R}
      (made : makeBlock op now depth n = .ok (some block) p)
      (adopted : adoptOwn now wait depth block p = .ok () m) :
      Moves op n (.sign now wait depth) (m.enter .user)
  | gathers {e : Event} {m : Node S R} (nothing : handed op n e = none)
      (later : e.phase ≠ .bootstrap) (gathered : n.Gathered m) : Moves op n e m
  | watches {now : Nat} {later : Bool} (kept : n.fromBootstrap = true → later = true) :
      Moves op n (.watch now) { n with fromBootstrap := later, phase := .trigger }
  | triggers {now : Nat} {draw : Address → Nat → Bytes × Bytes} {m : Node S R}
      (triggered : Triggered op n m) : Moves op n (.trigger now draw) (m.enter .collect)
  | contributes {now : Nat} {share : DkgShare} {m : Node S R} (contributed : n.Contributed m) :
      Moves op n (.dkgShare now share) m

theorem handle_moves {op : Operator} {n m : Node S R} {e : Event}
    (handled : handle op e n = .ok () m) : Moves op n e m := by
  cases e with
  | bootstrapBlock now depth block =>
      obtain ⟨res, p, checked, rest⟩ := bind_eq_ok.mp handled
      cases res with
      | true => exact .bootAdopts checked rest
      | false =>
          cases rest
          exact .bootSkips checked
  | finishBootstrap =>
      obtain ⟨head, found, rest⟩ := asks_bind_eq_ok.mp handled
      obtain ⟨key, known, rest⟩ := asks_bind_eq_ok.mp rest
      cases rest
      exact .begins found
  | block now depth block =>
      obtain ⟨res, p, checked, rest⟩ := bind_eq_ok.mp handled
      cases res with
      | true => exact .adopts checked rest
      | false =>
          cases rest
          exact .skips checked
  | noBlock =>
      cases handled
      exact .idles rfl (idles_of_phase (Or.inr (by decide)) _ _)
  | tx tx =>
      obtain ⟨_, p, received, rest⟩ := bind_eq_ok.mp handled
      have idles : n.Idles (Event.tx tx).submits p := idles_receiveTx rfl received
      cases rest
      refine .idles rfl ?_
      beta_reduce
      split
      · exact idles
      · exact idles.enter (by decide)
  | noTx =>
      cases handled
      exact .idles rfl (idles_of_phase (Or.inr (by decide)) _ _)
  | sign now wait depth =>
      obtain ⟨_, p, signed, rest⟩ := bind_eq_ok.mp handled
      cases rest
      obtain ⟨made, q, run, rest⟩ := bind_eq_ok.mp signed
      cases made with
      | none =>
          cases rest
          exact .waits run
      | some block => exact .makes run rest
  | userTx tx =>
      obtain ⟨_, p, submitted, rest⟩ := bind_eq_ok.mp handled
      cases rest
      have idles : n.Idles (Event.userTx tx).submits p :=
        idles_userTx (fun t member => member) submitted
      exact .idles rfl (idles.enter (by decide))
  | query eid =>
      cases eid with
      | none =>
          cases handled
          exact .idles rfl (idles_of_phase (Or.inr (by decide)) _ _)
      | some eid =>
          obtain ⟨_, p, answered, rest⟩ := bind_eq_ok.mp handled
          cases rest
          exact .idles rfl ((idles_queryEid answered).enter (by decide))
  | blockQuery numbers =>
      obtain ⟨_, p, answered, rest⟩ := bind_eq_ok.mp handled
      cases rest
      exact .idles rfl ((idles_answerBlocks answered).enter (by decide))
  | share now share => exact .gathers rfl (fun boot => nomatch boot) (gathered_receiveShare handled)
  | noShare =>
      cases handled
      exact .idles rfl (idles_of_phase (Or.inr (by decide)) _ _)
  | futureShare => exact .gathers rfl (fun boot => nomatch boot) (gathered_takeFutureShare handled)
  | watch now =>
      cases handled
      simp only [watchShares]
      split
      · exact .watches fun _ => rfl
      · exact .watches fun kept => kept
  | trigger now draw =>
      obtain ⟨_, p, triggered, rest⟩ := bind_eq_ok.mp handled
      cases rest
      rcases triggerDkg_ok triggered with rfl | triggered
      · exact .idles rfl (idles_of_phase (Or.inr (by decide)) _ _)
      · exact .triggers triggered
  | dkgShare now share =>
      simp only [handle] at handled
      split at handled
      · rename_i mine
        exact .contributes (contributed_receiveDkgShare mine handled)
      · cases handled
        exact .idles rfl (idles_of_phase n.stays_same _ _)
  | noDkgShare now =>
      simp only [handle, endCollect] at handled
      split at handled
      · cases handled
      · cases handled
        exact .idles rfl (idles_of_phase (Or.inr (by decide)) _ _)

end Events

end Node

end IPchain
