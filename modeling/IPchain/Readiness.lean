import IPchain.Integrity

/-! What a ready round has come to. -/

namespace IPchain

open Lib Platform

namespace Node

section Readiness

variable {S R : Type} [IPSet S] [Radix R Address] [FirstAddress S] [Platform] [Hashlib] [Bls]
  [NodeConfig] [TrieKeys S] [TrieRoot] [Poststate] [StateRoot S] [Signing] {op : Operator}
  {n : Node S R}

open NodeConfig

/-- The runs since a round of the main loop: it has passed on a block, or come to a state in
which the shares are not ready. -/
inductive Resumed (op : Operator) (svc : Service S R) (meets : Node S R → Event → Prop) :
    List Block → Node S R → Prop
  | lacks {blocks : List Block} {n : Node S R} (run : Run op svc meets blocks n)
      (later : n.phase ≠ .bootstrap) (lacking : n.consensus.sharesReady = false) :
      Resumed op svc meets blocks n
  | passes {blocks : List Block} {n n' : Node S R} (run : Run op svc meets blocks n) (e : Event)
      (turn : e.phase = n.phase) (met : meets n e) (later : e.phase ≠ .bootstrap)
      (passed : handed op n e ≠ none) (handled : handle op e n = .ok () n') :
      Resumed op svc meets (blocks ++ taken op n e) n'
  | step {blocks : List Block} {n n' : Node S R} (resumed : Resumed op svc meets blocks n)
      (e : Event) (turn : e.phase = n.phase) (met : meets n e)
      (handled : handle op e n = .ok () n') : Resumed op svc meets (blocks ++ taken op n e) n'

theorem Resumed.backed {g : GenesisData} {svc : Service S R} (reachable : svc.Reachable g)
    (roots : g.Roots S op.genesis) (signs : op.Signs) (ticks : 0 < blockTime)
    {blocks : List Block} (resumed : Resumed op svc (Keeps op) blocks n) :
    ∃ head key, svc.chain.headHeader op.genesis = .ok head ∧
      svc.chain.getCurrentGroupKey op.genesis = .ok key ∧
      Steady op (lastHeader head blocks) (keyInForce key blocks) n ∧
      n.phase ≠ .bootstrap ∧ n.Backed (keyInForce key blocks) := by
  induction resumed with
  | lacks run later lacking =>
      obtain ⟨head, key, found, known, steady⟩ :=
        run.steady reachable roots signs ticks fun _ _ keeps => keeps
      refine ⟨head, key, found, known, steady, later, fun ready => ?_⟩
      exact absurd (lacking.symm.trans ready) (by decide)
  | passes run e turn met later passed handled =>
      obtain ⟨head, key, found, known, steady⟩ :=
        run.steady reachable roots signs ticks fun _ _ keeps => keeps
      obtain ⟨steady', backed⟩ := steady.step signs ticks met turn handled
      refine ⟨head, key, found, known, ?_⟩
      rw [lastHeader_append, keyInForce_append]
      exact ⟨steady', handled_later handled (turn ▸ later), backed later fun none =>
        absurd none passed⟩
  | step resumed e turn met handled ih =>
      obtain ⟨head, key, found, known, steady, later, backed⟩ := ih
      obtain ⟨steady', backed'⟩ := steady.step signs ticks met turn handled
      refine ⟨head, key, found, known, ?_⟩
      rw [lastHeader_append, keyInForce_append]
      exact ⟨steady', handled_later handled later, backed' (turn ▸ later) fun _ => backed⟩

/-- Once the shares of a round have been asked for, a node is ready only with the group
signature and the random number that follow its head. -/
theorem ready_signed {g : GenesisData} {svc : Service S R} (reachable : svc.Reachable g)
    (roots : g.Roots S op.genesis) (signs : op.Signs) (ticks : 0 < blockTime)
    {blocks : List Block} (resumed : Resumed op svc (Keeps op) blocks n)
    (ready : n.consensus.sharesReady = true) {last : BlockHeader}
    (current : n.service.chain.headHeader op.genesis = .ok last) :
    ∃ key, svc.chain.getCurrentGroupKey op.genesis = .ok key ∧
      Bls.verify (hexdigest (beaconMessage (encodeHex last.randomNumber) last.number n.count))
        n.consensus.groupSig (keyInForce key blocks) = true ∧
      n.consensus.currentRandomNo = hexdigest n.consensus.groupSig := by
  obtain ⟨head, key, -, known, steady, -, backed⟩ := resumed.backed reachable roots signs ticks
  obtain ⟨random, valid⟩ := backed ready
  rw [steady.random, steady.number] at valid
  rw [steady.placed.fronted.2 last current]
  exact ⟨key, known, valid, random⟩

end Readiness

end Node

namespace Sample.Watched

open Sample Sample.Recovered Node

/-- The main loop begins with a round that is ready, and with the random number of the head. -/
theorem stale_ready : ∃ (svc : Service AddressRanges (PrefixTable Address))
    (n : Node AddressRanges (PrefixTable Address)), svc.Reachable genesis ∧
      Node.Run op svc (fun _ _ => True) [] n ∧ n.phase = .blocks ∧
      n.consensus.sharesReady = true ∧
      n.consensus.currentRandomNo ≠ hexdigest n.consensus.groupSig ∧
      n.consensus.currentRandomNo = n.lastRandomNo := by
  obtain ⟨svc, n, reachable, roots, started, fresh, pool, watches, begun⟩ := start_loop
  have run : Node.Run op svc (fun _ _ => True) [] n := .start started
  have run := run.step .finishBootstrap (by rw [fresh]; rfl) trivial begun
  subst fresh
  refine ⟨svc, _, reachable, run, rfl, rfl, ?_, rfl⟩
  change encodeHex first.randomNumber ≠ hexdigest first.groupSig
  decide

theorem makeBlock_early {n : Node AddressRanges (PrefixTable Address)} {head : BlockHeader}
    (found : n.service.chain.headHeader op.genesis = .ok head)
    (early : 10 < (head.timestamp + 60) * second) : makeBlock op 10 1 n =
      .ok none { n with timestamp := head.timestamp, blockNum := head.number } := by
  refine asks_bind_eq_ok.mpr ⟨head, found, ?_⟩
  refine bind_eq_ok.mpr ⟨(), _, rfl, ?_⟩
  exact if_pos early

theorem idles_until_shares {meets : Node AddressRanges (PrefixTable Address) → Prop}
    (next : ∀ {n m : Node AddressRanges (PrefixTable Address)} (e : Event), meets n → e.Real →
      e.received = none → e.phase ≠ .shares ∧ e.phase ≠ .futureShares → e.phase = n.phase →
        taken op n e = [] → handle op e n = .ok () m → meets m)
    {n : Node AddressRanges (PrefixTable Address)} {head : BlockHeader} (met : meets n)
    (turn : n.phase = .blocks) (found : n.service.chain.headHeader op.genesis = .ok head)
    (early : 10 < (head.timestamp + 60) * second) : meets { n with
      processed := 0
      timestamp := head.timestamp
      blockNum := head.number
      sent := n.sent ++ [.blocks []]
      phase := .shares } := by
  have real {e : Event} (quiet : ∀ tx, ¬ e.submits tx) (other : e.phase ≠ .sign) : e.Real :=
    ⟨fun tx sent => absurd sent (quiet tx), fun _ _ _ same => absurd (by rw [same]; rfl) other⟩
  have atTxs := next .noBlock met (real (fun _ sent => sent.elim) (by decide)) rfl
    ⟨by decide, by decide⟩ turn.symm rfl rfl
  have atSign := next .noTx atTxs (real (fun _ sent => sent.elim) (by decide)) rfl
    ⟨by decide, by decide⟩ rfl rfl rfl
  have made := makeBlock_early (n := { n with processed := 0, phase := .sign }) found early
  have atUser := next (.sign 10 0 1) atSign
    ⟨fun tx sent => sent.elim, fun _ _ _ same => by cases same; decide⟩ rfl ⟨by decide, by decide⟩ rfl
    (by simp only [taken, handed, enter, made])
    (bind_eq_ok.mpr ⟨(), _, bind_eq_ok.mpr ⟨none, _, made, rfl⟩, rfl⟩)
  have atOor := next (.userTx none) atUser (real (fun _ sent => by cases sent) (by
    intro same
    cases same)) rfl ⟨by decide, by decide⟩ rfl rfl rfl
  have atQueries := next (.query none) atOor (real (fun _ sent => sent.elim) (by
    intro same
    cases same)) rfl ⟨by decide, by decide⟩ rfl rfl rfl
  exact next (.blockQuery []) atQueries (real (fun _ sent => sent.elim) (by
    intro same
    cases same)) rfl ⟨by decide, by decide⟩ rfl rfl rfl

theorem idle_until_shares {svc : Service AddressRanges (PrefixTable Address)}
    {n : Node AddressRanges (PrefixTable Address)} {blocks : List Block} {head : BlockHeader}
    (resumed : Resumed op svc (Keeps op) blocks n) (turn : n.phase = .blocks)
    (found : n.service.chain.headHeader op.genesis = .ok head)
    (early : 10 < (head.timestamp + 60) * second) :
    Resumed op svc (Keeps op) blocks { n with
      processed := 0
      timestamp := head.timestamp
      blockNum := head.number
      sent := n.sent ++ [.blocks []]
      phase := .shares } := by
  refine idles_until_shares (fun e resumed real quiet _ turn nothing handled => ?_) resumed turn
    found early
  have stepped := resumed.step e turn (keeps_quiet real quiet) handled
  rwa [nothing, List.append_nil] at stepped

def share1 : Share := ⟨some (owner 1), signature random1 1, 1⟩

theorem memberId_one {c : Consensus} (members : c.members = some (AList.insert none group ∅)) :
    c.memberId (some (owner 1)) = .ok (strOfInt (adler32 (owner 1).bytes)) := by
  have single : rows (AList.insert none group ∅ : AList fun _ : Option Address => Group) =
      [(none, group)] := List.perm_singleton.mp (Platform.items_perm _)
  have known : group.lookup (owner 1) = some ⟨strOfInt (adler32 (owner 1).bytes), none, none⟩ :=
    AList.lookup_insert ∅
  simp only [Consensus.memberId, members, single, Option.bind_some, known]

theorem storeShare_one {c : Consensus} {msg : Bytes} {share : Share}
    (source : share.source = some (owner 1))
    (members : c.members = some (AList.insert none group ∅)) (lacking : c.verified = false)
    (none : c.sharesIds = [] ∧ c.shares = []) (key : c.groupKey = [0x31])
    (sig : share.signature = hexdigest msg ++ [0x31]) :
    Consensus.storeShare share msg c = .ok true { c with
      sharesIds := [strOfInt (adler32 (owner 1).bytes)]
      shares := [share.signature]
      groupSig := share.signature
      verified := true
      currentRandomNo := hexdigest share.signature } := by
  have full : share.signature ≠ [] := by
    rw [sig]
    exact List.append_ne_nil_of_right_ne_nil _ (List.cons_ne_nil _ _)
  have valid : Bls.verify (hexdigest msg) share.signature [0x31] = true := decide_eq_true sig
  have recovered (ids : List Bytes) : Bls.recover ids [share.signature] = share.signature := rfl
  have enough : Threshold.threshold ≤ 1 := by decide
  simp only [Consensus.storeShare, source, memberId_one members, none, lacking, key,
    List.not_mem_nil, not_false_eq_true, and_self, if_true, List.nil_append, List.length_singleton,
    enough, recovered, if_neg full, valid]

theorem receives_share1 {n : Node AddressRanges (PrefixTable Address)}
    (sits : Sits n block1.header) (fresh : n.cache.blsShareCache = [])
    (members : n.consensus.members = some (AList.insert none group ∅))
    (lacking : n.consensus.verified = false)
    (none : n.consensus.sharesIds = [] ∧ n.consensus.shares = []) :
    ∃ m, handle op (.share 10 share1) n = .ok () m ∧ m.consensus.sharesReady = true := by
  have message : beaconMessage n.lastRandomNo n.blockNum n.count =
      beaconMessage (encodeHex random1) 1 0 := by
    rw [sits.random, sits.number, sits.count]
    rfl
  obtain ⟨c, stored, ready⟩ : ∃ c, Consensus.storeShare share1
      (beaconMessage n.lastRandomNo n.blockNum n.count) n.consensus = .ok true c ∧
        c.verified = true :=
    ⟨_, storeShare_one rfl members lacking none sits.key (by rw [message]; rfl), rfl⟩
  have unseen : n.cache.inBlsCache share1 = false := by
    rw [ShareCache.inBlsCache, fresh]
    rfl
  have number : share1.blockNumber = n.blockNum := sits.number.symm
  refine ⟨Node.send 10 [share1] { n with consensus := c }, ?_, ready⟩
  simp only [handle, receiveShare, sits.off, unseen, Bool.false_eq_true, if_false, number, if_true,
    bind, EStateM.bind, onConsensus, stored, update]

theorem resumed_share1 {svc : Service AddressRanges (PrefixTable Address)}
    {n : Node AddressRanges (PrefixTable Address)}
    (resumed : Resumed op svc (Keeps op) [block1] n) (turn : n.phase = .blocks)
    (sits : Sits n block1.header) (fresh : n.cache.blsShareCache = [])
    (members : n.consensus.members = some (AList.insert none group ∅))
    (lacking : n.consensus.verified = false)
    (none : n.consensus.sharesIds = [] ∧ n.consensus.shares = []) :
    ∃ m, Resumed op svc (Keeps op) [block1] m ∧ m.consensus.sharesReady = true := by
  have atShares := idle_until_shares resumed turn sits.watches.head (by decide)
  have sits : Sits { n with
      processed := 0
      timestamp := block1.header.timestamp
      blockNum := block1.header.number
      sent := n.sent ++ [.blocks []]
      phase := .shares } block1.header :=
    ⟨sits.watches, sits.pool, sits.off, sits.out, sits.mine, rfl, sits.random, sits.count, sits.key,
      sits.drawn⟩
  obtain ⟨m, handled, ready⟩ := receives_share1 sits fresh members lacking none
  have real : (Event.share 10 share1).Real :=
    ⟨fun _ sent => sent.elim, by intro _ _ _ same; cases same⟩
  exact ⟨m, atShares.step (.share 10 share1) rfl (keeps_quiet real rfl) handled, ready⟩

/-- The share of the only member completes the round after the first block. -/
theorem ready_signed_share1 : ∃ (svc : Service AddressRanges (PrefixTable Address))
    (n : Node AddressRanges (PrefixTable Address)), svc.Reachable genesis ∧
      Resumed op svc (Keeps op) [block1] n ∧ n.consensus.sharesReady = true ∧
      ∀ last, n.service.chain.headHeader op.genesis = .ok last →
        ∃ key, svc.chain.getCurrentGroupKey op.genesis = .ok key ∧
          Bls.verify (hexdigest (beaconMessage (encodeHex last.randomNumber) last.number n.count))
            n.consensus.groupSig (Node.keyInForce key [block1]) = true ∧
          n.consensus.currentRandomNo = hexdigest n.consensus.groupSig := by
  obtain ⟨svc, n, reachable, roots, started, fresh, pool, watches, begun⟩ := start_loop
  have run : Node.Run op svc (Keeps op) [] n := .start started
  have run := run.step .finishBootstrap (by rw [fresh]; rfl)
    (keeps_quiet (real_received _ (Or.inr rfl)) rfl) begun
  subst fresh
  have sits : Sits { Node.fresh svc 10 first [0x31] [owner 1] group ⟨.v4, 0, by decide⟩ with
      timestamp := 1
      lastRandomNo := encodeHex first.randomNumber
      fromBootstrap := true
      phase := .blocks } first :=
    ⟨watches, pool, rfl, rfl, rfl, rfl, rfl, rfl, rfl, List.mem_cons_self⟩
  obtain ⟨due, p, svc', ⟨s, rfl⟩, checked, adopted, taken, still⟩ := sits.receives (Hashlib.sha256_length _)
    (rfl : block1 = blockAfter first.hash (first.number + 1) 2 random1 _) (by decide) (by decide)
    (by decide : 2 ≤ 10) selected1
  have resumed := Resumed.passes run (.block 10 1 block1) rfl (sits.keeps1 rfl)
    (by intro same; cases same) (by simp only [handed, checked]; exact Option.some_ne_none _) adopted
  rw [taken] at resumed
  obtain ⟨m, resumed, ready⟩ := resumed_share1 resumed rfl (still listed1) rfl rfl rfl ⟨rfl, rfl⟩
  have signs : op.Signs := fun key member => by cases member
  exact ⟨svc, m, reachable, resumed, ready, fun last current =>
    Node.ready_signed reachable roots signs (by decide) resumed ready current⟩

end Sample.Watched

end IPchain
