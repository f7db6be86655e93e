import IPchain.Keys

/-! What the key in force has verified, in every run. -/

namespace IPchain

open Lib Platform

namespace Node

section Steady

variable {S R : Type} [IPSet S] [Radix R Address] [FirstAddress S] [Platform] [Hashlib] [Bls]
  [NodeConfig] [TrieKeys S] [TrieRoot] [Poststate] [StateRoot S] [Signing] {op : Operator}
  {n m p : Node S R} {e : Event} {block : Block} {last : BlockHeader} {key : Bytes}

open NodeConfig

omit [Radix R Address] [FirstAddress S] [TrieKeys S] [TrieRoot] [Poststate] [StateRoot S]
  [Signing] in
theorem Steady.gathers (steady : Steady op last key n) (turn : n.phase ≠ .bootstrap)
    (placed : Placed op last m) (gathered : n.Gathered m) :
    Steady op last key m ∧ (n.Backed key → m.Backed key) := by
  obtain ⟨c, cache, phase, sent, gathers, stays, rfl⟩ := gathered
  have later : phase ≠ .bootstrap := by
    rcases stays with rfl | later
    · exact turn
    · exact later
  have signed (ready : c.verified = true) : c = n.consensus ∨
      (c.currentRandomNo = hexdigest c.groupSig ∧
        Bls.verify (hexdigest (beaconMessage n.lastRandomNo n.blockNum n.count))
          c.groupSig key = true) := by
    cases gathers with
    | idle => exact Or.inl rfl
    | more lacking some =>
        have ready : n.consensus.verified = true := ready
        exact absurd (lacking.symm.trans ready) (by decide)
    | full lacking some valid =>
        have quiet : n.awaits = false := by
          cases busy : n.awaits with
          | false => rfl
          | true => exact absurd (lacking.symm.trans (steady.waits busy).2) (by decide)
        rw [(steady.down quiet).2.2] at valid
        exact Or.inr ⟨rfl, valid⟩
  constructor
  · refine ⟨placed, steady.count, steady.number, steady.random, gathers.random steady.written,
      fun boot => absurd boot later, steady.mine, ?_, ?_, ?_⟩
    · intro busy
      obtain ⟨renewal, ready⟩ := steady.waits busy
      have same : c = n.consensus := gathers.idle_of_verified ready
      exact ⟨renewal, same ▸ ready⟩
    · refine Eq.trans ?_ steady.current
      simp only [usedKey, gathers.groupKey, gathers.previous]
    · intro ready
      rcases signed ready with rfl | signed
      · exact steady.signed ready
      · exact Or.inr signed
  · intro backed ready
    rcases signed ready with rfl | signed
    · exact backed ready
    · exact signed

omit [Radix R Address] [FirstAddress S] [TrieRoot] [Poststate] [StateRoot S] [Signing] in
theorem Steady.triggers (steady : Steady op last key n) (placed : Placed op last (m.enter .collect))
    (triggered : Triggered op n m) :
    Steady op last key (m.enter .collect) ∧ (n.Backed key → (m.enter .collect).Backed key) := by
  obtain ⟨renewal, off, stays, ready, begun⟩ := triggered
  obtain ⟨group, last', a, c, on, cache, sent, -, -, -, settled, others, rfl⟩ := begun
  have round : c.toRound = n.consensus.toRound := congrArg Prod.fst settled
  have previous : c.previousGroupKey = n.consensus.groupKey := congrArg Prod.snd settled
  have quiet : n.awaits = false := by rw [Node.awaits, stays, off, Bool.and_false]; rfl
  obtain ⟨-, -, current⟩ := steady.down quiet
  constructor
  · refine ⟨placed, steady.count, steady.number, steady.random, ?_, ?_, ?_,
      fun _ => ⟨renewal, ?_⟩, ?_, ?_⟩
    · exact round ▸ steady.written
    · intro boot
      cases boot
    · intro leaves
      have leaves : (!on) = true := leaves
      have down : on = false := by simpa using leaves
      refine ⟨?_, down⟩
      apply Bool.of_not_eq_false
      intro mine
      exact absurd (down.symm.trans (others mine).1) (by decide)
    · exact (congrArg Round.verified round).trans ready
    · change (if !on || on then c.previousGroupKey else c.groupKey) = key
      rw [Bool.not_or_self, if_pos rfl, previous]
      exact current
    · intro ready'
      rcases steady.signed ready with stale | ⟨random, valid⟩
      · exact Or.inl ((congrArg Round.currentRandomNo round).trans stale)
      · refine Or.inr ⟨?_, ?_⟩
        · exact (congrArg Round.currentRandomNo round).trans
            (random.trans (congrArg hexdigest (congrArg Round.groupSig round).symm))
        · exact (congrArg (fun sig => Bls.verify _ sig key) (congrArg Round.groupSig round)).trans
            valid
  · intro backed ready'
    obtain ⟨random, valid⟩ := backed ready
    constructor
    · exact (congrArg Round.currentRandomNo round).trans
        (random.trans (congrArg hexdigest (congrArg Round.groupSig round).symm))
    · exact (congrArg (fun sig => Bls.verify _ sig key) (congrArg Round.groupSig round)).trans valid

omit [Radix R Address] [FirstAddress S] [TrieKeys S] [TrieRoot] [Poststate] [StateRoot S]
  [Signing] in
theorem Steady.contributes (steady : Steady op last key n) (turn : n.phase ≠ .bootstrap)
    (placed : Placed op last m) (contributed : n.Contributed m) :
    Steady op last key m ∧ (n.Backed key → m.Backed key) := by
  obtain ⟨c, on, out, cache, sent, phase, settled, others, flags, stays, rfl⟩ := contributed
  have round : c.toRound = n.consensus.toRound := congrArg Prod.fst settled
  have previous : c.previousGroupKey = n.consensus.previousGroupKey := congrArg Prod.snd settled
  have ready : c.verified = n.consensus.verified := congrArg Round.verified round
  have current : c.currentRandomNo = n.consensus.currentRandomNo :=
    congrArg Round.currentRandomNo round
  have sig : c.groupSig = n.consensus.groupSig := congrArg Round.groupSig round
  have later : phase ≠ .bootstrap := by
    rcases stays with rfl | later
    · exact turn
    · exact later
  have signed (before : n.Signed key) : c.currentRandomNo = hexdigest c.groupSig ∧
      Bls.verify (hexdigest (beaconMessage n.lastRandomNo n.blockNum n.count)) c.groupSig key =
        true := by
    rw [current, sig]
    exact before
  constructor
  · refine ⟨placed, steady.count, steady.number, steady.random, ?_,
      fun boot => absurd boot later, ?_, ?_, ?_, ?_⟩
    · obtain ⟨data, written⟩ := steady.written
      exact ⟨data, current.trans written⟩
    · rcases flags with ⟨rfl, rfl⟩ | ⟨mine, -, rfl, rfl⟩
      · exact steady.mine
      · exact fun _ => ⟨mine, rfl⟩
    · intro busy
      have before : n.awaits = true := by
        rcases flags with ⟨rfl, rfl⟩ | ⟨-, before, -, -⟩
        · exact busy
        · rw [Node.awaits, before, Bool.or_true]
      obtain ⟨renewal, verified⟩ := steady.waits before
      exact ⟨renewal, ready.trans verified⟩
    · change (if out || on then c.previousGroupKey else c.groupKey) = key
      rcases flags with ⟨rfl, rfl⟩ | ⟨-, before, rfl, rfl⟩
      · refine Eq.trans ?_ steady.current
        rw [usedKey, previous]
        cases off : n.dkgOn with
        | false => rw [others (Or.inl off)]
        | true => rw [Bool.or_true, if_pos rfl, if_pos rfl]
      · have busy : n.awaits = true := by rw [Node.awaits, before, Bool.or_true]
        rw [Bool.true_or, if_pos rfl, previous]
        exact steady.up busy
    · intro verified
      rcases steady.signed (ready.symm.trans verified) with stale | before
      · exact Or.inl (current.trans stale)
      · exact Or.inr (signed before)
  · intro backed verified
    exact signed (backed (ready.symm.trans verified))

theorem Steady.step (steady : Steady op last key n) (signs : op.Signs) (ticks : 0 < blockTime)
    (keeps : Keeps op n e) (turn : e.phase = n.phase) (handled : handle op e n = .ok () m) :
    Steady op (lastHeader last (taken op n e)) (keyInForce key (taken op n e)) m ∧
      (e.phase ≠ .bootstrap → (handed op n e = none → n.Backed key) →
        m.Backed (keyInForce key (taken op n e))) := by
  have front := steady.placed.step signs ticks keeps.real keeps.lets handled
  have quiet (nothing : handed op n e = none)
      (kept : Placed op last m → Steady op last key m ∧ (n.Backed key → m.Backed key)) :
      Steady op (lastHeader last (taken op n e)) (keyInForce key (taken op n e)) m ∧
        (e.phase ≠ .bootstrap → (handed op n e = none → n.Backed key) →
          m.Backed (keyInForce key (taken op n e))) := by
    have none : taken op n e = [] := by simp only [taken, nothing]
    rw [none] at front ⊢
    obtain ⟨steady', backed⟩ := kept front
    exact ⟨steady', fun _ before => backed (before nothing)⟩
  have taken {block : Block} {p : Node S R} (passed : handed op n e = some (block, p)) :
      taken op n e = [block] :=
    steady.placed.taken signs ticks keeps.real keeps.lets handled passed
  cases handle_moves handled with
  | idles nothing idles =>
      obtain ⟨svc, phase, processed, sent, calls, stays, rfl⟩ := idles
      refine quiet nothing fun placed => steady.same ⟨rfl, rfl, rfl, rfl, rfl, rfl, rfl, ?_⟩ placed
      intro boot
      rcases stays with same | later
      · exact same.symm.trans boot
      · exact absurd boot later
  | skips checked =>
      refine quiet (by simp only [handed, checked]) fun placed => ?_
      rcases checkBlock_false checked with ⟨-, rfl⟩ | ⟨verifies, x, p, s, passed, -, -, rfl⟩
      · exact steady.same ⟨rfl, rfl, rfl, rfl, rfl, rfl, rfl, fun boot => boot⟩ placed
      · cases busy : n.awaits with
        | true =>
            obtain ⟨q, passed'⟩ := keeps.accepted _ _ _ rfl busy verifies
            simp only [handed, checked] at passed'
            cases passed'
        | false =>
            obtain ⟨off, out, -⟩ := steady.down busy
            cases passed with
            | left mine leaves => exact absurd (leaves.symm.trans out) (by decide)
            | renewed stays on => exact absurd (on.symm.trans off) (by decide)
            | normal stays off =>
                exact steady.same ⟨rfl, rfl, rfl, rfl, rfl, rfl, rfl, fun boot => boot⟩ placed
  | @adopts now depth block p m checked adopted =>
      have passed : handed op n (.block now depth block) = some (block, p) := by
        simp only [handed, checked]
      rw [taken passed] at front ⊢
      have due : n.Due now block := keeps.lets block rfl ⟨p, passed⟩
      obtain ⟨steady', backed⟩ := steady.adopts turn.symm due
        (keeps.renewal now depth block p rfl passed) front checked adopted
      exact ⟨steady', fun _ _ => backed⟩
  | @bootSkips now depth block m checked =>
      have nothing : handed op n (.bootstrapBlock now depth block) = none := by
        simp only [handed, checked]
      refine quiet nothing fun placed => ?_
      rcases checkBootstrap_false checked with ⟨rfl, -, -⟩ | ⟨x, p, s, drawn, -, -, rfl⟩
      · exact steady.same ⟨rfl, rfl, rfl, rfl, rfl, rfl, rfl, fun boot => boot⟩ placed
      · obtain ⟨t, key', alike, rfl, keyed⟩ := drawn.rekeyed
        have same := keyed.mpr (keeps.skipped now depth block rfl nothing)
        refine steady.same ⟨?_, rfl, rfl, rfl, rfl, rfl, rfl, fun boot => boot⟩ placed
        subst same
        rfl
  | @bootAdopts now depth block p m checked adopted =>
      have passed : handed op n (.bootstrapBlock now depth block) = some (block, p) := by
        simp only [handed, checked]
      rw [taken passed] at front ⊢
      refine ⟨steady.bootAdopts turn.symm front checked adopted, fun later => ?_⟩
      exact absurd rfl later
  | @begins head found =>
      refine quiet rfl fun placed => ?_
      rw [steady.placed.fronted.2 head found] at placed ⊢
      exact steady.same ⟨rfl, rfl, rfl, steady.random.symm, rfl, rfl, rfl,
        fun boot => by cases boot⟩ placed
  | @waits now wait depth p made =>
      refine quiet (by simp only [handed, made]) fun placed => ?_
      obtain ⟨head, signerSet, signingAddr, found, -, rfl⟩ := makeBlock_none made
      rw [steady.placed.fronted.2 head found] at placed ⊢
      exact steady.same ⟨rfl, rfl, steady.number.symm, rfl, rfl, rfl, rfl,
        fun boot => by cases boot⟩ placed
  | @makes now wait depth block p m made adopted =>
      have passed : handed op n (.sign now wait depth) = some (block, p) := by
        simp only [handed, made]
      rw [taken passed] at front ⊢
      have due := handed_due steady.placed signs ticks keeps.real keeps.lets passed
      have number : block.header.number = n.blockNum + 1 := by
        rw [steady.number]
        exact (steady.placed.scans (handed_scans passed)).due_number due
      have before : Placed op block.header m := ⟨front.ready, front.fronted⟩
      obtain ⟨steady', backed⟩ := steady.makes turn.symm number before made adopted
      have moved := steady'.same (m := m.enter .user)
        ⟨rfl, rfl, rfl, rfl, rfl, rfl, rfl, fun boot => by cases boot⟩ front
      exact ⟨moved.1, fun _ _ => moved.2 backed⟩
  | gathers nothing later gathered =>
      rw [turn] at later
      exact quiet nothing fun placed => steady.gathers later placed gathered
  | watches kept =>
      exact quiet rfl fun placed => steady.same ⟨rfl, rfl, rfl, rfl, rfl, rfl, rfl,
        fun boot => by cases boot⟩ placed
  | triggers triggered => exact quiet rfl fun placed => steady.triggers placed triggered
  | contributes contributed =>
      have later : n.phase ≠ .bootstrap := by
        rw [← turn]
        exact fun boot => by cases boot
      exact quiet rfl fun placed => steady.contributes later placed contributed

omit [Radix R Address] [FirstAddress S] [TrieRoot] [Poststate] [StateRoot S] [Signing] in
theorem steady_start {svc : Service S R} {now : Nat} (started : start op now svc = .ok n)
    (placed : Placed op last n) (found : svc.chain.headHeader op.genesis = .ok last) :
    ∃ key, svc.chain.getCurrentGroupKey op.genesis = .ok key ∧ Steady op last key n := by
  obtain ⟨head, key, group, d, found', known, -, ⟨c, setUp, gathers⟩, rfl⟩ := start_ok started
  rw [found] at found'
  cases found'
  refine ⟨key, known, placed, rfl, rfl, rfl, gathers.random ⟨_, setUp.random⟩,
    fun _ => ⟨rfl, rfl⟩, ?_, ?_, ?_, ?_⟩
  · intro leaves
    cases leaves
  · intro busy
    simp only [Node.awaits, Bool.and_false, Bool.or_false] at busy
    cases busy
  · exact gathers.groupKey.trans setUp.current
  · intro ready
    cases gathers with
    | idle => exact Or.inl setUp.random
    | more lacking some => exact Or.inl setUp.random
    | full lacking some valid => exact Or.inr ⟨rfl, setUp.current ▸ valid⟩

theorem Run.steady {g : GenesisData} {svc : Service S R} (reachable : svc.Reachable g)
    (roots : g.Roots S op.genesis) (signs : op.Signs) (ticks : 0 < blockTime)
    {meets : Node S R → Event → Prop} (keeps : ∀ n e, meets n e → Keeps op n e)
    {blocks : List Block} (run : Run op svc meets blocks n) :
    ∃ head key, svc.chain.headHeader op.genesis = .ok head ∧
      svc.chain.getCurrentGroupKey op.genesis = .ok key ∧
        Steady op (lastHeader head blocks) (keyInForce key blocks) n := by
  obtain ⟨head, fronted⟩ := reachable.fronted roots
  induction run with
  | start started =>
      obtain ⟨placed, found⟩ := placed_start started reachable.ready fronted
      obtain ⟨key, known, steady⟩ := steady_start started placed found
      exact ⟨head, key, found, known, steady⟩
  | step run e turn met handled ih =>
      obtain ⟨head', key, found, known, steady⟩ := ih
      refine ⟨head', key, found, known, ?_⟩
      rw [lastHeader_append, keyInForce_append]
      exact (steady.step signs ticks (keeps _ _ met) turn handled).1

end Steady

section Guards

variable {S R : Type} [IPSet S] [Radix R Address] [FirstAddress S] [Platform] [Hashlib] [Bls]
  [NodeConfig] [TrieKeys S] [TrieRoot] [Poststate] [StateRoot S] [Signing] {op : Operator}
  {n m p : Node S R} {e : Event} {block : Block} {last : BlockHeader} {key : Bytes}

open NodeConfig

/-- A step that passes on sound blocks only. In the main loop the random number of a block is
not compared with its group signature, so what comes in with a valid one has to have the right
number; the bootstrap verifies a new key with the one from the start; and a node that has not had
any shares has the random number of its head. -/
structure Guards (op : Operator) (n : Node S R) (e : Event) : Prop extends Keeps op n e where
  hashed : ∀ now depth block, e = .block now depth block → n.verifies block = true →
    block.header.randomNumber = Hashlib.sha256 block.header.groupSig
  single : ∀ now depth block p, e = .bootstrapBlock now depth block →
    handed op n e = some (block, p) → renews block.header.number = true →
      n.consensus.previousGroupKey = n.consensus.groupKey
  fresh : ∀ now wait depth block p, e = .sign now wait depth → handed op n e = some (block, p) →
    n.consensus.currentRandomNo ≠ n.lastRandomNo

theorem Steady.passes_on (steady : Steady op last key n) (guards : Guards op n e)
    (turn : e.phase = n.phase) (passed : handed op n e = some (block, p)) :
    block.header.randomNumber = Hashlib.sha256 block.header.groupSig ∧
      Bls.verify (hexdigest (beaconMessage (encodeHex last.randomNumber) last.number n.count))
        block.header.groupSig key = true := by
  rw [← steady.random, ← steady.number]
  cases e with
  | bootstrapBlock now depth received =>
      have opened := passed
      simp only [handed] at opened
      split at opened
      · rename_i checked
        cases opened
        obtain ⟨verifies, hashed, -⟩ := checkBootstrap_true checked
        obtain ⟨off, out⟩ := steady.boots turn.symm
        have quiet : n.awaits = false := by rw [Node.awaits, out, off, Bool.and_false]; rfl
        obtain ⟨-, -, current⟩ := steady.down quiet
        refine ⟨encodeHex_injective hashed, ?_⟩
        simp only [bootVerifies, Consensus.verifyGroupSig] at verifies
        split at verifies
        · rename_i renewal
          rw [guards.single now depth block p rfl passed renewal, current] at verifies
          exact verifies
        · rw [current] at verifies
          exact verifies
      · cases opened
  | block now depth received =>
      have opened := passed
      simp only [handed] at opened
      split at opened
      · rename_i checked
        cases opened
        obtain ⟨verifies, -⟩ := checkBlock_true checked
        refine ⟨guards.hashed now depth block rfl verifies, ?_⟩
        rw [verifies_eq, steady.current] at verifies
        exact verifies
      · cases opened
  | sign now wait depth =>
      have opened := passed
      simp only [handed] at opened
      split at opened
      · rename_i made
        cases opened
        obtain ⟨-, ready, random, sig, -⟩ := steady.own made
        rcases steady.signed ready with stale | ⟨digest, valid⟩
        · exact absurd stale (guards.fresh now wait depth block p rfl passed)
        · rw [sig]
          exact ⟨encodeHex_injective (random.symm.trans digest), valid⟩
      · cases opened
  | _ => cases passed

/-- Every block that is passed on has the digest of its group signature for its random number,
and the key in force verifies the signature of what follows the block before it. -/
theorem passed_on_sound {g : GenesisData} {svc : Service S R} (reachable : svc.Reachable g)
    (roots : g.Roots S op.genesis) (signs : op.Signs) (ticks : 0 < blockTime)
    {blocks : List Block} (run : Run op svc (Guards op) blocks n) (turn : e.phase = n.phase)
    (guards : Guards op n e) (passed : handed op n e = some (block, p)) :
    ∃ head key, svc.chain.headHeader op.genesis = .ok head ∧
      svc.chain.getCurrentGroupKey op.genesis = .ok key ∧
      block.header.randomNumber = Hashlib.sha256 block.header.groupSig ∧
      Bls.verify (hexdigest (beaconMessage (encodeHex (lastHeader head blocks).randomNumber)
        (lastHeader head blocks).number n.count)) block.header.groupSig (keyInForce key blocks) =
          true := by
  obtain ⟨head, key, found, known, steady⟩ :=
    run.steady reachable roots signs ticks fun _ _ guards => guards.toKeeps
  obtain ⟨hashed, valid⟩ := steady.passes_on guards turn passed
  exact ⟨head, key, found, known, hashed, valid⟩

end Guards

end Node

namespace Sample.Watched

open Sample Sample.Recovered Node

theorem keeps_quiet {n : Node AddressRanges (PrefixTable Address)} {e : Event} (real : e.Real)
    (quiet : e.received = none) : Node.Keeps op n e where
  real := real
  lets block brought := by
    rw [quiet] at brought
    cases brought
  accepted now depth block same := by
    subst same
    cases quiet
  renewal now depth block p same := by
    subst same
    cases quiet
  skipped now depth block same := by
    subst same
    cases quiet

theorem Sits.keeps1 {n : Node AddressRanges (PrefixTable Address)} (sits : Sits n first)
    (boot : n.fromBootstrap = true) : Node.Keeps op n (.block 10 1 block1) where
  real := real_received _ (Or.inl (Option.some_ne_none _))
  lets block brought _ := Option.some.inj brought ▸ (sits.receives1 boot).1
  accepted now depth block _ busy := by
    rw [Node.awaits, sits.mine, sits.off] at busy
    cases busy
  renewal now depth block p same _ _ renewed := by
    cases same
    exact absurd renewed (by decide)
  skipped now depth block same := by cases same

theorem guards_quiet {n : Node AddressRanges (PrefixTable Address)} :
    Node.Guards op n .finishBootstrap where
  toKeeps := keeps_quiet (real_received _ (Or.inr rfl)) rfl
  hashed now depth block same := by cases same
  single now depth block p same := by cases same
  fresh now wait depth block p same := by cases same

theorem Sits.guards1 {n : Node AddressRanges (PrefixTable Address)} (sits : Sits n first)
    (boot : n.fromBootstrap = true) : Node.Guards op n (.block 10 1 block1) where
  toKeeps := sits.keeps1 boot
  hashed now depth block same _ := by
    cases same
    rfl
  single now depth block p same := by cases same
  fresh now wait depth block p same := by cases same

theorem passed_on_sound_block1 : ∃ (svc : Service AddressRanges (PrefixTable Address))
    (n p : Node AddressRanges (PrefixTable Address)) (key : Bytes), svc.Reachable genesis ∧
      Node.Run op svc (Node.Guards op) [] n ∧
      Node.handed op n (.block 10 1 block1) = some (block1, p) ∧
      svc.chain.getCurrentGroupKey first = .ok key ∧
      block1.header.randomNumber = Hashlib.sha256 block1.header.groupSig ∧
      Bls.verify (hexdigest (beaconMessage (encodeHex first.randomNumber) 0 n.count))
        block1.header.groupSig key = true := by
  obtain ⟨svc, n, m, reachable, roots, found, started, -, turn, begun, sits, later, boot⟩ :=
    start_sits
  have run : Node.Run op svc (Node.Guards op) [] n := .start started
  have run := run.step .finishBootstrap turn.symm guards_quiet begun
  obtain ⟨s, -, checked⟩ := sits.checks (Hashlib.sha256_length _)
    (rfl : block1 = blockAfter first.hash (first.number + 1) 2 random1 _)
  have passed : Node.handed op m (.block 10 1 block1) =
      some (block1, { m.withState s with signerSet := true }) := by
    simp only [Node.handed, checked]
  have signs : op.Signs := fun key member => by cases member
  have turn : (Event.block 10 1 block1).phase = m.phase := later.symm
  obtain ⟨head, key, found', known, hashed, valid⟩ := Node.passed_on_sound reachable roots signs
    (by decide) run turn (sits.guards1 boot) passed
  rw [found] at found'
  cases found'
  exact ⟨svc, m, _, key, reachable, run, passed, known, hashed, valid⟩

def chosen : Block :=
  blockAfter first.hash 1 2 (List.replicate 32 1) (signature first.randomNumber 0)

theorem chosen_passed_on : ∃ (svc : Service AddressRanges (PrefixTable Address))
    (n p : Node AddressRanges (PrefixTable Address)), svc.Reachable genesis ∧
      Node.Run op svc (fun _ _ => True) [] n ∧ n.phase = .blocks ∧
      Node.handed op n (.block 10 1 chosen) = some (chosen, p) ∧
      chosen.header.randomNumber ≠ Hashlib.sha256 chosen.header.groupSig := by
  obtain ⟨svc, n, m, reachable, roots, found, started, -, turn, begun, sits, later, -⟩ :=
    start_sits
  have run : Node.Run op svc (fun _ _ => True) [] n := .start started
  have run := run.step .finishBootstrap turn.symm trivial begun
  obtain ⟨s, -, checked⟩ := sits.checks List.length_replicate
    (rfl : chosen = blockAfter first.hash (first.number + 1) 2 (List.replicate 32 1) _)
  refine ⟨svc, m, { m.withState s with signerSet := true }, reachable, run, later, ?_, ?_⟩
  · simp only [Node.handed, checked]
  · decide +kernel

end Sample.Watched

end IPchain
