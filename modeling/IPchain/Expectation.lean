import IPchain.Observer

/-! The signer that a node expects after the head of its chain. -/

namespace IPchain

open Lib Platform

namespace Service

section Own

variable {S R : Type} [IPSet S] [Radix R Address] [Platform] [TrieRoot] [Poststate] [StateRoot S]
  [TrieKeys S] [Config] {svc svc' : Service S R} {now depth : Nat} {coinbase : Item}
  {randomNo : Bytes} {groupKey : Option Bytes} {groupSig : Bytes} {count : Nat} {block : Block}

theorem createBlock_beacon
    (made : createBlock now depth coinbase randomNo groupKey groupSig count svc = .ok block svc') :
    parseAsBin randomNo = .ok block.header.randomNumber ∧ block.header.groupSig = groupSig ∧
      headerKey block.header.number groupKey = .ok block.header.groupPubkey := by
  obtain ⟨a, key, randomNumber, -, grouped, parsed, tries, -⟩ := createBlock_eq_ok.mp made
  obtain ⟨temp, -, rest⟩ := except_bind_eq_ok.mp tries
  split at rest
  · cases rest
  · cases rest
    exact ⟨parsed, rfl, grouped⟩

omit [IPSet S] [Radix R Address] [Platform] [TrieRoot] [Poststate] [StateRoot S] [TrieKeys S]
  [Config] in
theorem parseAsBin_encodeHex (data : Bytes) : parseAsBin (encodeHex data) = .ok data := by
  have plain : (encodeHex data).take 2 ≠ [0x30, 0x78] := by
    cases data with
    | nil => exact fun same => List.cons_ne_nil _ _ same.symm
    | cons b rest =>
        intro same
        have low : hexDigit (b.toNat % 16) = 0x78 := (List.cons.inj (List.cons.inj same).2).1
        exact hexDigit_ne _ (Nat.mod_lt _ (by decide)) low
  rw [parseAsBin, if_neg plain]
  exact decodeHex_encodeHex data

end Own

end Service

namespace Node

section Expectation

variable {S R : Type} [IPSet S] [Radix R Address] [FirstAddress S] [Platform] [Hashlib] [Bls]
  [NodeConfig] [TrieKeys S] [TrieRoot] [Poststate] [StateRoot S] [Signing] {op : Operator}
  {n m p : Node S R} {e : Event} {block : Block} {last : BlockHeader}

open NodeConfig

/-- The node is at the head of its chain, and expects the signer that the head selects. -/
structure Expects (op : Operator) (last : BlockHeader) (n : Node S R) : Prop where
  placed : Placed op last n
  signer : selectSigner (encodeHex last.randomNumber) last.number = .ok n.consensus.nextSigner
  random : ∃ data, n.consensus.currentRandomNo = encodeHex data

/-- A step that leads every node to the same signer. What the main loop accepts is due, and
either the shares have come to the random number of the block already, or the node takes it
over. -/
structure Follows (op : Operator) (n : Node S R) (e : Event) : Prop where
  real : e.Real
  lets : n.Lets op e
  random : ∀ now depth block p, e = .block now depth block → handed op n e = some (block, p) →
    n.fromBootstrap = true ∨ n.consensus.currentRandomNo = encodeHex block.header.randomNumber

omit [Radix R Address] [Platform] [Hashlib] [Bls] [NodeConfig] [TrieKeys S] [TrieRoot] [Poststate]
  [StateRoot S] [Signing] in
theorem Passed.round {x : Option IPAddress} (passed : Passed block n x p) :
    p.consensus.toRound = n.consensus.toRound ∧ p.fromBootstrap = n.fromBootstrap := by
  cases passed with
  | left mine out key drawn alike => exact ⟨rfl, rfl⟩
  | renewed stays on drawn alike => exact ⟨rfl, rfl⟩
  | normal stays off => exact ⟨rfl, rfl⟩

omit [Radix R Address] [Bls] [TrieRoot] [Poststate] [StateRoot S] [Signing] in
theorem Drawn.round {x : Option IPAddress} (drawn : Drawn op block n x p) :
    p.consensus.toRound = n.consensus.toRound := by
  cases drawn with
  | renewed number known drawn alike => rfl
  | normal number => rfl

omit [NodeConfig] [TrieKeys S] [TrieRoot] [Poststate] [StateRoot S] [Signing] in
theorem checkBlock_round {b : Bool} (checked : checkBlock block n = .ok b m) :
    m.consensus.toRound = n.consensus.toRound ∧ m.fromBootstrap = n.fromBootstrap := by
  cases b with
  | true =>
      obtain ⟨-, x, p, s, passed, -, -, rfl⟩ := checkBlock_true checked
      exact passed.round
  | false =>
      rcases checkBlock_false checked with ⟨-, rfl⟩ | ⟨-, x, p, s, passed, -, -, rfl⟩
      · exact ⟨rfl, rfl⟩
      · exact passed.round

omit [TrieRoot] [Poststate] [StateRoot S] [Signing] in
theorem checkBootstrap_round {b : Bool} (checked : checkBootstrap op block n = .ok b m) :
    m.consensus.toRound = n.consensus.toRound := by
  cases b with
  | true =>
      obtain ⟨-, -, x, p, s, drawn, -, -, rfl⟩ := checkBootstrap_true checked
      exact drawn.round
  | false =>
      rcases checkBootstrap_false checked with ⟨rfl, -, -⟩ | ⟨x, p, s, drawn, -, -, rfl⟩
      · rfl
      · exact drawn.round

omit [Radix R Address] [FirstAddress S] [TrieKeys S] [TrieRoot] [Poststate] [StateRoot S]
  [Signing] in
theorem newRound_signer {now : Nat} (begun : newRound now n = .ok () m) :
    m.consensus.nextSigner = n.consensus.nextSigner ∧
      ((∃ data, n.consensus.currentRandomNo = encodeHex data) →
        ∃ data, m.consensus.currentRandomNo = encodeHex data) := by
  rcases newRound_ok begun with ⟨-, rfl⟩ | ⟨-, shares, c, created, rfl⟩
  · exact ⟨rfl, fun written => written⟩
  · obtain ⟨-, stored⟩ := Consensus.createShares_ok created
    obtain ⟨gathers, -⟩ := Consensus.storeShares_ok stored
    exact ⟨gathers.signer, gathers.random⟩

omit [Radix R Address] [FirstAddress S] [TrieRoot] [Poststate] [StateRoot S] [Signing] in
theorem expects_start {svc : Service S R} {now : Nat} (started : start op now svc = .ok n)
    (placed : Placed op last n) (found : svc.chain.headHeader op.genesis = .ok last) :
    Expects op last n := by
  obtain ⟨head, key, group, d, found', -, -, ⟨c, setUp, gathers⟩, rfl⟩ := start_ok started
  rw [found] at found'
  cases found'
  refine ⟨placed, ?_, gathers.random ⟨_, setUp.random⟩⟩
  exact setUp.signer.trans (congrArg Except.ok gathers.signer.symm)

theorem Expects.step (expects : Expects op last n) (signs : op.Signs) (ticks : 0 < blockTime)
    (follows : Follows op n e) (handled : handle op e n = .ok () m) :
    Expects op (lastHeader last (taken op n e)) m := by
  obtain ⟨placed, signer, random⟩ := expects
  have step := placed.step signs ticks follows.real follows.lets handled
  have kept (nothing : handed op n e = none) (round : m.consensus.toRound = n.consensus.toRound) :
      Expects op (lastHeader last (taken op n e)) m := by
    have none : taken op n e = [] := by simp only [taken, nothing]
    rw [none] at step ⊢
    refine ⟨step, ?_, round ▸ random⟩
    rw [round]
    exact signer
  have taken {block : Block} {p : Node S R} (passed : handed op n e = some (block, p)) :
      taken op n e = [block] :=
    placed.taken signs ticks follows.real follows.lets handled passed
  cases handle_moves handled with
  | idles nothing idles =>
      obtain ⟨svc, phase, processed, sent, calls, -, rfl⟩ := idles
      exact kept nothing rfl
  | skips checked =>
      exact kept (by simp only [handed, checked]) (checkBlock_round checked).1
  | @adopts now depth block p m checked adopted =>
      have passed : handed op n (.block now depth block) = some (block, p) := by
        simp only [handed, checked]
      rw [taken passed] at step ⊢
      obtain ⟨round, boot⟩ := checkBlock_round checked
      obtain ⟨svc, head, next, added, found, selected, begun⟩ := adoptBlock_ok adopted
      obtain ⟨same, written⟩ := newRound_signer begun
      have front : head = block.header := by
        refine step.fronted.2 head ?_
        rw [newRound_service begun]
        exact found
      have current : (if p.fromBootstrap then encodeHex block.header.randomNumber
          else p.consensus.currentRandomNo) = encodeHex block.header.randomNumber := by
        rw [boot, round]
        rcases follows.random now depth block p rfl passed with taken | known
        · rw [if_pos taken]
        · rw [known, ite_self]
      rw [current, front] at selected
      refine ⟨step, selected.trans (congrArg Except.ok same.symm), written ⟨_, current⟩⟩
  | bootSkips checked =>
      exact kept (by simp only [handed, checked]) (checkBootstrap_round checked)
  | @bootAdopts now depth block p m checked adopted =>
      have passed : handed op n (.bootstrapBlock now depth block) = some (block, p) := by
        simp only [handed, checked]
      rw [taken passed] at step ⊢
      obtain ⟨svc, next, added, selected, rfl⟩ := adoptBootstrap_ok adopted
      exact ⟨step, selected, _, rfl⟩
  | begins found => exact kept rfl rfl
  | @waits now wait depth p made =>
      obtain ⟨head, signerSet, signingAddr, -, -, rfl⟩ := makeBlock_none made
      exact kept (by simp only [handed, made]) rfl
  | @makes now wait depth block p m made adopted =>
      have passed : handed op n (.sign now wait depth) = some (block, p) := by
        simp only [handed, made]
      rw [taken passed] at step ⊢
      obtain ⟨head, address, key, draft, svc, signerSet, -, -, -, -, -, signs', run, rfl⟩ :=
        makeBlock_some made
      obtain ⟨_, _, _, rfl⟩ := Block.sign_eq_ok signs'
      obtain ⟨svc', next, added, selected, begun⟩ := adoptOwn_ok adopted
      obtain ⟨same, written⟩ := newRound_signer begun
      obtain ⟨data, current⟩ := random
      obtain ⟨parsed, -⟩ := Service.createBlock_beacon run
      rw [current, Service.parseAsBin_encodeHex] at parsed
      have own : n.consensus.currentRandomNo = encodeHex draft.header.randomNumber := by
        rw [current]
        exact congrArg encodeHex (Except.ok.inj parsed)
      refine ⟨step, ?_, written ⟨data, current⟩⟩
      refine Eq.trans ?_ (selected.trans (congrArg Except.ok same.symm))
      exact congrArg (fun current => selectSigner current draft.header.number) own.symm
  | gathers nothing later gathered =>
      obtain ⟨c, cache, phase, sent, gathers, -, rfl⟩ := gathered
      have none : Node.taken op n e = [] := by simp only [Node.taken, nothing]
      rw [none] at step ⊢
      exact ⟨step, signer.trans (congrArg Except.ok gathers.signer.symm), gathers.random random⟩
  | watches kept' => exact kept rfl rfl
  | triggers triggered =>
      obtain ⟨group, last', a, c, on, cache, sent, -, -, -, settled, -, rfl⟩ := triggered.begun
      exact kept rfl (congrArg Prod.fst settled)
  | contributes contributed =>
      obtain ⟨c, on, out, cache, sent, phase, settled, -, -, -, rfl⟩ := contributed
      exact kept rfl (congrArg Prod.fst settled)

theorem Run.expects {g : GenesisData} {svc : Service S R} (reachable : svc.Reachable g)
    (roots : g.Roots S op.genesis) (signs : op.Signs) (ticks : 0 < blockTime)
    {blocks : List Block} (run : Run op svc (Follows op) blocks n) :
    ∃ head, svc.chain.headHeader op.genesis = .ok head ∧
      Expects op (lastHeader head blocks) n := by
  obtain ⟨head, fronted⟩ := reachable.fronted roots
  induction run with
  | start started =>
      obtain ⟨placed, found⟩ := placed_start started reachable.ready fronted
      exact ⟨head, found, expects_start started placed found⟩
  | step run e turn met handled ih =>
      obtain ⟨head', found, expects⟩ := ih
      refine ⟨head', found, ?_⟩
      rw [lastHeader_append]
      exact expects.step signs ticks met handled

/-- Two nodes with the same blocks expect the same signer, the one that the last of these
blocks selects. -/
theorem followed_same_signer {g : GenesisData} {op op' : Operator} {svc svc' : Service S R}
    {n n' : Node S R} {blocks : List Block} (reachable : svc.Reachable g)
    (reachable' : svc'.Reachable g) (roots : g.Roots S op.genesis)
    (roots' : g.Roots S op'.genesis) (signs : op.Signs) (signs' : op'.Signs)
    (ticks : 0 < blockTime)
    (same : svc.chain.headHeader op.genesis = svc'.chain.headHeader op'.genesis)
    (run : Run op svc (Follows op) blocks n) (run' : Run op' svc' (Follows op') blocks n') :
    ∃ head, svc.chain.headHeader op.genesis = .ok head ∧
      selectSigner (encodeHex (lastHeader head blocks).randomNumber)
          (lastHeader head blocks).number = .ok n.consensus.nextSigner ∧
        n'.consensus.nextSigner = n.consensus.nextSigner := by
  obtain ⟨head, found, expects⟩ := run.expects reachable roots signs ticks
  obtain ⟨head', found', expects'⟩ := run'.expects reachable' roots' signs' ticks
  rw [← same, found] at found'
  cases found'
  have signer := expects.signer
  refine ⟨head, found, signer, ?_⟩
  rw [expects'.signer] at signer
  exact Except.ok.inj signer

end Expectation

end Node

namespace Sample.Watched

open Sample Sample.Recovered Node

def random1 : Bytes := Hashlib.sha256 (signature first.randomNumber 0)

def random2 : Bytes := Hashlib.sha256 (signature random1 1)

def block1 : Block := blockAfter first.hash 1 2 random1 (signature first.randomNumber 0)

def block2 : Block := blockAfter block1.header.hash 2 3 random2 (signature random1 1)

theorem selected1 : selectSigner (encodeHex random1) 1 = .ok ⟨.v4, 1577898397, by decide⟩ := by
  decide +kernel

theorem listed1 : ⟨.v4, 1577898397, by decide⟩ ∈ selected :=
  List.mem_cons_of_mem _ List.mem_cons_self

theorem real_received (e : Event) (brought : e.received ≠ none ∨ e = .finishBootstrap) :
    e.Real := by
  have others (same : e.received = none) (other : e ≠ .finishBootstrap) : False :=
    brought.elim (fun some => some same) other
  refine ⟨fun tx sent => ?_, fun now wait depth own => ?_⟩
  · cases e with
    | tx tx' => exact (others rfl (by intro same; cases same)).elim
    | userTx tx' => exact (others rfl (by intro same; cases same)).elim
    | _ => cases sent
  · subst own
    exact (others rfl (by intro same; cases same)).elim

theorem follows_finish {n : Node AddressRanges (PrefixTable Address)} :
    Node.Follows op n .finishBootstrap :=
  ⟨real_received _ (Or.inr rfl), (by intro _ same _; cases same), by intro _ _ _ _ other; cases other⟩

theorem follows_boot {n : Node AddressRanges (PrefixTable Address)} {block : Block}
    (due : n.Due 10 block) : Node.Follows op n (.bootstrapBlock 10 1 block) :=
  ⟨real_received _ (Or.inl (Option.some_ne_none _)), fun _ same _ => Option.some.inj same ▸ due,
    fun _ _ _ _ other _ => by cases other⟩

theorem exists_of_isOk {ε α : Type} {x : Except ε α} (passed : x.isOk = true) : ∃ a, x = .ok a := by
  cases x with
  | error e => cases passed
  | ok a => exact ⟨a, rfl⟩

theorem Sits.boots1 {n : Node AddressRanges (PrefixTable Address)} (sits : Sits n first) :
    n.Due 10 block1 ∧ ∃ m, Node.handle op (.bootstrapBlock 10 1 block1) n = .ok () m ∧
      Node.taken op n (.bootstrapBlock 10 1 block1) = [block1] ∧ Sits m block1.header ∧
      m.phase = n.phase := by
  obtain ⟨due, m, booted, -, taken, still, -, phase⟩ := sits.boots
    (rfl : block1 = blockAfter first.hash (first.number + 1) 2 _ _) (by decide) (by decide)
    (by decide : 2 ≤ 10) (by decide) selected1
  exact ⟨due, m, booted, taken, still listed1, phase⟩

theorem Sits.receives1 {n : Node AddressRanges (PrefixTable Address)} (sits : Sits n first)
    (boot : n.fromBootstrap = true) :
    n.Due 10 block1 ∧ ∃ m, Node.handle op (.block 10 1 block1) n = .ok () m ∧
      Node.taken op n (.block 10 1 block1) = [block1] ∧ Sits m block1.header ∧
      m.phase = n.phase ∧ m.fromBootstrap = false ∧
      m.consensus.currentRandomNo = encodeHex random1 := by
  obtain ⟨due, p, svc, ⟨s, rfl⟩, -, adopted, taken, still⟩ := sits.receives (Hashlib.sha256_length _)
    (rfl : block1 = blockAfter first.hash (first.number + 1) 2 random1 _) (by decide) (by decide)
    (by decide : 2 ≤ 10) (by rw [boot]; exact selected1)
  exact ⟨due, _, adopted, taken, still listed1, rfl, rfl, if_pos boot⟩

/-- One node takes the first block in the bootstrap, the other in the main loop. -/
theorem followed_same_signer_one : ∃ (svc : Service AddressRanges (PrefixTable Address))
    (n n' : Node AddressRanges (PrefixTable Address)), svc.Reachable genesis ∧
      Node.Run op svc (Node.Follows op) [block1] n ∧
      Node.Run op svc (Node.Follows op) [block1] n' ∧
      n'.consensus.nextSigner = n.consensus.nextSigner := by
  obtain ⟨svc, n, m, reachable, roots, found, started, atStart, turn, begun, inLoop, later, boot⟩ :=
    start_sits
  have run : Node.Run op svc (Node.Follows op) [] n := .start started
  obtain ⟨due, n', booted, taken, -⟩ := atStart.boots1
  have booting := run.step (.bootstrapBlock 10 1 block1) turn.symm (follows_boot due) booted
  have looping := run.step .finishBootstrap turn.symm follows_finish begun
  obtain ⟨due, m', adopted, taken', -⟩ := inLoop.receives1 boot
  have looping := looping.step (.block 10 1 block1) later.symm
    ⟨real_received _ (Or.inl (Option.some_ne_none _)), fun _ same _ => Option.some.inj same ▸ due,
      fun _ _ _ _ _ _ => Or.inl boot⟩ adopted
  rw [taken] at booting
  rw [taken'] at looping
  have signs : op.Signs := fun key member => by cases member
  obtain ⟨head, -, -, same⟩ := Node.followed_same_signer reachable reachable roots roots signs
    signs (by decide) rfl booting looping
  exact ⟨svc, n', m', reachable, booting, looping, same⟩

/-- Without the shares of the second round, the other node still goes by the random number of
the first block. -/
theorem other_signer_two : ∃ (svc : Service AddressRanges (PrefixTable Address))
    (n n' : Node AddressRanges (PrefixTable Address)), svc.Reachable genesis ∧
      Node.Run op svc (fun _ _ => True) [block1, block2] n ∧
      Node.Run op svc (fun _ _ => True) [block1, block2] n' ∧
      selectSigner (encodeHex block2.header.randomNumber) block2.header.number =
        .ok n.consensus.nextSigner ∧ n'.consensus.nextSigner ≠ n.consensus.nextSigner := by
  obtain ⟨svc, n, m, reachable, roots, found, started, atStart, turn, begun, inLoop, later, boot⟩ :=
    start_sits
  have run : Node.Run op svc (fun _ _ => True) [] n := .start started
  have selects : (selectSigner (encodeHex random2) 2).isOk = true := by decide +kernel
  have selects' : (selectSigner (encodeHex random1) 2).isOk = true := by decide +kernel
  have differs : selectSigner (encodeHex random2) 2 ≠ selectSigner (encodeHex random1) 2 := by
    decide +kernel
  obtain ⟨x, chosen⟩ := exists_of_isOk selects
  obtain ⟨x', chosen'⟩ := exists_of_isOk selects'
  obtain ⟨-, n', booted, taken, sits, phase⟩ := atStart.boots1
  have booting := run.step (.bootstrapBlock 10 1 block1) turn.symm trivial booted
  obtain ⟨-, n'', booted', -, taken', -, signer, -⟩ := sits.boots
    (rfl : block2 = blockAfter block1.header.hash (1 + 1) 3 _ _) (by decide) (by decide)
    (by decide : 3 ≤ 10) (by decide) chosen
  have booting := booting.step (.bootstrapBlock 10 1 block2) (phase.trans turn).symm trivial booted'
  have looping := run.step .finishBootstrap turn.symm trivial begun
  obtain ⟨-, m', adopted, taken₁, sits', phase', flag, current⟩ := inLoop.receives1 boot
  have looping := looping.step (.block 10 1 block1) later.symm trivial adopted
  obtain ⟨-, p, svc', ⟨s, rfl⟩, -, adopted', taken₂, -⟩ := sits'.receives (Hashlib.sha256_length _)
    (rfl : block2 = blockAfter block1.header.hash (1 + 1) 3 random2 _) (by decide) (by decide)
    (by decide : 3 ≤ 10) (by rw [flag, current]; exact chosen')
  have looping := looping.step (.block 10 1 block2) (phase'.trans later).symm trivial adopted'
  rw [taken, taken'] at booting
  rw [taken₁, taken₂] at looping
  refine ⟨svc, n'', _, reachable, booting, looping, signer ▸ chosen, ?_⟩
  intro agreed
  have agreed : x' = n''.consensus.nextSigner := agreed
  exact differs (by rw [chosen, chosen', agreed, signer])

end Sample.Watched

end IPchain
