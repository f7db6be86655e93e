import IPchain.Observer

/-! What a block that does not become the head leaves behind in the consensus. -/

namespace IPchain

open Lib Platform

namespace Node

structure Trace where
  lastRandomNo : Bytes
  blockNum : Nat
  dkgOn : Bool
  exitFromDkg : Bool
  groupKey : Bytes
  currentRandomNo : Bytes
  nextSigner : IPAddress
  shares : List Bytes
  sharesIds : List Bytes
  verified : Bool
  deriving DecidableEq

section Trace

variable {S R : Type} [IPSet S]

def trace (n : Node S R) : Trace where
  lastRandomNo := n.lastRandomNo
  blockNum := n.blockNum
  dkgOn := n.dkgOn
  exitFromDkg := n.exitFromDkg
  groupKey := n.consensus.groupKey
  currentRandomNo := n.consensus.currentRandomNo
  nextSigner := n.consensus.nextSigner
  shares := n.consensus.shares
  sharesIds := n.consensus.sharesIds
  verified := n.consensus.verified

/-- The next block ends a key generation for this node. -/
def awaits (n : Node S R) : Bool := (n.inDkgGroup && n.exitFromDkg) || n.dkgOn

def emptied (n : Node S R) (block : Block) : Consensus :=
  { n.consensus with
    currentRandomNo :=
      if n.fromBootstrap then encodeHex block.header.randomNumber
      else n.consensus.currentRandomNo
    groupSig := if n.fromBootstrap then block.header.groupSig else n.consensus.groupSig
    shares := []
    sharesIds := []
    verified := false }

section Loop

variable [Platform] [Hashlib] [Bls] [NodeConfig]

def Opens (n : Node S R) (block : Block) (c : Consensus) : Prop :=
  if n.inDkgGroup && n.createShares then
    ∃ shares, Consensus.createShares n.lastRandomNo n.blockNum 0 (n.emptied block) = .ok shares c
  else c = n.emptied block

structure Resumes (op : Operator) (n : Node S R) (block : Block) : Prop where
  random : n.lastRandomNo = encodeHex block.header.randomNumber
  number : ∀ head, n.service.chain.headHeader op.genesis = .ok head → n.blockNum = head.number
  signer : selectSigner (n.emptied block).currentRandomNo n.blockNum = .ok n.consensus.nextSigner
  round : ∃ c, n.Opens block c ∧ c.currentRandomNo = n.consensus.currentRandomNo ∧
    c.shares = n.consensus.shares ∧ c.sharesIds = n.consensus.sharesIds ∧
      c.verified = n.consensus.verified

end Loop

variable [FirstAddress S]

theorem Passed.trace_ne {block : Block} {n p : Node S R} {x : Option IPAddress}
    (passed : Passed block n x p) (awaits : n.awaits = true) :
    (n.dkgOn, n.exitFromDkg) ≠ (p.dkgOn, p.exitFromDkg) := by
  cases passed with
  | left mine out =>
      intro same
      have differs : true = false := out.symm.trans (Prod.mk.inj same).2
      cases differs
  | renewed stays on =>
      intro same
      have differs : true = false := on.symm.trans (Prod.mk.inj same).1
      cases differs
  | normal stays off =>
      rw [Node.awaits, stays, off] at awaits
      exact absurd awaits (by decide)

end Trace

section Refused

variable {S R : Type} [IPSet S] [Radix R Address] [FirstAddress S] [Platform] [Hashlib] [Bls]
  [NodeConfig] [TrieKeys S] [TrieRoot] [Poststate] [StateRoot S] [Signing] {op : Operator}
  {n m p : Node S R} {block : Block} {now depth : Nat}

theorem refused_of_taken {e : Event} (sane : p.service.chain.Sane)
    (handed : handed op n e = some (block, p)) (rejected : taken op n e = [])
    {svc : Service S R} (added : Service.addBlock e.clock.1 e.clock.2 block p.service = .ok () svc) :
    p.service.chain.Reads svc.chain := by
  rcases Service.addBlock_cases sane.anchored added with ⟨s, t, q, -, -, called, -⟩ | ⟨-, reads⟩
  · simp only [taken, handed, called] at rejected
    cases rejected
  · exact reads

omit [FirstAddress S] [TrieKeys S] [StateRoot S] [Signing] in
theorem adoptBlock_flags (adopted : adoptBlock op now depth block p = .ok () m) :
    (m.dkgOn, m.exitFromDkg) = (p.dkgOn, p.exitFromDkg) := by
  obtain ⟨svc, head, signer, -, -, -, begun⟩ := adoptBlock_ok adopted
  rcases newRound_ok begun with ⟨-, rfl⟩ | ⟨-, shares, c, -, rfl⟩
  · rfl
  · rfl

omit [FirstAddress S] [TrieKeys S] [StateRoot S] [Signing] in
theorem adoptBlock_round {s : State S} {set : Bool}
    (reads : ∀ svc, Service.addBlock now depth block (n.withState s).service = .ok () svc →
      n.service.chain.Reads svc.chain)
    (adopted : adoptBlock op now depth block { n.withState s with signerSet := set } = .ok () m) :
    ∃ head signer c, n.service.chain.headHeader op.genesis = .ok head ∧
      selectSigner (n.emptied block).currentRandomNo head.number = .ok signer ∧
      (if n.inDkgGroup && n.createShares then ∃ shares,
        Consensus.createShares (encodeHex block.header.randomNumber) head.number 0
          { n.emptied block with nextSigner := signer } = .ok shares c
        else c = { n.emptied block with nextSigner := signer }) ∧
      c.nextSigner = signer ∧ m.trace = {
        lastRandomNo := encodeHex block.header.randomNumber
        blockNum := head.number
        dkgOn := n.dkgOn
        exitFromDkg := n.exitFromDkg
        groupKey := n.consensus.groupKey
        currentRandomNo := c.currentRandomNo
        nextSigner := signer
        shares := c.shares
        sharesIds := c.sharesIds
        verified := c.verified } := by
  obtain ⟨svc, head, signer, added, found, selected, begun⟩ := adoptBlock_ok adopted
  rw [(reads svc added).headHeader] at found
  rcases newRound_ok begun with ⟨passive, rfl⟩ | ⟨active, shares, c, created, rfl⟩
  · have passive : (n.inDkgGroup && n.createShares) = false := passive
    refine ⟨head, signer, _, found, selected, ?_, rfl, rfl⟩
    rw [if_neg ((Bool.not_eq_true _).mpr passive)]
    rfl
  · obtain ⟨-, stored⟩ := Consensus.createShares_ok created
    have gathers := (Consensus.storeShares_ok stored).1
    have kept : c.nextSigner = signer ∧ c.groupKey = n.consensus.groupKey := by
      cases gathers with
      | idle => exact ⟨rfl, rfl⟩
      | more lacking some => exact ⟨rfl, rfl⟩
      | full lacking some valid => exact ⟨rfl, rfl⟩
    refine ⟨head, signer, c, found, selected, ?_, kept.1, ?_⟩
    · have active : (n.inDkgGroup && n.createShares) = true := active
      rw [if_pos active]
      exact ⟨shares, created⟩
    · simp only [← kept.1, ← kept.2]
      rfl

omit [FirstAddress S] [TrieKeys S] [StateRoot S] [Signing] in
theorem adoptBlock_trace {s : State S} {set : Bool}
    (reads : ∀ svc, Service.addBlock now depth block (n.withState s).service = .ok () svc →
      n.service.chain.Reads svc.chain)
    (adopted : adoptBlock op now depth block { n.withState s with signerSet := set } = .ok () m) :
    m.trace = n.trace ↔ Resumes op n block := by
  obtain ⟨head, signer, c, found, selected, opens, kept, left⟩ := adoptBlock_round reads adopted
  rw [left]
  constructor
  · intro same
    obtain ⟨random, number, -, -, -, current, next, shares, ids, verified⟩ := Trace.mk.inj same
    have next : signer = n.consensus.nextSigner := next
    have number : head.number = n.blockNum := number
    have random : encodeHex block.header.randomNumber = n.lastRandomNo := random
    subst next
    rw [number] at selected opens
    rw [random] at opens
    refine ⟨random.symm, ?_, selected, c, opens, current, shares, ids, verified⟩
    intro head' found'
    rw [found] at found'
    cases found'
    exact number.symm
  · rintro ⟨random, number, next, c', opens', current, shares, ids, verified⟩
    have number : head.number = n.blockNum := (number head found).symm
    rw [number] at selected opens
    rw [← random] at opens
    rw [next] at selected
    cases selected
    have same : c' = c := by
      simp only [Opens] at opens'
      split at opens'
      · rename_i active
        rw [if_pos active] at opens
        obtain ⟨made, created⟩ := opens
        obtain ⟨made', created'⟩ := opens'
        cases created.symm.trans created'
        rfl
      · rename_i passive
        rw [if_neg passive] at opens
        exact opens'.trans opens.symm
    subst same
    rw [← random, number, current, shares, ids, verified]
    rfl

omit [Radix R Address] [Bls] [TrieRoot] [Poststate] [StateRoot S] [Signing] in
theorem Drawn.unique {x y : Option IPAddress} {q : Node S R} (drawn : Drawn op block n x p)
    (other : Drawn op block n y q) :
    x = y ∧ p.consensus = q.consensus := by
  cases drawn with
  | renewed number known drawn alike =>
      cases other with
      | renewed number' known' drawn' alike' =>
          cases known.symm.trans known'
          cases drawn.symm.trans drawn'
          exact ⟨rfl, rfl⟩
      | normal number' => exact absurd (number.symm.trans number') (by decide)
  | normal number =>
      cases other with
      | renewed number' => exact absurd (number.symm.trans number') (by decide)
      | normal number' => exact ⟨rfl, rfl⟩

/-- The group key of a block that renews it is the one that the node has already. -/
def Keyed (n : Node S R) (block : Block) : Prop :=
  renews block.header.number = true → n.consensus.groupKey = block.header.groupPubkey

structure Repeats (n : Node S R) (block : Block) : Prop where
  random : n.lastRandomNo = encodeHex block.header.randomNumber
  number : n.blockNum = block.header.number
  current : n.consensus.currentRandomNo = encodeHex block.header.randomNumber
  signer : selectSigner n.consensus.currentRandomNo n.blockNum = .ok n.consensus.nextSigner

def rekeyed (n : Node S R) (s : State S) (key : Bytes) : Node S R :=
  { n.withState s with consensus := { n.consensus with groupKey := key } }

omit [Radix R Address] [Bls] [TrieRoot] [Poststate] [StateRoot S] [Signing] in
theorem Drawn.rekeyed {x : Option IPAddress} (drawn : Drawn op block n x p) :
    ∃ s key, n.service.chain.state.Alike s ∧ p = n.rekeyed s key ∧
      (key = n.consensus.groupKey ↔ n.Keyed block) := by
  cases drawn with
  | renewed number known drawn alike =>
      exact ⟨_, _, alike, rfl, fun same _ => same.symm, fun keyed => (keyed number).symm⟩
  | normal number =>
      refine ⟨_, _, State.Alike.refl _, rfl, iff_of_true rfl fun renewal => ?_⟩
      exact absurd (renewal.symm.trans number) (by decide)

omit [Radix R Address] [FirstAddress S] [Platform] [Hashlib] [Bls] [NodeConfig] [TrieKeys S]
  [TrieRoot] [Poststate] [StateRoot S] [Signing] in
theorem rekeyed_trace_iff {s : State S} {key : Bytes} :
    (n.rekeyed s key).trace = n.trace ↔ key = n.consensus.groupKey := by
  constructor
  · exact fun same => congrArg Trace.groupKey same
  · rintro rfl
    rfl

omit [FirstAddress S] [Hashlib] [Bls] [NodeConfig] [TrieKeys S] [StateRoot S] [Signing] in
theorem adoptBootstrap_trace {s : State S} {key : Bytes}
    (adopted : adoptBootstrap now depth block (n.rekeyed s key) = .ok () m) :
    m.trace = n.trace ↔ key = n.consensus.groupKey ∧ Repeats n block := by
  obtain ⟨svc, signer, -, selected, rfl⟩ := adoptBootstrap_ok adopted
  constructor
  · intro same
    obtain ⟨random, number, -, -, key, current, next, -⟩ := Trace.mk.inj same
    have current : encodeHex block.header.randomNumber = n.consensus.currentRandomNo := current
    have number : block.header.number = n.blockNum := number
    have next : signer = n.consensus.nextSigner := next
    refine ⟨key, random.symm, number.symm, current.symm, ?_⟩
    rw [← current, ← number, ← next]
    exact selected
  · rintro ⟨rfl, random, number, current, next⟩
    rw [current, number, selected] at next
    cases next
    simp only [trace, random, number, current]
    rfl

/-- When a block that does not become the head leaves no trace. In the main loop it has to fail
the group signature, or to come while no new key is awaited and not to be signed by an owner of
the drawn address. In the bootstrap it must not bring a new key, nor be signed by an owner of
the address. A block that would change nothing may pass the checks. -/
def Traceless (op : Operator) (n : Node S R) : Event → Prop
  | .block _ _ block => n.verifies block = false ∨ (n.awaits = false ∧
      (Vouched n.service.chain block n.consensus.nextSigner → n.Resumes op block))
  | .bootstrapBlock _ _ block => ∀ x p, Drawn op block n x p → n.Keyed block ∧
      ((∃ y, x = some y ∧ Vouched n.service.chain block y) → n.Repeats block)
  | _ => True

omit [TrieRoot] [Poststate] [StateRoot S] [Signing] in
theorem skipped_traceless_iff (checked : checkBlock block n = .ok false m) :
    m.trace = n.trace ↔ Traceless op n (.block now depth block) := by
  rcases checkBlock_false checked with ⟨unverified, rfl⟩ | ⟨verifies, x, p, s, passed, refused, -, rfl⟩
  · exact iff_of_true rfl (Or.inl unverified)
  · cases awaits : n.awaits with
    | true =>
        refine iff_of_false ?_ ?_
        · intro same
          apply passed.trace_ne awaits
          exact Prod.ext (congrArg Trace.dkgOn same).symm (congrArg Trace.exitFromDkg same).symm
        · rintro (unverified | ⟨off, -⟩)
          · rw [verifies] at unverified
            cases unverified
          · rw [awaits] at off
            cases off
    | false =>
        simp only [Node.awaits, Bool.or_eq_false_iff] at awaits
        cases passed with
        | left mine out =>
            rw [mine, out] at awaits
            cases awaits.1
        | renewed stays on =>
            rw [on] at awaits
            cases awaits.2
        | normal stays off =>
            refine iff_of_true rfl (Or.inr ⟨?_, fun vouched => ?_⟩)
            · rw [Node.awaits, stays, off]
              rfl
            · exact absurd vouched (refused _ rfl)

omit [TrieRoot] [Poststate] [StateRoot S] [Signing] in
theorem bootSkipped_traceless_iff (checked : checkBootstrap op block n = .ok false m) :
    m.trace = n.trace ↔ Traceless op n (.bootstrapBlock now depth block) := by
  rcases checkBootstrap_false checked with ⟨rfl, number, undrawn⟩ | ⟨x, p, s, drawn, refused, -, rfl⟩
  · refine iff_of_true rfl fun y q other => ?_
    cases other with
    | renewed number' known drawn alike => exact absurd drawn (undrawn _ _ known)
    | normal number' => exact absurd (number.symm.trans number') (by decide)
  · obtain ⟨t, key, alike, rfl, keyed⟩ := drawn.rekeyed
    have same : ((n.rekeyed t key).withState s).trace = n.trace ↔ key = n.consensus.groupKey :=
      rekeyed_trace_iff (n := n) (s := t)
    rw [same, keyed]
    constructor
    · intro keyed y q other
      refine ⟨keyed, ?_⟩
      rintro ⟨z, rfl, vouched⟩
      cases (drawn.unique other).1
      exact absurd (vouched.alike alike) (refused z rfl)
    · exact fun traceless => (traceless _ _ drawn).1

theorem adopted_traceless_iff (sane : n.service.chain.Sane)
    (checked : checkBlock block n = .ok true p)
    (adopted : adoptBlock op now depth block p = .ok () m)
    (rejected : taken op n (.block now depth block) = []) :
    m.trace = n.trace ↔ Traceless op n (.block now depth block) := by
  have handed : handed op n (.block now depth block) = some (block, p) := by
    simp only [handed, checked]
  have sane' : p.service.chain.Sane := by
    obtain ⟨s, alike, same⟩ := checkBlock_scans checked
    rw [same]
    exact sane.alike alike n.service.chain.timeQueue
  obtain ⟨verifies, x, q, s, passed, vouched, alike, rfl⟩ := checkBlock_true checked
  cases awaits : n.awaits with
  | true =>
      refine iff_of_false ?_ ?_
      · intro same
        apply passed.trace_ne awaits
        have flags : (m.dkgOn, m.exitFromDkg) = (q.dkgOn, q.exitFromDkg) :=
          (adoptBlock_flags adopted :)
        rw [← flags]
        exact Prod.ext (congrArg Trace.dkgOn same).symm (congrArg Trace.exitFromDkg same).symm
      · rintro (unverified | ⟨off, -⟩)
        · rw [verifies] at unverified
          cases unverified
        · rw [awaits] at off
          cases off
  | false =>
      have quiet := awaits
      simp only [Node.awaits, Bool.or_eq_false_iff] at quiet
      have traceless : Traceless op n (.block now depth block) ↔
          (Vouched n.service.chain block n.consensus.nextSigner → n.Resumes op block) := by
        simp only [Traceless, verifies, awaits, reduceCtorEq, true_and, false_or]
      rw [traceless]
      generalize drawn : some x = signer at passed
      cases passed with
      | left mine out =>
          rw [mine, out] at quiet
          cases quiet.1
      | renewed stays on =>
          rw [on] at quiet
          cases quiet.2
      | normal stays off =>
          cases drawn
          have reads (svc : Service S R)
              (added : Service.addBlock now depth block (n.withState s).service = .ok () svc) :
              n.service.chain.Reads svc.chain :=
            (Chain.reads_state alike).trans (refused_of_taken sane' handed rejected added)
          rw [adoptBlock_trace reads adopted]
          exact ⟨fun resumes _ => resumes, fun resumes => resumes vouched⟩

omit [StateRoot S] [Signing] in
theorem bootAdopted_traceless_iff (checked : checkBootstrap op block n = .ok true p)
    (adopted : adoptBootstrap now depth block p = .ok () m) :
    m.trace = n.trace ↔ Traceless op n (.bootstrapBlock now depth block) := by
  obtain ⟨-, -, x, q, s, drawn, vouched, alike, rfl⟩ := checkBootstrap_true checked
  obtain ⟨t, key, alike', rfl, keyed⟩ := drawn.rekeyed
  rw [show m.trace = n.trace ↔ key = n.consensus.groupKey ∧ Repeats n block from
    adoptBootstrap_trace adopted, keyed]
  have vouched : Vouched n.service.chain block x := vouched.alike alike'.symm
  constructor
  · rintro ⟨keyed, repeats⟩ y q other
    exact ⟨keyed, fun _ => repeats⟩
  · intro traceless
    obtain ⟨keyed, repeats⟩ := traceless _ _ drawn
    exact ⟨keyed, repeats ⟨x, rfl, vouched⟩⟩

/-- A received block that does not become the head leaves no trace in the consensus exactly
under this condition. -/
theorem rejected_traceless_iff {g : GenesisData} {svc : Service S R} (reachable : svc.Reachable g)
    {blocks : List Block} (run : Run op svc (fun _ _ => True) blocks n) {e : Event}
    (received : e.received ≠ none) (handled : handle op e n = .ok () m)
    (rejected : taken op n e = []) : m.trace = n.trace ↔ Traceless op n e := by
  have sane := run.sane reachable.ready.sane
  cases e with
  | bootstrapBlock now depth block =>
      obtain ⟨res, p, checked, rest⟩ := bind_eq_ok.mp handled
      cases res with
      | true => exact bootAdopted_traceless_iff checked rest
      | false =>
          cases rest
          exact bootSkipped_traceless_iff checked
  | block now depth block =>
      obtain ⟨res, p, checked, rest⟩ := bind_eq_ok.mp handled
      cases res with
      | true => exact adopted_traceless_iff sane checked rest rejected
      | false =>
          cases rest
          exact skipped_traceless_iff checked
  | _ => exact absurd rfl received

end Refused

end Node

namespace Sample.Watched

open Sample Sample.Recovered

def early : Block :=
  blockAfter first.hash 1 20 (Hashlib.sha256 (signature first.randomNumber 0))
    (signature first.randomNumber 0)

theorem early_refused : ∃ (svc : Service AddressRanges (PrefixTable Address))
    (n m : Node AddressRanges (PrefixTable Address)), svc.Reachable genesis ∧
      Node.Run op svc (fun _ _ => True) [] n ∧ n.phase = .blocks ∧
      Node.handle op (.block 10 1 early) n = .ok () m ∧
      Node.taken op n (.block 10 1 early) = [] ∧ m.lastRandomNo ≠ n.lastRandomNo := by
  obtain ⟨svc, n, m, reachable, roots, found, started, atStart, turn, begun, sits, later, boot⟩ :=
    start_sits
  have run : Node.Run op svc (fun _ _ => True) [] n := .start started
  have run := run.step .finishBootstrap turn.symm trivial begun
  have selects : (selectSigner (encodeHex (Hashlib.sha256 (signature first.randomNumber 0)))
    0).isOk = true := by decide +kernel
  cases found : selectSigner (encodeHex (Hashlib.sha256 (signature first.randomNumber 0))) 0 with
  | error e =>
      rw [found] at selects
      cases selects
  | ok signer =>
      have chosen : selectSigner (if m.fromBootstrap then
          encodeHex (Hashlib.sha256 (signature first.randomNumber 0))
        else m.consensus.currentRandomNo) first.number = .ok signer := by
        rw [boot]
        exact found
      obtain ⟨p, svc', handled, refused⟩ := sits.rejects (Hashlib.sha256_length _)
        (rfl : early = blockAfter first.hash (first.number + 1) 20 _ _) (by decide) (by decide)
        (by decide : 10 < 20) chosen
      refine ⟨svc, m, _, reachable, run, later, handled, refused, ?_⟩
      rw [sits.random]
      change encodeHex (Hashlib.sha256 (signature first.randomNumber 0)) ≠
        encodeHex first.randomNumber
      decide +kernel

def bare : Block := blockAfter first.hash 1 2 (List.replicate 32 1) []

theorem bare_traceless : ∃ (svc : Service AddressRanges (PrefixTable Address))
    (n m : Node AddressRanges (PrefixTable Address)), svc.Reachable genesis ∧
      Node.Run op svc (fun _ _ => True) [] n ∧ n.phase = .blocks ∧
      Node.handle op (.block 10 1 bare) n = .ok () m ∧
      Node.taken op n (.block 10 1 bare) = [] ∧ m.trace = n.trace := by
  obtain ⟨svc, n, m, reachable, roots, found, started, atStart, turn, begun, sits, later, boot⟩ :=
    start_sits
  have run : Node.Run op svc (fun _ _ => True) [] n := .start started
  have run := run.step .finishBootstrap turn.symm trivial begun
  have skipped : Node.checkBlock bare m = .ok false { m with signerSet := true } := sits.skips rfl
  have handled : Node.handle op (.block 10 1 bare) m = .ok () { m with signerSet := true } :=
    bind_eq_ok.mpr ⟨false, _, skipped, rfl⟩
  have refused : Node.taken op m (.block 10 1 bare) = [] := by
    simp only [Node.taken, Node.handed, skipped]
  have traceless := Node.rejected_traceless_iff reachable run (e := .block 10 1 bare)
    (Option.some_ne_none _) handled refused
  exact ⟨svc, m, _, reachable, run, later, handled, refused,
    traceless.mpr (Or.inl (sits.unverified rfl))⟩

/-- The block waits in a queue, and the next message is about it already. -/
theorem early_leaves_trace : ∃ (svc : Service AddressRanges (PrefixTable Address))
    (n m : Node AddressRanges (PrefixTable Address)), svc.Reachable genesis ∧
      Node.Run op svc (fun _ _ => True) [] n ∧
      (Node.Event.block 10 1 early).phase = n.phase ∧
      (Node.Event.block 10 1 early).received = some early ∧
      Node.handle op (.block 10 1 early) n = .ok () m ∧
      Node.taken op n (.block 10 1 early) = [] ∧ m.trace ≠ n.trace := by
  obtain ⟨svc, n, m, reachable, run, turn, handled, refused, differs⟩ := early_refused
  refine ⟨svc, n, m, reachable, run, turn.symm, rfl, handled, refused, ?_⟩
  exact fun same => differs (congrArg Node.Trace.lastRandomNo same)

end Sample.Watched

end IPchain
