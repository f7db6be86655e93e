import IPchain.Checks
import IPchain.Loop
import IPchain.Rounds

/-! What a node does with a block that passed its checks, and with one that it makes. -/

namespace IPchain

open Lib Platform

namespace Chain

section Head

variable {S R : Type} [IPSet S] {c d : Chain S R}

/-- The chains differ in what has been read of the state, and in the blocks that wait. -/
def Reads (c d : Chain S R) : Prop :=
  ∃ s queue, c.state.Alike s ∧ d = { c with state := s, timeQueue := queue }

theorem Reads.refl (c : Chain S R) : c.Reads c := ⟨c.state, c.timeQueue, State.Alike.refl _, rfl⟩

theorem reads_state {s : State S} (alike : c.state.Alike s) : c.Reads { c with state := s } :=
  ⟨s, c.timeQueue, alike, rfl⟩

theorem Reads.trans {e : Chain S R} (first : c.Reads d) (second : d.Reads e) : c.Reads e := by
  obtain ⟨s, queue, alike, rfl⟩ := first
  obtain ⟨t, queue', alike', rfl⟩ := second
  exact ⟨t, queue', alike.trans alike', rfl⟩

variable [Platform]

theorem Reads.sane (reads : c.Reads d) (sane : c.Sane) : d.Sane := by
  obtain ⟨s, queue, alike, rfl⟩ := reads
  exact sane.alike alike queue

theorem Reads.headHeader (reads : c.Reads d) (first : BlockHeader) :
    d.headHeader first = c.headHeader first := by
  obtain ⟨s, queue, -, rfl⟩ := reads
  rfl

theorem header_decoded {block read : Block} (decoded : block.decoded = .ok read) :
    read.header = block.header := by
  obtain ⟨transactions, -, result⟩ := except_bind_eq_ok.mp decoded
  cases result
  rfl

theorem headHeader_extended {block : Block} {s : State S} {p : R} {first head : BlockHeader}
    (found : (c.extended block s p).headHeader first = .ok head) : head = block.header := by
  have record : (c.extended block s p).blocks.lookup block.header.hash = some (some block) :=
    AList.lookup_insert _
  have read : (c.extended block s p).getBlock first (some block.header.hash) = block.decoded := by
    simp only [getBlock, Option.bind_some, record]
  have current : (c.extended block s p).headHash = block.header.hash := rfl
  rw [Chain.headHeader, getHeadBlock, current, read] at found
  cases decoded : block.decoded with
  | error e =>
      rw [decoded] at found
      cases found
  | ok read =>
      rw [decoded] at found
      cases found
      exact header_decoded decoded

end Head

end Chain

namespace Service

section Calls

variable {S R : Type} [IPSet S] [Radix R Address] [Platform] [TrieRoot] [Poststate]
  {svc svc' : Service S R} {block : Block} {now depth : Nat}

theorem addBlock_cases (anchored : svc.chain.Anchored)
    (added : addBlock now depth block svc = .ok () svc') :
    (∃ s t p, svc.chain.state.Alike s ∧ applyBlock block (s, svc.chain.patricia) = .ok () (t, p) ∧
      Chain.addBlock now depth block svc.chain = .ok true (svc.chain.extended block t p) ∧
        (svc.chain.extended block t p).Reads svc'.chain) ∨
      ((∃ c, Chain.addBlock now depth block svc.chain = .ok false c) ∧
        svc.chain.Reads svc'.chain) := by
  obtain ⟨-, b, c, called, rfl⟩ := addBlock_eq_ok.mp added
  have purged : c.Reads (purge block { svc with chain := c }).chain :=
    Chain.reads_state (invalidTransactions_eq _ _).2
  cases b with
  | true =>
      obtain ⟨s, t, p, alike, applied, rfl⟩ := anchored.added called
      exact Or.inl ⟨s, t, p, alike, applied, called, purged⟩
  | false =>
      obtain ⟨s, queue, alike, rfl⟩ := anchored.refused called
      exact Or.inr ⟨⟨_, called⟩, Chain.Reads.trans ⟨s, queue, alike, rfl⟩ purged⟩

end Calls

end Service

namespace Node

section Received

variable {S R : Type} [IPSet S] [Radix R Address] [Platform] [Hashlib] [Bls] [NodeConfig]
  {op : Operator} {n n' : Node S R} {block : Block} {now depth : Nat}

omit [Platform] [Hashlib] [Bls] [NodeConfig] in
theorem calculateNextSigner_ok {number : Nat} {c d : Consensus}
    (calculated : Consensus.calculateNextSigner number c = .ok () d) :
    ∃ signer, selectSigner c.currentRandomNo number = .ok signer ∧
      d = { c with nextSigner := signer } := by
  simp only [Consensus.calculateNextSigner] at calculated
  split at calculated
  · rename_i signer selected
    cases calculated
    exact ⟨signer, selected, rfl⟩
  · cases calculated

omit [Radix R Address] in
theorem newRound_ok (begun : newRound now n = .ok () n') :
    ((n.inDkgGroup && n.createShares) = false ∧ n' = n) ∨
      ((n.inDkgGroup && n.createShares) = true ∧ ∃ shares c,
        Consensus.createShares n.lastRandomNo n.blockNum 0 n.consensus = .ok shares c ∧
          n' = send now shares { n with count := 0, consensus := c }) := by
  simp only [newRound] at begun
  split at begun
  · rename_i active
    obtain ⟨shares, p, made, rest⟩ := bind_eq_ok.mp begun
    obtain ⟨c, created, rfl⟩ := onConsensus_eq_ok.mp made
    cases rest
    exact Or.inr ⟨active, shares, c, created, rfl⟩
  · rename_i passive
    cases begun
    exact Or.inl ⟨by simpa using passive, rfl⟩

variable [TrieRoot] [Poststate]

def adopted (n : Node S R) (block : Block) (svc : Service S R) (head : BlockHeader)
    (signer : IPAddress) : Node S R :=
  { n with
    service := svc
    timestamp := head.timestamp
    blockNum := head.number
    lastRandomNo := encodeHex block.header.randomNumber
    fromBootstrap := false
    consensus := { n.consensus with
      currentRandomNo :=
        if n.fromBootstrap then encodeHex block.header.randomNumber
        else n.consensus.currentRandomNo
      groupSig := if n.fromBootstrap then block.header.groupSig else n.consensus.groupSig
      nextSigner := signer
      shares := []
      sharesIds := []
      verified := false } }

theorem adoptBlock_ok (adopts : adoptBlock op now depth block n = .ok () n') :
    ∃ svc head signer, Service.addBlock now depth block n.service = .ok () svc ∧
      svc.chain.headHeader op.genesis = .ok head ∧
      selectSigner (if n.fromBootstrap then encodeHex block.header.randomNumber
        else n.consensus.currentRandomNo) head.number = .ok signer ∧
      newRound now (n.adopted block svc head signer) = .ok () n' := by
  obtain ⟨_, p, first, rest⟩ := bind_eq_ok.mp adopts
  obtain ⟨svc, added, rfl⟩ := onService_eq_ok.mp first
  obtain ⟨head, found, rest⟩ := asks_bind_eq_ok.mp rest
  rw [update_bind, update_bind] at rest
  obtain ⟨_, q, second, rest⟩ := bind_eq_ok.mp rest
  obtain ⟨c, calculated, rfl⟩ := onConsensus_eq_ok.mp second
  obtain ⟨signer, selected, rfl⟩ := calculateNextSigner_ok calculated
  rw [update_bind] at rest
  obtain ⟨service, consensus, cache, phase, count, processed, dkgOn, exitFromDkg, timestamp,
    blockNum, lastRandomNo, inDkgGroup, myDkgIds, createShares, signingAddr, signerSet,
    fromBootstrap, sent⟩ := n
  cases fromBootstrap with
  | true => exact ⟨svc, head, signer, added, found, selected, rest⟩
  | false => exact ⟨svc, head, signer, added, found, selected, rest⟩

omit [Hashlib] [Bls] [NodeConfig] in
theorem adoptBootstrap_ok (adopts : adoptBootstrap now depth block n = .ok () n') :
    ∃ svc signer, Service.addBlock now depth block n.service = .ok () svc ∧
      selectSigner (encodeHex block.header.randomNumber) block.header.number = .ok signer ∧
      n' = { n with
        service := svc
        lastRandomNo := encodeHex block.header.randomNumber
        blockNum := block.header.number
        consensus := { n.consensus with
          currentRandomNo := encodeHex block.header.randomNumber
          groupSig := block.header.groupSig
          nextSigner := signer } } := by
  obtain ⟨_, p, first, rest⟩ := bind_eq_ok.mp adopts
  obtain ⟨svc, added, rfl⟩ := onService_eq_ok.mp first
  rw [update_bind] at rest
  obtain ⟨c, calculated, rfl⟩ := onConsensus_eq_ok.mp rest
  obtain ⟨signer, selected, rfl⟩ := calculateNextSigner_ok calculated
  exact ⟨svc, signer, added, selected, rfl⟩

end Received

section Own

variable {S R : Type} [IPSet S] [Radix R Address] [Platform] [Hashlib] [Bls] [NodeConfig]
  [TrieKeys S] [TrieRoot] [Poststate] [StateRoot S] [Signing] {op : Operator} {n m : Node S R}
  {now wait depth : Nat}

open NodeConfig

/-- The node once it has looked at the clock. Out of a key generation the next signer is asked
for. -/
def timed (n : Node S R) (head : BlockHeader) (signerSet : Bool) (signingAddr : Option Address) :
    Node S R :=
  { n with
    timestamp := head.timestamp
    blockNum := head.number
    signerSet := signerSet
    signingAddr := signingAddr }

omit [Hashlib] [Bls] [NodeConfig] [TrieKeys S] [TrieRoot] [Poststate] [StateRoot S] [Signing] in
theorem electSigner_ok (elected : electSigner n = .ok () m) :
    (n.exitFromDkg = true ∧ m = n) ∨ (n.exitFromDkg = false ∧ ∃ a,
      n.service.chain.getAddrFromIp n.consensus.nextSigner = .ok a ∧
        m = { n with signerSet := true, signingAddr := some a }) := by
  simp only [electSigner] at elected
  split at elected
  · rename_i out
    cases elected
    exact Or.inl ⟨out, rfl⟩
  · rename_i stays
    split at elected
    · cases elected
    · rename_i a found
      cases elected
      exact Or.inr ⟨by simpa using stays, a, found, rfl⟩

omit [Hashlib] [Bls] in
theorem createOwn_ok {made : Option Block} (created : createOwn op now depth n = .ok made m) :
    (made = none ∧ m = n) ∨ ∃ address key block signed svc, (address, key) ∈ op.keys ∧
      n.signingAddr = some address ∧ made = some signed ∧ block.sign key = .ok signed ∧
      Service.createBlock (now / second) depth (.bytes address.bytes)
        n.consensus.currentRandomNo (some n.consensus.groupKey) n.consensus.groupSig n.count
        n.service = .ok block svc ∧ m = { n with service := svc, exitFromDkg := false } := by
  simp only [createOwn] at created
  split at created
  · cases created
  · rename_i address drawn
    split at created
    · cases created
      exact Or.inl ⟨rfl, rfl⟩
    · rename_i key held
      split at created
      · obtain ⟨block, p, first, rest⟩ := bind_eq_ok.mp created
        obtain ⟨svc, run, rfl⟩ := onService_eq_ok.mp first
        obtain ⟨signed, q, lifted, rest⟩ := bind_eq_ok.mp rest
        obtain ⟨signs, rfl⟩ := lift_eq_ok.mp lifted
        cases rest
        have member := List.mem_of_find?_eq_some held
        have same : key.1 = address := by simpa using List.find?_some held
        subst same
        exact Or.inr ⟨key.1, key.2, block, signed, svc, member, drawn, rfl, signs, run, rfl⟩
      · cases created

omit [Hashlib] [Bls] in
theorem makeBlock_none (waited : makeBlock op now depth n = .ok none m) :
    ∃ head signerSet signingAddr, n.service.chain.headHeader op.genesis = .ok head ∧
      (n.dkgOn = true ∨ n.exitFromDkg = true → signingAddr = n.signingAddr) ∧
      m = n.timed head signerSet signingAddr := by
  obtain ⟨head, found, rest⟩ := asks_bind_eq_ok.mp waited
  replace rest := (update_bind _ _ n).symm.trans rest
  beta_reduce at rest
  split at rest
  · cases rest
    exact ⟨head, _, _, found, fun _ => rfl, rfl⟩
  · split at rest
    · cases rest
    · split at rest
      · rename_i ready
        obtain ⟨_, p, elected, created⟩ := bind_eq_ok.mp rest
        rcases createOwn_ok created with ⟨-, rfl⟩ | ⟨address, key, block, signed, svc, -, -, made, -⟩
        · rcases electSigner_ok elected with ⟨-, rfl⟩ | ⟨stays, a, -, rfl⟩
          · exact ⟨head, _, _, found, fun _ => rfl, rfl⟩
          · refine ⟨head, true, some a, found, fun renewing => ?_, rfl⟩
            simp only [Bool.and_eq_true, Bool.not_eq_true'] at ready
            rcases renewing with on | out
            · exact absurd (on.symm.trans ready.2) (by decide)
            · exact absurd (out.symm.trans stays) (by decide)
        · cases made
      · cases rest
        exact ⟨head, _, _, found, fun _ => rfl, rfl⟩

omit [Hashlib] [Bls] in
theorem makeBlock_some {block : Block} (created : makeBlock op now depth n = .ok (some block) m) :
    ∃ head address key made svc signerSet, n.service.chain.headHeader op.genesis = .ok head ∧
      (address, key) ∈ op.keys ∧
      (head.timestamp + blockTime) * second ≤ now ∧ n.dkgOn = false ∧
      (n.consensus.verified = true ∨ n.exitFromDkg = true) ∧ made.sign key = .ok block ∧
      Service.createBlock (now / second) depth (.bytes address.bytes)
        n.consensus.currentRandomNo (some n.consensus.groupKey) n.consensus.groupSig n.count
        n.service = .ok made svc ∧
      m = { n.timed head signerSet (some address) with service := svc, exitFromDkg := false } := by
  obtain ⟨head, found, rest⟩ := asks_bind_eq_ok.mp created
  replace rest := (update_bind _ _ n).symm.trans rest
  beta_reduce at rest
  split at rest
  · cases rest
  · rename_i late
    split at rest
    · cases rest
    · split at rest
      · rename_i ready
        simp only [Bool.and_eq_true, Bool.or_eq_true, Bool.not_eq_true'] at ready
        obtain ⟨_, p, elected, created⟩ := bind_eq_ok.mp rest
        rcases createOwn_ok created with
          ⟨made, -⟩ | ⟨address, key, made, signed, svc, held, drawn, same, signs, run, rfl⟩
        · cases made
        · cases same
          rcases electSigner_ok elected with ⟨-, rfl⟩ | ⟨-, a, -, rfl⟩
          · refine ⟨head, address, key, made, svc, n.signerSet, found, held, Nat.not_lt.mp late, ready.2,
              ready.1, signs, run, ?_⟩
            rw [timed, ← drawn]
          · cases drawn
            exact ⟨head, address, key, made, svc, true, found, held, Nat.not_lt.mp late, ready.2,
              ready.1, signs, run, rfl⟩
      · cases rest

omit [TrieKeys S] [StateRoot S] [Signing] in
theorem adoptOwn_ok {block : Block} (adopts : adoptOwn now wait depth block n = .ok () m) :
    ∃ svc signer, Service.addBlock (now / second + wait) depth block n.service = .ok () svc ∧
      selectSigner n.consensus.currentRandomNo block.header.number = .ok signer ∧
      newRound now { n with
        service := svc
        sent := n.sent ++ [.block block]
        count := 0
        blockNum := block.header.number
        lastRandomNo := n.consensus.currentRandomNo
        consensus := { n.consensus with
          nextSigner := signer
          shares := []
          sharesIds := []
          verified := false } } = .ok () m := by
  obtain ⟨_, p, first, rest⟩ := bind_eq_ok.mp adopts
  obtain ⟨svc, added, rfl⟩ := onService_eq_ok.mp first
  rw [update_bind] at rest
  obtain ⟨_, q, second, rest⟩ := bind_eq_ok.mp rest
  obtain ⟨c, calculated, rfl⟩ := onConsensus_eq_ok.mp second
  obtain ⟨signer, selected, rfl⟩ := calculateNextSigner_ok calculated
  exact ⟨svc, signer, added, selected, rest⟩

end Own

end Node

end IPchain
