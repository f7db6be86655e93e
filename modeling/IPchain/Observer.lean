import IPchain.Acceptance
import IPchain.Lib.Sha256

/-! A node that takes part in no group, from its start to the blocks that it is sent. -/

namespace IPchain

open Lib Platform

section Empty

variable {S R : Type} [IPSet S] [Radix R Address] [Platform] [TrieRoot] [Poststate]
  {c : Chain S R} {block : Block} {a : Address} {now : Nat}

/-- A block without transactions becomes the head once its time has come, and leaves the
accounts and the tree as they are. -/
theorem Chain.Sane.extends_empty (sane : c.Sane) (signed : block.signer = .ok a)
    (known : a ≠ nullAddress) (based : Based c.state.toAuxVars block)
    (empty : block.transactions = []) (due : block.header.timestamp ≤ now) (depth : Nat) :
    ∃ t, Chain.addBlock now (depth + 1) block c = .ok true (c.extended block t c.patricia) ∧
      (c.state.addBlockHeader block.header).Alike t := by
  have accepts : ∀ tx ∈ block.transactions, ∃ a V, c.state.account.book.Accepts tx a V := by
    rw [empty]
    exact List.forall_mem_nil _
  have loop : applyTransactions block.transactions ∅ c.state = .ok ∅ c.state := by
    rw [empty]
    rfl
  obtain ⟨v, validated⟩ := validateBlock_ok_iff.mpr ⟨⟨a, signed, known⟩, based, accepts⟩
  have applied := (applyBlock_eq_ok (p := c.patricia)).mpr ⟨based, ∅, c.state, loop, rfl, rfl⟩
  have rows : cachedRows ∅ = [] := List.Perm.eq_nil (Platform.items_perm _)
  rw [rows] at applied
  exact sane.accepts validated applied due depth

theorem Service.addBlock_empty {c' : Chain S R} {b : Bool} {depth : Nat}
    (empty : block.transactions = []) (added : Chain.addBlock now depth block c = .ok b c') :
    Service.addBlock now depth block ⟨c, []⟩ = .ok () ⟨c', []⟩ := by
  refine Service.addBlock_eq_ok.mpr ⟨?_, b, c', added, ?_⟩
  · rw [empty]
    rfl
  · simp only [Service.purge, empty, List.foldl_nil, Service.invalidTransactions]

end Empty

namespace Node

section Observer

variable {S R : Type} [IPSet S] [Radix R Address] [FirstAddress S] [Platform] [Hashlib] [Bls]
  [NodeConfig] [TrieKeys S] {op : Operator} {n : Node S R} {block : Block}

def fresh (svc : Service S R) (now : Nat) (head : BlockHeader) (key : Bytes)
    (dkgGroup : List Address) (group : Group) (signer : IPAddress) : Node S R where
  service := svc
  consensus := {
    currentRandomNo := encodeHex head.randomNumber
    groupSig := head.groupSig
    shares := []
    sharesIds := []
    verified := true
    nextSigner := signer
    dkgGroup := dkgGroup
    ownIds := []
    secretKeys := ∅
    groupKey := key
    previousGroupKey := key
    msg := []
    members := some (AList.insert none group ∅) }
  cache := ShareCache.init now
  phase := .bootstrap
  count := 0
  processed := 0
  dkgOn := false
  exitFromDkg := false
  timestamp := head.timestamp
  blockNum := head.number
  lastRandomNo := encodeHex head.randomNumber
  inDkgGroup := false
  myDkgIds := []
  createShares := false
  signingAddr := none
  signerSet := false
  fromBootstrap := false
  sent := []

omit [Radix R Address] [FirstAddress S] in
theorem start_fresh {svc : Service S R} {now : Nat} {head : BlockHeader} {key : Bytes}
    {dkgGroup : List Address} {group : Group} {signer : IPAddress} (keyless : op.keys = [])
    (servant : op.masterKeys = none) (found : svc.chain.headHeader op.genesis = .ok head)
    (known : svc.chain.getCurrentGroupKey op.genesis = .ok key)
    (grouped : svc.chain.getCurrentDkgGroup op.genesis = .ok dkgGroup)
    (selected : selectSigner (encodeHex head.randomNumber) head.number = .ok signer)
    (members : groupMembers dkgGroup ∅ = .ok group) :
    start op now svc = .ok (fresh svc now head key dkgGroup group signer) := by
  have nobody : findMeInDkgGroup dkgGroup op.addresses = (false, []) := by
    rw [Operator.addresses, keyless]
    rfl
  obtain ⟨genesis, keys, masterKeys⟩ := op
  cases servant
  simp only [start, found, known, grouped, nobody, Consensus.init, selected, bind, Except.bind,
    pure, Except.pure, Operator.isMaster, Option.isSome_none, Bool.false_eq_true, if_false,
    EStateM.bind, EStateM.pure, Consensus.storeIds, members]
  rfl

omit [FirstAddress S] [NodeConfig] [TrieKeys S] in
theorem checkBlock_normal [FirstAddress S] (verifies : n.verifies block = true)
    (stays : (n.inDkgGroup && n.exitFromDkg) = false) (off : n.dkgOn = false)
    (vouched : Vouched n.service.chain block n.consensus.nextSigner) :
    ∃ s, n.service.chain.state.Alike s ∧
      checkBlock block n = .ok true { n.withState s with signerSet := true } := by
  have vouched' : Vouched ({ n with signerSet := true } : Node S R).service.chain block
      n.consensus.nextSigner := vouched
  obtain ⟨s, alike, verified⟩ := verifySigner_of_vouched vouched'
  refine ⟨s, alike, ?_⟩
  have expected : expectedSigner block n =
      .ok (some n.consensus.nextSigner) { n with signerSet := true } := by
    have valid : n.consensus.verifyGroupSig (beaconMessage n.lastRandomNo n.blockNum n.count)
        block.header.groupSig (n.exitFromDkg || n.dkgOn) = true := verifies
    simp only [expectedSigner]
    rw [if_neg (ne_false_of_eq_true valid), if_neg (ne_true_of_eq_false stays),
      if_neg (ne_true_of_eq_false off)]
  simp only [checkBlock, orSkip, bind_of_ok expected, verified]
  rfl

omit [TrieKeys S] in
omit [FirstAddress S] in
theorem adoptBlock_passive [TrieRoot] [Poststate] {now depth : Nat} {svc : Service S R}
    {head : BlockHeader} {signer : IPAddress}
    (passive : (n.inDkgGroup && n.createShares) = false)
    (added : Service.addBlock now depth block n.service = .ok () svc)
    (found : svc.chain.headHeader op.genesis = .ok head)
    (selected : selectSigner (if n.fromBootstrap then encodeHex block.header.randomNumber
      else n.consensus.currentRandomNo) head.number = .ok signer) :
    adoptBlock op now depth block n = .ok () (n.adopted block svc head signer) := by
  obtain ⟨service, consensus, cache, phase, count, processed, dkgOn, exitFromDkg, timestamp,
    blockNum, lastRandomNo, inDkgGroup, myDkgIds, createShares, signingAddr, signerSet,
    fromBootstrap, sent⟩ := n
  have quiet : ∀ p : Node S R, (p.inDkgGroup && p.createShares) = false →
      newRound now p = .ok () p := by
    intro p none
    rw [newRound, if_neg (ne_true_of_eq_false none)]
  cases fromBootstrap with
  | true =>
      have selected : selectSigner (encodeHex block.header.randomNumber) head.number = .ok signer :=
        selected
      simp only [adoptBlock, bind, EStateM.bind, onService, added, asks, found, update,
        onConsensus, Consensus.calculateNextSigner, if_true, selected]
      exact quiet _ passive
  | false =>
      have selected : selectSigner consensus.currentRandomNo head.number = .ok signer := selected
      simp only [adoptBlock, bind, EStateM.bind, onService, added, asks, found, update,
        onConsensus, Consensus.calculateNextSigner, Bool.false_eq_true, if_false, selected]
      exact quiet _ passive

omit [Radix R Address] [Bls] [FirstAddress S] in
theorem bootstrapSigner_normal [FirstAddress S] (number : renews block.header.number = false) :
    bootstrapSigner op block n = .ok (some n.consensus.nextSigner) n := by
  simp only [bootstrapSigner, number, Bool.false_eq_true, if_false]

omit [Radix R Address] [Bls] in
theorem bootstrapSigner_renewed {group : List Address} {a : Address}
    (number : renews block.header.number = true)
    (known : n.service.chain.getCurrentDkgGroup op.genesis = .ok group)
    (drawn : dkgSigner n.lastRandomNo group = .ok a) :
    ∃ s, n.service.chain.state.Alike s ∧ bootstrapSigner op block n = .ok (n.firstOf a)
      { n.withState s with
        consensus := { n.consensus with groupKey := block.header.groupPubkey } } := by
  obtain ⟨s, alike, first⟩ := extractFirstIpFromAddress_run a n
  refine ⟨s, alike, ?_⟩
  simp only [bootstrapSigner, number, if_true]
  apply asks_bind_eq_ok.mpr ⟨group, known, ?_⟩
  apply lift_bind_eq_ok.mpr ⟨a, drawn, ?_⟩
  apply bind_eq_ok.mpr ⟨_, _, first, ?_⟩
  rfl

theorem checkBootstrap_run {p : Node S R} {x : IPAddress}
    (found : bootstrapSigner op block n = .ok (some x) p)
    (verifies : p.bootVerifies block = true)
    (hashed : encodeHex block.header.randomNumber = hexdigest block.header.groupSig)
    (vouched : Vouched p.service.chain block x) :
    ∃ s, p.service.chain.state.Alike s ∧
      checkBootstrap op block n = .ok true (p.withState s) := by
  obtain ⟨s, alike, verified⟩ := verifySigner_of_vouched vouched
  refine ⟨s, alike, ?_⟩
  have valid : p.consensus.verifyGroupSig (beaconMessage p.lastRandomNo p.blockNum p.count)
      block.header.groupSig (renews block.header.number) = true := verifies
  have checked : (do
      let signer ← bootstrapSigner op block
      fun n =>
        if n.consensus.verifyGroupSig (beaconMessage n.lastRandomNo n.blockNum n.count)
            block.header.groupSig (renews block.header.number) = false then
          .error ⟨.blsInvalidGroupSignature, ""⟩ n
        else if encodeHex block.header.randomNumber ≠ hexdigest block.header.groupSig then
          .error ⟨.exception, ""⟩ n
        else verifySigner block signer n : EStateM PyExc (Node S R) Bool) n =
      .ok true (p.withState s) := by
    refine bind_eq_ok.mpr ⟨some x, p, found, ?_⟩
    refine (if_neg (ne_false_of_eq_true valid)).trans ?_
    exact (if_neg (not_not.mpr hashed)).trans verified
  rw [checkBootstrap, orSkip]
  simp only [checked]

omit [FirstAddress S] [Hashlib] [Bls] [NodeConfig] [TrieKeys S] in
theorem adoptBootstrap_run [TrieRoot] [Poststate] {now depth : Nat} {svc : Service S R}
    {signer : IPAddress} (added : Service.addBlock now depth block n.service = .ok () svc)
    (selected : selectSigner (encodeHex block.header.randomNumber) block.header.number =
      .ok signer) :
    adoptBootstrap now depth block n = .ok () { n with
      service := svc
      lastRandomNo := encodeHex block.header.randomNumber
      blockNum := block.header.number
      consensus := { n.consensus with
        currentRandomNo := encodeHex block.header.randomNumber
        groupSig := block.header.groupSig
        nextSigner := signer } } := by
  simp only [adoptBootstrap, bind, EStateM.bind, onService, added, update, onConsensus,
    Consensus.calculateNextSigner, selected]

end Observer

end Node

namespace Sample.Watched

open Sample Sample.Recovered

def genesis : GenesisData :=
  { Sample.genesis with
    groupKey := [0x31]
    alloc := [(encodeHex (owner 1).bytes, some [netOf .v4 0 0, netOf .v6 0 0])] }

scoped instance : Hashlib := ⟨Sha256.sha256, Sha256.sha256_length⟩

scoped instance : Bls where
  genKeys := strOfInt
  secretKeyShare key _ := key
  publicKeyShare _ _ := []
  getPublicKey key := key
  publicKeyIsEqual x y := x = y
  secretKeyAdd x _ := x
  publicKeyAdd x _ := x
  sign digest key := digest ++ key
  verify digest sig key := sig = digest ++ key
  recover _ shares := shares.headD []

theorem interval_pos : 0 < 500 := by decide

scoped instance : NodeConfig where
  dkgRenewalInterval := 500
  renews := interval_pos
  threshold := 1
  dkgNumberParticipants := 1
  blockTime := 60
  timeout := 15552000
  dkgTimeout := 180000
  extTxPerLoop := 125

scoped instance : Signing := ⟨fun _ _ => (27, 1, 1), fun _ => owner 1⟩

open Classical in
noncomputable scoped instance : FirstAddress AddressRanges where
  first s := if h : ∃ x, x ∈ s then some h.choose else none
  mem_first s x found := by
    split at found
    · rename_i h
      cases found
      exact h.choose_spec
    · cases found
  first_eq_none s := by
    split
    · rename_i h
      simpa using h
    · rename_i h
      simpa using h

def first : BlockHeader := founded genesis

def op : Operator := ⟨first, [], none⟩

def signature (randomNumber : Bytes) (number : Nat) : Bytes :=
  hexdigest (beaconMessage (encodeHex randomNumber) number 0) ++ [0x31]

def blockAfter (prevhash : Bytes) (number timestamp : Nat) (randomNumber groupSig : Bytes) :
    Block where
  header := {
    prevhash := prevhash
    timestamp := timestamp
    extraData := []
    stateRoot := List.replicate 32 0
    txRoot := mkTransactionSha []
    number := number
    coinbase := (owner 1).bytes
    randomNumber := randomNumber
    groupPubkey := [0x30, 0x78, 0x30, 0x30]
    groupSig := groupSig
    count := 0 }
  transactions := []
  v := 27
  r := 1
  s := 1
  cachedSigner := none

theorem hash_length (header : BlockHeader) : header.hash.length = 32 := Platform.sha3_length _

theorem signer_blockAfter {prevhash randomNumber : Bytes} (link : prevhash.length = 32)
    (length : randomNumber.length = 32) (number timestamp : Nat) (groupSig : Bytes) :
    (blockAfter prevhash number timestamp randomNumber groupSig).signer = .ok (owner 1) :=
  signer_of_fits rfl rfl rfl (Or.inl rfl) rfl ⟨link, Or.inl List.length_replicate,
    Or.inl (Platform.sha3_length _), Or.inl (owner 1).sized, length⟩

theorem origin_bound : 0 < 2 ^ Family.v4.width := by decide

theorem drawn_bound : 1577898397 < 2 ^ Family.v4.width := by decide

def selected : List IPAddress := [⟨.v4, 0, origin_bound⟩, ⟨.v4, 1577898397, drawn_bound⟩]

def listed (g : State AddressRanges × Cached) : Bool :=
  g.1.trie.keys = {owner 1} && selected.all fun x =>
    owns g.1 (owner 1) (IPNetwork.ofAddress x) &&
      decide (Radix.lookup (PatriciaState.setValues (Radix.empty : PrefixTable Address) (cachedRows g.2)) x =
        some (owner 1))

theorem watched_genesis : Passes (stateFromGenesisDeclaration genesis) listed = true := by
  decide

/-- The chain is at a block, and takes the account for the owner of the selected addresses. -/
structure Watches (c : Chain AddressRanges (PrefixTable Address)) (last : BlockHeader) : Prop where
  sane : c.Sane
  newest : ∃ older, c.state.prevHeaders = .block last :: older
  head : c.headHeader first = .ok last
  answers : ∀ x ∈ selected, c.getAddrFromIp x = .ok (owner 1)
  held : ∀ x ∈ selected,
    (c.state.account (owner 1)).balance.inOwnIps (IPNetwork.ofAddress x) = true

theorem start_watches : ∃ c : Chain AddressRanges (PrefixTable Address),
    Chain.init genesis = .ok c ∧ Watches c first ∧ genesis.Roots AddressRanges first ∧
      c.headHeader first = .ok first ∧ c.getCurrentGroupKey first = .ok [0x31] ∧
        c.getCurrentDkgGroup first = .ok [owner 1] := by
  obtain ⟨⟨s, rows⟩, built, passed⟩ := passes_iff.mp watched_genesis
  simp only [listed, Bool.and_eq_true, decide_eq_true_eq, List.all_eq_true] at passed
  obtain ⟨keys, holds⟩ := passed
  obtain ⟨c, started, state, tree⟩ := Chain.init_ok (R := PrefixTable Address) built
  obtain ⟨headers, -⟩ := genesis_headers built
  have sane := Chain.sane_init started
  obtain ⟨s', rows', header, built', same, made⟩ := Chain.init_spec started
  rw [built] at built'
  cases built'
  have block (number : Nat) (zero : number = 0) :
      c.getBlockByNumber first number = .ok (genesisBlock first) := by
    subst zero same made
    simp only [Chain.getBlockByNumber, Chain.getBlock, Chain.getBlockhashByNumber, AList.lookup_insert,
      Option.bind_some]
  have head : c.headHeader first = .ok first := by
    subst same made
    simp only [Chain.headHeader, Chain.getHeadBlock, Chain.getBlock, Option.bind_some,
      AList.lookup_insert]
    rfl
  refine ⟨c, started, ⟨sane, ⟨[], ?_⟩, head, ?_, ?_⟩, ⟨s, rows, built, founded_eq built⟩, head, ?_, ?_⟩
  · rw [state, headers, first, founded_eq built]
  · intro x member
    rw [getAddrFromIp_eq_ok, tree]
    exact (holds x member).2
  · intro x member
    have owned := (holds x member).1
    rwa [owns, State.getBalance_fst, ← state] at owned
  · simp only [Chain.getCurrentGroupKey, head, bind, Except.bind, block (lastRenewal first.number) rfl]
    rfl
  · have addresses : TrieKeys.keys c.state.trie = [owner 1] := by
      change (c.state.trie.keys).toList = [owner 1]
      rw [state, keys, Finset.toList_singleton]
    simp only [Chain.getCurrentDkgGroup, head, bind, Except.bind, block (lastRenewal first.number) rfl,
      addresses]
    have drawn : (compressRandomNoToInt (encodeHex first.randomNumber)).bind
      (fun number => drawGroup 1 number [owner 1]) = .ok [owner 1] := by decide
    exact drawn

theorem Watches.vouched {c : Chain AddressRanges (PrefixTable Address)} {last : BlockHeader}
    (watches : Watches c last) {x : IPAddress} (member : x ∈ selected) {block : Block}
    (signed : block.signer = .ok (owner 1)) : Node.Vouched c block x :=
  ⟨⟨_, watches.answers x member⟩, _, signed, watches.held x member⟩

theorem Watches.extends {c : Chain AddressRanges (PrefixTable Address)} {last : BlockHeader}
    (watches : Watches c last) {now timestamp : Nat} (later : last.timestamp < timestamp)
    (bounded : timestamp < 2 ^ 256) (due : timestamp ≤ now) {randomNumber groupSig : Bytes}
    (length : randomNumber.length = 32) {block : Block}
    (next : block = blockAfter last.hash (last.number + 1) timestamp randomNumber groupSig) :
    (∃ v, validateBlock block c.state = .ok true v) ∧
    ∃ t, Chain.addBlock now 1 block c = .ok true (c.extended block t c.patricia) ∧
      Service.addBlock now 1 block ⟨c, []⟩ = .ok () ⟨c.extended block t c.patricia, []⟩ ∧
      Watches (c.extended block t c.patricia) block.header := by
  subst next
  obtain ⟨older, newest⟩ := watches.newest
  have signed := signer_blockAfter (hash_length last) length (last.number + 1) timestamp groupSig
  have based : Based c.state.toAuxVars
      (blockAfter last.hash (last.number + 1) timestamp randomNumber groupSig) :=
    ⟨⟨_, older, newest, rfl, rfl, later, bounded⟩, rfl⟩
  have known : owner 1 ≠ nullAddress := by decide
  have valid := validateBlock_ok_iff.mpr ⟨⟨_, signed, known⟩, based, List.forall_mem_nil _⟩
  refine ⟨valid, ?_⟩
  obtain ⟨t, added, alike⟩ := watches.sane.extends_empty signed known based rfl due 0
  refine ⟨t, added, Service.addBlock_empty rfl added, ?_, ⟨c.state.prevHeaders, ?_⟩, ?_,
    watches.answers, ?_⟩
  · obtain ⟨s, t', p, alike', applied, same⟩ := watches.sane.anchored.added added
    rw [same]
    exact watches.sane.extended alike' applied
  · exact congrArg AuxVars.prevHeaders alike.auxvars
  · simp only [Chain.headHeader, Chain.getHeadBlock]
    have record : (c.extended (blockAfter last.hash (last.number + 1) timestamp randomNumber
        groupSig) t c.patricia).blocks.lookup (blockAfter last.hash (last.number + 1) timestamp
          randomNumber groupSig).header.hash = some (some _) := AList.lookup_insert _
    have current : (c.extended (blockAfter last.hash (last.number + 1) timestamp randomNumber
        groupSig) t c.patricia).headHash = (blockAfter last.hash (last.number + 1) timestamp
          randomNumber groupSig).header.hash := rfl
    simp only [current, Chain.getBlock, Option.bind_some, record]
    rfl
  · intro x member
    have account : t.account = c.state.account := alike.account
    have held := watches.held x member
    rw [← account] at held
    exact held

theorem Watches.refuses {c : Chain AddressRanges (PrefixTable Address)} {last : BlockHeader}
    (watches : Watches c last) {now timestamp : Nat} (later : last.timestamp < timestamp)
    (bounded : timestamp < 2 ^ 256) (early : now < timestamp) {randomNumber groupSig : Bytes}
    (length : randomNumber.length = 32) {block : Block}
    (next : block = blockAfter last.hash (last.number + 1) timestamp randomNumber groupSig) :
    ∃ s queue, c.state.Alike s ∧ Chain.addBlock now 1 block c =
      .ok false { c with state := s, timeQueue := queue } := by
  obtain ⟨⟨s, valid⟩, -⟩ := watches.extends later bounded le_rfl length next
  have alike := alike_validateBlock block c.state
  rw [valid] at alike
  have early : now < block.header.timestamp := by rw [next]; exact early
  refine ⟨s, Chain.enqueue block c.timeQueue, alike, ?_⟩
  simp only [Chain.addBlock, valid, if_pos early]

def group : Group := AList.insert (owner 1) ⟨strOfInt (adler32 (owner 1).bytes), none, none⟩ ∅

theorem groupMembers_group : groupMembers [owner 1] ∅ = .ok group := by
  have full : strOfInt (adler32 (owner 1).bytes) ≠ [] := by decide
  simp only [groupMembers]
  exact if_neg full

theorem start_loop : ∃ (svc : Service AddressRanges (PrefixTable Address))
    (n : Node AddressRanges (PrefixTable Address)), svc.Reachable genesis ∧
      genesis.Roots AddressRanges first ∧ Node.start op 10 svc = .ok n ∧
      n = Node.fresh svc 10 first [0x31] [owner 1] group ⟨.v4, 0, by decide⟩ ∧
      svc.transactions = [] ∧ Watches svc.chain first ∧
      Node.handle op .finishBootstrap n = .ok () { n with
        timestamp := 1
        lastRandomNo := encodeHex first.randomNumber
        fromBootstrap := true
        phase := .blocks } := by
  obtain ⟨c, built, watches, roots, head, key, dkgGroup⟩ := start_watches
  have signer : selectSigner (encodeHex first.randomNumber) first.number =
    .ok ⟨.v4, 0, by decide⟩ := by decide +kernel
  refine ⟨⟨c, []⟩, _, .start built, roots, ?_, rfl, rfl, watches, ?_⟩
  · exact Node.start_fresh rfl rfl head key dkgGroup signer groupMembers_group
  · apply Node.asks_bind_eq_ok.mpr ⟨first, head, ?_⟩
    apply Node.asks_bind_eq_ok.mpr ⟨[0x31], key, ?_⟩
    rfl

theorem Watches.alike {c : Chain AddressRanges (PrefixTable Address)} {last : BlockHeader}
    (watches : Watches c last) {s : State AddressRanges} (alike : c.state.Alike s) :
    Watches { c with state := s } last := by
  obtain ⟨older, newest⟩ := watches.newest
  refine ⟨watches.sane.alike alike c.timeQueue, ⟨older, ?_⟩, watches.head, watches.answers, ?_⟩
  · exact (congrArg AuxVars.prevHeaders alike.auxvars).trans newest
  · rw [alike.account]
    exact watches.held

structure Sits (n : Node AddressRanges (PrefixTable Address)) (last : BlockHeader) : Prop where
  watches : Watches n.service.chain last
  pool : n.service.transactions = []
  off : n.dkgOn = false
  out : n.exitFromDkg = false
  mine : n.inDkgGroup = false
  number : n.blockNum = last.number
  random : n.lastRandomNo = encodeHex last.randomNumber
  count : n.count = 0
  key : n.consensus.groupKey = [0x31]
  drawn : n.consensus.nextSigner ∈ selected

theorem start_sits : ∃ (svc : Service AddressRanges (PrefixTable Address))
    (n m : Node AddressRanges (PrefixTable Address)), svc.Reachable genesis ∧
      genesis.Roots AddressRanges op.genesis ∧ svc.chain.headHeader op.genesis = .ok first ∧
      Node.start op 10 svc = .ok n ∧ Sits n first ∧ n.phase = .bootstrap ∧
      Node.handle op .finishBootstrap n = .ok () m ∧ Sits m first ∧ m.phase = .blocks ∧
      m.fromBootstrap = true := by
  obtain ⟨svc, n, reachable, roots, started, fresh, pool, watches, begun⟩ := start_loop
  subst fresh
  exact ⟨svc, _, _, reachable, roots, watches.head, started,
    ⟨watches, pool, rfl, rfl, rfl, rfl, rfl, rfl, rfl, List.mem_cons_self⟩, rfl, begun,
    ⟨watches, pool, rfl, rfl, rfl, rfl, rfl, rfl, rfl, List.mem_cons_self⟩, rfl, rfl⟩

section Sits

variable {n : Node AddressRanges (PrefixTable Address)} {last : BlockHeader}
  {timestamp now : Nat} {randomNumber : Bytes} {block : Block}

theorem Sits.unverified (sits : Sits n last) (bare : block.header.groupSig = []) :
    n.verifies block = false := by
  have unsigned (digest : Bytes) : Bls.verify digest [] [0x31] = false := by
    refine decide_eq_false fun same => ?_
    have length := congrArg List.length same
    simp at length
  rw [Node.verifies, sits.out, sits.off, Consensus.verifyGroupSig, if_neg (by decide), sits.key, bare]
  exact unsigned _

theorem Sits.skips (sits : Sits n last) (bare : block.header.groupSig = []) :
    Node.checkBlock block n = .ok false { n with signerSet := true } := by
  have refused : n.consensus.verifyGroupSig (beaconMessage n.lastRandomNo n.blockNum n.count)
      block.header.groupSig (n.exitFromDkg || n.dkgOn) = false := sits.unverified bare
  simp only [Node.checkBlock, Node.orSkip, bind_run, Node.expectedSigner, refused, if_true]
  rfl

theorem Sits.checks (sits : Sits n last) (length : randomNumber.length = 32)
    (next : block = blockAfter last.hash (last.number + 1) timestamp randomNumber
      (signature last.randomNumber last.number)) :
    ∃ s, n.service.chain.state.Alike s ∧
      Node.checkBlock block n = .ok true { n.withState s with signerSet := true } := by
  subst next
  refine Node.checkBlock_normal ?_ ?_ sits.off ?_
  · rw [Node.verifies, sits.out, sits.off, sits.random, sits.number, sits.count]
    change decide (signature last.randomNumber last.number = hexdigest (beaconMessage
      (encodeHex last.randomNumber) last.number 0) ++ n.consensus.groupKey) = true
    rw [sits.key]
    exact decide_eq_true rfl
  · rw [sits.mine]
    rfl
  · exact sits.watches.vouched sits.drawn (signer_blockAfter (hash_length last) length _ _ _)

theorem Sits.receives (sits : Sits n last) (length : randomNumber.length = 32)
    (next : block = blockAfter last.hash (last.number + 1) timestamp randomNumber
      (signature last.randomNumber last.number))
    (later : last.timestamp < timestamp) (bounded : timestamp < 2 ^ 256) (due : timestamp ≤ now)
    {signer : IPAddress} (selects : selectSigner (if n.fromBootstrap then encodeHex randomNumber
      else n.consensus.currentRandomNo) (last.number + 1) = .ok signer) :
    n.Due now block ∧ ∃ p svc, (∃ s, p = { n.withState s with signerSet := true }) ∧
      Node.checkBlock block n = .ok true p ∧
      Node.handle op (.block now 1 block) n = .ok () (p.adopted block svc block.header signer) ∧
      Node.taken op n (.block now 1 block) = [block] ∧
      (signer ∈ selected → Sits (p.adopted block svc block.header signer) block.header) := by
  obtain ⟨s, alike, checked⟩ := sits.checks length next
  have watches := sits.watches.alike alike
  obtain ⟨-, t, added, served, watches'⟩ := watches.extends later bounded due length next
  obtain ⟨valid, -⟩ := sits.watches.extends later bounded due length next
  have same : (n.withState s).service = ⟨{ n.service.chain with state := s }, []⟩ :=
    congrArg (Service.mk _) sits.pool
  have served := (congrArg (Service.addBlock now 1 block) same).trans served
  have number : block.header.number = last.number + 1 := by rw [next]; rfl
  have random : block.header.randomNumber = randomNumber := by rw [next]; rfl
  rw [← number, ← random] at selects
  have adopted : Node.adoptBlock op now 1 block { n.withState s with signerSet := true } =
      .ok () _ := Node.adoptBlock_passive
    (by simp only [Node.withState, sits.mine, Bool.false_and]) served watches'.head selects
  have stamped : block.header.timestamp ≤ now := by rw [next]; exact due
  refine ⟨⟨valid, stamped⟩, _, _, ⟨s, rfl⟩, checked, bind_eq_ok.mpr ⟨true, _, checked, adopted⟩,
    ?_, fun listed =>
      ⟨watches', rfl, sits.off, sits.out, sits.mine, rfl, rfl, sits.count, sits.key, listed⟩⟩
  · simp only [Node.taken, Node.handed, checked, Node.Event.clock]
    have added : Chain.addBlock now 1 block (n.withState s).service.chain = .ok true _ := added
    rw [added]

theorem Sits.boots (sits : Sits n last) (next : block = blockAfter last.hash (last.number + 1)
      timestamp (Hashlib.sha256 (signature last.randomNumber last.number))
      (signature last.randomNumber last.number))
    (later : last.timestamp < timestamp) (bounded : timestamp < 2 ^ 256) (due : timestamp ≤ now)
    (normal : Node.renews (last.number + 1) = false) {signer : IPAddress}
    (selects : selectSigner (hexdigest (signature last.randomNumber last.number))
      (last.number + 1) = .ok signer) :
    n.Due now block ∧ ∃ m, Node.handle op (.bootstrapBlock now 1 block) n = .ok () m ∧
      (∃ p, Node.handed op n (.bootstrapBlock now 1 block) = some (block, p)) ∧
      Node.taken op n (.bootstrapBlock now 1 block) = [block] ∧
      (signer ∈ selected → Sits m block.header) ∧
      m.consensus.nextSigner = signer ∧ m.phase = n.phase := by
  have number : block.header.number = last.number + 1 := by rw [next]; rfl
  have random : block.header.randomNumber =
    Hashlib.sha256 (signature last.randomNumber last.number) := by rw [next]; rfl
  have sig : block.header.groupSig = signature last.randomNumber last.number := by rw [next]; rfl
  have verifies : n.bootVerifies block = true := by
    rw [Node.bootVerifies, number, normal, sits.random, sits.number, sits.count, sig]
    change decide (signature last.randomNumber last.number = hexdigest (beaconMessage
      (encodeHex last.randomNumber) last.number 0) ++ n.consensus.groupKey) = true
    rw [sits.key]
    exact decide_eq_true rfl
  have signed : block.signer = .ok (owner 1) := by
    rw [next]
    exact signer_blockAfter (hash_length last) (Hashlib.sha256_length _) _ _ _
  obtain ⟨s, alike, checked⟩ : ∃ s, n.service.chain.state.Alike s ∧
      Node.checkBootstrap op block n = .ok true (n.withState s) := Node.checkBootstrap_run
    (Node.bootstrapSigner_normal (by rw [number]; exact normal)) verifies
    (by rw [random, sig]; rfl) (sits.watches.vouched sits.drawn signed)
  have watches := sits.watches.alike alike
  obtain ⟨-, t, added, served, watches'⟩ := watches.extends later bounded due (Hashlib.sha256_length _) next
  obtain ⟨valid, -⟩ := sits.watches.extends later bounded due (Hashlib.sha256_length _) next
  have same : (n.withState s).service = ⟨{ n.service.chain with state := s }, []⟩ :=
    congrArg (Service.mk _) sits.pool
  have served := (congrArg (Service.addBlock now 1 block) same).trans served
  have selects : selectSigner (encodeHex block.header.randomNumber) block.header.number =
      .ok signer := by
    rw [random, number]
    exact selects
  have adopted := Node.adoptBootstrap_run (n := n.withState s) served selects
  have stamped : block.header.timestamp ≤ now := by rw [next]; exact due
  have passed : Node.handed op n (.bootstrapBlock now 1 block) = some (block, n.withState s) := by
    simp only [Node.handed, checked]
  refine ⟨⟨valid, stamped⟩, _, bind_eq_ok.mpr ⟨true, _, checked, adopted⟩, ⟨_, passed⟩, ?_,
    fun listed =>
      ⟨watches', rfl, sits.off, sits.out, sits.mine, rfl, rfl, sits.count, sits.key, listed⟩,
    rfl, rfl⟩
  simp only [Node.taken, passed, Node.Event.clock]
  have added : Chain.addBlock now 1 block (n.withState s).service.chain = .ok true _ := added
  rw [added]

theorem Sits.rejects (sits : Sits n last) (length : randomNumber.length = 32)
    (next : block = blockAfter last.hash (last.number + 1) timestamp randomNumber
      (signature last.randomNumber last.number))
    (later : last.timestamp < timestamp) (bounded : timestamp < 2 ^ 256) (early : now < timestamp)
    {signer : IPAddress} (selects : selectSigner (if n.fromBootstrap then encodeHex randomNumber
      else n.consensus.currentRandomNo) last.number = .ok signer) :
    ∃ (p : Node AddressRanges (PrefixTable Address))
      (svc : Service AddressRanges (PrefixTable Address)),
        Node.handle op (.block now 1 block) n = .ok () (p.adopted block svc last signer) ∧
          Node.taken op n (.block now 1 block) = [] := by
  obtain ⟨s, alike, checked⟩ := sits.checks length next
  have watches := sits.watches.alike alike
  obtain ⟨t, queue, alike', refused⟩ := watches.refuses later bounded early length next
  have empty : block.transactions = [] := by rw [next]; rfl
  have same : (n.withState s).service = ⟨{ n.service.chain with state := s }, []⟩ :=
    congrArg (Service.mk _) sits.pool
  have served := (congrArg (Service.addBlock now 1 block) same).trans
    (Service.addBlock_empty empty refused)
  have found := ((Chain.Reads.headHeader ⟨t, queue, alike', rfl⟩ first).trans watches.head)
  have random : block.header.randomNumber = randomNumber := by rw [next]; rfl
  rw [← random] at selects
  have adopted : Node.adoptBlock op now 1 block { n.withState s with signerSet := true } =
      .ok () _ := Node.adoptBlock_passive
    (by simp only [Node.withState, sits.mine, Bool.false_and]) served found selects
  refine ⟨_, _, bind_eq_ok.mpr ⟨true, _, checked, adopted⟩, ?_⟩
  simp only [Node.taken, Node.handed, checked, Node.Event.clock]
  have refused : Chain.addBlock now 1 block (n.withState s).service.chain = .ok false _ := refused
  rw [refused]

end Sits

end Sample.Watched

end IPchain
