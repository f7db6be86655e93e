import IPchain.Integrity
import IPchain.Replicas

/-! A node that starts from the genesis, and is brought the blocks that another one has taken
while it was running. -/

namespace IPchain

open Lib Platform

namespace Chain

section Reads

variable {S R : Type} [IPSet S] [Platform] [Hashlib] [NodeConfig] [TrieKeys S] {c d : Chain S R}
  {first last : BlockHeader}

theorem Reads.getCurrentDkgGroup (reads : c.Reads d) (first : BlockHeader) :
    d.getCurrentDkgGroup first = c.getCurrentDkgGroup first := by
  rcases reads with ⟨s, queue, alike, rfl⟩
  simp only [Chain.getCurrentDkgGroup, alike.trie]
  rfl

omit [Hashlib] [NodeConfig] [TrieKeys S] in
theorem Indexed.reads {blocks : List Block} (indexed : c.Indexed first blocks)
    (reads : c.Reads d) : d.Indexed first blocks := by
  rcases reads with ⟨s, queue, alike, rfl⟩
  refine ⟨indexed.begins, indexed.linked, ?_, indexed.headHash, ?_, indexed.blockIndex,
    indexed.stored, indexed.positions⟩
  · exact (congrArg AuxVars.prevHeaders alike.auxvars).trans indexed.headers
  · exact (congrArg AuxVars.blockNumber alike.auxvars).trans indexed.number

omit [Hashlib] [NodeConfig] [TrieKeys S] in
theorem Indexed.header_at_head {blocks : List Block} (indexed : c.Indexed first blocks)
    (fronted : c.Fronted first last) {block : Block}
    (found : c.getBlockByNumber first last.number = .ok block) : block.header = last := by
  rcases fronted with ⟨⟨older, newest⟩, head⟩
  have same : last = IPchain.newest first blocks := by
    have newest' := newest_headers indexed newest
    exact PrevHeader.block.inj newest'
  have number : last.number = blocks.length := by
    rw [same, indexed.newest_number]
  have hash : c.getBlockhashByNumber last.number = some c.headHash := by
    rw [indexed.blockhash, number, indexed.headHash, headersOf_newest]
    rfl
  apply head
  rw [Chain.getBlockByNumber, hash] at found
  simp only [headHeader, getHeadBlock, found]
  rfl

end Reads

end Chain

namespace Node

section Force

variable [NodeConfig]

/-- The key in force before the last renewal, and the one after it. -/
def keysInForce (key : Bytes) (blocks : List Block) : Bytes × Bytes :=
  blocks.foldl (fun keys block =>
    if renews block.header.number then (keys.2, block.header.groupPubkey) else keys) (key, key)

theorem keysInForce_append (key : Bytes) (blocks : List Block) (block : Block) :
    keysInForce key (blocks ++ [block]) =
      if renews block.header.number then
        ((keysInForce key blocks).2, block.header.groupPubkey)
      else keysInForce key blocks := by
  rw [keysInForce, List.foldl_append]
  rfl

theorem keysInForce_snd (key : Bytes) (blocks : List Block) :
    (keysInForce key blocks).2 = keyInForce key blocks := by
  induction blocks using List.reverseRecOn with
  | nil => rfl
  | append_singleton blocks block ih =>
      rw [keysInForce_append, keyInForce_append, ← ih]
      simp only [keyInForce, List.foldl_cons, List.foldl_nil]
      split
      · rfl
      · rfl

end Force

section Watching

variable {S R : Type} [IPSet S] [Radix R Address] [FirstAddress S] [Platform] [Hashlib] [Bls]
  [NodeConfig] [TrieKeys S] [TrieRoot] [Poststate] [StateRoot S] [Signing] {op : Operator}
  {n m p : Node S R} {e : Event} {block : Block} {last : BlockHeader} {key : Bytes}

open NodeConfig

/-- A step of a node that is in no group, and that neither bootstraps nor signs. What it accepts
is due and brings a new key only while the node waits for one. The random number of the node is
that of the block, or is taken from it. -/
structure Attends (op : Operator) (n : Node S R) (e : Event) : Prop where
  real : e.Real
  lets : n.Lets op e
  apart : ∀ group, n.service.chain.getCurrentDkgGroup op.genesis = .ok group →
    (findMeInDkgGroup group op.addresses).1 = false
  live : ∀ now depth block, e ≠ .bootstrapBlock now depth block
  unsigned : ∀ now wait depth, e = .sign now wait depth → handed op n e = none
  accepted : ∀ now depth block, e = .block now depth block → n.awaits = true →
    n.verifies block = true → ∃ p, handed op n e = some (block, p)
  random : ∀ now depth block p, e = .block now depth block → handed op n e = some (block, p) →
    n.fromBootstrap = true ∨ n.consensus.currentRandomNo = encodeHex block.header.randomNumber
  renewal : ∀ now depth block p, e = .block now depth block → handed op n e = some (block, p) →
    renews block.header.number = true → n.dkgOn = true

theorem Attends.keeps (attends : Attends op n e) : Keeps op n e where
  real := attends.real
  lets := attends.lets
  accepted := attends.accepted
  renewal now depth block p same passed quiet renewed := by
    have on := attends.renewal now depth block p same passed renewed
    rw [Node.awaits, on, Bool.or_true] at quiet
    cases quiet
  skipped now depth block same := absurd same (attends.live now depth block)

theorem Attends.follows (attends : Attends op n e) : Follows op n e :=
  ⟨attends.real, attends.lets, attends.random⟩

/-- What a node in no group has fixed while it waits for the next key, and what it has kept of
the last one. -/
structure Stands (op : Operator) (last : BlockHeader) (prior : Bytes) (n : Node S R) : Prop where
  outside : n.inDkgGroup = false
  drawn : n.dkgOn = true → ∃ group a,
    n.service.chain.getCurrentDkgGroup op.genesis = .ok group ∧
      dkgSigner (encodeHex last.randomNumber) group = .ok a ∧ n.signingAddr = some a
  previous : n.awaits = false → n.consensus.previousGroupKey = prior

omit [FirstAddress S] [Radix R Address] [Bls] [TrieRoot] [Poststate] [StateRoot S] [Signing] in
theorem Stands.same {prior : Bytes} (stands : Stands op last prior n)
    (reads : n.service.chain.Reads m.service.chain) (outside : m.inDkgGroup = n.inDkgGroup)
    (flags : (m.dkgOn, m.exitFromDkg) = (n.dkgOn, n.exitFromDkg))
    (signer : n.dkgOn = true → m.signingAddr = n.signingAddr)
    (previous : m.consensus.previousGroupKey = n.consensus.previousGroupKey) :
    Stands op last prior m := by
  rcases Prod.mk.inj flags with ⟨flag, out⟩
  refine ⟨outside.trans stands.outside, ?_, ?_⟩
  · intro on
    rw [flag] at on
    rcases stands.drawn on with ⟨group, a, known, drawn, signing⟩
    refine ⟨group, a, ?_, drawn, (signer on).trans signing⟩
    rw [reads.getCurrentDkgGroup]
    exact known
  · intro quiet
    rw [Node.awaits, outside, flag, out] at quiet
    exact previous.trans (stands.previous quiet)

omit [Radix R Address] [FirstAddress S] [TrieRoot] [Poststate] [StateRoot S] [Signing] in
theorem Stands.start {svc : Service S R} {now : Nat} (started : start op now svc = .ok n)
    (known : svc.chain.getCurrentGroupKey op.genesis = .ok key)
    (apart : ∀ group, svc.chain.getCurrentDkgGroup op.genesis = .ok group →
      (findMeInDkgGroup group op.addresses).1 = false) : Stands op last key n := by
  rcases start_ok started with ⟨head, key', group, d, found, known', grouped, begins, rfl⟩
  rw [known] at known'
  cases known'
  rcases begins with ⟨c, setUp, gathers⟩
  refine ⟨apart group grouped, ?_, ?_⟩
  · intro on
    cases on
  · intro quiet
    exact gathers.previous.trans setUp.previous

omit [FirstAddress S] [TrieRoot] [Poststate] [StateRoot S] [Signing] [Radix R Address] in
theorem Stands.triggers {prior : Bytes} {blocks : List Block}
    (indexed : n.service.chain.Indexed op.genesis blocks) (steady : Steady op last key n)
    (apart : ∀ group, n.service.chain.getCurrentDkgGroup op.genesis = .ok group →
      (findMeInDkgGroup group op.addresses).1 = false)
    (triggered : Triggered op n m) : Stands op last prior (m.enter .collect) := by
  rcases triggered.begun with
    ⟨group, found, a, c, on, cache, sent, known, read, drawn, settled, outside, rfl⟩
  have mine := apart group known
  rcases outside mine with ⟨rfl, -⟩
  have header : found.header = last := by
    rw [steady.number] at read
    exact indexed.header_at_head steady.placed.fronted read
  rw [header] at drawn
  refine ⟨mine, ?_, ?_⟩
  · intro _
    exact ⟨group, a, known, drawn, rfl⟩
  · intro quiet
    simp only [Node.awaits, enter, Bool.or_true] at quiet
    cases quiet

theorem Stands.quiet {prior : Bytes} {blocks : List Block}
    (indexed : n.service.chain.Indexed op.genesis blocks) (steady : Steady op last key n)
    (stands : Stands op last prior n) (attends : Attends op n e)
    (nothing : handed op n e = none) (moves : Moves op n e m) : Stands op last prior m := by
  have reads := moves.reads nothing
  cases moves with
  | idles nothing idles =>
      rcases idles with ⟨svc, phase, processed, sent, calls, -, rfl⟩
      exact stands.same reads rfl rfl (fun _ => rfl) rfl
  | @skips now depth block m checked =>
      rcases checkBlock_false checked with ⟨-, rfl⟩ | ⟨verifies, x, p, s, passed, -, -, rfl⟩
      · exact stands.same reads rfl rfl (fun _ => rfl) rfl
      · cases passed with
        | left mine out key drawn alike =>
            rw [stands.outside] at mine
            cases mine
        | renewed stays on drawn alike =>
            have busy : n.awaits = true := by rw [Node.awaits, on, Bool.or_true]
            rcases attends.accepted now depth block rfl busy verifies with ⟨q, passed⟩
            rw [nothing] at passed
            cases passed
        | normal stays off => exact stands.same reads rfl rfl (fun _ => rfl) rfl
  | adopts checked adopted =>
      simp only [handed, checked] at nothing
      cases nothing
  | bootSkips checked => exact absurd rfl (attends.live _ _ _)
  | bootAdopts checked adopted => exact absurd rfl (attends.live _ _ _)
  | begins found => exact stands.same reads rfl rfl (fun _ => rfl) rfl
  | waits made =>
      rcases makeBlock_none made with ⟨head, signerSet, signingAddr, -, kept, rfl⟩
      exact stands.same reads rfl rfl (fun on => kept (Or.inl on)) rfl
  | makes made adopted =>
      simp only [handed, made] at nothing
      cases nothing
  | gathers nothing later gathered =>
      rcases gathered with ⟨c, cache, phase, sent, gathers, -, rfl⟩
      exact stands.same reads rfl rfl (fun _ => rfl) gathers.previous
  | watches kept => exact stands.same reads rfl rfl (fun _ => rfl) rfl
  | triggers triggered => exact .triggers indexed steady attends.apart triggered
  | contributes contributed =>
      rcases contributed with ⟨c, on, out, cache, sent, phase, -, kept, flags, -, rfl⟩
      have same := kept (Or.inr stands.outside)
      rcases flags with ⟨rfl, rfl⟩ | ⟨mine, -⟩
      · exact stands.same reads rfl rfl (fun _ => rfl) (congrArg Consensus.previousGroupKey same)
      · rw [stands.outside] at mine
        cases mine

theorem Stands.adopts {prior : Bytes} {now depth : Nat} (steady : Steady op last key n)
    (stands : Stands op last prior n) (attends : Attends op n (.block now depth block))
    (checked : checkBlock block n = .ok true p)
    (adopted : adoptBlock op now depth block p = .ok () m) :
    Stands op block.header (if renews block.header.number then key else prior) m := by
  have passes : handed op n (.block now depth block) = some (block, p) := by
    simp only [handed, checked]
  have due := attends.lets block rfl ⟨p, passes⟩
  have number : block.header.number = n.blockNum + 1 := by
    rw [steady.placed.due_number due, steady.number]
  rcases checkBlock_true checked with ⟨-, x, q, s, passed, -, -, rfl⟩
  rcases adoptBlock_ok adopted with ⟨svc, head, signer, -, -, -, begun⟩
  generalize some x = expected at passed
  cases passed with
  | left mine out key drawn alike =>
      rw [stands.outside] at mine
      cases mine
  | renewed stays on drawn alike =>
      have busy : n.awaits = true := by rw [Node.awaits, on, Bool.or_true]
      rw [number, (steady.waits busy).1, if_pos rfl]
      rcases newRound_ok begun with ⟨-, rfl⟩ | ⟨mine, -⟩
      · refine ⟨stands.outside, ?_, fun _ => steady.up busy⟩
        intro on
        cases on
      · simp only [Node.adopted, stands.outside, withState, Bool.false_and] at mine
        cases mine
  | normal stays off =>
      have quiet : n.awaits = false := by rw [Node.awaits, stays, off]; rfl
      have plain : renews block.header.number = false := by
        cases renewed : renews block.header.number with
        | false => rfl
        | true =>
            have on := attends.renewal now depth block _ rfl passes renewed
            rw [off] at on
            cases on
      rw [plain, if_neg Bool.false_ne_true]
      rcases newRound_ok begun with ⟨-, rfl⟩ | ⟨mine, -⟩
      · refine ⟨stands.outside, ?_, fun _ => stands.previous quiet⟩
        intro on
        have on : n.dkgOn = true := on
        rw [off] at on
        cases on
      · simp only [Node.adopted, stands.outside, withState, Bool.false_and] at mine
        cases mine

end Watching

section Following

variable {S R : Type} [IPSet S] [Radix R Address] [FirstAddress S] [Platform] [Hashlib] [Bls]
  [NodeConfig] [TrieKeys S] {op op' : Operator} {n b p : Node S R} {e : Event} {block : Block}
  {last : BlockHeader} {key first : Bytes} {c d : Chain S R}

omit [FirstAddress S] [Hashlib] [Bls] [NodeConfig] [TrieKeys S] in
theorem Vouched.reads {x : IPAddress} (vouched : Vouched c block x) (reads : c.Reads d) :
    Vouched d block x := by
  rcases reads with ⟨s, queue, alike, rfl⟩
  exact vouched.alike alike

def Continues (key : Bytes) (last : BlockHeader) (block : Block) : Prop :=
  Bls.verify (hexdigest (beaconMessage (encodeHex last.randomNumber) last.number 0))
    block.header.groupSig key = true

/-- Who signed the block is the one that the bootstrap asks for, and so is the group where the
block does not bring a new key. -/
structure Vetted (op : Operator) (last : BlockHeader) (key : Bytes) (c : Chain S R)
    (block : Block) : Prop where
  renewed : renews block.header.number = true → ∃ group a x,
    c.getCurrentDkgGroup op.genesis = .ok group ∧
      dkgSigner (encodeHex last.randomNumber) group = .ok a ∧
        FirstAddress.first (c.state.account a).balance.ownIps = some x ∧ Vouched c block x
  plain : renews block.header.number = false → ∃ x,
    selectSigner (encodeHex last.randomNumber) last.number = .ok x ∧ Vouched c block x ∧
      Continues key last block

/-- A node that is brought the blocks of another one, at the head `last`. -/
structure Trails (last : BlockHeader) (key first : Bytes) (c : Chain S R) (b : Node S R) :
    Prop where
  reads : c.Reads b.service.chain
  count : b.count = 0
  number : b.blockNum = last.number
  random : b.lastRandomNo = encodeHex last.randomNumber
  signer : selectSigner (encodeHex last.randomNumber) last.number = .ok b.consensus.nextSigner
  current : b.consensus.groupKey = key
  previous : b.consensus.previousGroupKey = first

omit [Radix R Address] [FirstAddress S] [Platform] [TrieKeys S] in
theorem Trails.verifies (trails : Trails last key first c b) (block : Block) :
    b.bootVerifies block = true ↔
      Continues (if renews block.header.number then first else key) last block := by
  rw [bootVerifies, Consensus.verifyGroupSig, trails.count, trails.number, trails.random,
    trails.current, trails.previous]
  rfl

/-- What the bootstrap asks for besides: the digest of the group signature, and the key of the
genesis for what comes with a new key. -/
def Proves (first : Bytes) (last : BlockHeader) (block : Block) : Prop :=
  block.header.randomNumber = Hashlib.sha256 block.header.groupSig ∧
    (renews block.header.number = true → Continues first last block)

theorem Trails.passes (trails : Trails last key first c b) (vetted : Vetted op last key c block)
    (same : op'.genesis = op.genesis) (proves : Proves first last block) :
    ∃ s, b.service.chain.state.Alike s ∧ checkBootstrap op' block b = .ok true
      { b.withState s with
        consensus := { b.consensus with groupKey := keyInForce key [block] } } := by
  have hashed : encodeHex block.header.randomNumber = hexdigest block.header.groupSig :=
    congrArg encodeHex proves.1
  rw [keyInForce, List.foldl_cons, List.foldl_nil]
  cases renewed : renews block.header.number with
  | true =>
      rcases vetted.renewed renewed with ⟨group, a, x, known, drawn, owned, vouched⟩
      rw [← trails.reads.getCurrentDkgGroup, ← same] at known
      rw [← trails.random] at drawn
      have signer : ∃ s, b.service.chain.state.Alike s ∧ bootstrapSigner op' block b =
          .ok (b.firstOf a) { b.withState s with
            consensus := { b.consensus with groupKey := block.header.groupPubkey } } :=
        bootstrapSigner_renewed renewed known drawn
      rcases signer with ⟨s, alike, found⟩
      have firstOf : b.firstOf a = some x := by
        rcases trails.reads with ⟨t, queue, alike', same'⟩
        rw [Node.firstOf, same', alike'.account]
        exact owned
      rw [firstOf] at found
      have verifies : b.bootVerifies block = true := by
        rw [trails.verifies, renewed, if_pos rfl]
        exact proves.2 renewed
      have vouched' := (vouched.reads trails.reads).alike alike
      rcases checkBootstrap_run found (by
        rw [bootVerifies, renewed] at verifies ⊢
        exact verifies) hashed vouched' with ⟨t, alike', checked⟩
      exact ⟨t, alike.trans alike', checked⟩
  | false =>
      rcases vetted.plain renewed with ⟨x, selected, vouched, continues⟩
      have next : b.consensus.nextSigner = x := by
        have signer := trails.signer
        rw [selected] at signer
        exact (Except.ok.inj signer).symm
      have verifies : b.bootVerifies block = true := by
        rw [trails.verifies, renewed, if_neg Bool.false_ne_true]
        exact continues
      rw [← next] at vouched
      rcases checkBootstrap_run (bootstrapSigner_normal renewed) verifies hashed
        (vouched.reads trails.reads) with ⟨t, alike, checked⟩
      refine ⟨t, alike, ?_⟩
      rw [checked, if_neg Bool.false_ne_true, ← trails.current]
      rfl

theorem Trails.unskipped {m : Node S R} (trails : Trails last key first c b)
    (vetted : Vetted op last key c block) (same : op'.genesis = op.genesis)
    (checked : checkBootstrap op' block b = .ok false m) : False := by
  have sees {x : IPAddress} {s : State S} (vouched : Vouched c block x)
      (alike : b.service.chain.state.Alike s) :
      Vouched (b.withState s).service.chain block x :=
    (vouched.reads trails.reads).alike alike
  rcases checkBootstrap_false checked with ⟨-, renewed, undrawn⟩ | ⟨signer, p, s, found, refused, -⟩
  · rcases vetted.renewed renewed with ⟨group, a, x, known, drawn, -⟩
    rw [← trails.reads.getCurrentDkgGroup, ← same] at known
    rw [← trails.random] at drawn
    exact undrawn group a known drawn
  · cases found with
    | @renewed group' a' s' renewed known' drawn' alike =>
        rcases vetted.renewed renewed with ⟨group, a, x, known, drawn, owned, vouched⟩
        rw [← trails.reads.getCurrentDkgGroup, ← same, known'] at known
        cases known
        rw [← trails.random, drawn'] at drawn
        cases drawn
        have firstOf : b.firstOf a' = some x := by
          rcases trails.reads with ⟨t, queue, alike', same'⟩
          rw [Node.firstOf, same', alike'.account]
          exact owned
        exact refused x firstOf (sees vouched alike)
    | normal plain =>
        rcases vetted.plain plain with ⟨x, selected, vouched, -⟩
        have next := trails.signer.symm.trans selected
        exact refused x (congrArg some (Except.ok.inj next)) (vouched.reads trails.reads)

theorem Trails.proves {m : Node S R} (trails : Trails last key first c b)
    (checked : checkBootstrap op' block b = .ok true m) : Proves first last block := by
  rcases checkBootstrap_true checked with ⟨verifies, hashed, -⟩
  refine ⟨encodeHex_injective hashed, ?_⟩
  intro renewed
  rw [trails.verifies, renewed, if_pos rfl] at verifies
  exact verifies

variable [TrieRoot] [Poststate]

theorem Trails.boots {now now' depth : Nat} {c' d' : Chain S R} {signer : IPAddress}
    (trails : Trails last key first c b) (sane : c.Sane) (vetted : Vetted op last key c block)
    (same : op'.genesis = op.genesis) (proves : Proves first last block)
    (families : Service.checkFamilies block.header.number block.transactions = .ok ())
    (scanned : c.Reads d) (added : Chain.addBlock now depth block d = .ok true d')
    (kept : d'.Reads c')
    (selected : selectSigner (encodeHex block.header.randomNumber) block.header.number = .ok signer)
    (due : block.header.timestamp ≤ now') (depth' : Nat) :
    ∃ b', bootstrapBlock op' now' (depth' + 1) block b = .ok () b' ∧
      Trails block.header (keyInForce key [block]) first c' b' := by
  rcases trails.passes vetted same proves with ⟨s, alike, checked⟩
  have here : d.Reads { b.service.chain with state := s } :=
    scanned.symm.trans (trails.reads.trans (Chain.reads_state alike))
  rcases here.takes (scanned.sane sane) added due depth' with ⟨e, added', reads⟩
  have served : Service.addBlock now' (depth' + 1) block
      ⟨{ b.service.chain with state := s }, b.service.transactions⟩ = .ok () _ :=
    Service.addBlock_eq_ok.mpr ⟨families, true, e, added', rfl⟩
  have purged := Chain.reads_state (c := e) (Service.invalidTransactions_eq
    (block.transactions.foldl Service.removeFirst b.service.transactions) e.state).2
  have adopted := adoptBootstrap_run (n := { b.withState s with
    consensus := { b.consensus with groupKey := keyInForce key [block] } }) served selected
  refine ⟨_, bind_eq_ok.mpr ⟨true, _, checked, adopted⟩, ?_⟩
  exact ⟨kept.symm.trans (reads.trans purged), trails.count, rfl, rfl, selected, rfl,
    trails.previous⟩

end Following

section Latecomer

variable {S R : Type} [IPSet S] [Radix R Address] [FirstAddress S] [Platform] [Hashlib] [Bls]
  [NodeConfig] [TrieKeys S] [TrieRoot] [Poststate] [StateRoot S] [Signing] {op op' : Operator}
  {n m p b : Node S R} {e : Event} {block : Block} {blocks : List Block} {last : BlockHeader}
  {key first : Bytes}

open NodeConfig

theorem vetted_of_checked {prior : Bytes} {now depth : Nat} (steady : Steady op last key n)
    (expects : Expects op last n) (stands : Stands op last prior n)
    (attends : Attends op n (.block now depth block)) (checked : checkBlock block n = .ok true p) :
    Vetted op last key n.service.chain block := by
  have passes : handed op n (.block now depth block) = some (block, p) := by
    simp only [handed, checked]
  have due := attends.lets block rfl ⟨p, passes⟩
  have number : block.header.number = n.blockNum + 1 := by
    rw [steady.placed.due_number due, steady.number]
  rcases checkBlock_true checked with ⟨verifies, x, q, s, passed, vouched, alike, rfl⟩
  have continues : Continues key last block := by
    rw [verifies_eq, steady.current, steady.random, steady.number, steady.count] at verifies
    exact verifies
  generalize chosen : some x = expected at passed
  cases passed with
  | left mine out key drawn alike =>
      rw [stands.outside] at mine
      cases mine
  | @renewed a s stays on drawn alike' =>
      have busy : n.awaits = true := by rw [Node.awaits, on, Bool.or_true]
      have renewed := (steady.waits busy).1
      rw [← number] at renewed
      rcases stands.drawn on with ⟨group, a', known, elected, signing⟩
      rw [signing] at drawn
      cases drawn
      have back : Vouched n.service.chain block x :=
        vouched.reads (Chain.reads_state alike').symm
      refine ⟨fun _ => ⟨group, _, x, known, elected, chosen.symm, back⟩, ?_⟩
      intro plain
      rw [renewed] at plain
      cases plain
  | normal stays off =>
      cases chosen
      refine ⟨?_, fun _ => ⟨_, expects.signer, vouched, continues⟩⟩
      intro renewed
      have on := attends.renewal now depth block _ rfl passes renewed
      rw [off] at on
      cases on

/-- Every block has the digest of its group signature, and every block with a new key was signed
with this one. -/
def Proven (first : Bytes) : BlockHeader → List Block → Prop
  | _, [] => True
  | last, block :: rest =>
      Proves first last block ∧ Proven first block.header rest

omit [Platform] [TrieRoot] [Poststate] [Signing] in
theorem proven_append (first : Bytes) (last : BlockHeader) (blocks : List Block) (block : Block) :
    Proven first last (blocks ++ [block]) ↔ Proven first last blocks ∧
      Proves first (lastHeader last blocks) block := by
  induction blocks generalizing last with
  | nil => simp [Proven, lastHeader]
  | cons head tail ih =>
      have later : lastHeader last (head :: tail) = lastHeader head.header tail :=
        lastHeader_append last [head] tail
      simp only [List.cons_append, Proven, ih, and_assoc, later]

/-- The loop of `perform_bootstrap`, over blocks that come in at times of their own. -/
def performBootstrap (op : Operator) (depth : Nat) :
    List (Nat × Block) → EStateM PyExc (Node S R) Unit
  | [] => pure ()
  | (now, block) :: arrivals => do
      bootstrapBlock op now depth block
      performBootstrap op depth arrivals

omit [StateRoot S] [Signing] in
theorem performBootstrap_append (depth : Nat) (arrivals : List (Nat × Block)) (now : Nat)
    (block : Block) (b : Node S R) :
    performBootstrap op depth (arrivals ++ [(now, block)]) b =
      (performBootstrap op depth arrivals >>= fun _ => bootstrapBlock op now depth block) b := by
  induction arrivals generalizing b with
  | nil =>
      simp only [performBootstrap, List.nil_append, bind_run, pure_run]
      cases bootstrapBlock op now depth block b with
      | ok _ m => rfl
      | error e m => rfl
  | cons head tail ih =>
      rcases head with ⟨now', block'⟩
      simp only [performBootstrap, List.cons_append, bind_run] at ih ⊢
      cases bootstrapBlock op now' depth block' b with
      | ok _ m => exact ih m
      | error e m => rfl

theorem indexed_step {first : BlockHeader} (sane : n.service.chain.Sane)
    (indexed : n.service.chain.Indexed first blocks) (handled : handle op e n = .ok () m) :
    m.service.chain.Indexed first (blocks ++ taken op n e) := by
  rcases handled_chain sane handled with
    ⟨nothing, kept⟩ | ⟨block, c, c', now, depth, one, scanned, called, kept⟩
  · rw [nothing, List.append_nil]
    exact indexed.reads kept
  · have anchored := (scanned.sane sane).anchored
    rcases anchored.added called with ⟨s, t, q, alike, applied, rfl⟩
    rw [one]
    exact ((indexed.reads scanned).extended alike.auxvars applied).reads kept

theorem Attends.received (attends : Attends op n e) (passed : handed op n e = some (block, p))
    (handled : handle op e n = .ok () m) : ∃ now depth, e = .block now depth block ∧
      checkBlock block n = .ok true p ∧ adoptBlock op now depth block p = .ok () m := by
  cases e with
  | bootstrapBlock now depth received => exact absurd rfl (attends.live now depth received)
  | block now depth received =>
      have opened := passed
      simp only [handed] at opened
      split at opened
      · rename_i checked
        cases opened
        rcases bind_eq_ok.mp handled with ⟨res, q, checked', rest⟩
        rw [checked] at checked'
        cases checked'
        exact ⟨now, depth, rfl, checked, rest⟩
      · cases opened
  | sign now wait depth =>
      rw [attends.unsigned now wait depth rfl] at passed
      cases passed
  | _ => cases passed

theorem Run.stands {g : GenesisData} {c : Chain S R} (built : Chain.init g = .ok c)
    (roots : g.Roots S op.genesis) (signs : op.Signs) (ticks : 0 < blockTime)
    (apart : ∀ group, c.getCurrentDkgGroup op.genesis = .ok group →
      (findMeInDkgGroup group op.addresses).1 = false)
    (run : Run op ⟨c, []⟩ (Attends op) blocks n) :
    ∃ head key, c.headHeader op.genesis = .ok head ∧ c.getCurrentGroupKey op.genesis = .ok key ∧
      Steady op (lastHeader head blocks) (keyInForce key blocks) n ∧
      Expects op (lastHeader head blocks) n ∧
      Stands op (lastHeader head blocks) (keysInForce key blocks).1 n ∧
      n.service.chain.Indexed op.genesis blocks := by
  have reachable : Service.Reachable g (⟨c, []⟩ : Service S R) := .start built
  rcases reachable.fronted roots with ⟨head, fronted⟩
  have opening : c.Indexed op.genesis [] := by
    rcases roots with ⟨s, rows, genesis, same⟩
    rw [same]
    exact ((Chain.Called.start built).indexed genesis).1
  induction run with
  | start started =>
      rcases placed_start started reachable.ready fronted with ⟨placed, found⟩
      rcases steady_start started placed found with ⟨key, known, steady⟩
      rcases start_ok started with ⟨head', key', group, d, -, -, -, -, same⟩
      refine ⟨head, key, found, known, steady, expects_start started placed found,
        .start started known apart, ?_⟩
      rw [same]
      exact opening
  | @step blocks n m run e turn met handled ih =>
      rcases ih with ⟨head', key, found, known, steady, expects, stands, indexed⟩
      have steady' := (steady.step signs ticks met.keeps turn handled).1
      have expects' := expects.step signs ticks met.follows handled
      refine ⟨head', key, found, known, ?_, ?_, ?_, ?_⟩
      · rw [lastHeader_append, keyInForce_append]
        exact steady'
      · rw [lastHeader_append]
        exact expects'
      · cases passed : handed op n e with
        | none =>
            have nothing : taken op n e = [] := by simp only [taken, passed]
            rw [nothing, List.append_nil]
            exact stands.quiet indexed steady met passed (handle_moves handled)
        | some given =>
            rcases given with ⟨block, p⟩
            rw [steady.placed.taken signs ticks met.real met.lets handled passed,
              keysInForce_append]
            rcases met.received passed handled with ⟨now, depth, rfl, checked, adopted⟩
            have later := stands.adopts steady met checked adopted
            rw [lastHeader_append]
            rw [← keysInForce_snd] at later
            have branch : (if renews block.header.number then
                ((keysInForce key blocks).2, block.header.groupPubkey)
                else keysInForce key blocks).1 = if renews block.header.number then
                  (keysInForce key blocks).2 else (keysInForce key blocks).1 := by
              split
              · rfl
              · rfl
            rw [branch]
            exact later
      · exact indexed_step steady.placed.ready.sane indexed handled

omit [Radix R Address] [FirstAddress S] [TrieRoot] [Poststate] [StateRoot S] [Signing] in
theorem Trails.start {c : Chain S R} {now : Nat} {head : BlockHeader}
    (started : Node.start op' now ⟨c, []⟩ = .ok b) (same : op'.genesis = op.genesis)
    (found : c.headHeader op.genesis = .ok head)
    (known : c.getCurrentGroupKey op.genesis = .ok key) : Trails head key key c b := by
  rcases start_ok started with ⟨head', key', group, d, found', known', -, ⟨e, setUp, gathers⟩, rfl⟩
  rw [same] at found' known'
  have found' : c.headHeader op.genesis = .ok head' := found'
  have known' : c.getCurrentGroupKey op.genesis = .ok key' := known'
  rw [found] at found'
  cases found'
  rw [known] at known'
  cases known'
  refine ⟨.refl _, rfl, rfl, rfl, ?_, ?_, ?_⟩
  · exact setUp.signer.trans (congrArg Except.ok gathers.signer.symm)
  · exact gathers.groupKey.trans setUp.current
  · exact gathers.previous.trans setUp.previous

theorem Trails.step {prior : Bytes} {now depth : Nat} (trails : Trails last key first n.service.chain b)
    (steady : Steady op last key n) (expects : Expects op last n)
    (stands : Stands op last prior n) (signs : op.Signs) (ticks : 0 < blockTime)
    (attends : Attends op n e) (handled : handle op e n = .ok () m)
    (one : taken op n e = [block]) (same : op'.genesis = op.genesis)
    (due : block.header.timestamp ≤ now) :
    ((∃ b', bootstrapBlock op' now (depth + 1) block b = .ok () b') ↔ Proves first last block) ∧
      ∀ b', bootstrapBlock op' now (depth + 1) block b = .ok () b' →
        Trails block.header (keyInForce key [block]) first m.service.chain b' := by
  cases passed : handed op n e with
  | none =>
      simp only [taken, passed] at one
      cases one
  | some given =>
      rcases given with ⟨block', p⟩
      have taken := steady.placed.taken signs ticks attends.real attends.lets handled passed
      rw [one] at taken
      cases taken
      rcases attends.received passed handled with ⟨now', depth', rfl, checked, adopted⟩
      have vetted := vetted_of_checked steady expects stands attends checked
      have families := (Service.addBlock_eq_ok.mp (handed_added passed handled)).1
      have selected := (expects.step signs ticks attends.follows handled).signer
      rw [one] at selected
      have sane := steady.placed.ready.sane
      rcases handled_chain sane handled with
        ⟨nothing, -⟩ | ⟨block', c, c', now'', depth'', one', scanned, called, kept⟩
      · rw [one] at nothing
        cases nothing
      · rw [one] at one'
        cases one'
        have boots (proves : Proves first last block) :=
          trails.boots sane vetted same proves families scanned called kept selected due depth
        have proves (b' : Node S R)
            (booted : bootstrapBlock op' now (depth + 1) block b = .ok () b') :
            Proves first last block := by
          rcases bind_eq_ok.mp booted with ⟨res, q, checked, -⟩
          cases res with
          | true => exact trails.proves checked
          | false => exact (trails.unskipped vetted same checked).elim
        constructor
        · constructor
          · intro booted
            rcases booted with ⟨b', booted⟩
            exact proves b' booted
          · intro proven
            rcases boots proven with ⟨b', booted, -⟩
            exact ⟨b', booted⟩
        · intro b' booted
          rcases boots (proves b' booted) with ⟨b'', booted', later⟩
          rw [booted] at booted'
          cases booted'
          exact later

theorem Run.trails {g : GenesisData} {c : Chain S R} {head : BlockHeader} {depth' : Nat}
    (built : Chain.init g = .ok c) (roots : g.Roots S op.genesis) (signs : op.Signs)
    (ticks : 0 < blockTime)
    (apart : ∀ group, c.getCurrentDkgGroup op.genesis = .ok group →
      (findMeInDkgGroup group op.addresses).1 = false)
    (found : c.headHeader op.genesis = .ok head)
    (known : c.getCurrentGroupKey op.genesis = .ok key) (same : op'.genesis = op.genesis)
    (trails : Trails head key key c b) (run : Run op ⟨c, []⟩ (Attends op) blocks n)
    (arrivals : List (Nat × Block)) (brought : arrivals.map Prod.snd = blocks)
    (due : ∀ arrival ∈ arrivals, arrival.2.header.timestamp ≤ arrival.1) :
    ((∃ b', performBootstrap op' (depth' + 1) arrivals b = .ok () b') ↔ Proven key head blocks) ∧
      ∀ b', performBootstrap op' (depth' + 1) arrivals b = .ok () b' →
        Trails (lastHeader head blocks) (keyInForce key blocks) key n.service.chain b' := by
  induction run generalizing arrivals with
  | start started =>
      rcases start_ok started with ⟨head', key', group, d, -, -, -, -, rfl⟩
      cases List.map_eq_nil_iff.mp brought
      constructor
      · exact ⟨fun _ => trivial, fun _ => ⟨b, rfl⟩⟩
      · intro b' done
        cases done
        exact trails
  | @step blocks n m run e turn met handled ih =>
      rcases run.stands built roots signs ticks apart with
        ⟨head', key', found', known', steady, expects, stands, indexed⟩
      rw [found] at found'
      cases found'
      rw [known] at known'
      cases known'
      have sane := steady.placed.ready.sane
      rcases handled_chain sane handled with
        ⟨nothing, kept⟩ | ⟨block, d, d', now, depth, one, scanned, called, kept⟩
      · rw [nothing, List.append_nil] at brought ⊢
        rcases ih arrivals brought due with ⟨taken, later⟩
        refine ⟨taken, ?_⟩
        intro b' done
        rcases later b' done with ⟨reads, count, number, random, signer, current, previous⟩
        exact ⟨kept.symm.trans reads, count, number, random, signer, current, previous⟩
      · rw [one] at brought ⊢
        rcases List.map_eq_append_iff.mp brought with ⟨before, final, rfl, brought', ended⟩
        rcases List.map_eq_singleton_iff.mp ended with ⟨⟨now', block'⟩, rfl, rfl⟩
        have earlier : ∀ arrival ∈ before, arrival.2.header.timestamp ≤ arrival.1 :=
          fun arrival member => due arrival (List.mem_append_left _ member)
        have timely : block'.header.timestamp ≤ now' :=
          due (now', block') (List.mem_append_right _ (List.mem_singleton.mpr rfl))
        rcases ih before brought' earlier with ⟨taken, later⟩
        have more (b' : Node S R) (done : performBootstrap op' (depth' + 1) before b = .ok () b') :
            ((∃ b'', bootstrapBlock op' now' (depth' + 1) block' b' = .ok () b'') ↔
              Proves key (lastHeader head _) block') ∧
              ∀ b'', bootstrapBlock op' now' (depth' + 1) block' b' = .ok () b'' →
                Trails block'.header (keyInForce (keyInForce key _) [block']) key
                  m.service.chain b'' :=
          (later b' done).step steady expects stands signs ticks met handled one same timely
        simp only [performBootstrap_append, bind_eq_ok, proven_append]
        rw [lastHeader_append, keyInForce_append]
        constructor
        · constructor
          · intro done
            rcases done with ⟨b', _, q, first, last⟩
            exact ⟨taken.mp ⟨q, first⟩, (more q first).1.mp ⟨b', last⟩⟩
          · intro proven
            rcases taken.mpr proven.1 with ⟨q, first⟩
            rcases (more q first).1.mpr proven.2 with ⟨b', last⟩
            exact ⟨b', (), q, first, last⟩
        · intro b' done
          rcases done with ⟨_, q, first, last⟩
          exact (more q first).2 b' last

/-- A node that starts from the genesis gets through the chain that a running node has taken if
and only if every block has the digest of its group signature and the key of the genesis has
signed every block with a new key. It then has the same chain and the same key, and still the key
of the genesis for the previous one. -/
theorem bootstrap_follows_iff {g : GenesisData} {c : Chain S R} {now depth : Nat}
    {arrivals : List (Nat × Block)} (built : Chain.init g = .ok c) (roots : g.Roots S op.genesis)
    (signs : op.Signs) (ticks : 0 < blockTime)
    (apart : ∀ group, c.getCurrentDkgGroup op.genesis = .ok group →
      (findMeInDkgGroup group op.addresses).1 = false)
    (run : Run op ⟨c, []⟩ (Attends op) blocks n) (same : op'.genesis = op.genesis)
    (started : Node.start op' now ⟨c, []⟩ = .ok b) (brought : arrivals.map Prod.snd = blocks)
    (due : ∀ arrival ∈ arrivals, arrival.2.header.timestamp ≤ arrival.1) :
    ∃ head key, c.headHeader op.genesis = .ok head ∧ c.getCurrentGroupKey op.genesis = .ok key ∧
      ((∃ b', performBootstrap op' (depth + 1) arrivals b = .ok () b') ↔
        Proven key head blocks) ∧
      ∀ b', performBootstrap op' (depth + 1) arrivals b = .ok () b' →
        n.service.chain.Reads b'.service.chain ∧ b'.consensus.previousGroupKey = key ∧
          b'.consensus.groupKey = keyInForce key blocks ∧
            (n.awaits = false → n.consensus.groupKey = keyInForce key blocks ∧
              n.consensus.previousGroupKey = (keysInForce key blocks).1) := by
  rcases run.stands built roots signs ticks apart with
    ⟨head, key, found, known, steady, -, stands, -⟩
  have trails := Trails.start started same found known
  rcases run.trails built roots signs ticks apart found known same trails arrivals brought due with
    ⟨taken, later⟩
  refine ⟨head, key, found, known, taken, ?_⟩
  intro b' done
  have trails' := later b' done
  refine ⟨trails'.reads, trails'.previous, trails'.current, ?_⟩
  intro quiet
  exact ⟨(steady.down quiet).2.2, stands.previous quiet⟩

end Latecomer

end Node

namespace Sample.Watched

open Sample Sample.Recovered Node

theorem attends_quiet {n : Node AddressRanges (PrefixTable Address)} :
    Node.Attends op n .finishBootstrap where
  real := real_received _ (Or.inr rfl)
  lets block brought := by cases brought
  apart group _ := rfl
  live now depth block same := by cases same
  unsigned now wait depth same := by cases same
  accepted now depth block same := by cases same
  random now depth block p same := by cases same
  renewal now depth block p same := by cases same

theorem Sits.attends1 {n : Node AddressRanges (PrefixTable Address)} (sits : Sits n first)
    (boot : n.fromBootstrap = true) : Node.Attends op n (.block 10 1 block1) where
  real := real_received _ (Or.inl (Option.some_ne_none _))
  lets := (sits.keeps1 boot).lets
  apart group _ := rfl
  live now depth block same := by cases same
  unsigned now wait depth same := by cases same
  accepted := (sits.keeps1 boot).accepted
  random now depth block p _ _ := Or.inl boot
  renewal now depth block p same _ renewed := by
    cases same
    exact absurd renewed (by decide)

/-- The first block, for a node that starts once it is there. -/
theorem bootstrap_follows_one : ∃ (c : Chain AddressRanges (PrefixTable Address))
    (n b b' : Node AddressRanges (PrefixTable Address)), Chain.init genesis = .ok c ∧
      Node.Run op ⟨c, []⟩ (Node.Attends op) [block1] n ∧ Node.start op 20 ⟨c, []⟩ = .ok b ∧
      Node.performBootstrap op 1 [(20, block1)] b = .ok () b' ∧
      n.service.chain.Reads b'.service.chain := by
  rcases start_watches with ⟨c, built, watches, roots, head, key, dkgGroup⟩
  have signer : selectSigner (encodeHex first.randomNumber) first.number =
    .ok ⟨.v4, 0, by decide⟩ := by decide +kernel
  have starts (now : Nat) : Node.start op now ⟨c, []⟩ = .ok
      (Node.fresh ⟨c, []⟩ now first [0x31] [owner 1] group ⟨.v4, 0, by decide⟩) :=
    Node.start_fresh rfl rfl head key dkgGroup signer groupMembers_group
  have begun : Node.handle op .finishBootstrap
      (Node.fresh ⟨c, []⟩ 10 first [0x31] [owner 1] group ⟨.v4, 0, by decide⟩) = .ok () _ :=
    Node.asks_bind_eq_ok.mpr ⟨first, head, Node.asks_bind_eq_ok.mpr ⟨[0x31], key, rfl⟩⟩
  have run : Node.Run op ⟨c, []⟩ (Node.Attends op) [] _ := Node.Run.start (starts 10)
  have run := run.step .finishBootstrap rfl attends_quiet begun
  have sits : Sits { Node.fresh ⟨c, []⟩ 10 first [0x31] [owner 1] group ⟨.v4, 0, by decide⟩ with
      timestamp := first.timestamp
      lastRandomNo := encodeHex first.randomNumber
      fromBootstrap := true
      phase := .blocks } first :=
    ⟨watches, rfl, rfl, rfl, rfl, rfl, rfl, rfl, rfl, List.mem_cons_self⟩
  rcases sits.receives1 rfl with ⟨-, n, adopted, taken, -⟩
  have run := run.step (.block 10 1 block1) rfl (sits.attends1 rfl) adopted
  rw [taken] at run
  have signs : op.Signs := fun key member => by cases member
  have due : ∀ arrival ∈ [(20, block1)], arrival.2.header.timestamp ≤ arrival.1 := by
    intro arrival member
    rw [List.mem_singleton.mp member]
    exact (by decide : 2 ≤ 20)
  rcases @Node.bootstrap_follows_iff AddressRanges (PrefixTable Address) _ _ _ _ _ _ _ _ _ _ _ _
    op op n _ _ genesis c 20 0 [(20, block1)] built roots signs (by decide) (fun _ _ => rfl) run
    rfl (starts 20) rfl due with ⟨last, key', found, -, follows, later⟩
  have proven : Node.Proven key' last [block1] := by
    refine ⟨⟨rfl, ?_⟩, trivial⟩
    intro renewed
    exact absurd renewed (by decide)
  rcases follows.mpr proven with ⟨b', done⟩
  exact ⟨c, n, _, b', built, run, starts 20, done, (later b' done).1⟩

end Sample.Watched

end IPchain
