import IPchain.Production

/-! The blocks that a service makes, and what becomes of them when they are added. -/

namespace IPchain

open Lib

namespace Service

section Make

variable {S R : Type} [IPSet S] [Platform] [Radix R Address] [TrieRoot] [Poststate] [StateRoot S]
  [TrieKeys S] [Config] {svc svc' : Service S R} {now depth : Nat} {coinbase : Item}
  {randomNo : Bytes} {groupKey : Option Bytes} {groupSig : Bytes} {count : Nat}

omit [Radix R Address] [TrieRoot] [Poststate] [StateRoot S] [Config] in
theorem alike_scanned (svc : Service S R) : svc.chain.state.Alike svc.scanned.chain.state :=
  (State.alike_toSnapshot _).trans (State.alike_toSnapshot _)

omit [Radix R Address] [TrieRoot] [Poststate] [StateRoot S] [Config] in
theorem Ready.scanned (ready : svc.Ready) : svc.scanned.Ready :=
  ready.idle (alike_scanned svc) svc.chain.timeQueue

theorem Ready.makes (ready : svc.Ready) {a : Address} {key randomNumber : Bytes}
    (normalized : normalizeAddress coinbase = .ok a)
    (grouped : headerKey (svc.chain.state.blockNumber + 1) groupKey = .ok key)
    (parsed : parseAsBin randomNo = .ok randomNumber) (now depth : Nat) (groupSig : Bytes)
    (count : Nat) : ∃ block,
      createBlock now depth coinbase randomNo groupKey groupSig count svc =
        .ok block svc.scanned := by
  have sound := ready.sane.sound
  have worn : Worn svc.chain.state.account.book
      (State.fromSnapshot svc.chain.state.toSnapshot.1).account := by
    rw [State.account_copied]
    exact Worn.of_sound sound
  obtain ⟨B, turns⟩ := collect_turns (svc.chain.state.blockNumber + 1)
    ready.stocked.accepted worn
  have accepted : ∀ tx ∈ (svc.filled now a randomNumber key groupSig count).transactions,
      tx.Accepted := fun tx member =>
    ready.stocked.accepted tx ((collect_sublist _ _ _).subset member)
  rw [(alike_scanned svc).account.symm] at sound turns
  obtain ⟨c, L, run, -⟩ := applyTransactions_of_turns accepted sound ∅ turns
  obtain ⟨u, applied, -⟩ := (simulates_applyTransactions (S := S) _ ∅).exists_ok run
  exact ⟨_, createBlock_eq_ok.mpr ⟨a, key, randomNumber, normalized, grouped, parsed,
    (createTries_eq_ok ready.scanned.sane.quiet).mpr ⟨c, u, applied, rfl⟩, rfl⟩⟩

omit [IPSet S] [Platform] [Radix R Address] [TrieRoot] [Poststate] [StateRoot S] [TrieKeys S] in
theorem headerKey_given {number : Nat} {groupKey : Option Bytes}
    (given : number % Config.dkgRenewalInterval = 0 → ∃ key, groupKey = some key ∧ key ≠ []) :
    ∃ key, headerKey number groupKey = .ok key := by
  unfold headerKey
  split
  · rename_i renewal
    obtain ⟨key, rfl, full⟩ := given renewal
    cases key with
    | nil => exact absurd rfl full
    | cons b rest => exact ⟨_, rfl⟩
  · exact ⟨_, rfl⟩

variable {block signed : Block} {a : Address}

theorem Ready.made (ready : svc.Ready)
    (made : createBlock now depth coinbase randomNo groupKey groupSig count svc = .ok block svc')
    (later : ∀ head ∈ svc.chain.state.prevHeaders.head?, head.timestamp < now)
    (bounded : now < 2 ^ 256) :
    svc' = svc.scanned ∧ block.header.timestamp = now ∧
      Based svc.scanned.chain.state.toAuxVars block ∧
        block.transactions.Sublist svc.transactions ∧
          checkFamilies block.header.number block.transactions = .ok () ∧
            ∃ c u, applyTransactions block.transactions ∅ svc.scanned.chain.state = .ok c u ∧
              block.header.stateRoot = StateRoot.stateRoot u.trie := by
  obtain ⟨a, key, randomNumber, -, -, -, tries, rfl⟩ := createBlock_eq_ok.mp made
  obtain ⟨c, u, applied, rfl⟩ := (createTries_eq_ok ready.scanned.sane.quiet).mp tries
  obtain ⟨header, older, newest, headed⟩ := ready.scanned.sane.headed
  have number := ready.scanned.numbered header older newest
  have same : svc.scanned.chain.state.toAuxVars = svc.chain.state.toAuxVars :=
    (alike_scanned svc).auxvars
  rw [same] at newest number
  have before : header.timestamp < now := later header (by rw [newest]; rfl)
  refine ⟨rfl, rfl, ⟨⟨header, older, ?_, ?_, ?_, before, bounded⟩, rfl⟩, collect_sublist _ _ _,
    collect_families _ _ _, c, u, applied, rfl⟩
  · rw [same]
    exact newest
  · exact headed.symm
  · exact congrArg (· + 1) number

theorem Ready.made_fits (ready : svc.Ready)
    (made : createBlock now depth coinbase randomNo groupKey groupSig count svc = .ok block svc')
    (linked : svc.chain.headHash.length = 32) {randomNumber : Bytes}
    (parsed : parseAsBin randomNo = .ok randomNumber) (length : randomNumber.length = 32)
    (roots : ∀ rows, (TrieRoot.rootHash rows).length = 32)
    (roots' : ∀ accounts : Accounts S, (StateRoot.stateRoot accounts).length = 32) :
    block.header.Fits := by
  obtain ⟨a, key, randomNumber', -, -, parsed', tries, rfl⟩ := createBlock_eq_ok.mp made
  obtain ⟨c, u, applied, rfl⟩ := (createTries_eq_ok ready.scanned.sane.quiet).mp tries
  rw [parsed, Except.ok.injEq] at parsed'
  subst parsed'
  exact ⟨linked, Or.inl (roots' _), Or.inl (roots _), Or.inl a.sized, length⟩

theorem Ready.made_valid (ready : svc.Ready)
    (made : createBlock now depth coinbase randomNo groupKey groupSig count svc = .ok block svc')
    (later : ∀ head ∈ svc.chain.state.prevHeaders.head?, head.timestamp < now)
    (bounded : now < 2 ^ 256) (header : signed.header = block.header)
    (transactions : signed.transactions = block.transactions) (signer : signed.signer = .ok a)
    (known : a ≠ nullAddress) : ∃ v, validateBlock signed svc'.chain.state = .ok true v := by
  obtain ⟨rfl, -, based, sublist, -⟩ := ready.made made later bounded
  have stocked := ready.scanned.stocked.sublist sublist
  rw [← transactions] at stocked
  refine validateBlock_ok_iff.mpr ⟨⟨a, signer, known⟩, ?_, stocked.valid⟩
  rw [Based, header, transactions]
  exact based

/-- The block that was made becomes the head once it is signed, and none of its transactions
stays in the pool. -/
theorem Ready.made_taken (ready : svc.Ready)
    (made : createBlock now depth coinbase randomNo groupKey groupSig count svc = .ok block svc')
    (later : ∀ head ∈ svc.chain.state.prevHeaders.head?, head.timestamp < now)
    (bounded : now < 2 ^ 256) (header : signed.header = block.header)
    (transactions : signed.transactions = block.transactions) (signer : signed.signer = .ok a)
    (known : a ≠ nullAddress) {clock : Nat} (due : now ≤ clock) (depth' : Nat) :
    ∃ svc'', addBlock clock (depth' + 1) signed svc' = .ok () svc'' ∧
      svc''.chain.headHash = block.header.hash ∧
        block.header.stateRoot = StateRoot.stateRoot svc''.chain.state.trie ∧
          ∀ tx ∈ block.transactions, ∀ other ∈ svc''.transactions, other.same tx = false := by
  obtain ⟨rfl, stamped, -, sublist, families, c, u, loop, root⟩ :=
    ready.made made later bounded
  have stocked := ready.scanned.stocked.sublist sublist
  obtain ⟨v, validated⟩ := ready.made_valid made later bounded header transactions signer known
  obtain ⟨-, based, -⟩ := validateBlock_ok_iff.mp ⟨v, validated⟩
  rw [← transactions] at loop families stocked
  rw [← header] at families stamped root
  have applied := (applyBlock_eq_ok (p := svc.scanned.chain.patricia)).mpr
    ⟨based, c, u, loop, rfl, rfl⟩
  obtain ⟨t, added, alike⟩ :=
    ready.scanned.sane.accepts validated applied (stamped.trans_le due) depth'
  obtain ⟨pool, s, alike', chain⟩ := purge_eq signed ⟨svc.scanned.chain.extended signed t _,
    svc.scanned.transactions⟩ (Consonant.of_genuine ready.scanned.stocked.genuine)
  refine ⟨_, addBlock_eq_ok.mpr ⟨families, true, _, added, rfl⟩, ?_, ?_, ?_⟩
  · rw [chain, ← header]
    rfl
  · have trie : s.trie = u.trie := alike'.trie.trans alike.trie
    rw [chain, ← header]
    simp only [trie]
    exact root
  · intro tx member other left
    rw [← transactions] at member
    rw [pool] at left
    obtain ⟨listed, valid⟩ := List.mem_filter.mp left
    simp only [decide_eq_true_eq] at valid
    obtain ⟨b, V, accepts⟩ := valid
    apply Bool.eq_false_iff.mpr
    intro same
    have genuine : other.Genuine :=
      ready.stocked.genuine other ((removeAll_sublist _ _ _).subset listed)
    obtain ⟨b', sent, used⟩ := (applyBlock_serial applied).used tx member
    have sender := Transaction.same_sender same genuine (stocked.genuine tx member)
    rw [Transaction.origin, ← sender, accepts.signed] at sent
    cases sent
    have nonce : (t.account b).nonce = other.nonce := accepts.nonce
    rw [(Transaction.same_fields same).1, alike.account] at nonce
    exact absurd nonce (Nat.ne_of_gt used)

end Make

section Reachable

variable {S R : Type} [IPSet S] [Radix R Address] [Platform] [TrieRoot] [Poststate] [StateRoot S]
  [TrieKeys S] [Config]

/-- The services that a node gets to. It stops when `add_block` raises. -/
inductive Reachable (g : GenesisData) : Service S R → Prop
  | start {c : Chain S R} (built : Chain.init g = .ok c) : Reachable g ⟨c, []⟩
  | pending {svc svc' : Service S R} {tx : Transaction} (reachable : Reachable g svc)
      (accepted : tx.Accepted) (genuine : tx.Genuine)
      (added : addPendingTransaction tx svc = .ok () svc') : Reachable g svc'
  | refused {svc svc' : Service S R} {tx : Transaction} {e : PyExc} (reachable : Reachable g svc)
      (failed : addPendingTransaction tx svc = .error e svc') : Reachable g svc'
  | added {svc svc' : Service S R} {block : Block} {now depth : Nat} (reachable : Reachable g svc)
      (added : addBlock now depth block svc = .ok () svc') : Reachable g svc'
  | made {svc : Service S R} (reachable : Reachable g svc) (now depth : Nat) (coinbase : Item)
      (randomNo : Bytes) (groupKey : Option Bytes) (groupSig : Bytes) (count : Nat) :
      Reachable g (finish (createBlock now depth coinbase randomNo groupKey groupSig count svc))
  | read {svc : Service S R} (reachable : Reachable g svc) (a : Address) :
      Reachable g { svc with
        chain := { svc.chain with state := (svc.chain.state.getAndCacheAccount a).2 } }

omit [TrieRoot] [Poststate] [TrieKeys S] [Config] in
theorem ready_init {g : GenesisData} {c : Chain S R} (built : Chain.init g = .ok c) :
    Ready (⟨c, []⟩ : Service S R) := by
  have sane := Chain.sane_init built
  obtain ⟨s, rows, header, genesis, rfl, rfl⟩ := Chain.init_spec built
  obtain ⟨headers, number⟩ := genesis_headers genesis
  have empty : Stocked s.account.book [] :=
    ⟨List.forall_mem_nil _, List.forall_mem_nil _, List.forall_mem_nil _⟩
  refine ⟨sane, ?_, empty⟩
  intro header older newest
  rw [headers] at newest
  cases newest
  exact number

theorem Reachable.ready {g : GenesisData} {svc : Service S R} (reachable : svc.Reachable g) :
    svc.Ready := by
  induction reachable with
  | start built => exact ready_init built
  | pending reachable accepted genuine added ih => exact ih.pending accepted genuine added
  | refused reachable failed ih => exact ih.refused failed
  | added reachable added ih => exact ih.added added
  | @made svc reachable now depth coinbase randomNo groupKey groupSig count ih =>
      cases run : createBlock now depth coinbase randomNo groupKey groupSig count svc with
      | ok block svc' =>
          obtain ⟨a, key, randomNumber, -, -, -, -, rfl⟩ := createBlock_eq_ok.mp run
          exact ih.scanned
      | error e svc' =>
          obtain ⟨s, alike, rfl⟩ := createBlock_error run
          exact ih.idle alike svc.chain.timeQueue
  | @read svc reachable a ih => exact ih.idle (svc.chain.state.alike_read a) svc.chain.timeQueue

/-- A node accepts the blocks that it makes. -/
theorem made_accepted {g : GenesisData} {svc : Service S R} (reachable : svc.Reachable g)
    {now : Nat} (later : ∀ head ∈ svc.chain.state.prevHeaders.head?, head.timestamp < now)
    (bounded : now < 2 ^ 256) {coinbase : Item} {holder : Address}
    (normalized : normalizeAddress coinbase = .ok holder) {randomNo randomNumber : Bytes}
    (parsed : parseAsBin randomNo = .ok randomNumber) {groupKey : Option Bytes}
    (given : (svc.chain.state.blockNumber + 1) % Config.dkgRenewalInterval = 0 →
      ∃ key, groupKey = some key ∧ key ≠ []) (depth : Nat) (groupSig : Bytes) (count : Nat) :
    ∃ block svc', createBlock now depth coinbase randomNo groupKey groupSig count svc =
        .ok block svc' ∧
      block.header.txRoot = mkTransactionSha block.transactions ∧
      (∃ c s, applyTransactions block.transactions ∅ svc'.chain.state = .ok c s ∧
        block.header.stateRoot = StateRoot.stateRoot s.trie) ∧
      ∀ (signed : Block) (signer : Address), signed.header = block.header →
        signed.transactions = block.transactions → signed.signer = .ok signer →
          signer ≠ nullAddress → ∀ clock depth' : Nat, now ≤ clock →
            ∃ svc'', addBlock clock (depth' + 1) signed svc' = .ok () svc'' ∧
              svc''.chain.headHash = block.header.hash ∧
              block.header.stateRoot = StateRoot.stateRoot svc''.chain.state.trie ∧
              ∀ tx ∈ block.transactions, ∀ other ∈ svc''.transactions,
                other.same tx = false := by
  have ready := reachable.ready
  obtain ⟨key, grouped⟩ := headerKey_given given
  obtain ⟨block, made⟩ := ready.makes normalized grouped parsed now depth groupSig count
  obtain ⟨-, -, based, -, -, c, u, loop, root⟩ := ready.made made later bounded
  refine ⟨block, _, made, based.2, ⟨c, u, loop, root⟩, ?_⟩
  intro signed signer header transactions signs known clock depth' due
  exact ready.made_taken made later bounded header transactions signs known due depth'

end Reachable

end Service

namespace Sample.Recovered

open Sample

scoped instance : Config := ⟨500, by decide⟩

noncomputable scoped instance : TrieKeys AddressRanges where
  keys trie := trie.keys.toList
  mem_keys trie a := by rw [Finset.mem_toList, Finmap.mem_keys]

theorem opened_of_passes (passes : Passes (stateFromGenesisDeclaration genesis) (fun g =>
      owns g.1 (owner 1) (net6 0 48) && (g.1.getNonce (owner 1)).1 = 0) = true) :
    ∃ c : Chain AddressRanges (PrefixTable Address), Chain.init genesis = .ok c ∧
      c.state.account.book.Accepts (give 1 (net6 0 48)) (owner 1) (net6 0 48) ∧
      c.state.blockNumber = 0 ∧
      ∃ header, c.state.prevHeaders = [.block header] ∧ header.timestamp = 1 := by
  obtain ⟨⟨t, rows⟩, built, passed⟩ := passes_iff.mp passes
  simp only [Bool.and_eq_true, decide_eq_true_eq] at passed
  obtain ⟨holds, next⟩ := passed
  obtain ⟨headers, number⟩ := genesis_headers built
  obtain ⟨c, started, rfl, -⟩ := Chain.init_ok (R := PrefixTable Address) built
  refine ⟨c, started, ?_, number, _, headers, rfl⟩
  refine ⟨by decide +kernel, by decide +kernel, ?_, Nat.zero_le 3, by decide +kernel,
    fun _ x inside => ?_⟩
  · rw [State.getNonce_fst] at next
    exact next
  · have held := mem_of_owns holds x inside
    rwa [State.getBalance_fst] at held

theorem pooled_of_passes (passes : Passes (stateFromGenesisDeclaration genesis) (fun g =>
      owns g.1 (owner 1) (net6 0 48) && (g.1.getNonce (owner 1)).1 = 0) = true) :
    ∃ svc : Service AddressRanges (PrefixTable Address), svc.Reachable genesis ∧
      svc.transactions = [give 1 (net6 0 48)] ∧ svc.chain.state.blockNumber = 0 ∧
      ∃ header, svc.chain.state.prevHeaders = [.block header] ∧ header.timestamp = 1 := by
  obtain ⟨c, started, accepts, number, header, headers, timestamp⟩ := opened_of_passes passes
  obtain ⟨s, alike, added⟩ := Service.addPendingTransaction_valid ⟨c, []⟩ accepts
  have start : Service.Reachable genesis (⟨c, []⟩ : Service AddressRanges (PrefixTable Address)) :=
    .start started
  refine ⟨_, start.pending accepted_plain rfl added, rfl, ?_, header, ?_, timestamp⟩
  · exact (congrArg AuxVars.blockNumber alike.auxvars).trans number
  · exact (congrArg AuxVars.prevHeaders alike.auxvars).trans headers

theorem rootHash_length (rows : List (Bytes × Bytes)) : (TrieRoot.rootHash rows).length = 32 :=
  Keccak.keccak256_length _

def randomZero : Bytes := List.replicate 64 0x30

theorem randomZero_parsed : Service.parseAsBin randomZero = .ok (List.replicate 32 0) := by
  decide

theorem headHash_length {svc : Service AddressRanges (PrefixTable Address)} (ready : svc.Ready)
    {header : BlockHeader} (headers : svc.chain.state.prevHeaders = [.block header]) :
    svc.chain.headHash.length = 32 := by
  obtain ⟨newest, older, split, headed⟩ := ready.sane.headed
  rw [headers] at split
  cases split
  rw [← headed]
  exact Platform.sha3_length _

def signedOne (block : Block) : Block :=
  { block with v := 27, r := 1, s := 1, cachedSigner := none }

theorem made_accepted_pooled : ∃ (svc svc' svc'' : Service AddressRanges (PrefixTable Address))
    (block signed : Block), svc.transactions = [give 1 (net6 0 48)] ∧
      Service.createBlock 2 1 (.bytes carol.bytes) randomZero none [] 0 svc = .ok block svc' ∧
      signed.header = block.header ∧ signed.cachedSigner = none ∧ signed.signer = .ok (owner 1) ∧
      Service.addBlock 2 1 signed svc' = .ok () svc'' ∧
      svc''.chain.headHash = block.header.hash := by
  obtain ⟨svc, reachable, pool, number, header, headers, timestamp⟩ :=
    pooled_of_passes (by decide)
  have later : ∀ head ∈ svc.chain.state.prevHeaders.head?, head.timestamp < 2 := by
    rw [headers]
    simp [PrevHeader.timestamp, timestamp]
  have normalized : normalizeAddress (.bytes carol.bytes) = .ok carol := rfl
  have given : (svc.chain.state.blockNumber + 1) % Config.dkgRenewalInterval = 0 →
      ∃ key : Bytes, none = some key ∧ key ≠ [] := by
    rw [number]
    exact fun renewal => absurd renewal (by decide)
  obtain ⟨block, svc', made, -, -, accepts⟩ :=
    Service.made_accepted reachable later (by decide) normalized randomZero_parsed given 1 [] 0
  have fits := reachable.ready.made_fits made (headHash_length reachable.ready headers)
    randomZero_parsed List.length_replicate rootHash_length accountsRoot_length
  have signer : (signedOne block).signer = .ok (owner 1) :=
    signer_of_fits rfl rfl rfl (Or.inl rfl) rfl fits
  obtain ⟨svc'', added, head, -⟩ :=
    accepts (signedOne block) _ rfl rfl signer owner_known 2 0 le_rfl
  exact ⟨svc, svc', svc'', block, signedOne block, pool, made, rfl, rfl, signer, added, head⟩

end Sample.Recovered

end IPchain
