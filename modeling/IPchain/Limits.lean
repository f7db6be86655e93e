import IPchain.Factory
import IPchain.Making

/-! The limit on the size of a block that is made, which is checked against the size of an object
that holds no transactions. -/

namespace IPchain

open Lib

/-- The bytes of a list whose items come to `n` bytes. -/
def listSize (n : Nat) : Nat := (lengthPrefix 0xc0 n).length + n

def Transaction.size (tx : Transaction) : Nat := tx.serialize.encode.length

def Block.size (b : Block) : Nat := b.serialize.encode.length

def Block.encode (b : Block) : Except PyExc Bytes := do
  b.header.checkLengths
  return b.serialize.encode

theorem Block.encode_eq_ok {b : Block} {data : Bytes} :
    b.encode = .ok data ↔ b.header.Fits ∧ data = b.serialize.encode := by
  rw [encode, except_bind_eq_ok]
  constructor
  · rintro ⟨_, checked, done⟩
    cases done
    exact ⟨BlockHeader.checkLengths_eq_ok.mp checked, rfl⟩
  · rintro ⟨fits, rfl⟩
    exact ⟨_, BlockHeader.checkLengths_eq_ok.mpr fits, rfl⟩

theorem encodeList_size (items : List Rlp) :
    (Rlp.encodeList items).length = (items.map fun item => item.encode.length).sum := by
  induction items with
  | nil => rfl
  | cons item items ih =>
      rw [Rlp.encodeList, List.length_append, ih, List.map_cons, List.sum_cons]

theorem list_size (items : List Rlp) :
    (Rlp.list items).encode.length = listSize (items.map fun item => item.encode.length).sum := by
  rw [Rlp.encode, List.length_append, encodeList_size, listSize]

theorem bytes_size {b : Bytes} (long : b.length ≠ 1) :
    (Rlp.bytes b).encode.length = (lengthPrefix 0x80 b.length).length + b.length := by
  rcases Rlp.encode_bytes b with ⟨c, rfl, -, -⟩ | ⟨-, same⟩
  · exact absurd rfl long
  · rw [same, List.length_append]

/-- The size of an unsigned block with transactions of `n` bytes. -/
def sizeWith (header : BlockHeader) (n : Nat) : Nat :=
  listSize (header.serialize.encode.length + listSize n + 3)

theorem Block.size_eq {b : Block} (v : b.v = 0) (r : b.r = 0) (s : b.s = 0) :
    b.size = sizeWith b.header (b.transactions.map Transaction.size).sum := by
  have zero : (Rlp.int 0).encode.length = 1 := by decide
  rw [Block.size, Block.serialize, list_size, v, r, s, Block.unsignedItems]
  simp only [List.cons_append, List.nil_append, List.map_cons, List.map_nil, List.sum_cons,
    List.sum_nil, zero, list_size, List.map_map]
  rfl

theorem root_size {b : Bytes} (length : b.length = 32) : (Rlp.bytes b).encode.length = 33 := by
  rw [bytes_size (by omega), length]
  rfl

theorem header_size {h : BlockHeader} {txRoot stateRoot : Bytes} (txRoots : txRoot.length = 32)
    (stateRoots : stateRoot.length = 32) (txRoots' : h.txRoot.length = 32)
    (stateRoots' : h.stateRoot.length = 32) :
    { h with txRoot := txRoot, stateRoot := stateRoot }.serialize.encode.length =
      h.serialize.encode.length := by
  rw [BlockHeader.serialize, BlockHeader.serialize, list_size, list_size]
  simp only [List.map_cons, root_size txRoots, root_size stateRoots, root_size txRoots',
    root_size stateRoots']

namespace Service

section Loop

variable {S : Type} [IPSet S] [Platform]

/-- The loop of `create_block`. `getsizeof` is `sys.getsizeof`. -/
def select (getsizeof : Block → Nat) (number : Nat) :
    List Transaction → Block → State S → Block × State S
  | [], block, s => (block, s)
  | tx :: rest, block, s =>
      if getsizeof block < 1048576 then
        if number % 2 = 0 ∧ tx.afi = 1 ∨ number % 2 ≠ 0 ∧ tx.afi = 2 then
          match applyTransaction tx ∅ s with
          | .ok _ s =>
              select getsizeof number rest
                { block with transactions := block.transactions ++ [tx] } s
          | .error _ s => select getsizeof number rest block s
        else select getsizeof number rest block s
      else select getsizeof number rest block s

/-- What the transactions of a pool come to that are of the family of a block and apply, one after
the other. -/
def applicableSize (number : Nat) : List Transaction → State S → Nat
  | [], _ => 0
  | tx :: rest, s =>
      if number % 2 = 0 ∧ tx.afi = 1 ∨ number % 2 ≠ 0 ∧ tx.afi = 2 then
        match applyTransaction tx ∅ s with
        | .ok _ s => tx.size + applicableSize number rest s
        | .error _ s => applicableSize number rest s
      else applicableSize number rest s

theorem select_eq {getsizeof : Block → Nat} (small : ∀ b, getsizeof b < 1048576) (number : Nat)
    (pool : List Transaction) (block : Block) (s : State S) :
    (select getsizeof number pool block s).1 =
      { block with transactions := block.transactions ++ (collect number pool s).1 } := by
  induction pool generalizing block s with
  | nil => simp [select, collect]
  | cons tx pool ih =>
      rw [select, if_pos (small block), collect]
      split
      · cases applyTransaction tx ∅ s with
        | ok r t =>
            simp only
            rw [ih]
            simp
        | error e t => exact ih block t
      · exact ih block s

theorem collect_size (number : Nat) (pool : List Transaction) (s : State S) :
    ((collect number pool s).1.map Transaction.size).sum = applicableSize number pool s := by
  induction pool generalizing s with
  | nil => rfl
  | cons tx pool ih =>
      rw [collect, applicableSize]
      split
      · cases applyTransaction tx ∅ s with
        | ok r t =>
            simp only [List.map_cons, List.sum_cons]
            rw [ih]
        | error e t => exact ih t
      · exact ih s

theorem applicableSize_congr (number : Nat) (pool : List Transaction) {s t : State S}
    (same : s.account = t.account) : applicableSize number pool s = applicableSize number pool t := by
  induction pool generalizing s t with
  | nil => rfl
  | cons tx pool ih =>
      have simulates := simulates_applyTransaction (S := S) tx ∅
      rw [applicableSize, applicableSize]
      split
      · cases run : applyTransaction tx ∅ s with
        | ok r s' =>
            have ledger := simulates.ok run
            rw [same] at ledger
            obtain ⟨t', run', account⟩ := simulates.exists_ok ledger
            simp only [run']
            rw [ih account.symm]
        | error e s' =>
            have ledger := simulates.error run
            rw [same] at ledger
            obtain ⟨t', run', account⟩ := simulates.exists_error ledger
            simp only [run']
            exact ih account.symm
      · exact ih same

theorem collect_all {number : Nat} {pool : List Transaction}
    (family : ∀ tx ∈ pool, number % 2 = 0 ∧ tx.afi = 1 ∨ number % 2 ≠ 0 ∧ tx.afi = 2)
    (accepted : ∀ tx ∈ pool, tx.Accepted) {s : State S} (sound : s.account.Sound) {B : Book}
    (turns : s.account.book.InTurn pool B) : (collect number pool s).1 = pool := by
  induction pool generalizing s with
  | nil => rfl
  | cons tx pool ih =>
      obtain ⟨first, others⟩ := List.forall_mem_cons.mp accepted
      obtain ⟨here, later⟩ := List.forall_mem_cons.mp family
      rcases turns with _ | ⟨accepts, allows, rest⟩
      obtain ⟨c, M, applied⟩ := (admitted_iff sound first ∅).mpr ⟨_, _, accepts, allows⟩
      obtain ⟨a, V, accepts', -, book, soundM⟩ := applyTransaction_book sound first applied
      obtain ⟨rfl, rfl⟩ := accepts'.unique accepts
      obtain ⟨t, run, account⟩ := (simulates_applyTransaction (S := S) tx ∅).exists_ok applied
      rw [← book, ← account] at rest
      rw [← account] at soundM
      rw [collect, if_pos here, run]
      simp only
      rw [ih later others soundM rest]

end Loop

section Create

variable {S R : Type} [IPSet S] [Platform] [Radix R Address] [TrieRoot] [Poststate] [StateRoot S]
  [TrieKeys S] [Config]

/-- `create_block` with the check of the size. -/
def createBlockSized (getsizeof : Block → Nat) (now depth : Nat) (coinbase : Item)
    (randomNo : Bytes) (groupKey : Option Bytes) (groupSig : Bytes) (count : Nat) :
    EStateM PyExc (Service S R) Block := do
  onChain (Chain.processTimeQueue now depth none)
  fun svc =>
    (do
      let number := svc.chain.state.blockNumber + 1
      let coinbase ← lift (normalizeAddress coinbase)
      let groupKey ← lift (headerKey number groupKey)
      let randomNumber ← lift (parseAsBin randomNo)
      let block := draft svc.chain now coinbase randomNumber groupKey groupSig count
      let snapshot ← onState fun s => .ok s.toSnapshot.1 s.toSnapshot.2
      let block := (select getsizeof number svc.transactions block (State.fromSnapshot snapshot)).1
      onState fun s =>
        match createTries block s.toSnapshot.2 with
        | .ok block => .ok block s.toSnapshot.2
        | .error e => .error e s.toSnapshot.2) svc

theorem createBlockSized_eq {getsizeof : Block → Nat} (small : ∀ b, getsizeof b < 1048576)
    (now depth : Nat) (coinbase : Item) (randomNo : Bytes) (groupKey : Option Bytes)
    (groupSig : Bytes) (count : Nat) :
    (createBlockSized getsizeof now depth coinbase randomNo groupKey groupSig count :
      EStateM PyExc (Service S R) Block) =
        createBlock now depth coinbase randomNo groupKey groupSig count := by
  simp only [createBlockSized, select_eq small, draft, List.nil_append]
  rfl

/-- At most the limit, or at most one transaction above it. -/
def Limited (pool : List Transaction) (n : Nat) : Prop :=
  n ≤ 1048576 ∨ ∃ tx ∈ pool, n ≤ 1048576 + tx.size

variable {svc svc' : Service S R} {now depth : Nat} {coinbase : Item} {randomNo : Bytes}
  {groupKey : Option Bytes} {groupSig : Bytes} {count : Nat} {block : Block}

theorem size_of_made {a : Address} {key randomNumber : Bytes}
    (normalized : normalizeAddress coinbase = .ok a)
    (grouped : headerKey (svc.chain.state.blockNumber + 1) groupKey = .ok key)
    (parsed : parseAsBin randomNo = .ok randomNumber)
    (roots : ∀ rows, (TrieRoot.rootHash rows).length = 32)
    (roots' : ∀ accounts : Accounts S, (StateRoot.stateRoot accounts).length = 32)
    (made : createBlock now depth coinbase randomNo groupKey groupSig count svc = .ok block svc') :
    block.size = sizeWith (draft svc.chain now a randomNumber key groupSig count).header
      (applicableSize (svc.chain.state.blockNumber + 1) svc.transactions svc.chain.state) := by
  obtain ⟨a', key', randomNumber', normalized', grouped', parsed', tries, -⟩ :=
    createBlock_eq_ok.mp made
  rw [normalized, Except.ok.injEq] at normalized'
  rw [grouped, Except.ok.injEq] at grouped'
  rw [parsed, Except.ok.injEq] at parsed'
  subst normalized' grouped' parsed'
  have same : (State.fromSnapshot svc.chain.state.toSnapshot.1).account =
      svc.chain.state.account := State.account_copied _
  have blank : (blankRoot : Bytes).length = 32 := Platform.sha3_length _
  obtain ⟨temp, -, rest⟩ := except_bind_eq_ok.mp tries
  split at rest
  · cases rest
  · rename_i cached final applied
    cases rest
    rw [Block.size_eq rfl rfl rfl, sizeWith, sizeWith, ← applicableSize_congr _ _ same,
      ← collect_size]
    have txRoot : (mkTransactionSha
        (svc.filled now a randomNumber key groupSig count).transactions).length = 32 := roots _
    have header := header_size (h := (draft svc.chain now a randomNumber key groupSig count).header)
      txRoot (roots' final.trie) blank blank
    exact congrArg (fun n => listSize (n + listSize _ + 3)) header

/-- A block that is made is within the limit exactly when the transactions that apply are. -/
theorem limited_iff {getsizeof : Block → Nat} {instanceSize : Nat}
    (constant : ∀ b, getsizeof b = instanceSize) (small : instanceSize < 1048576)
    {a : Address} {key randomNumber : Bytes}
    (normalized : normalizeAddress coinbase = .ok a)
    (grouped : headerKey (svc.chain.state.blockNumber + 1) groupKey = .ok key)
    (parsed : parseAsBin randomNo = .ok randomNumber)
    (roots : ∀ rows, (TrieRoot.rootHash rows).length = 32)
    (roots' : ∀ accounts : Accounts S, (StateRoot.stateRoot accounts).length = 32)
    (made : createBlockSized getsizeof now depth coinbase randomNo groupKey groupSig count svc =
      .ok block svc')
    {data : Bytes} (encoded : block.encode = .ok data) :
    Limited svc.transactions data.length ↔
      Limited svc.transactions (sizeWith (draft svc.chain now a randomNumber key groupSig count).header
        (applicableSize (svc.chain.state.blockNumber + 1) svc.transactions svc.chain.state)) := by
  rw [createBlockSized_eq fun b => by rw [constant]; exact small] at made
  have size : data.length = block.size := congrArg List.length (Block.encode_eq_ok.mp encoded).2
  rw [size, size_of_made normalized grouped parsed roots roots' made]

end Create

end Service

namespace Sample.Recovered

open Sample

def entry : List Bytes := [[1], [10, 0, 0, 1], carol.bytes]

def entries (k : Nat) : List Bytes := (List.replicate k entry).flatten

def crowd (k s : Nat) : Transaction :=
  ⟨0, 2, none, 2, valueOf (net6 0 48), .list (entries (k + 1)), 0, 27, 1, s, none⟩

theorem entry_read : mapServerEntry true (.bytes [1]) (.bytes [10, 0, 0, 1]) (.bytes carol.bytes) =
    .ok entry := by
  decide

theorem entries_succ (k : Nat) :
    entries (k + 1) = [1] :: [10, 0, 0, 1] :: carol.bytes :: entries k := rfl

theorem entries_read (k : Nat) :
    mapServerEntries true ((entries k).map .bytes) = .ok (entries k) := by
  induction k with
  | zero => rfl
  | succ k ih =>
      rw [entries_succ]
      simp only [List.map_cons, mapServerEntries, entry_read, ih]
      rfl

theorem entries_length (k : Nat) : (entries k).length = 3 * k := by
  rw [entries, List.length_flatten, List.map_replicate, List.sum_replicate]
  exact Nat.mul_comm k 3

theorem crowd_metadata (k : Nat) :
    checkMetadata 2 (.list ((entries (k + 1)).map .bytes)) = .ok (.list (entries (k + 1))) := by
  have read := entries_read (k + 1)
  have length : ((entries (k + 1)).map Item.bytes).length % 3 = 0 := by
    rw [List.length_map, entries_length]
    omega
  rw [entries_succ, List.map_cons] at read length ⊢
  simp only [checkMetadata, metadataList, if_pos length, read]
  rfl

theorem crowd_accepted (k s : Nat) : (crowd k s).Accepted := by
  refine ⟨0, 2, .bytes [], 2, .bytes (valueOf (net6 0 48)), .list ((entries (k + 1)).map .bytes), 0,
    27, 1, s, ?_⟩
  have value : checkValue 2 (.bytes (valueOf (net6 0 48))) = .ok (net6 0 48) := by decide
  refine except_bind_eq_ok.mpr ⟨_, crowd_metadata k, except_bind_eq_ok.mpr ⟨none, rfl, ?_⟩⟩
  rw [if_neg (by decide)]
  exact except_bind_eq_ok.mpr ⟨_, value, rfl⟩

theorem crowd_signed (k s : Nat) (known : s = 1 ∨ s = 2) : (crowd k s).sender = .ok (owner s) := by
  have sighash : (crowd k s).sighash =
      .ok (some (Platform.sha3 (Rlp.list (crowd k s).unsignedItems).encode)) :=
    if_pos (Or.inl rfl)
  have unsigned : ¬ ((crowd k s).r = 0 ∧ (crowd k s).s = 0) := fun both => by cases both.1
  have run : (crowd k s).sender =
      recoverSigner .invalidTransaction (crowd k s).sighash 27 1 s := by
    change (if (crowd k s).r = 0 ∧ (crowd k s).s = 0 then (.ok nullAddress : Except PyExc Address)
      else recoverSigner .invalidTransaction (crowd k s).sighash 27 1 s) = _
    exact if_neg unsigned
  rw [run, sighash]
  exact recoverSigner_owner _ _ known

theorem crowd_accepts {B : Book} {k s : Nat} (known : s = 1 ∨ s = 2) (nonce : B.nonce (owner s) = 0) :
    B.Accepts (crowd k s) (owner s) (net6 0 48) where
  signed := crowd_signed k s known
  known := by
    rcases known with rfl | rfl <;> decide
  nonce := nonce
  category := by
    change 2 ≤ 3
    omega
  network := by
    change networkOfPacked (familyOf 2) (valueOf (net6 0 48)) = _
    decide
  owned moves := by
    rcases moves with moves | moves <;> cases moves

theorem crowd_allows (B : Book) (k s : Nat) : B.Allows (crowd k s) (owner s) (net6 0 48) where
  moves moves := by
    rcases moves with moves | moves <;> cases moves
  locates three := by cases three

theorem crowd_turns {B : Book} (k : Nat) (nonces : ∀ s, B.nonce (owner s) = 0) :
    ∃ B', B.InTurn [crowd k 1, crowd k 2] B' := by
  have apart : owner 2 ≠ owner 1 := by decide
  refine ⟨_, .cons (crowd_accepts (Or.inl rfl) (nonces 1)) (crowd_allows _ k 1)
    (.cons (crowd_accepts (Or.inr rfl) ?_) (crowd_allows _ k 2) (.nil _))⟩
  exact (Function.update_of_ne apart (B.nonce (owner 1) + 1) B.nonce).trans (nonces 2)

theorem fresh_of_passes (passes : Passes (stateFromGenesisDeclaration genesis)
      (fun g : State AddressRanges × Cached =>
        (g.1.getNonce (owner 1)).1 = 0 && (g.1.getNonce (owner 2)).1 = 0) = true) :
    ∃ c : Chain AddressRanges (PrefixTable Address), Chain.init genesis = .ok c ∧
      (∀ s, c.state.account.book.nonce (owner s) = 0) ∧ c.state.blockNumber = 0 ∧
        c.headHash.length = 32 := by
  obtain ⟨⟨t, rows⟩, built, passed⟩ := passes_iff.mp passes
  simp only [Bool.and_eq_true, decide_eq_true_eq, State.getNonce_fst] at passed
  obtain ⟨headers, number⟩ := genesis_headers built
  obtain ⟨c, started, rfl, -⟩ := Chain.init_ok (R := PrefixTable Address) built
  have linked : c.headHash.length = 32 :=
    headHash_length (Service.ready_init started) headers
  refine ⟨c, started, ?_, number, linked⟩
  intro s
  by_cases first : s = 1
  · rw [first]
    exact passed.1
  · have same : owner s = owner 2 := by
      rw [owner, owner, if_neg first]
      rfl
    rw [same]
    exact passed.2

theorem crowd_size (k s : Nat) : 27 * k < (crowd k s).size := by
  have metadata (k : Nat) : 27 * k ≤ (Rlp.encodeList ((entries k).map .bytes)).length := by
    induction k with
    | zero => exact Nat.zero_le _
    | succ k ih =>
        rw [entries_succ, List.map_cons, List.map_cons, List.map_cons, Rlp.encodeList, Rlp.encodeList,
          Rlp.encodeList, List.length_append, List.length_append, List.length_append]
        have first : (Rlp.bytes [1]).encode.length = 1 := by decide
        have second : (Rlp.bytes [10, 0, 0, 1]).encode.length = 5 := by decide
        have third : (Rlp.bytes carol.bytes).encode.length = 21 := by decide
        omega
  have inner := (metadata (k + 1)).trans (Rlp.length_list ((entries (k + 1)).map .bytes))
  have read : (crowd k s).metadata.rlp = .list ((entries (k + 1)).map .bytes) := rfl
  rw [Transaction.size, Transaction.serialize, list_size, listSize, Transaction.unsignedItems, read]
  simp only [List.cons_append, List.nil_append, List.map_cons, List.sum_cons]
  omega

theorem crowd_pooled (k : Nat) : ∃ svc : Service AddressRanges (PrefixTable Address),
    svc.Reachable genesis ∧ svc.transactions = [crowd k 1, crowd k 2] ∧
      (∀ s, svc.chain.state.account.book.nonce (owner s) = 0) ∧ svc.chain.state.blockNumber = 0 ∧
        svc.chain.headHash.length = 32 := by
  obtain ⟨c, started, nonces, number, linked⟩ := fresh_of_passes (by decide)
  have start : Service.Reachable genesis (⟨c, []⟩ : Service AddressRanges (PrefixTable Address)) :=
    .start started
  obtain ⟨s, alike, added⟩ := Service.addPendingTransaction_valid ⟨c, []⟩
    (crowd_accepts (k := k) (Or.inl rfl) (nonces 1))
  have nonces' (i : Nat) : s.account.book.nonce (owner i) = 0 := by
    rw [alike.account]
    exact nonces i
  obtain ⟨t, alike', added'⟩ := Service.addPendingTransaction_valid
    ⟨{ c with state := s }, [crowd k 1]⟩ (crowd_accepts (k := k) (Or.inr rfl) (nonces' 2))
  refine ⟨_, (start.pending (crowd_accepted k 1) rfl added).pending (crowd_accepted k 2) rfl added',
    rfl, fun i => ?_, ?_, linked⟩
  · change t.account.book.nonce (owner i) = 0
    rw [alike'.account]
    exact nonces' i
  · exact ((congrArg AuxVars.blockNumber alike'.auxvars).trans
      (congrArg AuxVars.blockNumber alike.auxvars)).trans number

theorem carol_normalized : normalizeAddress (.bytes carol.bytes) = .ok carol := rfl

theorem first_headerKey {number : Nat} (first : number = 0) :
    Service.headerKey (number + 1) none = .ok [0x30, 0x78, 0x30, 0x30] := by
  rw [first]
  decide

theorem crowd_applicable {k : Nat} {svc : Service AddressRanges (PrefixTable Address)}
    (reachable : svc.Reachable genesis) (pool : svc.transactions = [crowd k 1, crowd k 2])
    (nonces : ∀ s, svc.chain.state.account.book.nonce (owner s) = 0)
    (number : svc.chain.state.blockNumber = 0) :
    Service.applicableSize (svc.chain.state.blockNumber + 1) svc.transactions svc.chain.state =
      (crowd k 1).size + (crowd k 2).size := by
  have ready := reachable.ready
  have family : ∀ tx ∈ svc.transactions, (svc.chain.state.blockNumber + 1) % 2 = 0 ∧ tx.afi = 1 ∨
      (svc.chain.state.blockNumber + 1) % 2 ≠ 0 ∧ tx.afi = 2 := by
    intro tx member
    rw [pool] at member
    rw [number]
    rcases List.mem_pair.mp member with rfl | rfl
    · exact Or.inr ⟨by decide, rfl⟩
    · exact Or.inr ⟨by decide, rfl⟩
  obtain ⟨B, turns⟩ := crowd_turns k nonces
  rw [← pool] at turns
  have taken := Service.collect_all family ready.stocked.accepted ready.sane.sound turns
  rw [← Service.collect_size, taken, pool]
  rfl

theorem crowd_made {svc : Service AddressRanges (PrefixTable Address)}
    (reachable : svc.Reachable genesis) (number : svc.chain.state.blockNumber = 0)
    (linked : svc.chain.headHash.length = 32) :
    ∃ block svc' data,
      Service.createBlockSized (fun _ => 64) 2 1 (.bytes carol.bytes) randomZero none [] 0 svc =
        .ok block svc' ∧ block.encode = .ok data := by
  have ready := reachable.ready
  obtain ⟨block, made⟩ := ready.makes carol_normalized (first_headerKey number) randomZero_parsed
    2 1 [] 0
  have fits := ready.made_fits made linked randomZero_parsed List.length_replicate rootHash_length
    accountsRoot_length
  refine ⟨block, svc.scanned, _, ?_, Block.encode_eq_ok.mpr ⟨fits, rfl⟩⟩
  rw [Service.createBlockSized_eq fun _ => by decide]
  exact made

theorem draft_size {c : Chain AddressRanges (PrefixTable Address)} (number : c.state.blockNumber = 0)
    (linked : c.headHash.length = 32) :
    (Service.draft c 2 carol (List.replicate 32 0)
      [0x30, 0x78, 0x30, 0x30] [] 0).header.serialize.encode.length = 165 := by
  have blank : (Service.blankRoot : Bytes).length = 32 := Platform.sha3_length _
  rw [BlockHeader.serialize, list_size]
  simp only [Service.draft, List.map_cons, List.map_nil, root_size blank, root_size linked, number]
  decide

/-- A pool of two valid transactions makes a block of twice the limit. -/
theorem crowd_unlimited : ∃ (svc svc' : Service AddressRanges (PrefixTable Address)) (block : Block)
    (data : Bytes), svc.Reachable genesis ∧
      (∀ tx ∈ svc.transactions, ∃ a V, svc.chain.state.account.book.Accepts tx a V) ∧
      Service.createBlockSized (fun _ => 64) 2 1 (.bytes carol.bytes) randomZero none [] 0 svc =
        .ok block svc' ∧ block.encode = .ok data ∧
        ¬ Service.Limited svc.transactions data.length := by
  obtain ⟨svc, reachable, pool, nonces, number, linked⟩ := crowd_pooled 40000
  obtain ⟨block, svc', data, made, encoded⟩ := crowd_made reachable number linked
  refine ⟨svc, svc', block, data, reachable, reachable.ready.stocked.valid, made, encoded, ?_⟩
  have unsized := made
  rw [Service.createBlockSized_eq fun _ => by decide] at unsized
  have size := Service.size_of_made carol_normalized (first_headerKey number) randomZero_parsed
    rootHash_length accountsRoot_length unsized
  rw [crowd_applicable reachable pool nonces number, sizeWith, listSize, listSize] at size
  have first := crowd_size 40000 1
  have second := crowd_size 40000 2
  rw [(Block.encode_eq_ok.mp encoded).2, pool]
  change ¬ Service.Limited _ block.size
  rintro (small | ⟨tx, member, small⟩)
  · omega
  · rcases List.mem_pair.mp member with rfl | rfl
    · omega
    · omega

/-- With one map server each, the transactions stay below the limit. -/
theorem crowd_limited : ∃ (svc svc' : Service AddressRanges (PrefixTable Address)) (block : Block)
    (data : Bytes), svc.transactions = [crowd 0 1, crowd 0 2] ∧
      Service.createBlockSized (fun _ => 64) 2 1 (.bytes carol.bytes) randomZero none [] 0 svc =
        .ok block svc' ∧ block.encode = .ok data ∧
        Service.Limited svc.transactions data.length := by
  obtain ⟨svc, reachable, pool, nonces, number, linked⟩ := crowd_pooled 0
  obtain ⟨block, svc', data, made, encoded⟩ := crowd_made reachable number linked
  have constant : ∀ b : Block, (fun _ : Block => 64) b = 64 := fun _ => rfl
  have limited := Service.limited_iff constant (by decide) carol_normalized
    (first_headerKey number) randomZero_parsed rootHash_length accountsRoot_length made encoded
  refine ⟨svc, svc', block, data, pool, made, encoded, limited.mpr (Or.inl ?_)⟩
  have first : (crowd 0 1).size = 55 := by decide
  have second : (crowd 0 2).size = 55 := by decide
  rw [crowd_applicable reachable pool nonces number, sizeWith, draft_size number linked, first,
    second]
  decide

end Sample.Recovered

end IPchain
