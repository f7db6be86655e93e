import IPchain.Index

/-! Blocks and transactions that are looked up in the database of a chain. -/

namespace IPchain

open Lib Platform

section Reading

variable {S R : Type} [IPSet S] [Platform]

/-- `Block(header)`, as the genesis is built. -/
def genesisBlock (first : BlockHeader) : Block where
  header := first
  transactions := []
  v := 0
  r := 0
  s := 0
  cachedSigner := none

namespace Chain

/-- `first` is the header of the genesis, which the chain keeps as an attribute. -/
def getBlock (first : BlockHeader) (c : Chain S R) (hash : Option Bytes) : Except PyExc Block :=
  match hash.bind fun hash => c.blocks.lookup hash with
  | none => .error ⟨.keyError, ""⟩
  | some none => .ok (genesisBlock first)
  | some (some block) => block.decoded

def getBlockByNumber (first : BlockHeader) (c : Chain S R) (number : Nat) : Except PyExc Block :=
  c.getBlock first (c.getBlockhashByNumber number)

def getTxPosition (c : Chain S R) (hash : Bytes) : Option (Nat × Nat) := c.txIndex.lookup hash

def getTransaction (first : BlockHeader) (c : Chain S R) (hash : Bytes) :
    Except PyExc (Transaction × Block × Nat) :=
  match c.getTxPosition hash with
  | none => .error ⟨.typeError, "'NoneType' object is not iterable"⟩
  | some (number, index) => do
      let block ← c.getBlockByNumber first number
      match block.transactions[index]? with
      | none => .error ⟨.indexError, "list index out of range"⟩
      | some tx => pure (tx, block, index)

end Chain

def Transaction.Genuine (tx : Transaction) : Prop :=
  tx.sender = { tx with cachedSender := none }.sender

theorem CollisionFree.header {D : Set Bytes} (free : CollisionFree D) {h k : BlockHeader}
    (first : h.serialize.encode ∈ D) (second : k.serialize.encode ∈ D) (same : h.hash = k.hash) :
    h = k := by
  have encodings := free.injective first second same
  exact BlockHeader.serialize_inj (Rlp.eq_of_encode (free.short _ first) encodings)

theorem CollisionFree.transaction {D : Set Bytes} (free : CollisionFree D) {t u : Transaction}
    (first : t.serialize.encode ∈ D) (second : u.serialize.encode ∈ D) (acceptedT : t.Accepted)
    (acceptedU : u.Accepted) (same : t.hash = u.hash) :
    { t with cachedSender := none } = { u with cachedSender := none } := by
  have encodings := free.injective first second same
  exact Transaction.serialize_inj acceptedT acceptedU
    (Rlp.eq_of_encode (free.short _ first) encodings)

/-- The hashes tell the headers and the transactions of a chain apart, and each transaction
came from the constructor. -/
structure Identified (D : Set Bytes) (first : BlockHeader) (blocks : List Block) : Prop
    extends CollisionFree D where
  headers : ∀ h ∈ headersOf first blocks, h.serialize.encode ∈ D
  transactions : ∀ tx ∈ transactionsOf blocks, tx.serialize.encode ∈ D
  accepted : ∀ tx ∈ transactionsOf blocks, tx.Accepted
  genuine : ∀ tx ∈ transactionsOf blocks, tx.Genuine

theorem decodeTransactions_eq {txs : List Transaction} {f : Transaction → Transaction}
    (decoded : ∀ tx ∈ txs, tx.decoded = .ok (f tx)) :
    decodeTransactions txs = .ok (txs.map f) := by
  induction txs with
  | nil => rfl
  | cons tx txs ih =>
      obtain ⟨first, others⟩ := List.forall_mem_cons.mp decoded
      rw [decodeTransactions, first, ih others]
      rfl

namespace Chain

section Blocks

variable {first : BlockHeader} {blocks : List Block} {c : Chain S R}

variable {D : Set Bytes} (identified : Identified D first blocks)

include identified

theorem Indexed.record (indexed : c.Indexed first blocks) :
    c.blocks.lookup first.hash = some none ∧
      ∀ block ∈ blocks, c.blocks.lookup block.header.hash = some (some block) := by
  have knownFirst := identified.headers first List.mem_cons_self
  have knownBlock {block : Block} (member : block ∈ blocks) :
      block.header.serialize.encode ∈ D :=
    identified.headers _ (List.mem_cons_of_mem _ (List.mem_map_of_mem member))
  have numbers : (blocks.map fun block => block.header.number).Nodup := by
    rw [indexed.numbers]
    exact List.nodup_range'
  have hashes : ((blocks.map fun block => (block.header.hash, some block)).map Prod.fst).Nodup := by
    rw [List.map_map, List.nodup_map_iff_inj_on numbers.of_map]
    intro one memberOne two memberTwo same
    have header := identified.header (knownBlock memberOne) (knownBlock memberTwo) same
    exact List.inj_on_of_nodup_map numbers memberOne memberTwo (congrArg BlockHeader.number header)
  rw [indexed.stored]
  constructor
  · rw [Dict.lookup_update_of_absent, AList.lookup_insert]
    intro row member same
    obtain ⟨block, listed, rfl⟩ := List.mem_map.mp member
    have header := identified.header knownFirst (knownBlock listed) same
    apply indexed.number_ne_zero listed
    rw [← header, indexed.begins]
  · intro block member
    exact Dict.lookup_update_of_mem _ hashes (List.mem_map_of_mem member)

theorem Indexed.getBlockByNumber_zero (indexed : c.Indexed first blocks) :
    c.getBlockByNumber first 0 = .ok (genesisBlock first) := by
  have record := (indexed.record identified).1
  have hash : c.getBlockhashByNumber 0 = some first.hash := indexed.blockhash 0
  simp only [getBlockByNumber, getBlock, hash, Option.bind_some, record]

theorem Indexed.getBlockByNumber_succ (indexed : c.Indexed first blocks) {m : Nat} {block : Block}
    (found : blocks[m]? = some block) : c.getBlockByNumber first (m + 1) = block.decoded := by
  have record := (indexed.record identified).2 block (List.mem_of_getElem? found)
  have hash : c.getBlockhashByNumber (m + 1) = some block.header.hash := by
    rw [indexed.blockhash, headersOf, List.getElem?_cons_succ, List.getElem?_map, found]
    rfl
  simp only [getBlockByNumber, getBlock, hash, Option.bind_some, record]

end Blocks

section Transactions

variable {first : BlockHeader} {blocks : List Block} {c : Chain S R} {D : Set Bytes}

omit [IPSet S] in
theorem hashes_positions (blocks : List Block) :
    (blocks.flatMap positionsOf).map Prod.fst = (transactionsOf blocks).map Transaction.hash := by
  have block (b : Block) :
      (positionsOf b).map Prod.fst = b.transactions.map Transaction.hash := by
    rw [positionsOf, List.map_map]
    calc
      _ = (b.transactions.zipIdx.map Prod.fst).map Transaction.hash := (List.map_map ..).symm
      _ = b.transactions.map Transaction.hash := by rw [List.zipIdx_map_fst]
  rw [List.map_flatMap, transactionsOf, List.map_flatMap]
  exact List.flatMap_congr fun b _ => block b

variable (identified : Identified D first blocks)

include identified

theorem Spent.hashes (spent : c.Spent blocks) :
    ((transactionsOf blocks).map Transaction.hash).Nodup := by
  rw [List.nodup_map_iff_inj_on spent.distinct.of_map]
  intro t memberT u memberU same
  have fields := identified.transaction (identified.transactions t memberT)
    (identified.transactions u memberU) (identified.accepted t memberT)
    (identified.accepted u memberU) same
  have sender : t.sender = u.sender := by
    rw [identified.genuine t memberT, identified.genuine u memberU, fields]
  have nonce : t.nonce = u.nonce := by
    have plain := congrArg Transaction.nonce fields
    exact plain
  apply List.inj_on_of_nodup_map spent.distinct memberT memberU
  simp only [Transaction.origin, sender, nonce]

theorem position_of (indexed : c.Indexed first blocks) (spent : c.Spent blocks) {m i : Nat}
    {block : Block} (found : blocks[m]? = some block) {tx : Transaction}
    (placed : block.transactions[i]? = some tx) : c.getTxPosition tx.hash = some (m + 1, i) := by
  have distinct : ((blocks.flatMap positionsOf).map Prod.fst).Nodup := by
    rw [hashes_positions]
    exact spent.hashes identified
  have listed : (tx.hash, m + 1, i) ∈ positionsOf block := by
    refine List.mem_map.mpr ⟨(tx, i), List.mk_mem_zipIdx_iff_getElem?.mpr placed, ?_⟩
    rw [indexed.number_at found]
  have member := List.mem_flatMap.mpr ⟨block, List.mem_of_getElem? found, listed⟩
  rw [getTxPosition, indexed.positions]
  exact Dict.lookup_update_of_mem _ distinct member

theorem position_absent (indexed : c.Indexed first blocks) {tx : Transaction}
    (accepted : tx.Accepted) (known : tx.serialize.encode ∈ D)
    (absent : ∀ t ∈ transactionsOf blocks,
      { t with cachedSender := none } ≠ { tx with cachedSender := none }) :
    c.getTxPosition tx.hash = none := by
  rw [getTxPosition, indexed.positions, Dict.lookup_update_of_absent]
  · rfl
  · intro row member same
    have listed := List.mem_map_of_mem (f := Prod.fst) member
    rw [hashes_positions] at listed
    obtain ⟨t, place, hash⟩ := List.mem_map.mp listed
    apply absent t place
    exact identified.transaction (identified.transactions t place) known
      (identified.accepted t place) accepted (hash.trans same.symm)

def restored (tx : Transaction) : Transaction :=
  { tx with value := tx.reread, cachedSender := none }

theorem decoded_block (spent : c.Spent blocks) {block : Block} (member : block ∈ blocks) :
    block.decoded = .ok { block with
      transactions := block.transactions.map restored
      cachedSigner := none } := by
  have decoded : ∀ tx ∈ block.transactions, tx.decoded = .ok (restored tx) := by
    intro tx place
    have listed : tx ∈ transactionsOf blocks := List.mem_flatMap.mpr ⟨block, member, place⟩
    have accepted := identified.accepted tx listed
    apply accepted.decoded
    intro category
    obtain ⟨b, b', located⟩ := spent.locates tx listed category
    exact (setLocator_ok_iff b accepted category).mp ⟨b', located⟩
  rw [Block.decoded, decodeTransactions_eq decoded]
  rfl

theorem getTransaction_of (indexed : c.Indexed first blocks) (spent : c.Spent blocks) {m i : Nat}
    {block : Block} (found : blocks[m]? = some block) {tx : Transaction}
    (placed : block.transactions[i]? = some tx) :
    ∃ read, c.getBlockByNumber first (m + 1) = .ok read ∧
      c.getTransaction first tx.hash = .ok (restored tx, read, i) := by
  have place : (block.transactions.map restored)[i]? = some (restored tx) := by
    rw [List.getElem?_map, placed]
    rfl
  have read := (indexed.getBlockByNumber_succ identified found).trans
    (decoded_block identified spent (List.mem_of_getElem? found))
  refine ⟨_, read, ?_⟩
  rw [getTransaction, position_of identified indexed spent found placed]
  simp only [read, bind, Except.bind, place]
  rfl

end Transactions

/-- The blocks that are read back under the numbers are a chain that ends in the head, and the
index of the transactions is the one of the blocks. `D` has what may be looked up. -/
structure StoredChain (first : BlockHeader) (D : Set Bytes) (blocks : List Block) (c : Chain S R) :
    Prop where
  linked : ∀ head, c.state.prevHeaders.head? = some head → ∀ n ≤ head.number,
    ∃ block, c.getBlockByNumber first n = .ok block ∧
      c.getBlockhashByNumber n = some block.header.hash ∧ block.header.number = n ∧
      ∀ m, n = m + 1 → ∃ parent, c.getBlockByNumber first m = .ok parent ∧
        block.header.prevhash = parent.header.hash ∧
        parent.header.timestamp < block.header.timestamp
  head : ∃ head, c.state.prevHeaders.head? = some head ∧ head.hash = c.headHash ∧
    c.getBlockhashByNumber head.number = some c.headHash ∧
    ∀ n, c.getBlockhashByNumber n ≠ none → n ≤ head.number
  positions : ∀ n block, blocks[n]? = some block → ∀ i tx, block.transactions[i]? = some tx →
    c.getTxPosition tx.hash = some (n + 1, i) ∧
    ∃ read, c.getBlockByNumber first (n + 1) = .ok read ∧
      c.getTransaction first tx.hash = .ok ({ tx with cachedSender := none }, read, i)
  absent : ∀ tx : Transaction, tx.Accepted → tx.serialize.encode ∈ D →
    (∀ t ∈ transactionsOf blocks,
      { t with cachedSender := none } ≠ { tx with cachedSender := none }) →
    c.getTxPosition tx.hash = none

section Stored

variable {first : BlockHeader} {blocks : List Block} {c : Chain S R} {D : Set Bytes}

theorem Indexed.head (indexed : c.Indexed first blocks) :
    c.state.prevHeaders.head? = some (.block (newest first blocks)) := by
  rw [indexed.headers, List.head?_reverse, List.getLast?_map, headersOf_last]
  rfl

theorem read_block (identified : Identified D first blocks) (indexed : c.Indexed first blocks)
    (spent : c.Spent blocks) {n : Nat} {h : BlockHeader}
    (found : (headersOf first blocks)[n]? = some h) :
    ∃ block, c.getBlockByNumber first n = .ok block ∧ block.header = h := by
  cases n with
  | zero =>
      cases found
      exact ⟨_, indexed.getBlockByNumber_zero identified, rfl⟩
  | succ m =>
      rw [headersOf, List.getElem?_cons_succ, List.getElem?_map] at found
      obtain ⟨block, place, rfl⟩ := Option.map_eq_some_iff.mp found
      have decoded := decoded_block identified spent (List.mem_of_getElem? place)
      exact ⟨_, (indexed.getBlockByNumber_succ identified place).trans decoded, rfl⟩

theorem storedChain_iff (identified : Identified D first blocks)
    (indexed : c.Indexed first blocks) (spent : c.Spent blocks) :
    c.StoredChain first D blocks ↔ ∀ tx ∈ transactionsOf blocks, ¬ tx.Misread := by
  constructor
  · intro stored tx member misread
    obtain ⟨block, listed, place⟩ := List.mem_flatMap.mp member
    obtain ⟨n, found⟩ := List.mem_iff_getElem?.mp listed
    obtain ⟨i, placed⟩ := List.mem_iff_getElem?.mp place
    obtain ⟨-, read, -, returned⟩ := stored.positions n block found i tx placed
    obtain ⟨read', -, returned'⟩ := getTransaction_of identified indexed spent found placed
    rw [returned] at returned'
    have same := (Prod.mk.inj (Except.ok.inj returned')).1
    exact misread (congrArg Transaction.value same).symm
  · intro clear
    have count := headersOf_length first blocks
    refine ⟨?_, ?_, ?_, ?_⟩
    · intro head newest' n bounded
      rw [indexed.head] at newest'
      cases newest'
      have inside : n < (headersOf first blocks).length := by
        rw [count]
        exact Nat.lt_succ_of_le (bounded.trans indexed.newest_number.le)
      have found := List.getElem?_eq_getElem inside
      obtain ⟨block, read, header⟩ := read_block identified indexed spent found
      refine ⟨block, read, ?_, ?_, ?_⟩
      · rw [indexed.blockhash, found, header]
        rfl
      · rw [header, linked_number indexed.linked found rfl, indexed.begins, Nat.zero_add]
      · rintro m rfl
        have before := List.getElem?_eq_getElem (Nat.lt_of_succ_lt inside)
        obtain ⟨parent, readParent, headerParent⟩ := read_block identified indexed spent before
        have follows := List.isChain_iff_getElem.mp indexed.linked m inside
        refine ⟨parent, readParent, ?_, ?_⟩
        · rw [header, headerParent]
          exact follows.prevhash
        · rw [header, headerParent]
          exact follows.timestamp
    · refine ⟨_, indexed.head, indexed.headHash.symm, ?_, ?_⟩
      · change c.getBlockhashByNumber (newest first blocks).number = _
        rw [indexed.newest_number, indexed.blockhash, headersOf_newest, indexed.headHash]
        rfl
      · intro n known
        change n ≤ (newest first blocks).number
        rw [indexed.newest_number]
        by_contra beyond
        apply known
        rw [indexed.blockhash, List.getElem?_eq_none (by omega)]
        rfl
    · intro n block found i tx placed
      have member : tx ∈ transactionsOf blocks :=
        List.mem_flatMap.mpr ⟨block, List.mem_of_getElem? found, List.mem_of_getElem? placed⟩
      obtain ⟨read, reads, returned⟩ := getTransaction_of identified indexed spent found placed
      have same : restored tx = { tx with cachedSender := none } := by
        rw [restored, not_not.mp (clear tx member)]
      rw [same] at returned
      exact ⟨position_of identified indexed spent found placed, read, reads, returned⟩
    · intro tx accepted known absent
      exact position_absent identified indexed accepted known absent

end Stored

end Chain

section Runs

variable [Radix R Address] [TrieRoot] [Poststate] [StateRoot S]

/-- The stored chain is a chain and its indices match it exactly when the stored value of no
transaction reads as the text of another network. -/
theorem stored_chain_iff {g : GenesisData} {s₀ : State S} {rows : Cached}
    (genesis : stateFromGenesisDeclaration g = .ok (s₀, rows)) {blocks : List Block} {c : Chain S R}
    (called : c.Called g blocks) {D : Set Bytes}
    (identified : Identified D
      (blockFromGenesisDeclaration g (StateRoot.stateRoot s₀.trie)) blocks) :
    c.StoredChain (blockFromGenesisDeclaration g (StateRoot.stateRoot s₀.trie)) D blocks ↔
      ∀ tx ∈ transactionsOf blocks, ¬ tx.Misread := by
  obtain ⟨indexed, spent⟩ := called.indexed genesis
  exact Chain.storedChain_iff identified indexed spent

end Runs

end Reading

namespace Sample.Recovered

open Sample (carol net6 netOf owns mem_of_owns)

def shortText : Bytes :=
  [0x61, 0x62, 0x63, 0x64, 0x3a, 0x65, 0x66, 0x30, 0x31, 0x3a, 0x32, 0x33, 0x34, 0x35, 0x3a, 0x3a]

def ambiguous : IPNetwork := netOf .v6 (bytesToNat shortText) 49

def groups : Bytes → List Bytes
  | high :: low :: rest => encodeHex [high, low] :: groups rest
  | _ => []

def longText : Bytes := [0x3a].intercalate (groups shortText) ++ [0x2f, 0x34, 0x39]

def key (s : Nat) : Nat × Nat :=
  if s = 1 then
    (0xa619f9521c4429cbbb4f34e0c04efee07366ea84e666d2942408c1fc0ffaae79,
      0xb55c9be263bde2bcaedfd4f66cc2694354eb29c57b0628a77885f4584476234f)
  else
    (0x68a41fe96cfc290e3ca88a478bc5833ef0753034ba3eec2e952f08fbf013dae7,
      0x2d52108a72efa172461f8c89b875e474d4f29740b18d7c65738166e5928b895)

theorem items_kept {K V : Type} (l : List (K × V)) : (id l).Perm l := List.Perm.refl l

scoped instance : Platform where
  sha3 := Keccak.keccak256
  sha3_length := Keccak.keccak256_length
  ecdsaRawRecover _ _ _ s := .ok (some (key s))
  parseAddress _ _ := none
  parseNetwork
    | .v4, _ => none
    | .v6, text =>
        if text = longText then some ⟨ambiguous, rfl⟩
        else if text = shortText ++ [0x31] then
          some ⟨netOf .v6 (0xabcdef012345 * 2 ^ 80 + 1) 128, rfl⟩
        else none
  items := id
  items_perm := items_kept

scoped instance : TrieRoot := ⟨Trie.rootHash Keccak.keccak256⟩

scoped instance : StateRoot AddressRanges := ⟨accountsRoot⟩

scoped instance : Poststate := ⟨fun _ _ => .ok ()⟩

def owner (s : Nat) : Address :=
  intToAddr (if s = 1 then 0xfda7b97b93cbb929e464036a21cb4c29f87138ad
    else 0x757af6c24acf4a76aedfcbbc65905a175bbcf2aa)

def pubkey (s : Nat) : Bytes := encodeInt32 (key s).1 ++ encodeInt32 (key s).2

theorem recoverSigner_owner (cls : ExcClass) (hash : Bytes) {s : Nat} (known : s = 1 ∨ s = 2) :
    recoverSigner cls (.ok (some hash)) 27 1 s = .ok (owner s) := by
  have sized : (pubkey s).length = 64 := by rcases known with rfl | rfl <;> decide
  have nonzero : pubkey s ≠ List.replicate 64 0 := by
    rcases known with rfl | rfl <;> decide
  have address : pubkeyToAddress (pubkey s) = owner s := by
    rcases known with rfl | rfl <;> decide +kernel
  have recovered : ecrecoverToPub hash 27 1 s = .ok (pubkey s) := by
    have read : ecdsaRawRecover hash 27 1 s = .ok (some (key s)) := rfl
    simp only [ecrecoverToPub, read, bind, Except.bind]
    exact if_pos sized
  have bounded : ¬ (secpk1n ≤ 1 ∨ secpk1n ≤ s ∨ 1 = 0 ∨ s = 0) := by
    rcases known with rfl | rfl <;> decide
  simp only [recoverSigner, bind, Except.bind, if_neg bounded, recovered, if_neg nonzero, address]
  rfl

theorem signer_of_fits {block : Block} (fresh : block.cachedSigner = none) (v : block.v = 27)
    (r : block.r = 1) {s : Nat} (known : s = 1 ∨ s = 2) (same : block.s = s)
    (fits : block.header.Fits) : block.signer = .ok (owner s) := by
  have signed : ¬ (block.r = 0 ∧ block.s = 0) := fun both => by omega
  rw [Block.signer, fresh]
  change (if block.r = 0 ∧ block.s = 0 then (.ok nullAddress : Except PyExc Address)
    else recoverSigner .invalidBlock block.sighash block.v block.r block.s) = _
  rw [if_neg signed, Block.sighash_of_fits (Or.inl v) fits, v, r, same]
  exact recoverSigner_owner _ _ known

def genesis : GenesisData :=
  { Sample.genesis with
    alloc := [(encodeHex (owner 1).bytes, some [net6 0 48]),
      (encodeHex (owner 2).bytes, some [ambiguous])] }

def give (s : Nat) (n : IPNetwork) : Transaction :=
  ⟨0, 0, some carol, 2, valueOf n, .bytes [], 0, 27, 1, s, none⟩

def first : BlockHeader := founded genesis

/-- The hash of the genesis and the roots of the two transactions are written out, and the root of
the accounts after the first of them. -/
def blockOf (tx : Transaction) : Block where
  header := {
    prevhash := bigEndian 32 0xf90fcee66e071925cd79ff8fba3cb51e62ab31c80030f2cd42d73a6e9a651d7e
    timestamp := 2
    extraData := []
    stateRoot := bigEndian 32 0x20b111d03121b372ebee2500935ddfe8be1e1b9bc116bd11a8562893e46a0f7e
    txRoot := bigEndian 32 (if tx.s = 1 then
      0xbfc783be7b07bc9e423d8429fadda2b7ab3244dbc77b7be70258043adb202ef9
      else 0xc79fbb3958c2da43fec8becd52f1e4683c3e5ac1e3ece19fd9cbca65cc2b0084)
    number := 1
    coinbase := carol.bytes
    randomNumber := List.replicate 32 0
    groupPubkey := []
    groupSig := []
    count := 0 }
  transactions := [tx]
  v := 27
  r := 1
  s := 1
  cachedSigner := none

theorem blockOf_signer (tx : Transaction) : (blockOf tx).signer = .ok (owner 1) :=
  signer_of_fits rfl rfl rfl (Or.inl rfl) rfl ⟨bigEndian_length _ _, Or.inl (bigEndian_length _ _),
    Or.inl (bigEndian_length _ _), Or.inl carol.sized, List.length_replicate⟩

theorem owner_known : owner 1 ≠ nullAddress := by decide

theorem hash_first : first.hash =
    bigEndian 32 0xf90fcee66e071925cd79ff8fba3cb51e62ab31c80030f2cd42d73a6e9a651d7e := by
  decide +kernel

theorem taken_of_passes (s : Nat) (n : IPNetwork) (known : owner s ≠ nullAddress)
    (root : (blockOf (give s n)).header.txRoot = mkTransactionSha [give s n])
    (signed : (give s n).sender = .ok (owner s)) (reads : (give s n).ipNetwork = .ok n)
    (passes : Passes (stateFromGenesisDeclaration genesis) (fun g =>
      (owns g.1 (owner s) n && (g.1.getNonce (owner s)).1 = 0) &&
        RunPasses (applyTransaction { give s n with cachedSender := some (owner s) } ∅ g.1)
          fun _ _ => true) = true) :
    ∃ (s₀ u : State AddressRanges) (rows : Cached) (r : Bool × Cached)
      (c c' : Chain AddressRanges (PrefixTable Address)),
      stateFromGenesisDeclaration genesis = .ok (s₀, rows) ∧
        applyTransaction { give s n with cachedSender := some (owner s) } ∅ s₀ = .ok r u ∧
        Chain.init genesis = .ok c ∧ c.state.account.book.Accepts (give s n) (owner s) n ∧
        Chain.addBlock 2 1 (blockOf (give s n)) c = .ok true c' ∧ c'.state.trie = u.trie := by
  obtain ⟨⟨t, rows⟩, built, passed⟩ := passes_iff.mp passes
  simp only [Bool.and_eq_true, decide_eq_true_eq] at passed
  obtain ⟨⟨holds, next⟩, passed⟩ := passed
  obtain ⟨c, started, rfl, -⟩ := Chain.init_ok (R := PrefixTable Address) built
  obtain ⟨r, u, applied, -⟩ := runPasses_iff.mp passed
  have noted := applied
  rw [applyTransaction_noted signed] at applied
  have loop : applyTransactions [give s n] ∅ c.state = .ok r.2 u :=
    bind_eq_ok.mpr ⟨r, u, applied, rfl⟩
  have based : Based c.state.toAuxVars (blockOf (give s n)) :=
    ⟨⟨_, [], (genesis_headers built).1,
      hash_first.symm.trans (congrArg BlockHeader.hash (founded_eq built)), rfl,
      show 1 < 2 by decide, show 2 < 2 ^ 256 by decide⟩, root⟩
  have accepts : c.state.account.book.Accepts (give s n) (owner s) n := by
    refine ⟨signed, known, ?_, Nat.zero_le 3, reads, fun _ x inside => ?_⟩
    · rw [State.getNonce_fst] at next
      exact next
    · have held := mem_of_owns holds x inside
      rwa [State.getBalance_fst] at held
  obtain ⟨v, validated⟩ := validateBlock_ok_iff.mpr ⟨⟨_, blockOf_signer _, owner_known⟩, based,
    List.forall_mem_singleton.mpr ⟨_, _, accepts⟩⟩
  have done := (applyBlock_eq_ok (p := c.patricia)).mpr ⟨based, r.2, u, loop, rfl, rfl⟩
  obtain ⟨t, added, alike⟩ := (Chain.Reachable.start started).sane.accepts validated done le_rfl 0
  exact ⟨c.state, u, rows, r, c, _, built, noted, started, accepts, added, alike.trie⟩

theorem taken_plain : ∃ (s₀ u : State AddressRanges) (rows : Cached) (r : Bool × Cached)
      (c c' : Chain AddressRanges (PrefixTable Address)),
      stateFromGenesisDeclaration genesis = .ok (s₀, rows) ∧
        applyTransaction { give 1 (net6 0 48) with cachedSender := some (owner 1) } ∅ s₀ = .ok r u ∧
        Chain.init genesis = .ok c ∧
        c.state.account.book.Accepts (give 1 (net6 0 48)) (owner 1) (net6 0 48) ∧
        Chain.addBlock 2 1 (blockOf (give 1 (net6 0 48))) c = .ok true c' ∧
        c'.state.trie = u.trie :=
  taken_of_passes 1 (net6 0 48) owner_known (by decide +kernel) (by decide +kernel)
    (by decide) (by decide)

def encodings (tx : Transaction) : List Bytes :=
  [first.serialize.encode, (blockOf tx).header.serialize.encode, tx.serialize.encode]

theorem identified_of_heads {tx : Transaction} (accepted : tx.Accepted)
    (unsent : tx.cachedSender = none) {a b : UInt8}
    (header : (blockOf tx).header.hash.headD 0 = a) (sent : tx.hash.headD 0 = b)
    (distinct : [0xf9, a, b].Nodup) (short : ∀ data ∈ encodings tx, data.length < 2 ^ 64) :
    Identified {data | data ∈ encodings tx} first [blockOf tx] := by
  have only : ∀ t ∈ transactionsOf [blockOf tx], t = tx := by
    intro t member
    exact List.mem_singleton.mp member
  refine ⟨⟨?_, short⟩, ?_, ?_, ?_, ?_⟩
  · intro x memberX y memberY same
    have heads : (encodings tx).map (fun data => (Platform.sha3 data).headD 0) = [0xf9, a, b] := by
      have start : first.hash.headD 0 = 0xf9 := by
        rw [hash_first]
        decide
      rw [← start, ← header, ← sent]
      rfl
    rw [← heads] at distinct
    apply List.inj_on_of_nodup_map distinct memberX memberY
    rw [same]
  · intro h member
    rcases List.mem_cons.mp member with rfl | later
    · exact List.mem_cons_self
    · rw [List.mem_singleton.mp later]
      exact List.mem_cons_of_mem _ List.mem_cons_self
  · intro t member
    rw [only t member]
    exact List.mem_cons_of_mem _ (List.mem_cons_of_mem _ List.mem_cons_self)
  · intro t member
    rwa [only t member]
  · intro t member
    rw [only t member]
    obtain ⟨_, _, _, _, _, _, _, _, _, _, _⟩ := tx
    cases unsent
    rfl

theorem accepted_plain : (give 1 (net6 0 48)).Accepted :=
  ⟨0, 0, .bytes carol.bytes, 2, .bytes (valueOf (net6 0 48)), .bytes [], 0, 27, 1, 1,
    by decide⟩

theorem accepted_ambiguous : (give 2 ambiguous).Accepted :=
  ⟨0, 0, .bytes carol.bytes, 2, .bytes longText, .bytes [], 0, 27, 1, 2, by decide⟩

theorem stored_first_block : ∃ c : Chain AddressRanges (PrefixTable Address),
    c.Called genesis [blockOf (give 1 (net6 0 48))] ∧
      c.StoredChain first {data | data ∈ encodings (give 1 (net6 0 48))}
        [blockOf (give 1 (net6 0 48))] := by
  obtain ⟨s₀, u, rows, r, c₀, c, built, -, started, -, added, -⟩ := taken_plain
  have called : c.Called genesis [blockOf (give 1 (net6 0 48))] :=
    ((Chain.Reachable.start started).extend added).called
  have identified := identified_of_heads (a := 81) (b := 65) accepted_plain rfl
    (by decide +kernel) (by decide +kernel) (by decide) (by decide +kernel)
  have same : first = _ := founded_eq built
  refine ⟨c, called, ?_⟩
  rw [same] at identified ⊢
  rw [stored_chain_iff built called identified]
  intro tx member
  rw [List.mem_singleton.mp member]
  decide

/-- The transaction is stored as it was sent, and comes back about another network. -/
theorem ambiguous_misread : ∃ c : Chain AddressRanges (PrefixTable Address),
    c.Called genesis [blockOf (give 2 ambiguous)] ∧
      Identified {data | data ∈ encodings (give 2 ambiguous)} first [blockOf (give 2 ambiguous)] ∧
      ¬ c.StoredChain first {data | data ∈ encodings (give 2 ambiguous)}
        [blockOf (give 2 ambiguous)] := by
  obtain ⟨s₀, u, rows, r, c₀, c, built, -, started, -, added, -⟩ := taken_of_passes 2 ambiguous
    (by decide +kernel) (by decide +kernel) (by decide +kernel) (by decide +kernel)
    (by decide)
  have called : c.Called genesis [blockOf (give 2 ambiguous)] :=
    ((Chain.Reachable.start started).extend added).called
  have identified := identified_of_heads (a := 124) (b := 215) accepted_ambiguous rfl
    (by decide +kernel) (by decide +kernel) (by decide) (by decide +kernel)
  have same : first = _ := founded_eq built
  obtain ⟨indexed, spent⟩ := called.indexed built
  rw [← same] at indexed
  refine ⟨c, called, identified, ?_⟩
  intro stored
  have clear := (Chain.storedChain_iff identified indexed spent).mp stored
  exact clear (give 2 ambiguous) (List.mem_singleton_self _) (by decide)

end Sample.Recovered

end IPchain
