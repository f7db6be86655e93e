import IPchain.Calls
import IPchain.Decoding

/-! What the database of a chain holds after any run of calls. -/

namespace IPchain

open Lib

section Records

variable {S R : Type} [IPSet S] [Platform]

structure Extends (h k : BlockHeader) : Prop where
  prevhash : k.prevhash = h.hash
  number : k.number = h.number + 1
  timestamp : h.timestamp < k.timestamp

def headersOf (first : BlockHeader) (blocks : List Block) : List BlockHeader :=
  first :: blocks.map Block.header

omit [Platform] in
theorem headersOf_append (first : BlockHeader) (blocks : List Block) (block : Block) :
    headersOf first (blocks ++ [block]) = headersOf first blocks ++ [block.header] := by
  rw [headersOf, List.map_append]
  rfl

omit [Platform] in
theorem headersOf_length (first : BlockHeader) (blocks : List Block) :
    (headersOf first blocks).length = blocks.length + 1 := by
  rw [headersOf, List.length_cons, List.length_map]

def newest (first : BlockHeader) (blocks : List Block) : BlockHeader :=
  (first :: blocks.map Block.header).getLast (List.cons_ne_nil _ _)

omit [Platform] in
theorem headersOf_last (first : BlockHeader) (blocks : List Block) :
    (headersOf first blocks).getLast? = some (newest first blocks) :=
  List.getLast?_eq_some_getLast (List.cons_ne_nil _ _)

omit [Platform] in
theorem headersOf_newest (first : BlockHeader) (blocks : List Block) :
    (headersOf first blocks)[blocks.length]? = some (newest first blocks) := by
  rw [← headersOf_last, List.getLast?_eq_getElem?, headersOf_length]
  rfl

omit [Platform] in
theorem newest_append (first : BlockHeader) (blocks : List Block) (block : Block) :
    newest first (blocks ++ [block]) = block.header := by
  have last := headersOf_last first (blocks ++ [block])
  rw [headersOf_append, List.getLast?_concat] at last
  exact (Option.some.inj last).symm

def positionsOf (block : Block) : List (Bytes × Nat × Nat) :=
  block.transactions.zipIdx.map fun tx => (tx.1.hash, block.header.number, tx.2)

theorem indexTransactions_eq (block : Block) (index : AList fun _ : Bytes => Nat × Nat) :
    Chain.indexTransactions block index = Dict.update index (positionsOf block) := by
  rw [Dict.update, positionsOf, List.foldl_map]
  rfl

/-- The records after the genesis with the header `first` and the blocks. -/
structure Chain.Indexed (first : BlockHeader) (blocks : List Block) (c : Chain S R) : Prop where
  begins : first.number = 0
  linked : (headersOf first blocks).IsChain Extends
  headers : c.state.prevHeaders = ((headersOf first blocks).map PrevHeader.block).reverse
  headHash : c.headHash = (newest first blocks).hash
  number : c.state.blockNumber = blocks.length
  blockIndex : c.blockIndex = Dict.update (AList.insert 0 first.hash ∅)
    (blocks.map fun block => (block.header.number, block.header.hash))
  stored : c.blocks = Dict.update (AList.insert first.hash none ∅)
    (blocks.map fun block => (block.header.hash, some block))
  positions : c.txIndex = Dict.update ∅ (blocks.flatMap positionsOf)

structure Chain.Spent (blocks : List Block) (c : Chain S R) : Prop where
  spent : ∀ tx ∈ transactionsOf blocks,
    ∃ a, tx.origin = some a ∧ tx.nonce < c.state.account.nonces a
  distinct : ((transactionsOf blocks).map fun tx => (tx.origin, tx.nonce)).Nodup
  locates : ∀ tx ∈ transactionsOf blocks, tx.category = 3 →
    ∃ b b' : Balance S, b.setLocator tx.metadata.elements = .ok b'

theorem newest_headers {first : BlockHeader} {blocks : List Block} {c : Chain S R}
    (indexed : c.Indexed first blocks) {header : PrevHeader} {older : List PrevHeader}
    (same : c.state.prevHeaders = header :: older) : header = .block (newest first blocks) := by
  have split : headersOf first blocks =
      (headersOf first blocks).dropLast ++ [newest first blocks] :=
    (List.dropLast_append_getLast (List.cons_ne_nil _ _)).symm
  have headers := indexed.headers
  rw [split, List.map_append, List.reverse_append, same] at headers
  exact (List.cons.inj headers).1

theorem linked_number {headers : List BlockHeader} (linked : headers.IsChain Extends) {i : Nat}
    {h : BlockHeader} (found : headers[i]? = some h) {first : BlockHeader}
    (starts : headers.head? = some first) : h.number = first.number + i := by
  induction i generalizing h with
  | zero =>
      rw [← List.head?_eq_getElem?, starts] at found
      cases found
      rfl
  | succ i ih =>
      obtain ⟨bound, rfl⟩ := List.getElem?_eq_some_iff.mp found
      have before : headers[i]? = some headers[i] := List.getElem?_eq_getElem _
      have step := List.isChain_iff_getElem.mp linked i bound
      rw [step.number, ih before, Nat.add_assoc]

theorem Chain.Indexed.newest_number {first : BlockHeader} {blocks : List Block} {c : Chain S R}
    (indexed : c.Indexed first blocks) : (newest first blocks).number = blocks.length := by
  rw [linked_number indexed.linked (headersOf_newest first blocks) rfl, indexed.begins,
    Nat.zero_add]

variable [Radix R Address] [TrieRoot]

theorem Chain.Indexed.extended {first : BlockHeader} {blocks : List Block} {c : Chain S R}
    (indexed : c.Indexed first blocks) {s t : State S} {p q : R} {block : Block}
    (same : s.toAuxVars = c.state.toAuxVars) (applied : applyBlock block (s, p) = .ok () (t, q)) :
    (c.extended block t q).Indexed first (blocks ++ [block]) := by
  obtain ⟨⟨⟨parent, older, headers, prevhash, number, timestamp, -⟩, -⟩, cached, u, loop, rfl, -⟩ :=
    applyBlock_eq_ok.mp applied
  have before : u.toAuxVars = c.state.toAuxVars :=
    ((preserves_applyTransactions _ _).ok loop).trans same
  rw [same] at headers
  cases newest_headers indexed headers
  have follows : Extends (newest first blocks) block.header := ⟨prevhash, number, timestamp⟩
  have numbered : block.header.number = (blocks ++ [block]).length := by
    rw [follows.number, indexed.newest_number, List.length_append, List.length_singleton]
  refine ⟨indexed.begins, ?_, ?_, ?_, numbered, ?_, ?_, ?_⟩
  · rw [headersOf_append]
    apply indexed.linked.append (List.isChain_singleton _)
    intro h last k head
    cases head
    rw [headersOf_last] at last
    cases last
    exact follows
  · have grown : u.prevHeaders = c.state.prevHeaders := congrArg AuxVars.prevHeaders before
    rw [headersOf_append, List.map_append, List.reverse_append, ← indexed.headers, ← grown]
    rfl
  · rw [newest_append]
    rfl
  · rw [List.map_append, Dict.update_append, ← indexed.blockIndex]
    rfl
  · rw [List.map_append, Dict.update_append, ← indexed.stored]
    rfl
  · rw [List.flatMap_append, Dict.update_append, ← indexed.positions, List.flatMap_singleton,
      ← indexTransactions_eq]
    rfl

omit [TrieRoot] in
theorem applyTransactions_locates {txs : List Transaction} {cached c : Cached} {L L' : Ledger S}
    (run : applyTransactions txs cached L = .ok c L') : ∀ tx ∈ txs, tx.category = 3 →
      ∃ b b' : Balance S, b.setLocator tx.metadata.elements = .ok b' := by
  induction txs generalizing L cached with
  | nil => exact List.forall_mem_nil _
  | cons tx txs ih =>
      obtain ⟨r, M, applied, run⟩ := bind_eq_ok.mp run
      refine List.forall_mem_cons.mpr ⟨?_, ih run⟩
      intro category
      obtain ⟨-, -, done⟩ := applyTransaction_eq_ok.mp applied
      have known : ¬ tx.category = 0 ∧ ¬ tx.category = 1 ∧ ¬ tx.category = 2 := by omega
      rw [perform, if_neg known.1, if_neg known.2.1, if_neg known.2.2, if_pos category] at done
      obtain ⟨_, _, set, -⟩ := bind_eq_ok.mp done
      obtain ⟨s, b, -, located, -⟩ := setMapping_eq_ok.mp set
      exact ⟨_, b, located⟩

theorem Chain.Spent.extended {blocks : List Block} {c : Chain S R} (spent : c.Spent blocks)
    {s t : State S} {p q : R} {block : Block} (steady : c.state.Steady) (alike : c.state.Alike s)
    (applied : applyBlock block (s, c.patricia) = .ok () (t, q)) :
    (c.extended block t p).Spent (blocks ++ [block]) := by
  obtain ⟨-, later⟩ := applyBlock_advances steady alike applied
  have serial := applyBlock_serial applied
  rw [alike.account] at serial
  obtain ⟨-, cached, u, loop, rfl, -⟩ := applyBlock_eq_ok.mp applied
  have run := (simulates_applyTransactions _ _).ok loop
  have joined : transactionsOf (blocks ++ [block]) =
      transactionsOf blocks ++ block.transactions := by
    rw [transactionsOf, List.flatMap_append, List.flatMap_singleton]
    rfl
  refine ⟨?_, ?_, ?_⟩ <;> rw [joined]
  · refine List.forall_mem_append.mpr ⟨?_, serial.used⟩
    intro tx member
    obtain ⟨a, signed, below⟩ := spent.spent tx member
    exact ⟨a, signed, below.trans_le (later a)⟩
  · rw [List.map_append, List.nodup_append']
    refine ⟨spent.distinct, serial.nodup, ?_⟩
    rintro pair old new
    obtain ⟨tx, member, rfl⟩ := List.mem_map.mp old
    obtain ⟨other, member', same⟩ := List.mem_map.mp new
    obtain ⟨sender, number⟩ := Prod.mk.inj same
    obtain ⟨a, signed, below⟩ := spent.spent tx member
    obtain ⟨b, signed', above⟩ := serial.known other member'
    rw [sender, signed] at signed'
    cases signed'
    omega
  · exact List.forall_mem_append.mpr ⟨spent.locates, applyTransactions_locates run⟩

variable [Poststate] [StateRoot S]

theorem Chain.Called.genesis {g : GenesisData} {blocks : List Block} {c : Chain S R}
    (called : c.Called g blocks) :
    ∃ (s₀ : State S) (rows : Cached), stateFromGenesisDeclaration g = .ok (s₀, rows) := by
  induction called with
  | start built =>
      obtain ⟨s, rows, header, genesis, -⟩ := Chain.init_spec built
      exact ⟨s, rows, genesis⟩
  | extend _ _ ih => exact ih
  | refuse _ _ ih => exact ih
  | fail _ _ ih => exact ih
  | pop _ _ ih => exact ih
  | read _ _ ih => exact ih

theorem Chain.Called.indexed {g : GenesisData} {s₀ : State S} {rows : Cached}
    (genesis : stateFromGenesisDeclaration g = .ok (s₀, rows)) {blocks : List Block} {c : Chain S R}
    (called : c.Called g blocks) :
    c.Indexed (blockFromGenesisDeclaration g (StateRoot.stateRoot s₀.trie)) blocks ∧
      c.Spent blocks := by
  apply called.invariant (P := fun blocks c =>
    c.Indexed (blockFromGenesisDeclaration g (StateRoot.stateRoot s₀.trie)) blocks ∧ c.Spent blocks)
  · intro c built
    obtain ⟨s, rows', header, genesis', rfl, rfl⟩ := Chain.init_spec built
    rw [genesis] at genesis'
    cases genesis'
    obtain ⟨headers, number⟩ := genesis_headers genesis
    exact ⟨⟨rfl, List.isChain_singleton _, headers, rfl, number, rfl, rfl, rfl⟩,
      ⟨List.forall_mem_nil _, List.nodup_nil, List.forall_mem_nil _⟩⟩
  · intro blocks c block s t p anchored steady ih alike applied
    exact ⟨ih.1.extended alike.auxvars applied, ih.2.extended steady alike applied⟩
  · intro blocks c s queue ih advances
    obtain ⟨indexed, spent⟩ := ih
    refine ⟨⟨indexed.begins, indexed.linked, ?_, indexed.headHash, ?_, indexed.blockIndex,
      indexed.stored, indexed.positions⟩, ⟨?_, spent.distinct, spent.locates⟩⟩
    · exact (congrArg AuxVars.prevHeaders advances.auxvars).trans indexed.headers
    · exact (congrArg AuxVars.blockNumber advances.auxvars).trans indexed.number
    · intro tx member
      obtain ⟨a, signed, below⟩ := spent.spent tx member
      exact ⟨a, signed, below.trans_le (advances.nonces a)⟩

end Records

namespace Chain

variable {S R : Type} [IPSet S] [Platform]

def getBlockhashByNumber (c : Chain S R) (number : Nat) : Option Bytes := c.blockIndex.lookup number

variable {first : BlockHeader} {blocks : List Block} {c : Chain S R}

theorem Indexed.number_at (indexed : c.Indexed first blocks) {m : Nat} {block : Block}
    (found : blocks[m]? = some block) : block.header.number = m + 1 := by
  have header : (headersOf first blocks)[m + 1]? = some block.header := by
    rw [headersOf, List.getElem?_cons_succ, List.getElem?_map, found]
    rfl
  rw [linked_number indexed.linked header rfl, indexed.begins, Nat.zero_add]

theorem Indexed.numbers (indexed : c.Indexed first blocks) :
    blocks.map (fun block => block.header.number) = List.range' 1 blocks.length := by
  apply List.ext_getElem?
  intro m
  rw [List.getElem?_map]
  cases found : blocks[m]? with
  | none =>
      have outside := List.getElem?_eq_none_iff.mp found
      rw [List.getElem?_eq_none (by rwa [List.length_range'])]
      rfl
  | some block =>
      obtain ⟨bound, -⟩ := List.getElem?_eq_some_iff.mp found
      rw [List.getElem?_range' bound, Option.map_some, indexed.number_at found]
      congr 1
      omega

theorem Indexed.number_ne_zero (indexed : c.Indexed first blocks) {block : Block}
    (member : block ∈ blocks) : block.header.number ≠ 0 := by
  obtain ⟨m, found⟩ := List.mem_iff_getElem?.mp member
  rw [indexed.number_at found]
  exact Nat.succ_ne_zero m

theorem Indexed.blockhash (indexed : c.Indexed first blocks) (n : Nat) :
    c.getBlockhashByNumber n = ((headersOf first blocks)[n]?).map BlockHeader.hash := by
  have keys : (blocks.map fun block => (block.header.number, block.header.hash)).map Prod.fst =
      List.range' 1 blocks.length := by
    rw [List.map_map]
    exact indexed.numbers
  rw [getBlockhashByNumber, indexed.blockIndex]
  cases n with
  | zero =>
      rw [Dict.lookup_update_of_absent, AList.lookup_insert]
      · rfl
      · intro row member same
        obtain ⟨block, known, rfl⟩ := List.mem_map.mp member
        exact indexed.number_ne_zero known same.symm
  | succ m =>
      rw [headersOf, List.getElem?_cons_succ, List.getElem?_map]
      cases found : blocks[m]? with
      | none =>
          have outside := List.getElem?_eq_none_iff.mp found
          rw [Dict.lookup_update_of_absent, AList.lookup_insert_ne (Nat.succ_ne_zero m)]
          · rfl
          · intro row member same
            have listed := List.mem_map_of_mem (f := Prod.fst) member
            rw [keys, ← same, List.mem_range'_1] at listed
            omega
      | some block =>
          have member := List.mem_map_of_mem (f := fun block : Block =>
            (block.header.number, block.header.hash)) (List.mem_of_getElem? found)
          have looked := Dict.lookup_update_of_mem (AList.insert 0 first.hash ∅)
            (keys ▸ List.nodup_range') member
          rw [← indexed.number_at found]
          exact looked

theorem Indexed.increasing {more : List Block}
    (indexed : c.Indexed first (blocks ++ more)) :
    more.Pairwise fun a b => a.header.number < b.header.number := by
  have increasing : (more.map fun block => block.header.number).Pairwise (· < ·) := by
    have numbers := indexed.numbers
    rw [List.map_append] at numbers
    have sorted : (List.range' 1 (blocks ++ more).length).Pairwise (· < ·) :=
      List.pairwise_lt_range'
    rw [← numbers, List.pairwise_append] at sorted
    exact sorted.2.1
  exact List.pairwise_map.mp increasing

theorem order_of_index {more accepted order : List Block} {d : Chain S R}
    (indexed : c.Indexed first (blocks ++ more))
    (indexed' : d.Indexed first (blocks ++ accepted)) (listed : accepted.Sublist order)
    (perm : order.Perm more)
    (same : ∀ n, d.getBlockhashByNumber n = c.getBlockhashByNumber n) : order = more := by
  have length : accepted.length = more.length := by
    have absent (n : Nat) : n ≥ (headersOf first (blocks ++ accepted)).length ↔
        n ≥ (headersOf first (blocks ++ more)).length := by
      rw [ge_iff_le, ge_iff_le, ← List.getElem?_eq_none_iff, ← List.getElem?_eq_none_iff,
        ← Option.map_eq_none_iff (f := BlockHeader.hash), ← indexed'.blockhash, same n,
        indexed.blockhash, Option.map_eq_none_iff]
    have one := (absent _).mp (Nat.le_refl _)
    have two := (absent _).mpr (Nat.le_refl _)
    simp only [headersOf_length, List.length_append] at one two
    omega
  have whole : accepted = order := listed.eq_of_length (length.trans perm.length_eq.symm)
  subst whole
  apply List.Perm.eq_of_pairwise _ indexed'.increasing indexed.increasing perm
  intro a b _ _ below above
  omega

end Chain

end IPchain
