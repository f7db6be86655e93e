import IPchain.Node

/-! Ways through the stored blocks: from a number upwards, from a block to its parent, its
children and its descendants, and from a hash backwards. -/

namespace IPchain

open Lib Platform

namespace Chain

section Definitions

variable {S R : Type} [IPSet S] [Platform]

def getParent (first : BlockHeader) (c : Chain S R) (block : Block) : Except PyExc (Option Block) :=
  if block.header.number = first.number then .ok none
  else do
    let parent ← c.getBlock first (some block.header.prevhash)
    return some parent

def getChildHashes (c : Chain S R) (hash : Bytes) : List Bytes := (c.children.lookup hash).getD []

def getChildren (first : BlockHeader) (c : Chain S R) (block : Block) : Except PyExc (List Block) :=
  (c.getChildHashes block.header.hash).mapM fun hash => c.getBlock first (some hash)

def collect (first : BlockHeader) (c : Chain S R) :
    Nat → Nat → List Block → Except PyExc (Option (List Block))
  | 0, _, _ => .ok none
  | count + 1, i, chain =>
      match c.getBlockhashByNumber i with
      | none => .ok (some chain)
      | some hash => do
          let block ← c.getBlock first (some hash)
          collect first c count (i + 1) (chain ++ [block])

def getChain (first : BlockHeader) (c : Chain S R) (frm : Option Nat) (upTo : Nat) :
    Except PyExc (Option (List Block)) :=
  let frm := frm.getD (first.number + 1)
  collect first c (upTo - frm) frm []

def descend (first : BlockHeader) (c : Chain S R) :
    Nat → List Block → List Block → Option (Except PyExc (List Block))
  | _, [], output => some (.ok output)
  | 0, _ :: _, _ => none
  | fuel + 1, b :: blocks, output =>
      match c.getChildren first b with
      | .error e => some (.error e)
      | .ok children => descend first c fuel (children.reverse ++ blocks) (output ++ [b])

def getDescendants (first : BlockHeader) (c : Chain S R) (fuel : Nat) (block : Block) :
    Option (Except PyExc (List Block)) :=
  descend first c fuel [block] []

def climb (first : BlockHeader) (c : Chain S R) : Nat → BlockHeader → Except PyExc (List Bytes)
  | 0, _ => .ok []
  | max + 1, header => do
      let block ← c.getBlock first (some header.prevhash)
      if block.header.number = 0 then return [block.header.hash]
      else do
        let hashes ← climb first c max block.header
        return block.header.hash :: hashes

def getBlockhashesFromHash (first : BlockHeader) (c : Chain S R) (hash : Bytes) (max : Nat) :
    Except PyExc (List Bytes) := do
  let block ← c.getBlock first (some hash)
  climb first c max block.header

def hasBlock (first : BlockHeader) (c : Chain S R) (block : Block) : Bool :=
  match c.getBlockByNumber first block.header.number with
  | .ok read => decide (read.header.hash = block.header.hash)
  | .error _ => false

/-- `__contains__` for a hash. The record of the genesis does not decode to a block. -/
def containsHash (first : BlockHeader) (c : Chain S R) (hash : Bytes) : Bool :=
  match c.blocks.lookup hash with
  | some (some block) =>
      match block.decoded with
      | .ok block => c.hasBlock first block
      | .error _ => false
  | _ => false

/-- What `add_child` does to the dictionary. -/
def noteChild (children : AList fun _ : Bytes => List Bytes) (block : Block) :
    AList fun _ : Bytes => List Bytes :=
  let existing := (children.lookup block.header.prevhash).getD []
  if block.header.hash ∈ existing then children
  else children.insert block.header.prevhash (existing ++ [block.header.hash])

end Definitions

end Chain

section Children

variable [Platform]

theorem foldl_noteChild {blocks : List Block} {children : AList fun _ : Bytes => List Bytes}
    (distinct : (blocks.map fun block => block.header.prevhash).Nodup)
    (absent : ∀ block ∈ blocks, children.lookup block.header.prevhash = none) :
    blocks.foldl Chain.noteChild children =
      Dict.update children
        (blocks.map fun block => (block.header.prevhash, [block.header.hash])) := by
  induction blocks generalizing children with
  | nil => rfl
  | cons block blocks ih =>
      have free := absent block List.mem_cons_self
      have noted : Chain.noteChild children block =
          children.insert block.header.prevhash [block.header.hash] := by
        simp only [Chain.noteChild, free, Option.getD_none, List.not_mem_nil, if_false,
          List.nil_append]
      have later := List.nodup_cons.mp distinct
      rw [List.foldl_cons, noted, ih later.2]
      · rfl
      · intro other member
        have apart : other.header.prevhash ≠ block.header.prevhash := by
          intro same
          have listed := List.mem_map_of_mem (f := fun b : Block => b.header.prevhash) member
          rw [same] at listed
          exact later.1 listed
        rw [AList.lookup_insert_ne apart]
        exact absent other (List.mem_cons_of_mem _ member)

variable {S R : Type} [IPSet S] [Radix R Address] [TrieRoot] [Poststate] [StateRoot S]

theorem Chain.Called.children {g : GenesisData} {blocks : List Block} {c : Chain S R}
    (called : c.Called g blocks) : c.children = blocks.foldl noteChild ∅ := by
  apply called.invariant (P := fun blocks c => c.children = blocks.foldl noteChild ∅)
  · intro c built
    obtain ⟨s, rows, header, -, -, rfl⟩ := Chain.init_spec built
    rfl
  · intro blocks c block s t p _ _ ih _ _
    rw [List.foldl_append, ← ih]
    rfl
  · intro blocks c s queue ih _
    exact ih

end Children

section Walking

variable {S R : Type} [IPSet S] [Platform] {first : BlockHeader} {blocks : List Block}
  {c : Chain S R} {D : Set Bytes}

def Block.reread (block : Block) : Block :=
  { block with transactions := block.transactions.map Chain.restored, cachedSigner := none }

def readings (first : BlockHeader) (blocks : List Block) : List Block :=
  genesisBlock first :: blocks.map Block.reread

theorem readings_length : (readings first blocks).length = blocks.length + 1 := by
  rw [readings, List.length_cons, List.length_map]

theorem readings_headers : (readings first blocks).map Block.header = headersOf first blocks := by
  rw [readings, List.map_cons, List.map_map]
  rfl

theorem readings_header (n : Nat) :
    ((readings first blocks)[n]?).map Block.header = (headersOf first blocks)[n]? := by
  rw [← readings_headers, List.getElem?_map]

namespace Chain

/-- What the records say about the chain that is read back: each block has its record, and
its hash leads on to the next. -/
structure Listed (first : BlockHeader) (chain : List Block) (c : Chain S R) : Prop where
  head : ∃ block, chain.getLast? = some block ∧ c.headHash = block.header.hash
  starts : first.number = 0
  numbered : ∀ (n : Nat) (block : Block), chain[n]? = some block → block.header.number = n
  indexed : ∀ n : Nat,
    c.getBlockhashByNumber n = (chain[n]?).map fun block : Block => block.header.hash
  stored : ∀ block ∈ chain, c.getBlock first (some block.header.hash) = .ok block
  follows : ∀ (n : Nat) (block next : Block), chain[n]? = some block → chain[n + 1]? = some next →
    next.header.prevhash = block.header.hash
  childHashes : ∀ (n : Nat) (block : Block), chain[n]? = some block →
    c.getChildHashes block.header.hash =
      ((chain[n + 1]?).map fun next : Block => next.header.hash).toList

section Listing

variable {chain : List Block} (listed : c.Listed first chain)

include listed

theorem Listed.getHeadBlock : c.getHeadBlock first = chain.getLast? := by
  rcases listed.head with ⟨block, last, hash⟩
  rw [Chain.getHeadBlock, hash, listed.stored block (List.mem_of_getLast? last), last]
  rfl

theorem Listed.collect (count i : Nat) (found : List Block) :
    c.collect first count i found =
      .ok (if max i chain.length < i + count then some (found ++ chain.drop i) else none) := by
  induction count generalizing i found with
  | zero => rw [if_neg (by omega), Chain.collect]
  | succ count ih =>
      rw [Chain.collect, listed.indexed]
      cases here : chain[i]? with
      | none =>
          have outside := List.getElem?_eq_none_iff.mp here
          rw [if_pos (by omega), List.drop_eq_nil_of_le outside, List.append_nil]
          rfl
      | some block =>
          rcases List.getElem?_eq_some_iff.mp here with ⟨inside, rfl⟩
          have reads := listed.stored _ (List.getElem_mem inside)
          have rest : found ++ [chain[i]] ++ chain.drop (i + 1) = found ++ chain.drop i := by
            rw [List.append_assoc, List.singleton_append, List.drop_eq_getElem_cons inside]
          have bounds : max (i + 1) chain.length < i + 1 + count ↔
              max i chain.length < i + (count + 1) := by omega
          simp only [Option.map_some, reads, bind, Except.bind, ih, rest, bounds]

theorem Listed.getChain (frm : Option Nat) (upTo : Nat) :
    c.getChain first frm upTo = .ok (if max (frm.getD 1) chain.length < upTo then
      some (chain.drop (frm.getD 1)) else none) := by
  have from1 : frm.getD (first.number + 1) = frm.getD 1 := by rw [listed.starts]
  have bounds (i : Nat) : max i chain.length < i + (upTo - i) ↔ max i chain.length < upTo := by
    omega
  simp only [Chain.getChain, from1, listed.collect, List.nil_append, bounds]

theorem Listed.getParent {n : Nat} {block : Block} (here : chain[n]? = some block) :
    c.getParent first block = .ok (if n = 0 then none else chain[n - 1]?) := by
  have number := listed.numbered n block here
  rw [Chain.getParent, number, listed.starts]
  cases n with
  | zero => rfl
  | succ m =>
      have inside := (List.getElem?_eq_some_iff.mp here).1
      have before : chain[m]? = some chain[m] := List.getElem?_eq_getElem _
      have reads := listed.stored chain[m] (List.getElem_mem _)
      rw [if_neg (Nat.succ_ne_zero m), if_neg (Nat.succ_ne_zero m),
        listed.follows m _ _ before here, reads, Nat.add_sub_cancel, before]
      rfl

theorem Listed.getChildren {n : Nat} {block : Block} (here : chain[n]? = some block) :
    c.getChildren first block = .ok (chain[n + 1]?).toList := by
  rw [Chain.getChildren, listed.childHashes n block here]
  cases next : chain[n + 1]? with
  | none => rfl
  | some child =>
      have reads := listed.stored child (List.mem_of_getElem? next)
      simp only [Option.map_some, Option.toList_some, List.mapM_cons, reads, List.mapM_nil]
      rfl

omit listed in
theorem descend_nil (fuel : Nat) (output : List Block) :
    c.descend first fuel [] output = some (.ok output) := by
  cases fuel <;> rfl

theorem Listed.descend {n fuel : Nat} {block : Block} (here : chain[n]? = some block)
    (enough : chain.length - n ≤ fuel) (output : List Block) :
    c.descend first fuel [block] output = some (.ok (output ++ chain.drop n)) := by
  rcases List.getElem?_eq_some_iff.mp here with ⟨inside, rfl⟩
  induction fuel generalizing n output with
  | zero => omega
  | succ fuel ih =>
      simp only [Chain.descend, listed.getChildren here]
      rw [List.drop_eq_getElem_cons inside]
      cases next : chain[n + 1]? with
      | none =>
          have outside := List.getElem?_eq_none_iff.mp next
          rw [List.drop_eq_nil_of_le outside]
          exact descend_nil fuel _
      | some child =>
          rcases List.getElem?_eq_some_iff.mp next with ⟨inside', rfl⟩
          have later := ih (by omega) (output ++ [chain[n]]) inside' next
          rw [List.append_assoc, List.singleton_append] at later
          exact later

theorem Listed.getDescendants {n fuel : Nat} {block : Block} (here : chain[n]? = some block)
    (enough : chain.length - n ≤ fuel) :
    c.getDescendants first fuel block = some (.ok (chain.drop n)) :=
  listed.descend here enough []

theorem Listed.climb (max : Nat) {n : Nat} {block : Block} (here : chain[n + 1]? = some block) :
    c.climb first max block.header =
      .ok ((((chain.take (n + 1)).map fun block => block.header.hash).reverse).take max) := by
  induction max generalizing n block with
  | zero => rfl
  | succ max ih =>
      have inside := (List.getElem?_eq_some_iff.mp here).1
      have before : chain[n]? = some chain[n] := List.getElem?_eq_getElem _
      have reads := listed.stored chain[n] (List.getElem_mem _)
      have number := listed.numbered n _ before
      have taken : (((chain.take (n + 1)).map fun block => block.header.hash).reverse) =
          chain[n].header.hash ::
            ((chain.take n).map fun block => block.header.hash).reverse := by
        rw [List.take_succ_eq_append_getElem, List.map_append, List.reverse_append]
        rfl
      rw [taken, List.take_succ_cons]
      simp only [Chain.climb, listed.follows n _ _ before here, reads, bind, Except.bind, number]
      cases n with
      | zero =>
          rw [if_pos rfl, List.take_zero, List.map_nil, List.reverse_nil, List.take_nil]
          rfl
      | succ m =>
          rw [if_neg (Nat.succ_ne_zero m)]
          simp only [ih before]
          rfl

theorem Listed.getBlockhashesFromHash (max : Nat) {n : Nat} {block : Block}
    (here : chain[n + 1]? = some block) :
    c.getBlockhashesFromHash first block.header.hash max =
      .ok ((((chain.take (n + 1)).map fun block => block.header.hash).reverse).take max) := by
  have reads := listed.stored block (List.mem_of_getElem? here)
  simp only [Chain.getBlockhashesFromHash, reads, bind, Except.bind]
  exact listed.climb max here

theorem Listed.hasBlock (block : Block) : c.hasBlock first block = true ↔
    ∃ read, chain[block.header.number]? = some read ∧ read.header.hash = block.header.hash := by
  rw [Chain.hasBlock, getBlockByNumber, listed.indexed]
  cases here : chain[block.header.number]? with
  | none =>
      have missing : c.getBlock first none = .error ⟨.keyError, ""⟩ := rfl
      rw [Option.map_none, missing]
      simp only [Bool.false_eq_true, false_iff, not_exists, not_and]
      rintro read found
      cases found
  | some read =>
      have reads := listed.stored read (List.mem_of_getElem? here)
      rw [Option.map_some, reads]
      simp only [decide_eq_true_eq, Option.some.injEq, exists_eq_left']

end Listing

section Records

variable (identified : Identified D first blocks)

include identified

theorem Indexed.hashes (indexed : c.Indexed first blocks) :
    ((headersOf first blocks).map BlockHeader.hash).Nodup := by
  have numbers : ((headersOf first blocks).map BlockHeader.number).Nodup := by
    rw [headersOf, List.map_cons, List.map_map, List.nodup_cons]
    constructor
    · intro member
      rcases List.mem_map.mp member with ⟨block, known, same⟩
      rw [indexed.begins] at same
      exact indexed.number_ne_zero known same
    · have listed := indexed.numbers
      change (blocks.map fun block => block.header.number).Nodup
      rw [listed]
      exact List.nodup_range'
  rw [List.nodup_map_iff_inj_on numbers.of_map]
  intro h memberH k memberK same
  exact identified.header (identified.headers h memberH) (identified.headers k memberK) same

omit identified in
theorem Indexed.prevhash_at (indexed : c.Indexed first blocks) {n : Nat} {h : BlockHeader}
    {block : Block} (here : (headersOf first blocks)[n]? = some h)
    (next : blocks[n]? = some block) : block.header.prevhash = h.hash := by
  have after : (headersOf first blocks)[n + 1]? = some block.header := by
    rw [headersOf, List.getElem?_cons_succ, List.getElem?_map, next]
    rfl
  rcases List.getElem?_eq_some_iff.mp here with ⟨_, rfl⟩
  rcases List.getElem?_eq_some_iff.mp after with ⟨bound, same⟩
  have step := List.isChain_iff_getElem.mp indexed.linked n bound
  rw [← same]
  exact step.prevhash

omit identified in
theorem Indexed.prevhashes (indexed : c.Indexed first blocks) :
    (blocks.map fun block => block.header.prevhash) =
      ((headersOf first blocks).map BlockHeader.hash).take blocks.length := by
  apply List.ext_getElem?
  intro n
  rw [List.getElem?_map, List.getElem?_take, List.getElem?_map]
  cases next : blocks[n]? with
  | none =>
      have outside := List.getElem?_eq_none_iff.mp next
      rw [if_neg (by omega)]
      rfl
  | some block =>
      have inside := (List.getElem?_eq_some_iff.mp next).1
      have bound : n < (headersOf first blocks).length := by
        rw [headersOf_length]
        omega
      have here := List.getElem?_eq_getElem bound
      rw [if_pos inside, here, Option.map_some, Option.map_some, indexed.prevhash_at here next]

theorem Indexed.childHashes (indexed : c.Indexed first blocks)
    (noted : c.children = blocks.foldl noteChild ∅) {n : Nat} {h : BlockHeader}
    (here : (headersOf first blocks)[n]? = some h) :
    c.getChildHashes h.hash =
      ((headersOf first blocks)[n + 1]?.map BlockHeader.hash).toList := by
  have hashes := indexed.hashes identified
  have distinct : (blocks.map fun block => block.header.prevhash).Nodup := by
    rw [indexed.prevhashes]
    exact hashes.sublist (List.take_sublist _ _)
  have filled : c.children = Dict.update ∅
      (blocks.map fun block => (block.header.prevhash, [block.header.hash])) := by
    rw [noted, foldl_noteChild distinct]
    intro block _
    rfl
  rw [getChildHashes, filled, headersOf, List.getElem?_cons_succ, List.getElem?_map]
  cases next : blocks[n]? with
  | none =>
      have outside := List.getElem?_eq_none_iff.mp next
      rw [Dict.lookup_update_of_absent]
      · rfl
      · rintro row member same
        rcases List.mem_map.mp member with ⟨block, known, rfl⟩
        rcases List.mem_iff_getElem?.mp known with ⟨m, found⟩
        have inside := (List.getElem?_eq_some_iff.mp found).1
        have bound : m < (headersOf first blocks).length := by
          rw [headersOf_length]
          omega
        have before := List.getElem?_eq_getElem bound
        rw [indexed.prevhash_at before found] at same
        have same' : (headersOf first blocks)[m].hash = h.hash := same.symm
        have bound' : m < ((headersOf first blocks).map BlockHeader.hash).length := by
          rwa [List.length_map]
        have place : m = n := by
          apply (List.getElem?_inj bound' hashes).mp
          rw [List.getElem?_map, List.getElem?_map, before, here, Option.map_some,
            Option.map_some, same']
        omega
  | some block =>
      have keys : ((blocks.map fun block =>
          (block.header.prevhash, [block.header.hash])).map Prod.fst).Nodup := by
        rw [List.map_map]
        exact distinct
      have member := List.mem_map_of_mem
        (f := fun block : Block => (block.header.prevhash, [block.header.hash]))
        (List.mem_of_getElem? next)
      have looked := Dict.lookup_update_of_mem (∅ : AList fun _ : Bytes => List Bytes) keys member
      rw [← indexed.prevhash_at here next, looked]
      rfl

theorem Indexed.stored_readings (indexed : c.Indexed first blocks) (spent : c.Spent blocks)
    {block : Block} (member : block ∈ readings first blocks) :
    c.getBlock first (some block.header.hash) = .ok block := by
  have record := indexed.record identified
  rcases List.mem_cons.mp member with rfl | later
  · have found : c.blocks.lookup (genesisBlock first).header.hash = some none := record.1
    simp only [getBlock, Option.bind_some, found]
  · rcases List.mem_map.mp later with ⟨kept, known, rfl⟩
    have found : c.blocks.lookup kept.reread.header.hash = some (some kept) := record.2 kept known
    simp only [getBlock, Option.bind_some, found]
    exact decoded_block identified spent known

theorem Indexed.listed (indexed : c.Indexed first blocks) (spent : c.Spent blocks)
    (noted : c.children = blocks.foldl noteChild ∅) : c.Listed first (readings first blocks) := by
  have header {n : Nat} {block : Block} (here : (readings first blocks)[n]? = some block) :
      (headersOf first blocks)[n]? = some block.header := by
    rw [← readings_header, here]
    rfl
  refine ⟨?_, indexed.begins, ?_, ?_, fun block => indexed.stored_readings identified spent, ?_, ?_⟩
  · have length : (readings first blocks).length = blocks.length + 1 := readings_length
    have last := List.getLast?_eq_getElem? (l := readings first blocks)
    rw [length, Nat.add_sub_cancel, List.getElem?_eq_getElem (by omega)] at last
    have newest := header (List.getElem?_eq_getElem (by omega : blocks.length < _))
    rw [headersOf_newest] at newest
    refine ⟨_, last, ?_⟩
    rw [indexed.headHash, Option.some.inj newest]
  · intro n block here
    rw [linked_number indexed.linked (header here) rfl, indexed.begins, Nat.zero_add]
  · intro n
    rw [indexed.blockhash, ← readings_header, Option.map_map]
    rfl
  · intro n block next here after
    have bound := (List.getElem?_eq_some_iff.mp after).1
    rw [readings, List.getElem?_cons_succ, List.getElem?_map] at after
    rcases Option.map_eq_some_iff.mp after with ⟨kept, place, rfl⟩
    have unread : kept.reread.header.prevhash = kept.header.prevhash := rfl
    exact unread.trans (indexed.prevhash_at (header here) place)
  · intro n block here
    rw [indexed.childHashes identified noted (header here), ← readings_header, Option.map_map]
    rfl

theorem Indexed.containsHash (indexed : c.Indexed first blocks) (spent : c.Spent blocks)
    (noted : c.children = blocks.foldl noteChild ∅) (hash : Bytes) :
    c.containsHash first hash = true ↔ ∃ block ∈ blocks, block.header.hash = hash := by
  have record := indexed.record identified
  have listed := indexed.listed identified spent noted
  constructor
  · intro contained
    rw [Chain.containsHash] at contained
    split at contained
    · rename_i block found
      rw [indexed.stored] at found
      rcases Dict.mem_of_lookup_update found with member | genesis
      · rcases List.mem_map.mp member with ⟨kept, known, same⟩
        exact ⟨kept, known, congrArg Prod.fst same⟩
      · by_cases same : hash = first.hash
        · rw [same, AList.lookup_insert] at genesis
          cases genesis
        · rw [AList.lookup_insert_ne same] at genesis
          cases genesis
    · cases contained
  · rintro ⟨block, member, rfl⟩
    have decoded := decoded_block identified spent member
    rw [Chain.containsHash, record.2 block member]
    simp only [decoded]
    have place : block.reread ∈ readings first blocks :=
      List.mem_cons_of_mem _ (List.mem_map_of_mem member)
    rcases List.mem_iff_getElem?.mp place with ⟨n, here⟩
    have number : block.header.number = n := listed.numbered n block.reread here
    apply (listed.hasBlock _).mpr
    exact ⟨block.reread, number ▸ here, rfl⟩

end Records

/-- Whichever way the stored blocks are walked, the chain `chain` is met, in its order. -/
structure Walks (first : BlockHeader) (chain : List Block) (c : Chain S R) : Prop where
  head : c.getHeadBlock first = chain.getLast?
  upwards : ∀ frm upTo, c.getChain first frm upTo =
    .ok (if max (frm.getD 1) chain.length < upTo then some (chain.drop (frm.getD 1)) else none)
  parent : ∀ (n : Nat) (block : Block), chain[n]? = some block →
    c.getParent first block = .ok (if n = 0 then none else chain[n - 1]?)
  children : ∀ (n : Nat) (block : Block), chain[n]? = some block →
    c.getChildren first block = .ok (chain[n + 1]?).toList
  descendants : ∀ (n : Nat) (block : Block), chain[n]? = some block → ∀ fuel,
    chain.length - n ≤ fuel → c.getDescendants first fuel block = some (.ok (chain.drop n))
  backwards : ∀ (n : Nat) (block : Block), chain[n + 1]? = some block → ∀ max,
    c.getBlockhashesFromHash first block.header.hash max =
      .ok ((((chain.take (n + 1)).map fun block => block.header.hash).reverse).take max)
  blocks : ∀ block, c.hasBlock first block = true ↔
    ∃ read, chain[block.header.number]? = some read ∧ read.header.hash = block.header.hash
  hashes : ∀ hash, c.containsHash first hash = true ↔
    ∃ block ∈ chain.tail, block.header.hash = hash

end Chain

/-- The walks of a chain agree after any run of calls. -/
theorem walks_agree [Radix R Address] [TrieRoot] [Poststate] [StateRoot S] {g : GenesisData}
    {s₀ : State S} {rows : Cached} (genesis : stateFromGenesisDeclaration g = .ok (s₀, rows))
    (called : c.Called g blocks) (identified : Identified D
      (blockFromGenesisDeclaration g (StateRoot.stateRoot s₀.trie)) blocks) :
    c.Walks (blockFromGenesisDeclaration g (StateRoot.stateRoot s₀.trie))
      (readings (blockFromGenesisDeclaration g (StateRoot.stateRoot s₀.trie)) blocks) := by
  rcases called.indexed genesis with ⟨indexed, spent⟩
  have listed := indexed.listed identified spent called.children
  refine ⟨listed.getHeadBlock, listed.getChain, fun n block => listed.getParent,
    fun n block => listed.getChildren, fun n block here fuel => listed.getDescendants here,
    fun n block here max => listed.getBlockhashesFromHash max here, listed.hasBlock, ?_⟩
  intro hash
  rw [indexed.containsHash identified spent called.children]
  constructor
  · rintro ⟨block, member, same⟩
    exact ⟨block.reread, List.mem_map_of_mem member, same⟩
  · rintro ⟨read, member, same⟩
    rcases List.mem_map.mp member with ⟨block, known, rfl⟩
    exact ⟨block, known, same⟩

end Walking

namespace Sample.Recovered

open Sample (net6)

theorem walks_agree_one : ∃ c : Chain AddressRanges (PrefixTable Address),
    c.Called genesis [blockOf (give 1 (net6 0 48))] ∧
      c.Walks first (readings first [blockOf (give 1 (net6 0 48))]) := by
  rcases taken_plain with ⟨s₀, u, rows, r, c₀, c, built, -, started, -, added, -⟩
  have called : c.Called genesis [blockOf (give 1 (net6 0 48))] :=
    ((Chain.Reachable.start started).extend added).called
  have identified := identified_of_heads (a := 81) (b := 65) accepted_plain rfl
    (by decide +kernel) (by decide +kernel) (by decide) (by decide +kernel)
  have same : first = _ := founded_eq built
  rw [same] at identified ⊢
  exact ⟨c, called, walks_agree built called identified⟩

end Sample.Recovered

end IPchain
