import IPchain.Copies
import IPchain.Making
import IPchain.Restoring
import IPchain.Walks

/-! A chain that is opened again on the database and the file of prefixes that it left. -/

namespace IPchain

open Lib Platform

/-- The rows of a prefix tree. `search_best` of a stored prefix finds the row of that prefix. -/
class RadixNodes (R : Type) (D : outParam Type) [Radix R D] where
  nodes : R → List (IPNetwork × D)
  exact_iff : ∀ r m d, Radix.exact r m = some d ↔
    ∃ row ∈ nodes r, row.1.cidr = m.cidr ∧ row.2 = d

/-- What is left of a chain when its node stops. `headHash` is put by every accepted block, `trie`
has the records of the accounts, and `patricia` is the dictionary in the file. -/
structure ChainDb (S D : Type) where
  headHash : Option Bytes
  genesisState : FullSnapshot S
  genesis : BlockHeader
  blockIndex : AList fun _ : Nat => Bytes
  txIndex : AList fun _ : Bytes => Nat × Nat
  blocks : AList fun _ : Bytes => Option Block
  children : AList fun _ : Bytes => List Bytes
  trie : Store (RefcountDB D)
  patricia : Cached

theorem Lib.Radix.exact_addAll_of_mem {R D : Type} [Radix R D] {rows : List (IPNetwork × D)}
    {row : IPNetwork × D} (member : row ∈ rows) {m : IPNetwork} (same : m.cidr = row.1.cidr)
    (r s : R) : Radix.exact (Radix.addAll r rows) m = Radix.exact (Radix.addAll s rows) m := by
  induction rows generalizing r s row with
  | nil => cases member
  | cons head tail ih =>
      by_cases later : ∃ other ∈ tail, m.cidr = other.1.cidr
      · rcases later with ⟨other, listed, named⟩
        exact ih listed named _ _
      · rcases List.mem_cons.mp member with rfl | listed
        · have found (t : R) : Radix.exact (Radix.addAll t (row :: tail)) m = some row.2 := by
            rcases Radix.exact_addAll (Radix.add t row.1 row.2) tail m with
              ⟨earlier, other, rest, rfl, named, -⟩ | ⟨-, kept⟩
            · exact absurd ⟨other, by simp, named⟩ later
            · refine Eq.trans kept ?_
              rw [Radix.exact_add, if_pos same]
          rw [found, found]
        · exact absurd ⟨row, listed, same⟩ later

theorem Lib.Radix.exact_addAll_twice {R D : Type} [Radix R D] (r : R) (rows : List (IPNetwork × D))
    (m : IPNetwork) : Radix.exact (Radix.addAll (Radix.addAll r rows) rows) m =
      Radix.exact (Radix.addAll r rows) m := by
  rcases Radix.exact_addAll (Radix.addAll r rows) rows m with
    ⟨earlier, row, later, split, same, -⟩ | ⟨-, kept⟩
  · have member : row ∈ rows := by
      rw [split]
      exact List.mem_append_right _ List.mem_cons_self
    exact Radix.exact_addAll_of_mem member same _ _
  · exact kept

namespace PatriciaState

variable {R : Type} [Radix R Address]

/-- A prefix is never removed from the tree, so that the dictionary holds no older rows. -/
def toDb [RadixNodes R Address] (patricia : R) : Cached := Dict.update ∅ (RadixNodes.nodes patricia)

def fromDb [Platform] (dic : Cached) : R := setValues Radix.empty (cachedRows dic)

theorem exact_fromDb [Platform] [RadixNodes R Address] (patricia : R) (m : IPNetwork) :
    Radix.exact (fromDb (toDb patricia) : R) m = Radix.exact patricia m := by
  have stored {row : IPNetwork × Address} (member : row ∈ RadixNodes.nodes patricia)
      {n : IPNetwork} (same : row.1.cidr = n.cidr) : Radix.exact patricia n = some row.2 :=
    (RadixNodes.exact_iff patricia n row.2).mpr ⟨row, member, same, rfl⟩
  have spelled : Radix.Spelled (Dict.update ∅ (RadixNodes.nodes patricia)) := by
    apply Radix.spelled_update
    intro row member other member' same
    have found := stored member same
    rw [stored member' rfl] at found
    exact (Option.some.inj found).symm
  have perm : (cachedRows (toDb patricia)).Perm
      ((Dict.update ∅ (RadixNodes.nodes patricia)).entries.map fun row => (row.1, row.2)) :=
    Platform.items_perm _
  have same (n : IPNetwork) : Radix.exact (Radix.empty : R) n = Radix.exact Radix.empty n := rfl
  calc
    _ = Radix.exact (Radix.addAll Radix.empty (RadixNodes.nodes patricia)) m :=
      Radix.exact_addAll_update same perm spelled m
    _ = _ := by
      rcases Radix.exact_addAll (Radix.empty : R) (RadixNodes.nodes patricia) m with
        ⟨earlier, row, later, split, cidr, -, found⟩ | ⟨absent, found⟩
      · have member : row ∈ RadixNodes.nodes patricia := by
          rw [split]
          exact List.mem_append_right _ List.mem_cons_self
        rw [found, stored member cidr.symm]
      · rw [found, Radix.exact_empty]
        cases present : Radix.exact patricia m with
        | none => rfl
        | some d =>
            rcases (RadixNodes.exact_iff patricia m d).mp present with ⟨row, member, cidr, -⟩
            exact absurd cidr.symm (absent row member)

end PatriciaState

section Definitions

variable {S R D : Type} [IPSet S] [Radix R Address] [Platform]

/-- The loop over `header_depth + 1` blocks: their headers, the block it stopped at and how many
it had left. -/
def olderHeaders (blocks : AList fun _ : Bytes => Option Block) :
    Nat → BlockHeader → List PrevHeader × BlockHeader × Nat
  | 0, h => ([], h, 0)
  | left + 1, h =>
      match blocks.lookup h.prevhash with
      | some (some block) =>
          match block.decoded with
          | .ok b =>
              let (older, last, left) := olderHeaders blocks left b.header
              (.block h :: older, last, left)
          | .error _ => ([.block h], h, left)
      | _ => ([.block h], h, left)

namespace ChainDb

def readHeaders (db : ChainDb S D) (h : BlockHeader) : Except PyExc (List PrevHeader) :=
  match olderHeaders db.blocks (prevHeaderDepth + 1) h with
  | (headers, _, 0) => .ok headers
  | (headers, last, left) =>
      match db.blocks.lookup last.prevhash with
      | none => .error ⟨.keyError, ""⟩
      | some (some _) => .error ⟨.exception, "Dangling prevhash"⟩
      | some none => .ok (headers ++ db.genesisState.auxvars.prevHeaders.take left)

def mkPoststate [Pickle S] [Decoder] [Database D] (depth : Nat) (db : ChainDb S D)
    (blockhash : Bytes) : Except PyExc (State S) :=
  match db.blocks.lookup blockhash with
  | none => .error ⟨.exception, "Block hash " ++ hexText blockhash ++ " not found"⟩
  | some none => .ok (State.fromSnapshot db.genesisState)
  | some (some block) => do
      let block ← block.decoded
      let trie ← DbState.accountsAt db.trie block.header.stateRoot depth
      let prevHeaders ← db.readHeaders block.header
      pure {
        txindex := block.transactions.length
        blockNumber := block.header.number
        blockCoinbase := block.header.coinbase
        timestamp := block.header.timestamp
        prevHeaders := prevHeaders
        trie := trie
        cache := ∅
        journal := []
        undoable := by constructor <;> simp [Coherent] }

/-- A chain over the database, with the state `s` for its head. -/
def toChain (db : ChainDb S D) (s : State S) (patricia : R) (headHash : Bytes) : Chain S R where
  state := s
  patricia := patricia
  headHash := headHash
  blockIndex := db.blockIndex
  txIndex := db.txIndex
  blocks := db.blocks
  children := db.children
  timeQueue := []
  parentQueue := ∅

end ChainDb

namespace Chain

/-- `Chain(genesis, env)` on what is left of a chain. Without a head it starts from the
declaration, and puts the keys of the genesis again. -/
def reopen [StateRoot S] [Pickle S] [Decoder] [Database D] (depth : Nat) (g : GenesisData)
    (db : ChainDb S D) : Except PyExc (Chain S R) :=
  let patricia : R := PatriciaState.fromDb db.patricia
  match db.headHash with
  | none => do
      let (s, rows) ← stateFromGenesisDeclaration g
      match s.prevHeaders with
      | [] => .error ⟨.indexError, "list index out of range"⟩
      | header :: _ => do
          pyAssert (s.blockNumber = header.number)
          let db := { db with
            blockIndex := db.blockIndex.insert 0 header.hash
            blocks := db.blocks.insert header.hash none }
          pure (db.toChain s (PatriciaState.setValues patricia (cachedRows rows)) header.hash)
  | some headHash => do
      let s ← db.mkPoststate depth headHash
      match s.prevHeaders with
      | [] => .error ⟨.indexError, "list index out of range"⟩
      | header :: _ => do
          pyAssert (s.blockNumber = header.number)
          let c := db.toChain { s with txindex := 0 } patricia header.hash
          let _ ← c.getBlockByNumber db.genesis 0
          pure c

/-- What the chain leaves after the blocks, when it was started with the state `s₀`, and its states
have left the records `trie`. -/
def saved [TrieKeys S] [RadixNodes R Address] (s₀ : State S) (first : BlockHeader)
    (blocks : List Block) (trie : Store (RefcountDB D)) (c : Chain S R) : ChainDb S D where
  headHash := if blocks.isEmpty then none else some c.headHash
  genesisState := s₀.toSnapshot.1
  genesis := first
  blockIndex := c.blockIndex
  txIndex := c.txIndex
  blocks := c.blocks
  children := c.children
  trie := trie
  patricia := PatriciaState.toDb c.patricia

end Chain

end Definitions

section Walk

variable {S R : Type} [IPSet S] [Platform] {first : BlockHeader} {blocks : List Block}
  {c : Chain S R} {D : Set Bytes}

namespace Chain

def backwards (blocks : List Block) : List PrevHeader :=
  (blocks.map fun block => .block block.header).reverse

omit [Platform] in
theorem backwards_take {k : Nat} {block : Block} (here : blocks[k]? = some block) :
    backwards (blocks.take (k + 1)) = .block block.header :: backwards (blocks.take k) := by
  rw [backwards, List.take_add_one, here, List.map_append, List.reverse_append]
  rfl

omit [Platform] in
theorem backwards_length : (backwards blocks).length = blocks.length := by
  rw [backwards, List.length_reverse, List.length_map]

theorem Indexed.prevHeaders (indexed : c.Indexed first blocks) :
    c.state.prevHeaders = backwards blocks ++ [.block first] := by
  rw [indexed.headers, headersOf, List.map_cons, List.reverse_cons, List.map_map]
  rfl

theorem Indexed.olderHeaders_eq (indexed : c.Indexed first blocks) (spent : c.Spent blocks)
    (identified : Identified D first blocks) {k : Nat} {block : Block}
    (here : blocks[k]? = some block) (depth : Nat) : ∃ last,
      olderHeaders c.blocks depth block.header =
        ((backwards (blocks.take (k + 1))).take depth, last, depth - (k + 1)) ∧
          (k + 1 < depth → last.prevhash = first.hash) := by
  have record := indexed.record identified
  induction k generalizing block depth with
  | zero =>
      have before : (headersOf first blocks)[0]? = some first := rfl
      have prevhash := indexed.prevhash_at before here
      cases depth with
      | zero => exact ⟨_, rfl, fun more => absurd more (by omega)⟩
      | succ left =>
          refine ⟨block.header, ?_, fun _ => prevhash⟩
          rw [olderHeaders, prevhash, record.1, backwards_take here]
          simp [backwards]
  | succ k ih =>
      cases depth with
      | zero =>
          refine ⟨block.header, ?_, fun more => absurd more (by omega)⟩
          rw [olderHeaders, List.take_zero, Nat.zero_sub]
      | succ left =>
          rcases List.getElem?_eq_some_iff.mp here with ⟨bound, -⟩
          have place : ∃ parent, blocks[k]? = some parent :=
            ⟨_, List.getElem?_eq_getElem (Nat.lt_of_succ_lt bound)⟩
          rcases place with ⟨parent, place⟩
          have before : (headersOf first blocks)[k + 1]? = some parent.header := by
            rw [headersOf, List.getElem?_cons_succ, List.getElem?_map, place]
            rfl
          have member := List.mem_of_getElem? place
          have found : c.blocks.lookup block.header.prevhash = some (some parent) := by
            rw [indexed.prevhash_at before here]
            exact record.2 parent member
          have decoded := decoded_block identified spent member
          rcases ih place left with ⟨last, walked, stops⟩
          refine ⟨last, ?_, fun more => stops (by omega)⟩
          rw [olderHeaders, found]
          simp only [decoded, walked]
          rw [backwards_take here, List.take_succ_cons, Nat.add_sub_add_right]

variable {B : Type} [Radix R Address] [TrieKeys S] [RadixNodes R Address] {s₀ : State S}

theorem Indexed.readHeaders_saved (indexed : c.Indexed first blocks) (spent : c.Spent blocks)
    (identified : Identified D first blocks) (starts : s₀.prevHeaders = [.block first])
    {block : Block} (newest : blocks.getLast? = some block) (store : Store (RefcountDB B)) :
    ∃ older, (c.saved s₀ first blocks store).readHeaders block.header =
      .ok (.block block.header :: older) ∧
        (PrevHeader.block block.header :: older).map PrevHeader.reread =
          (c.state.prevHeaders.take (prevHeaderDepth + 1)).map PrevHeader.reread := by
  have record := indexed.record identified
  have nonempty : blocks ≠ [] := by
    rintro rfl
    cases newest
  have positive : 0 < blocks.length := List.length_pos_iff.mpr nonempty
  have here : blocks[blocks.length - 1]? = some block := by
    rwa [← List.getLast?_eq_getElem?]
  have whole : blocks.take (blocks.length - 1 + 1) = blocks :=
    List.take_of_length_le (by omega)
  rcases indexed.olderHeaders_eq spent identified here (prevHeaderDepth + 1) with
    ⟨last, walked, stops⟩
  have shape := backwards_take here
  rw [whole] at walked shape
  have kept : s₀.toSnapshot.1.auxvars.prevHeaders = [(PrevHeader.block first).reread] := by
    have auxvars := (s₀.alike_cacheAll (TrieKeys.keys s₀.trie)).auxvars
    have headers : (s₀.cacheAll (TrieKeys.keys s₀.trie)).prevHeaders = [.block first] :=
      (congrArg AuxVars.prevHeaders auxvars).trans starts
    have text : s₀.toSnapshot.1.auxvars.prevHeaders =
      ((s₀.cacheAll (TrieKeys.keys s₀.trie)).prevHeaders.take prevHeaderDepth).map
        PrevHeader.reread := rfl
    rw [text, headers]
    rfl
  have front : (backwards blocks).take (prevHeaderDepth + 1) = .block block.header ::
      (backwards (blocks.take (blocks.length - 1))).take prevHeaderDepth := by
    rw [shape, List.take_succ_cons]
  have read : (c.saved s₀ first blocks store).readHeaders block.header = .ok
      ((backwards blocks).take (prevHeaderDepth + 1) ++
        [(PrevHeader.block first).reread].take (prevHeaderDepth + 1 - blocks.length)) := by
    have walked' : olderHeaders (c.saved s₀ first blocks store).blocks (prevHeaderDepth + 1)
        block.header = ((backwards blocks).take (prevHeaderDepth + 1), last,
          prevHeaderDepth + 1 - (blocks.length - 1 + 1)) := walked
    have counted : blocks.length - 1 + 1 = blocks.length := by omega
    rw [counted] at walked'
    rw [ChainDb.readHeaders, walked']
    cases left : prevHeaderDepth + 1 - blocks.length with
    | zero =>
        rw [List.take_zero, List.append_nil]
        rfl
    | succ left =>
        have prevhash := stops (by omega)
        have found : (c.saved s₀ first blocks store).blocks.lookup last.prevhash = some none := by
          rw [prevhash]
          exact record.1
        simp only [found]
        rw [show (c.saved s₀ first blocks store).genesisState.auxvars.prevHeaders = _ from kept]
  rw [front, List.cons_append] at read
  refine ⟨_, read, ?_⟩
  rw [← List.cons_append, ← front, indexed.prevHeaders, List.take_append, backwards_length,
    List.map_append, List.map_append]
  congr 1
  cases prevHeaderDepth + 1 - blocks.length <;> rfl

end Chain

end Walk

section Twins

variable {S R : Type} [IPSet S] [Radix R Address] [Platform]

namespace Chain

/-- Two chains between calls. They may know another number of older headers, and one may have
only text of a header that the other has. -/
structure Twin (c d : Chain S R) : Prop where
  trie : d.state.trie = c.state.trie
  quiet : c.state.journal = [] ∧ d.state.journal = []
  number : d.state.blockNumber = c.state.blockNumber
  newest : ∃ h older k older', c.state.prevHeaders = h :: older ∧
    d.state.prevHeaders = k :: older' ∧ k.reread = h.reread ∧ h.hash = c.headHash
  headHash : d.headHash = c.headHash
  blockIndex : d.blockIndex = c.blockIndex
  txIndex : d.txIndex = c.txIndex
  blocks : d.blocks = c.blocks
  children : d.children = c.children
  prefixes : ∀ m, Radix.exact d.patricia m = Radix.exact c.patricia m
  orphanless : (∀ h, c.parentQueue.lookup h = none) ∧ ∀ h, d.parentQueue.lookup h = none

variable {c d : Chain S R}

theorem Twin.account (twin : Twin c d) : d.state.account = c.state.account := by
  funext a
  rw [d.state.account_eq_stored twin.quiet.2, c.state.account_eq_stored twin.quiet.1, twin.trie]

theorem Twin.lookup (twin : Twin c d) (x : IPAddress) :
    Radix.lookup d.patricia x = Radix.lookup c.patricia x := Radix.lookup_congr twin.prefixes x

theorem Twin.anchored (twin : Twin c d) : c.Anchored ∧ d.Anchored := by
  rcases twin.newest with ⟨h, older, k, older', headers, headers', same, headed⟩
  refine ⟨⟨⟨h, older, headers, headed⟩, twin.orphanless.1⟩, ⟨k, older', headers', ?_⟩,
    twin.orphanless.2⟩
  have hashes : k.reread.hash = h.reread.hash := congrArg PrevHeader.hash same
  rw [twin.headHash, ← headed]
  exact hashes

theorem Twin.alike (twin : Twin c d) {s t : State S} (alike : c.state.Alike s)
    (alike' : d.state.Alike t) (queue queue' : List Block) :
    Twin { c with state := s, timeQueue := queue } { d with state := t, timeQueue := queue' } := by
  rcases twin.newest with ⟨h, older, k, older', headers, headers', same, headed⟩
  have auxvars := alike.auxvars
  have auxvars' := alike'.auxvars
  refine ⟨?_, ⟨alike.journal.trans twin.quiet.1, alike'.journal.trans twin.quiet.2⟩, ?_,
    ⟨h, older, k, older', ?_, ?_, same, headed⟩, twin.headHash, twin.blockIndex, twin.txIndex,
    twin.blocks, twin.children, twin.prefixes, twin.orphanless⟩
  · exact alike'.trie.trans (twin.trie.trans alike.trie.symm)
  · have number : t.blockNumber = s.blockNumber := by
      rw [auxvars, auxvars', twin.number]
    exact number
  · exact (congrArg AuxVars.prevHeaders auxvars).trans headers
  · exact (congrArg AuxVars.prevHeaders auxvars').trans headers'

theorem Twin.based_iff [TrieRoot] (twin : Twin c d) (block : Block) :
    Based d.state.toAuxVars block ↔ Based c.state.toAuxVars block := by
  rcases twin.newest with ⟨h, older, k, older', headers, headers', same, -⟩
  have fields : k.hash = h.hash ∧ k.number = h.number ∧ k.timestamp = h.timestamp := by
    simpa [PrevHeader.reread] using same
  have follows (s : AuxVars) (h : PrevHeader) (older : List PrevHeader)
      (headers : s.prevHeaders = h :: older) : Follows s block.header ↔
        block.header.prevhash = h.hash ∧ block.header.number = h.number + 1 ∧
          h.timestamp < block.header.timestamp ∧ block.header.timestamp < 2 ^ 256 := by
    simp only [Follows, headers, List.cons.injEq]
    constructor
    · rintro ⟨_, _, ⟨rfl, rfl⟩, rest⟩
      exact rest
    · exact fun rest => ⟨h, older, ⟨rfl, rfl⟩, rest⟩
  rw [Based, Based, follows _ k older' headers', follows _ h older headers, fields.1, fields.2.1,
    fields.2.2]

theorem Twin.valid_iff [TrieRoot] (twin : Twin c d) (block : Block) :
    (∃ v, validateBlock block d.state = .ok true v) ↔
      ∃ v, validateBlock block c.state = .ok true v := by
  rw [validateBlock_ok_iff, validateBlock_ok_iff, twin.based_iff, twin.account]

theorem addBlock_declined [TrieRoot] [Poststate] {block : Block} {now : Nat} (depth : Nat)
    (declined : (∃ v, validateBlock block c.state = .ok true v) → now < block.header.timestamp) :
    ∃ c', addBlock now (depth + 1) block c = .ok false c' := by
  simp only [addBlock]
  cases validated : validateBlock block c.state with
  | error e s => exact ⟨_, rfl⟩
  | ok valid s =>
      cases validateBlock_returns validated
      simp only [if_pos (declined ⟨s, validated⟩)]
      exact ⟨_, rfl⟩

omit [Radix R Address] in
theorem applyBlock_fails [Radix R Address] [TrieRoot] {block : Block} {s : State S} {p : R}
    {e : PyExc} {r : State S × R} (quiet : s.journal = []) (based : Based s.toAuxVars block)
    (failed : applyBlock block (s, p) = .error e r) :
    ∃ u, applyTransactions block.transactions ∅ s = .error e u := by
  simp only [applyBlock] at failed
  cases processed : processBlock block s with
  | ok cached u =>
      rw [processed] at failed
      cases failed
  | error e' u =>
      rcases State.revert_snapshot s u quiet with ⟨v, reverted, -⟩
      have same : e' = e := by
        simp only [processed, reverted] at failed
        split at failed
        · cases failed
          rfl
        · cases failed
          rfl
      subst same
      rcases processBlock_eq_error.mp processed with refused | ⟨-, failed⟩
      · rcases basicValidation_cases block s with ⟨-, passed⟩ | ⟨stray, -⟩
        · rw [passed] at refused
          cases refused
        · exact absurd based stray
      · exact ⟨u, failed⟩

section Steps

variable [TrieRoot] [Poststate]

omit [TrieRoot] [Poststate] in
theorem Twin.extended (twin : Twin c d) {block : Block} {u v : State S} {cached : Cached}
    (quiet : u.journal = []) (quiet' : v.journal = []) (trie : v.trie = u.trie) :
    Twin (c.extended block (u.addBlockHeader block.header)
        (PatriciaState.setValues c.patricia (cachedRows cached)))
      (d.extended block (v.addBlockHeader block.header)
        (PatriciaState.setValues d.patricia (cachedRows cached))) where
  trie := trie
  quiet := ⟨quiet, quiet'⟩
  number := rfl
  newest := ⟨_, _, _, _, rfl, rfl, rfl, rfl⟩
  headHash := rfl
  blockIndex := by
    change d.blockIndex.insert _ _ = c.blockIndex.insert _ _
    rw [twin.blockIndex]
  txIndex := congrArg (indexTransactions block) twin.txIndex
  blocks := by
    change d.blocks.insert _ _ = c.blocks.insert _ _
    rw [twin.blocks]
  children := by
    change noteChild d.children block = noteChild c.children block
    rw [twin.children]
  prefixes m := Radix.addAll_congr twin.prefixes (cachedRows cached) m
  orphanless := twin.orphanless

omit [TrieRoot] [Poststate] in
theorem Twin.quiets (twin : Twin c d) {s t : State S} (alike : c.state.Alike s)
    (alike' : d.state.Alike t) : s.journal = [] ∧ t.journal = [] ∧ s.trie = t.trie :=
  ⟨alike.journal.trans twin.quiet.1, alike'.journal.trans twin.quiet.2,
    alike.trie.trans (twin.trie.symm.trans alike'.trie.symm)⟩

omit [Poststate] in
theorem Twin.applied (twin : Twin c d) {s t u : State S} {p : R} {block : Block}
    (alike : c.state.Alike s) (alike' : d.state.Alike t)
    (applied : applyBlock block (s, c.patricia) = .ok () (u, p)) :
    ∃ v q, applyBlock block (t, d.patricia) = .ok () (v, q) ∧
      Twin (c.extended block u p) (d.extended block v q) := by
  rcases twin.quiets alike alike' with ⟨quiet, quiet', same⟩
  rcases applyBlock_eq_ok.mp applied with ⟨based, cached, u, loop, rfl, rfl⟩
  rcases applyTransactions_trie quiet quiet' same loop with ⟨v, loop', trie, after⟩
  have based' : Based t.toAuxVars block := by
    rw [alike'.auxvars, twin.based_iff, ← alike.auxvars]
    exact based
  exact ⟨_, _, applyBlock_eq_ok.mpr ⟨based', cached, v, loop', rfl, rfl⟩,
    twin.extended (applyTransactions_quiet loop quiet) after trie⟩

omit [Poststate] in
theorem Twin.failed (twin : Twin c d) {s t : State S} {r : State S × R} {e : PyExc} {block : Block}
    (alike : c.state.Alike s) (alike' : d.state.Alike t) (based : Based c.state.toAuxVars block)
    (failed : applyBlock block (s, c.patricia) = .error e r) :
    ∃ r', applyBlock block (t, d.patricia) = .error e r' := by
  rcases twin.quiets alike alike' with ⟨quiet, quiet', same⟩
  have still : Based s.toAuxVars block := by rwa [alike.auxvars]
  have still' : Based t.toAuxVars block := by rwa [alike'.auxvars, twin.based_iff]
  rcases applyBlock_fails quiet still failed with ⟨u, loop⟩
  rcases applyTransactions_trie_error quiet quiet' same loop with ⟨v, loop'⟩
  cases run : applyBlock block (t, d.patricia) with
  | ok _ r' =>
      rcases applyBlock_eq_ok.mp run with ⟨-, cached, w, again, -⟩
      rw [loop'] at again
      cases again
  | error e' r' =>
      rcases applyBlock_fails quiet' still' run with ⟨w, again⟩
      rw [loop'] at again
      cases again
      exact ⟨r', rfl⟩

theorem Twin.addBlock_mirrors (twin : Twin c d) (block : Block) (now depth : Nat) :
    Mirrors (fun _ => True) (fun d c => Twin c d) (addBlock now depth block)
      (addBlock now depth block) d c := by
  intro _
  cases depth with
  | zero => exact ⟨d, rfl⟩
  | succ depth =>
      have outcome := addBlock_outcome twin.anchored.1 block now depth
      have outcome' := addBlock_outcome twin.anchored.2 block now depth
      by_cases early : (∃ v, validateBlock block c.state = .ok true v) →
        now < block.header.timestamp
      · have early' := early
        rw [← twin.valid_iff] at early'
        rcases addBlock_declined depth early with ⟨c', declined⟩
        rcases addBlock_declined depth early' with ⟨d', declined'⟩
        rw [declined] at outcome
        rw [declined'] at outcome'
        rw [declined, declined']
        cases outcome with
        | refused s queue alike =>
            cases outcome' with
            | refused t queue' alike' => exact ⟨_, rfl, twin.alike alike alike' queue queue'⟩
      · have early' := early
        rw [← twin.valid_iff] at early'
        rcases Classical.not_imp.mp early with ⟨accepted, -⟩
        have based := (validateBlock_ok_iff.mp accepted).2.1
        cases run : addBlock now (depth + 1) block c with
        | ok added c' =>
            rw [run] at outcome
            cases outcome with
            | refused s queue alike stops => exact absurd stops early
            | added s alike applied =>
                cases run' : addBlock now (depth + 1) block d with
                | ok added' d' =>
                    rw [run'] at outcome'
                    cases outcome' with
                    | refused t queue alike' stops => exact absurd stops early'
                    | added t alike' applied' =>
                        rcases twin.applied alike alike' applied with ⟨v, q, again, next⟩
                        rw [applied'] at again
                        cases again
                        exact ⟨_, rfl, next⟩
                | error e d' =>
                    rw [run'] at outcome'
                    cases outcome' with
                    | failed t alike' raises =>
                        rcases twin.applied alike alike' applied with ⟨v, q, again, -⟩
                        rw [raises] at again
                        cases again
        | error e c' =>
            rw [run] at outcome
            cases outcome with
            | failed s alike raises =>
                cases run' : addBlock now (depth + 1) block d with
                | ok added' d' =>
                    rw [run'] at outcome'
                    cases outcome' with
                    | refused t queue alike' stops => exact absurd stops early'
                    | added t alike' applied' =>
                        rcases twin.failed alike alike' based raises with ⟨r, again⟩
                        rw [applied'] at again
                        cases again
                | error e' d' =>
                    rw [run'] at outcome'
                    cases outcome' with
                    | failed t alike' raises' =>
                        rcases twin.failed alike alike' based raises with ⟨r, again⟩
                        rw [raises'] at again
                        cases again
                        exact ⟨_, rfl⟩

end Steps

inductive Request where
  | addBlock (block : Block) (now depth : Nat)
  | getBalance (a : Address)
  | getNonce (a : Address)
  | getValue (x : IPAddress)
  | head
  | getBlock (hash : Bytes)
  | getBlockByNumber (number : Nat)
  | getTransaction (hash : Bytes)
  | getChildren (block : Block)

inductive Reply (S : Type) where
  | added (b : Bool)
  | balance (b : Balance S)
  | nonce (n : Nat)
  | address (a : Except PyExc Address)
  | head (block : Option Block)
  | block (block : Except PyExc Block)
  | transaction (place : Except PyExc (Transaction × Block × Nat))
  | children (blocks : Except PyExc (List Block))

variable [TrieRoot] [Poststate]

def ask (first : BlockHeader) : Request → EStateM PyExc (Chain S R) (Reply S)
  | .addBlock block now depth => do
      let b ← addBlock now depth block
      return .added b
  | .getBalance a => fun c =>
      .ok (.balance (c.state.getBalance a).1) { c with state := (c.state.getBalance a).2 }
  | .getNonce a => fun c =>
      .ok (.nonce (c.state.getNonce a).1) { c with state := (c.state.getNonce a).2 }
  | .getValue x => fun c => .ok (.address (PatriciaState.getValue c.patricia x)) c
  | .head => fun c => .ok (.head (c.getHeadBlock first)) c
  | .getBlock hash => fun c => .ok (.block (c.getBlock first (some hash))) c
  | .getBlockByNumber number => fun c => .ok (.block (c.getBlockByNumber first number)) c
  | .getTransaction hash => fun c => .ok (.transaction (c.getTransaction first hash)) c
  | .getChildren block => fun c => .ok (.children (c.getChildren first block)) c

omit [TrieRoot] [Poststate] in
theorem Twin.getBlock (twin : Twin c d) (first : BlockHeader) (hash : Option Bytes) :
    d.getBlock first hash = c.getBlock first hash := by
  rw [Chain.getBlock, Chain.getBlock, twin.blocks]

omit [TrieRoot] [Poststate] in
theorem Twin.getBlockByNumber (twin : Twin c d) (first : BlockHeader) (number : Nat) :
    d.getBlockByNumber first number = c.getBlockByNumber first number := by
  rw [Chain.getBlockByNumber, Chain.getBlockByNumber, twin.getBlock, getBlockhashByNumber,
    getBlockhashByNumber, twin.blockIndex]

omit [TrieRoot] [Poststate] in
theorem Twin.getValue (twin : Twin c d) (x : IPAddress) :
    PatriciaState.getValue d.patricia x = PatriciaState.getValue c.patricia x := by
  have found := twin.lookup x
  simp only [Radix.lookup] at found
  simp only [PatriciaState.getValue]
  cases here : Radix.best c.patricia x with
  | none =>
      rw [here, Option.map_none, Option.map_eq_none_iff] at found
      rw [found]
  | some row =>
      rw [here, Option.map_some, Option.map_eq_some_iff] at found
      rcases found with ⟨row', there, same⟩
      simp only [there, same]

theorem Twin.ask_mirrors (twin : Twin c d) (first : BlockHeader) (request : Request) :
    Mirrors (fun _ => True) (fun d c => Twin c d) (ask first request) (ask first request) d c := by
  have steady : ∀ b : Bool, Advances (fun _ _ => True)
      (pure (.added b) : EStateM PyExc (Chain S R) (Reply S)) := fun _ _ => trivial
  have read (a : Address) : Twin { c with state := (c.state.getAndCacheAccount a).2 }
      { d with state := (d.state.getAndCacheAccount a).2 } :=
    twin.alike (c.state.alike_read a) (d.state.alike_read a) c.timeQueue d.timeQueue
  have still {answer answer' : Reply S} (same : answer = answer') :
      Mirrors (fun _ => True) (fun d c => Twin c d)
        (fun d => .ok answer d : EStateM PyExc (Chain S R) (Reply S))
        (fun c => .ok answer' c) d c :=
    fun _ => ⟨d, by rw [same], twin⟩
  cases request with
  | addBlock block now depth =>
      exact Mirrors.bind (fun _ _ _ _ => trivial) steady (twin.addBlock_mirrors block now depth)
        fun b d c _ _ twin => Mirrors.pure _ twin
  | getBalance a =>
      have same : (d.state.getBalance a).1 = (c.state.getBalance a).1 := by
        rw [State.getBalance_fst, State.getBalance_fst, twin.account]
      intro _
      refine ⟨{ d with state := (d.state.getBalance a).2 }, ?_, read a⟩
      simp only [ask, same]
  | getNonce a =>
      have same : (d.state.getNonce a).1 = (c.state.getNonce a).1 := by
        rw [State.getNonce_fst, State.getNonce_fst, twin.account]
      intro _
      refine ⟨{ d with state := (d.state.getNonce a).2 }, ?_, read a⟩
      simp only [ask, same]
  | getValue x => exact still (congrArg Reply.address (twin.getValue x))
  | head =>
      have same : d.getHeadBlock first = c.getHeadBlock first := by
        rw [getHeadBlock, getHeadBlock, twin.getBlock, twin.headHash]
      exact still (congrArg Reply.head same)
  | getBlock hash => exact still (congrArg Reply.block (twin.getBlock first _))
  | getBlockByNumber number =>
      exact still (congrArg Reply.block (twin.getBlockByNumber first number))
  | getTransaction hash =>
      have position : d.getTxPosition hash = c.getTxPosition hash := by
        rw [getTxPosition, getTxPosition, twin.txIndex]
      have same : d.getTransaction first hash = c.getTransaction first hash := by
        simp only [Chain.getTransaction, position, twin.getBlockByNumber]
      exact still (congrArg Reply.transaction same)
  | getChildren block =>
      have same : d.getChildren first block = c.getChildren first block := by
        simp only [Chain.getChildren, getChildHashes, twin.children, twin.getBlock]
      exact still (congrArg Reply.children same)

theorem Twin.run_mirrors (twin : Twin c d) (first : BlockHeader) (requests : List Request) :
    Mirrors (fun _ => True) (fun d c => Twin c d) (requests.mapM (ask first))
      (requests.mapM (ask first)) d c := by
  have steady (request : Request) : Advances (fun _ _ => True)
      (ask first request : EStateM PyExc (Chain S R) (Reply S)) := fun _ => trivial
  have order : IsPreorder (Chain S R) fun _ _ => True :=
    { refl := fun _ => trivial, trans := fun _ _ _ _ _ => trivial }
  exact Mirrors.mapM (r := fun _ _ => True) (fun _ _ _ _ => trivial) steady
    (fun request _ d c twin => twin.ask_mirrors first request) twin

end Chain

end Twins

section Restart

variable {S R B : Type} [IPSet S] [Radix R Address] [Platform] [TrieRoot] [Poststate] [StateRoot S]
  {g : GenesisData} {blocks : List Block} {c : Chain S R} {s₀ : State S} {rows : Cached}
  {D : Set Bytes} {store : Store (RefcountDB B)} {depth : Nat}

namespace Chain

theorem Reachable.unextended (genesis : stateFromGenesisDeclaration g = .ok (s₀, rows))
    (reachable : c.Reachable g blocks) : blocks = [] → s₀.Alike c.state ∧
      c.patricia = PatriciaState.setValues Radix.empty (cachedRows rows) := by
  apply reachable.invariant (P := fun blocks c => blocks = [] → s₀.Alike c.state ∧
    c.patricia = PatriciaState.setValues Radix.empty (cachedRows rows))
  · intro c built _
    rcases init_spec built with ⟨s, rows', header, genesis', -, rfl⟩
    rw [genesis] at genesis'
    cases genesis'
    exact ⟨⟨rfl, rfl, rfl, rfl⟩, rfl⟩
  · intro blocks c block s t p _ _ _ _ none
    exact absurd none (List.append_ne_nil_of_right_ne_nil _ (List.cons_ne_nil _ _))
  · intro blocks c s queue before alike none
    rcases before none with ⟨alike', rows⟩
    exact ⟨⟨alike.account.trans alike'.account, alike.trie.trans alike'.trie,
      alike.auxvars.trans alike'.auxvars, alike.journal.trans alike'.journal⟩, rows⟩

variable [TrieKeys S] [RadixNodes R Address] [Pickle S] [Decoder] [Database B]

theorem Reachable.twin_start (genesis : stateFromGenesisDeclaration g = .ok (s₀, rows))
    (reachable : c.Reachable g []) (depth : Nat) (store : Store (RefcountDB B)) :
    ∃ d : Chain S R, reopen depth g (c.saved s₀
        (blockFromGenesisDeclaration g (StateRoot.stateRoot s₀.trie)) [] store) =
          .ok d ∧ Twin c d ∧ d.state.prevHeaders = c.state.prevHeaders := by
  rcases reachable.called.indexed genesis with ⟨indexed, -⟩
  rcases reachable.unextended genesis rfl with ⟨alike, tree⟩
  rcases genesis_headers genesis with ⟨headers, number⟩
  have sane := reachable.sane
  have still : c.state.prevHeaders = s₀.prevHeaders := congrArg AuxVars.prevHeaders alike.auxvars
  have quiet : s₀.journal = [] := alike.journal.symm.trans sane.quiet
  have head : (newest (blockFromGenesisDeclaration g (StateRoot.stateRoot s₀.trie)) []) =
    blockFromGenesisDeclaration g (StateRoot.stateRoot s₀.trie) := rfl
  have index : c.blockIndex.insert 0
      (blockFromGenesisDeclaration g (StateRoot.stateRoot s₀.trie)).hash = c.blockIndex := by
    rw [indexed.blockIndex]
    exact AList.insert_insert ∅
  have records : c.blocks.insert
      (blockFromGenesisDeclaration g (StateRoot.stateRoot s₀.trie)).hash none = c.blocks := by
    rw [indexed.stored]
    exact AList.insert_insert ∅
  simp only [reopen, saved, List.isEmpty_nil, if_true, genesis, bind, Except.bind, headers, number]
  refine ⟨_, rfl, ?_, ?_⟩
  · refine ⟨alike.trie.symm, ⟨sane.quiet, quiet⟩, ?_, ⟨_, [], _, [], still.trans headers, headers,
      rfl, ?_⟩, ?_, ?_, rfl, ?_, rfl, ?_, ⟨sane.orphanless, fun _ => rfl⟩⟩
    · exact (congrArg AuxVars.blockNumber alike.auxvars).symm
    · rw [indexed.headHash, head]
      rfl
    · rw [indexed.headHash, head]
      rfl
    · exact index
    · exact records
    · intro m
      calc
        _ = Radix.exact (Radix.addAll c.patricia (cachedRows rows)) m :=
          Radix.addAll_congr (PatriciaState.exact_fromDb c.patricia) (cachedRows rows) m
        _ = Radix.exact c.patricia m := by
          rw [tree]
          exact Radix.exact_addAll_twice _ _ m
  · exact still.symm

section Head

variable {first : BlockHeader} {block : Block} (indexed : c.Indexed first blocks)
  (spent : c.Spent blocks) (identified : Identified D first blocks)
  (starts : s₀.prevHeaders = [.block first]) (last : blocks.getLast? = some block)
  (kept : DbState.accountsAt store block.header.stateRoot depth = .ok c.state.trie)

include indexed spent identified starts last kept

omit [TrieRoot] [Poststate] [StateRoot S] in
theorem Indexed.mkPoststate_saved : ∃ (s : State S) (older : List PrevHeader),
    (c.saved s₀ first blocks store).mkPoststate depth block.header.hash = .ok s ∧ s.trie = c.state.trie ∧
      s.journal = [] ∧ s.blockNumber = block.header.number ∧
      s.prevHeaders = .block block.header :: older ∧ s.prevHeaders.map PrevHeader.reread =
        (c.state.prevHeaders.take (prevHeaderDepth + 1)).map PrevHeader.reread := by
  have member := List.mem_of_getLast? last
  have found : (c.saved s₀ first blocks store).blocks.lookup block.header.hash = some (some block) :=
    (indexed.record identified).2 block member
  have decoded := decoded_block identified spent member
  rcases indexed.readHeaders_saved spent identified starts last store with ⟨older, read, headers⟩
  have below : DbState.accountsAt (c.saved s₀ first blocks store).trie block.header.stateRoot depth =
    .ok c.state.trie := kept
  simp only [ChainDb.mkPoststate, found, decoded, below, read, bind, Except.bind]
  exact ⟨_, older, rfl, rfl, rfl, rfl, rfl, headers⟩

omit [TrieRoot] [Poststate] in
theorem Indexed.twin_head (sane : c.Sane) : ∃ d : Chain S R,
    reopen depth g (c.saved s₀ first blocks store) = .ok d ∧ Twin c d ∧
      d.state.prevHeaders.map PrevHeader.reread =
        (c.state.prevHeaders.take (prevHeaderDepth + 1)).map PrevHeader.reread := by
  rcases indexed.mkPoststate_saved spent identified starts last kept with
    ⟨s, older, post, trie, quiet, numbered, newest, headers⟩
  rcases List.getLast?_eq_some_iff.mp last with ⟨earlier, rfl⟩
  have front : c.state.prevHeaders =
      .block block.header :: (backwards earlier ++ [.block first]) := by
    rw [indexed.prevHeaders, backwards, List.map_append, List.reverse_append]
    rfl
  have headHash : c.headHash = block.header.hash := by
    rw [indexed.headHash, newest_append]
  have number : c.state.blockNumber = block.header.number := by
    rw [indexed.number, ← indexed.newest_number, newest_append]
  have head : (c.saved s₀ first (earlier ++ [block]) store).headHash = some block.header.hash := by
    have some : (earlier ++ [block]).isEmpty = false := by simp
    rw [saved, some, headHash]
    rfl
  have checked : pyAssert (s.blockNumber = (PrevHeader.block block.header).number) = .ok () :=
    if_pos (decide_eq_true numbered)
  have zero (t : State S) (p : R) (hash : Bytes) :
      ((c.saved s₀ first (earlier ++ [block]) store).toChain t p hash).getBlockByNumber first 0 =
        .ok (genesisBlock first) := by
    have here := indexed.getBlockByNumber_zero identified
    exact here
  have genesisHeader : (c.saved s₀ first (earlier ++ [block]) store).genesis = first := rfl
  refine ⟨(c.saved s₀ first (earlier ++ [block]) store).toChain { s with txindex := 0 }
    (PatriciaState.fromDb (PatriciaState.toDb c.patricia)) block.header.hash, ?_, ?_, headers⟩
  · simp only [reopen, head, post, newest, bind, Except.bind, checked, genesisHeader, zero]
    rfl
  · refine ⟨trie, ⟨sane.quiet, quiet⟩, numbered.trans number.symm, ⟨_, _, _, older, front, newest,
      rfl, headHash.symm⟩, headHash.symm, rfl, rfl, rfl, rfl, ?_, ⟨sane.orphanless, fun _ => rfl⟩⟩
    exact PatriciaState.exact_fromDb c.patricia

end Head

variable [Forgets B] [Dictionary B] {U : Set Bytes} {known : Set Address} {e : DbState S B}
  {root : Bytes} {head : Bool}

/-- Calls on a state over the database come to the accounts of a chain, whose calls those of its
blocks are. When they have been made and the newest block carries the root that they came to, the
chain that is opened again has the accounts, the head, the newest 257 headers and the prefixes of
the running one. From then on both give the same answers, whatever is asked of them and whatever
blocks come. -/
theorem restart_invisible (genesis : stateFromGenesisDeclaration g = .ok (s₀, rows))
    (reachable : c.Reachable g blocks) (identified : Identified D
      (blockFromGenesisDeclaration g (StateRoot.stateRoot s₀.trie)) blocks) :
    (∃ calls, ∃ s : State S, s.Leads calls ∧ s.trie = c.state.trie) ∧
    ∀ (calls : List (Access S)) (s : State S), s.Leads calls → s.trie = c.state.trie →
      DbState.init store root head = .ok e → root = [] ∨ root = MerkleTrie.blankRoot →
      (∀ access ∈ calls, access.Names known) →
      let left := (finish (Session.run DbState.interface calls ⟨e, []⟩)).state
      DbState.Trusted U known e left →
      (∀ block, blocks.getLast? = some block → block.header.stateRoot = left.trie.rootHash) →
      ∃ enough, ∀ depth, enough ≤ depth → ∃ d : Chain S R,
        reopen depth g (c.saved s₀ (blockFromGenesisDeclaration g (StateRoot.stateRoot s₀.trie))
          blocks left.trie.toStore) = .ok d ∧
        d.state.account = c.state.account ∧ d.state.blockNumber = c.state.blockNumber ∧
        d.headHash = c.headHash ∧ d.state.prevHeaders.map PrevHeader.reread =
          (c.state.prevHeaders.take (prevHeaderDepth + 1)).map PrevHeader.reread ∧
        (∀ x, Radix.lookup d.patricia x = Radix.lookup c.patricia x) ∧
        ∀ requests : List Request,
          outcome (requests.mapM (ask
              (blockFromGenesisDeclaration g (StateRoot.stateRoot s₀.trie))) d) =
            outcome (requests.mapM (ask
              (blockFromGenesisDeclaration g (StateRoot.stateRoot s₀.trie))) c) := by
  refine ⟨reachable.leads, ?_⟩
  intro calls s leads same opened empty named left trusted rooted
  rcases DbState.accountsAt_run opened empty named leads trusted with ⟨enough, read⟩
  refine ⟨enough, ?_⟩
  intro depth deep
  have whole : ∃ d : Chain S R, reopen depth g (c.saved s₀
      (blockFromGenesisDeclaration g (StateRoot.stateRoot s₀.trie)) blocks left.trie.toStore) =
        .ok d ∧ Twin c d ∧ d.state.prevHeaders.map PrevHeader.reread =
          (c.state.prevHeaders.take (prevHeaderDepth + 1)).map PrevHeader.reread := by
    rcases reachable.called.indexed genesis with ⟨indexed, spent⟩
    cases last : blocks.getLast? with
    | none =>
        rw [List.getLast?_eq_none_iff] at last
        subst last
        rcases reachable.twin_start genesis depth left.trie.toStore with ⟨d, opened, twin, headers⟩
        refine ⟨d, opened, twin, ?_⟩
        rw [headers, indexed.prevHeaders]
        rfl
    | some block =>
        apply indexed.twin_head spent identified (genesis_headers genesis).1 last _ reachable.sane
        rw [rooted block last, ← same]
        exact read depth deep
  rcases whole with ⟨d, opened, twin, headers⟩
  exact ⟨d, opened, twin.account, twin.number, twin.headHash, headers, twin.lookup,
    fun requests => (twin.run_mirrors _ requests).outcome_eq trivial⟩

end Chain

end Restart

section Rows

variable {D : Type}

def Lib.PrefixTable.visible : List (IPNetwork × D) → List (IPNetwork × D)
  | [] => []
  | row :: older => row :: (visible older).filter fun other => other.1.cidr ≠ row.1.cidr

theorem Lib.PrefixTable.exactRow_eq_some {rows : List (IPNetwork × D)} {m : IPNetwork} {d : D} :
    exactRow m rows = some d ↔ ∃ row ∈ visible rows, row.1.cidr = m.cidr ∧ row.2 = d := by
  induction rows with
  | nil => simp [exactRow, visible]
  | cons row older ih =>
      rcases row with ⟨n, e⟩
      simp only [exactRow, visible, List.exists_mem_cons_iff, List.mem_filter]
      by_cases same : m.cidr = n.cidr
      · rw [if_pos same]
        constructor
        · intro found
          exact Or.inl ⟨same.symm, Option.some.inj found⟩
        · rintro (⟨-, rfl⟩ | ⟨row, ⟨-, other⟩, named, -⟩)
          · rfl
          · exact absurd (named.trans same) (of_decide_eq_true other)
      · rw [if_neg same, ih]
        constructor
        · rintro ⟨row, member, named, value⟩
          refine Or.inr ⟨row, ⟨member, decide_eq_true ?_⟩, named, value⟩
          exact fun again => same (named.symm.trans again)
        · rintro (⟨named, -⟩ | ⟨row, ⟨member, -⟩, named, value⟩)
          · exact absurd named.symm same
          · exact ⟨row, member, named, value⟩

instance prefixNodes : RadixNodes (PrefixTable D) D where
  nodes r := PrefixTable.visible r.rows
  exact_iff _ _ _ := PrefixTable.exactRow_eq_some

end Rows

namespace Sample.Recovered

open Sample (carol net6 owns)

def trieAfter : Accounts AddressRanges :=
  match stateFromGenesisDeclaration genesis with
  | .error _ => ∅
  | .ok (s, _) =>
      match applyTransaction { give 1 (net6 0 48) with cachedSender := some (owner 1) } ∅ s with
      | .error _ _ => ∅
      | .ok _ u => u.trie

def settling : List (Access AddressRanges) :=
  [.setBalance (owner 1) Balance.blank, .incrementNonce (owner 1),
    .setBalance (owner 2) (owning ambiguous), .setBalance carol (owning (net6 0 48)), .commit]

def holders : List Address := [owner 1, owner 2, carol]

def stored : DbState AddressRanges EphemDB :=
  (finish (Session.run DbState.interface settling ⟨opening, []⟩)).state

theorem settling_leads : ∃ s : State AddressRanges, s.Leads settling ∧ s.trie = trieAfter := by
  have passes : RunPasses (Session.run State.interface settling ⟨State.initial, []⟩)
      (fun _ s => decide (s.state.trie = trieAfter)) = true := by
    decide +kernel
  rcases runPasses_iff.mp passes with ⟨answers, s, ran, same⟩
  exact ⟨s.state, ⟨answers, s.snapshots, ran⟩, of_decide_eq_true same⟩

theorem settling_names : ∀ access ∈ settling, access.Names {a | a ∈ holders} := by
  simp [settling, holders, Access.Names]

theorem stored_trusted : DbState.Trusted {v | v ∈ heard holders stored} {a | a ∈ holders} opening
    stored ∧ (blockOf (give 1 (net6 0 48))).header.stateRoot = stored.trie.rootHash := by
  have tested : Distinct ([] :: (heard holders stored).dedup) ∧ stored.trie.puts.length < 2 ^ 32 ∧
      (blockOf (give 1 (net6 0 48))).header.stateRoot = stored.trie.rootHash := by
    decide +kernel
  rcases tested with ⟨distinct, few, root⟩
  exact ⟨trusted_opening distinct few (refl_of DbState.Grows stored), root⟩

theorem restart_invisible_one : ∃ (s₀ : State AddressRanges) (depth : Nat)
    (c d : Chain AddressRanges (PrefixTable Address)),
    c.Reachable genesis [blockOf (give 1 (net6 0 48))] ∧
      Chain.reopen depth genesis
        (c.saved s₀ first [blockOf (give 1 (net6 0 48))] stored.trie.toStore) = .ok d ∧
      d.state.account = c.state.account ∧ d.headHash = c.headHash ∧
      ∀ requests : List Chain.Request,
        outcome (requests.mapM (Chain.ask first) d) =
          outcome (requests.mapM (Chain.ask first) c) := by
  rcases taken_plain with ⟨s₀, u, rows, r, c₀, c, built, applied, started, -, added, left⟩
  have reachable : c.Reachable genesis [blockOf (give 1 (net6 0 48))] :=
    (Chain.Reachable.start started).extend added
  have trie : c.state.trie = trieAfter := by
    rw [left, trieAfter, built]
    simp only [applied]
  have same : first = _ := Sample.founded_eq built
  have identified := identified_of_heads (a := 81) (b := 65) accepted_plain rfl
    (by decide +kernel) (by decide +kernel) (by decide) (by decide +kernel)
  rw [same] at identified ⊢
  rcases settling_leads with ⟨s, leads, led⟩
  rcases stored_trusted with ⟨trusted, root⟩
  unfold stored at trusted root ⊢
  have rooted : ∀ block, [blockOf (give 1 (net6 0 48))].getLast? = some block →
      block.header.stateRoot =
        (finish (Session.run DbState.interface settling ⟨opening, []⟩)).state.trie.rootHash := by
    intro block last
    rw [← Option.some.inj last]
    exact root
  rcases (Chain.restart_invisible built reachable identified).2 settling s leads
    (led.trans trie.symm) init_opening (Or.inr rfl) settling_names trusted rooted with
      ⟨depth, opened⟩
  rcases opened depth le_rfl with ⟨d, reopened, account, -, head, -, -, answers⟩
  exact ⟨s₀, depth, c, d, reachable, reopened, account, head, answers⟩

end Sample.Recovered

end IPchain
