import IPchain.Pending
import IPchain.Turns

/-! The chain: its head, the indices it keeps, and the queues of blocks that have to wait. -/

namespace IPchain

open Lib

/-- `blocks` holds what the database has under the hash of a block, `none` for the genesis. -/
structure Chain (S R : Type) [IPSet S] where
  state : State S
  patricia : R
  headHash : Bytes
  blockIndex : AList fun _ : Nat => Bytes
  txIndex : AList fun _ : Bytes => Nat × Nat
  blocks : AList fun _ : Bytes => Option Block
  children : AList fun _ : Bytes => List Bytes
  timeQueue : List Block
  parentQueue : AList fun _ : Bytes => List Block

/-- Whether the state after an older block can be rebuilt from the database. -/
class Poststate where
  mkPoststateOfBlockhash : (AList fun _ : Bytes => Option Block) → Bytes → Except PyExc Unit

section Definitions

variable {S R : Type} [IPSet S] [Radix R Address] [Platform]

namespace Chain

def init [StateRoot S] (g : GenesisData) : Except PyExc (Chain S R) := do
  let (s, rows) ← stateFromGenesisDeclaration g
  match s.prevHeaders with
  | [] => .error ⟨.indexError, "list index out of range"⟩
  | header :: _ => do
      pyAssert (s.blockNumber = header.number)
      pure {
        state := s
        patricia := PatriciaState.setValues Radix.empty (cachedRows rows)
        headHash := header.hash
        blockIndex := AList.insert 0 header.hash ∅
        txIndex := ∅
        blocks := AList.insert header.hash none ∅
        children := ∅
        timeQueue := []
        parentQueue := ∅ }

def addChild (c : Chain S R) (child : Block) : Chain S R :=
  let existing := (c.children.lookup child.header.prevhash).getD []
  { c with
    children :=
      if child.header.hash ∈ existing then c.children
      else c.children.insert child.header.prevhash (existing ++ [child.header.hash]) }

def indexTransactions (block : Block) (index : AList fun _ : Bytes => Nat × Nat) :
    AList fun _ : Bytes => Nat × Nat :=
  block.transactions.zipIdx.foldl
    (fun index tx => index.insert tx.1.hash (block.header.number, tx.2)) index

def enqueue (block : Block) : List Block → List Block
  | [] => [block]
  | first :: rest =>
      if first.header.timestamp < block.header.timestamp then first :: enqueue block rest
      else block :: first :: rest

/-- The new head, once `apply_block` returned the state `s` and the tree `p`. -/
def moveHead (c : Chain S R) (block : Block) (s : State S) (p : R) : Chain S R :=
  { c with
    state := s
    patricia := p
    blockIndex := c.blockIndex.insert block.header.number block.header.hash
    headHash := block.header.hash
    txIndex := indexTransactions block c.txIndex }

def recordBlock (c : Chain S R) (block : Block) : Chain S R :=
  let c := c.addChild block
  { c with
    blocks := c.blocks.insert block.header.hash (some block)
    state := { c.state with blockNumber := block.header.number } }

variable [TrieRoot]

def addToHead (block : Block) : EStateM PyExc (Chain S R) Unit := fun c =>
  match applyBlock block (c.state, c.patricia) with
  | .ok () (s, p) => .ok () ((c.moveHead block s p).recordBlock block)
  | .error e (s, p) => .error e { c with state := s, patricia := p }

def processParentQueue (add : Block → EStateM PyExc (Chain S R) Bool) (block : Block) :
    EStateM PyExc (Chain S R) Bool := fun c =>
  match c.parentQueue.lookup block.header.hash with
  | none => .ok true c
  | some waiting =>
      (do
        waiting.forM fun block => do
          let _ ← add block
        fun c => .ok true { c with parentQueue := c.parentQueue.erase block.header.hash }) c

variable [Poststate]

/-- `now` is the clock. The call for a block that extends another block than the head leaves
out an argument of `apply_block`, and the TypeError is caught. -/
def addBlock (now : Nat) : Nat → Block → EStateM PyExc (Chain S R) Bool
  | 0, _ => raised ⟨.runtimeError, "maximum recursion depth exceeded"⟩
  | depth + 1, block => fun c =>
      match validateBlock block c.state with
      | .error _ s => .ok false { c with state := s }
      | .ok _ s =>
          if now < block.header.timestamp then
            .ok false { c with state := s, timeQueue := enqueue block c.timeQueue }
          else if block.header.prevhash = c.headHash then
            (do
              addToHead block
              processParentQueue (fun block => addBlock now depth block) block) { c with state := s }
          else if block.header.prevhash ∈ c.blocks then
            (do
              lift (Poststate.mkPoststateOfBlockhash c.blocks block.header.prevhash)
              pure false) { c with state := s }
          else
            let waiting := (c.parentQueue.lookup block.header.prevhash).getD []
            .ok false { c with
              state := s
              parentQueue := c.parentQueue.insert block.header.prevhash (waiting ++ [block]) }

/-- The chains that a node gets to, with the blocks it applied. The node stops when
`add_block` raises. Blocks that arrived too early are popped from their queue and added
again, and readers may fill the cache at any time. -/
inductive Reachable [StateRoot S] (g : GenesisData) : List Block → Chain S R → Prop
  | start {c : Chain S R} (built : init g = .ok c) : Reachable g [] c
  | extend {blocks : List Block} {c c' : Chain S R} {block : Block} {now depth : Nat}
      (reachable : Reachable g blocks c) (added : addBlock now depth block c = .ok true c') :
      Reachable g (blocks ++ [block]) c'
  | refuse {blocks : List Block} {c c' : Chain S R} {block : Block} {now depth : Nat}
      (reachable : Reachable g blocks c) (refused : addBlock now depth block c = .ok false c') :
      Reachable g blocks c'
  | pop {blocks : List Block} {c : Chain S R} (reachable : Reachable g blocks c) (i : Nat) :
      Reachable g blocks { c with timeQueue := c.timeQueue.eraseIdx i }
  | read {blocks : List Block} {c : Chain S R} (reachable : Reachable g blocks c) (a : Address) :
      Reachable g blocks { c with state := (c.state.getAndCacheAccount a).2 }

end Chain

end Definitions

section Calls

variable {S R : Type} [IPSet S] [Radix R Address] [Platform]

/-- Reads are all that sets the two states apart: what a reader finds, the trie and what there
is to undo are the same. -/
structure State.Alike (s t : State S) : Prop where
  account : t.account = s.account
  trie : t.trie = s.trie
  auxvars : t.toAuxVars = s.toAuxVars
  journal : t.journal = s.journal

omit [Platform] in
theorem State.alike_read (s : State S) (a : Address) : s.Alike (s.getAndCacheAccount a).2 :=
  ⟨s.account_getAndCacheAccount a, s.trie_getAndCacheAccount a, s.toAuxVars_getAndCacheAccount a,
    s.journal_getAndCacheAccount a⟩

theorem alike_validateBlock [TrieRoot] (block : Block) (s : State S) :
    s.Alike (finish (validateBlock block s)) :=
  ⟨preserves_validateBlock State.account_getAndCacheAccount block s,
    preserves_validateBlock State.trie_getAndCacheAccount block s,
    preserves_validateBlock State.toAuxVars_getAndCacheAccount block s,
    preserves_validateBlock State.journal_getAndCacheAccount block s⟩

namespace Chain

/-- Between two calls nothing is journalled, the head is the newest header of the state, and
no block waits for its parent. -/
structure Sane (c : Chain S R) : Prop where
  quiet : c.state.journal = []
  sound : c.state.account.Sound
  headed : ∃ header older, c.state.prevHeaders = header :: older ∧ header.hash = c.headHash
  orphanless : ∀ h, c.parentQueue.lookup h = none

structure Anchored (c : Chain S R) : Prop where
  headed : ∃ header older, c.state.prevHeaders = header :: older ∧ header.hash = c.headHash
  orphanless : ∀ h, c.parentQueue.lookup h = none

omit [Radix R Address] in
theorem Sane.anchored {c : Chain S R} (sane : c.Sane) : c.Anchored := ⟨sane.headed, sane.orphanless⟩

def extended (c : Chain S R) (block : Block) (s : State S) (p : R) : Chain S R :=
  (c.moveHead block s p).recordBlock block

/-- What a call can come to: the block is refused, its application raises, or it is the new head. -/
inductive Outcome [TrieRoot] (c : Chain S R) (block : Block) (now : Nat) :
    EStateM.Result PyExc (Chain S R) Bool → Prop
  | refused (s : State S) (queue : List Block) (alike : c.state.Alike s)
      (early : (∃ v, validateBlock block c.state = .ok true v) → now < block.header.timestamp) :
      Outcome c block now (.ok false { c with state := s, timeQueue := queue })
  | failed (s : State S) (alike : c.state.Alike s) {e : PyExc} {t : State S} {p : R}
      (raises : applyBlock block (s, c.patricia) = .error e (t, p)) :
      Outcome c block now (.error e { c with state := t, patricia := p })
  | added (s : State S) (alike : c.state.Alike s) {t : State S} {p : R}
      (applied : applyBlock block (s, c.patricia) = .ok () (t, p)) :
      Outcome c block now (.ok true (c.extended block t p))

omit [Radix R Address] in
theorem processParentQueue_none (add : Block → EStateM PyExc (Chain S R) Bool) {block : Block}
    {c : Chain S R} (nobody : c.parentQueue.lookup block.header.hash = none) :
    processParentQueue add block c = .ok true c := by
  simp only [processParentQueue, nobody]

theorem addBlock_outcome [TrieRoot] [Poststate] {c : Chain S R} (anchored : c.Anchored)
    (block : Block) (now depth : Nat) : Outcome c block now (addBlock now (depth + 1) block c) := by
  have alike := alike_validateBlock block c.state
  simp only [addBlock]
  cases validated : validateBlock block c.state with
  | error e s =>
      rw [validated] at alike
      refine .refused s c.timeQueue alike ?_
      rintro ⟨v, accepted⟩
      rw [validated] at accepted
      cases accepted
  | ok valid s =>
      rw [validated] at alike
      cases validateBlock_returns validated
      obtain ⟨-, ⟨⟨header, older, newest, follows, -⟩, -⟩, -⟩ := validateBlock_ok_iff.mp ⟨s, validated⟩
      obtain ⟨header', older', newest', headed⟩ := anchored.headed
      have atHead : block.header.prevhash = c.headHash := by
        rw [newest] at newest'
        cases newest'
        exact follows.trans headed
      simp only
      by_cases early : now < block.header.timestamp
      · rw [if_pos early]
        exact .refused s _ alike fun _ => early
      · rw [if_neg early, if_pos atHead, bind_run, addToHead]
        cases applied : applyBlock block (s, c.patricia) with
        | error e r =>
            obtain ⟨t, p⟩ := r
            simp only
            exact .failed s alike applied
        | ok _ r =>
            obtain ⟨t, p⟩ := r
            have nobody : (c.extended block t p).parentQueue.lookup block.header.hash = none :=
              anchored.orphanless _
            change Outcome c block now (processParentQueue _ block (c.extended block t p))
            rw [processParentQueue_none _ nobody]
            exact .added s alike applied

theorem Sane.extended {c : Chain S R} (sane : c.Sane) [TrieRoot] {block : Block} {s t : State S}
    {p : R} (alike : c.state.Alike s) (applied : applyBlock block (s, c.patricia) = .ok () (t, p)) :
    (c.extended block t p).Sane := by
  obtain ⟨-, cached, u, loop, rfl, -⟩ := applyBlock_eq_ok.mp applied
  have sound : s.account.Sound := alike.account ▸ sane.sound
  have quiet : s.journal = [] := alike.journal.trans sane.quiet
  have quiet' : u.journal = [] := applyTransactions_quiet loop quiet
  have sound' : u.account.Sound :=
    applyTransactions_sound sound ((simulates_applyTransactions _ _).ok loop)
  exact ⟨quiet', sound', ⟨.block block.header, u.prevHeaders, rfl, rfl⟩, sane.orphanless⟩

omit [Radix R Address] in
theorem Sane.alike {c : Chain S R} (sane : c.Sane) {s : State S} (alike : c.state.Alike s)
    (queue : List Block) : ({ c with state := s, timeQueue := queue } : Chain S R).Sane := by
  obtain ⟨header, older, newest, headed⟩ := sane.headed
  refine ⟨alike.journal.trans sane.quiet, ?_, ⟨header, older, ?_, headed⟩, sane.orphanless⟩
  · rw [alike.account]
    exact sane.sound
  · exact (congrArg AuxVars.prevHeaders alike.auxvars).trans newest

theorem sane_init [StateRoot S] {g : GenesisData} {c : Chain S R} (built : init g = .ok c) :
    c.Sane := by
  obtain ⟨⟨s, rows⟩, genesis, rest⟩ := except_bind_eq_ok.mp built
  have sound := sound_fresh (fresh_genesis genesis)
  obtain ⟨-, -, -, quiet⟩ := genesis_account genesis
  cases newest : s.prevHeaders with
  | nil =>
      simp only [newest] at rest
      cases rest
  | cons header older =>
      simp only [newest] at rest
      obtain ⟨_, -, result⟩ := except_bind_eq_ok.mp rest
      cases result
      exact ⟨quiet, sound, ⟨header, older, newest, rfl⟩, fun _ => rfl⟩

theorem Reachable.sane [StateRoot S] [TrieRoot] [Poststate] {g : GenesisData}
    {blocks : List Block} {c : Chain S R} (reachable : Reachable g blocks c) : c.Sane := by
  have called {c c' : Chain S R} {block : Block} {now depth : Nat} {b : Bool} (sane : c.Sane)
      (returned : addBlock now depth block c = .ok b c') : c'.Sane := by
    cases depth with
    | zero => cases returned
    | succ depth =>
        have outcome := addBlock_outcome sane.anchored block now depth
        rw [returned] at outcome
        cases outcome with
        | refused s queue alike => exact sane.alike alike queue
        | added s alike applied => exact sane.extended alike applied
  induction reachable with
  | start built => exact sane_init built
  | extend reachable added ih => exact called ih added
  | refuse reachable refused ih => exact called ih refused
  | pop reachable i ih => exact ⟨ih.quiet, ih.sound, ih.headed, ih.orphanless⟩
  | @read blocks c reachable a ih => exact ih.alike (c.state.alike_read a) c.timeQueue

theorem Anchored.added [TrieRoot] [Poststate] {c c' : Chain S R} (anchored : c.Anchored)
    {block : Block} {now depth : Nat} (added : addBlock now depth block c = .ok true c') :
    ∃ s t p, c.state.Alike s ∧ applyBlock block (s, c.patricia) = .ok () (t, p) ∧
      c' = c.extended block t p := by
  cases depth with
  | zero => cases added
  | succ depth =>
      have outcome := addBlock_outcome anchored block now depth
      rw [added] at outcome
      cases outcome with
      | added s alike applied => exact ⟨s, _, _, alike, applied, rfl⟩

theorem Anchored.refused [TrieRoot] [Poststate] {c c' : Chain S R} (anchored : c.Anchored)
    {block : Block}
    {now depth : Nat} (refused : addBlock now depth block c = .ok false c') :
    ∃ s queue, c.state.Alike s ∧ c' = { c with state := s, timeQueue := queue } := by
  cases depth with
  | zero => cases refused
  | succ depth =>
      have outcome := addBlock_outcome anchored block now depth
      rw [refused] at outcome
      cases outcome with
      | refused s queue alike => exact ⟨s, queue, alike, rfl⟩

/-- What holds at the start, is kept by a new head and cannot tell alike states apart holds
throughout. -/
theorem Reachable.invariant [StateRoot S] [TrieRoot] [Poststate] {g : GenesisData}
    {P : List Block → Chain S R → Prop} (start : ∀ c, init g = .ok c → P [] c)
    (extend : ∀ blocks c block s t p, c.Sane → P blocks c → c.state.Alike s →
      applyBlock block (s, c.patricia) = .ok () (t, p) →
        P (blocks ++ [block]) (c.extended block t p))
    (idle : ∀ blocks c s queue, P blocks c → c.state.Alike s →
      P blocks { c with state := s, timeQueue := queue })
    {blocks : List Block} {c : Chain S R} (reachable : Reachable g blocks c) : P blocks c := by
  induction reachable with
  | start built => exact start _ built
  | extend reachable added ih =>
      obtain ⟨s, t, p, alike, applied, rfl⟩ := reachable.sane.anchored.added added
      exact extend _ _ _ s t p reachable.sane ih alike applied
  | refuse reachable refused ih =>
      obtain ⟨s, queue, alike, rfl⟩ := reachable.sane.anchored.refused refused
      exact idle _ _ s queue ih alike
  | pop reachable i ih => exact idle _ _ _ _ ih ⟨rfl, rfl, rfl, rfl⟩
  | @read blocks c reachable a ih => exact idle _ _ _ c.timeQueue ih (c.state.alike_read a)

theorem applyBlock_alike [TrieRoot] {s v t : State S} {p q : R} {block : Block}
    (quiet : s.journal = []) (alike : s.Alike v)
    (applied : applyBlock block (s, p) = .ok () (t, q)) :
    ∃ t', applyBlock block (v, p) = .ok () (t', q) ∧ t.Alike t' := by
  obtain ⟨based, cached, u, loop, rfl, rfl⟩ := applyBlock_eq_ok.mp applied
  have quietV : v.journal = [] := alike.journal.trans quiet
  obtain ⟨u', loop', trie, -⟩ := applyTransactions_trie quiet quietV alike.trie.symm loop
  have ledger := (simulates_applyTransactions _ _).ok loop
  have ledger' := (simulates_applyTransactions _ _).ok loop'
  rw [alike.account, ledger] at ledger'
  have account : u'.account = u.account := (EStateM.Result.ok.inj ledger').2.symm
  have before := (preserves_applyTransactions _ _).ok loop
  have before' := (preserves_applyTransactions _ _).ok loop'
  have auxvars : u'.toAuxVars = u.toAuxVars := (before'.trans alike.auxvars).trans before.symm
  have journal : u'.journal = u.journal :=
    (applyTransactions_quiet loop' quietV).trans (applyTransactions_quiet loop quiet).symm
  rw [← alike.auxvars] at based
  refine ⟨_, applyBlock_eq_ok.mpr ⟨based, cached, u', loop', rfl, rfl⟩, account, trie, ?_, journal⟩
  simp only [State.addBlockHeader, auxvars]

theorem Sane.accepts [TrieRoot] [Poststate] {c : Chain S R} (sane : c.Sane) {block : Block}
    {v t : State S} {q : R} (validated : validateBlock block c.state = .ok true v)
    (applied : applyBlock block (c.state, c.patricia) = .ok () (t, q)) {now : Nat}
    (due : block.header.timestamp ≤ now) (depth : Nat) :
    ∃ t', addBlock now (depth + 1) block c = .ok true (c.extended block t' q) ∧ t.Alike t' := by
  have outcome := addBlock_outcome sane.anchored block now depth
  cases added : addBlock now (depth + 1) block c with
  | ok b c' =>
      rw [added] at outcome
      cases outcome with
      | refused s queue alike early => exact absurd (early ⟨v, validated⟩) (Nat.not_lt.mpr due)
      | added s alike applied' =>
          obtain ⟨t', applied'', same⟩ := applyBlock_alike sane.quiet alike applied
          rw [applied'] at applied''
          cases applied''
          exact ⟨_, rfl, same⟩
  | error e c' =>
      rw [added] at outcome
      cases outcome with
      | failed s alike raises =>
          obtain ⟨t', applied', -⟩ := applyBlock_alike sane.quiet alike applied
          rw [raises] at applied'
          cases applied'

theorem Sane.accepts_empty [TrieRoot] [Poststate] {c : Chain S R} (sane : c.Sane) {block : Block}
    {a : Address} (signed : block.signer = .ok a) (known : a ≠ nullAddress)
    (based : Based c.state.toAuxVars block) (empty : block.transactions = []) {now : Nat}
    (due : block.header.timestamp ≤ now) (depth : Nat) :
    ∃ t q, addBlock now (depth + 1) block c = .ok true (c.extended block t q) ∧
      t.prevHeaders = .block block.header :: c.state.prevHeaders := by
  have accepts : ∀ tx ∈ block.transactions, ∃ a V, c.state.account.book.Accepts tx a V := by
    rw [empty]
    exact List.forall_mem_nil _
  have loop : applyTransactions block.transactions ∅ c.state = .ok ∅ c.state := by
    rw [empty]
    rfl
  obtain ⟨v, validated⟩ := validateBlock_ok_iff.mpr ⟨⟨a, signed, known⟩, based, accepts⟩
  have applied := (applyBlock_eq_ok (p := c.patricia)).mpr ⟨based, ∅, c.state, loop, rfl, rfl⟩
  obtain ⟨t, added, alike⟩ := sane.accepts validated applied due depth
  exact ⟨t, _, added, congrArg AuxVars.prevHeaders alike.auxvars⟩

theorem Reachable.grow [StateRoot S] [TrieRoot] [Poststate] {g : GenesisData} {blocks : List Block}
    {c : Chain S R} (reachable : Reachable g blocks c) {block : Block} {v t : State S} {q : R}
    (validated : validateBlock block c.state = .ok true v)
    (applied : applyBlock block (c.state, c.patricia) = .ok () (t, q)) :
    ∃ c', Reachable g (blocks ++ [block]) c' ∧ c'.state.account = t.account ∧ c'.patricia = q := by
  obtain ⟨t', added, alike⟩ := reachable.sane.accepts validated applied le_rfl 0
  exact ⟨_, reachable.extend added, alike.account, rfl⟩

end Chain

end Calls

section First

variable {S R : Type} [IPSet S] [Radix R Address] [Platform] [StateRoot S]

omit [StateRoot S] in
theorem loadAlloc_auxvars {entries : List (Bytes × Option (List IPNetwork))} {s t : State S}
    {rows result : Cached} (loaded : loadAlloc entries s rows = .ok (t, result)) :
    t.toAuxVars = s.toAuxVars := by
  induction entries generalizing s rows with
  | nil =>
      cases loaded
      rfl
  | cons head tail ih =>
      obtain ⟨addr, data⟩ := head
      obtain ⟨a, -, loaded⟩ := except_bind_eq_ok.mp loaded
      cases data with
      | none => exact ih loaded
      | some ownIps => exact (ih loaded).trans (s.toAuxVars_setParam a _)

theorem genesis_headers {g : GenesisData} {s : State S} {rows : Cached}
    (genesis : stateFromGenesisDeclaration g = .ok (s, rows)) :
    s.prevHeaders = [.block (blockFromGenesisDeclaration g (StateRoot.stateRoot s.trie))] ∧
      s.blockNumber = 0 := by
  obtain ⟨⟨t, rows'⟩, loaded, result⟩ := except_bind_eq_ok.mp genesis
  cases result
  have same : t.toAuxVars = (State.initial : State S).toAuxVars := loadAlloc_auxvars loaded
  exact ⟨rfl, congrArg AuxVars.blockNumber same⟩

theorem Chain.init_spec {g : GenesisData} {c : Chain S R} (built : Chain.init g = .ok c) :
    ∃ s rows header, stateFromGenesisDeclaration g = .ok (s, rows) ∧
      header = blockFromGenesisDeclaration g (StateRoot.stateRoot s.trie) ∧ c = {
        state := s
        patricia := PatriciaState.setValues Radix.empty (cachedRows rows)
        headHash := header.hash
        blockIndex := AList.insert 0 header.hash ∅
        txIndex := ∅
        blocks := AList.insert header.hash none ∅
        children := ∅
        timeQueue := []
        parentQueue := ∅ } := by
  obtain ⟨⟨s, rows⟩, genesis, rest⟩ := except_bind_eq_ok.mp built
  obtain ⟨headers, number⟩ := genesis_headers genesis
  refine ⟨s, rows, _, genesis, rfl, ?_⟩
  simp only [headers] at rest
  obtain ⟨_, -, result⟩ := except_bind_eq_ok.mp rest
  cases result
  rfl

theorem Chain.init_ok {g : GenesisData} {s : State S} {rows : Cached}
    (genesis : stateFromGenesisDeclaration g = .ok (s, rows)) :
    ∃ c : Chain S R, Chain.init g = .ok c ∧ c.state = s ∧
      c.patricia = PatriciaState.setValues Radix.empty (cachedRows rows) := by
  obtain ⟨headers, number⟩ := genesis_headers genesis
  simp only [Chain.init, genesis, bind, Except.bind, headers, number]
  exact ⟨_, rfl, rfl, rfl⟩

end First

namespace Sample

scoped instance : Poststate := ⟨fun _ _ => .ok ()⟩

/-- A block for the chain of `genesis6`, signed by Alice. Odd blocks are about IPv6. Its root is that
of the accounts before it. -/
def firstBlock (transactions : List Transaction) : Block where
  header := {
    prevhash := (founded genesis6).hash
    timestamp := 2
    extraData := []
    stateRoot := (founded genesis6).stateRoot
    txRoot := mkTransactionSha transactions
    number := 1
    coinbase := alice.bytes
    randomNumber := List.replicate 32 0
    groupPubkey := []
    groupSig := []
    count := 0 }
  transactions := transactions
  v := 27
  r := 1
  s := 1
  cachedSigner := some alice

theorem start_of_passes (test : State AddressRanges × Cached → Bool)
    (passes : Passes (stateFromGenesisDeclaration genesis6) test = true) :
    ∃ s rows, stateFromGenesisDeclaration genesis6 = .ok (s, rows) ∧
      (∃ c : Chain AddressRanges (PrefixTable Address), c.Reachable genesis6 [] ∧ c.state = s ∧
        c.patricia = PatriciaState.setValues Radix.empty (cachedRows rows)) ∧
      (∀ txs, Based s.toAuxVars (firstBlock txs)) ∧ test (s, rows) = true := by
  obtain ⟨⟨s, rows⟩, built, passed⟩ := passes_iff.mp passes
  obtain ⟨c, started, state, tree⟩ := Chain.init_ok (R := PrefixTable Address) built
  refine ⟨s, rows, built, ⟨c, .start started, state, tree⟩, fun txs => ?_, passed⟩
  exact ⟨⟨_, [], (genesis_headers built).1, congrArg BlockHeader.hash (founded_eq built), rfl,
    show 1 < 2 by decide, show 2 < 2 ^ 256 by decide⟩, rfl⟩

theorem chain_of_passes (test : State AddressRanges → Bool)
    (passes : Passes (stateFromGenesisDeclaration genesis6) (fun g => test g.1) = true) :
    ∃ c : Chain AddressRanges (PrefixTable Address), c.Reachable genesis6 [] ∧
      (∀ txs, Based c.state.toAuxVars (firstBlock txs)) ∧ c.state.account.Fresh ∧
      test c.state = true := by
  obtain ⟨s, rows, built, ⟨c, reachable, rfl, -⟩, based, passed⟩ :=
    start_of_passes (fun g => test g.1) passes
  exact ⟨c, reachable, based, fresh_genesis built, passed⟩

theorem applied_first_of_passes (txs : List Transaction)
    (test : State AddressRanges → PrefixTable Address → Bool)
    (passes : Passes (stateFromGenesisDeclaration genesis6) (fun g =>
      RunPasses (applyTransactions txs ∅ g.1) fun cached s =>
        test (s.addBlockHeader (firstBlock txs).header) (PatriciaState.setValues
          (PatriciaState.setValues Radix.empty (cachedRows g.2)) (cachedRows cached))) = true) :
    ∃ s rows t p, stateFromGenesisDeclaration genesis6 = .ok (s, rows) ∧
      applyBlock (firstBlock txs)
        (s, PatriciaState.setValues Radix.empty (cachedRows rows)) = .ok () (t, p) ∧
      test t p = true := by
  obtain ⟨s, rows, built, -, based, passed⟩ := start_of_passes _ passes
  obtain ⟨cached, u, loop, passed⟩ := runPasses_iff.mp passed
  exact ⟨s, rows, _, _, built,
    applyBlock_eq_ok.mpr ⟨based txs, cached, u, loop, rfl, rfl⟩, passed⟩

theorem accepts_move {s : State AddressRanges} {category : Nat} {sender holder : Address}
    {nonce : Nat} {n : IPNetwork} (small : category ≤ 3) (known : sender ≠ nullAddress)
    (next : (s.getNonce sender).1 = nonce) (reads : networkOfPacked n.family (valueOf n) = .ok n)
    (owned : owns s sender n = true) :
    s.account.book.Accepts (move category sender holder nonce n) sender n := by
  refine ⟨rfl, known, ?_, small, ipNetwork_move _ _ _ _ n n reads, fun _ x inside => ?_⟩
  · rw [← next, State.getNonce_fst]
    rfl
  · have held := mem_of_owns owned x inside
    rwa [State.getBalance_fst] at held

theorem moved_of_passes (category : Nat) (holder : Address) (small : category ≤ 3)
    (test : State AddressRanges → PrefixTable Address → Bool)
    (passes : Passes (stateFromGenesisDeclaration genesis6) (fun g =>
      (owns g.1 alice (net6 0 48) && (g.1.getNonce alice).1 = 0) &&
        RunPasses (applyTransactions [move category alice holder 0 (net6 0 48)] ∅ g.1)
          fun cached s => test s (PatriciaState.setValues
            (PatriciaState.setValues Radix.empty (cachedRows g.2)) (cachedRows cached))) = true) :
    ∃ (s : State AddressRanges) (rows : Cached) (c : Chain AddressRanges (PrefixTable Address))
      (t : State AddressRanges), stateFromGenesisDeclaration genesis6 = .ok (s, rows) ∧
        c.Reachable genesis6 [firstBlock [move category alice holder 0 (net6 0 48)]] ∧
        c.state.account = t.account ∧ test t c.patricia = true := by
  obtain ⟨s, rows, built, ⟨c, reachable, rfl, tree⟩, based, passed⟩ := start_of_passes _ passes
  simp only [Bool.and_eq_true, decide_eq_true_eq] at passed
  obtain ⟨⟨holds, next⟩, passed⟩ := passed
  obtain ⟨cached, u, loop, passed⟩ := runPasses_iff.mp passed
  have accepts : c.state.account.book.Accepts (move category alice holder 0 (net6 0 48)) alice
      (net6 0 48) :=
    accepts_move small (by decide) next (by decide) holds
  obtain ⟨v, validated⟩ := validateBlock_ok_iff.mpr ⟨⟨alice, rfl, by decide⟩,
    based [move category alice holder 0 (net6 0 48)],
    List.forall_mem_singleton.mpr ⟨alice, _, accepts⟩⟩
  have applied := (applyBlock_eq_ok (p := c.patricia)).mpr
    ⟨based [move category alice holder 0 (net6 0 48)], cached, u, loop, rfl, rfl⟩
  obtain ⟨c', grown, account, tree'⟩ := reachable.grow validated applied
  refine ⟨c.state, rows, c', u, built, grown, account, ?_⟩
  rw [tree', tree]
  exact passed

end Sample

end IPchain
