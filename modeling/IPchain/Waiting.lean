import IPchain.Lib.Advance
import IPchain.Production

/-! The queue of the blocks that arrived before their time: it stays sorted, and a call without an
argument leaves it as it is. -/

namespace IPchain

open Lib

namespace Chain

/-- Sorted by time, with the earliest block first. -/
def Sorted (queue : List Block) : Prop :=
  queue.Pairwise fun a b => a.header.timestamp ≤ b.header.timestamp

theorem mem_enqueue (block : Block) (queue : List Block) (b : Block) :
    b ∈ enqueue block queue ↔ b = block ∨ b ∈ queue := by
  induction queue with
  | nil => simp [enqueue]
  | cons first rest ih =>
      rw [enqueue]
      split
      · rw [List.mem_cons, ih, List.mem_cons]
        exact or_left_comm
      · exact List.mem_cons

theorem sorted_enqueue (block : Block) {queue : List Block} (sorted : Sorted queue) :
    Sorted (enqueue block queue) := by
  induction queue with
  | nil => exact List.pairwise_singleton _ _
  | cons first rest ih =>
      obtain ⟨below, others⟩ := List.pairwise_cons.mp sorted
      rw [enqueue]
      split
      · rename_i later
        refine List.pairwise_cons.mpr ⟨?_, ih others⟩
        intro b member
        rcases (mem_enqueue block rest b).mp member with rfl | listed
        · exact Nat.le_of_lt later
        · exact below b listed
      · rename_i earlier
        refine List.pairwise_cons.mpr ⟨?_, sorted⟩
        intro b member
        have first : block.header.timestamp ≤ first.header.timestamp := Nat.not_lt.mp earlier
        rcases List.mem_cons.mp member with rfl | listed
        · exact first
        · exact first.trans (below b listed)

section Calls

variable {S R : Type} [IPSet S] [Radix R Address] [Platform] [TrieRoot] [Poststate]

def KeepsSorted (c c' : Chain S R) : Prop := Sorted c.timeQueue → Sorted c'.timeQueue

instance : IsPreorder (Chain S R) KeepsSorted where
  refl _ := id
  trans _ _ _ first second := second ∘ first

omit [Radix R Address] [Platform] [TrieRoot] [Poststate] in
theorem keepsSorted_of_eq {c c' : Chain S R} (same : c'.timeQueue = c.timeQueue) :
    KeepsSorted c c' := by
  intro sorted
  rw [same]
  exact sorted

omit [Poststate] in
theorem sorted_addToHead (block : Block) :
    Advances KeepsSorted (addToHead block : EStateM PyExc (Chain S R) Unit) := by
  intro c
  simp only [addToHead]
  cases applyBlock block (c.state, c.patricia) with
  | ok _ r => exact keepsSorted_of_eq rfl
  | error e r => exact keepsSorted_of_eq rfl

omit [Radix R Address] [Platform] [TrieRoot] [Poststate] in
theorem sorted_forM {add : Block → EStateM PyExc (Chain S R) Bool}
    (adds : ∀ block, Advances KeepsSorted (add block)) (waiting : List Block) :
    Advances KeepsSorted (waiting.forM fun block => do
      let _ ← add block) := by
  induction waiting with
  | nil => exact Advances.pure _
  | cons block waiting ih =>
      refine Advances.bind ?_ fun _ => ih
      exact Advances.bind (adds block) fun _ => Advances.pure _

omit [Radix R Address] [TrieRoot] [Poststate] in
theorem sorted_processParentQueue {add : Block → EStateM PyExc (Chain S R) Bool}
    (adds : ∀ block, Advances KeepsSorted (add block)) (block : Block) :
    Advances KeepsSorted (processParentQueue add block) := by
  intro c
  simp only [processParentQueue]
  split
  · exact keepsSorted_of_eq rfl
  · rename_i waiting found
    refine Advances.bind (sorted_forM adds waiting) (fun _ => ?_) c
    exact fun c => keepsSorted_of_eq rfl

theorem sorted_addBlock (now depth : Nat) (block : Block) :
    Advances KeepsSorted (addBlock now depth block : EStateM PyExc (Chain S R) Bool) := by
  induction depth generalizing block with
  | zero => exact Advances.raised _
  | succ depth ih =>
      intro c
      simp only [addBlock]
      cases validateBlock block c.state with
      | error e s => exact keepsSorted_of_eq rfl
      | ok b s =>
          simp only
          split
          · exact sorted_enqueue block
          · split
            · have head : Advances KeepsSorted (do
                  addToHead block
                  processParentQueue (fun block => addBlock now depth block) block :
                    EStateM PyExc (Chain S R) Bool) :=
                Advances.bind (sorted_addToHead block) fun _ => sorted_processParentQueue ih block
              exact head { c with state := s }
            · split
              · have branch : Advances KeepsSorted (do
                    lift (Poststate.mkPoststateOfBlockhash c.blocks block.header.prevhash)
                    pure false : EStateM PyExc (Chain S R) Bool) :=
                  Advances.bind (Advances.lift _) fun _ => Advances.pure _
                exact branch { c with state := s }
              · exact keepsSorted_of_eq rfl

theorem sorted_processTimeQueueFrom (now depth : Nat) (newTime : Option Nat) (turns i : Nat) :
    Advances KeepsSorted
      (processTimeQueueFrom now depth newTime turns i : EStateM PyExc (Chain S R) Unit) := by
  induction turns generalizing i with
  | zero => exact Advances.pure _
  | succ turns ih =>
      intro c
      simp only [processTimeQueueFrom]
      split
      · exact keepsSorted_of_eq rfl
      · split
        · have popped : KeepsSorted c { c with timeQueue := c.timeQueue.eraseIdx i } :=
            fun sorted => List.Pairwise.sublist (List.eraseIdx_sublist _ _) sorted
          refine trans_of KeepsSorted popped (Advances.bind (sorted_addBlock now depth _)
            (fun _ => ?_) _)
          intro d
          beta_reduce
          split
          · exact ih (i + 1) d
          · exact ih i d
        · exact keepsSorted_of_eq rfl

inductive QueueCall where
  | add (block : Block)
  | process (newTime : Option Nat)

def QueueCall.run (now depth : Nat) : QueueCall → EStateM PyExc (Chain S R) Unit
  | .add block => do
      let _ ← addBlock now depth block
  | .process newTime => processTimeQueue now depth newTime

/-- The chain after the calls, each with its clock, whether they returned or raised. -/
def afterCalls (c : Chain S R) : List (Nat × Nat × QueueCall) → Chain S R
  | [] => c
  | (now, depth, call) :: rest => afterCalls (finish (call.run now depth c)) rest

def Cleared (c : Chain S R) (now : Nat) : Prop := ∀ b ∈ c.timeQueue, now < b.header.timestamp

theorem sorted_call (now depth : Nat) (call : QueueCall) :
    Advances KeepsSorted (call.run now depth : EStateM PyExc (Chain S R) Unit) := by
  cases call with
  | add block => exact Advances.bind (sorted_addBlock now depth block) fun _ => Advances.pure _
  | process newTime =>
      intro c
      exact sorted_processTimeQueueFrom now depth newTime c.timeQueue.length 0 c

theorem sorted_afterCalls (calls : List (Nat × Nat × QueueCall)) {c : Chain S R}
    (sorted : Sorted c.timeQueue) : Sorted (c.afterCalls calls).timeQueue := by
  induction calls generalizing c with
  | nil => exact sorted
  | cons head rest ih =>
      obtain ⟨now, depth, call⟩ := head
      exact ih (sorted_call now depth call c sorted)

/-- After any calls the queue is sorted, and a call without an argument returns. It leaves no
block whose time has come if and only if there was none before. -/
theorem early_blocks_replayed_iff [StateRoot S] {g : GenesisData} {c : Chain S R}
    (started : init g = .ok c) (calls : List (Nat × Nat × QueueCall)) (now depth : Nat) :
    Sorted (c.afterCalls calls).timeQueue ∧
      ∃ c', processTimeQueue now depth none (c.afterCalls calls) = .ok () c' ∧
        Sorted c'.timeQueue ∧ (c'.Cleared now ↔ (c.afterCalls calls).Cleared now) := by
  have empty : Sorted c.timeQueue := by
    obtain ⟨s, rows, header, -, -, rfl⟩ := init_spec started
    exact List.Pairwise.nil
  have sorted := sorted_afterCalls calls empty
  exact ⟨sorted, _, Service.processTimeQueue_none now depth _, sorted, Iff.rfl⟩

theorem queued_of_early {c : Chain S R} {block : Block} {v : State S} {now : Nat}
    (validated : validateBlock block c.state = .ok true v)
    (early : now < block.header.timestamp) (depth : Nat) :
    addBlock now (depth + 1) block c =
      .ok false { c with state := v, timeQueue := enqueue block c.timeQueue } := by
  simp only [addBlock, validated, if_pos early]

end Calls

end Chain

namespace Sample

theorem waits_of_passes (passes : Passes (stateFromGenesisDeclaration (S := AddressRanges) genesis6)
      (fun _ => true) = true) :
    ∃ c d : Chain AddressRanges (PrefixTable Address), Chain.init genesis6 = .ok c ∧
      c.afterCalls [(1, 1, .add (firstBlock []))] = d ∧ d.timeQueue = [firstBlock []] := by
  obtain ⟨⟨s, rows⟩, built, -⟩ := passes_iff.mp passes
  obtain ⟨c, started, rfl, -⟩ := Chain.init_ok (R := PrefixTable Address) built
  have based : Based c.state.toAuxVars (firstBlock []) :=
    ⟨⟨_, [], (genesis_headers built).1, congrArg BlockHeader.hash (founded_eq built), rfl,
      show 1 < 2 by decide, show 2 < 2 ^ 256 by decide⟩, rfl⟩
  obtain ⟨v, validated⟩ := validateBlock_ok_iff.mpr
    ⟨⟨alice, rfl, by decide⟩, based, List.forall_mem_nil _⟩
  have queued := Chain.queued_of_early validated (show 1 < (firstBlock []).header.timestamp by decide) 0
  have first : c.timeQueue = [] := by
    obtain ⟨t, rows', header, -, -, rfl⟩ := Chain.init_spec started
    rfl
  refine ⟨c, _, started, rfl, ?_⟩
  have ran := bind_of_ok queued fun _ => (pure () : EStateM PyExc _ Unit)
  simp only [Chain.afterCalls, Chain.QueueCall.run]
  rw [ran]
  change Chain.enqueue (firstBlock []) c.timeQueue = _
  rw [first]
  rfl

theorem early_block_waits : ∃ c d : Chain AddressRanges (PrefixTable Address),
    Chain.init genesis6 = .ok c ∧ c.afterCalls [(1, 1, .add (firstBlock []))] = d ∧
      d.timeQueue = [firstBlock []] ∧
      ∃ d', Chain.processTimeQueue 1 1 none d = .ok () d' ∧ d'.Cleared 1 := by
  obtain ⟨c, d, started, rfl, queue⟩ := waits_of_passes (by decide)
  obtain ⟨-, d', called, -, cleared⟩ := Chain.early_blocks_replayed_iff started
    [(1, 1, .add (firstBlock []))] 1 1
  refine ⟨c, _, started, rfl, queue, d', called, cleared.mpr ?_⟩
  rw [Chain.Cleared, queue]
  decide

/-- A second later it is due, and `process_time_queue()` leaves it in the queue. -/
theorem due_block_left : ∃ c d : Chain AddressRanges (PrefixTable Address),
    Chain.init genesis6 = .ok c ∧ c.afterCalls [(1, 1, .add (firstBlock []))] = d ∧
      Chain.processTimeQueue 2 1 none d = .ok () d ∧ firstBlock [] ∈ d.timeQueue ∧
      (firstBlock []).header.timestamp = 2 ∧ ¬ d.Cleared 2 := by
  obtain ⟨c, d, started, rfl, queue⟩ := waits_of_passes (by decide)
  have left : firstBlock [] ∈ (c.afterCalls [(1, 1, .add (firstBlock []))]).timeQueue := by
    rw [queue]
    exact List.mem_singleton_self _
  refine ⟨c, _, started, rfl, Service.processTimeQueue_none 2 1 _, left, rfl, ?_⟩
  intro cleared
  exact absurd (cleared _ left) (by decide)

end Sample

end IPchain
