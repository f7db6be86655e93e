import IPchain.Index

/-! In which order blocks may be handed to a chain. -/

namespace IPchain

open Lib

section Orders

variable {S R : Type} [IPSet S] [Radix R Address] [Platform] [TrieRoot] [Poststate]

namespace Chain

/-- Calls of `add_block` one after another, each with the clock at its time. -/
def feed (depth : Nat) : List (Nat × Block) → EStateM PyExc (Chain S R) Unit
  | [] => pure ()
  | (now, block) :: rest => do
      let _ ← addBlock now depth block
      feed depth rest

/-- Blocks in the order of the chain: each is due and extends the head that the ones before
it have left. -/
inductive Consecutive (depth : Nat) : Chain S R → List (Nat × Block) → Chain S R → Prop
  | nil (c : Chain S R) : Consecutive depth c [] c
  | cons {c c' c'' : Chain S R} {now : Nat} {block : Block} {rest : List (Nat × Block)}
      (due : block.header.timestamp ≤ now) (added : addBlock now depth block c = .ok true c')
      (next : Consecutive depth c' rest c'') :
      Consecutive depth c ((now, block) :: rest) c''

theorem addBlock_due {c : Chain S R} (anchored : c.Anchored) {block : Block} {now : Nat}
    (due : block.header.timestamp ≤ now) (depth : Nat) :
    addBlock now (depth + 1) block c = match validateBlock block c.state with
      | .error _ s => .ok false { c with state := s }
      | .ok _ s =>
          match applyBlock block (s, c.patricia) with
          | .ok () (t, p) => .ok true (c.extended block t p)
          | .error e (t, p) => .error e { c with state := t, patricia := p } := by
  simp only [addBlock]
  cases validated : validateBlock block c.state with
  | error e s => rfl
  | ok valid s =>
      cases validateBlock_returns validated
      obtain ⟨-, ⟨⟨header, older, newest, follows, -⟩, -⟩, -⟩ := validateBlock_ok_iff.mp ⟨s, validated⟩
      obtain ⟨header', older', newest', headed⟩ := anchored.headed
      have atHead : block.header.prevhash = c.headHash := by
        rw [newest] at newest'
        cases newest'
        exact follows.trans headed
      simp only [if_neg (Nat.not_lt.mpr due), if_pos atHead]
      rw [bind_run, addToHead]
      cases applied : applyBlock block (s, c.patricia) with
      | error e r => rfl
      | ok _ r =>
          obtain ⟨t, p⟩ := r
          have nobody : (c.extended block t p).parentQueue.lookup block.header.hash = none :=
            anchored.orphanless _
          exact processParentQueue_none _ nobody

variable [StateRoot S] {g : GenesisData}

theorem Consecutive.called {depth : Nat} {c c' : Chain S R} {calls : List (Nat × Block)}
    (consecutive : Consecutive depth c calls c') {blocks : List Block} (called : c.Called g blocks) :
    c'.Called g (blocks ++ calls.map Prod.snd) := by
  induction consecutive generalizing blocks with
  | nil c => simpa using called
  | cons due added next ih =>
      have grown := ih (called.extend added)
      rw [List.append_assoc] at grown
      exact grown

theorem feed_called {depth : Nat} {c d : Chain S R} {calls : List (Nat × Block)}
    {blocks : List Block} (called : c.Called g blocks) (fed : feed depth calls c = .ok () d) :
    ∃ accepted, accepted.Sublist (calls.map Prod.snd) ∧ d.Called g (blocks ++ accepted) := by
  induction calls generalizing c blocks with
  | nil =>
      cases fed
      exact ⟨[], List.nil_sublist _, by simpa using called⟩
  | cons call rest ih =>
      obtain ⟨now, block⟩ := call
      obtain ⟨returned, c', added, fed⟩ := bind_eq_ok.mp fed
      cases returned with
      | true =>
          obtain ⟨accepted, listed, run⟩ := ih (called.extend added) fed
          rw [List.append_assoc] at run
          exact ⟨block :: accepted, listed.cons_cons block, run⟩
      | false =>
          obtain ⟨accepted, listed, run⟩ := ih (called.refuse added) fed
          exact ⟨accepted, listed.cons block, run⟩

theorem Consecutive.feed {depth depth' : Nat} {c c' : Chain S R} {calls order : List (Nat × Block)}
    (consecutive : Consecutive (depth + 1) c calls c') {blocks : List Block}
    (called : c.Called g blocks) (same : order.map Prod.snd = calls.map Prod.snd)
    (past : ∀ call ∈ order, call.2.header.timestamp ≤ call.1) :
    Chain.feed (depth' + 1) order c = .ok () c' := by
  induction consecutive generalizing order blocks with
  | nil c =>
      have none : order = [] := List.map_eq_nil_iff.mp same
      subst none
      rfl
  | cons due added next ih =>
      obtain ⟨call, others, rfl, first, rest⟩ := List.map_eq_cons_iff.mp same
      obtain ⟨now, block⟩ := call
      cases first
      obtain ⟨past, later⟩ := List.forall_mem_cons.mp past
      have anchored := called.anchored.1
      have again := added
      rw [addBlock_due anchored due, ← addBlock_due anchored past depth'] at again
      exact bind_eq_ok.mpr ⟨true, _, again, ih (called.extend added) rest later⟩

end Chain

variable [StateRoot S]

/-- Blocks that extend the head one after another lead to one result in the order of the
chain, and in no other order. -/
theorem delivery_order_iff {g : GenesisData} {blocks : List Block} {c c' : Chain S R}
    (called : c.Called g blocks) {depth depth' : Nat} {calls order : List (Nat × Block)}
    (consecutive : Chain.Consecutive (depth + 1) c calls c')
    (perm : (order.map Prod.snd).Perm (calls.map Prod.snd))
    (past : ∀ call ∈ order, call.2.header.timestamp ≤ call.1) :
    (∃ d, Chain.feed (depth' + 1) order c = .ok () d ∧ d.headHash = c'.headHash ∧
      d.state.account = c'.state.account ∧
      ∀ n, d.getBlockhashByNumber n = c'.getBlockhashByNumber n) ↔
    order.map Prod.snd = calls.map Prod.snd := by
  constructor
  · rintro ⟨d, fed, -, -, same⟩
    obtain ⟨accepted, listed, run⟩ := Chain.feed_called called fed
    obtain ⟨s₀, rows, genesis⟩ := called.genesis
    exact Chain.order_of_index ((consecutive.called called).indexed genesis).1
      (run.indexed genesis).1 listed perm same
  · intro same
    exact ⟨c', consecutive.feed called same past, rfl, rfl, fun n => rfl⟩

end Orders

section Sample

open Sample

def secondBlock : Block :=
  { firstBlock [] with
    header := { (firstBlock []).header with
      prevhash := (firstBlock []).header.hash
      number := 2
      timestamp := 3 } }

theorem consecutive_blocks : ∃ c c' : Chain AddressRanges (PrefixTable Address),
    c.Called genesis6 [] ∧ Chain.Consecutive 1 c [(3, firstBlock []), (3, secondBlock)] c' := by
  obtain ⟨c, reachable, based, -⟩ := chain_of_passes (fun _ => true) (by decide)
  obtain ⟨t, p, first, headers⟩ := reachable.sane.accepts_empty (a := alice) rfl (by decide)
    (based []) rfl (show 2 ≤ 3 by decide) 0
  have follows : Based (c.extended (firstBlock []) t p).state.toAuxVars secondBlock :=
    ⟨⟨_, c.state.prevHeaders, headers, rfl, rfl, show 2 < 3 by decide,
      show 3 < 2 ^ 256 by decide⟩, rfl⟩
  obtain ⟨u, q, second, -⟩ := (reachable.extend first).sane.accepts_empty (a := alice) rfl
    (by decide) follows rfl (show 3 ≤ 3 by decide) 0
  exact ⟨c, _, reachable.called,
    .cons (by decide) first (.cons (by decide) second (.nil _))⟩

theorem in_order_delivered : ∃ c c' : Chain AddressRanges (PrefixTable Address),
    Chain.Consecutive 1 c [(3, firstBlock []), (3, secondBlock)] c' ∧
      ∃ d, Chain.feed 1 [(4, firstBlock []), (4, secondBlock)] c = .ok () d ∧
        d.headHash = c'.headHash ∧ d.state.account = c'.state.account ∧
        ∀ n, d.getBlockhashByNumber n = c'.getBlockhashByNumber n := by
  obtain ⟨c, c', called, consecutive⟩ := consecutive_blocks
  have past : ∀ call ∈ [(4, firstBlock []), (4, secondBlock)],
      call.2.header.timestamp ≤ call.1 := by decide
  have perm : ([(4, firstBlock []), (4, secondBlock)].map Prod.snd).Perm
      ([(3, firstBlock []), (3, secondBlock)].map Prod.snd) := List.Perm.refl _
  exact ⟨c, c', consecutive, (delivery_order_iff called consecutive perm past).mpr rfl⟩

/-- The second block arrives before its parent and is dropped. -/
theorem child_first_lost : ∃ c c' : Chain AddressRanges (PrefixTable Address),
    c.Called genesis6 [] ∧ Chain.Consecutive 1 c [(3, firstBlock []), (3, secondBlock)] c' ∧
      ¬ ∃ d, Chain.feed 1 [(3, secondBlock), (3, firstBlock [])] c = .ok () d ∧
        d.headHash = c'.headHash ∧ d.state.account = c'.state.account ∧
        ∀ n, d.getBlockhashByNumber n = c'.getBlockhashByNumber n := by
  obtain ⟨c, c', called, consecutive⟩ := consecutive_blocks
  refine ⟨c, c', called, consecutive, ?_⟩
  rintro ⟨d, fed, -, -, same⟩
  obtain ⟨accepted, listed, run⟩ := Chain.feed_called called fed
  obtain ⟨s₀, rows, genesis⟩ := called.genesis
  have order := Chain.order_of_index ((consecutive.called called).indexed genesis).1
    (run.indexed genesis).1 listed (List.Perm.swap _ _ []) same
  have number := congrArg (fun blocks : List Block => blocks.map (fun b => b.header.number)) order
  exact absurd number (by decide)

end Sample

end IPchain
