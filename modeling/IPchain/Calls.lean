import IPchain.Replay

/-! Runs of calls, those that raise among them. A call that raises may leave the accounts
half changed, but it leaves the headers and the indices alone, and no nonce goes back. -/

namespace IPchain

open Lib

section Nonces

variable {S : Type} [IPSet S]

def Undo.setsNonce (u : Undo S) : Bool :=
  match u.preval with
  | .nonce _ => true
  | .balance _ => false

def State.nonceMarks (s : State S) : (Address → Nat) × List (Undo S) :=
  (s.account.nonces, s.journal.filter Undo.setsNonce)

def State.Steady (s : State S) : Prop := s.journal.filter Undo.setsNonce = []

theorem State.nonceMarks_read (s : State S) (a : Address) :
    (s.getAndCacheAccount a).2.nonceMarks = s.nonceMarks := by
  simp only [nonceMarks, account_getAndCacheAccount, journal_getAndCacheAccount]

theorem State.nonceMarks_setBalance (s : State S) (a : Address) (b : Balance S) :
    (s.setBalance a b).nonceMarks = s.nonceMarks := by
  have journal : (s.setBalance a b).journal.filter Undo.setsNonce =
      s.journal.filter Undo.setsNonce := by
    rw [← s.journal_getAndCacheAccount a]
    rfl
  rw [nonceMarks, journal, setBalance, account_setParam]
  congr 1
  funext c
  by_cases same : c = a
  · subst same
    rw [Ledger.nonces, Function.update_self]
    rfl
  · rw [Ledger.nonces, Function.update_of_ne same]
    rfl

theorem steady_iff {s : State S} : s.Steady ↔ ∀ u ∈ s.journal, u.setsNonce = false := by
  rw [State.Steady, List.filter_eq_nil_iff]
  simp only [Bool.not_eq_true]

omit [IPSet S] in
theorem Undo.nonce_run {u : Undo S} (balance : u.setsNonce = false) (cache : Cache S)
    (a : Address) : ((u.run cache).lookup a).map (fun acct => acct.account.nonce) =
      (cache.lookup a).map fun acct => acct.account.nonce := by
  rw [u.lookup_run]
  split
  · simp only [setsNonce] at balance
    split at balance
    · cases balance
    · rename_i b preval
      rw [Option.map_map, preval]
      rfl
  · rfl

omit [IPSet S] in
theorem nonce_rollback {L : Nat} {journal : List (Undo S)} {cache : Cache S}
    (balances : ∀ u ∈ journal, u.setsNonce = false) (a : Address) :
    ((rollback L journal cache).2.lookup a).map (fun acct => acct.account.nonce) =
      (cache.lookup a).map fun acct => acct.account.nonce := by
  induction journal generalizing cache with
  | nil => rfl
  | cons u rest ih =>
      obtain ⟨first, others⟩ := List.forall_mem_cons.mp balances
      simp only [rollback]
      split
      · rw [ih others, u.nonce_run first]
      · rfl

omit [IPSet S] in
theorem rollback_suffix (L : Nat) (journal : List (Undo S)) (cache : Cache S) :
    (rollback L journal cache).1 <:+ journal := by
  induction journal generalizing cache with
  | nil => exact List.suffix_rfl
  | cons u rest ih =>
      simp only [rollback]
      split
      · exact (ih _).trans (List.suffix_cons u rest)
      · exact List.suffix_rfl

theorem State.nonces_unwind {s : State S} (steady : s.Steady) (L : Nat) :
    (s.unwind L).Steady ∧ (s.unwind L).account.nonces = s.account.nonces := by
  have balances := steady_iff.mp steady
  constructor
  · apply steady_iff.mpr
    intro u member
    exact balances u ((rollback_suffix L s.journal s.cache).subset member)
  · have nonce (t : State S) (a : Address) : t.account.nonces a =
        ((t.cache.lookup a).map fun acct => acct.account.nonce).getD (stored t.trie a).nonce := by
      simp only [Ledger.nonces, account]
      cases t.cache.lookup a <;> rfl
    funext a
    rw [nonce, nonce]
    change (((rollback L s.journal s.cache).2.lookup a).map _).getD _ = _
    rw [nonce_rollback balances a]
    rfl

/-- From one state to another the nonces may grow, and the other variables are kept. -/
structure State.Advances (s t : State S) : Prop where
  steady : t.Steady
  nonces : ∀ a, s.account.nonces a ≤ t.account.nonces a
  auxvars : t.toAuxVars = s.toAuxVars

theorem State.Advances.trans {s t u : State S} (one : s.Advances t) (two : t.Advances u) :
    s.Advances u :=
  ⟨two.steady, fun a => (one.nonces a).trans (two.nonces a), two.auxvars.trans one.auxvars⟩

theorem State.Advances.revert {s t : State S} (advances : s.Advances t) :
    s.Advances (finish (State.revert s.snapshot t)) := by
  obtain ⟨steady, nonces⟩ := nonces_unwind advances.steady s.snapshot.journalLength
  have later (a : Address) : s.account.nonces a ≤
      (t.unwind s.snapshot.journalLength).account.nonces a := by
    rw [nonces]
    exact advances.nonces a
  simp only [State.revert]
  split
  · exact ⟨steady, later, rfl⟩
  · split
    · rename_i depth
      have quiet : s.journal = [] := List.eq_nil_of_length_eq_zero depth
      refine ⟨rfl, fun a => ?_, rfl⟩
      have same := s.account_eq_stored quiet a
      rw [Ledger.nonces, same]
      exact Nat.le_refl _
    · exact ⟨steady, later, advances.auxvars⟩

theorem State.Alike.advances {s t : State S} (alike : s.Alike t) (steady : s.Steady) :
    s.Advances t := by
  refine ⟨?_, fun a => ?_, alike.auxvars⟩
  · rw [State.Steady, alike.journal]
    exact steady
  · rw [alike.account]

variable [Platform]

theorem applyTransaction_advances (tx : Transaction) (cached : Cached) {s : State S}
    (steady : s.Steady) : s.Advances (finish (applyTransaction tx cached s)) := by
  have auxvars := preserves_applyTransaction tx cached s
  cases run : applyTransaction tx cached s with
  | ok r t =>
      rw [run] at auxvars
      have step := (simulates_applyTransaction tx cached).ok run
      obtain ⟨a, V, step⟩ := applyTransaction_step step
      obtain ⟨_, _, -, rest⟩ := bind_eq_ok.mp run
      obtain ⟨_, u, -, committed⟩ := bind_eq_ok.mp rest
      refine ⟨?_, fun b => ?_, auxvars⟩
      · cases committed
        rfl
      · rw [finish, step.nonces]
        by_cases same : b = a
        · subst same
          rw [Function.update_self]
          exact Nat.le_succ _
        · rw [Function.update_of_ne same]
  | error e t =>
      rw [run] at auxvars
      have marks := spares_applyTransaction State.nonceMarks_read State.nonceMarks_setBalance tx
        cached s t e run
      obtain ⟨nonces, journal⟩ := Prod.mk.inj marks
      exact ⟨journal.trans steady, fun a => (congrFun nonces a).ge, auxvars⟩

theorem applyTransactions_advances (txs : List Transaction) (cached : Cached) {s : State S}
    (steady : s.Steady) : s.Advances (finish (applyTransactions txs cached s)) := by
  induction txs generalizing cached s with
  | nil => exact ⟨steady, fun a => Nat.le_refl _, rfl⟩
  | cons tx txs ih =>
      have first := applyTransaction_advances tx cached steady
      rw [applyTransactions, bind_run]
      cases run : applyTransaction tx cached s with
      | ok r t =>
          rw [run] at first
          exact first.trans (ih r.2 first.steady)
      | error e t =>
          rw [run] at first
          exact first

variable [TrieRoot] {R : Type} [Radix R Address]

theorem applyBlock_advances_of_error {block : Block} {s t : State S} {p q : R} {e : PyExc}
    (steady : s.Steady) (failed : applyBlock block (s, p) = .error e (t, q)) :
    q = p ∧ s.Advances t := by
  simp only [applyBlock] at failed
  cases processed : processBlock block s with
  | ok cached u =>
      simp only [processed] at failed
      cases failed
  | error e' u =>
      have advances : s.Advances u := by
        rcases processBlock_eq_error.mp processed with refused | ⟨-, stopped⟩
        · rcases basicValidation_cases block s with ⟨-, passed⟩ | ⟨-, e', refused'⟩
          · rw [passed] at refused
            cases refused
          · rw [refused'] at refused
            cases refused
            exact ⟨steady, fun a => Nat.le_refl _, rfl⟩
        · have loop := applyTransactions_advances block.transactions ∅ steady
          rw [stopped] at loop
          exact loop
      have reverted := advances.revert
      simp only [processed] at failed
      split at failed
      · cases result : State.revert s.snapshot u with
        | ok _ v =>
            simp only [result] at failed reverted
            cases failed
            exact ⟨rfl, reverted⟩
        | error e'' v =>
            simp only [result] at failed reverted
            cases failed
            exact ⟨rfl, reverted⟩
      · cases failed
        exact ⟨rfl, advances⟩

end Nonces

namespace Chain

variable {S R : Type} [IPSet S] [Radix R Address] [Platform] [TrieRoot] [Poststate] [StateRoot S]

/-- What a caller of `add_block` can get to, with the blocks it saw accepted, when it goes on
after a call that raised. -/
inductive Called (g : GenesisData) : List Block → Chain S R → Prop
  | start {c : Chain S R} (built : init g = .ok c) : Called g [] c
  | extend {blocks : List Block} {c c' : Chain S R} {block : Block} {now depth : Nat}
      (called : Called g blocks c) (added : addBlock now depth block c = .ok true c') :
      Called g (blocks ++ [block]) c'
  | refuse {blocks : List Block} {c c' : Chain S R} {block : Block} {now depth : Nat}
      (called : Called g blocks c) (refused : addBlock now depth block c = .ok false c') :
      Called g blocks c'
  | fail {blocks : List Block} {c c' : Chain S R} {block : Block} {now depth : Nat} {e : PyExc}
      (called : Called g blocks c) (raises : addBlock now depth block c = .error e c') :
      Called g blocks c'
  | pop {blocks : List Block} {c : Chain S R} (called : Called g blocks c) (i : Nat) :
      Called g blocks { c with timeQueue := c.timeQueue.eraseIdx i }
  | read {blocks : List Block} {c : Chain S R} (called : Called g blocks c) (a : Address) :
      Called g blocks { c with state := (c.state.getAndCacheAccount a).2 }

theorem Reachable.called {g : GenesisData} {blocks : List Block} {c : Chain S R}
    (reachable : c.Reachable g blocks) : c.Called g blocks := by
  induction reachable with
  | start built => exact .start built
  | extend _ added ih => exact .extend ih added
  | refuse _ refused ih => exact .refuse ih refused
  | pop _ i ih => exact .pop ih i
  | read _ a ih => exact .read ih a

omit [StateRoot S] in
theorem Anchored.failed {c c' : Chain S R} (anchored : c.Anchored) (steady : c.state.Steady)
    {block : Block} {now depth : Nat} {e : PyExc}
    (failed : addBlock now depth block c = .error e c') :
    ∃ s, c.state.Advances s ∧ c' = { c with state := s } := by
  cases depth with
  | zero =>
      cases failed
      exact ⟨c.state, ⟨steady, fun a => Nat.le_refl _, rfl⟩, rfl⟩
  | succ depth =>
      have outcome := addBlock_outcome anchored block now depth
      rw [failed] at outcome
      cases outcome with
      | failed s alike raises =>
          have advances := alike.advances steady
          obtain ⟨rfl, further⟩ := applyBlock_advances_of_error advances.steady raises
          exact ⟨_, advances.trans further, rfl⟩

omit [StateRoot S] [Poststate] in
theorem applyBlock_advances {c : Chain S R} (steady : c.state.Steady) {s t : State S} {block : Block}
    {p : R} (alike : c.state.Alike s) (applied : applyBlock block (s, c.patricia) = .ok () (t, p)) :
    t.Steady ∧ ∀ a, c.state.account.nonces a ≤ t.account.nonces a := by
  obtain ⟨-, cached, u, loop, rfl, -⟩ := applyBlock_eq_ok.mp applied
  have before := alike.advances steady
  have advances := applyTransactions_advances block.transactions ∅ before.steady
  rw [loop] at advances
  have whole := before.trans advances
  exact ⟨whole.steady, whole.nonces⟩

theorem Called.anchored {g : GenesisData} {blocks : List Block} {c : Chain S R}
    (called : c.Called g blocks) : c.Anchored ∧ c.state.Steady := by
  have kept {c : Chain S R} {s : State S} (anchored : c.Anchored) (advances : c.state.Advances s)
      (queue : List Block) :
      ({ c with state := s, timeQueue := queue } : Chain S R).Anchored ∧ s.Steady := by
    obtain ⟨header, older, newest, headed⟩ := anchored.headed
    refine ⟨⟨⟨header, older, ?_, headed⟩, anchored.orphanless⟩, advances.steady⟩
    exact (congrArg AuxVars.prevHeaders advances.auxvars).trans newest
  induction called with
  | start built =>
      have sane := sane_init built
      refine ⟨sane.anchored, ?_⟩
      rw [State.Steady, sane.quiet]
      rfl
  | extend called added ih =>
      obtain ⟨anchored, steady⟩ := ih
      obtain ⟨s, t, p, alike, applied, rfl⟩ := anchored.added added
      obtain ⟨steady', -⟩ := applyBlock_advances steady alike applied
      obtain ⟨-, cached, u, loop, rfl, -⟩ := applyBlock_eq_ok.mp applied
      exact ⟨⟨⟨_, u.prevHeaders, rfl, rfl⟩, anchored.orphanless⟩, steady'⟩
  | refuse called refused ih =>
      obtain ⟨anchored, steady⟩ := ih
      obtain ⟨s, queue, alike, rfl⟩ := anchored.refused refused
      exact kept anchored (alike.advances steady) queue
  | fail called raises ih =>
      obtain ⟨anchored, steady⟩ := ih
      obtain ⟨s, advances, rfl⟩ := anchored.failed steady raises
      exact kept anchored advances _
  | pop called i ih => exact ⟨⟨ih.1.headed, ih.1.orphanless⟩, ih.2⟩
  | @read blocks c called a ih =>
      exact kept ih.1 ((c.state.alike_read a).advances ih.2) c.timeQueue

/-- What holds at the start, is kept by a new head and by any progress of the nonces holds
throughout. -/
theorem Called.invariant {g : GenesisData} {P : List Block → Chain S R → Prop}
    (start : ∀ c, init g = .ok c → P [] c)
    (extend : ∀ blocks c block s t p, c.Anchored → c.state.Steady → P blocks c →
      c.state.Alike s → applyBlock block (s, c.patricia) = .ok () (t, p) →
        P (blocks ++ [block]) (c.extended block t p))
    (idle : ∀ blocks c s queue, P blocks c → c.state.Advances s →
      P blocks { c with state := s, timeQueue := queue })
    {blocks : List Block} {c : Chain S R} (called : c.Called g blocks) : P blocks c := by
  induction called with
  | start built => exact start _ built
  | extend called added ih =>
      obtain ⟨anchored, steady⟩ := called.anchored
      obtain ⟨s, t, p, alike, applied, rfl⟩ := anchored.added added
      exact extend _ _ _ s t p anchored steady ih alike applied
  | refuse called refused ih =>
      obtain ⟨anchored, steady⟩ := called.anchored
      obtain ⟨s, queue, alike, rfl⟩ := anchored.refused refused
      exact idle _ _ s queue ih (alike.advances steady)
  | fail called raises ih =>
      obtain ⟨anchored, steady⟩ := called.anchored
      obtain ⟨s, advances, rfl⟩ := anchored.failed steady raises
      exact idle _ _ s _ ih advances
  | pop called i ih =>
      exact idle _ _ _ _ ih ⟨called.anchored.2, fun a => Nat.le_refl _, rfl⟩
  | @read blocks c called a ih =>
      exact idle _ _ _ c.timeQueue ih ((c.state.alike_read a).advances called.anchored.2)

end Chain

end IPchain
