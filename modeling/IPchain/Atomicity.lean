import IPchain.Chain
import IPchain.Failure

/-! When a block that fails leaves the chain as it was. -/

namespace IPchain

open Lib

section Loop

variable {S : Type} [IPSet S] [Platform]

theorem applyTransactions_eq_error {σ : Type} [AccountStore σ S] {txs : List Transaction}
    {cached : Cached} {s t : σ} {e : PyExc} :
    applyTransactions txs cached s = .error e t ↔
      ∃ pre tx post c u, txs = pre ++ tx :: post ∧ applyTransactions pre cached s = .ok c u ∧
        applyTransaction tx c u = .error e t := by
  induction txs generalizing cached s with
  | nil => simp [applyTransactions, pure_run]
  | cons first rest ih =>
      rw [applyTransactions, bind_eq_error]
      constructor
      · rintro (failed | ⟨r, u, applied, failed⟩)
        · exact ⟨[], first, rest, cached, s, rfl, rfl, failed⟩
        · obtain ⟨pre, tx, post, c, v, rfl, done, stopped⟩ := ih.mp failed
          exact ⟨first :: pre, tx, post, c, v, rfl, bind_eq_ok.mpr ⟨r, u, applied, done⟩, stopped⟩
      · rintro ⟨pre, tx, post, c, u, split, done, stopped⟩
        cases pre with
        | nil =>
            cases split
            cases done
            exact Or.inl stopped
        | cons head pre =>
            cases split
            obtain ⟨r, v, applied, done⟩ := bind_eq_ok.mp done
            exact Or.inr ⟨r, v, applied, ih.mpr ⟨pre, tx, post, c, u, rfl, done, stopped⟩⟩

/-- The first transaction of the block that cannot take its turn raises what is caught, or
nothing has been written when it raises. -/
def Undoes [TrieRoot] (s : AuxVars) (L : Ledger S) (block : Block) : Prop :=
  Based s block → ∀ pre tx post B, block.transactions = pre ++ tx :: post → L.book.InTurn pre B →
    (∀ a V, ¬ (B.Accepts tx a V ∧ B.Allows tx a V)) → B.Reverts tx ∨ (pre = [] ∧ ¬ Torn L tx)

theorem refused_iff {L : Ledger S} (sound : L.Sound) {tx : Transaction} (accepted : tx.Accepted)
    (cached : Cached) : (∀ a V, ¬ (L.book.Accepts tx a V ∧ L.book.Allows tx a V)) ↔
      ∃ e L', applyTransaction tx cached L = .error e L' := by
  constructor
  · intro refused
    cases run : applyTransaction tx cached L with
    | ok r L' =>
        obtain ⟨a, V, accepts, allows, -⟩ := applyTransaction_book sound accepted run
        exact absurd ⟨accepts, allows⟩ (refused a V)
    | error e L' => exact ⟨e, L', rfl⟩
  · rintro ⟨e, L', failed⟩ a V ⟨accepts, allows⟩
    obtain ⟨c, M, applied⟩ := (admitted_iff sound accepted cached).mpr ⟨a, V, accepts, allows⟩
    rw [applied] at failed
    cases failed

variable [TrieRoot] {R : Type} [Radix R Address]

theorem applyBlock_restores_iff {s : State S} (quiet : s.journal = []) (sound : s.account.Sound)
    {block : Block} (accepted : ∀ tx ∈ block.transactions, tx.Accepted) (p : R) :
    (∀ e t q, applyBlock block (s, p) = .error e (t, q) → t.account = s.account) ↔
      Undoes s.toAuxVars s.account block := by
  have simulates := simulates_applyTransactions (S := S) block.transactions ∅
  constructor
  · intro restores based pre tx post B split turns refused
    have inPre (u : Transaction) (member : u ∈ pre) : u.Accepted :=
      accepted u (split ▸ List.mem_append_left _ member)
    have last : tx.Accepted := accepted tx (split ▸ by simp)
    obtain ⟨c, M, done, rfl, soundM⟩ := applyTransactions_of_turns inPre sound ∅ turns
    obtain ⟨e, L', failed⟩ := (refused_iff soundM last c).mp refused
    have failure := applyTransaction_failed soundM last failed
    obtain ⟨t, loop, rfl⟩ := simulates.exists_error
      (applyTransactions_eq_error.mpr ⟨pre, tx, post, c, M, split, done, failed⟩)
    cases caught : e.caught with
    | true => exact Or.inl (failure.caught.mp caught)
    | false =>
        have same := restores e t p (applyBlock_of_error p based caught loop)
        have first : pre = [] := by
          by_contra nonempty
          obtain ⟨a, grows⟩ := turns.grows nonempty
          have nonce := failure.nonce a
          rw [same] at nonce
          exact absurd nonce (Nat.ne_of_lt grows)
        subst first
        cases done
        exact Or.inr ⟨rfl, failure.same.mp same⟩
  · intro undoes e t q run
    obtain ⟨-, ⟨-, account⟩ | ⟨based, uncaught, loop⟩⟩ := applyBlock_eq_error quiet run
    · exact account
    · obtain ⟨pre, tx, post, c, M, split, done, failed⟩ :=
        applyTransactions_eq_error.mp (simulates.error loop)
      have inPre (u : Transaction) (member : u ∈ pre) : u.Accepted :=
        accepted u (split ▸ List.mem_append_left _ member)
      have last : tx.Accepted := accepted tx (split ▸ by simp)
      have soundM := applyTransactions_sound sound done
      have failure := applyTransaction_failed soundM last failed
      have turns := applyTransactions_turns inPre sound done
      rcases undoes based pre tx post _ split turns ((refused_iff soundM last c).mpr ⟨e, _, failed⟩)
        with reverts | ⟨rfl, whole⟩
      · rw [failure.caught.mpr reverts] at uncaught
        cases uncaught
      · cases done
        exact failure.same.mpr whole

theorem applyBlock_error_frame {s t : State S} (quiet : s.journal = []) {block : Block}
    {p q : R} {e : PyExc} (run : applyBlock block (s, p) = .error e (t, q)) :
    t.toAuxVars = s.toAuxVars ∧ q = p := by
  obtain ⟨same, ⟨auxvars, -⟩ | ⟨-, -, loop⟩⟩ := applyBlock_eq_error quiet run
  · exact ⟨auxvars, same⟩
  · exact ⟨(preserves_applyTransactions _ _).error loop, same⟩

end Loop

section Chain

variable {S R : Type} [IPSet S] [Radix R Address]

/-- Nothing that a caller or a query can see differs between the two chains. -/
structure Chain.Unchanged (c c' : Chain S R) : Prop where
  nonce : ∀ a, (c'.state.getNonce a).1 = (c.state.getNonce a).1
  balance : ∀ a, (c'.state.getBalance a).1 = (c.state.getBalance a).1
  prevHeaders : c'.state.prevHeaders = c.state.prevHeaders
  blockNumber : c'.state.blockNumber = c.state.blockNumber
  patricia : c'.patricia = c.patricia
  headHash : c'.headHash = c.headHash
  blockIndex : c'.blockIndex = c.blockIndex
  txIndex : c'.txIndex = c.txIndex

omit [Radix R Address] in
theorem Chain.unchanged_iff {c : Chain S R} {t : State S} {q : R} {queue : List Block} :
    c.Unchanged { c with state := t, patricia := q, timeQueue := queue } ↔
      t.account = c.state.account ∧ t.prevHeaders = c.state.prevHeaders ∧
        t.blockNumber = c.state.blockNumber ∧ q = c.patricia := by
  constructor
  · rintro ⟨nonce, balance, prevHeaders, blockNumber, patricia, -⟩
    simp only [State.getNonce_fst, State.getBalance_fst] at nonce balance
    refine ⟨funext fun a => ?_, prevHeaders, blockNumber, patricia⟩
    exact Account.ext (nonce a) (balance a)
  · rintro ⟨account, prevHeaders, blockNumber, patricia⟩
    refine ⟨?_, ?_, prevHeaders, blockNumber, patricia, rfl, rfl, rfl⟩ <;>
      · intro a
        simp only [State.getNonce_fst, State.getBalance_fst, account]

variable [Platform] [TrieRoot] [Poststate] [StateRoot S]

/-- A block that is not added leaves the chain as it was, and so does one whose application
raises, if and only if the first transaction that fails in its turn raises what `apply_block`
catches, or is the first of the block and raises before it wrote a borrower back. -/
theorem addBlock_all_or_nothing_iff {g : GenesisData} {blocks : List Block} {c : Chain S R}
    (reachable : c.Reachable g blocks) {block : Block}
    (accepted : ∀ tx ∈ block.transactions, tx.Accepted) :
    ((∀ e s p, applyBlock block (c.state, c.patricia) = .error e (s, p) →
        c.Unchanged { c with state := s, patricia := p }) ∧
      ∀ now depth, (∀ e c', Chain.addBlock now depth block c = .error e c' → c.Unchanged c') ∧
        ∀ c', Chain.addBlock now depth block c = .ok false c' → c.Unchanged c') ↔
      Undoes c.state.toAuxVars c.state.account block := by
  have sane := reachable.sane
  constructor
  · rintro ⟨raises, -⟩
    refine (applyBlock_restores_iff sane.quiet sane.sound accepted c.patricia).mp ?_
    intro e s p failed
    exact (Chain.unchanged_iff.mp (raises e s p failed)).1
  · intro undoes
    have restores {s : State S} (alike : c.state.Alike s) {e : PyExc} {t : State S} {p : R}
        (failed : applyBlock block (s, c.patricia) = .error e (t, p)) :
        c.Unchanged { c with state := t, patricia := p } := by
      have quiet := alike.journal.trans sane.quiet
      have sound : s.account.Sound := alike.account ▸ sane.sound
      rw [← alike.account, ← alike.auxvars] at undoes
      have account := (applyBlock_restores_iff quiet sound accepted _).mpr undoes e t p failed
      obtain ⟨auxvars, tree⟩ := applyBlock_error_frame quiet failed
      refine Chain.unchanged_iff.mpr ⟨account.trans alike.account, ?_, ?_, tree⟩
      · exact congrArg AuxVars.prevHeaders (auxvars.trans alike.auxvars)
      · exact congrArg AuxVars.blockNumber (auxvars.trans alike.auxvars)
    have refused {s : State S} (alike : c.state.Alike s) (queue : List Block) :
        c.Unchanged { c with state := s, timeQueue := queue } :=
      Chain.unchanged_iff.mpr ⟨alike.account, congrArg AuxVars.prevHeaders alike.auxvars,
        congrArg AuxVars.blockNumber alike.auxvars, rfl⟩
    refine ⟨fun e s p => restores ⟨rfl, rfl, rfl, rfl⟩, fun now depth => ?_⟩
    cases depth with
    | zero =>
        refine ⟨fun e c' failed => ?_, fun c' returned => by cases returned⟩
        cases failed
        exact refused ⟨rfl, rfl, rfl, rfl⟩ c.timeQueue
    | succ depth =>
        have outcome := Chain.addBlock_outcome sane.anchored block now depth
        constructor
        · intro e c' failed
          rw [failed] at outcome
          cases outcome with
          | failed s alike raises => exact restores alike raises
        · intro c' returned
          rw [returned] at outcome
          cases outcome with
          | refused s queue alike => exact refused alike queue

end Chain

section Sample

open Sample

/-- A block with the wrong nonce at its front is refused without a trace. -/
theorem stale_block_unchanged : ∃ c : Chain AddressRanges (PrefixTable Address),
    c.Reachable genesis6 [] ∧ ∀ e s p,
      applyBlock (firstBlock [move 0 alice carol 7 (net6 0 48)]) (c.state, c.patricia) =
        .error e (s, p) → c.Unchanged { c with state := s, patricia := p } := by
  obtain ⟨c, reachable, based, -, passes⟩ := chain_of_passes
    (fun s => (s.getNonce alice).1 = 0) (by decide)
  have accepted : (move 0 alice carol 7 (net6 0 48)).Accepted :=
    ⟨7, 0, .bytes carol.bytes, 2, .bytes (valueOf (net6 0 48)), .bytes [], 0, 27, 1, 1, rfl⟩
  refine ⟨c, reachable, ((addBlock_all_or_nothing_iff reachable
    (List.forall_mem_singleton.mpr accepted)).mpr ?_).1⟩
  intro _ pre tx post B split turns refused
  cases pre with
  | cons head pre => simp [firstBlock] at split
  | nil =>
      cases split
      refine Or.inr ⟨rfl, ?_⟩
      rintro ⟨s, V, accepts, -⟩
      cases accepts.signed
      have nonce : (c.state.getNonce alice).1 = 7 := by
        rw [State.getNonce_fst]
        exact accepts.nonce
      simp [nonce] at passes

def twice : List Transaction :=
  [move 0 alice carol 0 (net6 0 48), move 0 alice carol 0 (net6 1 48)]

/-- The block passes validation, its second transaction raises InvalidNonce, and the first one
is there to stay. -/
theorem twice_half_applied : ∃ (c : Chain AddressRanges (PrefixTable Address))
    (s v : State AddressRanges) (p : PrefixTable Address),
    c.Reachable genesis6 [] ∧ validateBlock (firstBlock twice) c.state = .ok true v ∧
      applyBlock (firstBlock twice) (c.state, c.patricia) = .error ⟨.invalidNonce, ""⟩ (s, p) ∧
      ¬ c.Unchanged { c with state := s, patricia := p } := by
  obtain ⟨c, reachable, based, -, passes⟩ := chain_of_passes
    (fun s => (owns s alice (net6 0 48) && owns s alice (net6 1 48)) &&
      ((s.getNonce alice).1 = 0 && RunFails (applyTransactions twice ∅ s) fun e t =>
        e = ⟨.invalidNonce, ""⟩ && (t.getNonce alice).1 = 1)) (by decide)
  simp only [Bool.and_eq_true, decide_eq_true_eq] at passes
  obtain ⟨⟨first, second⟩, zero, raises⟩ := passes
  obtain ⟨e, t, failed, tested⟩ := runFails_iff.mp raises
  simp only [Bool.and_eq_true, decide_eq_true_eq] at tested
  obtain ⟨rfl, one⟩ := tested
  have accepts : ∀ tx ∈ twice, ∃ a V, c.state.account.book.Accepts tx a V :=
    List.forall_mem_cons.mpr
      ⟨⟨alice, _, accepts_move (by decide) (by decide) zero (by decide) first⟩,
        List.forall_mem_singleton.mpr
          ⟨alice, _, accepts_move (by decide) (by decide) zero (by decide) second⟩⟩
  obtain ⟨v, validated⟩ := validateBlock_ok_iff.mpr ⟨⟨alice, rfl, by decide⟩, based twice, accepts⟩
  refine ⟨c, t, v, c.patricia, reachable, validated,
    applyBlock_of_error c.patricia (based twice) rfl failed, fun same => ?_⟩
  have nonce := same.nonce alice
  simp only at nonce
  rw [zero, one] at nonce
  cases nonce

end Sample

end IPchain
