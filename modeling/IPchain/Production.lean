import IPchain.Commitment
import IPchain.Index
import IPchain.Pool

/-! What the calls of a service do, and what holds between two of them. -/

namespace IPchain

open Lib

namespace Service

section Calls

variable {S R : Type} [IPSet S]

theorem onState_eq_ok {α : Type} {x : EStateM PyExc (State S) α} {svc svc' : Service S R} {a : α} :
    onState x svc = .ok a svc' ↔ ∃ s, x svc.chain.state = .ok a s ∧
      svc' = { svc with chain := { svc.chain with state := s } } := by
  simp only [onState, onChain]
  cases x svc.chain.state with
  | ok b s => simp [eq_comm]
  | error e s => simp

theorem onState_eq_error {α : Type} {x : EStateM PyExc (State S) α} {svc svc' : Service S R}
    {e : PyExc} : onState x svc = .error e svc' ↔ ∃ s, x svc.chain.state = .error e s ∧
      svc' = { svc with chain := { svc.chain with state := s } } := by
  simp only [onState, onChain]
  cases x svc.chain.state with
  | ok b s => simp
  | error e' s => simp [eq_comm]

variable [Platform]

theorem addPendingTransaction_valid (svc : Service S R) {tx : Transaction} {a : Address}
    {V : IPNetwork} (accepts : svc.chain.state.account.book.Accepts tx a V) :
    ∃ s, svc.chain.state.Alike s ∧ addPendingTransaction tx svc =
      .ok () ⟨{ svc.chain with state := s }, svc.transactions ++ [tx]⟩ := by
  have alike := alike_validateTransaction tx svc.chain.state
  obtain ⟨b, s, run⟩ := validateTransaction_ok_iff.mpr ⟨a, V, accepts⟩
  rw [run] at alike
  have validated := onState_eq_ok.mpr ⟨s, run, (rfl : _ = ({ svc with
    chain := { svc.chain with state := s } } : Service S R))⟩
  refine ⟨s, alike, ?_⟩
  rw [addPendingTransaction, bind_of_ok validated, accepts.signed]
  exact congrFun (if_neg accepts.known) _

theorem addPendingTransaction_invalid {tx : Transaction} {svc : Service S R}
    (refused : ¬ ∃ a V, svc.chain.state.account.book.Accepts tx a V) :
    ∃ e s, svc.chain.state.Alike s ∧ addPendingTransaction tx svc =
      .error e { svc with chain := { svc.chain with state := s } } := by
  have alike := alike_validateTransaction tx svc.chain.state
  cases run : validateTransaction tx svc.chain.state with
  | ok b s => exact absurd (validateTransaction_ok_iff.mp ⟨b, s, run⟩) refused
  | error e s =>
      rw [run] at alike
      have validated := onState_eq_error.mpr ⟨s, run, (rfl : _ = ({ svc with
        chain := { svc.chain with state := s } } : Service S R))⟩
      exact ⟨e, s, alike, bind_of_error validated _⟩

variable [Radix R Address] [TrieRoot] [Poststate]

theorem addBlock_eq_ok {now depth : Nat} {block : Block} {svc svc' : Service S R} :
    addBlock now depth block svc = .ok () svc' ↔
      checkFamilies block.header.number block.transactions = .ok () ∧
        ∃ b c, Chain.addBlock now depth block svc.chain = .ok b c ∧
          svc' = purge block { svc with chain := c } := by
  rw [addBlock, lift_bind_eq_ok]
  constructor
  · rintro ⟨_, families, run⟩
    obtain ⟨b, m, called, rest⟩ := bind_eq_ok.mp run
    simp only [onChain] at called
    split at called
    · rename_i b' c added
      cases called
      cases rest
      exact ⟨families, b, c, added, rfl⟩
    · cases called
  · rintro ⟨families, b, c, added, rfl⟩
    refine ⟨(), families, bind_eq_ok.mpr ⟨b, { svc with chain := c }, ?_, rfl⟩⟩
    simp only [onChain, added]

theorem processTimeQueue_none (now depth : Nat) (c : Chain S R) :
    Chain.processTimeQueue now depth none c = .ok () c := by
  simp only [Chain.processTimeQueue]
  cases c.timeQueue.length with
  | zero => rfl
  | succ turns =>
      simp only [Chain.processTimeQueueFrom]
      cases c.timeQueue[0]? with
      | none => rfl
      | some block => rfl

variable [StateRoot S] [TrieKeys S] [Config]

def filled (svc : Service S R) (now : Nat) (coinbase : Address)
    (randomNumber groupPubkey groupSig : Bytes) (count : Nat) : Block :=
  { draft svc.chain now coinbase randomNumber groupPubkey groupSig count with
    transactions := (collect (svc.chain.state.blockNumber + 1) svc.transactions
      (State.fromSnapshot svc.chain.state.toSnapshot.1)).1 }

def scanned (svc : Service S R) : Service S R :=
  { svc with chain := { svc.chain with state := svc.chain.state.toSnapshot.2.toSnapshot.2 } }

section Made

variable {now depth : Nat} {coinbase : Item} {randomNo : Bytes} {groupKey : Option Bytes}
  {groupSig : Bytes} {count : Nat} {svc svc' : Service S R}

theorem createBlock_eq_ok {block : Block} :
    createBlock now depth coinbase randomNo groupKey groupSig count svc = .ok block svc' ↔
      ∃ a key randomNumber, normalizeAddress coinbase = .ok a ∧
        headerKey (svc.chain.state.blockNumber + 1) groupKey = .ok key ∧
        parseAsBin randomNo = .ok randomNumber ∧
        createTries (svc.filled now a randomNumber key groupSig count)
          svc.scanned.chain.state = .ok block ∧ svc' = svc.scanned := by
  have queue : onChain (Chain.processTimeQueue now depth none) svc = .ok () svc := by
    simp only [onChain, processTimeQueue_none]
  constructor
  · intro run
    obtain ⟨_, m, first, run⟩ := bind_eq_ok.mp run
    rw [queue] at first
    cases first
    obtain ⟨a, coinbase, run⟩ := lift_bind_eq_ok.mp run
    obtain ⟨key, grouped, run⟩ := lift_bind_eq_ok.mp run
    obtain ⟨randomNumber, parsed, run⟩ := lift_bind_eq_ok.mp run
    obtain ⟨snapshot, m, read, run⟩ := bind_eq_ok.mp run
    obtain ⟨s, same, rfl⟩ := onState_eq_ok.mp read
    cases same
    obtain ⟨t, tries, rfl⟩ := onState_eq_ok.mp run
    split at tries
    · rename_i made done
      cases tries
      exact ⟨a, key, randomNumber, coinbase, grouped, parsed, done, rfl⟩
    · cases tries
  · rintro ⟨a, key, randomNumber, coinbase, grouped, parsed, tries, rfl⟩
    apply bind_eq_ok.mpr ⟨(), svc, queue, ?_⟩
    apply lift_bind_eq_ok.mpr ⟨a, coinbase, ?_⟩
    apply lift_bind_eq_ok.mpr ⟨key, grouped, ?_⟩
    apply lift_bind_eq_ok.mpr ⟨randomNumber, parsed, ?_⟩
    apply bind_eq_ok.mpr ⟨svc.chain.state.toSnapshot.1, _,
      onState_eq_ok.mpr ⟨svc.chain.state.toSnapshot.2, rfl, rfl⟩, ?_⟩
    apply onState_eq_ok.mpr ⟨svc.scanned.chain.state, ?_, rfl⟩
    simp only [filled, scanned] at tries ⊢
    rw [tries]

theorem createBlock_error {e : PyExc}
    (failed : createBlock now depth coinbase randomNo groupKey groupSig count svc = .error e svc') :
    ∃ s, svc.chain.state.Alike s ∧ svc' = { svc with chain := { svc.chain with state := s } } := by
  have queue : onChain (Chain.processTimeQueue now depth none) svc = .ok () svc := by
    simp only [onChain, processTimeQueue_none]
  have same := State.Alike.refl svc.chain.state
  rcases bind_eq_error.mp failed with first | ⟨_, m, first, run⟩
  · rw [queue] at first
    cases first
  · rw [queue] at first
    cases first
    rcases lift_bind_eq_error.mp run with ⟨-, rfl⟩ | ⟨a, -, run⟩
    · exact ⟨_, same, rfl⟩
    · rcases lift_bind_eq_error.mp run with ⟨-, rfl⟩ | ⟨key, -, run⟩
      · exact ⟨_, same, rfl⟩
      · rcases lift_bind_eq_error.mp run with ⟨-, rfl⟩ | ⟨randomNumber, -, run⟩
        · exact ⟨_, same, rfl⟩
        · rcases bind_eq_error.mp run with read | ⟨snapshot, m, read, run⟩
          · obtain ⟨s, fails, -⟩ := onState_eq_error.mp read
            cases fails
          · obtain ⟨s, done, rfl⟩ := onState_eq_ok.mp read
            cases done
            obtain ⟨t, tries, rfl⟩ := onState_eq_error.mp run
            split at tries
            · cases tries
            · cases tries
              exact ⟨_, (State.alike_toSnapshot _).trans (State.alike_toSnapshot _), rfl⟩

end Made

end Calls

section Ready

variable {S R : Type} [IPSet S] [Platform]

/-- The chain is sane, its state has the number of the head, and the pool is stocked. -/
structure Ready (svc : Service S R) : Prop where
  sane : svc.chain.Sane
  numbered : ∀ header older, svc.chain.state.prevHeaders = header :: older →
    svc.chain.state.blockNumber = header.number
  stocked : Stocked svc.chain.state.account.book svc.transactions

theorem Ready.idle {svc : Service S R} (ready : svc.Ready) {s : State S}
    (alike : svc.chain.state.Alike s) (queue : List Block) :
    Ready (⟨{ svc.chain with state := s, timeQueue := queue }, svc.transactions⟩ : Service S R) := by
  refine ⟨ready.sane.alike alike queue, ?_, ?_⟩
  · rw [alike.auxvars]
    exact ready.numbered
  · rw [alike.account]
    exact ready.stocked

theorem Ready.pending {svc svc' : Service S R} (ready : svc.Ready) {tx : Transaction}
    (accepted : tx.Accepted) (genuine : tx.Genuine)
    (added : addPendingTransaction tx svc = .ok () svc') : svc'.Ready := by
  by_cases valid : ∃ a V, svc.chain.state.account.book.Accepts tx a V
  · obtain ⟨a, V, accepts⟩ := valid
    obtain ⟨s, alike, added'⟩ := addPendingTransaction_valid svc accepts
    rw [added] at added'
    cases added'
    obtain ⟨sane, numbered, stocked⟩ := ready.idle alike svc.chain.timeQueue
    have valid := (congrArg (fun account => account.book.Accepts tx a V) alike.account).mpr accepts
    refine ⟨sane, numbered, ?_, ?_, ?_⟩
    · exact List.forall_mem_append.mpr ⟨stocked.accepted, List.forall_mem_singleton.mpr accepted⟩
    · exact List.forall_mem_append.mpr ⟨stocked.genuine, List.forall_mem_singleton.mpr genuine⟩
    · exact List.forall_mem_append.mpr
        ⟨stocked.valid, List.forall_mem_singleton.mpr ⟨a, V, valid⟩⟩
  · obtain ⟨e, s, -, failed⟩ := addPendingTransaction_invalid valid
    rw [added] at failed
    cases failed

theorem Ready.refused {svc svc' : Service S R} (ready : svc.Ready) {tx : Transaction} {e : PyExc}
    (failed : addPendingTransaction tx svc = .error e svc') : svc'.Ready := by
  by_cases valid : ∃ a V, svc.chain.state.account.book.Accepts tx a V
  · obtain ⟨a, V, accepts⟩ := valid
    obtain ⟨s, -, added⟩ := addPendingTransaction_valid svc accepts
    rw [failed] at added
    cases added
  · obtain ⟨e', s, alike, failed'⟩ := addPendingTransaction_invalid valid
    rw [failed] at failed'
    cases failed'
    exact ready.idle alike svc.chain.timeQueue

theorem ready_purge {svc : Service S R} (sane : svc.chain.Sane)
    (numbered : ∀ header older, svc.chain.state.prevHeaders = header :: older →
      svc.chain.state.blockNumber = header.number)
    (accepted : ∀ tx ∈ svc.transactions, tx.Accepted)
    (genuine : ∀ tx ∈ svc.transactions, tx.Genuine) (block : Block) :
    Ready (svc.purge block) := by
  obtain ⟨pool, s, alike, chain⟩ := purge_eq block svc (Consonant.of_genuine genuine)
  have sublist := removeAll_sublist Transaction.same block.transactions svc.transactions
  refine ⟨?_, ?_, ?_, ?_, ?_⟩
  · rw [chain]
    exact sane.alike alike svc.chain.timeQueue
  · rw [chain]
    simp only [alike.auxvars]
    exact numbered
  · intro tx member
    rw [pool] at member
    exact accepted tx (sublist.subset (List.mem_of_mem_filter member))
  · intro tx member
    rw [pool] at member
    exact genuine tx (sublist.subset (List.mem_of_mem_filter member))
  · intro tx member
    rw [pool] at member
    rw [chain]
    simp only [alike.account]
    simpa using (List.mem_filter.mp member).2

variable [Radix R Address] [TrieRoot] [Poststate]

theorem Ready.added {svc svc' : Service S R} (ready : svc.Ready) {block : Block} {now depth : Nat}
    (added : addBlock now depth block svc = .ok () svc') : svc'.Ready := by
  obtain ⟨-, b, c, called, rfl⟩ := addBlock_eq_ok.mp added
  cases b with
  | true =>
      obtain ⟨s, t, p, alike, applied, rfl⟩ := ready.sane.anchored.added called
      have sane : (Service.mk (svc.chain.extended block t p) svc.transactions).chain.Sane :=
        ready.sane.extended alike applied
      apply ready_purge sane ?_ ready.stocked.accepted ready.stocked.genuine
      obtain ⟨-, cached, u, -, rfl, -⟩ := applyBlock_eq_ok.mp applied
      intro header older newest
      cases newest
      rfl
  | false =>
      obtain ⟨s, queue, alike, rfl⟩ := ready.sane.anchored.refused called
      obtain ⟨sane, numbered, stocked⟩ := ready.idle alike queue
      exact ready_purge sane numbered stocked.accepted stocked.genuine block

end Ready

end Service

end IPchain
