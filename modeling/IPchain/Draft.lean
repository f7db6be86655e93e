import IPchain.Failure
import IPchain.Service

/-! The copy of the state on which a block is put together. A transaction that raises on it may
leave what was received torn, which no later transaction of the pool depends on. -/

namespace IPchain

open Lib IPSet

section Worn

variable {S : Type} [IPSet S]

structure Worn (B : Book) (M : Ledger S) : Prop where
  nonce : M.book.nonce = B.nonce
  own : M.registry.own = B.registry.own
  delegated : M.registry.delegated = B.registry.delegated
  loopless : M.Loopless

theorem Worn.of_sound {L : Ledger S} (sound : L.Sound) : Worn L.book L :=
  ⟨rfl, rfl, rfl, sound.loopless⟩

theorem worn_cutReceived {B : Book} {M : Ledger S} (worn : Worn B M) {a s : Address} {r : S}
    (borrowed : (M a).balance.receivedIps.lookup s = some r) (rest : S) :
    Worn B (M.cutReceived a s rest) := by
  have other : a ≠ s := by
    rintro rfl
    rw [worn.loopless a] at borrowed
    cases borrowed
  have kept (b : Address) : Kept s ((M.cutReceived a s rest) b) (M b) ∧
      ((M.cutReceived a s rest) b).balance.ownIps = (M b).balance.ownIps := by
    by_cases same : b = a
    · subst same
      rw [Ledger.cutReceived_self]
      exact ⟨kept_cutReceived s (M b) rest, rfl⟩
    · rw [Ledger.cutReceived_ne M same]
      exact ⟨Kept.refl s (M b), rfl⟩
  refine ⟨?_, ?_, ?_, ?_⟩
  · rw [← worn.nonce]
    exact funext fun b => (kept b).1.nonce
  · rw [← worn.own]
    funext b
    simp only [Ledger.registry, (kept b).2]
  · rw [← worn.delegated]
    funext b
    simp only [Ledger.registry, (kept b).1.delegated]
  · intro b
    by_cases same : b = s
    · subst same
      rw [Ledger.cutReceived_ne M (Ne.symm other)]
      exact worn.loopless b
    · rw [(kept b).1.received b same]
      exact worn.loopless b

theorem worn_reclaim {B : Book} {M M' : Ledger S} (worn : Worn B M) {s : Address}
    {affected : List (Address × S)} {b : Balance S} {e : PyExc}
    (failed : reclaim s affected b M = .error e M') : Worn B M' := by
  induction affected generalizing b M with
  | nil => cases failed
  | cons head tail ih =>
      obtain ⟨add, ips⟩ := head
      rcases reclaim_cons_eq_error failed with ⟨rfl, -, -⟩ | ⟨d, r, -, ⟨borrowed, -⟩, rest⟩
      · exact worn
      · exact ih (worn_cutReceived worn borrowed _) rest

variable [Platform] {B : Book} {M M' : Ledger S} {tx : Transaction}

theorem Worn.accepts (worn : Worn B M) {s : Address} {V : IPNetwork}
    (accepts : M.book.Accepts tx s V) : B.Accepts tx s V := by
  refine ⟨accepts.signed, accepts.known, ?_, accepts.category, accepts.network, ?_⟩
  · rw [← worn.nonce]
    exact accepts.nonce
  · rw [← worn.own]
    exact accepts.owned

omit [Platform] in
theorem Worn.allows (worn : Worn B M) {s : Address} {V : IPNetwork}
    (allows : M.book.Allows tx s V) : B.Allows tx s V := by
  refine ⟨fun moves => ⟨(allows.moves moves).1, ?_⟩, allows.locates⟩
  have reclaimable := (allows.moves moves).2
  simp only [Reclaimable, Ledger.book, worn.delegated] at reclaimable ⊢
  exact reclaimable

omit [Platform] in
theorem Worn.after (worn : Worn B M) {s : Address} {V : IPNetwork}
    (book : M'.book = M.book.after tx s V) (loopless : M'.Loopless) :
    Worn (B.after tx s V) M' := by
  have registry : M'.registry = (M.book.after tx s V).registry := congrArg Book.registry book
  have nonce : M'.book.nonce = (M.book.after tx s V).nonce := congrArg Book.nonce book
  refine ⟨?_, ?_, ?_, loopless⟩
  · rw [nonce, Book.after, Book.after, worn.nonce]
  · rw [registry, Book.after, Book.after]
    simp only [Ledger.book]
    split <;> simp only [Registry.transfer, Registry.delegate, Registry.revoke, worn.own]
  · rw [registry, Book.after, Book.after]
    simp only [Ledger.book]
    split <;> simp only [Registry.transfer, Registry.delegate, Registry.revoke, worn.delegated]

theorem worn_failed (worn : Worn B M) {cached : Cached} {e : PyExc}
    (failed : applyTransaction tx cached M = .error e M') : Worn B M' := by
  rcases bind_eq_error.mp failed with invalid | ⟨_, L, validated, rest⟩
  · obtain ⟨rfl, -⟩ := validateTransaction_eq_error invalid
    exact worn
  · obtain ⟨⟨s, V, valid⟩, rfl, rfl⟩ := validateTransaction_eq_ok.mp validated
    rcases bind_eq_error.mp rest with stopped | ⟨c, _, -, finished⟩
    · have moved {debit credit : Address → IPNetwork → Balance S → Balance S}
          (run : moveIps tx debit credit cached L = .error e M') : Worn B M' := by
        obtain ⟨-, ⟨rfl, -⟩ | ⟨-, loop⟩⟩ := moveIps_eq_error valid run
        · exact worn
        · exact worn_reclaim worn loop
      have mapped {set : Balance S → List Bytes → Except PyExc (Balance S)}
          (run : (setMapping tx set >>= fun _ => pure cached) L = .error e M') : Worn B M' := by
        rw [(setMapping_eq_error valid.signed run).2]
        exact worn
      simp only [perform] at stopped
      split at stopped
      · exact moved stopped
      · split at stopped
        · exact moved stopped
        · split at stopped
          · exact mapped stopped
          · split at stopped
            · exact mapped stopped
            · cases stopped
    · cases finished

theorem worn_applied (worn : Worn B M) (accepted : tx.Accepted) {cached : Cached}
    {r : Bool × Cached} (applied : applyTransaction tx cached M = .ok r M') :
    ∃ s V, B.Accepts tx s V ∧ B.Allows tx s V ∧ Worn (B.after tx s V) M' := by
  obtain ⟨s, V, step⟩ := applyTransaction_step applied
  obtain ⟨-, -, done⟩ := applyTransaction_eq_ok.mp applied
  have applicable := perform_applicable worn.loopless accepted step.valid done
  exact ⟨s, V, worn.accepts (book_accepts_iff.mpr step.valid),
    worn.allows (book_allows_iff.mpr applicable),
    worn.after step.book (step.frame.loopless worn.loopless)⟩

end Worn

section Collect

variable {S : Type} [IPSet S] [Platform]

theorem collect_sublist (number : Nat) (pool : List Transaction) (s : State S) :
    (Service.collect number pool s).1.Sublist pool := by
  induction pool generalizing s with
  | nil => exact List.Sublist.slnil
  | cons tx pool ih =>
      simp only [Service.collect]
      split
      · split
        · exact (ih _).cons_cons tx
        · exact (ih _).cons tx
      · exact (ih _).cons tx

theorem collect_families (number : Nat) (pool : List Transaction) (s : State S) :
    Service.checkFamilies number (Service.collect number pool s).1 = .ok () := by
  induction pool generalizing s with
  | nil => rfl
  | cons tx pool ih =>
      simp only [Service.collect]
      split
      · rename_i family
        split
        · rw [Service.checkFamilies, if_neg (by omega), if_neg (by omega)]
          exact ih _
        · exact ih _
      · exact ih _

theorem collect_turns (number : Nat) {pool : List Transaction}
    (accepted : ∀ tx ∈ pool, tx.Accepted) {B : Book} {s : State S} (worn : Worn B s.account) :
    ∃ B', B.InTurn (Service.collect number pool s).1 B' := by
  induction pool generalizing B s with
  | nil => exact ⟨B, .nil B⟩
  | cons tx pool ih =>
      obtain ⟨first, others⟩ := List.forall_mem_cons.mp accepted
      have simulates := simulates_applyTransaction (S := S) tx ∅
      simp only [Service.collect]
      split
      · cases applied : applyTransaction tx ∅ s with
        | ok r t =>
            obtain ⟨a, V, accepts, allows, worn'⟩ :=
              worn_applied worn first (simulates.ok applied)
            obtain ⟨B', turns⟩ := ih others worn'
            exact ⟨B', .cons accepts allows turns⟩
        | error e t => exact ih others (worn_failed worn (simulates.error applied))
      · exact ih others worn

end Collect

end IPchain
