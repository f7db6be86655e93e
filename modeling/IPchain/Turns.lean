import IPchain.Applicability
import IPchain.ApplyBlock

/-! The book that the registry keeps: who owns and lends what, and the next nonce of every
account. Transactions take their turns in it, and the program follows it step by step. -/

namespace IPchain

open Lib IPSet

structure Book where
  nonce : Address → Nat
  registry : Registry Address IPAddress

/-- What `s` has lent out of `V` is lent to others, and the parts can be measured. -/
def Reclaimable (r : Registry Address IPAddress) (s : Address) (V : Set IPAddress) : Prop :=
  ∀ b, (V ∩ r.delegated s b).ncard ≤ maxint ∧
    ((V ∩ r.delegated s b).Nonempty → b ≠ s ∧ (r.delegated s b \ V).ncard ≤ maxint)

namespace Book

variable [Platform]

/-- `s` signed the transaction, it is next in line, and `s` owns the network `V` it moves. -/
structure Accepts (B : Book) (tx : Transaction) (s : Address) (V : IPNetwork) : Prop where
  signed : tx.sender = .ok s
  known : s ≠ nullAddress
  nonce : B.nonce s = tx.nonce
  category : tx.category ≤ 3
  network : tx.ipNetwork = .ok V
  owned : tx.category = 0 ∨ tx.category = 1 → V.addresses ⊆ B.registry.own s

structure Allows (B : Book) (tx : Transaction) (s : Address) (V : IPNetwork) : Prop where
  moves : tx.category = 0 ∨ tx.category = 1 →
    tx.toAddr ≠ none ∧ Reclaimable B.registry s V.addresses
  locates : tx.category = 3 → [] ∉ tx.metadata.elements

theorem Accepts.unique {B C : Book} {tx : Transaction} {s t : Address} {V W : IPNetwork}
    (first : B.Accepts tx s V) (second : C.Accepts tx t W) : s = t ∧ V = W := by
  have signed := first.signed
  have network := first.network
  rw [second.signed] at signed
  rw [second.network] at network
  cases signed
  cases network
  exact ⟨rfl, rfl⟩

omit [Platform] in
/-- The book after a transaction of `s` over `V`. -/
def after (B : Book) (tx : Transaction) (s : Address) (V : IPNetwork) : Book where
  nonce := Function.update B.nonce s (B.nonce s + 1)
  registry :=
    match tx.category, tx.toAddr with
    | 0, some t => B.registry.transfer s t V.addresses
    | 1, some t => B.registry.delegate s t V.addresses
    | _, _ => B.registry

/-- The transactions are entered one after another. -/
inductive InTurn : Book → List Transaction → Book → Prop
  | nil (B : Book) : InTurn B [] B
  | cons {B B' : Book} {tx : Transaction} {txs : List Transaction} {s : Address} {V : IPNetwork}
      (accepts : B.Accepts tx s V) (allows : B.Allows tx s V)
      (rest : InTurn (B.after tx s V) txs B') : InTurn B (tx :: txs) B'

omit [Platform] in
theorem nonce_after_self (B : Book) (tx : Transaction) (s : Address) (V : IPNetwork) :
    (B.after tx s V).nonce s = B.nonce s + 1 := Function.update_self _ _ _

section Others

omit [Platform]

variable (B : Book) (tx : Transaction) {s a : Address} (V : IPNetwork) (other : a ≠ s)

include other

theorem nonce_after : (B.after tx s V).nonce a = B.nonce a := Function.update_of_ne other _ _

theorem own_after : B.registry.own a ⊆ (B.after tx s V).registry.own a := by
  intro x held
  simp only [after]
  split
  · exact (B.registry.mem_own_transfer a x).mpr (by rw [if_neg other]; exact Or.inl held)
  · exact held
  · exact held

theorem delegated_after :
    (B.after tx s V).registry.delegated a = B.registry.delegated a := by
  funext b
  ext x
  simp only [after]
  split
  · exact (B.registry.mem_delegated_revoke a b x).trans (by simp [other])
  · exact (B.registry.mem_delegated_delegate a b x).trans (by simp [other])
  · exact Iff.rfl

end Others

theorem InTurn.nonce_mono {B B' : Book} {txs : List Transaction} (turns : B.InTurn txs B')
    (a : Address) : B.nonce a ≤ B'.nonce a := by
  induction turns with
  | nil => exact le_rfl
  | @cons B B' tx txs s V accepts allows rest ih =>
      refine le_trans ?_ ih
      by_cases same : a = s
      · subst same
        rw [nonce_after_self]
        exact Nat.le_succ _
      · exact (B.nonce_after tx V same).ge

theorem InTurn.grows {B B' : Book} {txs : List Transaction} (turns : B.InTurn txs B')
    (nonempty : txs ≠ []) : ∃ a, B.nonce a < B'.nonce a := by
  rcases turns with _ | @⟨_, _, tx, txs, s, V, accepts, allows, rest⟩
  · exact absurd rfl nonempty
  · refine ⟨s, lt_of_lt_of_le ?_ (rest.nonce_mono s)⟩
    rw [nonce_after_self]
    exact Nat.lt_succ_self _

end Book

section Follow

variable {S : Type} [IPSet S]

def Ledger.book (L : Ledger S) : Book := ⟨fun a => (L a).nonce, L.registry⟩

theorem size_eq_ncard {s : S} {A : Set IPAddress} (same : ∀ x, x ∈ s ↔ x ∈ A) :
    size s = A.ncard := by
  rw [size_eq]
  exact congrArg Set.ncard (Set.ext same)

theorem reclaimable_registry (L : Ledger S) (s : Address) (V : IPNetwork) :
    L.Reclaimable s V ↔ Reclaimable L.registry s V.addresses := by
  have lent {b : Address} {d : S} (present : (L s).balance.delegatedIps.lookup b = some d)
      (x : IPAddress) : x ∈ L.registry.delegated s b ↔ x ∈ d := Shares.mem_held present x
  have joint {b : Address} {d : S} (present : (L s).balance.delegatedIps.lookup b = some d) :
      size (inter (ofNetwork V) d) = (V.addresses ∩ L.registry.delegated s b).ncard :=
    size_eq_ncard fun x => by simp [lent present]
  have rest {b : Address} {d : S} (present : (L s).balance.delegatedIps.lookup b = some d) :
      size (diff d (inter (ofNetwork V) d)) = (L.registry.delegated s b \ V.addresses).ncard :=
    size_eq_ncard fun x => by
      simp only [mem_diff_iff, mem_inter_iff, mem_ofNetwork_iff, Set.mem_sdiff, lent present,
        IPNetwork.mem_addresses]
      tauto
  have overlap {b : Address} {d : S} (present : (L s).balance.delegatedIps.lookup b = some d) :
      (V.addresses ∩ L.registry.delegated s b).Nonempty ↔ ∃ x, x ∈ V ∧ x ∈ d :=
    exists_congr fun x => and_congr Iff.rfl (lent present x)
  constructor
  · intro reclaimable b
    cases present : (L s).balance.delegatedIps.lookup b with
    | none =>
        have empty : L.registry.delegated s b = ∅ := by
          refine Set.eq_empty_iff_forall_notMem.mpr ?_
          rintro x ⟨d, found, -⟩
          rw [present] at found
          cases found
        simp [empty]
    | some d =>
        rw [← joint present, ← rest present, overlap present]
        exact reclaimable b d present
  · intro reclaimable b d present
    rw [joint present, rest present, ← overlap present]
    exact reclaimable b

variable [Platform]

theorem book_accepts_iff {L : Ledger S} {tx : Transaction} {s : Address} {V : IPNetwork} :
    L.book.Accepts tx s V ↔ Valid L tx s V :=
  ⟨fun ⟨signed, known, nonce, category, network, owned⟩ =>
      ⟨signed, known, nonce, category, network, owned⟩,
    fun ⟨signed, known, nonce, category, network, owned⟩ =>
      ⟨signed, known, nonce, category, network, owned⟩⟩

omit [Platform] in
theorem book_allows_iff {L : Ledger S} {tx : Transaction} {s : Address} {V : IPNetwork} :
    L.book.Allows tx s V ↔ Applicable L tx s V := by
  constructor
  · rintro ⟨moves, locates⟩
    refine ⟨fun category => ?_, locates⟩
    rw [reclaimable_registry]
    exact moves category
  · rintro ⟨moves, locates⟩
    refine ⟨fun category => ?_, locates⟩
    rw [Ledger.book, ← reclaimable_registry]
    exact moves category

omit [Platform] in
theorem allows_of_fresh {L : Ledger S} (fresh : L.Fresh) {tx : Transaction} (s : Address)
    (V : IPNetwork) (recipient : tx.toAddr ≠ none) (locates : tx.category ≠ 3) :
    L.book.Allows tx s V := by
  refine ⟨fun _ => ⟨recipient, ?_⟩, fun third => absurd third locates⟩
  refine (reclaimable_registry L s V).mp ?_
  intro b d present
  rw [(fresh s).1] at present
  cases present

theorem Step.book {tx : Transaction} {s : Address} {V : IPNetwork} {cached : Cached}
    {L L' : Ledger S} {r : Bool × Cached} (step : Step tx s V cached L r L') :
    L'.book = L.book.after tx s V := by
  have nonces : (fun a => (L' a).nonce) = Function.update L.book.nonce s (L.book.nonce s + 1) := by
    funext a
    by_cases same : a = s
    · subst same
      rw [Function.update_self]
      exact step.frame.sender
    · rw [Function.update_of_ne same]
      exact step.frame.nonce a same
  rw [Ledger.book, nonces, Book.after, Book.mk.injEq]
  refine ⟨rfl, ?_⟩
  rcases step.effect with ⟨t, category, recipient, -, registry⟩ |
    ⟨t, category, recipient, -, registry⟩ | ⟨category, -, registry⟩
  · simp only [category, recipient, registry, Ledger.book]
  · simp only [category, recipient, registry, Ledger.book]
  · rw [registry]
    split
    · omega
    · omega
    · rfl

theorem admitted_iff {L : Ledger S} (sound : L.Sound) {tx : Transaction} (accepted : tx.Accepted)
    (cached : Cached) : (∃ c L', applyTransaction tx cached L = .ok (true, c) L') ↔
      ∃ s V, L.book.Accepts tx s V ∧ L.book.Allows tx s V := by
  simp only [applies_iff sound accepted, book_accepts_iff, book_allows_iff]

theorem applyTransaction_book {L L' : Ledger S} (sound : L.Sound) {tx : Transaction}
    (accepted : tx.Accepted) {cached : Cached} {r : Bool × Cached}
    (applied : applyTransaction tx cached L = .ok r L') :
    ∃ s V, L.book.Accepts tx s V ∧ L.book.Allows tx s V ∧ L'.book = L.book.after tx s V ∧
      L'.Sound := by
  obtain ⟨s, V, step⟩ := applyTransaction_step applied
  obtain ⟨returned, c⟩ := r
  have true := step.returned
  simp only at true
  subst true
  obtain ⟨s', V', accepts, allows⟩ := (admitted_iff sound accepted cached).mp ⟨c, L', applied⟩
  obtain ⟨rfl, rfl⟩ := accepts.unique (book_accepts_iff.mpr step.valid)
  exact ⟨s', V', accepts, allows, step.book, step.sound sound⟩

theorem applyTransactions_turns {txs : List Transaction} (accepted : ∀ tx ∈ txs, tx.Accepted)
    {L L' : Ledger S} (sound : L.Sound) {cached c : Cached}
    (run : applyTransactions txs cached L = .ok c L') : L.book.InTurn txs L'.book := by
  induction txs generalizing L cached with
  | nil =>
      cases run
      exact .nil _
  | cons tx txs ih =>
      obtain ⟨first, others⟩ := List.forall_mem_cons.mp accepted
      obtain ⟨r, M, applied, run⟩ := bind_eq_ok.mp run
      obtain ⟨s, V, accepts, allows, book, soundM⟩ := applyTransaction_book sound first applied
      have rest := ih others soundM run
      rw [book] at rest
      exact .cons accepts allows rest

theorem applyTransactions_sound {txs : List Transaction} {L L' : Ledger S} (sound : L.Sound)
    {cached c : Cached} (run : applyTransactions txs cached L = .ok c L') : L'.Sound := by
  induction txs generalizing L cached with
  | nil =>
      cases run
      exact sound
  | cons tx txs ih =>
      obtain ⟨r, M, applied, run⟩ := bind_eq_ok.mp run
      obtain ⟨s, V, step⟩ := applyTransaction_step applied
      exact ih (step.sound sound) run

theorem applyTransactions_of_turns {txs : List Transaction} (accepted : ∀ tx ∈ txs, tx.Accepted)
    {L : Ledger S} (sound : L.Sound) (cached : Cached) {B : Book} (turns : L.book.InTurn txs B) :
    ∃ c L', applyTransactions txs cached L = .ok c L' ∧ L'.book = B ∧ L'.Sound := by
  induction txs generalizing L cached with
  | nil =>
      cases turns
      exact ⟨cached, L, rfl, rfl, sound⟩
  | cons tx txs ih =>
      obtain ⟨first, others⟩ := List.forall_mem_cons.mp accepted
      rcases turns with _ | ⟨accepts, allows, rest⟩
      obtain ⟨c, M, applied⟩ := (admitted_iff sound first cached).mpr ⟨_, _, accepts, allows⟩
      obtain ⟨s', V', accepts', -, book, soundM⟩ := applyTransaction_book sound first applied
      obtain ⟨rfl, rfl⟩ := accepts'.unique accepts
      rw [← book] at rest
      obtain ⟨c', L', run, result⟩ := ih others soundM c rest
      exact ⟨c', L', bind_eq_ok.mpr ⟨(true, c), M, applied, run⟩, result⟩

end Follow

section Blocks

variable {S : Type} [IPSet S] [Platform]

theorem simulates_validateTransactions (txs : List Transaction) :
    Simulates State.account (validateTransactions txs : EStateM PyExc (State S) Bool)
      (validateTransactions txs) := by
  induction txs with
  | nil => exact Simulates.pure true
  | cons tx txs ih =>
      refine (simulates_validateTransaction tx).bind fun valid => ?_
      exact Simulates.ite ih (Simulates.pure false)

theorem validateTransactions_eq_ok {txs : List Transaction} {L L' : Ledger S} {b : Bool} :
    validateTransactions txs L = .ok b L' ↔
      (∀ tx ∈ txs, ∃ s V, L.book.Accepts tx s V) ∧ b = true ∧ L' = L := by
  induction txs with
  | nil => simp [validateTransactions, pure_run, eq_comm]
  | cons tx txs ih =>
      rw [validateTransactions, bind_eq_ok, List.forall_mem_cons]
      simp only [validateTransaction_eq_ok, book_accepts_iff]
      constructor
      · rintro ⟨_, _, ⟨valid, rfl, rfl⟩, run⟩
        obtain ⟨others, result⟩ := ih.mp run
        simp only [book_accepts_iff] at others
        exact ⟨⟨valid, others⟩, result⟩
      · rintro ⟨⟨valid, others⟩, result⟩
        simp only [← book_accepts_iff] at others
        exact ⟨true, L, ⟨valid, rfl, rfl⟩, ih.mpr ⟨others, result⟩⟩

variable [TrieRoot]

theorem validateBlock_ok_iff {block : Block} {s : State S} :
    (∃ s', validateBlock block s = .ok true s') ↔
      (∃ a, block.signer = .ok a ∧ a ≠ nullAddress) ∧ Based s.toAuxVars block ∧
        ∀ tx ∈ block.transactions, ∃ a V, s.account.book.Accepts tx a V := by
  have simulates := simulates_validateTransactions (S := S) block.transactions
  simp only [validateBlock, lift_bind_eq_ok, guard_eq_ok]
  constructor
  · rintro ⟨s', a, signed, known, run⟩
    obtain ⟨_, t, checked, rest⟩ := bind_eq_ok.mp run
    obtain ⟨based, rfl⟩ := basicValidation_eq_ok.mp checked
    have valid := (validateTransactions_eq_ok.mp (simulates.ok rest)).1
    exact ⟨⟨a, signed, known⟩, based, valid⟩
  · rintro ⟨⟨a, signed, known⟩, based, valid⟩
    obtain ⟨s', run, -⟩ := simulates.exists_ok (validateTransactions_eq_ok.mpr ⟨valid, rfl, rfl⟩)
    exact ⟨s', a, signed, known,
      bind_eq_ok.mpr ⟨(), s, basicValidation_eq_ok.mpr ⟨based, rfl⟩, run⟩⟩

theorem validateBlock_returns {block : Block} {s s' : State S} {b : Bool}
    (run : validateBlock block s = .ok b s') : b = true := by
  simp only [validateBlock, lift_bind_eq_ok, guard_eq_ok] at run
  obtain ⟨a, -, -, run⟩ := run
  obtain ⟨_, u, -, run⟩ := bind_eq_ok.mp run
  have simulates := simulates_validateTransactions (S := S) block.transactions
  exact (validateTransactions_eq_ok.mp (simulates.ok run)).2.1

theorem applyBlock_ok_iff {R : Type} [Radix R Address] {block : Block}
    (accepted : ∀ tx ∈ block.transactions, tx.Accepted) {s : State S} (sound : s.account.Sound)
    (p : R) : (∃ t q, applyBlock block (s, p) = .ok () (t, q)) ↔
      Based s.toAuxVars block ∧ ∃ B, s.account.book.InTurn block.transactions B := by
  have simulates := simulates_applyTransactions (S := S) block.transactions ∅
  simp only [applyBlock_eq_ok]
  constructor
  · rintro ⟨t, q, based, cached, u, applied, -⟩
    exact ⟨based, _, applyTransactions_turns accepted sound (simulates.ok applied)⟩
  · rintro ⟨based, B, turns⟩
    obtain ⟨c, L', run, -⟩ := applyTransactions_of_turns accepted sound ∅ turns
    obtain ⟨u, applied, -⟩ := simulates.exists_ok run
    exact ⟨_, _, based, c, u, applied, rfl, rfl⟩

end Blocks

end IPchain
