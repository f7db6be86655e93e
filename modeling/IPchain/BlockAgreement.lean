import IPchain.Chain

/-! Where `validate_block` and `apply_block` agree. The one holds every transaction against
the state before the block, the other against the state that its predecessors leave. -/

namespace IPchain

open Lib

namespace Book

variable [Platform]

/-- Every transaction of the list is acceptable as the book stands now. -/
def AcceptsAll (B : Book) (txs : List Transaction) : Prop :=
  ∀ tx ∈ txs, ∃ s V, B.Accepts tx s V

def Apart (txs : List Transaction) : Prop := txs.Pairwise fun t u => t.sender ≠ u.sender

/-- One of the transactions is acceptable and cannot be entered even so. -/
def Obstructs (B : Book) (txs : List Transaction) : Prop :=
  ∃ tx ∈ txs, ∃ s V, B.Accepts tx s V ∧ ¬ B.Allows tx s V

/-- One of the transactions moves a network that its sender does not own yet. -/
def Anticipates (B : Book) (txs : List Transaction) : Prop :=
  ∃ tx ∈ txs, ∃ s V, tx.sender = .ok s ∧ tx.ipNetwork = .ok V ∧
    (tx.category = 0 ∨ tx.category = 1) ∧ ¬ V.addresses ⊆ B.registry.own s

section Others

variable {B : Book} {tx u : Transaction} {s a : Address} {V W : IPNetwork}

theorem Accepts.after (accepts : B.Accepts u a W) (other : a ≠ s) :
    (B.after tx s V).Accepts u a W :=
  ⟨accepts.signed, accepts.known, (B.nonce_after tx V other).trans accepts.nonce,
    accepts.category, accepts.network,
    fun moves => (accepts.owned moves).trans (B.own_after tx V other)⟩

theorem Accepts.before (accepts : (B.after tx s V).Accepts u a W) (other : a ≠ s)
    (owned : u.category = 0 ∨ u.category = 1 → W.addresses ⊆ B.registry.own a) :
    B.Accepts u a W :=
  ⟨accepts.signed, accepts.known, (B.nonce_after tx V other).symm.trans accepts.nonce,
    accepts.category, accepts.network, owned⟩

omit [Platform] in
theorem allows_after (other : a ≠ s) : (B.after tx s V).Allows u a W ↔ B.Allows u a W := by
  have same : Reclaimable (B.after tx s V).registry a W.addresses ↔
      Reclaimable B.registry a W.addresses := by
    simp only [Reclaimable, B.delegated_after tx V other]
  constructor
  · exact fun allows => ⟨fun moves => (allows.moves moves).imp_right same.mp, allows.locates⟩
  · exact fun allows => ⟨fun moves => (allows.moves moves).imp_right same.mpr, allows.locates⟩

end Others

section Turns

variable {B B' : Book} {txs : List Transaction}

theorem InTurn.nonce_le (turns : B.InTurn txs B') {tx : Transaction} (member : tx ∈ txs)
    {a : Address} (signed : tx.sender = .ok a) : B.nonce a ≤ tx.nonce := by
  induction turns with
  | nil => cases member
  | @cons B B' first txs s V accepts allows rest ih =>
      rcases List.mem_cons.mp member with rfl | later
      · rw [accepts.signed] at signed
        cases signed
        exact accepts.nonce.le
      · refine le_trans ?_ (ih later)
        by_cases same : a = s
        · subst same
          rw [nonce_after_self]
          exact Nat.le_succ _
        · exact (B.nonce_after first V same).ge

theorem turns_of_apart (apart : Apart txs) (accepts : B.AcceptsAll txs)
    (clear : ¬ B.Obstructs txs) : ∃ B', B.InTurn txs B' := by
  induction txs generalizing B with
  | nil => exact ⟨B, .nil B⟩
  | cons tx txs ih =>
      obtain ⟨first, others⟩ := List.pairwise_cons.mp apart
      obtain ⟨⟨s, V, accepted⟩, rest⟩ := List.forall_mem_cons.mp accepts
      have allowed : B.Allows tx s V := by
        by_contra refused
        exact clear ⟨tx, List.mem_cons_self, s, V, accepted, refused⟩
      have later (u : Transaction) (member : u ∈ txs) {a : Address} (signed : u.sender = .ok a) :
          a ≠ s := by
        rintro rfl
        exact first u member (accepted.signed.trans signed.symm)
      have accepts' : (B.after tx s V).AcceptsAll txs := by
        intro u member
        obtain ⟨a, W, accepts⟩ := rest u member
        exact ⟨a, W, accepts.after (later u member accepts.signed)⟩
      have clear' : ¬ (B.after tx s V).Obstructs txs := by
        rintro ⟨u, member, a, W, accepts, refused⟩
        obtain ⟨a', W', accepted'⟩ := rest u member
        obtain ⟨rfl, rfl⟩ := accepts.unique accepted'
        have other := later u member accepts.signed
        rw [allows_after other] at refused
        exact clear ⟨u, List.mem_cons_of_mem _ member, a, W, accepted', refused⟩
      obtain ⟨B', turns⟩ := ih others accepts' clear'
      exact ⟨B', .cons accepted allowed turns⟩

theorem InTurn.apart (turns : B.InTurn txs B') (accepts : B.AcceptsAll txs) :
    Apart txs ∧ ¬ B.Obstructs txs := by
  induction turns with
  | nil => exact ⟨List.Pairwise.nil, by rintro ⟨tx, member, -⟩; cases member⟩
  | @cons B B' tx txs s V accepted allowed turns ih =>
      obtain ⟨-, rest⟩ := List.forall_mem_cons.mp accepts
      have later (u : Transaction) (member : u ∈ txs) {a : Address} {W : IPNetwork}
          (accepts : B.Accepts u a W) : a ≠ s := by
        rintro rfl
        have early := turns.nonce_le member accepts.signed
        rw [← accepts.nonce, nonce_after_self] at early
        omega
      have accepts' : (B.after tx s V).AcceptsAll txs := by
        intro u member
        obtain ⟨a, W, accepts⟩ := rest u member
        exact ⟨a, W, accepts.after (later u member accepts)⟩
      obtain ⟨apart, clear⟩ := ih accepts'
      refine ⟨List.pairwise_cons.mpr ⟨?_, apart⟩, ?_⟩
      · intro u member same
        obtain ⟨a, W, accepts⟩ := rest u member
        have signed := accepts.signed
        rw [← same, accepted.signed] at signed
        cases signed
        exact later u member accepts rfl
      · rintro ⟨u, member, a, W, signs, refused⟩
        rcases List.mem_cons.mp member with rfl | member
        · obtain ⟨rfl, rfl⟩ := signs.unique accepted
          exact refused allowed
        · have other := later u member signs
          have allows : (B.after tx s V).Allows u a W ↔ B.Allows u a W := allows_after other
          exact clear ⟨u, member, a, W, signs.after other, fun granted => refused (allows.mp granted)⟩

theorem InTurn.acceptsAll (turns : B.InTurn txs B') (apart : Apart txs)
    (owned : ¬ B.Anticipates txs) : B.AcceptsAll txs := by
  induction turns with
  | nil => exact fun tx member => by cases member
  | @cons B B' tx txs s V accepted allowed turns ih =>
      obtain ⟨first, others⟩ := List.pairwise_cons.mp apart
      have later (u : Transaction) (member : u ∈ txs) {a : Address} (signed : u.sender = .ok a) :
          a ≠ s := by
        rintro rfl
        exact first u member (accepted.signed.trans signed.symm)
      have held (u : Transaction) (member : u ∈ txs) {a : Address} {W : IPNetwork}
          (signed : u.sender = .ok a) (network : u.ipNetwork = .ok W)
          (moves : u.category = 0 ∨ u.category = 1) : W.addresses ⊆ B.registry.own a := by
        by_contra missing
        exact owned ⟨u, List.mem_cons_of_mem _ member, a, W, signed, network, moves, missing⟩
      have accepts' : (B.after tx s V).AcceptsAll txs := by
        refine ih others ?_
        rintro ⟨u, member, a, W, signed, network, moves, missing⟩
        exact missing ((held u member signed network moves).trans
          (B.own_after tx V (later u member signed)))
      refine List.forall_mem_cons.mpr ⟨⟨s, V, accepted⟩, ?_⟩
      intro u member
      obtain ⟨a, W, accepts⟩ := accepts' u member
      exact ⟨a, W, accepts.before (later u member accepts.signed)
        (held u member accepts.signed accepts.network)⟩

theorem acceptsAll_iff_inTurn : (B.AcceptsAll txs ↔ ∃ B', B.InTurn txs B') ↔
    ¬ (B.AcceptsAll txs ∧ (¬ Apart txs ∨ B.Obstructs txs)) ∧
      ¬ ((∃ B', B.InTurn txs B') ∧ (¬ Apart txs ∨ B.Anticipates txs)) := by
  constructor
  · intro agree
    constructor
    · rintro ⟨accepts, obstacle⟩
      obtain ⟨B', turns⟩ := agree.mp accepts
      obtain ⟨apart, clear⟩ := turns.apart accepts
      exact obstacle.elim (fun shared => shared apart) clear
    · rintro ⟨turns, obstacle⟩
      have accepts := agree.mpr turns
      obtain ⟨B', turns⟩ := turns
      refine obstacle.elim (fun shared => shared (turns.apart accepts).1) ?_
      rintro ⟨tx, member, s, V, signed, network, moves, missing⟩
      obtain ⟨a, W, accepted⟩ := accepts tx member
      rw [accepted.signed] at signed
      rw [accepted.network] at network
      cases signed
      cases network
      exact missing (accepted.owned moves)
  · rintro ⟨first, second⟩
    constructor
    · intro accepts
      refine turns_of_apart ?_ accepts fun obstacle => first ⟨accepts, Or.inr obstacle⟩
      by_contra shared
      exact first ⟨accepts, Or.inl shared⟩
    · intro turns
      obtain ⟨B', chain⟩ := turns
      refine chain.acceptsAll ?_ fun early => second ⟨⟨B', chain⟩, Or.inr early⟩
      by_contra shared
      exact second ⟨⟨B', chain⟩, Or.inl shared⟩

end Turns

end Book

section Agreement

variable {S R : Type} [IPSet S] [Radix R Address] [Platform] [TrieRoot] [Poststate] [StateRoot S]

/-- On a signed block the two agree unless its header and root are in order and either all
transactions are acceptable beforehand although two have one sender or one is obstructed, or
all of them can take their turns although two have one sender or one moves a network that its
sender only gets in the block. -/
theorem validate_iff_apply_iff {g : GenesisData} {blocks : List Block} {c : Chain S R}
    (reachable : c.Reachable g blocks) {block : Block} {signer : Address}
    (signed : block.signer = .ok signer) (known : signer ≠ nullAddress)
    (accepted : ∀ tx ∈ block.transactions, tx.Accepted) :
    ((∃ s, validateBlock block c.state = .ok true s) ↔
      ∃ r, applyBlock block (c.state, c.patricia) = .ok () r) ↔
        (Based c.state.toAuxVars block →
          ¬ (c.state.account.book.AcceptsAll block.transactions ∧
            (¬ Book.Apart block.transactions ∨
              c.state.account.book.Obstructs block.transactions)) ∧
          ¬ ((∃ B, c.state.account.book.InTurn block.transactions B) ∧
            (¬ Book.Apart block.transactions ∨
              c.state.account.book.Anticipates block.transactions))) := by
  have validates : (∃ s, validateBlock block c.state = .ok true s) ↔
      Based c.state.toAuxVars block ∧ c.state.account.book.AcceptsAll block.transactions :=
    validateBlock_ok_iff.trans (and_iff_right ⟨signer, signed, known⟩)
  have applies := applyBlock_ok_iff accepted reachable.sane.sound c.patricia
  rw [Prod.exists, validates, applies, ← Book.acceptsAll_iff_inTurn]
  by_cases based : Based c.state.toAuxVars block
  · simp [based]
  · simp [based]

end Agreement

section Sample

open Sample

theorem single_agrees : ∃ c : Chain AddressRanges (PrefixTable Address),
    c.Reachable genesis6 [] ∧
      ((∃ s, validateBlock (firstBlock [move 0 alice carol 0 (net6 0 48)]) c.state = .ok true s) ↔
        ∃ r, applyBlock (firstBlock [move 0 alice carol 0 (net6 0 48)]) (c.state, c.patricia) =
          .ok () r) := by
  obtain ⟨c, reachable, based, fresh, passes⟩ := chain_of_passes
    (fun s => owns s alice (net6 0 48)) (by decide)
  have accepted : (move 0 alice carol 0 (net6 0 48)).Accepted :=
    ⟨0, 0, .bytes carol.bytes, 2, .bytes (valueOf (net6 0 48)), .bytes [], 0, 27, 1, 1, rfl⟩
  have apart : Book.Apart (firstBlock [move 0 alice carol 0 (net6 0 48)]).transactions :=
    List.pairwise_singleton _ _
  have signed : (firstBlock [move 0 alice carol 0 (net6 0 48)]).signer = .ok alice := rfl
  refine ⟨c, reachable, (validate_iff_apply_iff reachable signed (by decide)
    (List.forall_mem_singleton.mpr accepted)).mpr fun _ => ⟨?_, ?_⟩⟩
  · rintro ⟨-, shared | ⟨tx, member, s, V, -, refused⟩⟩
    · exact shared apart
    · rw [List.mem_singleton.mp member] at refused
      exact refused (allows_of_fresh fresh s V (Option.some_ne_none carol) (by decide))
  · rintro ⟨-, shared | ⟨tx, member, s, V, signed, network, -, missing⟩⟩
    · exact shared apart
    · rw [List.mem_singleton.mp member] at signed network
      cases signed
      rw [ipNetwork_move 0 alice carol 0 _ (net6 0 48) (by decide)] at network
      cases network
      refine missing fun x inside => ?_
      have held := mem_of_owns passes x inside
      rwa [State.getBalance_fst] at held

def consecutive : List Transaction :=
  [move 0 alice carol 0 (net6 0 48), move 0 alice carol 1 (net6 1 48)]

theorem accepted_consecutive : ∀ tx ∈ consecutive, tx.Accepted := by
  refine List.forall_mem_cons.mpr ⟨?_, List.forall_mem_singleton.mpr ?_⟩
  · exact ⟨0, 0, .bytes carol.bytes, 2, .bytes (valueOf (net6 0 48)), .bytes [], 0, 27, 1, 1, rfl⟩
  · exact ⟨1, 0, .bytes carol.bytes, 2, .bytes (valueOf (net6 1 48)), .bytes [], 0, 27, 1, 1, rfl⟩

/-- The block applies, and the validation refuses its second transaction. -/
theorem consecutive_refused_and_applied :
    ∃ (c : Chain AddressRanges (PrefixTable Address)) (r : State AddressRanges × PrefixTable Address),
      c.Reachable genesis6 [] ∧ (firstBlock consecutive).signer = .ok alice ∧
        (∀ tx ∈ (firstBlock consecutive).transactions, tx.Accepted) ∧
        applyBlock (firstBlock consecutive) (c.state, c.patricia) = .ok () r ∧
        ¬ ∃ s, validateBlock (firstBlock consecutive) c.state = .ok true s := by
  obtain ⟨c, reachable, based, -, passes⟩ := chain_of_passes
    (fun s => RunPasses (applyTransactions consecutive ∅ s) fun _ _ => true) (by decide)
  obtain ⟨cached, t, applied, -⟩ := runPasses_iff.mp passes
  refine ⟨c, _, reachable, rfl, accepted_consecutive,
    applyBlock_eq_ok.mpr ⟨based consecutive, cached, t, applied, rfl, rfl⟩, ?_⟩
  rintro ⟨s, validated⟩
  obtain ⟨-, -, accepts⟩ := validateBlock_ok_iff.mp ⟨s, validated⟩
  obtain ⟨a, V, first⟩ := accepts _ List.mem_cons_self
  obtain ⟨b, W, second⟩ := accepts _ (List.mem_cons_of_mem _ List.mem_cons_self)
  cases first.signed
  cases second.signed
  have same := first.nonce.symm.trans second.nonce
  exact absurd same (by decide)

end Sample

end IPchain
