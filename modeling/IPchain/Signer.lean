import IPchain.Lookup

/-! Who signs the next block. The producer asks the prefix tree for the account of the drawn
address, and the verifiers ask the balance of that account for the address. -/

namespace IPchain

open Lib IPSet

section Signs

variable {R : Type} [Radix R Address]

/-- The tree answers with an owner of every address that is owned. -/
def Signs (r : Registry Address IPAddress) (tree : R) : Prop :=
  ∀ a, ∀ x ∈ r.own a, ∃ c, Radix.lookup tree x = some c ∧ x ∈ r.own c

variable {r r' : Registry Address IPAddress} {tree : R} {V : IPNetwork} {s t : Address}

theorem Signs.owner (signs : Signs r tree) (owned : V.addresses ⊆ r.own s) {x : IPAddress}
    (inside : x ∈ V) {m : IPNetwork} {e : Address} (covers : Radix.Covers tree x m e) :
    x ∈ r.own e := by
  obtain ⟨c, found, holds⟩ := signs s x (owned inside)
  rw [(Radix.lookup_eq_some tree x e).mpr ⟨m, covers⟩] at found
  cases found
  exact holds

theorem signs_add (signs : Signs r tree)
    (outside : ∀ x, x ∉ V → ∀ a, x ∈ r'.own a ↔ x ∈ r.own a)
    (inside : ∀ a, ∀ x ∈ V, x ∈ r'.own a →
      ∃ c, Radix.lookup (Radix.add tree V t) x = some c ∧ x ∈ r'.own c) :
    Signs r' (Radix.add tree V t) := by
  intro a x owned
  by_cases moved : x ∈ V
  · exact inside a x moved owned
  · obtain ⟨c, found, holds⟩ := signs a x ((outside x moved a).mp owned)
    exact ⟨c, Radix.lookup_add_outside tree V t x moved c found, (outside x moved c).mpr holds⟩

theorem signs_delegate_iff (signs : Signs r tree) (owned : V.addresses ⊆ r.own s) :
    Signs (r.delegate s t V.addresses) (Radix.add tree V t) ↔
      ∀ x ∈ V, Radix.Clear tree V x → x ∈ r.own t := by
  constructor
  · intro signs' x moved clear
    obtain ⟨c, found, holds⟩ := signs' s x (owned moved)
    rw [Radix.lookup_add_clear t moved clear] at found
    cases found
    exact holds
  · intro borrowers
    refine signs_add signs (fun x _ a => Iff.rfl) fun a x moved _ => ?_
    rcases Radix.clear_or_covers tree V x with clear | ⟨m, e, longer, covers⟩
    · exact ⟨t, Radix.lookup_add_clear t moved clear, borrowers x moved clear⟩
    · exact ⟨e, Radix.lookup_add_longer t longer covers, signs.owner owned moved covers⟩

theorem mem_own_transfer_inside {x : IPAddress} (moved : x ∈ V) (a : Address) :
    x ∈ (r.transfer s t V.addresses).own a ↔ a ≠ s ∧ (x ∈ r.own a ∨ a = t) := by
  rw [Registry.mem_own_transfer]
  by_cases same : a = s
  · simp [same, moved]
  · simp [same, moved]

theorem mem_own_transfer_outside {x : IPAddress} (outside : x ∉ V) (a : Address) :
    x ∈ (r.transfer s t V.addresses).own a ↔ x ∈ r.own a := by
  rw [Registry.mem_own_transfer]
  by_cases same : a = s
  · simp [same, outside]
  · simp [same, outside]

/-- The sender must not come out of the tree, and what it allocates to itself must come out
as its other owner if it has one. -/
theorem signs_transfer_iff (signs : Signs r tree) (owned : V.addresses ⊆ r.own s) :
    Signs (r.transfer s t V.addresses) (Radix.add tree V t) ↔
      (∀ x ∈ V, ∀ m, V.prefixlen < m.prefixlen → Radix.Covers tree x m s →
        t = s ∧ ∀ a, x ∈ r.own a → a = s) ∧
      (t = s → ∀ x ∈ V, Radix.Clear tree V x → ∀ a, x ∈ r.own a → a = s) := by
  constructor
  · intro signs'
    have answered {a : Address} {x : IPAddress} (moved : x ∈ V) (other : a ≠ s)
        (holds : x ∈ r.own a ∨ a = t) :
        ∃ c, Radix.lookup (Radix.add tree V t) x = some c ∧ c ≠ s := by
      obtain ⟨c, found, holds⟩ := signs' a x ((mem_own_transfer_inside moved a).mpr ⟨other, holds⟩)
      exact ⟨c, found, ((mem_own_transfer_inside moved c).mp holds).1⟩
    constructor
    · intro x moved m longer covers
      have stuck (a : Address) (holds : x ∈ r.own a ∨ a = t) : a = s := by
        by_contra other
        obtain ⟨c, found, differs⟩ := answered moved other holds
        rw [Radix.lookup_add_longer t longer covers] at found
        cases found
        exact differs rfl
      exact ⟨stuck t (Or.inr rfl), fun a holds => stuck a (Or.inl holds)⟩
    · rintro rfl x moved clear a holds
      by_contra other
      obtain ⟨c, found, differs⟩ := answered moved other (Or.inl holds)
      rw [Radix.lookup_add_clear t moved clear] at found
      cases found
      exact differs rfl
  · rintro ⟨hidden, shared⟩
    refine signs_add signs (fun x outside a => mem_own_transfer_outside outside a) ?_
    intro a x moved holds
    obtain ⟨other, kept⟩ := (mem_own_transfer_inside moved a).mp holds
    rcases Radix.clear_or_covers tree V x with clear | ⟨m, e, longer, covers⟩
    · refine ⟨t, Radix.lookup_add_clear t moved clear, (mem_own_transfer_inside moved t).mpr ?_⟩
      refine ⟨fun same => ?_, Or.inr rfl⟩
      rcases kept with kept | taken
      · exact other (shared same x moved clear a kept)
      · exact other (taken.trans same)
    · refine ⟨e, Radix.lookup_add_longer t longer covers, (mem_own_transfer_inside moved e).mpr ?_⟩
      refine ⟨?_, Or.inl (signs.owner owned moved covers)⟩
      intro same
      subst same
      obtain ⟨same, sole⟩ := hidden x moved m longer covers
      rcases kept with kept | taken
      · exact other (sole a kept)
      · exact other (taken.trans same)

end Signs

section Turns

variable {R : Type} [Radix R Address] [Platform]

/-- The borrower of a network owns what no longer prefix decides in it. After an allocation, no
longer prefix still decides for the sender what another account owns. -/
def Signable (m : Records R) (tx : Transaction) : Prop :=
  ∀ s V t, tx.sender = .ok s → tx.row = some (V, t) →
    (tx.category = 1 → ∀ x ∈ V, Radix.Clear m.tree V x → x ∈ m.book.registry.own t) ∧
    (tx.category = 0 →
      (∀ x ∈ V, ∀ n, V.prefixlen < n.prefixlen → Radix.Covers m.tree x n s →
        t = s ∧ ∀ a, x ∈ m.book.registry.own a → a = s) ∧
      (t = s → ∀ x ∈ V, Radix.Clear m.tree V x → ∀ a, x ∈ m.book.registry.own a → a = s))

variable {m : Records R} {tx : Transaction} {s : Address} {V : IPNetwork}

theorem signs_enter_iff (accepts : m.book.Accepts tx s V)
    (signs : Signs m.book.registry m.tree) :
    Signs (m.enter tx).book.registry (m.enter tx).tree ↔ Signable m tx := by
  have signable {t : Address} (row : tx.row = some (V, t)) : Signable m tx ↔
      (tx.category = 1 → ∀ x ∈ V, Radix.Clear m.tree V x → x ∈ m.book.registry.own t) ∧
      (tx.category = 0 →
        (∀ x ∈ V, ∀ n, V.prefixlen < n.prefixlen → Radix.Covers m.tree x n s →
          t = s ∧ ∀ a, x ∈ m.book.registry.own a → a = s) ∧
        (t = s → ∀ x ∈ V, Radix.Clear m.tree V x → ∀ a, x ∈ m.book.registry.own a → a = s)) := by
    constructor
    · exact fun signable => signable s V t accepts.signed row
    · intro signable s' V' t' signed row'
      rw [accepts.signed] at signed
      rw [row] at row'
      cases signed
      cases row'
      exact signable
  rcases Records.enter_cases accepts with ⟨t, category, row, entered⟩ |
    ⟨t, category, row, entered⟩ | ⟨row, entered⟩ <;> rw [entered]
  · rw [signable row]
    refine (signs_transfer_iff signs (accepts.owned (Or.inl category))).trans ?_
    simp [category]
  · rw [signable row]
    refine (signs_delegate_iff signs (accepts.owned (Or.inr category))).trans ?_
    simp [category]
  · refine iff_of_true signs fun s' V' t' _ present => ?_
    rw [row] at present
    cases present

end Turns

section Chains

variable {S R : Type} [IPSet S] [Radix R Address] [Platform]

/-- The account that has to sign, for the address that the consensus drew. -/
def Chain.getAddrFromIp (c : Chain S R) (ipaddr : IPAddress) : Except PyExc Address := do
  let a ← PatriciaState.getValue c.patricia ipaddr
  normalizeAddress (.bytes a.bytes)

theorem getAddrFromIp_eq_ok {c : Chain S R} {x : IPAddress} {a : Address} :
    c.getAddrFromIp x = .ok a ↔ Radix.lookup c.patricia x = some a := by
  rw [← PatriciaState.getValue_eq_ok, Chain.getAddrFromIp, except_bind_eq_ok]
  simp only [normalizeAddress_bytes]
  constructor
  · rintro ⟨b, found, same⟩
    cases same
    exact found
  · exact fun found => ⟨a, found, rfl⟩

theorem verifyBlockSignature_run {block : Block} {signer : Address}
    (signed : block.signer = .ok signer) (x : IPAddress) (s : State S) :
    verifyBlockSignature block x s =
      if (s.getBalance signer).1.inOwnIps (IPNetwork.ofAddress x) then
        .ok true (s.getBalance signer).2
      else .error ⟨.invalidBlockSigner, ""⟩ (s.getBalance signer).2 := by
  simp only [verifyBlockSignature, signed]
  change (if (s.getBalance signer).1.inOwnIps (IPNetwork.ofAddress x) = true then pure true
    else raised ⟨.invalidBlockSigner, ""⟩ : EStateM PyExc (State S) Bool)
      (s.getBalance signer).2 = _
  split <;> rfl

omit [Platform] in
theorem inOwnIps_ofAddress (b : Balance S) (x : IPAddress) :
    b.inOwnIps (IPNetwork.ofAddress x) = true ↔ x ∈ b.ownIps := by
  simp only [Balance.inOwnIps, contains_eq_true, IPNetwork.mem_ofAddress, forall_eq]

variable [TrieRoot] [Poststate] [StateRoot S]

theorem Chain.Reachable.recorded {g : GenesisData} {s₀ : State S} {rows : Cached}
    (genesis : stateFromGenesisDeclaration g = .ok (s₀, rows)) {blocks : List Block}
    {c : Chain S R} (reachable : c.Reachable g blocks)
    (spelled : ∀ block ∈ blocks, block.Spelled) :
    Recorded (genesisRecords s₀ rows) (blocks.flatMap Block.transactions) c.state c.patricia := by
  have kept := reachable.invariant (P := fun blocks c => (∀ block ∈ blocks, block.Spelled) →
    Recorded (genesisRecords s₀ rows) (blocks.flatMap Block.transactions) c.state c.patricia)
  apply kept ?_ ?_ ?_ spelled
  · intro c built _
    obtain ⟨c', started, rfl, tree⟩ := Chain.init_ok (R := R) genesis
    rw [built] at started
    cases started
    rw [tree]
    exact recorded_start _ rows
  · intro blocks c block s t p _ ih alike applied spelled
    have earlier := ih fun block member => spelled block (List.mem_append_left _ member)
    have last := spelled block (List.mem_append_right _ (List.mem_singleton_self _))
    rw [List.flatMap_append, List.flatMap_singleton]
    exact ((earlier.congr alike.account).block applied last).congr rfl
  · intro blocks c s queue ih alike spelled
    exact (ih spelled).congr alike.account

/-- Whatever somebody owns at genesis is owned by every account that it is listed for. -/
def GenesisData.ListsOwners (g : GenesisData) (s : State S) : Prop :=
  ∀ a, ∀ x ∈ (s.getBalance a).1.ownIps, ∀ d ip, Lists g.alloc d ip → x ∈ ip →
    x ∈ (s.getBalance d).1.ownIps

omit [TrieRoot] [Poststate] in
theorem signs_genesis {g : GenesisData} {s : State S} {rows : Cached}
    (genesis : stateFromGenesisDeclaration g = .ok (s, rows)) (owners : g.ListsOwners s) :
    Signs (genesisRecords s rows : Records R).book.registry
      (genesisRecords s rows : Records R).tree := by
  obtain ⟨stored, covered⟩ := genesis_tree (R := R) genesis
  intro a x owned
  obtain ⟨d, found⟩ := covered a x owned
  obtain ⟨m, covers⟩ := (Radix.lookup_eq_some _ x d).mp found
  obtain ⟨ip, cidr, lists⟩ := stored m d covers.stored
  simp only [GenesisData.ListsOwners, State.getBalance_fst] at owners
  exact ⟨d, found, owners a x owned d ip lists (IPNetwork.mem_of_cidr_eq cidr covers.inside)⟩

/-- In every chain whose transactions were signable when their turn came, the account that the
producer takes for the signer of an owned address is one that the verifiers accept. -/
theorem drawn_signer_accepted {g : GenesisData} {s₀ : State S} {rows : Cached}
    (genesis : stateFromGenesisDeclaration g = .ok (s₀, rows)) (owners : g.ListsOwners s₀)
    {blocks : List Block} {c : Chain S R} (reachable : c.Reachable g blocks)
    (spelled : ∀ block ∈ blocks, block.Spelled)
    (signable : (genesisRecords s₀ rows : Records R).Throughout Signable
      (blocks.flatMap Block.transactions))
    {a : Address} {x : IPAddress} (owned : x ∈ (c.state.getBalance a).1.ownIps) :
    ∃ signer, c.getAddrFromIp x = .ok signer ∧ ∀ block : Block, block.signer = .ok signer →
      ∃ s, verifyBlockSignature block x c.state = .ok true s := by
  have recorded := reachable.recorded genesis spelled
  have signs := Records.preserved
    (P := fun m : Records R => Signs m.book.registry m.tree)
    (fun m tx s V accepts signable signs => (signs_enter_iff accepts signs).mpr signable)
    recorded.accepted signable (signs_genesis genesis owners)
  have same : c.state.account.registry = _ := congrArg Book.registry recorded.book
  rw [← same] at signs
  rw [State.getBalance_fst] at owned
  obtain ⟨signer, found, holds⟩ := signs a x owned
  rw [← Radix.lookup_congr recorded.tree] at found
  refine ⟨signer, getAddrFromIp_eq_ok.mpr found, fun block signed => ?_⟩
  refine ⟨(c.state.getBalance signer).2, ?_⟩
  have accepted : (c.state.getBalance signer).1.inOwnIps (IPNetwork.ofAddress x) = true := by
    rw [inOwnIps_ofAddress, State.getBalance_fst]
    exact holds
  rw [verifyBlockSignature_run signed, if_pos accepted]

end Chains

section Sample

open Sample

theorem listsOwners_genesis6 {s : State AddressRanges} {rows : Cached}
    (built : stateFromGenesisDeclaration genesis6 = .ok (s, rows)) : genesis6.ListsOwners s := by
  intro a x owned d ip lists inside
  have held := owned
  rw [State.getBalance_fst] at held
  obtain ⟨jp, lists', inside'⟩ := genesis_owned built held
  rw [← disjoint_genesis6 a d jp ip x lists' lists inside' inside]
  exact owned

theorem allocation_signable : ∃ (c : Chain AddressRanges (PrefixTable Address)) (signer : Address),
    c.Reachable genesis6 [firstBlock [move 0 alice carol 0 (net6 0 48)]] ∧
      c.getAddrFromIp (net6 0 48).ip = .ok signer ∧
      ∀ block : Block, block.signer = .ok signer →
        ∃ s, verifyBlockSignature block (net6 0 48).ip c.state = .ok true s := by
  obtain ⟨s₀, rows, c, t, built, reachable, account, holds⟩ := moved_of_passes 0 carol (by decide)
    (fun s _ => owns s carol (net6 0 48)) (by decide)
  have owned : (net6 0 48).ip ∈ (c.state.getBalance carol).1.ownIps := by
    rw [State.getBalance_fst, account, ← State.getBalance_fst]
    exact mem_of_owns holds _ (IPNetwork.ip_mem _)
  have row : (move 0 alice carol 0 (net6 0 48)).row = some (net6 0 48, carol) :=
    row_eq_some.mpr ⟨Or.inl rfl, ipNetwork_move _ _ _ _ _ _ (by decide), rfl⟩
  have signable : Signable (genesisRecords s₀ rows : Records (PrefixTable Address))
      (move 0 alice carol 0 (net6 0 48)) := by
    intro s V t signed present
    rw [row] at present
    cases signed
    cases present
    refine ⟨fun delegates => (by cases delegates), fun _ => ⟨?_, fun same => (by cases same)⟩⟩
    exact fun x _ n longer covers =>
      absurd (short_genesis6 built covers) (Nat.not_le.mpr longer)
  obtain ⟨signer, found, accepted⟩ := drawn_signer_accepted built (listsOwners_genesis6 built)
    reachable (List.forall_mem_singleton.mpr (Block.spelled_of_length le_rfl))
    (Records.throughout_cons.mpr ⟨signable, Records.throughout_nil⟩) owned
  exact ⟨c, signer, reachable, found, accepted⟩

/-- Alice delegates a network to Bob. The lookup then draws Bob for addresses that Alice owns, and
a block of his is refused. -/
theorem borrower_drawn_and_refused : ∃ (c : Chain AddressRanges (PrefixTable Address))
    (s : State AddressRanges) (block : Block),
    c.Reachable genesis6 [firstBlock [move 1 alice bob 0 (net6 0 48)]] ∧
      (net6 0 48).ip ∈ (c.state.getBalance alice).1.ownIps ∧
      c.getAddrFromIp (net6 0 48).ip = .ok bob ∧ block.signer = .ok bob ∧
      verifyBlockSignature block (net6 0 48).ip c.state =
        .error ⟨.invalidBlockSigner, ""⟩ s := by
  obtain ⟨s₀, rows, c, t, built, reachable, account, passes⟩ := moved_of_passes 1 bob (by decide)
    (fun s p => owns s alice (net6 0 48) &&
      ((s.getBalance bob).1.inOwnIps (IPNetwork.ofAddress (net6 0 48).ip) = false &&
        Radix.lookup p (net6 0 48).ip = some bob)) (by decide)
  simp only [Bool.and_eq_true, decide_eq_true_eq] at passes
  obtain ⟨holds, refused, found⟩ := passes
  have same (a : Address) : (c.state.getBalance a).1 = (t.getBalance a).1 := by
    rw [State.getBalance_fst, account, State.getBalance_fst]
  have signed : ({ firstBlock [] with cachedSigner := some bob } : Block).signer = .ok bob := rfl
  refine ⟨c, (c.state.getBalance bob).2, _, reachable, ?_, getAddrFromIp_eq_ok.mpr found, signed, ?_⟩
  · rw [same]
    exact mem_of_owns holds _ (IPNetwork.ip_mem _)
  · rw [verifyBlockSignature_run signed, same, if_neg (by rw [refused]; exact Bool.false_ne_true)]

end Sample

end IPchain
