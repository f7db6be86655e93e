import IPchain.Epochs
import IPchain.Signer

/-! Whether the account that is elected to sign a renewal owns an address, which verifiers ask
for. The accounts of the chain are those that a transaction has written. -/

namespace IPchain

open Lib

section Written

variable {S : Type} [IPSet S] {α β : Type}

def State.present (s : State S) : Set Address :=
  {a | a ∈ s.trie ∨ ∃ acct, s.cache.lookup a = some acct ∧ acct.touched = true}

theorem State.present_getAndCacheAccount (s : State S) (a : Address) :
    (s.getAndCacheAccount a).2.present = s.present := by
  simp only [getAndCacheAccount]
  split
  · rfl
  · rename_i absent
    ext b
    refine or_congr Iff.rfl ?_
    by_cases same : b = a
    · subst same
      have read := (s.loadAccount_spec b).1
      simp [cacheAccount, AList.lookup_insert, absent, read]
    · simp [cacheAccount, AList.lookup_insert_ne same]

theorem State.present_setParam (s : State S) (a : Address) (p : Account S → Param S) :
    (s.setParam a p).present ⊆ insert a s.present := by
  rw [← s.present_getAndCacheAccount a]
  intro b member
  by_cases same : b = a
  · exact Or.inl same
  · refine Or.inr ?_
    rcases member with stored | ⟨acct, cached, touched⟩
    · exact Or.inl stored
    · refine Or.inr ⟨acct, ?_, touched⟩
      rwa [setParam, setAndJournal, AList.lookup_insert_ne same] at cached

theorem State.present_commit (s : State S) : s.commit.present = s.present := by
  ext a
  have committed := lookup_commit s.trie s.cache s.undoable.coherent a
  have trie : a ∈ s.commit.trie ↔ a ∈ s.trie ∨
      ∃ acct, s.cache.lookup a = some acct ∧ acct.touched = true := by
    rw [← Finmap.lookup_isSome, ← Finmap.lookup_isSome]
    change (((s.cache.entries.foldl commitAccount s.trie).lookup a).isSome = true) ↔ _
    rw [committed]
    cases cached : s.cache.lookup a with
    | none => simp
    | some acct =>
        cases touched : acct.touched with
        | false => simp [CachedAccount.written, touched]
        | true => simp [CachedAccount.written, touched]
  change a ∈ s.commit.trie ∨ _ ↔ _
  rw [trie]
  simp [commit, present]

def Adds (W : Set Address) (x : EStateM PyExc (State S) α) (s : State S) : Prop :=
  (finish (x s)).present ⊆ s.present ∪ W

variable {W : Set Address} {x : EStateM PyExc (State S) α} {s : State S}

theorem Adds.of_preserves (preserves : Preserves State.present x) : Adds W x s := by
  rw [Adds, preserves s]
  exact Set.subset_union_left

theorem Adds.bind {g : α → EStateM PyExc (State S) β} (first : Adds W x s)
    (next : ∀ a t, x s = .ok a t → Adds W (g a) t) : Adds W (x >>= g) s := by
  rw [Adds, bind_run]
  cases run : x s with
  | error e t =>
      rw [Adds, run] at first
      exact first
  | ok a t =>
      rw [Adds, run] at first
      intro b member
      rcases next a t run member with earlier | new
      · exact first earlier
      · exact Or.inr new

theorem adds_setBalance {a : Address} (known : a ∈ W) (b : Balance S) :
    Adds W (setBalance a b : EStateM PyExc (State S) Unit) s := by
  intro c member
  rcases s.present_setParam a (fun _ => .balance b) member with same | earlier
  · rw [same]
    exact Or.inr known
  · exact Or.inl earlier

theorem adds_incrementNonce {a : Address} (known : a ∈ W) :
    Adds W (incrementNonce a : EStateM PyExc (State S) Unit) s := by
  intro c member
  rcases s.present_setParam a (fun account => .nonce (account.nonce + 1)) member with same | earlier
  · rw [same]
    exact Or.inr known
  · exact Or.inl earlier

theorem adds_getBalance (a : Address) :
    Adds W (getBalance a : EStateM PyExc (State S) (Balance S)) s :=
  .of_preserves (preserves_getBalance State.present_getAndCacheAccount a)

theorem adds_lift (r : Except PyExc α) : Adds W (lift r : EStateM PyExc (State S) α) s :=
  .of_preserves (Preserves.lift r)

theorem adds_reclaim (sender : Address) {affected : List (Address × S)}
    (known : ∀ row ∈ affected, row.1 ∈ W) (b : Balance S) :
    Adds W (reclaim sender affected b : EStateM PyExc (State S) (Balance S)) s := by
  induction affected generalizing b s with
  | nil => exact .of_preserves (Preserves.pure b)
  | cons row rest ih =>
      obtain ⟨first, others⟩ := List.forall_mem_cons.mp known
      apply (adds_lift _).bind
      intro senderBalance t run
      apply (adds_getBalance _).bind
      intro receivedBalance t run
      apply (adds_lift _).bind
      intro receivedBalance t run
      apply (adds_setBalance first receivedBalance).bind
      intro done t run
      exact ih others senderBalance

variable [Platform]

theorem adds_validateTransaction (tx : Transaction) :
    Adds W (validateTransaction tx : EStateM PyExc (State S) Bool) s :=
  .of_preserves (preserves_validateTransaction State.present_getAndCacheAccount tx)

def involved (s : State S) (tx : Transaction) : Set Address :=
  {a | tx.sender = .ok a ∨ (∃ V, tx.row = some (V, a)) ∨
    ∃ snd, tx.sender = .ok snd ∧ (s.account.registry.delegated snd a).Nonempty}

theorem adds_moveIps {tx : Transaction} (moves : tx.category = 0 ∨ tx.category = 1)
    (debit credit : Address → IPNetwork → Balance S → Balance S) (cached : Cached) :
    Adds (involved s tx) (moveIps tx debit credit cached : EStateM PyExc (State S) Cached) s := by
  apply (adds_lift _).bind
  intro sender t run
  obtain ⟨signed, rfl⟩ := lift_eq_ok.mp run
  apply (adds_lift _).bind
  intro value t run
  obtain ⟨network, rfl⟩ := lift_eq_ok.mp run
  apply (adds_lift _).bind
  intro holder t run
  obtain ⟨recipient, rfl⟩ := lift_eq_ok.mp run
  have known : sender ∈ involved t tx := Or.inl signed
  have named : holder ∈ involved t tx :=
    Or.inr (Or.inl ⟨value, row_eq_some.mpr ⟨moves, network, (normalize_toBytes _ _).mp recipient⟩⟩)
  apply (adds_getBalance _).bind
  intro senderBalance u run
  have balance : senderBalance = (t.account sender).balance := by
    cases run
    exact t.getBalance_fst sender
  apply (adds_lift _).bind
  intro affected v run
  obtain ⟨overlaps, rfl⟩ := lift_eq_ok.mp run
  have borrowers : ∀ row ∈ Platform.items affected, row.1 ∈ involved t tx := by
    intro row member
    obtain ⟨-, joints⟩ := Balance.affectedDelegatedIps_eq_ok.mp overlaps
    have listed := (Platform.items_perm affected).mem_iff.mp member
    rw [joints, balance] at listed
    obtain ⟨lent, present, joint, x, inside⟩ := (Shares.mem_joints _ _ _ _).mp listed
    rw [joint] at inside
    have owed := ((IPSet.mem_inter _ _ x).mp inside).2
    exact Or.inr (Or.inr ⟨sender, signed, x, lent, present, owed⟩)
  apply (adds_reclaim sender borrowers _).bind
  intro senderBalance v run
  apply (adds_getBalance _).bind
  intro toBalance w run
  apply (adds_setBalance named _).bind
  intro done w run
  apply (adds_setBalance known _).bind
  intro done w run
  apply (adds_incrementNonce known).bind
  intro done w run
  exact .of_preserves (Preserves.pure _)

theorem adds_setMapping (tx : Transaction)
    (set : Balance S → List Bytes → Except PyExc (Balance S)) :
    Adds (involved s tx) (setMapping tx set : EStateM PyExc (State S) Unit) s := by
  apply (adds_lift _).bind
  intro sender t run
  obtain ⟨signed, rfl⟩ := lift_eq_ok.mp run
  have known : sender ∈ involved t tx := Or.inl signed
  apply (adds_getBalance _).bind
  intro senderBalance u run
  apply (adds_lift _).bind
  intro senderBalance u run
  apply (adds_setBalance known _).bind
  intro done u run
  exact adds_incrementNonce known

theorem adds_perform (tx : Transaction) (cached : Cached) :
    Adds (involved s tx) (perform tx cached : EStateM PyExc (State S) Cached) s := by
  rw [perform]
  split
  · rename_i category
    exact adds_moveIps (Or.inl category) _ _ cached
  · split
    · rename_i category
      exact adds_moveIps (Or.inr category) _ _ cached
    · split
      · apply (adds_setMapping tx _).bind
        intro done t run
        exact .of_preserves (Preserves.pure _)
      · split
        · apply (adds_setMapping tx _).bind
          intro done t run
          exact .of_preserves (Preserves.pure _)
        · exact .of_preserves (Preserves.pure _)

theorem adds_applyTransaction (tx : Transaction) (cached : Cached) :
    Adds (involved s tx) (applyTransaction tx cached :
      EStateM PyExc (State S) (Bool × Cached)) s := by
  apply (adds_validateTransaction tx).bind
  intro valid t run
  have account : t.account = s.account :=
    (preserves_validateTransaction State.account_getAndCacheAccount tx).ok run
  have same : involved t tx = involved s tx := by rw [involved, account, involved]
  rw [← same]
  apply (adds_perform tx cached).bind
  intro rows u run
  apply Adds.bind
  · intro a member
    rw [← u.present_commit]
    exact Or.inl member
  · intro done v run
    exact .of_preserves (Preserves.pure _)

end Written

section Owners

variable {R : Type} [Radix R Address] [Platform]

structure Endowed (r : Registry Address IPAddress) (K : Set Address) : Prop where
  owned : ∀ a ∈ K, (r.own a).Nonempty
  borrowers : ∀ a d, (r.delegated a d).Nonempty → d ∈ K

def Transaction.named (tx : Transaction) : Set Address :=
  {a | tx.sender = .ok a ∨ ∃ V, tx.row = some (V, a)}

/-- The transaction comes from an account that keeps an address, and delegates to one that has
some. -/
def Endows (m : Records R) (tx : Transaction) : Prop :=
  ∀ s V, m.book.Accepts tx s V →
    (tx.category = 0 → (m.book.registry.own s \ V.addresses).Nonempty) ∧
    (∀ t, tx.category = 1 → tx.toAddr = some t → (m.book.registry.own t).Nonempty) ∧
    (1 < tx.category → (m.book.registry.own s).Nonempty)

theorem endowed_enter {m : Records R} {tx : Transaction} {s : Address} {V : IPNetwork}
    {K : Set Address} (accepts : m.book.Accepts tx s V) (endows : Endows m tx)
    (endowed : Endowed m.book.registry K) :
    Endowed (m.enter tx).book.registry (K ∪ tx.named) := by
  obtain ⟨keeps, borrows, maps⟩ := endows s V accepts
  have inside : V.ip ∈ V.addresses := V.ip_mem
  have signer {a : Address} (signed : tx.sender = .ok a) : a = s :=
    Except.ok.inj (signed.symm.trans accepts.signed)
  have recipient {a t : Address} (row : tx.row = some (V, t)) (named : ∃ W, tx.row = some (W, a)) :
      a = t := by
    obtain ⟨W, row'⟩ := named
    rw [row] at row'
    cases row'
    rfl
  rcases Records.enter_cases accepts with ⟨t, category, row, entered⟩ |
    ⟨t, category, row, entered⟩ | ⟨row, entered⟩
  · rw [entered]
    constructor
    · intro a known
      by_cases same : a = s
      · obtain ⟨x, held, outside⟩ := keeps category
        refine ⟨x, (m.book.registry.mem_own_transfer a x).mpr ?_⟩
        rw [if_pos same]
        exact ⟨held, outside⟩
      · rcases known with known | signed | named
        · obtain ⟨x, held⟩ := endowed.owned a known
          refine ⟨x, (m.book.registry.mem_own_transfer a x).mpr ?_⟩
          rw [if_neg same]
          exact Or.inl held
        · exact absurd (signer signed) same
        · refine ⟨V.ip, (m.book.registry.mem_own_transfer a V.ip).mpr ?_⟩
          rw [if_neg same]
          exact Or.inr ⟨recipient row named, inside⟩
    · rintro a d ⟨x, lent⟩
      have before := ((m.book.registry.mem_delegated_revoke a d x).mp lent).1
      exact Or.inl (endowed.borrowers a d ⟨x, before⟩)
  · rw [entered]
    constructor
    · intro a known
      change (m.book.registry.own a).Nonempty
      rcases known with known | signed | named
      · exact endowed.owned a known
      · rw [signer signed]
        exact ⟨V.ip, accepts.owned (Or.inr category) inside⟩
      · rw [recipient row named]
        exact borrows t category (row_eq_some.mp row).2.2
    · rintro a d ⟨x, lent⟩
      rcases (m.book.registry.mem_delegated_delegate a d x).mp lent with
        ⟨before, -⟩ | ⟨⟨-, same⟩, -⟩
      · exact Or.inl (endowed.borrowers a d ⟨x, before⟩)
      · rw [same]
        exact Or.inr (Or.inr ⟨V, row⟩)
  · rw [entered]
    constructor
    · intro a known
      change (m.book.registry.own a).Nonempty
      rcases known with known | signed | ⟨W, named⟩
      · exact endowed.owned a known
      · rw [signer signed]
        by_cases moves : tx.category = 0 ∨ tx.category = 1
        · exact ⟨V.ip, accepts.owned moves inside⟩
        · exact maps (by omega)
      · rw [row] at named
        cases named
    · intro a d lent
      exact Or.inl (endowed.borrowers a d lent)

variable {S : Type} [IPSet S]

omit [Radix R Address] in
theorem involved_subset {K : Set Address} {s : State S} {m : Records R} {tx : Transaction}
    (same : s.account.book = m.book) (endowed : Endowed m.book.registry K) :
    involved s tx ⊆ K ∪ tx.named := by
  rintro a (signed | named | ⟨sender, -, lent⟩)
  · exact Or.inr (Or.inl signed)
  · exact Or.inr (Or.inr named)
  · refine Or.inl (endowed.borrowers sender a ?_)
    rw [← same]
    exact lent

theorem applyTransactions_endowed {txs : List Transaction} {cached c : Cached} {s t : State S}
    (run : applyTransactions txs cached s = .ok c t) {m : Records R}
    (same : s.account.book = m.book) (endows : m.Throughout Endows txs) {K : Set Address}
    (endowed : Endowed m.book.registry K) (within : s.present ⊆ K) :
    ∃ L, Endowed (m.enterAll txs).book.registry L ∧ t.present ⊆ L := by
  induction txs generalizing cached s m K with
  | nil =>
      cases run
      exact ⟨K, endowed, within⟩
  | cons tx txs ih =>
      obtain ⟨r, u, applied, run⟩ := bind_eq_ok.mp run
      obtain ⟨first, others⟩ := Records.throughout_cons.mp endows
      obtain ⟨sender, V, step⟩ :=
        applyTransaction_step ((simulates_applyTransaction tx cached).ok applied)
      have accepts := book_accepts_iff.mpr step.valid
      rw [same] at accepts
      have entered : u.account.book = (m.enter tx).book := by
        rw [Records.enter_book accepts, step.book, same]
      have added := adds_applyTransaction (s := s) tx cached
      rw [Adds, applied] at added
      apply ih run entered others (endowed_enter accepts first endowed)
      intro a member
      rcases added member with before | new
      · exact Or.inl (within before)
      · exact involved_subset same endowed new

omit [Platform] in
theorem present_quiet {s : State S} (quiet : s.journal = []) (a : Address) :
    a ∈ s.present ↔ a ∈ s.trie := by
  constructor
  · rintro (stored | ⟨acct, cached, touched⟩)
    · exact stored
    · have undoable := s.undoable
      rw [quiet] at undoable
      rw [undoable.2 a acct cached] at touched
      cases touched
  · exact Or.inl

/-- The state agrees with the book, and each account of its trie owns an address. -/
structure Provided (m : Records R) (s : State S) : Prop where
  book : s.account.book = m.book
  known : ∃ K, Endowed m.book.registry K ∧ ∀ a ∈ s.trie, a ∈ K

omit [Radix R Address] [Platform] in
theorem Provided.owner {m : Records R} {s : State S} (provided : Provided m s) {a : Address}
    (listed : a ∈ s.trie) : ∃ x, x ∈ (s.getBalance a).1.ownIps := by
  obtain ⟨K, endowed, within⟩ := provided.known
  obtain ⟨x, owned⟩ := endowed.owned a (within a listed)
  rw [← provided.book] at owned
  rw [State.getBalance_fst]
  exact ⟨x, owned⟩

theorem Provided.block [TrieRoot] {m : Records R} {s t : State S} {p q : R} {block : Block}
    (provided : Provided m s) (quiet : s.journal = [])
    (endows : m.Throughout Endows block.transactions)
    (applied : applyBlock block (s, p) = .ok () (t, q)) :
    Provided (m.enterAll block.transactions) t := by
  obtain ⟨K, endowed, within⟩ := provided.known
  obtain ⟨-, cached, u, loop, rfl, rfl⟩ := applyBlock_eq_ok.mp applied
  have known : s.present ⊆ K := fun a member => within a ((present_quiet quiet a).mp member)
  obtain ⟨L, endowed', within'⟩ :=
    applyTransactions_endowed loop provided.book endows endowed known
  have records := applyTransactions_records
    ((simulates_applyTransactions _ _).ok loop) m provided.book
  exact ⟨records.2.1, L, endowed', fun a stored => within' (Or.inl stored)⟩

omit [Radix R Address] [Platform] in
theorem Provided.alike {m : Records R} {s t : State S} (provided : Provided m s)
    (alike : s.Alike t) : Provided m t := by
  obtain ⟨K, endowed, within⟩ := provided.known
  refine ⟨(congrArg Ledger.book alike.account).trans provided.book, K, endowed, ?_⟩
  rw [alike.trie]
  exact within

variable [StateRoot S]

theorem provided_genesis {g : GenesisData} {s₀ : State S} {rows : Cached}
    (genesis : stateFromGenesisDeclaration g = .ok (s₀, rows))
    (founders : ∀ a ∈ s₀.trie, ∃ x, x ∈ (s₀.getBalance a).1.ownIps) :
    Provided (genesisRecords s₀ rows : Records R) s₀ := by
  refine ⟨rfl, {a | a ∈ s₀.trie}, ⟨?_, ?_⟩, fun a known => known⟩
  · intro a known
    obtain ⟨x, owned⟩ := founders a known
    rw [State.getBalance_fst] at owned
    exact ⟨x, owned⟩
  · rintro a d ⟨x, lent, present, -⟩
    rw [(fresh_genesis genesis a).1] at present
    cases present

variable [TrieRoot] [Poststate]

/-- Where each account of the genesis owns an address and each transaction endows, every account
of the chain owns an address. -/
theorem Chain.Reachable.provided {g : GenesisData} {s₀ : State S} {rows : Cached}
    (genesis : stateFromGenesisDeclaration g = .ok (s₀, rows))
    (founders : ∀ a ∈ s₀.trie, ∃ x, x ∈ (s₀.getBalance a).1.ownIps) {blocks : List Block}
    {c : Chain S R} (reachable : c.Reachable g blocks)
    (endows : (genesisRecords s₀ rows : Records R).Throughout Endows
      (blocks.flatMap Block.transactions)) :
    Provided ((genesisRecords s₀ rows : Records R).enterAll (blocks.flatMap Block.transactions))
      c.state := by
  have kept := reachable.invariant (P := fun blocks c =>
    (genesisRecords s₀ rows : Records R).Throughout Endows (blocks.flatMap Block.transactions) →
      Provided ((genesisRecords s₀ rows : Records R).enterAll
        (blocks.flatMap Block.transactions)) c.state)
  apply kept ?_ ?_ ?_ endows
  · intro c built _
    obtain ⟨c', started, rfl, -⟩ := Chain.init_ok (R := R) genesis
    rw [built] at started
    cases started
    exact provided_genesis genesis founders
  · intro blocks c block s t p sane ih alike applied endows
    rw [List.flatMap_append, List.flatMap_singleton] at endows ⊢
    obtain ⟨earlier, last⟩ := Records.throughout_append.mp endows
    have before := (ih earlier).alike alike
    rw [Records.enterAll_append]
    obtain ⟨book, K, endowed, within⟩ :=
      before.block (alike.journal.trans sane.quiet) last applied
    exact ⟨book, K, endowed, within⟩
  · intro blocks c s queue ih alike endows
    exact (ih endows).alike alike

end Owners

section Election

open NodeConfig Config

theorem dkgSigner_eq_ok {randomNo : Bytes} {group : List Address} {address : Address} :
    dkgSigner randomNo group = .ok address ↔
      ∃ s, compressRandomNoToInt randomNo = .ok s ∧ group[s % group.length]? = some address := by
  rw [dkgSigner, except_bind_eq_ok]
  constructor
  · rintro ⟨s, compressed, found⟩
    refine ⟨s, compressed, ?_⟩
    cases present : group[s % group.length]? with
    | none =>
        rw [present] at found
        cases found
    | some other =>
        rw [present] at found
        cases found
        rfl
  · rintro ⟨s, compressed, present⟩
    refine ⟨s, compressed, ?_⟩
    rw [present]
    rfl

variable {S R : Type} [IPSet S] [Radix R Address] [Platform] [NodeConfig] [Hashlib] [TrieKeys S]
  [FirstAddress S]

/-- The account that is elected at a head of this number has a first address, and a block that it
signs is accepted for this address. -/
def Node.CanRenew (first : BlockHeader) (number : Nat) (n : Node S R) : Prop :=
  ∃ group last address, n.service.chain.getCurrentDkgGroup first = .ok group ∧
    n.service.chain.getBlockByNumber first number = .ok last ∧
    dkgSigner (encodeHex last.header.randomNumber) group = .ok address ∧
    ∃ ip m, Node.extractFirstIpFromAddress address n = .ok (some ip) m ∧
      ∀ block : Block, block.signer = .ok address →
        ∃ m', Node.onService (Service.onState (verifyBlockSignature block ip)) m = .ok true m'

/-- The account at the position that the random number of the head selects in the group. -/
def Chain.Elects (first : BlockHeader) (number : Nat) (c : Chain S R) (address : Address) : Prop :=
  ∃ r s group, c.RandomAt first (lastRenewal number) r ∧ c.RandomAt first number s ∧
    drawGroup dkgNumberParticipants r (TrieKeys.keys c.state.trie) = .ok group ∧
      group[s % group.length]? = some address

variable [TrieRoot] [Poststate] [StateRoot S]

theorem canRenew_iff {g : GenesisData} {first : BlockHeader} (roots : g.Roots S first)
    {blocks : List Block} {n : Node S R} (reachable : n.service.chain.Reachable g blocks) :
    n.CanRenew first blocks.length ↔
      ∃ address, n.service.chain.Elects first blocks.length address ∧
        ∃ x, x ∈ (n.service.chain.state.getBalance address).1.ownIps := by
  constructor
  · rintro ⟨group, last, address, drawn, read, elected, ip, m, found, -⟩
    obtain ⟨r, random, picked⟩ := (reachable.getCurrentDkgGroup_eq_ok roots).mp drawn
    obtain ⟨s, compressed, selected⟩ := dkgSigner_eq_ok.mp elected
    refine ⟨address, ⟨r, s, group, random, ⟨random.1, last, read, compressed⟩, picked, selected⟩,
      ip, ?_⟩
    obtain ⟨t, -, ran⟩ := Node.extractFirstIpFromAddress_run address n
    rw [ran] at found
    rw [State.getBalance_fst]
    apply FirstAddress.mem_first
    injection found
  · rintro ⟨address, ⟨r, s, group, random, ⟨-, last, read, compressed⟩, picked, selected⟩, x, owned⟩
    have drawn := (reachable.getCurrentDkgGroup_eq_ok roots).mpr ⟨r, random, picked⟩
    have elected := dkgSigner_eq_ok.mpr ⟨s, compressed, selected⟩
    obtain ⟨t, alike, ran⟩ := Node.extractFirstIpFromAddress_run address n
    rw [State.getBalance_fst] at owned
    obtain ⟨ip, first⟩ : ∃ ip, n.firstOf address = some ip := by
      cases none : n.firstOf address with
      | some ip => exact ⟨ip, rfl⟩
      | none => exact absurd owned ((FirstAddress.first_eq_none _).mp none x)
    rw [first] at ran
    refine ⟨group, last, address, drawn, read, elected, ip, _, ran, ?_⟩
    intro block signed
    have held : (t.getBalance address).1.inOwnIps (IPNetwork.ofAddress ip) = true := by
      rw [inOwnIps_ofAddress, State.getBalance_fst, alike.account]
      exact FirstAddress.mem_first _ ip first
    have verified : verifyBlockSignature block ip t = .ok true (t.getBalance address).2 := by
      rw [verifyBlockSignature_run signed, if_pos held]
    exact ⟨_, Node.onService_eq_ok.mpr
      ⟨_, Service.onState_eq_ok.mpr ⟨_, verified, rfl⟩, rfl⟩⟩

/-- The elected account can sign exactly when it owns an address. Where each account of the
genesis owns one and each transaction endows, it does. -/
theorem renewal_signable {g : GenesisData} {s₀ : State S} {rows : Cached}
    (genesis : stateFromGenesisDeclaration g = .ok (s₀, rows)) {first : BlockHeader}
    (roots : g.Roots S first) {blocks : List Block} {n : Node S R}
    (reachable : n.service.chain.Reachable g blocks) (participants : 0 < dkgNumberParticipants)
    (enough : dkgNumberParticipants ≤ (TrieKeys.keys n.service.chain.state.trie).length)
    {r s : Nat} (renewal : n.service.chain.RandomAt first (lastRenewal blocks.length) r)
    (head : n.service.chain.RandomAt first blocks.length s) :
    (n.CanRenew first blocks.length ↔
      ∃ address, n.service.chain.Elects first blocks.length address ∧
        ∃ x, x ∈ (n.service.chain.state.getBalance address).1.ownIps) ∧
    ((∀ a ∈ s₀.trie, ∃ x, x ∈ (s₀.getBalance a).1.ownIps) →
      (genesisRecords s₀ rows : Records R).Throughout Endows
        (blocks.flatMap Block.transactions) → n.CanRenew first blocks.length) := by
  refine ⟨canRenew_iff roots reachable, ?_⟩
  intro founders endows
  have provided := reachable.provided genesis founders endows
  obtain ⟨group, rest, drawn, length, perm⟩ := drawGroup_perm dkgNumberParticipants r enough
  have inside : s % group.length < group.length := Nat.mod_lt _ (by omega)
  have member : group[s % group.length] ∈ TrieKeys.keys n.service.chain.state.trie :=
    perm.mem_iff.mpr (List.mem_append_left _ (List.getElem_mem inside))
  apply (canRenew_iff roots reachable).mpr
  exact ⟨_, ⟨r, s, group, renewal, head, drawn, List.getElem?_eq_getElem inside⟩,
    provided.owner ((TrieKeys.mem_keys _ _).mp member)⟩

end Election

namespace Sample.Elected

open Sample Sample.Recovered Sample.Watched Sample.Renewed

def share (n : Nat) : IPNetwork := net6 (n - 1) 48

def genesis : GenesisData :=
  { Sample.genesis with
    alloc := [(encodeHex (owner 1).bytes, some [share 1]),
      (encodeHex (owner 2).bytes, some [share 2])] }

def first : BlockHeader := Sample.founded genesis

def give (n : Nat) (V : IPNetwork) : Transaction :=
  ⟨0, 0, some (owner (3 - n)), 2, valueOf V, .bytes [], 0, 27, 1, n, none⟩

def block (n : Nat) (V : IPNetwork) : Block where
  header := {
    (blockAfter first.hash 1 2 zeros []).header with
    txRoot := mkTransactionSha [give n V] }
  transactions := [give n V]
  v := 27
  r := 1
  s := 1
  cachedSigner := none

def founded (s : State AddressRanges) : Bool :=
  s.trie.keys = {owner 1, owner 2} && (owns s (owner 1) (share 1) && owns s (owner 2) (share 2))

def gives (n : Nat) (V : IPNetwork) (test : State AddressRanges → Bool)
    (g : State AddressRanges × Cached) : Bool :=
  ((g.1.getNonce (owner n)).1 = 0 && founded g.1) &&
    RunPasses (applyTransactions [give n V] ∅ g.1) fun _ t =>
      test t && decide (t.trie.keys = {owner 1, owner 2})

theorem roots_of_passes {test : State AddressRanges × Cached → Bool}
    (passes : Passes (stateFromGenesisDeclaration genesis) test = true) :
    ∃ (s : State AddressRanges) (rows : Cached) (c : Chain AddressRanges (PrefixTable Address)),
      stateFromGenesisDeclaration genesis = .ok (s, rows) ∧ test (s, rows) = true ∧
        Still genesis first [] c ∧ c.state = s := by
  obtain ⟨⟨s, rows⟩, built, passed⟩ := passes_iff.mp passes
  obtain ⟨c, still, state⟩ := still_init built rfl rfl rfl
  exact ⟨s, rows, c, built, passed, still, state⟩

theorem given {n : Nat} {V : IPNetwork} {test : State AddressRanges → Bool}
    (passes : Passes (stateFromGenesisDeclaration genesis) (gives n V test) = true)
    (readable : Passes (block n V).decoded (fun _ => true) = true)
    (known : owner n ≠ nullAddress) (signed : (give n V).sender = .ok (owner n))
    (reads : (give n V).ipNetwork = .ok V)
    (held : ∀ s, founded s = true → ∀ x ∈ V, x ∈ (s.getBalance (owner n)).1.ownIps) :
    ∃ (s t : State AddressRanges) (rows : Cached) (more : List Block)
      (c : Chain AddressRanges (PrefixTable Address)),
      stateFromGenesisDeclaration genesis = .ok (s, rows) ∧ founded s = true ∧
        Still genesis first (block n V :: more) c ∧ more.length = 498 ∧
        (∀ empty ∈ more, empty.transactions = []) ∧
        c.state.trie.keys = {owner 1, owner 2} ∧ c.state.account = t.account ∧ test t = true := by
  obtain ⟨s, rows, c, built, passed, still, rfl⟩ := roots_of_passes passes
  simp only [gives, Bool.and_eq_true, decide_eq_true_eq] at passed
  obtain ⟨⟨next, owned⟩, passed⟩ := passed
  obtain ⟨cached, t, loop, passed⟩ := runPasses_iff.mp passed
  simp only [Bool.and_eq_true, decide_eq_true_eq] at passed
  obtain ⟨tested, keys⟩ := passed
  have accepts : c.state.account.book.Accepts (give n V) (owner n) V := by
    refine ⟨signed, known, ?_, Nat.zero_le 3, reads, fun _ x inside => ?_⟩
    · rw [State.getNonce_fst] at next
      exact next
    · have owns := held _ owned x inside
      rwa [State.getBalance_fst] at owns
  have based : Based c.state.toAuxVars (block n V) := still.follows (by decide) rfl rfl rfl rfl
  have signer : (block n V).signer = .ok (owner 1) :=
    signer_of_fits rfl rfl rfl (Or.inl rfl) rfl ⟨hash_length _, Or.inl List.length_replicate,
      Or.inl (Platform.sha3_length _), Or.inl (owner 1).sized, List.length_replicate⟩
  obtain ⟨v, validated⟩ := validateBlock_ok_iff.mpr
    ⟨⟨owner 1, signer, owner_known⟩, based, List.forall_mem_singleton.mpr ⟨_, _, accepts⟩⟩
  have applied := (applyBlock_eq_ok (p := c.patricia)).mpr ⟨based, cached, t, loop, rfl, rfl⟩
  obtain ⟨u, added, alike⟩ := still.reachable.sane.accepts validated applied le_rfl 0
  have headers : u.prevHeaders = .block (block n V).header :: c.state.prevHeaders := by
    have before := (preserves_applyTransactions _ _).ok loop
    rw [congrArg AuxVars.prevHeaders alike.auxvars, ← congrArg AuxVars.prevHeaders before]
    rfl
  obtain ⟨read, decoded, -⟩ := passes_iff.mp readable
  have still' := still.grow (still.reachable.extend added) headers rfl decoded rfl
  have short : 1 + 498 < 1000 := by decide
  obtain ⟨more, c', length, still'', empty, trie, account⟩ := still'.upTo 498 short
  refine ⟨c.state, t, rows, more, c', built, owned, still'', length, empty, ?_, ?_, tested⟩
  · rw [trie]
    change u.trie.keys = _
    rw [alike.trie]
    exact keys
  · rw [account]
    exact alike.account

def spent (n : Nat) (t : State AddressRanges) : Bool := (t.getBalance (owner n)).1.ownIps.size = 0

theorem given_all {n : Nat}
    (passes : Passes (stateFromGenesisDeclaration genesis) (gives n (share n) (spent n)) = true)
    (readable : Passes (block n (share n)).decoded (fun _ => true) = true)
    (known : owner n ≠ nullAddress) (signed : (give n (share n)).sender = .ok (owner n))
    (reads : (give n (share n)).ipNetwork = .ok (share n))
    (held : ∀ s, founded s = true → owns s (owner n) (share n) = true) :
    ∃ (blocks : List Block) (c : Chain AddressRanges (PrefixTable Address)),
      Still genesis first blocks c ∧ blocks.length = 499 ∧
        c.state.trie.keys = {owner 1, owner 2} ∧
          (c.state.account (owner n)).balance.ownIps.size = 0 := by
  obtain ⟨s, t, rows, more, c, -, -, still, length, -, keys, account, tested⟩ :=
    given passes readable known signed reads fun s owned => mem_of_owns (held s owned)
  refine ⟨_, c, still, congrArg Nat.succ length, keys, ?_⟩
  rw [spent, decide_eq_true_eq, State.getBalance_fst] at tested
  rw [account]
  exact tested

theorem given_first : ∃ (blocks : List Block) (c : Chain AddressRanges (PrefixTable Address))
    (poor : Address) (rest : List Address), Still genesis first blocks c ∧ blocks.length = 499 ∧
      TrieKeys.keys c.state.trie = poor :: rest ∧
        (c.state.account poor).balance.ownIps.size = 0 := by
  have two : ({owner 1, owner 2} : Finset Address).toList.length = 2 := by
    rw [Finset.length_toList]
    decide
  obtain ⟨a, b, listed⟩ := List.length_eq_two.mp two
  have member : a ∈ ({owner 1, owner 2} : Finset Address) := by
    rw [← Finset.mem_toList, listed]
    exact List.mem_cons_self
  have keys {c : Chain AddressRanges (PrefixTable Address)}
      (same : c.state.trie.keys = {owner 1, owner 2}) : TrieKeys.keys c.state.trie = [a, b] := by
    change c.state.trie.keys.toList = _
    rw [same]
    exact listed
  rcases Finset.mem_insert.mp member with rfl | second
  · obtain ⟨blocks, c, still, length, same, spent⟩ := given_all (n := 1) (by decide +kernel)
      (by decide +kernel) owner_known (by decide +kernel) (by decide +kernel) (by
        intro s holds
        simp only [founded, Bool.and_eq_true] at holds
        exact holds.2.1)
    exact ⟨blocks, c, _, [b], still, length, keys same, spent⟩
  · rw [Finset.mem_singleton.mp second] at keys
    obtain ⟨blocks, c, still, length, same, spent⟩ := given_all (n := 2) (by decide +kernel)
      (by decide +kernel) (by decide +kernel) (by decide +kernel) (by decide +kernel) (by
        intro s holds
        simp only [founded, Bool.and_eq_true] at holds
        exact holds.2.2)
    exact ⟨blocks, c, _, [b], still, length, keys same, spent⟩

def node (c : Chain AddressRanges (PrefixTable Address)) :
    Node AddressRanges (PrefixTable Address) :=
  Node.fresh ⟨c, []⟩ 600 first [] [] group ⟨.v4, 0, origin_bound⟩

/-- The account that is elected to sign the block 500 owns no address. -/
theorem elected_poor : ∃ (blocks : List Block) (n : Node AddressRanges (PrefixTable Address)),
    n.service.chain.Reachable genesis blocks ∧ genesis.Roots AddressRanges first ∧
      (blocks.length + 1) % Config.dkgRenewalInterval = 0 ∧
        NodeConfig.dkgNumberParticipants ≤ (TrieKeys.keys n.service.chain.state.trie).length ∧
          ¬ n.CanRenew first blocks.length := by
  obtain ⟨blocks, c, poor, rest, still, length, keys, spent⟩ := given_first
  refine ⟨blocks, node c, still.reachable, still.roots, ?_, ?_, ?_⟩
  · rw [length]
    rfl
  · change 1 ≤ (TrieKeys.keys c.state.trie).length
    rw [keys]
    exact Nat.succ_pos _
  · rw [canRenew_iff still.roots still.reachable]
    rintro ⟨address, ⟨r, s, group, renewal, head, drawn, selected⟩, x, owned⟩
    have zero : lastRenewal blocks.length = 0 := by
      rw [length]
      rfl
    rw [zero] at renewal
    cases renewal.unique still.random
    have drawn' : drawGroup 1 0 (poor :: rest) = .ok group := by
      rw [← keys]
      exact drawn
    have alone : group = [poor] := by
      obtain ⟨a, others, present, nobody, rfl⟩ := drawGroup_succ_eq_ok.mp drawn'
      rw [Nat.zero_mod, List.getElem?_cons_zero] at present
      cases present
      cases nobody
      rfl
    rw [alone, List.length_singleton, Nat.mod_one] at selected
    cases selected
    rw [State.getBalance_fst] at owned
    exact ((IPSet.size_eq_zero _).mp spent) x owned

def half : IPNetwork := netOf .v6 (share 1).value 49

def kept : IPAddress := ⟨.v6, (share 1).value + 2 ^ 80 - 1, by decide⟩

/-- An account gives half of its network away, and the elected account signs. -/
theorem elected_signs : ∃ (blocks : List Block) (n : Node AddressRanges (PrefixTable Address)),
    n.service.chain.Reachable genesis blocks ∧ blocks.length = 499 ∧
      blocks.flatMap Block.transactions = [give 1 half] ∧ n.CanRenew first blocks.length := by
  have part : ∀ s, founded s = true →
      ∀ x ∈ half, x ∈ (s.getBalance (owner 1)).1.ownIps := by
    intro s owned x inside
    simp only [founded, Bool.and_eq_true] at owned
    exact mem_of_owns owned.2.1 x
      (IPNetwork.nested half.ip_mem (by decide) (by decide) inside)
  have passes : Passes (stateFromGenesisDeclaration genesis) (gives 1 half fun _ => true) = true := by
    decide +kernel
  obtain ⟨s, t, rows, more, c, built, owned, still, length, empty, keys, -, -⟩ :=
    given passes (by decide +kernel) owner_known (by decide +kernel) (by decide +kernel) part
  have transactions : (block 1 half :: more).flatMap Block.transactions = [give 1 half] := by
    rw [List.flatMap_cons, List.flatMap_eq_nil_iff.mpr empty]
    rfl
  have grown : (block 1 half :: more).length = 499 := congrArg Nat.succ length
  refine ⟨_, node c, still.reachable, grown, transactions, ?_⟩
  simp only [founded, Bool.and_eq_true, decide_eq_true_eq] at owned
  obtain ⟨listed, owns₁, owns₂⟩ := owned
  have enough : 1 ≤ (TrieKeys.keys c.state.trie).length := by
    change 1 ≤ c.state.trie.keys.toList.length
    rw [Finset.length_toList, keys]
    decide
  have renewal : c.RandomAt first (lastRenewal (block 1 half :: more).length) 0 := by
    rw [grown]
    exact still.random
  apply (renewal_signable built still.roots (n := node c) still.reachable Nat.zero_lt_one enough
    renewal still.randomHead).2
  · intro a stored
    rw [← Finmap.mem_keys, listed, Finset.mem_insert, Finset.mem_singleton] at stored
    rcases stored with rfl | rfl
    · exact ⟨_, mem_of_owns owns₁ _ (share 1).ip_mem⟩
    · exact ⟨_, mem_of_owns owns₂ _ (share 2).ip_mem⟩
  · rw [transactions, Records.throughout_cons]
    refine ⟨?_, Records.throughout_nil⟩
    intro a V accepts
    have signed : (give 1 half).sender = .ok (owner 1) := by decide +kernel
    have reads : (give 1 half).ipNetwork = .ok half := by decide
    cases signed.symm.trans accepts.signed
    cases reads.symm.trans accepts.network
    refine ⟨fun _ => ⟨kept, ?_, ?_⟩, nofun, nofun⟩
    · have held := mem_of_owns owns₁ kept (by decide)
      rw [State.getBalance_fst] at held
      exact held
    · exact show kept ∉ half by decide

end Sample.Elected

end IPchain
