import IPchain.Chain
import IPchain.Ownership
import IPchain.Records

/-! What the prefix tree answers. Each move of a network adds a row and none is ever removed, so
the longer prefixes that earlier moves left behind still decide inside of a network that is
moved as a whole. -/

namespace IPchain

open Lib IPSet

section Trees

variable {R : Type} [Radix R Address]

/-- The tree answers with the holder of every address. -/
def Tracks (r : Registry Address IPAddress) (tree : R) : Prop :=
  ∀ x h, r.Holds x h → Radix.lookup tree x = some h

variable {r r' : Registry Address IPAddress} {tree : R} {V : IPNetwork} {t : Address}

theorem tracks_add (tracks : Tracks r tree)
    (outside : ∀ x, x ∉ V → ∀ h, r'.Holds x h → r.Holds x h)
    (inside : ∀ x ∈ V, ∀ h, r'.Holds x h → Radix.lookup (Radix.add tree V t) x = some h) :
    Tracks r' (Radix.add tree V t) := by
  intro x h holds
  by_cases moved : x ∈ V
  · exact inside x moved h holds
  · exact Radix.lookup_add_outside tree V t x moved h (tracks x h (outside x moved h holds))

theorem tracks_add_iff (tracks : Tracks r tree)
    (outside : ∀ x, x ∉ V → ∀ h, r'.Holds x h ↔ r.Holds x h)
    (inside : ∀ x ∈ V, ∀ h, r'.Holds x h ↔ h = t) :
    Tracks r' (Radix.add tree V t) ↔ Radix.Settled tree V t := by
  constructor
  · intro follows x moved m e longer covers
    have answer := follows x t ((inside x moved t).mpr rfl)
    rw [Radix.lookup_add_longer t longer covers] at answer
    exact Option.some.inj answer
  · intro settled
    refine tracks_add tracks (fun x moved h => (outside x moved h).mp) ?_
    intro x moved h holds
    rw [(inside x moved h).mp holds]
    exact Radix.lookup_add_inside tree V t settled x moved

end Trees

section Turns

variable {R : Type} [Radix R Address] [Platform]

/-- No longer prefix holds another account inside of the network that the transaction moves.
What an account allocates to itself is nobody's afterwards, and needs no answer. -/
def Settles (m : Records R) (tx : Transaction) : Prop :=
  ∀ V t, tx.row = some (V, t) → tx.category = 0 ∧ tx.sender = .ok t ∨ Radix.Settled m.tree V t

/-- No two accounts share an address, loans stay within ownership, and the tree tracks both. -/
structure Faithful (m : Records R) : Prop where
  disjoint : m.book.registry.Disjoint
  within : m.book.registry.Within
  tracks : Tracks m.book.registry m.tree

variable {m : Records R} {tx : Transaction} {s : Address} {V : IPNetwork}

theorem faithful_enter_iff (accepts : m.book.Accepts tx s V) (faithful : Faithful m) :
    Faithful (m.enter tx) ↔ Settles m tx := by
  obtain ⟨disjoint, within, tracks⟩ := faithful
  have settles {t : Address} (row : tx.row = some (V, t)) : Settles m tx ↔
      tx.category = 0 ∧ tx.sender = .ok t ∨ Radix.Settled m.tree V t := by
    constructor
    · exact fun settles => settles V t row
    · intro settled W u row'
      rw [row] at row'
      cases row'
      exact settled
  rcases Records.enter_cases accepts with ⟨t, category, row, entered⟩ |
    ⟨t, category, row, entered⟩ | ⟨row, entered⟩ <;> rw [entered]
  · have owned := accepts.owned (Or.inl category)
    have kept := Registry.disjoint_transfer _ (t := t) owned disjoint
    have bounded : (m.book.registry.transfer s t V.addresses).Within :=
      Registry.within_transfer _ within
    have outside (x : IPAddress) (moved : x ∉ V) (h : Address) :
        (m.book.registry.transfer s t V.addresses).Holds x h ↔ m.book.registry.Holds x h :=
      m.book.registry.holds_transfer_outside (V := V.addresses) moved h
    rw [settles row, accepts.signed]
    by_cases same : t = s
    · subst same
      refine iff_of_true ⟨kept, bounded, tracks_add tracks (fun x moved h => (outside x moved h).mp)
        fun x moved h holds => ?_⟩ (Or.inl ⟨category, rfl⟩)
      have gone := (Registry.holds_transfer_inside _ disjoint within owned moved h).mp holds
      exact absurd rfl gone.2
    · have inside (x : IPAddress) (moved : x ∈ V) (h : Address) :
          (m.book.registry.transfer s t V.addresses).Holds x h ↔ h = t :=
        (Registry.holds_transfer_inside _ disjoint within owned moved h).trans (and_iff_left same)
      have other : ¬ (tx.category = 0 ∧ Except.ok (ε := PyExc) s = .ok t) :=
        fun ⟨_, equal⟩ => same (Except.ok.inj equal).symm
      rw [or_iff_right other, ← tracks_add_iff tracks outside inside]
      exact ⟨Faithful.tracks, fun follows => ⟨kept, bounded, follows⟩⟩
  · have owned := accepts.owned (Or.inr category)
    have bounded : (m.book.registry.delegate s t V.addresses).Within :=
      Registry.within_delegate _ owned within
    have outside (x : IPAddress) (moved : x ∉ V) (h : Address) :
        (m.book.registry.delegate s t V.addresses).Holds x h ↔ m.book.registry.Holds x h :=
      m.book.registry.holds_delegate_outside (V := V.addresses) moved h
    have inside (x : IPAddress) (moved : x ∈ V) (h : Address) :
        (m.book.registry.delegate s t V.addresses).Holds x h ↔ h = t :=
      Registry.holds_delegate_inside _ disjoint within owned moved h
    have other : ¬ (tx.category = 0 ∧ tx.sender = .ok t) := by
      rintro ⟨allocates, -⟩
      omega
    rw [settles row, or_iff_right other, ← tracks_add_iff tracks outside inside]
    exact ⟨Faithful.tracks, fun follows => ⟨disjoint, bounded, follows⟩⟩
  · refine iff_of_true ⟨disjoint, within, tracks⟩ fun W t present => ?_
    rw [row] at present
    cases present

end Turns

section Blocks

variable {S R : Type} [IPSet S] [Radix R Address] [Platform] [TrieRoot]

/-- The blocks are applied one after another, to the state and to the tree. Readers may fill
the cache at any time. -/
inductive Applied (s₀ : State S) (p₀ : R) : List Block → State S → R → Prop
  | start : Applied s₀ p₀ [] s₀ p₀
  | apply {blocks : List Block} {s t : State S} {p q : R} {block : Block}
      (run : Applied s₀ p₀ blocks s p) (applied : applyBlock block (s, p) = .ok () (t, q)) :
      Applied s₀ p₀ (blocks ++ [block]) t q
  | read {blocks : List Block} {s : State S} {p : R} (run : Applied s₀ p₀ blocks s p)
      (a : Address) : Applied s₀ p₀ blocks (s.getAndCacheAccount a).2 p

theorem Applied.recorded {s₀ s : State S} {rows : Cached} {p : R} {blocks : List Block}
    (run : Applied s₀ (PatriciaState.setValues Radix.empty (cachedRows rows)) blocks s p)
    (spelled : ∀ block ∈ blocks, block.Spelled) :
    Recorded (genesisRecords s₀ rows) (blocks.flatMap Block.transactions) s p := by
  induction run with
  | start => exact recorded_start s₀ rows
  | apply run applied ih =>
      have earlier := ih fun block member => spelled block (List.mem_append_left _ member)
      rw [List.flatMap_append, List.flatMap_singleton]
      exact earlier.block applied (spelled _ (List.mem_append_right _ (List.mem_singleton_self _)))
  | @read blocks s p run a ih => exact (ih spelled).congr (s.account_getAndCacheAccount a)

variable [StateRoot S]

def GenesisData.Disjoint (g : GenesisData) : Prop :=
  ∀ a b ip jp x, Lists g.alloc a ip → Lists g.alloc b jp → x ∈ ip → x ∈ jp → a = b

omit [TrieRoot] in
theorem faithful_genesis {g : GenesisData} {s : State S} {rows : Cached}
    (genesis : stateFromGenesisDeclaration g = .ok (s, rows)) (disjoint : g.Disjoint) :
    Faithful (genesisRecords s rows : Records R) := by
  have sound := sound_fresh (fresh_genesis genesis)
  obtain ⟨stored, covered⟩ := genesis_tree (R := R) genesis
  refine ⟨?_, sound.within, ?_⟩
  · intro a b different x first second
    obtain ⟨ip, lists, inside⟩ := genesis_owned genesis first
    obtain ⟨jp, lists', inside'⟩ := genesis_owned genesis second
    exact different (disjoint a b ip jp x lists lists' inside inside')
  · rintro x h (⟨a, lent⟩ | ⟨owned, -⟩)
    · obtain ⟨d, present, -⟩ := lent
      rw [(fresh_genesis genesis a).1] at present
      cases present
    · obtain ⟨d, found⟩ := covered h x owned
      obtain ⟨m, covers⟩ := (Radix.lookup_eq_some _ x d).mp found
      obtain ⟨ip, cidr, lists⟩ := stored m d covers.stored
      obtain ⟨jp, lists', inside⟩ := genesis_owned genesis owned
      rw [found, disjoint d h ip jp x lists lists' (IPNetwork.mem_of_cidr_eq cidr covers.inside)
        inside]

/-- From any genesis with disjoint prefixes, the lookup returns the holder of every address
that is owned, as long as every transaction settled its network when its turn came. -/
theorem lookup_returns_holder {g : GenesisData} {s₀ s : State S} {rows : Cached} {p : R}
    {blocks : List Block} (genesis : stateFromGenesisDeclaration g = .ok (s₀, rows))
    (disjoint : g.Disjoint)
    (run : Applied s₀ (PatriciaState.setValues Radix.empty (cachedRows rows)) blocks s p)
    (spelled : ∀ block ∈ blocks, block.Spelled)
    (settles : (genesisRecords s₀ rows : Records R).Throughout Settles
      (blocks.flatMap Block.transactions))
    {a : Address} {x : IPAddress} (owned : x ∈ (s.getBalance a).1.ownIps) :
    (∀ d lent, (s.getBalance a).1.delegatedIps.lookup d = some lent → x ∈ lent →
      PatriciaState.getValue p x = .ok d) ∧
    ((∀ d lent, (s.getBalance a).1.delegatedIps.lookup d = some lent → x ∉ lent) →
      PatriciaState.getValue p x = .ok a) := by
  have recorded := run.recorded spelled
  have faithful := Records.preserved
    (fun m tx s V accepts settles faithful => (faithful_enter_iff accepts faithful).mpr settles)
    recorded.accepted settles (faithful_genesis genesis disjoint)
  have answer (h : Address) (holds : s.account.registry.Holds x h) :
      PatriciaState.getValue p x = .ok h := by
    have same : s.account.registry = _ := congrArg Book.registry recorded.book
    rw [same] at holds
    rw [PatriciaState.getValue_eq_ok, Radix.lookup_congr recorded.tree]
    exact faithful.tracks x h holds
  simp only [State.getBalance_fst] at owned ⊢
  constructor
  · exact fun d lent present inside => answer d (Or.inl ⟨a, lent, present, inside⟩)
  · intro unlent
    refine answer a (Or.inr ⟨owned, ?_⟩)
    rintro d ⟨lent, present, inside⟩
    exact unlent d lent present inside

end Blocks

section Sample

open Sample

theorem lists_genesis6 {a : Address} {ip : IPNetwork} (lists : Lists genesis6.alloc a ip) :
    (a = alice ∧ (ip = net6 0 48 ∨ ip = net6 1 48)) ∨ (a = bob ∧ ip = net6 2 47) := by
  obtain ⟨addr, ownIps, member, named, listed⟩ := lists
  simp only [genesis6, List.mem_cons, Prod.mk.injEq, Option.some.injEq, List.not_mem_nil,
    or_false] at member
  rcases member with ⟨rfl, rfl⟩ | ⟨rfl, rfl⟩
  · rw [normalizeAddress_hex] at named
    simp only [List.mem_cons, List.not_mem_nil, or_false] at listed
    exact Or.inl ⟨(Except.ok.inj named).symm, listed⟩
  · rw [normalizeAddress_hex] at named
    exact Or.inr ⟨(Except.ok.inj named).symm, List.mem_singleton.mp listed⟩

theorem disjoint_genesis6 : genesis6.Disjoint := by
  have apart (x : IPAddress) (inside : x ∈ net6 2 47) : x ∉ net6 0 48 ∧ x ∉ net6 1 48 := by
    have whole (ip : IPNetwork) (longer : 47 ≤ ip.prefixlen) (elsewhere : ip.ip ∉ net6 2 47) :
        x ∉ ip := fun within => elsewhere (IPNetwork.nested within inside longer ip.ip_mem)
    exact ⟨whole _ (by decide) (by decide), whole _ (by decide) (by decide)⟩
  intro a b ip jp x lists lists' inside inside'
  rcases lists_genesis6 lists with ⟨rfl, first⟩ | ⟨rfl, rfl⟩ <;>
    rcases lists_genesis6 lists' with ⟨rfl, second⟩ | ⟨rfl, rfl⟩
  · rfl
  · rcases first with rfl | rfl
    · exact absurd inside (apart x inside').1
    · exact absurd inside (apart x inside').2
  · rcases second with rfl | rfl
    · exact absurd inside' (apart x inside).1
    · exact absurd inside' (apart x inside).2
  · rfl

theorem short_genesis6 {s : State AddressRanges} {rows : Cached}
    (built : stateFromGenesisDeclaration genesis6 = .ok (s, rows)) {x : IPAddress} {m : IPNetwork}
    {e : Address}
    (covers : Radix.Covers (genesisRecords s rows : Records (PrefixTable Address)).tree x m e) :
    m.prefixlen ≤ 48 := by
  obtain ⟨ip, cidr, lists⟩ := (genesis_tree built).1 m e covers.stored
  have same := congrArg IPNetwork.prefixlen cidr
  rw [IPNetwork.cidr_prefixlen, IPNetwork.cidr_prefixlen] at same
  rw [same]
  rcases lists_genesis6 lists with ⟨-, rfl | rfl⟩ | ⟨-, rfl⟩ <;> decide

theorem unlent_of_empty {s : State AddressRanges} {a : Address}
    (empty : (s.getBalance a).1.delegatedIps.keys = []) (d : Address) (lent : AddressRanges) :
    (s.getBalance a).1.delegatedIps.lookup d ≠ some lent := by
  intro present
  have key : d ∈ (s.getBalance a).1.delegatedIps.keys :=
    AList.lookup_isSome.mp (by rw [present]; rfl)
  rw [empty] at key
  cases key

theorem allocation_answered : ∃ (s₀ s : State AddressRanges) (rows : Cached)
    (p : PrefixTable Address), stateFromGenesisDeclaration genesis6 = .ok (s₀, rows) ∧
      Applied s₀ (PatriciaState.setValues Radix.empty (cachedRows rows))
        [firstBlock [move 0 alice carol 0 (net6 0 48)]] s p ∧
      PatriciaState.getValue p (net6 0 48).ip = .ok carol := by
  obtain ⟨s₀, rows, s, p, built, applied, passes⟩ := applied_first_of_passes
    [move 0 alice carol 0 (net6 0 48)]
    (fun s _ => owns s carol (net6 0 48) && (s.getBalance carol).1.delegatedIps.keys = [])
    (by decide)
  simp only [Bool.and_eq_true, decide_eq_true_eq] at passes
  obtain ⟨holds, empty⟩ := passes
  have run := Applied.start.apply applied
  have row : (move 0 alice carol 0 (net6 0 48)).row = some (net6 0 48, carol) :=
    row_eq_some.mpr ⟨Or.inl rfl, ipNetwork_move _ _ _ _ _ _ (by decide), rfl⟩
  have settles : Settles (genesisRecords s₀ rows : Records (PrefixTable Address))
      (move 0 alice carol 0 (net6 0 48)) := by
    intro V t present
    rw [row] at present
    cases present
    exact Or.inr fun x _ m e longer covers =>
      absurd (short_genesis6 built covers) (Nat.not_le.mpr longer)
  refine ⟨s₀, s, rows, p, built, run, (lookup_returns_holder built disjoint_genesis6 run
    (List.forall_mem_singleton.mpr (Block.spelled_of_length le_rfl))
    (Records.throughout_cons.mpr ⟨settles, Records.throughout_nil⟩)
    (mem_of_owns holds _ (IPNetwork.ip_mem _))).2 fun d lent present => ?_⟩
  exact absurd present (unlent_of_empty empty d lent)

/-- Alice allocates to Bob a network of which she listed the halves. Bob owns it, and the lookup
still returns Alice. -/
theorem halves_outlive_allocation : ∃ (s₀ s : State AddressRanges) (rows : Cached)
    (p : PrefixTable Address), stateFromGenesisDeclaration genesis6 = .ok (s₀, rows) ∧
      genesis6.Disjoint ∧
      Applied s₀ (PatriciaState.setValues Radix.empty (cachedRows rows))
        [firstBlock [move 0 alice bob 0 (net6 0 47)]] s p ∧
      (net6 0 48).ip ∈ (s.getBalance bob).1.ownIps ∧
      (∀ d lent, (s.getBalance bob).1.delegatedIps.lookup d ≠ some lent) ∧
      PatriciaState.getValue p (net6 0 48).ip = .ok alice ∧ alice ≠ bob := by
  obtain ⟨s₀, rows, s, p, built, applied, passes⟩ := applied_first_of_passes
    [move 0 alice bob 0 (net6 0 47)]
    (fun s p => owns s bob (net6 0 48) && (s.getBalance bob).1.delegatedIps.keys = [] &&
      Radix.lookup p (net6 0 48).ip = some alice) (by decide)
  simp only [Bool.and_eq_true, decide_eq_true_eq] at passes
  obtain ⟨⟨holds, empty⟩, answer⟩ := passes
  exact ⟨s₀, s, rows, p, built, disjoint_genesis6, Applied.start.apply applied,
    mem_of_owns holds _ (IPNetwork.ip_mem _), unlent_of_empty empty,
    PatriciaState.getValue_eq_ok.mpr answer, by decide⟩

end Sample

end IPchain
