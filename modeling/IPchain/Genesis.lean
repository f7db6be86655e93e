import IPchain.Apply
import IPchain.Lib.Concrete
import IPchain.Lib.Keccak
import IPchain.Trie

/-! The state that a genesis declaration sets up. -/

namespace IPchain

open Lib

/-- The entries of `alloc` pair the account as it is written with its `own_ips`, or with
nothing when the entry has no balance. -/
structure GenesisData where
  timestamp : Nat
  coinbase : Bytes
  parentHash : Bytes
  randomNumber : Bytes
  groupSig : Bytes
  groupKey : Bytes
  count : Nat
  alloc : List (Bytes × Option (List IPNetwork))

class StateRoot (S : Type) where
  stateRoot : Accounts S → Bytes

section Declaration

variable {S : Type} [IPSet S] [Platform]

def allocData (alloc : List (Bytes × Option (List IPNetwork))) :
    AList fun _ : Bytes => Option (List IPNetwork) :=
  Dict.update ∅ alloc

def genesisBalance (ownIps : List IPNetwork) : Balance S :=
  { Balance.blank with ownIps := IPSet.ofNetworks ownIps }

def loadAlloc : List (Bytes × Option (List IPNetwork)) → State S → Cached →
    Except PyExc (State S × Cached)
  | [], s, pytricia => .ok (s, pytricia)
  | (addr, data) :: rest, s, pytricia => do
      let a ← normalizeAddress (.bytes addr)
      match data with
      | none => loadAlloc rest s pytricia
      | some ownIps =>
          loadAlloc rest (s.setBalance a (genesisBalance ownIps))
            (ownIps.foldl (fun dict ip => dict.insert ip a) pytricia)

def blockFromGenesisDeclaration (g : GenesisData) (stateRoot : Bytes) : BlockHeader where
  prevhash := g.parentHash
  timestamp := g.timestamp
  extraData := []
  stateRoot := stateRoot
  txRoot := Platform.sha3 (Rlp.bytes []).encode
  number := 0
  coinbase := g.coinbase
  randomNumber := g.randomNumber
  groupPubkey := g.groupKey
  groupSig := g.groupSig
  count := g.count

def stateFromGenesisDeclaration [StateRoot S] (g : GenesisData) :
    Except PyExc (State S × Cached) := do
  let entries := (allocData g.alloc).entries.map fun entry => (entry.1, entry.2)
  let (s, pytricia) ← loadAlloc (Platform.items entries) State.initial ∅
  let s := s.commit
  let header := blockFromGenesisDeclaration g (StateRoot.stateRoot s.trie)
  pure ({ s with prevHeaders := [.block header] }, pytricia)

/-- The prefix `ip` is listed for the account `a`. -/
def Lists (entries : List (Bytes × Option (List IPNetwork))) (a : Address) (ip : IPNetwork) :
    Prop :=
  ∃ addr ownIps, (addr, some ownIps) ∈ entries ∧ normalizeAddress (.bytes addr) = .ok a ∧
    ip ∈ ownIps

theorem Lists.mono {entries more : List (Bytes × Option (List IPNetwork))} {a : Address}
    {ip : IPNetwork} (lists : Lists entries a ip) (sub : ∀ entry ∈ entries, entry ∈ more) :
    Lists more a ip := by
  obtain ⟨addr, ownIps, member, named, listed⟩ := lists
  exact ⟨addr, ownIps, sub _ member, named, listed⟩

theorem mem_items_allocData {alloc : List (Bytes × Option (List IPNetwork))}
    {entry : Bytes × Option (List IPNetwork)}
    (member : entry ∈ Platform.items ((allocData alloc).entries.map fun e => (e.1, e.2))) :
    entry ∈ alloc := by
  rw [(Platform.items_perm _).mem_iff, Dict.mem_pairs] at member
  rcases Dict.mem_of_lookup_update member with listed | none
  · exact listed
  · cases none

omit [Platform] in
theorem account_setBalance (s : State S) (a : Address) (b : Balance S) (c : Address) :
    ((s.setBalance a b).account c).balance = if c = a then b else (s.account c).balance := by
  rw [State.setBalance, s.account_setParam]
  by_cases same : c = a
  · subst same
    rw [Function.update_self, if_pos rfl]
    rfl
  · rw [Function.update_of_ne same, if_neg same]

theorem loadAlloc_owned {entries : List (Bytes × Option (List IPNetwork))} {s t : State S}
    {rows result : Cached} (loaded : loadAlloc entries s rows = .ok (t, result)) {a : Address}
    {x : IPAddress} (owned : x ∈ (t.account a).balance.ownIps) :
    x ∈ (s.account a).balance.ownIps ∨ ∃ ip, Lists entries a ip ∧ x ∈ ip := by
  induction entries generalizing s rows with
  | nil =>
      cases loaded
      exact Or.inl owned
  | cons head tail ih =>
      obtain ⟨addr, data⟩ := head
      obtain ⟨b, named, loaded⟩ := except_bind_eq_ok.mp loaded
      have later {ip : IPNetwork} (lists : Lists tail a ip) : Lists ((addr, data) :: tail) a ip :=
        lists.mono fun _ member => List.mem_cons_of_mem _ member
      cases data with
      | none =>
          rcases ih loaded with before | ⟨ip, lists, inside⟩
          · exact Or.inl before
          · exact Or.inr ⟨ip, later lists, inside⟩
      | some ownIps =>
          rcases ih loaded with before | ⟨ip, lists, inside⟩
          · rw [account_setBalance] at before
            split at before
            · rename_i same
              subst same
              obtain ⟨ip, listed, inside⟩ := (IPSet.mem_ofNetworks ownIps x).mp before
              exact Or.inr ⟨ip, ⟨addr, ownIps, List.mem_cons_self, named, listed⟩, inside⟩
            · exact Or.inl before
          · exact Or.inr ⟨ip, later lists, inside⟩

theorem genesis_owned [StateRoot S] {g : GenesisData} {s : State S} {rows : Cached}
    (genesis : stateFromGenesisDeclaration g = .ok (s, rows)) {a : Address} {x : IPAddress}
    (owned : x ∈ (s.account a).balance.ownIps) : ∃ ip, Lists g.alloc a ip ∧ x ∈ ip := by
  obtain ⟨⟨t, rows'⟩, loaded, result⟩ := except_bind_eq_ok.mp genesis
  cases result
  have same : t.commit.account a = t.account a := congrFun t.account_commit a
  change x ∈ (t.commit.account a).balance.ownIps at owned
  rw [same] at owned
  rcases loadAlloc_owned loaded owned with none | ⟨ip, lists, inside⟩
  · exact absurd none (IPSet.not_mem_empty x)
  · exact ⟨ip, lists.mono fun _ member => mem_items_allocData member, inside⟩

omit [IPSet S] [Platform] in
theorem lookup_insertRows (ownIps : List IPNetwork) (rows : Cached) (a : Address) (ip : IPNetwork) :
    (ownIps.foldl (fun dict ip => dict.insert ip a) rows).lookup ip =
      if ip ∈ ownIps then some a else rows.lookup ip := by
  induction ownIps generalizing rows with
  | nil => rfl
  | cons head tail ih =>
      rw [List.foldl_cons, ih]
      by_cases later : ip ∈ tail
      · simp [later]
      · by_cases same : ip = head
        · subst same
          simp [later]
        · simp [later, same, AList.lookup_insert_ne same]

theorem loadAlloc_row {entries : List (Bytes × Option (List IPNetwork))} {s t : State S}
    {rows result : Cached} (loaded : loadAlloc entries s rows = .ok (t, result)) {ip : IPNetwork}
    {a : Address} (row : result.lookup ip = some a) :
    rows.lookup ip = some a ∨ Lists entries a ip := by
  induction entries generalizing s rows with
  | nil =>
      cases loaded
      exact Or.inl row
  | cons head tail ih =>
      obtain ⟨addr, data⟩ := head
      obtain ⟨b, named, loaded⟩ := except_bind_eq_ok.mp loaded
      have later (lists : Lists tail a ip) : Lists ((addr, data) :: tail) a ip :=
        lists.mono fun _ member => List.mem_cons_of_mem _ member
      cases data with
      | none => exact (ih loaded).imp_right later
      | some ownIps =>
          rcases ih loaded with before | lists
          · rw [lookup_insertRows] at before
            split at before
            · rename_i listed
              cases before
              exact Or.inr ⟨addr, ownIps, List.mem_cons_self, named, listed⟩
            · exact Or.inl before
          · exact Or.inr (later lists)

theorem loadAlloc_listed {entries : List (Bytes × Option (List IPNetwork))} {s t : State S}
    {rows result : Cached} (loaded : loadAlloc entries s rows = .ok (t, result)) {ip : IPNetwork}
    (present : (∃ a, Lists entries a ip) ∨ ∃ a, rows.lookup ip = some a) :
    ∃ a, result.lookup ip = some a := by
  induction entries generalizing s rows with
  | nil =>
      cases loaded
      rcases present with ⟨a, addr, ownIps, member, -⟩ | row
      · cases member
      · exact row
  | cons head tail ih =>
      obtain ⟨addr, data⟩ := head
      obtain ⟨b, named, loaded⟩ := except_bind_eq_ok.mp loaded
      cases data with
      | none =>
          refine ih loaded (present.imp_left ?_)
          rintro ⟨a, addr', ownIps, member, lists⟩
          rcases List.mem_cons.mp member with same | member
          · cases same
          · exact ⟨a, addr', ownIps, member, lists⟩
      | some ownIps =>
          refine ih loaded ?_
          rw [lookup_insertRows]
          rcases present with ⟨a, addr', ownIps', member, named', listed⟩ | ⟨a, row⟩
          · rcases List.mem_cons.mp member with same | member
            · cases same
              exact Or.inr ⟨b, if_pos listed⟩
            · exact Or.inl ⟨a, addr', ownIps', member, named', listed⟩
          · by_cases listed : ip ∈ ownIps
            · exact Or.inr ⟨b, if_pos listed⟩
            · exact Or.inr ⟨a, (if_neg listed).trans row⟩

theorem genesis_rows [StateRoot S] {g : GenesisData} {s : State S} {rows : Cached}
    (genesis : stateFromGenesisDeclaration g = .ok (s, rows)) :
    (∀ ip a, rows.lookup ip = some a → Lists g.alloc a ip) ∧
      ∀ a, ∀ x ∈ (s.account a).balance.ownIps, ∃ ip b, rows.lookup ip = some b ∧ x ∈ ip := by
  obtain ⟨⟨t, rows'⟩, loaded, result⟩ := except_bind_eq_ok.mp genesis
  cases result
  constructor
  · intro ip a row
    rcases loadAlloc_row loaded row with none | lists
    · cases none
    · exact lists.mono fun _ member => mem_items_allocData member
  · intro a x owned
    have same : t.commit.account a = t.account a := congrFun t.account_commit a
    change x ∈ (t.commit.account a).balance.ownIps at owned
    rw [same] at owned
    rcases loadAlloc_owned loaded owned with none | ⟨ip, lists, inside⟩
    · exact absurd none (IPSet.not_mem_empty x)
    · obtain ⟨b, row⟩ := loadAlloc_listed loaded (Or.inl ⟨a, lists⟩)
      exact ⟨ip, b, row, inside⟩

end Declaration

namespace Sample

scoped instance : Platform where
  sha3 := Keccak.keccak256
  sha3_length := Keccak.keccak256_length
  ecdsaRawRecover _ _ _ _ := .ok none
  parseAddress _ _ := none
  parseNetwork _ _ := none
  items := id
  items_perm _ := List.Perm.refl _

scoped instance : TrieRoot := ⟨Trie.rootHash Keccak.keccak256⟩

def accountsRoot (accounts : Accounts AddressRanges) : Bytes :=
  bigEndian 32 (accounts.keys.sum fun a =>
    bytesToNat a.bytes + ((accounts.lookup a).map Account.nonce).getD 0)

theorem accountsRoot_length (accounts : Accounts AddressRanges) :
    (accountsRoot accounts).length = 32 := bigEndian_length _ _

scoped instance : StateRoot AddressRanges := ⟨accountsRoot⟩

def account (n : UInt8) : Address := ⟨List.replicate 20 n, List.length_replicate⟩

def alice : Address := account 1
def bob : Address := account 2
def carol : Address := account 3

theorem mod_width_lt (value : Nat) (family : Family) :
    value % 2 ^ family.width < 2 ^ family.width := Nat.mod_lt _ (Nat.two_pow_pos _)

theorem min_width_le (prefixlen : Nat) (family : Family) :
    min prefixlen family.width ≤ family.width := Nat.min_le_right _ _

def netOf (family : Family) (value prefixlen : Nat) : IPNetwork where
  family := family
  value := value % 2 ^ family.width
  prefixlen := min prefixlen family.width
  bound := mod_width_lt value family
  short := min_width_le prefixlen family

def net (byte prefixlen : Nat) : IPNetwork := netOf .v4 (10 * 2 ^ 24 + byte * 2 ^ 16) prefixlen

def genesis : GenesisData where
  timestamp := 1
  coinbase := List.replicate 20 0
  parentHash := List.replicate 32 0
  randomNumber := List.replicate 32 0
  groupSig := []
  groupKey := []
  count := 0
  alloc := [(encodeHex alice.bytes, some [net 0 9]), (encodeHex bob.bytes, some [net 128 9])]

def founded [Platform] [StateRoot AddressRanges] (g : GenesisData) : BlockHeader :=
  blockFromGenesisDeclaration g (match stateFromGenesisDeclaration g with
    | .ok (s, _) => StateRoot.stateRoot (s : State AddressRanges).trie
    | .error _ => [])

theorem founded_eq [Platform] [StateRoot AddressRanges] {g : GenesisData}
    {s : State AddressRanges} {rows : Cached} (built : stateFromGenesisDeclaration g = .ok (s, rows)) :
    founded g = blockFromGenesisDeclaration g (StateRoot.stateRoot s.trie) := by
  rw [founded, built]

def net6 (group prefixlen : Nat) : IPNetwork :=
  netOf .v6 (0x20010db8 * 2 ^ 96 + group * 2 ^ 80) prefixlen

def genesis6 : GenesisData :=
  { genesis with
    alloc := [(encodeHex alice.bytes, some [net6 0 48, net6 1 48]),
      (encodeHex bob.bytes, some [net6 2 47])] }

def afiOf : Family → Nat
  | .v4 => 1
  | .v6 => 2

def move (category : Nat) (sender holder : Address) (nonce : Nat) (value : IPNetwork) :
    Transaction :=
  ⟨nonce, category, some holder, afiOf value.family, valueOf value, .bytes [], 0, 27, 1, 1,
    some sender⟩

theorem applied_of_passes (tx : Transaction) (before after : State AddressRanges → Bool)
    (passes : Passes (stateFromGenesisDeclaration genesis) (fun g =>
      before g.1 && RunPasses (applyTransaction tx ∅ g.1) fun r s => r.1 && after s) = true) :
    ∃ s rows c s', stateFromGenesisDeclaration genesis = .ok (s, rows) ∧
      applyTransaction tx ∅ s = .ok (true, c) s' ∧ before s = true ∧ after s' = true := by
  obtain ⟨⟨s, rows⟩, built, passes⟩ := passes_iff.mp passes
  rw [Bool.and_eq_true] at passes
  obtain ⟨⟨returned, c⟩, s', applied, passes'⟩ := runPasses_iff.mp passes.2
  rw [Bool.and_eq_true] at passes'
  simp only at passes'
  obtain ⟨rfl, tested⟩ := passes'
  exact ⟨s, rows, c, s', built, applied, passes.1, tested⟩

def owns (s : State AddressRanges) (a : Address) (n : IPNetwork) : Bool :=
  (s.getBalance a).1.inOwnIps n

theorem mem_of_owns {s : State AddressRanges} {a : Address} {n : IPNetwork}
    (passes : owns s a n = true) (x : IPAddress) (inside : x ∈ n) :
    x ∈ (s.getBalance a).1.ownIps := (IPSet.contains_eq_true _ n).mp passes x inside

theorem lists_genesis {a : Address} {ip : IPNetwork} (lists : Lists genesis.alloc a ip) :
    (a = alice ∧ ip = net 0 9) ∨ (a = bob ∧ ip = net 128 9) := by
  obtain ⟨addr, ownIps, member, named, listed⟩ := lists
  simp only [genesis, List.mem_cons, Prod.mk.injEq, Option.some.injEq, List.not_mem_nil,
    or_false] at member
  rcases member with ⟨rfl, rfl⟩ | ⟨rfl, rfl⟩
  · rw [normalizeAddress_hex] at named
    exact Or.inl ⟨(Except.ok.inj named).symm, List.mem_singleton.mp listed⟩
  · rw [normalizeAddress_hex] at named
    exact Or.inr ⟨(Except.ok.inj named).symm, List.mem_singleton.mp listed⟩

theorem ipNetwork_move (category : Nat) (sender holder : Address) (nonce : Nat)
    (value n : IPNetwork) (reads : networkOfPacked value.family (valueOf value) = .ok n) :
    (move category sender holder nonce value).ipNetwork = .ok n := by
  have family : familyOf (afiOf value.family) = value.family := by cases value.family <;> rfl
  rw [Transaction.ipNetwork, move, family]
  exact reads

end Sample

end IPchain
