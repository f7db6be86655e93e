import IPchain.Folds
import IPchain.Observer

/-! The group that renews the key: participants drawn from the accounts of the chain, each at
most once. -/

namespace IPchain

open Lib

theorem encodeHex_drop (data : Bytes) (n : Nat) :
    (encodeHex data).drop (2 * n) = encodeHex (data.drop n) := by
  induction n generalizing data with
  | zero => rfl
  | succ n ih =>
      cases data with
      | nil => simp [encodeHex]
      | cons b rest =>
          rw [List.drop_succ_cons, ← ih rest]
          rfl

theorem encodeHex_take (data : Bytes) (n : Nat) :
    (encodeHex data).take (2 * n) = encodeHex (data.take n) := by
  induction n generalizing data with
  | zero => rfl
  | succ n ih =>
      cases data with
      | nil => simp [encodeHex]
      | cons b rest =>
          have step := ih rest
          change hexDigit (b.toNat / 16) :: hexDigit (b.toNat % 16) :: (encodeHex rest).take (2 * n)
            = _
          rw [step]
          rfl

theorem remove0xHead_encodeHex (data : Bytes) : remove0xHead (encodeHex data) = encodeHex data := by
  apply if_neg
  cases data with
  | nil => exact fun same => List.cons_ne_nil _ _ same.symm
  | cons b rest =>
      intro same
      have low : hexDigit (b.toNat % 16) = 0x78 := (List.cons.inj (List.cons.inj same).2).1
      exact hexDigit_ne _ (Nat.mod_lt _ (by decide)) low

theorem compressRandomNoToInt_encodeHex (data : Bytes) :
    ∃ n, compressRandomNoToInt (encodeHex data) = .ok n := by
  have loop (groups : List Nat) (inside : ∀ i ∈ groups, i < data.length / 8) (number : Nat) :
      ∃ n, groups.foldlM (fun number i => do
        let group ← intBase16 (((encodeHex data).drop (16 * i)).take 16)
        return number ^^^ group) number = (.ok n : Except PyExc Nat) := by
    induction groups generalizing number with
    | nil => exact ⟨number, rfl⟩
    | cons i groups ih =>
        obtain ⟨here, others⟩ := List.forall_mem_cons.mp inside
        have group : ((encodeHex data).drop (16 * i)).take 16 =
            encodeHex ((data.drop (8 * i)).take 8) := by
          rw [show 16 * i = 2 * (8 * i) by omega, encodeHex_drop]
          exact encodeHex_take _ 8
        have present : (data.drop (8 * i)).take 8 ≠ [] := by
          intro blank
          have none := congrArg List.length blank
          rw [List.length_take, List.length_drop, List.length_nil] at none
          omega
        obtain ⟨n, done⟩ := ih others (number ^^^ bytesToNat ((data.drop (8 * i)).take 8))
        refine ⟨n, ?_⟩
        rw [List.foldlM_cons, group, intBase16_encodeHex present]
        exact done
  have groups : (encodeHex data).length / 16 = data.length / 8 := by
    rw [encodeHex_length]
    omega
  simp only [compressRandomNoToInt, remove0xHead_encodeHex, groups]
  exact loop _ (fun i member => List.mem_range.mp member) 0

section Draws

variable [Hashlib]

theorem drawGroup_perm (participants randomNo : Nat) {addresses : List Address}
    (enough : participants ≤ addresses.length) : ∃ group rest,
      drawGroup participants randomNo addresses = .ok group ∧ group.length = participants ∧
        addresses.Perm (group ++ rest) := by
  induction participants generalizing randomNo addresses with
  | zero => exact ⟨[], addresses, rfl, rfl, List.Perm.refl _⟩
  | succ participants ih =>
      have inside : randomNo % addresses.length < addresses.length := Nat.mod_lt _ (by omega)
      obtain ⟨next, hashed⟩ := compressRandomNoToInt_encodeHex
        (Hashlib.sha256 (strOfInt randomNo))
      have shorter : participants ≤
          (addresses.eraseIdx (randomNo % addresses.length)).length := by
        rw [List.length_eraseIdx_of_lt inside]
        omega
      obtain ⟨others, rest, drawn, length, perm⟩ := ih next shorter
      refine ⟨addresses[randomNo % addresses.length] :: others, rest, ?_, ?_, ?_⟩
      · rw [drawGroup, List.getElem?_eq_getElem inside]
        simp only [hexdigest, hashed, bind, Except.bind, drawn]
        rfl
      · rw [List.length_cons, length]
      · calc
          addresses.Perm (addresses[randomNo % addresses.length] ::
              addresses.eraseIdx (randomNo % addresses.length)) :=
            (List.getElem_cons_eraseIdx_perm inside).symm
          _ |>.Perm (addresses[randomNo % addresses.length] :: (others ++ rest)) :=
            perm.cons _

theorem drawGroup_sample {participants : Nat} (randomNo : Nat) {addresses : List Address}
    (distinct : addresses.Nodup) (enough : participants ≤ addresses.length) : ∃ group,
      drawGroup participants randomNo addresses = .ok group ∧ group.length = participants ∧
        group.Nodup ∧ ∀ a ∈ group, a ∈ addresses := by
  obtain ⟨group, rest, drawn, length, perm⟩ := drawGroup_perm participants randomNo enough
  refine ⟨group, drawn, length, (perm.nodup_iff.mp distinct).of_append_left, ?_⟩
  intro a member
  exact perm.mem_iff.mpr (List.mem_append_left _ member)

end Draws

section Group

variable {S R : Type} [IPSet S] [Platform] [NodeConfig] [Hashlib] [TrieKeys S]

open NodeConfig

/-- The group is a sample of the accounts of the chain: as many as the configuration asks for,
no two of them the same, and no draw fails. -/
theorem dkg_group_is_sample {first : BlockHeader} {c : Chain S R} {head : BlockHeader}
    (tip : c.headHeader first = .ok head) {block : Block}
    (renewal : c.getBlockByNumber first (lastRenewal head.number) = .ok block)
    (distinct : (TrieKeys.keys c.state.trie).Nodup)
    (enough : dkgNumberParticipants ≤ (TrieKeys.keys c.state.trie).length) :
    ∃ group, c.getCurrentDkgGroup first = .ok group ∧ group.length = dkgNumberParticipants ∧
      group.Nodup ∧ ∀ a ∈ group, a ∈ TrieKeys.keys c.state.trie := by
  obtain ⟨randomNo, compressed⟩ := compressRandomNoToInt_encodeHex block.header.randomNumber
  obtain ⟨group, drawn, sample⟩ := drawGroup_sample randomNo distinct enough
  refine ⟨group, ?_, sample⟩
  simp only [Chain.getCurrentDkgGroup, tip, renewal, compressed, bind, Except.bind, drawn]

end Group

theorem init_reads {S R : Type} [IPSet S] [Radix R Address] [Platform] [StateRoot S]
    {g : GenesisData} {c : Chain S R} (started : Chain.init g = .ok c) :
    ∃ (s : State S) (rows : Cached) (first : BlockHeader),
      stateFromGenesisDeclaration g = .ok (s, rows) ∧ c.state = s ∧ first.number = 0 ∧
        c.headHeader first = .ok first ∧ c.getBlockByNumber first 0 = .ok (genesisBlock first) := by
  obtain ⟨s, rows, first, built, made, same⟩ := Chain.init_spec started
  refine ⟨s, rows, first, built, ?_, ?_, ?_, ?_⟩
  · rw [same]
  · rw [made]
    rfl
  · subst same
    simp only [Chain.headHeader, Chain.getHeadBlock, Chain.getBlock, Option.bind_some,
      AList.lookup_insert]
    rfl
  · subst same
    simp only [Chain.getBlockByNumber, Chain.getBlock, Chain.getBlockhashByNumber,
      AList.lookup_insert, Option.bind_some]

namespace Sample.Drawn

open Sample Sample.Recovered

scoped instance : Hashlib := ⟨Sha256.sha256, Sha256.sha256_length⟩

theorem interval_pos : 0 < 500 := by decide

scoped instance : NodeConfig where
  dkgRenewalInterval := 500
  renews := interval_pos
  threshold := 1
  dkgNumberParticipants := 2
  blockTime := 60
  timeout := 15552000
  dkgTimeout := 180000
  extTxPerLoop := 125

theorem both_drawn : ∃ (c : Chain AddressRanges (PrefixTable Address)) (first : BlockHeader)
    (group : List Address), Chain.init genesis = .ok c ∧ c.getCurrentDkgGroup first = .ok group ∧
      group.length = 2 ∧ group.Nodup ∧ ∀ a ∈ group, a ∈ TrieKeys.keys c.state.trie := by
  obtain ⟨⟨s, rows⟩, built, keys⟩ := passes_iff.mp (show
    Passes (stateFromGenesisDeclaration (S := AddressRanges) genesis)
      (fun g => decide (g.1.trie.keys = {alice, bob})) = true by decide)
  obtain ⟨c, started, -, -⟩ := Chain.init_ok (R := PrefixTable Address) built
  obtain ⟨s', rows', first, built', state, number, tip, renewal⟩ := init_reads started
  rw [built] at built'
  cases built'
  have listed : c.state.trie.keys = {alice, bob} := by
    rw [state]
    exact of_decide_eq_true keys
  have two : (TrieKeys.keys c.state.trie).length = 2 := by
    change (c.state.trie.keys).toList.length = 2
    rw [Finset.length_toList, listed]
    decide
  have distinct : (TrieKeys.keys c.state.trie).Nodup := Finset.nodup_toList _
  have zero : lastRenewal first.number = 0 := by
    rw [number]
    rfl
  obtain ⟨group, drawn, sample⟩ :=
    dkg_group_is_sample tip (zero.symm ▸ renewal) distinct two.ge
  exact ⟨c, first, group, started, drawn, sample⟩

end Sample.Drawn

end IPchain
