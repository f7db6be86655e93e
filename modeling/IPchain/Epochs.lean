import IPchain.Draws

/-! The groups that two heads of one chain lead to: at the last block before a renewal, where
the nodes fix the group of the next epoch, and at the blocks of that epoch. -/

namespace IPchain

open Lib

section Draws

variable [Hashlib]

def nextNumber (randomNo : Nat) : Nat :=
  (compressRandomNoToInt (hexdigest (strOfInt randomNo))).toOption.getD 0

theorem compress_nextNumber (randomNo : Nat) :
    compressRandomNoToInt (hexdigest (strOfInt randomNo)) = .ok (nextNumber randomNo) := by
  obtain ⟨n, hashed⟩ := compressRandomNoToInt_encodeHex (Hashlib.sha256 (strOfInt randomNo))
  have digest : compressRandomNoToInt (hexdigest (strOfInt randomNo)) = .ok n := hashed
  rw [nextNumber, digest]
  rfl

def drawNumber (randomNo i : Nat) : Nat := nextNumber^[i] randomNo

/-- Among `n` accounts every draw takes the same position. -/
def SamePositions (participants n r s : Nat) : Prop :=
  ∀ i < participants, drawNumber r i % (n - i) = drawNumber s i % (n - i)

theorem samePositions_succ {participants n r s : Nat} :
    SamePositions (participants + 1) n r s ↔
      r % n = s % n ∧ SamePositions participants (n - 1) (nextNumber r) (nextNumber s) := by
  rw [SamePositions, Nat.forall_lt_succ_left]
  refine and_congr Iff.rfl (forall₂_congr fun i inside => ?_)
  have shorter : n - (i + 1) = n - 1 - i := by omega
  rw [shorter]
  rfl

theorem drawGroup_succ (participants : Nat) {r : Nat} {xs : List Address} {address : Address}
    (present : xs[r % xs.length]? = some address) :
    drawGroup (participants + 1) r xs =
      (drawGroup participants (nextNumber r) (xs.eraseIdx (r % xs.length))).map
        (address :: ·) := by
  rw [drawGroup, present]
  simp only [compress_nextNumber, bind, Except.bind]
  cases drawGroup participants (nextNumber r) (xs.eraseIdx (r % xs.length)) with
  | error e => rfl
  | ok group => rfl

theorem drawGroup_of_absent (participants : Nat) {r : Nat} {xs : List Address}
    (absent : xs[r % xs.length]? = none) :
    drawGroup (participants + 1) r xs =
      .error ⟨.zeroDivisionError, "integer division or modulo by zero"⟩ := by
  rw [drawGroup, absent]

theorem drawGroup_succ_eq_ok {participants r : Nat} {xs group : List Address} :
    drawGroup (participants + 1) r xs = .ok group ↔
      ∃ address others, xs[r % xs.length]? = some address ∧
        drawGroup participants (nextNumber r) (xs.eraseIdx (r % xs.length)) = .ok others ∧
          group = address :: others := by
  cases present : xs[r % xs.length]? with
  | none =>
      rw [drawGroup_of_absent participants present]
      simp
  | some address =>
      rw [drawGroup_succ participants present]
      cases drawGroup participants (nextNumber r) (xs.eraseIdx (r % xs.length)) with
      | error e => simp [Except.map]
      | ok others => simp [Except.map, eq_comm]

theorem enough_of_drawGroup {participants r : Nat} {xs group : List Address}
    (drawn : drawGroup participants r xs = .ok group) : participants ≤ xs.length := by
  induction participants generalizing r xs group with
  | zero => exact Nat.zero_le _
  | succ participants ih =>
      obtain ⟨address, others, present, rest, -⟩ := drawGroup_succ_eq_ok.mp drawn
      obtain ⟨inside, -⟩ := List.getElem?_eq_some_iff.mp present
      have shorter := ih rest
      rw [List.length_eraseIdx_of_lt inside] at shorter
      omega

theorem drawGroup_same_iff {participants r s : Nat} {xs group : List Address}
    (distinct : xs.Nodup) (drawn : drawGroup participants r xs = .ok group) :
    drawGroup participants s xs = .ok group ↔ SamePositions participants xs.length r s := by
  induction participants generalizing r s xs group with
  | zero =>
      cases drawn
      exact iff_of_true rfl fun i inside => absurd inside (Nat.not_lt_zero i)
  | succ participants ih =>
      obtain ⟨address, others, present, rest, rfl⟩ := drawGroup_succ_eq_ok.mp drawn
      obtain ⟨inside, -⟩ := List.getElem?_eq_some_iff.mp present
      have below : s % xs.length < xs.length := Nat.mod_lt s (by omega)
      have length := List.length_eraseIdx_of_lt inside
      have more := @ih _ (nextNumber s) _ _ (distinct.eraseIdx (r % xs.length)) rest
      rw [length] at more
      rw [drawGroup_succ_eq_ok, samePositions_succ, ← more]
      constructor
      · rintro ⟨address', others', present', rest', same⟩
        cases same
        have position : r % xs.length = s % xs.length :=
          (List.getElem?_inj inside distinct).mp (present.trans present'.symm)
        rw [← position] at rest'
        exact ⟨position, rest'⟩
      · rintro ⟨position, rest'⟩
        rw [position] at present rest'
        exact ⟨address, others, present, rest', rfl⟩

end Draws

/-- Where the head can be read, and the block with this number, the block has this number drawn. -/
def Chain.RandomAt {S R : Type} [IPSet S] [Platform] (first : BlockHeader) (c : Chain S R)
    (number randomNo : Nat) : Prop :=
  (∃ head, c.headHeader first = .ok head) ∧
    ∃ block, c.getBlockByNumber first number = .ok block ∧
      compressRandomNoToInt (encodeHex block.header.randomNumber) = .ok randomNo

theorem Chain.RandomAt.unique {S R : Type} [IPSet S] [Platform] {first : BlockHeader}
    {c : Chain S R} {number r s : Nat} (random : c.RandomAt first number r)
    (random' : c.RandomAt first number s) : r = s := by
  obtain ⟨-, block, read, drawn⟩ := random
  obtain ⟨-, block', read', drawn'⟩ := random'
  rw [read] at read'
  cases read'
  exact Except.ok.inj (drawn.symm.trans drawn')

theorem Chain.headHeader_of_decoded {S R : Type} [IPSet S] [Radix R Address] [Platform]
    {c : Chain S R} {block read : Block} (decoded : block.decoded = .ok read) (s : State S) (p : R)
    (first : BlockHeader) : (c.extended block s p).headHeader first = .ok block.header := by
  have record : (c.extended block s p).blocks.lookup block.header.hash = some (some block) :=
    AList.lookup_insert _
  have current : (c.extended block s p).headHash = block.header.hash := rfl
  have header := Chain.header_decoded decoded
  simp only [Chain.headHeader, Chain.getHeadBlock, current, Chain.getBlock, Option.bind_some,
    record, decoded]
  exact congrArg Except.ok header

section Heads

variable {S R : Type} [IPSet S] [Radix R Address] [Platform] [TrieRoot] [Poststate] [StateRoot S]

theorem Chain.Reachable.tip {g : GenesisData} {first : BlockHeader} (roots : g.Roots S first)
    {blocks : List Block} {c : Chain S R} (reachable : c.Reachable g blocks) {head : BlockHeader}
    (found : c.headHeader first = .ok head) : head.number = blocks.length := by
  have fronted : c.Fronted first (newest first blocks) := by
    apply reachable.invariant (P := fun blocks c => c.Fronted first (newest first blocks))
    · exact fun c built => Chain.fronted_init roots built
    · intro blocks c block s t p sane fronted alike applied
      rw [newest_append]
      exact Chain.fronted_extended applied
    · intro blocks c s queue fronted alike
      exact fronted.reads ⟨s, queue, alike, rfl⟩
  obtain ⟨s, rows, genesis, rfl⟩ := roots
  rw [fronted.2 head found]
  exact (reachable.called.indexed genesis).1.newest_number

variable [NodeConfig] [Hashlib] [TrieKeys S]

open NodeConfig Config

theorem Chain.Reachable.getCurrentDkgGroup_eq_ok {g : GenesisData} {first : BlockHeader}
    (roots : g.Roots S first) {blocks : List Block} {c : Chain S R}
    (reachable : c.Reachable g blocks) {group : List Address} :
    c.getCurrentDkgGroup first = .ok group ↔
      ∃ r, c.RandomAt first (lastRenewal blocks.length) r ∧
        drawGroup dkgNumberParticipants r (TrieKeys.keys c.state.trie) = .ok group := by
  rw [Chain.getCurrentDkgGroup]
  constructor
  · intro found
    obtain ⟨head, tip, rest⟩ := except_bind_eq_ok.mp found
    obtain ⟨block, read, rest⟩ := except_bind_eq_ok.mp rest
    obtain ⟨r, compressed, drawn⟩ := except_bind_eq_ok.mp rest
    rw [reachable.tip roots tip] at read
    exact ⟨r, ⟨⟨head, tip⟩, block, read, compressed⟩, drawn⟩
  · rintro ⟨r, ⟨⟨head, tip⟩, block, read, compressed⟩, drawn⟩
    rw [← reachable.tip roots tip] at read
    simp only [tip, read, compressed, bind, Except.bind, drawn]

/-- While the accounts stay, the group that is fixed before a renewal is the group of a later
head of the epoch exactly when the random number of the renewal takes the same positions as the
one of the renewal before. -/
theorem group_lasts_iff {g : GenesisData} {first : BlockHeader} (roots : g.Roots S first)
    {blocks more : List Block} {c c' : Chain S R} (reachable : c.Reachable g blocks)
    (later : c'.Reachable g (blocks ++ more)) {k : Nat} (positive : 1 ≤ k)
    (trigger : blocks.length + 1 = k * dkgRenewalInterval)
    (since : k * dkgRenewalInterval ≤ (blocks ++ more).length)
    (ahead : (blocks ++ more).length + 2 ≤ (k + 1) * dkgRenewalInterval)
    (stays : TrieKeys.keys c'.state.trie = TrieKeys.keys c.state.trie)
    (distinct : (TrieKeys.keys c.state.trie).Nodup) :
    (∀ group, c.getCurrentDkgGroup first = .ok group →
      c'.getCurrentDkgGroup first = .ok group) ↔
    ∀ r, c.RandomAt first ((k - 1) * dkgRenewalInterval) r →
      dkgNumberParticipants ≤ (TrieKeys.keys c.state.trie).length →
        ∃ s, c'.RandomAt first (k * dkgRenewalInterval) s ∧
          SamePositions dkgNumberParticipants (TrieKeys.keys c.state.trie).length r s := by
  have last (n m : Nat) (low : m * dkgRenewalInterval ≤ n)
      (high : n < (m + 1) * dkgRenewalInterval) : lastRenewal n = m * dkgRenewalInterval := by
    rw [lastRenewal]
    have quotient : n / dkgRenewalInterval = m := by
      apply Nat.div_eq_of_lt_le low high
    have whole := Nat.div_add_mod n dkgRenewalInterval
    rw [quotient, Nat.mul_comm] at whole
    omega
  obtain ⟨m, rfl⟩ : ∃ m, k = m + 1 := ⟨k - 1, by omega⟩
  rw [Nat.add_sub_cancel]
  have before : lastRenewal blocks.length = m * dkgRenewalInterval := by
    have renews : 0 < dkgRenewalInterval := renews
    apply last
    · rw [Nat.succ_mul] at trigger
      omega
    · omega
  have after : lastRenewal (blocks ++ more).length = (m + 1) * dkgRenewalInterval := by
    apply last _ _ since
    omega
  constructor
  · intro lasts r random enough
    obtain ⟨group, rest, drawn, -⟩ := drawGroup_perm dkgNumberParticipants r enough
    have found : c.getCurrentDkgGroup first = .ok group := by
      apply (reachable.getCurrentDkgGroup_eq_ok roots).mpr
      rw [before]
      exact ⟨r, random, drawn⟩
    obtain ⟨s, random', drawn'⟩ := (later.getCurrentDkgGroup_eq_ok roots).mp (lasts group found)
    rw [after] at random'
    rw [stays] at drawn'
    exact ⟨s, random', (drawGroup_same_iff distinct drawn).mp drawn'⟩
  · intro same group found
    obtain ⟨r, random, drawn⟩ := (reachable.getCurrentDkgGroup_eq_ok roots).mp found
    rw [before] at random
    obtain ⟨s, random', draws⟩ := same r random (enough_of_drawGroup drawn)
    apply (later.getCurrentDkgGroup_eq_ok roots).mpr
    rw [after, stays]
    exact ⟨s, random', (drawGroup_same_iff distinct drawn).mpr draws⟩

end Heads

namespace Sample.Renewed

open Sample Sample.Recovered Sample.Watched

def zeros : Bytes := List.replicate 32 0

structure Still (g : GenesisData) (first : BlockHeader) (blocks : List Block)
    (c : Chain AddressRanges (PrefixTable Address)) : Prop where
  roots : g.Roots AddressRanges first
  seed : first.randomNumber = zeros
  reachable : c.Reachable g blocks
  timestamp : (newest first blocks).timestamp = blocks.length + 1
  headers : c.state.prevHeaders.head? = some (.block (newest first blocks))
  tip : c.headHeader first = .ok (newest first blocks)
  records : ∀ hash entry, c.blocks.lookup hash = some entry → entry = none ∨
    ∃ block read, entry = some block ∧ block.decoded = .ok read ∧
      block.header.randomNumber = zeros
  opening : ∃ entry, c.blocks.lookup first.hash = some entry

theorem still_init {g : GenesisData} {s : State AddressRanges} {rows : Cached}
    (built : stateFromGenesisDeclaration g = .ok (s, rows)) (seed : g.randomNumber = zeros)
    (timestamp : g.timestamp = 1) {first : BlockHeader}
    (made : first = founded g) :
    ∃ c : Chain AddressRanges (PrefixTable Address), Still g first [] c ∧ c.state = s := by
  rw [founded_eq built] at made
  obtain ⟨headers, -⟩ := genesis_headers built
  obtain ⟨c, started, state, tree⟩ := Chain.init_ok (R := PrefixTable Address) built
  obtain ⟨s', rows', header, built', rfl, same⟩ := Chain.init_spec started
  rw [built] at built'
  cases built'
  have begins : c.headHash = first.hash ∧
      c.blocks = AList.insert first.hash none (∅ : AList fun _ : Bytes => Option Block) := by
    rw [same, made]
    exact ⟨rfl, rfl⟩
  refine ⟨c, ⟨⟨s, rows, built, made⟩, ?_, .start started, ?_, ?_, ?_, ?_, ?_⟩, state⟩
  · rw [made]
    exact seed
  · rw [made]
    exact timestamp
  · rw [state, headers, made]
    rfl
  · simp only [Chain.headHeader, Chain.getHeadBlock, Chain.getBlock, Option.bind_some, begins,
      AList.lookup_insert]
    rfl
  · intro hash entry found
    rw [begins.2] at found
    by_cases equal : hash = first.hash
    · rw [equal, AList.lookup_insert] at found
      exact Or.inl (Option.some.inj found).symm
    · rw [AList.lookup_insert_ne equal, AList.lookup_empty] at found
      cases found
  · rw [begins.2]
    exact ⟨none, AList.lookup_insert _⟩

section

variable {g : GenesisData} {first : BlockHeader} {blocks : List Block}
  {c : Chain AddressRanges (PrefixTable Address)}

theorem Still.grow (still : Still g first blocks c) {block read : Block}
    {t : State AddressRanges} {q : PrefixTable Address}
    (reachable : (c.extended block t q).Reachable g (blocks ++ [block]))
    (headers : t.prevHeaders = .block block.header :: c.state.prevHeaders)
    (timestamp : block.header.timestamp = blocks.length + 2) (decoded : block.decoded = .ok read)
    (drawn : block.header.randomNumber = zeros) :
    Still g first (blocks ++ [block]) (c.extended block t q) := by
  have record : (c.extended block t q).blocks = c.blocks.insert block.header.hash
    (some block) := rfl
  refine ⟨still.roots, still.seed, reachable, ?_, ?_, ?_, ?_, ?_⟩
  · rw [newest_append, timestamp, List.length_append]
    rfl
  · rw [newest_append]
    exact congrArg List.head? headers
  · rw [newest_append]
    exact Chain.headHeader_of_decoded decoded t q first
  · intro hash entry found
    rw [record] at found
    by_cases equal : hash = block.header.hash
    · rw [equal, AList.lookup_insert] at found
      exact Or.inr ⟨block, read, (Option.some.inj found).symm, decoded, drawn⟩
    · rw [AList.lookup_insert_ne equal] at found
      exact still.records hash entry found
  · rw [record]
    by_cases equal : first.hash = block.header.hash
    · rw [equal]
      exact ⟨_, AList.lookup_insert _⟩
    · rw [AList.lookup_insert_ne equal]
      exact still.opening

theorem Still.follows (still : Still g first blocks c) (short : blocks.length < 1000)
    {block : Block} (prevhash : block.header.prevhash = (newest first blocks).hash)
    (number : block.header.number = blocks.length + 1)
    (timestamp : block.header.timestamp = blocks.length + 2)
    (root : block.header.txRoot = mkTransactionSha block.transactions) :
    Based c.state.toAuxVars block := by
  have last : (newest first blocks).number = blocks.length :=
    still.reachable.tip still.roots still.tip
  have earlier := still.timestamp
  obtain ⟨older, headers⟩ : ∃ older,
      c.state.prevHeaders = .block (newest first blocks) :: older := by
    have newest := still.headers
    cases listed : c.state.prevHeaders with
    | nil =>
        rw [listed] at newest
        cases newest
    | cons header older =>
        rw [listed] at newest
        cases newest
        exact ⟨older, rfl⟩
  refine ⟨⟨_, older, headers, prevhash, number.trans (congrArg (· + 1) last.symm), ?_, ?_⟩, root⟩
  · change (newest first blocks).timestamp < block.header.timestamp
    omega
  · rw [timestamp]
    omega

theorem Still.extends (still : Still g first blocks c) (short : blocks.length < 1000)
    {randomNumber : Bytes} (length : randomNumber.length = 32) {block : Block}
    (next : block = blockAfter (newest first blocks).hash (blocks.length + 1) (blocks.length + 2)
      randomNumber []) :
    ∃ t, (c.extended block t c.patricia).Reachable g (blocks ++ [block]) ∧
      t.trie = c.state.trie ∧ t.account = c.state.account ∧
        t.prevHeaders = .block block.header :: c.state.prevHeaders := by
  have signed : block.signer = .ok (owner 1) := by
    rw [next]
    exact signer_blockAfter (hash_length _) length _ _ _
  have known : owner 1 ≠ nullAddress := by decide
  have based : Based c.state.toAuxVars block := by
    rw [next]
    exact still.follows short rfl rfl rfl rfl
  have empty : block.transactions = [] := by
    rw [next]
    rfl
  obtain ⟨t, added, alike⟩ := still.reachable.sane.extends_empty signed known based empty le_rfl 0
  exact ⟨t, still.reachable.extend added, alike.trie, alike.account,
    congrArg AuxVars.prevHeaders alike.auxvars⟩

theorem Still.next (still : Still g first blocks c) (short : blocks.length < 1000) :
    ∃ block c', Still g first (blocks ++ [block]) c' ∧ block.transactions = [] ∧
      c'.state.trie = c.state.trie ∧ c'.state.account = c.state.account := by
  obtain ⟨block, next⟩ : ∃ block, block = blockAfter (newest first blocks).hash
    (blocks.length + 1) (blocks.length + 2) zeros [] := ⟨_, rfl⟩
  obtain ⟨t, reachable, trie, account, headers⟩ := still.extends short List.length_replicate next
  have decoded : block.decoded = .ok { block with transactions := [], cachedSigner := none } := by
    rw [next]
    rfl
  refine ⟨block, _, still.grow reachable headers ?_ decoded ?_, ?_, trie, account⟩
  · rw [next]
    rfl
  · rw [next]
    rfl
  · rw [next]
    rfl

theorem Still.upTo (still : Still g first blocks c) (k : Nat) (short : blocks.length + k < 1000) :
    ∃ more c', more.length = k ∧ Still g first (blocks ++ more) c' ∧
      (∀ block ∈ more, block.transactions = []) ∧ c'.state.trie = c.state.trie ∧
        c'.state.account = c.state.account := by
  induction k with
  | zero =>
      refine ⟨[], c, rfl, ?_, List.forall_mem_nil _, rfl, rfl⟩
      rw [List.append_nil]
      exact still
  | succ k ih =>
      obtain ⟨more, c', length, still', empty, trie, account⟩ := ih (by omega)
      obtain ⟨block, c'', still'', none, trie', account'⟩ := still'.next (by
        rw [List.length_append]
        omega)
      refine ⟨more ++ [block], c'', ?_, ?_, ?_, trie'.trans trie, account'.trans account⟩
      · rw [List.length_append, length]
        rfl
      · rw [← List.append_assoc]
        exact still''
      · exact List.forall_mem_append.mpr ⟨empty, List.forall_mem_singleton.mpr none⟩

theorem Still.drawn (still : Still g first blocks c) {number : Nat} {hash : Bytes}
    (listed : c.getBlockhashByNumber number = some hash) {entry : Option Block}
    (found : c.blocks.lookup hash = some entry) : c.RandomAt first number 0 := by
  have zero : compressRandomNoToInt (encodeHex zeros) = .ok 0 := by decide
  refine ⟨⟨_, still.tip⟩, ?_⟩
  simp only [Chain.getBlockByNumber, Chain.getBlock, listed, Option.bind_some, found]
  rcases still.records _ _ found with rfl | ⟨block, read, rfl, decoded, drawn⟩
  · refine ⟨_, rfl, ?_⟩
    rw [← zero, ← still.seed]
    rfl
  · refine ⟨read, decoded, ?_⟩
    rw [← zero, ← drawn, Chain.header_decoded decoded]

theorem Still.indexed (still : Still g first blocks c) : c.Indexed first blocks := by
  obtain ⟨s, rows, built, same⟩ := still.roots
  rw [same]
  exact (still.reachable.called.indexed built).1

theorem Still.random (still : Still g first blocks c) : c.RandomAt first 0 0 := by
  obtain ⟨entry, found⟩ := still.opening
  exact still.drawn (still.indexed.blockhash 0) found

theorem Still.randomHead (still : Still g first blocks c) : c.RandomAt first blocks.length 0 := by
  have listed : c.getBlockhashByNumber blocks.length = some c.headHash := by
    rw [still.indexed.blockhash, still.indexed.headHash, headersOf_newest]
    rfl
  have tip := still.tip
  cases found : c.blocks.lookup c.headHash with
  | some entry => exact still.drawn listed found
  | none =>
      simp only [Chain.headHeader, Chain.getHeadBlock, Chain.getBlock, Option.bind_some,
        found] at tip
      cases tip

end

def first : BlockHeader := founded Sample.genesis

theorem begins : ∃ c : Chain AddressRanges (PrefixTable Address),
    Still Sample.genesis first [] c ∧ c.state.trie.keys = {alice, bob} := by
  obtain ⟨⟨s, rows⟩, built, keys⟩ := passes_iff.mp (show
    Passes (stateFromGenesisDeclaration (S := AddressRanges) Sample.genesis)
      (fun g => decide (g.1.trie.keys = {alice, bob})) = true by decide)
  obtain ⟨c, still, state⟩ := still_init built rfl rfl rfl
  refine ⟨c, still, ?_⟩
  rw [state]
  exact of_decide_eq_true keys

theorem renewed {randomNumber : Bytes} (sized : randomNumber.length = 32) {s : Nat}
    (drawn : compressRandomNoToInt (encodeHex randomNumber) = .ok s) :
    ∃ (blocks : List Block) (block : Block) (c c' : Chain AddressRanges (PrefixTable Address)),
      c.Reachable Sample.genesis blocks ∧ c'.Reachable Sample.genesis (blocks ++ [block]) ∧
        blocks.length = 499 ∧ c.RandomAt first 0 0 ∧ c'.RandomAt first 500 s ∧
          c.state.trie.keys = {alice, bob} ∧ c'.state.trie = c.state.trie := by
  obtain ⟨c₀, begun, keys⟩ := begins
  obtain ⟨blocks, c, length, still, -, trie₀, -⟩ := begun.upTo 499 (by decide)
  rw [List.nil_append] at still
  obtain ⟨block, next⟩ : ∃ block, block = blockAfter (newest first blocks).hash
    (blocks.length + 1) (blocks.length + 2) randomNumber [] := ⟨_, rfl⟩
  obtain ⟨t, reachable, trie, -, -⟩ := still.extends (by omega) sized next
  have decoded : block.decoded = .ok { block with transactions := [], cachedSigner := none } := by
    rw [next]
    rfl
  refine ⟨blocks, block, c, _, still.reachable, reachable, length, still.random,
    ⟨⟨_, Chain.headHeader_of_decoded decoded t c.patricia first⟩,
      { block with transactions := [], cachedSigner := none }, ?_, ?_⟩, ?_, trie⟩
  · obtain ⟨s, rows, built, same⟩ := still.roots
    have indexed := (reachable.called.indexed built).1
    rw [← same] at indexed
    have hash : (c.extended block t c.patricia).getBlockhashByNumber 500 =
        some block.header.hash := by
      rw [indexed.blockhash, headersOf_append, List.getElem?_append_right]
      · rw [headersOf_length, length]
        rfl
      · rw [headersOf_length, length]
    have record : (c.extended block t c.patricia).blocks.lookup block.header.hash =
        some (some block) := AList.lookup_insert _
    simp only [Chain.getBlockByNumber, Chain.getBlock, hash, Option.bind_some, record, decoded]
  · rw [next]
    exact drawn
  · rw [trie₀]
    exact keys

theorem roots : Sample.genesis.Roots AddressRanges first := begins.choose_spec.1.roots

theorem keys_two {trie : Accounts AddressRanges} (keys : trie.keys = {alice, bob}) :
    (TrieKeys.keys trie).length = 2 ∧ (TrieKeys.keys trie).Nodup := by
  refine ⟨?_, Finset.nodup_toList _⟩
  change trie.keys.toList.length = 2
  rw [Finset.length_toList, keys]
  decide

theorem group_kept : ∃ (blocks : List Block) (block : Block)
    (c c' : Chain AddressRanges (PrefixTable Address)) (group : List Address),
      c.Reachable Sample.genesis blocks ∧ c'.Reachable Sample.genesis (blocks ++ [block]) ∧
        blocks.length = 499 ∧ c.getCurrentDkgGroup first = .ok group ∧
          c'.getCurrentDkgGroup first = .ok group := by
  have drawn : compressRandomNoToInt (encodeHex zeros) = .ok 0 := by decide
  obtain ⟨blocks, block, c, c', reachable, later, length, random, random', keys, trie⟩ :=
    renewed List.length_replicate drawn
  obtain ⟨two, distinct⟩ := keys_two keys
  have grown : (blocks ++ [block]).length = 500 := by
    rw [List.length_append, length]
    rfl
  have same : ∀ group, c.getCurrentDkgGroup first = .ok group →
      c'.getCurrentDkgGroup first = .ok group := by
    apply (group_lasts_iff roots reachable later le_rfl _ _ _ _ distinct).mpr
    · intro r drawn' _
      refine ⟨0, random', ?_⟩
      rw [drawn'.unique random]
      exact fun _ _ => rfl
    · rw [length]
      rfl
    · rw [grown]
      exact le_rfl
    · rw [grown]
      decide
    · rw [trie]
  obtain ⟨group, drawn', -⟩ := drawGroup_sample 0 distinct (show 1 ≤ _ by omega)
  have found : c.getCurrentDkgGroup first = .ok group := by
    apply (reachable.getCurrentDkgGroup_eq_ok roots).mpr
    rw [length]
    exact ⟨0, random, drawn'⟩
  exact ⟨blocks, block, c, c', group, reachable, later, length, found, same group found⟩

/-- The group that is fixed at the block 499 and the one that the block 500 leads to have no
member in common. -/
theorem group_parted : ∃ (blocks : List Block) (block : Block)
    (c c' : Chain AddressRanges (PrefixTable Address)) (group group' : List Address),
      c.Reachable Sample.genesis blocks ∧ c'.Reachable Sample.genesis (blocks ++ [block]) ∧
        blocks.length = 499 ∧ c.getCurrentDkgGroup first = .ok group ∧
          c'.getCurrentDkgGroup first = .ok group' ∧ ∀ a ∈ group, a ∉ group' := by
  have drawn : compressRandomNoToInt (encodeHex (List.replicate 31 0 ++ [1])) = .ok 1 := by
    decide
  obtain ⟨blocks, block, c, c', reachable, later, length, random, random', keys, trie⟩ :=
    renewed (by decide) drawn
  obtain ⟨two, distinct⟩ := keys_two keys
  obtain ⟨a, b, listed⟩ := List.length_eq_two.mp two
  have apart : a ≠ b := by
    rw [listed] at distinct
    simpa using distinct
  have listed' : TrieKeys.keys c'.state.trie = [a, b] := by rw [trie, listed]
  have draw (r : Nat) (x : Address) (here : [a, b][r % 2]? = some x) :
      drawGroup 1 r [a, b] = .ok [x] := by
    rw [drawGroup_succ 0 here]
    rfl
  refine ⟨blocks, block, c, c', [a], [b], reachable, later, length, ?_, ?_, ?_⟩
  · apply (reachable.getCurrentDkgGroup_eq_ok roots).mpr
    rw [length, listed]
    exact ⟨0, random, draw 0 a rfl⟩
  · apply (later.getCurrentDkgGroup_eq_ok roots).mpr
    have grown : (blocks ++ [block]).length = 500 := by
      rw [List.length_append, length]
      rfl
    rw [grown, listed']
    exact ⟨1, random', draw 1 b rfl⟩
  · intro x member same
    rw [List.mem_singleton.mp member] at same
    exact apart (List.mem_singleton.mp same)

end Sample.Renewed

end IPchain
