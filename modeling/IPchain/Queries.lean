import IPchain.Feed
import IPchain.Retrieval

/-! The numbers that peers ask for, from their messages to the database of the chain. -/

namespace IPchain

open Lib Platform

namespace Factory

def Event.Asks : Event → Nat → Int → Prop
  | .getBlockNum peer num, p, n => p = peer ∧ n = num
  | .getBlocks peer num size, p, n => p = peer ∧ num ≤ n ∧ n < num + size
  | _, _, _ => False

def Event.asksBelowZero : Event → Bool
  | .getBlockNum _ num => num < 0
  | .getBlocks _ num size => num < 0 && 0 < size
  | _ => false

theorem Event.asksBelowZero_iff (e : Event) :
    e.asksBelowZero ↔ ∃ p n, e.Asks p n ∧ n < 0 := by
  cases e with
  | getBlockNum peer num =>
      simp only [asksBelowZero, Asks, decide_eq_true_eq]
      constructor
      · exact fun below => ⟨peer, num, ⟨rfl, rfl⟩, below⟩
      · rintro ⟨p, n, ⟨-, rfl⟩, below⟩
        exact below
  | getBlocks peer num size =>
      simp only [asksBelowZero, Asks, Bool.and_eq_true, decide_eq_true_eq]
      constructor
      · rintro ⟨below, some⟩
        exact ⟨peer, num, ⟨rfl, le_rfl, by omega⟩, below⟩
      · rintro ⟨p, n, ⟨-, above, inside⟩, below⟩
        omega
  | setNumBlocks | setBlock | setBlocks | connectionLost | setTxPool | getBlock | announce
  | answerBlockQueries | checkNumBlocks | checkAllBlocks | checkTx | checkBlocks | askDht =>
      simp [asksBelowZero, Asks]

theorem mem_chunkNumbers {num size n : Int} :
    n ∈ chunkNumbers num size ↔ num ≤ n ∧ n < num + size := by
  simp only [chunkNumbers, List.mem_map, List.mem_range]
  constructor
  · rintro ⟨i, inside, rfl⟩
    omega
  · rintro ⟨above, below⟩
    exact ⟨(n - num).toNat, by omega, by omega⟩

theorem mem_query {peer : Nat} {num : Int} {f : Factory} {q : Nat × Int} :
    q ∈ (f.query peer num).blockQueries ↔ q = (peer, num) ∨ q ∈ f.blockQueries := by
  simp only [query]
  split
  · rename_i known
    constructor
    · exact Or.inr
    · rintro (rfl | old)
      · exact known
      · exact old
  · rw [List.mem_append, List.mem_singleton, or_comm]

theorem mem_getBlockNum {peer : Nat} {num : Int} {f : Factory} {q : Nat × Int} :
    q ∈ (f.getBlockNum peer num).1.blockQueries ↔
      (q = (peer, num) ∧ num ≤ f.lastServedBlock ∧ f.bootstrap = false) ∨
        q ∈ f.blockQueries := by
  by_cases served : num ≤ f.lastServedBlock ∧ f.bootstrap = false
  · rw [getBlockNum, if_pos served, mem_query, and_iff_left served]
  · have same : (f.getBlockNum peer num).1 = f := by
      rw [getBlockNum, if_neg served]
      split
      · split
        · rfl
        · rfl
      · rfl
    rw [same]
    constructor
    · exact Or.inr
    · rintro (⟨-, now⟩ | old)
      · exact absurd now served
      · exact old

theorem mem_chunk {peer : Nat} {numbers : List Int} {f : Factory} {q : Nat × Int} :
    q ∈ (chunk peer numbers f).1.blockQueries ↔
      (q.1 = peer ∧ q.2 ∈ numbers ∧ q.2 ≤ f.lastServedBlock ∧ f.bootstrap = false) ∨
        q ∈ f.blockQueries := by
  induction numbers generalizing f with
  | nil => simp [chunk]
  | cons n numbers ih =>
      by_cases served : n ≤ f.lastServedBlock ∧ f.bootstrap = false
      · rw [chunk, if_pos served, ih, mem_query, List.mem_cons]
        have last : (f.query peer n).lastServedBlock = f.lastServedBlock := rfl
        have boot : (f.query peer n).bootstrap = f.bootstrap := rfl
        rw [last, boot]
        constructor
        · rintro (⟨own, later, bound⟩ | rfl | old)
          · exact Or.inl ⟨own, Or.inr later, bound⟩
          · exact Or.inl ⟨rfl, Or.inl rfl, served⟩
          · exact Or.inr old
        · rintro (⟨rfl, rfl | later, bound⟩ | old)
          · exact Or.inr (Or.inl rfl)
          · exact Or.inl ⟨rfl, later, bound⟩
          · exact Or.inr (Or.inr old)
      · have same : (chunk peer (n :: numbers) f).1 = (chunk peer numbers f).1 := by
          rw [chunk, if_neg served]
          generalize (if n ≤ f.numBlock then f.blockAt n else none) = found
          cases found with
          | some raw => rfl
          | none => rfl
        rw [same, ih, List.mem_cons]
        constructor
        · exact Or.imp_left fun now => ⟨now.1, Or.inr now.2.1, now.2.2⟩
        · rintro (⟨own, rfl | later, bound⟩ | old)
          · exact absurd bound served
          · exact Or.inl ⟨own, later, bound⟩
          · exact Or.inr old

theorem mem_getBlocks {peer : Nat} {num size : Int} {f : Factory} {q : Nat × Int} :
    q ∈ (f.getBlocks peer num size).1.blockQueries ↔
      (q.1 = peer ∧ (num ≤ q.2 ∧ q.2 < num + size) ∧ q.2 ≤ f.lastServedBlock ∧
        f.bootstrap = false) ∨ q ∈ f.blockQueries := by
  have same : (f.getBlocks peer num size).1 = (chunk peer (chunkNumbers num size) f).1 := by
    rw [getBlocks]
    split
    · rename_i g chunked
      rw [chunked]
    · rename_i g blocks none chunked
      rw [chunked]
  rw [same, mem_chunk, mem_chunkNumbers]

section Wire

variable [Wire]

theorem answerPeer_subset (peer : Nat) (raws : List Bytes) (f : Factory) :
    (answerPeer peer raws f).1.blockQueries ⊆ f.blockQueries := by
  induction raws generalizing f with
  | nil => exact List.Subset.refl _
  | cons raw raws ih =>
      simp only [answerPeer]
      split
      · exact List.Subset.refl _
      · split
        · exact List.Subset.trans (ih _) (List.filter_subset_self _)
        · exact ih f

theorem answerPeers_subset (raws : List Bytes) (peers : List Nat) (f : Factory) :
    (answerPeers raws peers f).1.blockQueries ⊆ f.blockQueries := by
  induction peers generalizing f with
  | nil => exact List.Subset.refl _
  | cons peer peers ih =>
      have one := answerPeer_subset peer raws f
      simp only [answerPeers]
      split
      · rename_i g blocks answered
        rw [answered] at one
        exact List.Subset.trans (ih g) one
      · rename_i g blocks answered
        rw [answered] at one
        exact one

theorem asked_of_handle {e : Event} {f : Factory} {q : Nat × Int}
    (listed : q ∈ (handle e f).blockQueries) :
    (e.Asks q.1 q.2 ∧ q.2 ≤ f.lastServedBlock ∧ f.bootstrap = false) ∨ q ∈ f.blockQueries := by
  cases e with
  | getBlockNum peer num =>
      rcases mem_getBlockNum.mp listed with ⟨rfl, bound⟩ | old
      · exact Or.inl ⟨⟨rfl, rfl⟩, bound⟩
      · exact Or.inr old
  | getBlocks peer num size =>
      rcases mem_getBlocks.mp listed with ⟨own, inside, bound⟩ | old
      · exact Or.inl ⟨⟨own, inside⟩, bound⟩
      · exact Or.inr old
  | connectionLost peer => exact Or.inr (List.mem_of_mem_filter listed)
  | answerBlockQueries raws => exact Or.inr (answerPeers_subset raws f.askers f listed)
  | setBlock raw =>
      right
      simp only [handle, setBlock] at listed
      split at listed
      · exact listed
      · split at listed
        · exact listed
        · exact listed
  | setBlocks raws =>
      right
      simp only [handle, setBlocks] at listed
      split at listed
      · obtain ⟨blocks, same, -⟩ := storeBlocks_frame raws f
        rwa [same] at listed
      · exact listed
  | setNumBlocks num =>
      right
      simp only [handle, setNumBlocks] at listed
      split at listed
      · exact listed
      · exact listed
  | setTxPool =>
      right
      simp only [handle, setTxPool] at listed
      split at listed
      · exact listed
      · exact listed
  | getBlock =>
      right
      simp only [handle, getBlock] at listed
      split at listed
      · exact listed
      · exact listed
  | checkNumBlocks =>
      right
      simp only [handle, checkNumBlocks] at listed
      split at listed
      · exact listed
      · exact listed
  | checkAllBlocks =>
      right
      simp only [handle, checkAllBlocks] at listed
      split at listed
      · exact listed
      · exact listed
  | checkTx =>
      right
      simp only [handle, checkTx] at listed
      split at listed
      · split at listed
        · exact listed
        · exact listed
      · exact listed
  | announce | checkBlocks | askDht => exact Or.inr listed

theorem handle_asked {e : Event} {f : Factory} {p : Nat} {n : Int} (asks : e.Asks p n)
    (served : n ≤ f.lastServedBlock) (ended : f.bootstrap = false) :
    (p, n) ∈ (handle e f).blockQueries := by
  cases e with
  | getBlockNum peer num =>
      obtain ⟨rfl, rfl⟩ := asks
      exact mem_getBlockNum.mpr (Or.inl ⟨rfl, served, ended⟩)
  | getBlocks peer num size =>
      obtain ⟨rfl, inside⟩ := asks
      exact mem_getBlocks.mpr (Or.inl ⟨rfl, inside, served, ended⟩)
  | setNumBlocks | setBlock | setBlocks | connectionLost | setTxPool | getBlock | announce
  | answerBlockQueries | checkNumBlocks | checkAllBlocks | checkTx | checkBlocks | askDht =>
      cases asks

def QueriesServed (f : Factory) : Prop :=
  ∀ q ∈ f.blockQueries, 0 ≤ q.2 ∧ q.2 ≤ f.lastServedBlock

theorem QueriesServed.step {e : Event} {f : Factory} (served : f.QueriesServed) (filed : f.Filed)
    (clear : f.bootstrap = false → e.asksBelowZero = false) : (handle e f).QueriesServed := by
  intro q listed
  have later : (f.lastServedBlock : Int) ≤ (handle e f).lastServedBlock :=
    Int.ofNat_le.mpr (filed_handle filed e).2
  rcases asked_of_handle listed with ⟨asks, bound, ended⟩ | old
  · refine ⟨?_, bound.trans later⟩
    by_contra below
    have negative := e.asksBelowZero_iff.mpr ⟨q.1, q.2, asks, not_le.mp below⟩
    rw [clear ended] at negative
    cases negative
  · exact ⟨(served q old).1, (served q old).2.trans later⟩

end Wire

/-- What `get_block_queries` hands to the process of the chain, in whatever order the dictionary
and the set are listed. -/
def Handed (f : Factory) (numbers : List Int) : Prop :=
  ∃ (peers : List Nat) (listed : List Int → List Int), peers.Perm f.askers ∧
    (∀ numbers, (listed numbers).Perm numbers) ∧ f.getBlockQueries peers listed = some numbers

theorem gather_subset {f : Factory} {peers : List Nat} {numbers : List Int} {n : Int}
    (member : n ∈ f.gather peers numbers) : n ∈ numbers ∨ ∃ p, (p, n) ∈ f.blockQueries := by
  induction peers generalizing numbers with
  | nil => exact Or.inl member
  | cons peer peers ih =>
      have own {n : Int} (inside : n ∈ numbers ++
          ((f.blockQueries.filter fun query => query.1 = peer).map Prod.snd).filter
            fun num => num ∉ numbers) : n ∈ numbers ∨ ∃ p, (p, n) ∈ f.blockQueries := by
        rcases List.mem_append.mp inside with old | new
        · exact Or.inl old
        · obtain ⟨q, listed, rfl⟩ := List.mem_map.mp (List.mem_of_mem_filter new)
          exact Or.inr ⟨q.1, List.mem_of_mem_filter listed⟩
      simp only [gather] at member
      split at member
      · exact own member
      · rcases ih member with inside | asked
        · exact own inside
        · exact Or.inr asked

theorem subset_gather {f : Factory} {peers : List Nat} {numbers : List Int} :
    numbers ⊆ f.gather peers numbers := by
  induction peers generalizing numbers with
  | nil => exact List.Subset.refl _
  | cons peer peers ih =>
      simp only [gather]
      split
      · exact List.subset_append_left _ _
      · exact List.Subset.trans (List.subset_append_left _ _) ih

theorem Handed.asked {f : Factory} {numbers : List Int} (handed : f.Handed numbers) {n : Int}
    (member : n ∈ numbers) : ∃ p, (p, n) ∈ f.blockQueries := by
  obtain ⟨peers, listed, -, order, taken⟩ := handed
  rw [getBlockQueries] at taken
  split at taken
  · cases taken
  · cases taken
    rcases gather_subset ((order _).mem_iff.mp (List.mem_of_mem_take member)) with none | asked
    · cases none
    · exact asked

theorem handed_of_asked {f : Factory} {p : Nat} {n : Int} (asked : (p, n) ∈ f.blockQueries) :
    ∃ numbers, f.Handed numbers ∧ n ∈ numbers := by
  have asker : p ∈ f.askers := List.mem_dedup.mpr (List.mem_map.mpr ⟨_, asked, rfl⟩)
  let front (numbers : List Int) : List Int :=
    if n ∈ numbers then n :: numbers.erase n else numbers
  have order (numbers : List Int) : (front numbers).Perm numbers := by
    by_cases inside : n ∈ numbers
    · simp only [front, if_pos inside]
      exact (List.perm_cons_erase inside).symm
    · simp only [front, if_neg inside]
      exact List.Perm.refl _
  have gathered : n ∈ f.gather (p :: f.askers.erase p) [] := by
    have own : n ∈ (f.blockQueries.filter fun query => query.1 = p).map Prod.snd :=
      List.mem_map.mpr ⟨(p, n), List.mem_filter.mpr ⟨asked, by simp⟩, rfl⟩
    simp only [gather, List.nil_append, List.not_mem_nil, not_false_eq_true, decide_true,
      List.filter_true]
    split
    · exact own
    · exact subset_gather own
  have some : f.blockQueries ≠ [] := List.ne_nil_of_mem asked
  refine ⟨(front (f.gather (p :: f.askers.erase p) [])).take 10,
    ⟨_, front, (List.perm_cons_erase asker).symm, order, by rw [getBlockQueries, if_neg some]⟩, ?_⟩
  simp only [front, if_pos gathered, List.take_succ_cons]
  exact List.mem_cons_self

end Factory

section Chain

variable {S R : Type} [IPSet S] [Platform] {first : BlockHeader} {blocks : List Block}
  {c : Chain S R} {D : Set Bytes}

theorem blockOfQuery_ok_iff (identified : Identified D first blocks)
    (indexed : c.Indexed first blocks) (spent : c.Spent blocks) (number : Int) :
    (∃ block, Node.blockOfQuery first c number = .ok block) ↔
      0 ≤ number ∧ number ≤ blocks.length := by
  by_cases below : number < 0
  · rw [Node.blockOfQuery, if_neg (not_le.mpr below)]
    constructor
    · rintro ⟨block, found⟩
      cases found
    · intro inside
      omega
  obtain ⟨n, rfl⟩ := Int.eq_ofNat_of_zero_le (not_lt.mp below)
  rw [Node.blockOfQuery, if_pos (not_lt.mp below), Int.toNat_natCast]
  by_cases inside : n ≤ blocks.length
  · have bound : n < (headersOf first blocks).length := by
      rw [headersOf_length]
      exact Nat.lt_succ_of_le inside
    obtain ⟨block, read, -⟩ :=
      Chain.read_block identified indexed spent (List.getElem?_eq_getElem bound)
    exact iff_of_true ⟨block, read⟩ (by omega)
  · have absent : c.getBlockhashByNumber n = none := by
      rw [indexed.blockhash, List.getElem?_eq_none (by rw [headersOf_length]; omega)]
      rfl
    constructor
    · rintro ⟨block, found⟩
      rw [Chain.getBlockByNumber, absent] at found
      cases found
    · intro bound
      omega

omit [Platform] in
theorem mapM_ok_iff {α β ε : Type} {f : α → Except ε β} {items : List α} :
    (∃ results, items.mapM f = .ok results) ↔ ∀ a ∈ items, ∃ b, f a = .ok b := by
  induction items with
  | nil => exact iff_of_true ⟨[], rfl⟩ (List.forall_mem_nil _)
  | cons a items ih =>
      rw [List.forall_mem_cons, ← ih, List.mapM_cons]
      constructor
      · rintro ⟨results, done⟩
        obtain ⟨b, first, rest⟩ := except_bind_eq_ok.mp done
        obtain ⟨others, later, -⟩ := except_bind_eq_ok.mp rest
        exact ⟨⟨b, first⟩, others, later⟩
      · rintro ⟨⟨b, first⟩, others, later⟩
        rw [first, later]
        exact ⟨b :: others, rfl⟩

theorem answerBlocks_ok_iff (op : Operator) (numbers : List Int) (n : Node S R) :
    (∃ m, Node.answerBlocks op numbers n = .ok () m) ↔ ∀ number ∈ numbers,
      ∃ block, Node.blockOfQuery op.genesis n.service.chain number = .ok block := by
  rw [← mapM_ok_iff]
  constructor
  · rintro ⟨m, done⟩
    obtain ⟨response, k, asked, -⟩ := bind_eq_ok.mp done
    rw [Node.asks] at asked
    split at asked
    · exact ⟨_, ‹_›⟩
    · cases asked
  · rintro ⟨response, found⟩
    refine ⟨{ n with sent := n.sent ++ [.blocks response] }, ?_⟩
    apply bind_eq_ok.mpr
    refine ⟨response, n, ?_, rfl⟩
    rw [Node.asks, found]

end Chain

section Runs

variable {S R : Type} [IPSet S] [Radix R Address] [Platform] [TrieRoot] [Poststate] [StateRoot S]
  [Wire]

open Factory

/-- An event of the network process, and the node after it with the blocks of its chain. -/
structure Moment (S R : Type) [IPSet S] where
  event : Factory.Event
  node : Node S R
  blocks : List Block

/-- The chain of the node was built from the genesis, and its hashes differ. -/
def Moment.Stored (g : GenesisData) (op : Operator) (m : Moment S R) : Prop :=
  m.node.service.chain.Called g m.blocks ∧ ∃ D, Identified D op.genesis m.blocks

def after (lastBlock : Nat) (moments : List (Moment S R)) : Factory :=
  run (moments.map Moment.event) (start lastBlock)

omit [Radix R Address] [Platform] [TrieRoot] [Poststate] [StateRoot S] in
theorem after_snoc (lastBlock : Nat) (moments : List (Moment S R)) (m : Moment S R) :
    after lastBlock (moments ++ [m]) = handle m.event (after lastBlock moments) := by
  simp only [after, List.map_append, List.map_cons, List.map_nil, run, List.foldl_append,
    List.foldl_cons, List.foldl_nil]

omit [Radix R Address] [Platform] [TrieRoot] [Poststate] [StateRoot S] in
theorem queriesServed_after {lastBlock : Nat} {moments : List (Moment S R)}
    (clear : ∀ now m rest, now ++ m :: rest = moments →
      (after lastBlock now).bootstrap = false → m.event.asksBelowZero = false) :
    (after lastBlock moments).QueriesServed := by
  induction moments using List.reverseRecOn with
  | nil =>
      intro q listed
      cases listed
  | append_singleton moments m ih =>
      rw [after_snoc]
      have served := ih fun now m' rest split =>
        clear now m' (rest ++ [m]) (by rw [← split, List.append_assoc, List.cons_append])
      exact served.step (filed_run (filed_start lastBlock) _) (clear moments m [] rfl)

/-- Whatever is handed to the process of the chain is a served number, and its block is found,
exactly when no peer asks for a number below zero after the bootstrap and each number that was
asked for is one of the chain. -/
theorem queries_answered_iff {g : GenesisData} {op : Operator} (roots : g.Roots S op.genesis)
    (lastBlock : Nat) {moments : List (Moment S R)} (stored : ∀ m ∈ moments, m.Stored g op) :
    (∀ now m rest, now ++ m :: rest = moments →
      ∀ numbers, (after lastBlock (now ++ [m])).Handed numbers →
        (∀ n ∈ numbers, 0 ≤ n ∧ n ≤ (after lastBlock (now ++ [m])).lastServedBlock) ∧
          ∃ node, Node.answerBlocks op numbers m.node = .ok () node) ↔
      ∀ now m rest, now ++ m :: rest = moments →
        ((after lastBlock now).bootstrap = false → m.event.asksBelowZero = false) ∧
          ∀ q ∈ (after lastBlock (now ++ [m])).blockQueries, q.2 ≤ m.blocks.length := by
  obtain ⟨s, rows, genesis, own⟩ := roots
  have found {m : Moment S R} (listed : m ∈ moments) (n : Int) :
      (∃ block, Node.blockOfQuery op.genesis m.node.service.chain n = .ok block) ↔
        0 ≤ n ∧ n ≤ m.blocks.length := by
    obtain ⟨called, D, identified⟩ := stored m listed
    obtain ⟨indexed, spent⟩ := called.indexed genesis
    rw [← own] at indexed
    exact blockOfQuery_ok_iff identified indexed spent n
  have listed {now rest : List (Moment S R)} {m : Moment S R} (split : now ++ m :: rest = moments) :
      m ∈ moments := by
    rw [← split]
    exact List.mem_append_right _ List.mem_cons_self
  constructor
  · intro answered now m rest split
    constructor
    · intro ended
      by_contra asks
      obtain ⟨p, n, asks, below⟩ := m.event.asksBelowZero_iff.mp (by simpa using asks)
      have served : n ≤ (after lastBlock now).lastServedBlock := by omega
      have asked := handle_asked asks served ended
      rw [← after_snoc] at asked
      obtain ⟨numbers, handed, member⟩ := handed_of_asked asked
      have above := ((answered now m rest split numbers handed).1 n member).1
      omega
    · intro q asked
      obtain ⟨numbers, handed, member⟩ := handed_of_asked asked
      have reads := (answered now m rest split numbers handed).2
      rw [answerBlocks_ok_iff] at reads
      exact ((found (listed split) q.2).mp (reads q.2 member)).2
  · intro clear now m rest split numbers handed
    have served : (after lastBlock (now ++ [m])).QueriesServed := by
      apply queriesServed_after
      intro before m' later inside
      have longer : before ++ m' :: (later ++ rest) = moments := by
        calc
          before ++ m' :: (later ++ rest) = (before ++ m' :: later) ++ rest := by
            rw [List.append_assoc, List.cons_append]
          _ = (now ++ [m]) ++ rest := by rw [inside]
          _ = moments := by rw [List.append_assoc, ← split, List.singleton_append]
      exact (clear before m' (later ++ rest) longer).1
    have known (n : Int) (member : n ∈ numbers) : (0 ≤ n ∧
        n ≤ (after lastBlock (now ++ [m])).lastServedBlock) ∧ n ≤ m.blocks.length := by
      obtain ⟨p, asked⟩ := handed.asked member
      exact ⟨served _ asked, (clear now m rest split).2 _ asked⟩
    refine ⟨fun n member => (known n member).1, (answerBlocks_ok_iff op numbers m.node).mpr ?_⟩
    intro n member
    exact (found (listed split) n).mpr ⟨(known n member).1.1, (known n member).2⟩

end Runs

namespace Sample.Watched

open Sample Sample.Recovered Factory

def asking (num : Int) : List Factory.Event :=
  [.setNumBlocks 0, .checkNumBlocks, .checkAllBlocks, .setTxPool, .checkTx, .getBlockNum 7 num]

theorem start_stored : ∃ n : Node AddressRanges (PrefixTable Address),
    genesis.Roots AddressRanges op.genesis ∧ n.service.chain.Called genesis [] ∧
      Identified {first.serialize.encode} op.genesis [] := by
  obtain ⟨c, started, -, roots, -⟩ := start_watches
  refine ⟨Node.fresh ⟨c, []⟩ 10 first [0x31] [owner 1] group ⟨.v4, 0, by decide⟩, roots,
    .start started, ⟨?_, ?_⟩, ?_, nofun, nofun, nofun⟩
  · exact Set.injOn_singleton Platform.sha3 first.serialize.encode
  · intro data member
    rw [Set.mem_singleton_iff.mp member]
    decide +kernel
  · intro h listed
    rw [List.mem_singleton.mp listed]
    exact Set.mem_singleton first.serialize.encode

theorem asking_clear (now : List Factory.Event) (e : Factory.Event) (rest : List Factory.Event)
    (split : now ++ e :: rest = asking 0) :
    ((run now (start 0)).bootstrap = false → e.asksBelowZero = false) ∧
      ∀ q ∈ (handle e (run now (start 0))).blockQueries, q.2 ≤ ([] : List Block).length := by
  have first : now = (asking 0).take now.length := by rw [← split, List.take_left]
  have next : (asking 0)[now.length]? = some e := by
    rw [← split, List.getElem?_append_right le_rfl, Nat.sub_self]
    rfl
  have inside : now.length < 6 := (List.getElem?_eq_some_iff.mp next).1
  rw [first]
  generalize now.length = k at *
  interval_cases k
  all_goals
    cases next
    decide

theorem genesis_answered : ∃ n : Node AddressRanges (PrefixTable Address),
    ∀ numbers, (run (asking 0) (start 0)).Handed numbers →
      (∀ k ∈ numbers, 0 ≤ k ∧ k ≤ (run (asking 0) (start 0)).lastServedBlock) ∧
        ∃ node, Node.answerBlocks op numbers n = .ok () node := by
  obtain ⟨n, roots, called, identified⟩ := start_stored
  have stored : ∀ m ∈ (asking 0).map fun e => (⟨e, n, []⟩ : Moment _ _), m.Stored genesis op := by
    intro m listed
    obtain ⟨e, -, rfl⟩ := List.mem_map.mp listed
    exact ⟨called, _, identified⟩
  refine ⟨n, (queries_answered_iff roots 0 stored).mpr ?_ [_, _, _, _, _] _ [] rfl⟩
  intro now m rest split
  have events := congrArg (List.map Moment.event) split
  rw [List.map_append, List.map_cons, List.map_map, show Moment.event ∘
    (fun e => (⟨e, n, []⟩ : Moment _ _)) = id from rfl, List.map_id] at events
  have none : m.blocks = [] := by
    have listed : m ∈ (asking 0).map fun e => (⟨e, n, []⟩ : Moment _ _) := by
      rw [← split]
      exact List.mem_append_right _ List.mem_cons_self
    obtain ⟨e, -, rfl⟩ := List.mem_map.mp listed
    rfl
  rw [none, after_snoc]
  exact asking_clear _ _ _ events

/-- The number is handed to the process of the chain, which stops. -/
theorem below_zero_stops : ∃ n : Node AddressRanges (PrefixTable Address),
    genesis.Roots AddressRanges op.genesis ∧ n.service.chain.Called genesis [] ∧
      (run (asking (-1)) (start 0)).Handed [-1] ∧
        ∃ e m, Node.answerBlocks op [-1] n = .error e m := by
  obtain ⟨n, roots, called, -⟩ := start_stored
  refine ⟨n, roots, called, ⟨[7], id, by decide, fun _ => List.Perm.refl _, by decide⟩, ?_⟩
  exact ⟨_, _, rfl⟩

end Sample.Watched

end IPchain
