import IPchain.Factory
import Mathlib.Data.Finset.Interval
import Mathlib.Order.Interval.Finset.Nat

/-! The download of the chain: what the network process has when it stops to ask for blocks. -/

namespace IPchain

namespace Factory

theorem keys_nodup (f : Factory) : f.blocks.keys.Nodup := f.blocks.nodupKeys

theorem downloaded.covers_iff {f : Factory} (downloaded : f.downloaded)
    (past : ∀ n ∈ f.blocks, f.lastServedBlock < n) :
    (∀ n, f.lastServedBlock < n → n ≤ f.numBlock → n ∈ f.blocks) ↔
      ∀ n ∈ f.blocks, n ≤ f.numBlock := by
  have count : f.blocks.keys.toFinset.card = (Finset.Ioc f.lastServedBlock f.numBlock).card := by
    rw [List.toFinset_card_of_nodup f.keys_nodup, Nat.card_Ioc]
    unfold Factory.downloaded at downloaded
    omega
  have member (n : Nat) : n ∈ f.blocks.keys.toFinset ↔ n ∈ f.blocks := by
    rw [List.mem_toFinset, AList.mem_keys]
  constructor
  · intro covers n stored
    have full : Finset.Ioc f.lastServedBlock f.numBlock ⊆ f.blocks.keys.toFinset := by
      intro n between
      obtain ⟨above, below⟩ := Finset.mem_Ioc.mp between
      exact (member n).mpr (covers n above below)
    have same := Finset.eq_of_subset_of_card_le full count.le
    have between : n ∈ Finset.Ioc f.lastServedBlock f.numBlock := by
      rw [same]
      exact (member n).mpr stored
    exact (Finset.mem_Ioc.mp between).2
  · intro bounded n above below
    have inside : f.blocks.keys.toFinset ⊆ Finset.Ioc f.lastServedBlock f.numBlock := by
      intro n stored
      have stored := (member n).mp stored
      exact Finset.mem_Ioc.mpr ⟨past n stored, bounded n stored⟩
    have same := Finset.eq_of_subset_of_card_le inside count.ge
    rw [← member, same]
    exact Finset.mem_Ioc.mpr ⟨above, below⟩

section Wire

variable [Wire]

def number (raw : Bytes) : Option Nat := (Wire.decodeBlock raw).map fun block => block.header.number

/-- The numbers of the blocks that an event brings as an answer. -/
def Event.answers : Event → List Nat
  | .setBlocks raws => raws.filterMap number
  | _ => []

/-- An event that comes from a peer or from a timer. -/
def Event.outside : Event → Bool
  | .getBlock | .announce _ => false
  | _ => true

theorem run_append (before after : List Event) (f : Factory) :
    run (before ++ after) f = run after (run before f) := List.foldl_append

theorem run_nil (f : Factory) : run [] f = f := rfl

theorem run_cons (e : Event) (events : List Event) (f : Factory) :
    run (e :: events) f = run events (handle e f) := rfl

theorem storeBlock_frame (raw : Bytes) (f : Factory) :
    ∃ blocks, storeBlock raw f = { f with blocks := blocks } ∧
      ∀ n, n ∈ blocks ↔ n ∈ f.blocks ∨ number raw = some n ∧ f.lastServedBlock < n := by
  unfold storeBlock
  cases decoded : Wire.decodeBlock raw with
  | none => exact ⟨f.blocks, rfl, by simp [number, decoded]⟩
  | some block =>
      dsimp only
      split
      · rename_i new
        refine ⟨_, rfl, fun n => ?_⟩
        simp only [AList.mem_insert, number, decoded, Option.map_some, Option.some.injEq]
        constructor
        · rintro (rfl | stored)
          · exact Or.inr ⟨rfl, new.1⟩
          · exact Or.inl stored
        · rintro (stored | ⟨rfl, -⟩)
          · exact Or.inr stored
          · exact Or.inl rfl
      · rename_i old
        refine ⟨f.blocks, rfl, fun n => ?_⟩
        simp only [number, decoded, Option.map_some, Option.some.injEq]
        constructor
        · exact Or.inl
        · rintro (stored | ⟨rfl, above⟩)
          · exact stored
          · by_contra missing
            exact old ⟨above, missing⟩

theorem storeBlocks_frame (raws : List Bytes) (f : Factory) :
    ∃ blocks, raws.foldl (fun f raw => storeBlock raw f) f = { f with blocks := blocks } ∧
      ∀ n, n ∈ blocks ↔ n ∈ f.blocks ∨ n ∈ raws.filterMap number ∧ f.lastServedBlock < n := by
  induction raws generalizing f with
  | nil => exact ⟨f.blocks, rfl, by simp⟩
  | cons raw raws ih =>
      obtain ⟨blocks, stored, first⟩ := storeBlock_frame raw f
      obtain ⟨others, folded, rest⟩ := ih { f with blocks := blocks }
      refine ⟨others, ?_, fun n => ?_⟩
      · rw [List.foldl_cons, stored, folded]
      · rw [rest, first, List.mem_filterMap, List.mem_filterMap]
        constructor
        · rintro ((old | ⟨here, above⟩) | ⟨⟨other, member, later⟩, above⟩)
          · exact Or.inl old
          · exact Or.inr ⟨⟨raw, List.mem_cons_self, here⟩, above⟩
          · exact Or.inr ⟨⟨other, List.mem_cons_of_mem _ member, later⟩, above⟩
        · rintro (old | ⟨⟨other, member, found⟩, above⟩)
          · exact Or.inl (Or.inl old)
          · rcases List.mem_cons.mp member with rfl | later
            · exact Or.inl (Or.inr ⟨found, above⟩)
            · exact Or.inr ⟨⟨other, later, found⟩, above⟩

omit [Wire] in
theorem getBlockNum_frame (peer : Nat) (num : Int) (f : Factory) :
    ∃ queries, (f.getBlockNum peer num).1 = { f with blockQueries := queries } := by
  simp only [getBlockNum]
  split
  · exact ⟨_, rfl⟩
  · split
    · split
      · exact ⟨f.blockQueries, rfl⟩
      · exact ⟨f.blockQueries, rfl⟩
    · exact ⟨f.blockQueries, rfl⟩

omit [Wire] in
theorem chunk_frame (peer : Nat) (numbers : List Int) (f : Factory) :
    ∃ queries, (chunk peer numbers f).1 = { f with blockQueries := queries } := by
  induction numbers generalizing f with
  | nil => exact ⟨f.blockQueries, rfl⟩
  | cons n numbers ih =>
      simp only [chunk]
      split
      · obtain ⟨queries, same⟩ := ih (f.query peer n)
        exact ⟨queries, same⟩
      · obtain ⟨queries, same⟩ := ih f
        refine ⟨queries, ?_⟩
        generalize (if n ≤ f.numBlock then f.blockAt n else none) = found
        cases found with
        | some raw => exact same
        | none => exact same

omit [Wire] in
theorem getBlocks_frame (peer : Nat) (num size : Int) (f : Factory) :
    ∃ queries, (f.getBlocks peer num size).1 = { f with blockQueries := queries } := by
  obtain ⟨queries, same⟩ := chunk_frame peer (chunkNumbers num size) f
  refine ⟨queries, ?_⟩
  rw [← same, getBlocks]
  split
  · rename_i g chunked
    rw [chunked]
  · rename_i g blocks none chunked
    rw [chunked]

theorem answerPeer_frame (peer : Nat) (raws : List Bytes) (f : Factory) :
    ∃ queries, (answerPeer peer raws f).1 = { f with blockQueries := queries } := by
  induction raws generalizing f with
  | nil => exact ⟨f.blockQueries, rfl⟩
  | cons raw raws ih =>
      simp only [answerPeer]
      split
      · exact ⟨f.blockQueries, rfl⟩
      · split
        · exact ih (f.discard peer _)
        · exact ih f

theorem answerPeers_frame (raws : List Bytes) (peers : List Nat) (f : Factory) :
    ∃ queries, (answerPeers raws peers f).1 = { f with blockQueries := queries } := by
  induction peers generalizing f with
  | nil => exact ⟨f.blockQueries, rfl⟩
  | cons peer peers ih =>
      obtain ⟨queries, same⟩ := answerPeer_frame peer raws f
      simp only [answerPeers]
      split
      · rename_i g blocks answered
        rw [answered] at same
        change g = _ at same
        subst same
        exact ih _
      · rename_i g blocks answered
        rw [answered] at same
        exact ⟨queries, same⟩

theorem answerBlockQueries_frame (raws : List Bytes) (f : Factory) :
    ∃ queries, (f.answerBlockQueries raws).1 = { f with blockQueries := queries } :=
  answerPeers_frame raws f.askers f

def answered (events : List Event) : List Nat := events.flatMap Event.answers

/-- The timers run one after the other, and what is stored above the counter is an answer. -/
structure Collects (lastBlock : Nat) (events : List Event) (f : Factory) : Prop where
  last : f.lastServedBlock = lastBlock
  ahead : lastBlock ≤ f.numBlock
  past : ∀ n ∈ f.blocks, lastBlock < n
  late : f.ckTx = true ∨ f.bootstrap = false → f.ckNumBlocks = false ∧ f.ckBlocks = false
  turns : f.ckNumBlocks = false ∨ f.ckBlocks = false
  known : ∀ n ∈ f.blocks, n ≤ f.numBlock ∨ n ∈ answered events
  kept : f.bootstrap = true → ∀ n ∈ answered events, lastBlock < n → n ∈ f.blocks

theorem collects_start (lastBlock : Nat) : Collects lastBlock [] (start lastBlock) where
  last := rfl
  ahead := le_rfl
  past _ stored := absurd stored (AList.notMem_empty _)
  late ended := by simp [start] at ended
  turns := Or.inr rfl
  known _ stored := absurd stored (AList.notMem_empty _)
  kept _ _ member := absurd member List.not_mem_nil

variable {lastBlock : Nat} {events : List Event} {f : Factory}

theorem answered_snoc (events : List Event) (e : Event) :
    answered (events ++ [e]) = answered events ++ e.answers := by
  simp [answered]

theorem answered_quiet {e : Event} (quiet : e.answers = []) :
    answered (events ++ [e]) = answered events := by
  rw [answered_snoc, quiet, List.append_nil]

theorem Collects.idle (collects : Collects lastBlock events f) {e : Event} {g : Factory}
    (quiet : e.answers = []) (blocks : g.blocks = f.blocks) (last : g.lastServedBlock = lastBlock)
    (ahead : f.numBlock ≤ g.numBlock) (boot : g.bootstrap = true → f.bootstrap = true)
    (late : g.ckTx = true ∨ g.bootstrap = false → g.ckNumBlocks = false ∧ g.ckBlocks = false)
    (turns : g.ckNumBlocks = false ∨ g.ckBlocks = false) :
    Collects lastBlock (events ++ [e]) g where
  last := last
  ahead := collects.ahead.trans ahead
  past := blocks ▸ collects.past
  late := late
  turns := turns
  known n stored := by
    rw [answered_quiet quiet]
    rw [blocks] at stored
    exact (collects.known n stored).imp_left fun below => below.trans ahead
  kept on n member above := by
    rw [answered_quiet quiet] at member
    rw [blocks]
    exact collects.kept (boot on) n member above

theorem Collects.step (collects : Collects lastBlock events f) {e : Event}
    (outside : e.outside = true) : Collects lastBlock (events ++ [e]) (handle e f) := by
  have still {g : Factory} (queries : List (Nat × Int)) (quiet : e.answers = [])
      (same : g = { f with blockQueries := queries }) : Collects lastBlock (events ++ [e]) g := by
    subst same
    exact collects.idle quiet rfl collects.last le_rfl id collects.late collects.turns
  cases e with
  | getBlock => cases outside
  | announce raw => cases outside
  | setNumBlocks num =>
      simp only [handle, setNumBlocks]
      split
      · refine collects.idle rfl rfl collects.last ?_ id collects.late collects.turns
        dsimp only
        split
        · rename_i more
          exact more.le
        · exact le_rfl
      · exact still f.blockQueries rfl rfl
  | setBlock raw =>
      simp only [handle, setBlock]
      split
      · exact still f.blockQueries rfl rfl
      · rename_i block decoded
        split
        · rename_i next
          have ahead := collects.ahead
          have member {n : Nat} : n ∈ f.blocks.insert block.header.number raw ↔
              n = block.header.number ∨ n ∈ f.blocks := AList.mem_insert _
          refine ⟨collects.last, ahead.trans (Nat.le_succ _), fun n stored => ?_, collects.late,
            collects.turns, fun n stored => ?_, fun on n answer above => ?_⟩
          · rcases member.mp stored with rfl | old
            · omega
            · exact collects.past n old
          · rw [answered_quiet rfl]
            rcases member.mp stored with rfl | old
            · exact Or.inl next.ge
            · exact (collects.known n old).imp_left fun below => below.trans (Nat.le_succ _)
          · rw [answered_quiet rfl] at answer
            exact member.mpr (Or.inr (collects.kept on n answer above))
        · exact still f.blockQueries rfl rfl
  | setBlocks raws =>
      simp only [handle, setBlocks]
      split
      · rename_i on
        obtain ⟨blocks, stored, member⟩ := storeBlocks_frame raws f
        rw [stored]
        rw [collects.last] at member
        refine ⟨collects.last, collects.ahead, fun n new => ?_, collects.late, collects.turns,
          fun n new => ?_, fun on n answer above => ?_⟩
        · rcases (member n).mp new with old | ⟨-, above⟩
          · exact collects.past n old
          · exact above
        · rw [answered_snoc]
          rcases (member n).mp new with old | ⟨answer, -⟩
          · exact (collects.known n old).imp_right fun answer => List.mem_append_left _ answer
          · exact Or.inr (List.mem_append_right _ answer)
        · rw [answered_snoc] at answer
          apply (member n).mpr
          rcases List.mem_append.mp answer with old | now
          · exact Or.inl (collects.kept on n old above)
          · exact Or.inr ⟨now, above⟩
      · rename_i off
        have off : f.bootstrap = false := by simpa using off
        refine ⟨collects.last, collects.ahead, collects.past, collects.late, collects.turns,
          fun n stored => ?_, fun on => absurd on (by simp [off])⟩
        rw [answered_snoc]
        exact (collects.known n stored).imp_right fun answer => List.mem_append_left _ answer
  | getBlockNum peer num =>
      obtain ⟨queries, same⟩ := getBlockNum_frame peer num f
      exact still queries rfl same
  | getBlocks peer num size =>
      obtain ⟨queries, same⟩ := getBlocks_frame peer num size f
      exact still queries rfl same
  | connectionLost peer => exact still _ rfl rfl
  | answerBlockQueries raws =>
      obtain ⟨queries, same⟩ := answerBlockQueries_frame raws f
      exact still queries rfl same
  | setTxPool =>
      simp only [handle, setTxPool]
      split
      · exact collects.idle rfl rfl collects.last le_rfl id collects.late collects.turns
      · exact still f.blockQueries rfl rfl
  | checkNumBlocks =>
      simp only [handle, checkNumBlocks]
      split
      · rename_i due
        have on : f.ckNumBlocks = true := by simp_all
        refine collects.idle rfl rfl collects.last le_rfl id (fun ended => ?_) (Or.inl rfl)
        exact absurd (collects.late ended).1 (by simp [on])
      · exact still f.blockQueries rfl rfl
  | checkAllBlocks =>
      simp only [handle, checkAllBlocks]
      split
      · rename_i due
        refine collects.idle rfl rfl collects.last le_rfl id (fun ended => ⟨?_, rfl⟩) (Or.inr rfl)
        exact collects.turns.resolve_right (by simp [due.1])
      · exact still f.blockQueries rfl rfl
  | checkTx =>
      simp only [handle, checkTx]
      split
      · rename_i on
        split
        · refine collects.idle rfl rfl collects.last le_rfl (fun boot => nomatch boot)
            (fun ended => collects.late (Or.inl on)) collects.turns
        · exact still f.blockQueries rfl rfl
      · exact still f.blockQueries rfl rfl
  | checkBlocks num => exact still f.blockQueries rfl rfl
  | askDht result => exact still f.blockQueries rfl rfl

variable (lastBlock) in
theorem run_collects (outside : ∀ e ∈ events, e.outside = true) :
    Collects lastBlock events (run events (start lastBlock)) := by
  induction events using List.reverseRecOn with
  | nil => exact collects_start lastBlock
  | append_singleton events e ih =>
      rw [List.forall_mem_append, List.forall_mem_singleton] at outside
      rw [run_append]
      exact (ih outside.1).step outside.2

/-- The download stops with all blocks up to the counter if and only if no peer has answered with
a block above it. -/
theorem download_complete_iff (outside : ∀ e ∈ events, e.outside = true)
    (stops : (run events (start lastBlock)).ckBlocks = true ∧
      (run events (start lastBlock)).downloaded) :
    (∀ n, (run events (start lastBlock)).lastServedBlock < n →
        n ≤ (run events (start lastBlock)).numBlock → n ∈ (run events (start lastBlock)).blocks) ↔
      ∀ n ∈ answered events, n ≤ (run events (start lastBlock)).numBlock := by
  have collects := run_collects lastBlock outside
  generalize run events (start lastBlock) = f at *
  have on : f.bootstrap = true := by
    by_contra off
    have ended := (collects.late (Or.inr (by simpa using off))).2
    rw [stops.1] at ended
    cases ended
  rw [stops.2.covers_iff (by rw [collects.last]; exact collects.past)]
  constructor
  · intro bounded n answer
    by_cases above : lastBlock < n
    · exact bounded n (collects.kept on n answer above)
    · exact (Nat.not_lt.mp above).trans collects.ahead
  · intro bounded n stored
    rcases collects.known n stored with below | answer
    · exact below
    · exact bounded n answer

end Wire

end Factory

namespace Sample.Wired

open Factory

def numbered (number : Nat) : Block where
  header := ⟨List.replicate 32 0, 0, [], List.replicate 32 0, List.replicate 32 0, number,
    List.replicate 20 0, List.replicate 32 0, [], [], 0⟩
  transactions := []
  v := 0
  r := 0
  s := 0
  cachedSigner := none

scoped instance : Wire where
  decodeBlock raw := ((List.range 12).map numbered).find? fun block => block.raw = raw

def download : List Event :=
  [.setNumBlocks 2, .checkNumBlocks, .setBlocks [(numbered 2).raw, (numbered 1).raw]]

theorem download_complete_two : (run download (start 0)).downloaded ∧
    ∀ n, (run download (start 0)).lastServedBlock < n →
      n ≤ (run download (start 0)).numBlock → n ∈ (run download (start 0)).blocks := by
  have outside : ∀ e ∈ download, e.outside = true := by decide
  have stops : (run download (start 0)).ckBlocks = true ∧ (run download (start 0)).downloaded := by
    decide +kernel
  exact ⟨stops.2, (download_complete_iff outside stops).mpr (by decide +kernel)⟩

/-- A peer that is ahead answers the last chunk with a block above the counter. -/
theorem download_lacks_block :
    let f := run [.setNumBlocks 9, .checkNumBlocks, .setBlocks [(numbered 10).raw]] (start 8)
    f.lastServedBlock = 8 ∧ f.numBlock = 9 ∧ f.requests = [.getBlocks 9 9] ∧
      f.ckBlocks = true ∧ f.checkAllBlocks.1.ckBlocks = false ∧ 9 ∉ f.blocks := by
  decide +kernel

end Sample.Wired

end IPchain
