import IPchain.Download
import IPchain.Expectation

/-! The network process after the bootstrap: its counter of blocks, what it stores, and what it
serves. -/

namespace IPchain

namespace Factory

def highest (f : Factory) : Nat := f.blocks.keys.foldr max f.lastServedBlock

theorem foldr_max_le_iff (numbers : List Nat) (first bound : Nat) :
    numbers.foldr max first ≤ bound ↔ first ≤ bound ∧ ∀ n ∈ numbers, n ≤ bound := by
  induction numbers with
  | nil => simp
  | cons n numbers ih =>
      rw [List.foldr_cons, Nat.max_le, ih, List.forall_mem_cons]
      tauto

theorem highest_le_iff (f : Factory) (bound : Nat) :
    f.highest ≤ bound ↔ f.lastServedBlock ≤ bound ∧ ∀ n ∈ f.blocks, n ≤ bound := by
  simp only [highest, foldr_max_le_iff, AList.mem_keys]

theorem le_highest (f : Factory) : f.lastServedBlock ≤ f.highest :=
  ((f.highest_le_iff _).mp le_rfl).1

theorem highest_eq_iff (f : Factory) (g : Factory)
    (same : ∀ bound, (f.lastServedBlock ≤ bound ∧ ∀ n ∈ f.blocks, n ≤ bound) ↔
      (g.lastServedBlock ≤ bound ∧ ∀ n ∈ g.blocks, n ≤ bound)) : f.highest = g.highest := by
  apply Nat.le_antisymm
  · rw [highest_le_iff, same, ← highest_le_iff]
  · rw [highest_le_iff, ← same, ← highest_le_iff]

section Wire

variable [Wire]

/-- The counter is exact, so that the next block is kept. -/
structure Exact (f : Factory) : Prop where
  counter : f.numBlock = f.highest
  next : ∀ raw, number raw = some (f.highest + 1) →
    (f.setBlock raw).blocks.lookup (f.highest + 1) = some raw

theorem setBlock_next {f : Factory} {raw : Bytes} (next : number raw = some (f.numBlock + 1)) :
    f.setBlock raw = { f with
      blocks := f.blocks.insert (f.numBlock + 1) raw, numBlock := f.numBlock + 1 } := by
  obtain ⟨block, decoded, same⟩ := Option.map_eq_some_iff.mp next
  simp only [setBlock, decoded, same, if_true]

theorem setBlock_other {f : Factory} {raw : Bytes} (other : number raw ≠ some (f.numBlock + 1)) :
    f.setBlock raw = f := by
  unfold setBlock
  cases decoded : Wire.decodeBlock raw with
  | none => rfl
  | some block =>
      refine if_neg fun same => other ?_
      rw [number, decoded, Option.map_some, same]

theorem exact_iff (f : Factory) : f.Exact ↔ f.numBlock = f.highest := by
  constructor
  · exact Exact.counter
  · intro counter
    refine ⟨counter, fun raw next => ?_⟩
    rw [← counter] at next ⊢
    rw [setBlock_next next]
    exact AList.lookup_insert _

def Event.arrives : Event → Option Nat
  | .setBlock raw => number raw
  | _ => none

inductive Moves (e : Event) (f g : Factory) : Prop where
  | stays (off : g.bootstrap = false) (arrives : e.arrives ≠ some (f.numBlock + 1))
      (own : ∀ raw, e ≠ .announce raw) (counter : g.numBlock = f.numBlock)
      (last : g.lastServedBlock = f.lastServedBlock) (blocks : g.blocks = f.blocks)
  | stores (raw : Bytes) (same : e = .setBlock raw) (next : number raw = some (f.numBlock + 1))
      (result : g = { f with
        blocks := f.blocks.insert (f.numBlock + 1) raw, numBlock := f.numBlock + 1 })
  | serves (raw : Bytes) (same : e = .getBlock) (stored : f.blocks.lookup (f.lastServedBlock + 1) = some raw)
      (result : g = { f with lastServedBlock := f.lastServedBlock + 1 })
  | announces (raw : Bytes) (same : e = .announce raw) (result : g = { f with
      numBlock := f.numBlock + 1, lastServedBlock := f.lastServedBlock + 1 })

theorem handle_moves {f : Factory} (off : f.bootstrap = false) (e : Event) :
    Moves e f (handle e f) := by
  have still {g : Factory} (arrives : e.arrives = none) (own : ∀ raw, e ≠ .announce raw)
      (boot : g.bootstrap = false) (counter : g.numBlock = f.numBlock)
      (last : g.lastServedBlock = f.lastServedBlock) (blocks : g.blocks = f.blocks) :
      Moves e f g :=
    .stays boot (by rw [arrives]; exact (Option.some_ne_none _).symm) own counter last blocks
  cases e with
  | setNumBlocks num =>
      simp only [handle, setNumBlocks, off]
      exact still rfl (by simp) off rfl rfl rfl
  | setBlock raw =>
      by_cases next : number raw = some (f.numBlock + 1)
      · exact .stores raw rfl next (setBlock_next next)
      · exact .stays (by rw [handle, setBlock_other next]; exact off) next (by simp)
          (by rw [handle, setBlock_other next]) (by rw [handle, setBlock_other next])
          (by rw [handle, setBlock_other next])
  | setBlocks raws =>
      simp only [handle, setBlocks, off]
      exact still rfl (by simp) off rfl rfl rfl
  | getBlockNum peer num =>
      obtain ⟨queries, same⟩ := getBlockNum_frame peer num f
      rw [handle, same]
      exact still rfl (by simp) off rfl rfl rfl
  | getBlocks peer num size =>
      obtain ⟨queries, same⟩ := getBlocks_frame peer num size f
      rw [handle, same]
      exact still rfl (by simp) off rfl rfl rfl
  | connectionLost peer => exact still rfl (by simp) off rfl rfl rfl
  | answerBlockQueries raws =>
      obtain ⟨queries, same⟩ := answerBlockQueries_frame raws f
      rw [handle, same]
      exact still rfl (by simp) off rfl rfl rfl
  | setTxPool =>
      simp only [handle, setTxPool, off]
      exact still rfl (by simp) off rfl rfl rfl
  | getBlock =>
      simp only [handle, getBlock]
      split
      · rename_i b rest found
        exact .serves (b :: rest) rfl found rfl
      · exact still rfl (by simp) off rfl rfl rfl
  | announce raw => exact .announces raw rfl rfl
  | checkNumBlocks =>
      simp only [handle, checkNumBlocks]
      split
      · exact still rfl (by simp) off rfl rfl rfl
      · exact still rfl (by simp) off rfl rfl rfl
  | checkAllBlocks =>
      simp only [handle, checkAllBlocks]
      split
      · exact still rfl (by simp) off rfl rfl rfl
      · exact still rfl (by simp) off rfl rfl rfl
  | checkTx =>
      simp only [handle, checkTx]
      split
      · split
        · exact still rfl (by simp) rfl rfl rfl rfl
        · exact still rfl (by simp) off rfl rfl rfl
      · exact still rfl (by simp) off rfl rfl rfl
  | checkBlocks num => exact still rfl (by simp) off rfl rfl rfl
  | askDht result => exact still rfl (by simp) off rfl rfl rfl

theorem Moves.off {e : Event} {f g : Factory} (moves : Moves e f g) (off : f.bootstrap = false) :
    g.bootstrap = false := by
  cases moves with
  | stays boot => exact boot
  | stores raw same next result => rw [result]; exact off
  | serves raw same stored result => rw [result]; exact off
  | announces raw same result => rw [result]; exact off

theorem run_off {f : Factory} (off : f.bootstrap = false) (events : List Event) :
    (run events f).bootstrap = false := by
  induction events generalizing f with
  | nil => exact off
  | cons e events ih => exact ih ((handle_moves off e).off off)

theorem Moves.counts {e : Event} {f g : Factory} (moves : Moves e f g)
    (counter : f.numBlock = f.highest) :
    g.numBlock = g.highest ↔ ∀ raw, e = .announce raw → f.numBlock = f.lastServedBlock := by
  have above := f.le_highest
  cases moves with
  | stays off arrives own number last blocks =>
      have same : g.highest = f.highest := by rw [highest, highest, last, blocks]
      rw [number, same]
      exact iff_of_true counter fun raw announced => absurd announced (own raw)
  | stores raw same next result =>
      have highest : g.highest = f.numBlock + 1 := by
        apply Nat.le_antisymm
        · rw [result, highest_le_iff]
          refine ⟨by dsimp only; omega, fun n stored => ?_⟩
          rcases (AList.mem_insert _).mp stored with rfl | old
          · exact le_rfl
          · have below := ((f.highest_le_iff _).mp le_rfl).2 n old
            omega
        · apply ((g.highest_le_iff _).mp le_rfl).2
          rw [result]
          exact (AList.mem_insert _).mpr (Or.inl rfl)
      rw [highest, result]
      exact iff_of_true rfl fun raw announced => by rw [same] at announced; cases announced
  | serves raw same stored result =>
      have member : f.lastServedBlock + 1 ∈ f.blocks :=
        AList.lookup_isSome.mp (by rw [stored]; rfl)
      have highest : g.highest = f.highest := by
        refine highest_eq_iff g f fun bound => ?_
        rw [result]
        constructor
        · rintro ⟨last, all⟩
          exact ⟨(Nat.le_succ _).trans last, all⟩
        · rintro ⟨last, all⟩
          exact ⟨all _ member, all⟩
      rw [highest, result]
      exact iff_of_true counter fun raw announced => by rw [same] at announced; cases announced
  | announces raw same result =>
      have highest : g.highest = max (f.lastServedBlock + 1) f.highest := by
        apply eq_of_forall_ge_iff
        intro bound
        rw [highest_le_iff, max_le_iff, highest_le_iff, result]
        constructor
        · rintro ⟨last, all⟩
          exact ⟨last, (Nat.le_succ _).trans last, all⟩
        · rintro ⟨last, -, all⟩
          exact ⟨last, all⟩
      rw [highest, result, ← counter]
      constructor
      · intro equal raw announced
        dsimp only at equal
        omega
      · intro level
        have level := level raw same
        dsimp only
        omega

/-- The counter is exact in every state of a run if and only if it is at its start, and each own
block is announced when all blocks that have come were served. -/
theorem exact_iff_announced {f : Factory} (off : f.bootstrap = false) (events : List Event) :
    (∀ before after, events = before ++ after → (run before f).Exact) ↔
      f.Exact ∧ ∀ before raw after, events = before ++ .announce raw :: after →
        (run before f).numBlock = (run before f).lastServedBlock := by
  simp only [exact_iff]
  have step (before : List Event) (e : Event) :
      Moves e (run before f) (run (before ++ [e]) f) := by
    rw [run_append]
    exact handle_moves (run_off off before) e
  constructor
  · intro always
    refine ⟨always [] events rfl, fun before raw after split => ?_⟩
    have counter := always before _ split
    have later := always (before ++ [.announce raw]) after (by simp [split])
    exact ((step before _).counts counter).mp later raw rfl
  · rintro ⟨counter, level⟩ before
    induction before using List.reverseRecOn with
    | nil => exact fun _ _ => counter
    | append_singleton before e ih =>
        intro after split
        rw [List.append_assoc] at split
        refine ((step before e).counts (ih _ split)).mpr fun raw announced => ?_
        subst announced
        exact level before raw after split

/-- The numbers of the new blocks that peers send. -/
def arrivals (events : List Event) : List Nat := events.filterMap Event.arrives

theorem Moves.stored {e : Event} {f g : Factory} (moves : Moves e f g) {n : Nat}
    (stored : n ∈ f.blocks) : n ∈ g.blocks := by
  cases moves with
  | stays boot arrives own counter last blocks => exact blocks ▸ stored
  | stores raw same next result =>
      rw [result]
      exact (AList.mem_insert _).mpr (Or.inr stored)
  | serves raw same found result =>
      rw [result]
      exact stored
  | announces raw same result =>
      rw [result]
      exact stored

theorem stored_run {f : Factory} (off : f.bootstrap = false) (events : List Event) {n : Nat}
    (stored : n ∈ f.blocks) : n ∈ (run events f).blocks := by
  induction events generalizing f with
  | nil => exact stored
  | cons e events ih =>
      have moves := handle_moves off e
      exact ih (moves.off off) (moves.stored stored)

theorem mem_run_iff {f : Factory} (off : f.bootstrap = false) {events : List Event}
    (foreign : ∀ e ∈ events, ∀ raw, e ≠ .announce raw) {n : Nat} (above : f.numBlock < n) :
    n ∈ (run events f).blocks ↔
      n ∈ f.blocks ∨ (List.range' (f.numBlock + 1) (n - f.numBlock)).Sublist (arrivals events) := by
  have range {first : Nat} (below : first < n) : List.range' (first + 1) (n - first) =
      (first + 1) :: List.range' (first + 1 + 1) (n - (first + 1)) := by
    rw [show n - first = (n - (first + 1)) + 1 by omega, List.range'_succ]
  induction events generalizing f with
  | nil =>
      rw [range above]
      simp [run, arrivals]
  | cons e events ih =>
      rw [List.forall_mem_cons] at foreign
      have moves := handle_moves off e
      change n ∈ (run events (handle e f)).blocks ↔ _
      generalize handle e f = g at moves
      cases moves with
      | stays boot arrives own counter last blocks =>
          have skipped : (List.range' (f.numBlock + 1) (n - f.numBlock)).Sublist
              (arrivals (e :: events)) ↔
                (List.range' (f.numBlock + 1) (n - f.numBlock)).Sublist (arrivals events) := by
            cases arrived : e.arrives with
            | none => rw [arrivals, List.filterMap_cons_none arrived, arrivals]
            | some number =>
                have other : f.numBlock + 1 ≠ number := by
                  rintro rfl
                  exact arrives arrived
                rw [arrivals, List.filterMap_cons_some arrived, ← arrivals, range above]
                constructor
                · intro sub
                  rcases List.sublist_cons_iff.mp sub with later | ⟨rest, same, -⟩
                  · exact later
                  · exact absurd (List.cons.inj same).1 other
                · exact fun sub => sub.cons _
          have rest := ih boot foreign.2 (by rw [counter]; exact above)
          rw [counter, blocks] at rest
          exact rest.trans (or_congr_right skipped.symm)
      | stores raw same next result =>
          have arrived : e.arrives = some (f.numBlock + 1) := by
            rw [same]
            exact next
          rw [arrivals, List.filterMap_cons_some arrived, ← arrivals, range above,
            List.cons_sublist_cons]
          subst result
          by_cases last : n = f.numBlock + 1
          · subst last
            have there : f.numBlock + 1 ∈ f.blocks.insert (f.numBlock + 1) raw :=
              (AList.mem_insert _).mpr (Or.inl rfl)
            refine iff_of_true (stored_run (f := { f with
              blocks := f.blocks.insert (f.numBlock + 1) raw, numBlock := f.numBlock + 1 }) off
              events there) (Or.inr ?_)
            rw [Nat.sub_self]
            exact List.nil_sublist _
          · have rest := ih (f := { f with
              blocks := f.blocks.insert (f.numBlock + 1) raw, numBlock := f.numBlock + 1 }) off
              foreign.2 (by dsimp only; omega)
            refine rest.trans (or_congr_left ?_)
            exact (AList.mem_insert _).trans (or_iff_right last)
      | serves raw same stored result =>
          subst result same
          exact ih off foreign.2 above
      | announces raw same result => exact absurd same (foreign.1 raw)

/-- What the table answers comes in if and only if peers send it in order as new blocks. -/
theorem catches_up_iff {f : Factory} (off : f.bootstrap = false) (last : Nat) {events : List Event}
    (foreign : ∀ e ∈ events, ∀ raw, e ≠ .announce raw) :
    (∀ n, Packet.getBlockNum n ∈ f.askDht (some last) → n ∈ (run events f).blocks) ↔
      ∀ n, f.numBlock < n → n ≤ last → n ∉ f.blocks →
        (List.range' (f.numBlock + 1) (n - f.numBlock)).Sublist (arrivals events) := by
  have asked (n : Nat) : Packet.getBlockNum n ∈ f.askDht (some last) ↔
      f.numBlock < n ∧ n ≤ last := by
    simp only [askDht, List.mem_map, List.mem_range'_1, Packet.getBlockNum.injEq, exists_eq_right]
    omega
  constructor
  · intro comes n above below missing
    have stored := comes n ((asked n).mpr ⟨above, below⟩)
    exact ((mem_run_iff off foreign above).mp stored).resolve_left missing
  · intro sent n request
    obtain ⟨above, below⟩ := (asked n).mp request
    by_cases there : n ∈ f.blocks
    · exact stored_run off events there
    · exact (mem_run_iff off foreign above).mpr (Or.inr (sent n above below there))

def Filed (f : Factory) : Prop := ∀ n raw, f.blocks.lookup n = some raw → number raw = some n

theorem filed_insert {f : Factory} (filed : f.Filed) {n : Nat} {raw : Bytes}
    (own : number raw = some n) {g : Factory} (blocks : g.blocks = f.blocks.insert n raw) :
    g.Filed := by
  intro m other found
  rw [blocks] at found
  by_cases same : m = n
  · subst same
    rw [AList.lookup_insert] at found
    cases found
    exact own
  · rw [AList.lookup_insert_ne same] at found
    exact filed m other found

theorem filed_storeBlock {f : Factory} (filed : f.Filed) (raw : Bytes) :
    (storeBlock raw f).Filed := by
  unfold storeBlock
  cases decoded : Wire.decodeBlock raw with
  | none => exact filed
  | some block =>
      dsimp only
      split
      · exact filed_insert filed (by rw [number, decoded]; rfl) rfl
      · exact filed

theorem filed_handle {f : Factory} (filed : f.Filed) (e : Event) :
    (handle e f).Filed ∧ f.lastServedBlock ≤ (handle e f).lastServedBlock := by
  have still {g : Factory} (blocks : g.blocks = f.blocks)
      (last : f.lastServedBlock ≤ g.lastServedBlock) :
      g.Filed ∧ f.lastServedBlock ≤ g.lastServedBlock := by
    refine ⟨?_, last⟩
    unfold Filed
    rw [blocks]
    exact filed
  cases e with
  | setNumBlocks num =>
      simp only [handle, setNumBlocks]
      split
      · exact still rfl le_rfl
      · exact still rfl le_rfl
  | setBlock raw =>
      by_cases next : number raw = some (f.numBlock + 1)
      · rw [handle, setBlock_next next]
        exact ⟨filed_insert filed next rfl, le_rfl⟩
      · rw [handle, setBlock_other next]
        exact ⟨filed, le_rfl⟩
  | setBlocks raws =>
      simp only [handle, setBlocks]
      split
      · have stores (raws : List Bytes) : ∀ g : Factory, g.Filed →
            (raws.foldl (fun g raw => storeBlock raw g) g).Filed := by
          induction raws with
          | nil => exact fun _ filed => filed
          | cons raw raws ih => exact fun g filed => ih _ (filed_storeBlock filed raw)
        obtain ⟨blocks, same, -⟩ := storeBlocks_frame raws f
        exact ⟨stores raws f filed, by rw [same]⟩
      · exact still rfl le_rfl
  | getBlockNum peer num =>
      obtain ⟨queries, same⟩ := getBlockNum_frame peer num f
      rw [handle, same]
      exact still rfl le_rfl
  | getBlocks peer num size =>
      obtain ⟨queries, same⟩ := getBlocks_frame peer num size f
      rw [handle, same]
      exact still rfl le_rfl
  | connectionLost peer => exact still rfl le_rfl
  | answerBlockQueries raws =>
      obtain ⟨queries, same⟩ := answerBlockQueries_frame raws f
      rw [handle, same]
      exact still rfl le_rfl
  | setTxPool =>
      simp only [handle, setTxPool]
      split
      · exact still rfl le_rfl
      · exact still rfl le_rfl
  | getBlock =>
      simp only [handle, getBlock]
      split
      · exact still rfl (Nat.le_succ _)
      · exact still rfl le_rfl
  | announce raw => exact still rfl (Nat.le_succ _)
  | checkNumBlocks =>
      simp only [handle, checkNumBlocks]
      split
      · exact still rfl le_rfl
      · exact still rfl le_rfl
  | checkAllBlocks =>
      simp only [handle, checkAllBlocks]
      split
      · exact still rfl le_rfl
      · exact still rfl le_rfl
  | checkTx =>
      simp only [handle, checkTx]
      split
      · split
        · exact still rfl le_rfl
        · exact still rfl le_rfl
      · exact still rfl le_rfl
  | checkBlocks num => exact still rfl le_rfl
  | askDht result => exact still rfl le_rfl

theorem filed_run {f : Factory} (filed : f.Filed) (events : List Event) : (run events f).Filed := by
  induction events generalizing f with
  | nil => exact filed
  | cons e events ih => exact ih (filed_handle filed e).1

theorem served_monotone {f : Factory} (filed : f.Filed) (events : List Event) :
    f.lastServedBlock ≤ (run events f).lastServedBlock := by
  induction events generalizing f with
  | nil => exact le_rfl
  | cons e events ih =>
      obtain ⟨later, monotone⟩ := filed_handle filed e
      exact monotone.trans (ih later)

theorem filed_start (lastBlock : Nat) : (start lastBlock).Filed := by
  intro n raw found
  cases found

theorem served_cons (e : Event) (events : List Event) (f : Factory) :
    served (e :: events) f = served [e] f ++ served events (handle e f) := by
  cases e with
  | getBlock => simp [served, handle]
  | setNumBlocks | setBlock | setBlocks | getBlockNum | getBlocks | connectionLost | setTxPool
  | announce | answerBlockQueries | checkNumBlocks | checkAllBlocks | checkTx | checkBlocks
  | askDht => rfl

theorem served_one {f : Factory} (filed : f.Filed) (e : Event) : served [e] f = [] ∨
    ∃ raw, served [e] f = [raw] ∧ number raw = some (f.lastServedBlock + 1) ∧
      (handle e f).lastServedBlock = f.lastServedBlock + 1 := by
  cases e with
  | getBlock =>
      simp only [served, handle, getBlock]
      split
      · rename_i b rest found
        exact Or.inr ⟨_, rfl, filed _ _ found, rfl⟩
      · exact Or.inl rfl
  | setNumBlocks | setBlock | setBlocks | getBlockNum | getBlocks | connectionLost | setTxPool
  | announce | answerBlockQueries | checkNumBlocks | checkAllBlocks | checkTx | checkBlocks
  | askDht => exact Or.inl rfl

theorem served_numbers {f : Factory} (filed : f.Filed) (events : List Event) :
    ∃ numbers : List Nat, (served events f).map number = numbers.map some ∧
      numbers.Pairwise (· < ·) ∧ ∀ n ∈ numbers, f.lastServedBlock < n := by
  induction events generalizing f with
  | nil => exact ⟨[], rfl, .nil, List.forall_mem_nil _⟩
  | cons e events ih =>
      obtain ⟨later, monotone⟩ := filed_handle filed e
      obtain ⟨numbers, same, sorted, above⟩ := ih later
      rw [served_cons]
      rcases served_one filed e with none | ⟨raw, one, own, last⟩
      · rw [none]
        exact ⟨numbers, same, sorted, fun n member => monotone.trans_lt (above n member)⟩
      · rw [one]
        refine ⟨(f.lastServedBlock + 1) :: numbers, ?_, List.pairwise_cons.mpr ⟨?_, sorted⟩, ?_⟩
        · rw [List.map_append, same, List.map_singleton, own]
          rfl
        · rw [← last]
          exact above
        · rw [List.forall_mem_cons]
          exact ⟨Nat.lt_succ_self _, fun n member => monotone.trans_lt (above n member)⟩

/-- A block uses up its number: no number is served twice, whatever the chain makes of the block. -/
theorem serves_number_once (lastBlock : Nat) (events : List Event) :
    ∃ numbers : List Nat, (served events (start lastBlock)).map number = numbers.map some ∧
      numbers.Pairwise (· < ·) := by
  obtain ⟨numbers, same, sorted, -⟩ := served_numbers (filed_start lastBlock) events
  exact ⟨numbers, same, sorted⟩

theorem served_stored {f : Factory} (filed : f.Filed) (blank : number [] = none) {k : Nat}
    (stored : ∀ n, f.lastServedBlock < n → n ≤ f.lastServedBlock + k → n ∈ f.blocks) :
    (served (List.replicate k .getBlock) f).map number =
      (List.range' (f.lastServedBlock + 1) k).map some := by
  induction k generalizing f with
  | zero => rfl
  | succ k ih =>
      obtain ⟨raw, found⟩ := Option.isSome_iff_exists.mp (AList.lookup_isSome.mpr
        (stored (f.lastServedBlock + 1) (Nat.lt_succ_self _) (by omega)))
      have own := filed _ _ found
      cases raw with
      | nil =>
          rw [blank] at own
          cases own
      | cons b rest =>
          have got : f.getBlock =
              ({ f with lastServedBlock := f.lastServedBlock + 1 }, some (b :: rest)) := by
            rw [getBlock, found]
          have later := ih (f := { f with lastServedBlock := f.lastServedBlock + 1 }) filed
            fun n above below => stored n (by dsimp only at above; omega) (by dsimp only at below; omega)
          rw [List.replicate_succ, served, got, List.range'_succ, List.map_cons, ← own, ← later]
          rfl

theorem catches_up_serves {f : Factory} (filed : f.Filed) (blank : number [] = none)
    (off : f.bootstrap = false) (held : ∀ n, f.lastServedBlock < n → n ≤ f.numBlock → n ∈ f.blocks)
    (last : Nat) {events : List Event} (foreign : ∀ e ∈ events, ∀ raw, e ≠ .announce raw)
    (sent : ∀ n, f.numBlock < n → n ≤ last → n ∉ f.blocks →
      (List.range' (f.numBlock + 1) (n - f.numBlock)).Sublist (arrivals events))
    {g : Factory} (reached : run events f = g) :
    (served (List.replicate (last - g.lastServedBlock) .getBlock) g).map number =
      (List.range' (g.lastServedBlock + 1) (last - g.lastServedBlock)).map some := by
  subst reached
  have comes := (catches_up_iff off last foreign).mpr sent
  have monotone := served_monotone filed events
  apply served_stored (filed_run filed events) blank
  intro n above below
  by_cases known : n ≤ f.numBlock
  · exact stored_run off events (held n (by omega) known)
  · apply comes n
    simp only [askDht, List.mem_map, List.mem_range'_1, Packet.getBlockNum.injEq, exists_eq_right]
    omega

end Wire

end Factory

namespace Sample.Wired

open Factory

def idle : Factory :=
  run [.setNumBlocks 0, .checkNumBlocks, .checkAllBlocks, .setTxPool, .checkTx] (start 0)

def exchange : List Event :=
  [.setBlock (numbered 1).raw, .getBlock, .announce (numbered 2).raw, .setBlock (numbered 3).raw]

set_option maxRecDepth 2000 in
theorem exact_exchange : idle.bootstrap = false ∧
    ∀ before after, exchange = before ++ after → (run before idle).Exact := by
  have off : idle.bootstrap = false := by decide
  refine ⟨off, (exact_iff_announced off exchange).mpr ⟨?_, ?_⟩⟩
  · rw [exact_iff]
    decide
  · -- the own block is announced after the first one was served
    intro before raw after split
    rcases before with _ | ⟨first, _ | ⟨second, _ | ⟨third, _ | ⟨fourth, rest⟩⟩⟩⟩
    all_goals simp [exchange] at split
    rcases split with ⟨rfl, rfl, -⟩
    decide

set_option maxRecDepth 2000 in
/-- The first block of a peer has come when the node announces its own one. Both are counted, and
the second block of the peer is dropped. -/
theorem counted_twice : idle.Exact ∧
    let f := run [.setBlock (numbered 1).raw, .announce (numbered 1).raw] idle
    f.lastServedBlock = 1 ∧ f.highest = 1 ∧ f.numBlock = 2 ∧
      (f.setBlock (numbered 2).raw).blocks.lookup 2 = none := by
  rw [exact_iff]
  decide

set_option maxRecDepth 2000 in
theorem catches_up_two : idle.bootstrap = false ∧
    let f := run [.setBlock (numbered 1).raw, .setBlock (numbered 2).raw] idle
    (∀ n, Packet.getBlockNum n ∈ idle.askDht (some 2) → n ∈ f.blocks) ∧
      (served [.getBlock, .getBlock] f).map number = [some 1, some 2] := by
  have off : idle.bootstrap = false := by decide
  have foreign : ∀ e ∈ [Event.setBlock (numbered 1).raw, .setBlock (numbered 2).raw],
      ∀ raw, e ≠ .announce raw := by simp
  have sent : ∀ n, idle.numBlock < n → n ≤ 2 → n ∉ idle.blocks →
      (List.range' (idle.numBlock + 1) (n - idle.numBlock)).Sublist
        (arrivals [.setBlock (numbered 1).raw, .setBlock (numbered 2).raw]) := by
    intro n above below _
    have none : idle.numBlock = 0 := by decide
    have sent : arrivals [.setBlock (numbered 1).raw, .setBlock (numbered 2).raw] = [1, 2] := by
      decide
    rw [sent, none]
    rw [none] at above
    interval_cases n
    · decide
    · decide
  refine ⟨off, (catches_up_iff off 2 foreign).mpr sent, ?_⟩
  have filed : idle.Filed := filed_run (filed_start 0)
    [.setNumBlocks 0, .checkNumBlocks, .checkAllBlocks, .setTxPool, .checkTx]
  have held : ∀ n, idle.lastServedBlock < n → n ≤ idle.numBlock → n ∈ idle.blocks := by
    intro n above below
    have none : idle.numBlock = 0 := by decide
    omega
  have last : (run [.setBlock (numbered 1).raw, .setBlock (numbered 2).raw] idle).lastServedBlock =
      0 := by decide
  have serves := catches_up_serves filed (by decide) off held 2 foreign sent rfl
  rw [last] at serves
  exact serves

theorem answers_ignored : idle.askDht (some 2) = [.getBlockNum 1, .getBlockNum 2] ∧
    let f := run [.setBlocks [(numbered 1).raw], .setBlocks [(numbered 2).raw]] idle
    1 ∉ f.blocks ∧ 2 ∉ f.blocks := by
  decide

end Sample.Wired

namespace Sample.Watched

open Sample Sample.Recovered Lib Factory

def forged : Block := blockAfter first.hash 1 2 random1 []

def decodeSample (raw : Bytes) : Option Block :=
  if raw = forged.raw then some forged else if raw = block1.raw then some block1 else none

scoped instance : Wire := ⟨decodeSample⟩

def caughtUp : Factory :=
  Factory.run [.setNumBlocks 0, .checkNumBlocks, .checkAllBlocks, .setTxPool, .checkTx]
    (Factory.start 0)

set_option maxRecDepth 2000 in
theorem raw_ne : forged.raw ≠ block1.raw := by decide

theorem decodeBlock_forged : Wire.decodeBlock forged.raw = some forged := by
  change decodeSample forged.raw = some forged
  rw [decodeSample, if_pos rfl]

theorem decodeBlock_block1 : Wire.decodeBlock block1.raw = some block1 := by
  change decodeSample block1.raw = some block1
  rw [decodeSample, if_neg raw_ne.symm, if_pos rfl]

set_option maxRecDepth 2000 in
theorem served_forged : served [.setBlock forged.raw, .getBlock] caughtUp = [forged.raw] ∧
    (Factory.run [.setBlock forged.raw, .getBlock] caughtUp).lastServedBlock = 1 ∧
    (Factory.run [.setBlock forged.raw, .getBlock] caughtUp).numBlock = 1 := by
  have none : caughtUp.numBlock = 0 ∧ caughtUp.lastServedBlock = 0 := by decide
  have own : number forged.raw = some (caughtUp.numBlock + 1) := by
    rw [number, decodeBlock_forged, none.1]
    rfl
  have full : forged.raw.head?.isSome = true := by decide
  obtain ⟨b, rest, shape⟩ : ∃ b rest, forged.raw = b :: rest := by
    cases raw : forged.raw with
    | nil =>
        rw [raw] at full
        cases full
    | cons b rest => exact ⟨b, rest, rfl⟩
  have stored := setBlock_next own
  have found : (caughtUp.setBlock forged.raw).blocks.lookup
      ((caughtUp.setBlock forged.raw).lastServedBlock + 1) = some (b :: rest) := by
    rw [stored, none.1, none.2, ← shape]
    exact AList.lookup_insert _
  have got : (caughtUp.setBlock forged.raw).getBlock = ({ caughtUp.setBlock forged.raw with
      lastServedBlock := (caughtUp.setBlock forged.raw).lastServedBlock + 1 }, some forged.raw) := by
    rw [getBlock, found, shape]
  have events : Factory.run [.setBlock forged.raw, .getBlock] caughtUp =
      (caughtUp.setBlock forged.raw).getBlock.1 := by
    rw [run_cons, run_cons, run_nil, handle, handle]
  refine ⟨?_, ?_, ?_⟩
  · simp only [served, handle, got, Option.toList_some, List.append_nil]
  · rw [events, got, stored, none.2]
  · rw [events, got, stored, none.1]

/-- The chain rejects the forged block and would take the block of the group, which no request for
a block brings any more. -/
theorem forged_uses_number : ∃ (svc : Service AddressRanges (PrefixTable Address))
    (n m : Node AddressRanges (PrefixTable Address)), svc.Reachable genesis ∧
      Node.Run op svc (fun _ _ => True) [] n ∧ n.phase = .blocks ∧
      Node.checkBlock forged n = .ok false m ∧ Node.handle op (.block 10 1 forged) n = .ok () m ∧
      Node.taken op m (.block 10 1 block1) = [block1] ∧
      served [.setBlock forged.raw, .getBlock] caughtUp = [forged.raw] ∧
      Wire.decodeBlock block1.raw = some block1 ∧ ∀ events, ∀ raw ∈ served events
        (Factory.run [.setBlock forged.raw, .getBlock, .setBlock block1.raw] caughtUp),
          number raw ≠ some 1 := by
  obtain ⟨svc, n, m, reachable, roots, found, started, atStart, turn, begun, inLoop, later, boot⟩ :=
    start_sits
  have looping : Node.Run op svc (fun _ _ => True) [] n := .start started
  have looping := looping.step .finishBootstrap turn.symm trivial begun
  have skipped : Node.checkBlock forged m = .ok false { m with signerSet := true } :=
    inLoop.skips rfl
  have still : Sits { m with signerSet := true } first :=
    ⟨inLoop.watches, inLoop.pool, inLoop.off, inLoop.out, inLoop.mine, inLoop.number, inLoop.random,
      inLoop.count, inLoop.key, inLoop.drawn⟩
  obtain ⟨-, -, -, taken, -⟩ := still.receives1 boot
  refine ⟨svc, m, _, reachable, looping, later, skipped, bind_eq_ok.mpr ⟨false, _, skipped, rfl⟩, taken,
    served_forged.1, decodeBlock_block1, fun events raw member one => ?_⟩
  have filed := filed_run (filed_run (filed_start 0) [.setNumBlocks 0, .checkNumBlocks,
    .checkAllBlocks, .setTxPool, .checkTx]) [.setBlock forged.raw, .getBlock, .setBlock block1.raw]
  obtain ⟨numbers, same, -, above⟩ := served_numbers filed events
  have listed : some 1 ∈ numbers.map some := by
    rw [← same, ← one]
    exact List.mem_map_of_mem member
  obtain ⟨number, listed, same⟩ := List.mem_map.mp listed
  cases same
  have last : (Factory.run [.setBlock forged.raw, .getBlock, .setBlock block1.raw]
      caughtUp).lastServedBlock = 1 := by
    have other := run_append [.setBlock forged.raw, .getBlock] [.setBlock block1.raw] caughtUp
    rw [List.cons_append, List.cons_append, List.nil_append] at other
    rw [other, run_cons, run_nil, handle, setBlock_other, served_forged.2.1]
    have first : block1.header.number = 1 := rfl
    rw [number, decodeBlock_block1, served_forged.2.2, Option.map_some, first]
    intro same
    cases same
  exact absurd (above 1 listed) (by rw [← last]; exact Nat.lt_irrefl _)

end Sample.Watched

end IPchain
