import IPchain.Making

/-! What becomes of the pool when a block arrives: one that is taken leaves what is not in it and
still valid, one that is refused takes its transactions along. -/

namespace IPchain

open Lib

section Removal

variable {M : Type} {same : M → M → Bool}

theorem filter_removeAll (p : M → Bool) (removed : List M) {pool : List M}
    (gone : ∀ m ∈ pool, ∀ r ∈ removed, same m r = true → p m = false) :
    (removeAll same pool removed).filter p = pool.filter p := by
  induction removed generalizing pool with
  | nil => rfl
  | cons r removed ih =>
      have shorter : (pool.eraseP fun other => same other r).filter p = pool.filter p := by
        have first : ∀ m ∈ pool, same m r = true → p m = false := by
          intro m member
          exact gone m member r List.mem_cons_self
        clear ih gone
        induction pool with
        | nil => rfl
        | cons m pool ih =>
            obtain ⟨head, tail⟩ := List.forall_mem_cons.mp first
            by_cases matched : same m r = true
            · rw [List.eraseP_cons_of_pos (by exact matched),
                List.filter_cons_of_neg (by simp [head matched])]
            · rw [List.eraseP_cons_of_neg (by exact matched), List.filter_cons, List.filter_cons,
                ih tail]
      rw [removeAll, List.foldl_cons, ← removeAll, ih ?_, shorter]
      intro m member other listed
      exact gone m (List.mem_of_mem_eraseP member) other (List.mem_cons_of_mem r listed)

theorem removeAll_eq_self_iff (pool removed : List M) :
    removeAll same pool removed = pool ↔ ∀ r ∈ removed, ∀ m ∈ pool, same m r = false := by
  induction removed with
  | nil => simp [removeAll]
  | cons r removed ih =>
      have step : removeAll same pool (r :: removed) =
          removeAll same (pool.eraseP fun other => same other r) removed := rfl
      have rest := removeAll_sublist same removed (pool.eraseP fun other => same other r)
      have whole : (pool.eraseP fun other => same other r) = pool ↔
          ∀ m ∈ pool, same m r = false := by
        rw [List.eraseP_eq_self_iff]
        simp
      rw [step, List.forall_mem_cons, ← whole, ← ih]
      constructor
      · intro kept
        rw [kept] at rest
        have first := (rest.antisymm List.eraseP_sublist).symm
        rw [first] at kept
        exact ⟨first, kept⟩
      · rintro ⟨first, others⟩
        rw [first, others]

end Removal

namespace Service

section Upkeep

variable {S R : Type} [IPSet S] [Radix R Address] [Platform] [TrieRoot] [Poststate]

/-- `validate_transaction` passes at the head. -/
def Valid (svc : Service S R) (tx : Transaction) : Prop :=
  ∃ b s, validateTransaction tx svc.chain.state = .ok b s

/-- The block passes the validation at the head, and its time has come. -/
def Takes (svc : Service S R) (block : Block) (now : Nat) : Prop :=
  (∃ s, validateBlock block svc.chain.state = .ok true s) ∧ block.header.timestamp ≤ now

def Apart (svc : Service S R) (block : Block) : Prop :=
  ∀ b ∈ block.transactions, ∀ tx ∈ svc.transactions, tx.same b = false

open Classical in
/-- The pool before and after a call of `add_block` that returns. -/
structure Tracks (svc : Service S R) (block : Block) (now depth : Nat) (svc' : Service S R) :
    Prop where
  taken : ∀ c, Chain.addBlock now depth block svc.chain = .ok true c →
    svc'.transactions = svc.transactions.filter fun tx =>
      (∀ b ∈ block.transactions, tx.same b = false) ∧ svc'.Valid tx
  kept : ∀ c, Chain.addBlock now depth block svc.chain = .ok false c →
    svc'.transactions = svc.transactions
  valid : ∀ tx ∈ svc'.transactions, svc'.Valid tx

variable {svc svc' : Service S R} {block : Block} {now depth : Nat}

omit [Radix R Address] [TrieRoot] [Poststate] in
theorem valid_iff (svc : Service S R) (tx : Transaction) :
    svc.Valid tx ↔ ∃ a V, svc.chain.state.account.book.Accepts tx a V :=
  validateTransaction_ok_iff

theorem takes_of_added {c : Chain S R}
    (called : Chain.addBlock now depth block svc.chain = .ok true c) : svc.Takes block now := by
  cases depth with
  | zero => cases called
  | succ depth =>
      simp only [Chain.addBlock] at called
      cases validated : validateBlock block svc.chain.state with
      | error e s =>
          rw [validated] at called
          cases called
      | ok b s =>
          cases validateBlock_returns validated
          rw [validated] at called
          by_cases early : now < block.header.timestamp
          · simp only [if_pos early] at called
            cases called
          · exact ⟨⟨s, validated⟩, Nat.not_lt.mp early⟩

theorem not_takes_of_refused (sane : svc.chain.Sane) {c : Chain S R}
    (called : Chain.addBlock now depth block svc.chain = .ok false c) : ¬ svc.Takes block now := by
  rintro ⟨valid, due⟩
  cases depth with
  | zero => cases called
  | succ depth =>
      have outcome := Chain.addBlock_outcome sane.anchored block now depth
      rw [called] at outcome
      cases outcome with
      | refused s queue alike early => exact absurd (early valid) (Nat.not_lt.mpr due)

open Classical in
theorem taken_filter (sane : svc.chain.Sane)
    (consonant : Consonant (svc.transactions ++ block.transactions)) {c : Chain S R}
    (called : Chain.addBlock now depth block svc.chain = .ok true c) :
    (Service.purge block { svc with chain := c }).transactions = svc.transactions.filter fun tx =>
      (∀ b ∈ block.transactions, tx.same b = false) ∧
        (Service.purge block { svc with chain := c }).Valid tx := by
  obtain ⟨s, t, p, alike, applied, rfl⟩ := sane.anchored.added called
  have pooled : Consonant svc.transactions := by
    intro t memberT u memberU
    exact consonant t (List.mem_append_left _ memberT) u (List.mem_append_left _ memberU)
  obtain ⟨pool, u, alike', chain⟩ :=
    purge_eq block { svc with chain := svc.chain.extended block t p } pooled
  have spent : ∀ tx ∈ svc.transactions, ∀ b ∈ block.transactions, tx.same b = true →
      ¬ ∃ a V, t.account.book.Accepts tx a V := by
    rintro tx memberTx b memberB same ⟨a, V, accepts⟩
    obtain ⟨a', sent, used⟩ := (applyBlock_serial applied).used b memberB
    have sender := consonant tx (List.mem_append_left _ memberTx) b
      (List.mem_append_right _ memberB) same
    rw [Transaction.origin, ← sender, accepts.signed] at sent
    cases sent
    have nonce : (t.account a).nonce = tx.nonce := accepts.nonce
    rw [(Transaction.same_fields same).1] at nonce
    exact absurd nonce (Nat.ne_of_gt used)
  have head (tx : Transaction) :
      (Service.purge block { svc with chain := svc.chain.extended block t p }).Valid tx ↔
        ∃ a V, t.account.book.Accepts tx a V := by
    rw [valid_iff, chain]
    simp only [alike'.account]
    rfl
  rw [pool, filter_removeAll]
  · apply List.filter_congr
    intro tx member
    rw [decide_eq_decide, head]
    constructor
    · intro accepts
      refine ⟨fun b listed => Bool.eq_false_iff.mpr fun same => ?_, accepts⟩
      exact spent tx member b listed same accepts
    · exact And.right
  · intro tx member b listed same
    exact decide_eq_false (spent tx member b listed same)

open Classical in
/-- A call that returns False takes the transactions of the block out of the pool, and no others. -/
theorem refused_removeAll (sane : svc.chain.Sane) (valid : ∀ tx ∈ svc.transactions, svc.Valid tx)
    (consonant : Consonant svc.transactions) {c : Chain S R}
    (called : Chain.addBlock now depth block svc.chain = .ok false c) :
    (Service.purge block { svc with chain := c }).transactions =
      removeAll Transaction.same svc.transactions block.transactions := by
  obtain ⟨s, queue, alike, rfl⟩ := sane.anchored.refused called
  obtain ⟨pool, -⟩ := purge_eq block
    { svc with chain := { svc.chain with state := s, timeQueue := queue } } consonant
  rw [pool, List.filter_eq_self]
  intro tx member
  have listed := (removeAll_sublist _ _ _).subset member
  rw [decide_eq_true_eq]
  simp only [alike.account]
  exact (valid_iff svc tx).mp (valid tx listed)

omit [Radix R Address] [TrieRoot] [Poststate] in
variable (svc block) in
theorem purge_valid (consonant : Consonant svc.transactions) :
    ∀ tx ∈ (Service.purge block svc).transactions, (Service.purge block svc).Valid tx := by
  obtain ⟨pool, s, alike, chain⟩ := purge_eq block svc consonant
  intro tx member
  rw [pool] at member
  rw [valid_iff, chain]
  simp only [alike.account]
  simpa using (List.mem_filter.mp member).2

variable [StateRoot S]

/-- The pool follows the chain when the block is taken, and otherwise only if none of its
transactions waits in the pool. -/
theorem pool_tracks_iff {g : GenesisData} {blocks : List Block}
    (reachable : svc.chain.Reachable g blocks) (valid : ∀ tx ∈ svc.transactions, svc.Valid tx)
    (consonant : Consonant (svc.transactions ++ block.transactions))
    (added : addBlock now depth block svc = .ok () svc') :
    Tracks svc block now depth svc' ↔ svc.Takes block now ∨ svc.Apart block := by
  have sane := reachable.sane
  have pooled : Consonant svc.transactions := by
    intro t memberT u memberU
    exact consonant t (List.mem_append_left _ memberT) u (List.mem_append_left _ memberU)
  obtain ⟨-, b, c, called, rfl⟩ := addBlock_eq_ok.mp added
  have still := purge_valid { svc with chain := c } block pooled
  cases b with
  | true =>
      refine iff_of_true ⟨?_, ?_, still⟩ (Or.inl (takes_of_added called))
      · intro d again
        exact taken_filter sane consonant called
      · intro d again
        rw [called] at again
        cases again
  | false =>
      have rest := refused_removeAll sane valid pooled called
      rw [or_iff_right (not_takes_of_refused sane called), Apart, ← removeAll_eq_self_iff, ← rest]
      constructor
      · exact fun tracks => tracks.kept c called
      · intro kept
        refine ⟨?_, fun d again => kept, still⟩
        intro d again
        rw [called] at again
        cases again

omit [StateRoot S] in
variable (svc now depth) in
theorem refused_of_invalid (invalid : ∀ b s, validateBlock block svc.chain.state ≠ .ok b s)
    (families : checkFamilies block.header.number block.transactions = .ok ()) :
    ∃ c, Chain.addBlock now (depth + 1) block svc.chain = .ok false c ∧
      addBlock now (depth + 1) block svc =
        .ok () (Service.purge block { svc with chain := c }) := by
  have called : ∃ c, Chain.addBlock now (depth + 1) block svc.chain = .ok false c := by
    simp only [Chain.addBlock]
    cases validated : validateBlock block svc.chain.state with
    | error e s => exact ⟨_, rfl⟩
    | ok b s => exact absurd validated (invalid b s)
  obtain ⟨c, called⟩ := called
  exact ⟨c, called, addBlock_eq_ok.mpr ⟨families, false, c, called, rfl⟩⟩

end Upkeep

end Service

namespace Sample.Recovered

open Sample

def stale (transactions : List Transaction) : Block :=
  { blockOf (give 1 (net6 0 48)) with
    header := { (blockOf (give 1 (net6 0 48))).header with timestamp := 1 }
    transactions := transactions }

theorem stale_invalid {s : State AddressRanges} {header : PrevHeader}
    (headers : s.prevHeaders = [header]) (timestamp : header.timestamp = 1)
    (transactions : List Transaction) :
    ∀ b t, validateBlock (stale transactions) s ≠ .ok b t := by
  intro b t validated
  cases validateBlock_returns validated
  obtain ⟨-, ⟨⟨newest, older, listed, -, -, later, -⟩, -⟩, -⟩ :=
    validateBlock_ok_iff.mp ⟨t, validated⟩
  change s.prevHeaders = _ at listed
  rw [headers] at listed
  cases listed
  rw [timestamp] at later
  exact absurd later (lt_irrefl 1)

/-- A block that is taken takes its transaction out of the pool. -/
theorem taken_block_tracks : ∃ (c : Chain AddressRanges (PrefixTable Address))
    (svc' : Service AddressRanges (PrefixTable Address)),
    Service.addBlock 2 1 (blockOf (give 1 (net6 0 48))) ⟨c, [give 1 (net6 0 48)]⟩ = .ok () svc' ∧
      (∃ c', Chain.addBlock 2 1 (blockOf (give 1 (net6 0 48))) c = .ok true c') ∧
      Service.Tracks ⟨c, [give 1 (net6 0 48)]⟩ (blockOf (give 1 (net6 0 48))) 2 1 svc' ∧
      svc'.transactions = [] := by
  obtain ⟨s₀, u, rows, r, c, c', -, -, started, accepts, added, -⟩ := taken_plain
  have purged : Service.addBlock 2 1 (blockOf (give 1 (net6 0 48))) ⟨c, [give 1 (net6 0 48)]⟩ =
      .ok () _ := Service.addBlock_eq_ok.mpr ⟨rfl, true, c', added, rfl⟩
  have valid : ∀ tx ∈ [give 1 (net6 0 48)],
      (⟨c, [give 1 (net6 0 48)]⟩ : Service AddressRanges (PrefixTable Address)).Valid tx := by
    intro tx member
    rw [List.mem_singleton.mp member]
    exact (Service.valid_iff _ _).mpr ⟨_, _, accepts⟩
  have consonant : Consonant ([give 1 (net6 0 48)] ++ (blockOf (give 1 (net6 0 48))).transactions) := by
    intro t memberT u memberU same
    have only : ∀ tx ∈ [give 1 (net6 0 48)] ++ (blockOf (give 1 (net6 0 48))).transactions,
        tx = give 1 (net6 0 48) := by
      intro tx member
      rcases List.mem_append.mp member with here | there
      · exact List.mem_singleton.mp here
      · exact List.mem_singleton.mp there
    rw [only t memberT, only u memberU]
  have tracks := (Service.pool_tracks_iff (.start started) valid consonant purged).mpr
    (Or.inl (Service.takes_of_added added))
  refine ⟨c, _, purged, ⟨c', added⟩, tracks, ?_⟩
  rw [tracks.taken c' added, List.filter_eq_nil_iff]
  intro tx member stays
  have same : (give 1 (net6 0 48)).same (give 1 (net6 0 48)) = true := by decide
  simp only [decide_eq_true_eq] at stays
  have apart := stays.1 _ (List.mem_singleton_self _)
  rw [List.mem_singleton.mp member, same] at apart
  cases apart

/-- A stale block takes a transaction along that waits in the pool. -/
theorem pooled_transaction_lost : ∃ (svc svc' : Service AddressRanges (PrefixTable Address)),
    svc.Reachable genesis ∧ svc.transactions = [give 1 (net6 0 48)] ∧
      (∀ tx ∈ svc.transactions, svc.Valid tx) ∧
      Service.addBlock 2 1 (stale [give 1 (net6 0 48)]) svc = .ok () svc' ∧
      (∃ c, Chain.addBlock 2 1 (stale [give 1 (net6 0 48)]) svc.chain = .ok false c) ∧
      svc'.transactions = [] ∧
      ¬ Service.Tracks svc (stale [give 1 (net6 0 48)]) 2 1 svc' := by
  obtain ⟨svc, reachable, pool, -, header, headers, timestamp⟩ :=
    pooled_of_passes (by decide)
  obtain ⟨c, called, added⟩ := Service.refused_of_invalid svc 2 0
    (stale_invalid headers timestamp [give 1 (net6 0 48)]) rfl
  have ready := reachable.ready
  have valid : ∀ tx ∈ svc.transactions, svc.Valid tx := by
    intro tx member
    exact (Service.valid_iff svc tx).mpr (ready.stocked.valid tx member)
  have rest := Service.refused_removeAll ready.sane valid
    (Consonant.of_genuine ready.stocked.genuine) called
  have empty : removeAll Transaction.same svc.transactions
      (stale [give 1 (net6 0 48)]).transactions = [] := by
    rw [pool]
    decide
  refine ⟨svc, _, reachable, pool, valid, added, ⟨c, called⟩, rest.trans empty, ?_⟩
  intro tracks
  have kept := tracks.kept c called
  rw [rest, empty, pool] at kept
  cases kept

end Sample.Recovered

end IPchain
