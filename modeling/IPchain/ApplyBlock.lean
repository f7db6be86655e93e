import IPchain.Ledger
import IPchain.Lib.Radix

/-! Validation and application of blocks, and the prefix tree that follows them. -/

namespace IPchain

open Lib Platform

def pyAssert (b : Bool) : Except PyExc Unit :=
  if b then .ok () else .error ⟨.assertionError, ""⟩

def hexText (data : Bytes) : String :=
  String.ofList ((encodeHex data).map fun c => Char.ofNat c.toNat)

namespace PatriciaState

variable {R : Type} [Radix R Address]

def setValue (patricia : R) (key : IPNetwork) (value : Address) : R := Radix.add patricia key value

/-- `search_best` returns None where no prefix contains the address. -/
def getValue (patricia : R) (key : IPAddress) : Except PyExc Address :=
  match Radix.best patricia key with
  | some row => .ok row.2
  | none => .error ⟨.attributeError, "'NoneType' object has no attribute 'data'"⟩

def setValues (patricia : R) (rows : List (IPNetwork × Address)) : R :=
  rows.foldl (fun patricia row => setValue patricia row.1 row.2) patricia

theorem getValue_eq_ok {patricia : R} {x : IPAddress} {a : Address} :
    getValue patricia x = .ok a ↔ Radix.lookup patricia x = some a := by
  simp only [getValue, Radix.lookup]
  cases Radix.best patricia x <;> simp

end PatriciaState

section Header

variable [Platform]

def validateHeader (s : AuxVars) (header : BlockHeader) : Except PyExc Bool :=
  match s.prevHeaders with
  | [] => .error ⟨.indexError, "list index out of range"⟩
  | parent :: _ =>
      if header.prevhash ≠ parent.hash then
        .error ⟨.valueError, "Block's prevhash and parent's hash do not match: block prevhash " ++
          hexText header.prevhash ++ " parent hash " ++ hexText parent.hash⟩
      else if header.number ≠ parent.number + 1 then
        .error ⟨.valueError, "Block's number is not the successor of its parent number"⟩
      else if header.timestamp ≤ parent.timestamp then
        .error ⟨.valueError, "Timestamp equal to or before parent"⟩
      else if 2 ^ 256 ≤ header.timestamp then
        .error ⟨.valueError, "Timestamp waaaaaaaaaaayy too large"⟩
      else .ok true

def validateTransactionTree [TrieRoot] (block : Block) : Except PyExc Bool :=
  if block.header.txRoot ≠ mkTransactionSha block.transactions then
    .error ⟨.valueError, "Transaction root mismatch: header " ++ hexText block.header.txRoot ++
      " computed " ++ hexText (mkTransactionSha block.transactions) ++ ", " ++
      toString block.transactions.length ++ " transactions"⟩
  else .ok true

/-- The header extends the newest one that the state knows. -/
def Follows (s : AuxVars) (header : BlockHeader) : Prop :=
  ∃ parent older, s.prevHeaders = parent :: older ∧ header.prevhash = parent.hash ∧
    header.number = parent.number + 1 ∧ parent.timestamp < header.timestamp ∧
    header.timestamp < 2 ^ 256

theorem validateHeader_cases (s : AuxVars) (header : BlockHeader) :
    (Follows s header ∧ validateHeader s header = .ok true) ∨
      (¬ Follows s header ∧ ∃ e, validateHeader s header = .error e) := by
  simp only [validateHeader, Follows]
  cases s.prevHeaders with
  | nil => simp
  | cons parent older =>
      simp only [List.cons.injEq]
      grind

omit [Platform] in
theorem validateTransactionTree_cases [TrieRoot] (block : Block) :
    (block.header.txRoot = mkTransactionSha block.transactions ∧
      validateTransactionTree block = .ok true) ∨
      (block.header.txRoot ≠ mkTransactionSha block.transactions ∧
        ∃ e, validateTransactionTree block = .error e) := by
  simp only [validateTransactionTree]
  split
  · rename_i differs
    exact Or.inr ⟨differs, _, rfl⟩
  · rename_i same
    exact Or.inl ⟨not_not.mp same, rfl⟩

end Header

section Store

variable {σ S : Type} [IPSet S] [AccountStore σ S] [Platform]

def validateTransactions : List Transaction → EStateM PyExc σ Bool
  | [] => pure true
  | tx :: rest => do
      let valid ← validateTransaction tx
      if valid = true then validateTransactions rest else pure false

/-- The loop of `apply_block`, with the dictionary of new rows. -/
def applyTransactions : List Transaction → Cached → EStateM PyExc σ Cached
  | [], cached => pure cached
  | tx :: rest, cached => do
      let r ← applyTransaction tx cached
      applyTransactions rest r.2

end Store

section Block

variable {S : Type} [IPSet S] [Platform]

def verifyBlockSignature (block : Block) (ip : IPAddress) : EStateM PyExc (State S) Bool :=
  match block.signer with
  | .error e =>
      if e.isInstance .attributeError then raised ⟨.unsignedBlock, ""⟩ else raised e
  | .ok signer => do
      let balance ← getBalance signer
      if balance.inOwnIps (IPNetwork.ofAddress ip) then pure true
      else raised ⟨.invalidBlockSigner, ""⟩

variable [TrieRoot]

def basicValidation (block : Block) : EStateM PyExc (State S) Unit := fun s =>
  lift (do
    let header ← validateHeader s.toAuxVars block.header
    pyAssert header
    let tree ← validateTransactionTree block
    pyAssert tree) s

def validateBlock (block : Block) : EStateM PyExc (State S) Bool := do
  let signer ← lift block.signer
  if signer = nullAddress then raised ⟨.unsignedTransaction, ""⟩
  else do
    basicValidation block
    validateTransactions block.transactions

/-- What `apply_block` does to the state inside of `try`. -/
def processBlock (block : Block) : EStateM PyExc (State S) Cached := do
  basicValidation block
  let cached ← applyTransactions block.transactions ∅
  fun s => .ok cached (s.addBlockHeader block.header)

def cachedRows (cached : Cached) : List (IPNetwork × Address) :=
  Platform.items (cached.entries.map fun row => (row.1, row.2))

/-- Only a ValueError or an AssertionError makes it revert. -/
def applyBlock {R : Type} [Radix R Address] (block : Block) : EStateM PyExc (State S × R) Unit :=
  fun (s, patricia) =>
    match processBlock block s with
    | .ok cached t => .ok () (t, PatriciaState.setValues patricia (cachedRows cached))
    | .error e t =>
        if e.caught then
          match State.revert s.snapshot t with
          | .ok () t => .error e (t, patricia)
          | .error e' t => .error e' (t, patricia)
        else .error e (t, patricia)

/-- The block extends the newest header and carries the root of its transactions. -/
def Based (s : AuxVars) (block : Block) : Prop :=
  Follows s block.header ∧ block.header.txRoot = mkTransactionSha block.transactions

theorem basicValidation_cases (block : Block) (s : State S) :
    (Based s.toAuxVars block ∧ basicValidation block s = .ok () s) ∨
      (¬ Based s.toAuxVars block ∧ ∃ e, basicValidation block s = .error e s) := by
  rcases validateHeader_cases s.toAuxVars block.header with ⟨follows, header⟩ | ⟨strays, e, header⟩
  · rcases validateTransactionTree_cases block with ⟨root, tree⟩ | ⟨differs, e, tree⟩
    · refine Or.inl ⟨⟨follows, root⟩, ?_⟩
      rw [basicValidation, header, tree]
      rfl
    · refine Or.inr ⟨fun based => differs based.2, e, ?_⟩
      rw [basicValidation, header, tree]
      rfl
  · refine Or.inr ⟨fun based => strays based.1, e, ?_⟩
    rw [basicValidation, header]
    rfl

theorem basicValidation_eq_ok {block : Block} {s t : State S} :
    basicValidation block s = .ok () t ↔ Based s.toAuxVars block ∧ t = s := by
  rcases basicValidation_cases block s with ⟨based, run⟩ | ⟨unbased, e, run⟩ <;> rw [run]
  · simp [based, eq_comm]
  · simp [unbased]

theorem processBlock_eq_ok {block : Block} {s t : State S} {cached : Cached} :
    processBlock block s = .ok cached t ↔ Based s.toAuxVars block ∧ ∃ u,
      applyTransactions block.transactions ∅ s = .ok cached u ∧ t = u.addBlockHeader block.header := by
  rw [processBlock, bind_eq_ok]
  constructor
  · rintro ⟨_, _, based, run⟩
    obtain ⟨based, rfl⟩ := basicValidation_eq_ok.mp based
    obtain ⟨c, u, applied, run⟩ := bind_eq_ok.mp run
    cases run
    exact ⟨based, u, applied, rfl⟩
  · rintro ⟨based, u, applied, rfl⟩
    exact ⟨(), s, basicValidation_eq_ok.mpr ⟨based, rfl⟩, bind_eq_ok.mpr ⟨cached, u, applied, rfl⟩⟩

theorem applyBlock_eq_ok {R : Type} [Radix R Address] {block : Block} {s t : State S} {p q : R} :
    applyBlock block (s, p) = .ok () (t, q) ↔ Based s.toAuxVars block ∧ ∃ cached u,
      applyTransactions block.transactions ∅ s = .ok cached u ∧
        t = u.addBlockHeader block.header ∧ q = PatriciaState.setValues p (cachedRows cached) := by
  have shape : applyBlock block (s, p) = .ok () (t, q) ↔ ∃ cached,
      processBlock block s = .ok cached t ∧ q = PatriciaState.setValues p (cachedRows cached) := by
    simp only [applyBlock]
    split
    · rename_i cached u run
      simp [run, eq_comm]
    · rename_i e u run
      split
      · split <;> simp [run]
      · simp [run]
  simp only [shape, processBlock_eq_ok]
  constructor
  · rintro ⟨cached, ⟨based, u, applied, rfl⟩, rfl⟩
    exact ⟨based, cached, u, applied, rfl, rfl⟩
  · rintro ⟨based, cached, u, applied, rfl, rfl⟩
    exact ⟨cached, ⟨based, u, applied, rfl⟩, rfl⟩

theorem processBlock_eq_error {block : Block} {s t : State S} {e : PyExc} :
    processBlock block s = .error e t ↔ basicValidation block s = .error e t ∨
      Based s.toAuxVars block ∧ applyTransactions block.transactions ∅ s = .error e t := by
  rw [processBlock, bind_eq_error]
  refine or_congr Iff.rfl ?_
  constructor
  · rintro ⟨_, u, checked, run⟩
    obtain ⟨based, rfl⟩ := basicValidation_eq_ok.mp checked
    rcases bind_eq_error.mp run with failed | ⟨cached, v, -, added⟩
    · exact ⟨based, failed⟩
    · cases added
  · rintro ⟨based, failed⟩
    exact ⟨(), s, basicValidation_eq_ok.mpr ⟨based, rfl⟩, bind_eq_error.mpr (Or.inl failed)⟩

/-- What an unsuccessful `apply_block` leaves: the state it found, or whatever the loop left
when its exception is not caught. -/
theorem applyBlock_eq_error {R : Type} [Radix R Address] {block : Block} {s t : State S} {p q : R}
    {e : PyExc} (quiet : s.journal = []) (run : applyBlock block (s, p) = .error e (t, q)) :
    q = p ∧ (t.toAuxVars = s.toAuxVars ∧ t.account = s.account ∨ Based s.toAuxVars block ∧
      e.caught = false ∧ applyTransactions block.transactions ∅ s = .error e t) := by
  simp only [applyBlock] at run
  cases processed : processBlock block s with
  | ok cached u =>
      simp only [processed] at run
      cases run
  | error e' u =>
      obtain ⟨v, reverted, account, auxvars, -⟩ := State.revert_snapshot s u quiet
      simp only [processed, reverted] at run
      split at run
      · cases run
        exact ⟨rfl, Or.inl ⟨auxvars, account⟩⟩
      · rename_i uncaught
        cases run
        refine ⟨rfl, ?_⟩
        rcases processBlock_eq_error.mp processed with refused | ⟨based, failed⟩
        · rcases basicValidation_cases block s with ⟨-, passed⟩ | ⟨-, e', refused'⟩
          · rw [passed] at refused
            cases refused
          · rw [refused'] at refused
            cases refused
            exact Or.inl ⟨rfl, rfl⟩
        · exact Or.inr ⟨based, eq_false_of_ne_true uncaught, failed⟩

theorem applyBlock_of_error {R : Type} [Radix R Address] {block : Block} {s t : State S} {e : PyExc}
    (p : R) (based : Based s.toAuxVars block) (uncaught : e.caught = false)
    (failed : applyTransactions block.transactions ∅ s = .error e t) :
    applyBlock block (s, p) = .error e (t, p) := by
  have processed := processBlock_eq_error.mpr (Or.inr ⟨based, failed⟩)
  simp [applyBlock, processed, uncaught]

section Preserved

variable {τ : Type} {f : State S → τ} (reads : ∀ s a, f (s.getAndCacheAccount a).2 = f s)

include reads

omit [Platform] [TrieRoot] in
theorem preserves_getBalance (a : Address) :
    Preserves f (getBalance a : EStateM PyExc (State S) (Balance S)) := fun s => reads s a

omit [Platform] [TrieRoot] in
theorem preserves_getNonce (a : Address) :
    Preserves f (getNonce a : EStateM PyExc (State S) Nat) := fun s => reads s a

omit [TrieRoot] in
theorem preserves_validateTransaction (tx : Transaction) :
    Preserves f (validateTransaction tx : EStateM PyExc (State S) Bool) := by
  refine (Preserves.lift _).bind fun sender => Preserves.ite (Preserves.raised _) ?_
  refine (preserves_getNonce reads sender).bind fun reqNonce => Preserves.ite (Preserves.raised _) ?_
  refine Preserves.ite (Preserves.raised _) ((preserves_getBalance reads sender).bind fun balance => ?_)
  refine (Preserves.lift _).bind fun value => ?_
  exact Preserves.ite (Preserves.raised _) (Preserves.pure true)

omit [TrieRoot] in
theorem preserves_validateTransactions (txs : List Transaction) :
    Preserves f (validateTransactions txs : EStateM PyExc (State S) Bool) := by
  induction txs with
  | nil => exact Preserves.pure true
  | cons tx txs ih =>
      refine (preserves_validateTransaction reads tx).bind fun valid => ?_
      exact Preserves.ite ih (Preserves.pure false)

omit reads in
theorem preserves_basicValidation (block : Block) :
    Preserves f (basicValidation block : EStateM PyExc (State S) Unit) :=
  fun s => Preserves.lift _ s

theorem preserves_validateBlock (block : Block) :
    Preserves f (validateBlock block : EStateM PyExc (State S) Bool) := by
  refine (Preserves.lift _).bind fun signer => Preserves.ite (Preserves.raised _) ?_
  refine (preserves_basicValidation block).bind fun _ => ?_
  exact preserves_validateTransactions reads block.transactions

end Preserved

end Block

/-! What reads and writes of balances leave alone, a transaction that raises has left alone,
since it comes to its nonce last. -/

section Spared

variable {S : Type} [IPSet S] {τ : Type} {f : State S → τ}
  (reads : ∀ s a, f (s.getAndCacheAccount a).2 = f s)
  (writes : ∀ s a b, f (s.setBalance a b) = f s)

include writes in
theorem preserves_setBalance (a : Address) (b : Balance S) :
    Preserves f (setBalance a b : EStateM PyExc (State S) Unit) := fun s => writes s a b

include reads writes

theorem preserves_reclaim (sender : Address) (affected : List (Address × S)) (b : Balance S) :
    Preserves f (reclaim sender affected b : EStateM PyExc (State S) (Balance S)) := by
  induction affected generalizing b with
  | nil => exact Preserves.pure b
  | cons head tail ih =>
      refine (Preserves.lift _).bind fun senderBalance => ?_
      refine (preserves_getBalance reads _).bind fun receivedBalance => ?_
      refine (Preserves.lift _).bind fun receivedBalance => ?_
      exact (preserves_setBalance writes _ receivedBalance).bind fun _ => ih senderBalance

omit reads writes in
theorem spares_incrementNonce {α : Type} (a : Address) (r : α) :
    Spares f (incrementNonce a >>= fun _ => pure r : EStateM PyExc (State S) α) :=
  Spares.returns fun _ => ⟨_, _, rfl⟩

variable [Platform]

theorem spares_moveIps (tx : Transaction) (debit credit : Address → IPNetwork → Balance S →
    Balance S) (cached : Cached) :
    Spares f (moveIps tx debit credit cached : EStateM PyExc (State S) Cached) := by
  refine Spares.bind (Preserves.lift _) fun sender => Spares.bind (Preserves.lift _) fun value => ?_
  refine Spares.bind (Preserves.lift _) fun holder => ?_
  refine Spares.bind (preserves_getBalance reads sender) fun balance => ?_
  refine Spares.bind (Preserves.lift _) fun affected => ?_
  refine Spares.bind (preserves_reclaim reads writes sender _ balance) fun senderBalance => ?_
  refine Spares.bind (preserves_getBalance reads holder) fun toBalance => ?_
  refine Spares.bind (preserves_setBalance writes holder _) fun _ => ?_
  exact Spares.bind (preserves_setBalance writes sender _) fun _ => spares_incrementNonce _ _

theorem spares_setMapping (tx : Transaction) (cached : Cached)
    (set : Balance S → List Bytes → Except PyExc (Balance S)) :
    Spares f (setMapping tx set >>= fun _ => pure cached : EStateM PyExc (State S) Cached) := by
  have written : Spares f (setMapping tx set : EStateM PyExc (State S) Unit) := by
    refine Spares.bind (Preserves.lift _) fun sender => ?_
    refine Spares.bind (preserves_getBalance reads sender) fun balance => ?_
    refine Spares.bind (Preserves.lift _) fun senderBalance => ?_
    exact Spares.bind (preserves_setBalance writes sender _) fun _ => Spares.returns fun _ =>
      ⟨_, _, rfl⟩
  intro s s' e failed
  rcases bind_eq_error.mp failed with early | ⟨_, t, -, late⟩
  · exact written s s' e early
  · cases late

theorem spares_applyTransaction (tx : Transaction) (cached : Cached) :
    Spares f (applyTransaction tx cached : EStateM PyExc (State S) (Bool × Cached)) := by
  have performed : Spares f (perform tx cached : EStateM PyExc (State S) Cached) := by
    refine Spares.ite (spares_moveIps reads writes tx _ _ cached) ?_
    refine Spares.ite (spares_moveIps reads writes tx _ _ cached) ?_
    refine Spares.ite (spares_setMapping reads writes tx cached _) ?_
    exact Spares.ite (spares_setMapping reads writes tx cached _) (Spares.returns fun _ =>
      ⟨_, _, rfl⟩)
  refine Spares.bind (preserves_validateTransaction reads tx) fun _ => ?_
  intro s s' e failed
  rcases bind_eq_error.mp failed with early | ⟨_, t, -, late⟩
  · exact performed s s' e early
  · cases late

end Spared

section Headers

variable {S : Type} [IPSet S]

theorem preserves_incrementNonce (a : Address) :
    Preserves State.toAuxVars (incrementNonce a : EStateM PyExc (State S) Unit) :=
  fun s => s.toAuxVars_setParam a fun account => .nonce (account.nonce + 1)

theorem preserves_commit : Preserves State.toAuxVars (commit : EStateM PyExc (State S) Unit) :=
  fun _ => rfl

theorem State.toAuxVars_setBalance (s : State S) (a : Address) (b : Balance S) :
    (s.setBalance a b).toAuxVars = s.toAuxVars := s.toAuxVars_setParam a fun _ => .balance b

variable [Platform]

theorem preserves_moveIps (tx : Transaction) (debit credit : Address → IPNetwork → Balance S →
    Balance S) (cached : Cached) : Preserves State.toAuxVars
      (moveIps tx debit credit cached : EStateM PyExc (State S) Cached) := by
  refine (Preserves.lift _).bind fun sender => (Preserves.lift _).bind fun value => ?_
  refine (Preserves.lift _).bind fun holder => ?_
  refine (preserves_getBalance State.toAuxVars_getAndCacheAccount sender).bind fun balance => ?_
  refine (Preserves.lift _).bind fun affected => ?_
  refine (preserves_reclaim State.toAuxVars_getAndCacheAccount State.toAuxVars_setBalance sender _
    balance).bind fun senderBalance => ?_
  refine (preserves_getBalance State.toAuxVars_getAndCacheAccount holder).bind fun toBalance => ?_
  refine (preserves_setBalance State.toAuxVars_setBalance holder _).bind fun _ => ?_
  refine (preserves_setBalance State.toAuxVars_setBalance sender _).bind fun _ => ?_
  exact (preserves_incrementNonce sender).bind fun _ => Preserves.pure _

theorem preserves_setMapping (tx : Transaction)
    (set : Balance S → List Bytes → Except PyExc (Balance S)) :
    Preserves State.toAuxVars (setMapping tx set : EStateM PyExc (State S) Unit) := by
  refine (Preserves.lift _).bind fun sender => ?_
  refine (preserves_getBalance State.toAuxVars_getAndCacheAccount sender).bind fun balance => ?_
  refine (Preserves.lift _).bind fun senderBalance => ?_
  exact (preserves_setBalance State.toAuxVars_setBalance sender _).bind fun _ => preserves_incrementNonce sender

theorem preserves_applyTransaction (tx : Transaction) (cached : Cached) :
    Preserves State.toAuxVars
      (applyTransaction tx cached : EStateM PyExc (State S) (Bool × Cached)) := by
  refine (preserves_validateTransaction State.toAuxVars_getAndCacheAccount tx).bind fun _ => ?_
  have mapped (set : Balance S → List Bytes → Except PyExc (Balance S)) :=
    (preserves_setMapping tx set).bind fun _ => Preserves.pure (f := State.toAuxVars) cached
  refine Preserves.bind ?_ fun cached => preserves_commit.bind fun _ => Preserves.pure _
  refine Preserves.ite (preserves_moveIps tx _ _ cached) ?_
  refine Preserves.ite (preserves_moveIps tx _ _ cached) ?_
  exact Preserves.ite (mapped _) (Preserves.ite (mapped _) (Preserves.pure cached))

theorem preserves_applyTransactions (txs : List Transaction) (cached : Cached) :
    Preserves State.toAuxVars
      (applyTransactions txs cached : EStateM PyExc (State S) Cached) := by
  induction txs generalizing cached with
  | nil => exact Preserves.pure cached
  | cons tx txs ih => exact (preserves_applyTransaction tx cached).bind fun r => ih r.2

theorem Commutes.applyTransactions {σ τ : Type} [AccountStore σ S] [AccountStore τ S] {f : σ → τ}
    (commutes : Commutes f) (txs : List Transaction) (cached : Cached) :
    Simulates f (applyTransactions txs cached : EStateM PyExc σ Cached)
      (applyTransactions txs cached) := by
  induction txs generalizing cached with
  | nil => exact Simulates.pure cached
  | cons tx txs ih => exact (commutes.applyTransaction tx cached).bind fun r => ih r.2

theorem simulates_applyTransactions (txs : List Transaction) (cached : Cached) :
    Simulates State.account (applyTransactions txs cached : EStateM PyExc (State S) Cached)
      (applyTransactions txs cached) := commutes_account.applyTransactions txs cached

theorem applyTransactions_quiet {txs : List Transaction} {cached c : Cached} {s s' : State S}
    (run : applyTransactions txs cached s = .ok c s') (quiet : s.journal = []) :
    s'.journal = [] := by
  induction txs generalizing cached s with
  | nil =>
      cases run
      exact quiet
  | cons tx txs ih =>
      obtain ⟨r, t, applied, run⟩ := bind_eq_ok.mp run
      obtain ⟨_, _, -, applied⟩ := bind_eq_ok.mp applied
      obtain ⟨_, u, -, committed⟩ := bind_eq_ok.mp applied
      cases committed
      exact ih run rfl

end Headers

end IPchain
