import IPchain.Lib.Advance
import IPchain.Moves

/-! The shares that a node takes from the network. -/

namespace IPchain

open Lib Platform

namespace Node

section Relays

variable {S R : Type} [IPSet S]

/-- What was sent stays sent, and the new shares among it are of one kind. The shares for later
blocks stay where they are, and no iteration gets past the shares. -/
structure Relays (made : Share → Prop) (n m : Node S R) : Prop where
  sent : ∀ share, Message.share share ∈ n.sent → Message.share share ∈ m.sent
  new : ∀ share, Message.share share ∈ m.sent → Message.share share ∈ n.sent ∨ made share
  future : m.cache.blsFutureShares = n.cache.blsFutureShares
  watch : m.phase = .watch → n.phase = .watch

variable {made : Share → Prop}

instance : IsPreorder (Node S R) (Relays made) where
  refl _ := ⟨fun _ sent => sent, fun _ sent => Or.inl sent, rfl, fun watch => watch⟩
  trans _ _ _ first second := ⟨fun share sent => second.sent share (first.sent share sent),
    fun share sent => (second.new share sent).elim (first.new share) Or.inr,
    second.future.trans first.future, fun watch => first.watch (second.watch watch)⟩

theorem relays_said {n m : Node S R} {messages : List Message}
    (sent : m.sent = n.sent ++ messages)
    (shares : ∀ share, Message.share share ∈ messages → made share)
    (future : m.cache.blsFutureShares = n.cache.blsFutureShares)
    (watch : m.phase = .watch → n.phase = .watch) : Relays made n m := by
  refine ⟨fun share old => ?_, fun share mem => ?_, future, watch⟩
  · rw [sent]
    exact List.mem_append_left _ old
  · rw [sent] at mem
    exact (List.mem_append.mp mem).imp_right (shares share)

theorem relays_same {n m : Node S R} (sent : m.sent = n.sent)
    (future : m.cache.blsFutureShares = n.cache.blsFutureShares)
    (watch : m.phase = .watch → n.phase = .watch) : Relays made n m :=
  relays_said (sent.trans (List.append_nil _).symm) (fun _ mem => nomatch mem) future watch

omit [IPSet S] in
theorem foldl_future {α : Type} {f : ShareCache → α → ShareCache}
    (keeps : ∀ cache a, (f cache a).blsFutureShares = cache.blsFutureShares) (items : List α)
    (cache : ShareCache) : (items.foldl f cache).blsFutureShares = cache.blsFutureShares := by
  induction items generalizing cache with
  | nil => rfl
  | cons a items ih => exact (ih _).trans (keeps cache a)

theorem cleared_future (cache : ShareCache) (now : Nat) :
    ∃ c, cache.cleared now = c ∧ c.blsFutureShares = cache.blsFutureShares := by
  refine ⟨_, rfl, ?_⟩
  unfold ShareCache.cleared
  generalize ShareCache.clearingInterval = interval
  split
  · rfl
  · rfl

theorem storeBls_future (cache : ShareCache) (now : Nat) (share : Share) :
    (cache.storeBls now share).blsFutureShares = cache.blsFutureShares := by
  obtain ⟨c, cleared, kept⟩ := cleared_future cache now
  rw [ShareCache.storeBls, cleared]
  exact kept

theorem storeDkg_future (cache : ShareCache) (now : Nat) (share : DkgShare) :
    (cache.storeDkg now share).blsFutureShares = cache.blsFutureShares := by
  obtain ⟨c, cleared, kept⟩ := cleared_future cache now
  rw [ShareCache.storeDkg, cleared]
  exact kept

theorem relays_send (now : Nat) {shares : List Share} (new : ∀ share ∈ shares, made share)
    (n : Node S R) : Relays made n (send now shares n) :=
  relays_said rfl (fun share mem => new share (by simpa using mem))
    (foldl_future (f := fun cache share => cache.storeBls now share)
      (fun cache share => storeBls_future cache now share) shares n.cache) fun watch => watch

theorem relays_sendDkg (now : Nat) (shares : List DkgShare) (n : Node S R) :
    Relays made n (sendDkg now shares n) :=
  relays_said rfl (by simp) (foldl_future (f := fun cache share => cache.storeDkg now share)
    (fun cache share => storeDkg_future cache now share) shares n.cache) fun watch => watch

variable {α : Type}

theorem relays_onService (x : EStateM PyExc (Service S R) α) :
    Advances (Relays made) (onService x : EStateM PyExc (Node S R) α) := by
  intro n
  simp only [onService]
  split
  · exact relays_same rfl rfl fun watch => watch
  · exact relays_same rfl rfl fun watch => watch

theorem relays_onConsensus (x : EStateM PyExc Consensus α) :
    Advances (Relays made) (onConsensus x : EStateM PyExc (Node S R) α) := by
  intro n
  simp only [onConsensus]
  split
  · exact relays_same rfl rfl fun watch => watch
  · exact relays_same rfl rfl fun watch => watch

theorem relays_asks (f : Chain S R → Except PyExc α) :
    Advances (Relays made) (asks f : EStateM PyExc (Node S R) α) := by
  intro n
  simp only [asks]
  split
  · exact refl_of (Relays made) n
  · exact refl_of (Relays made) n

theorem relays_update {f : Node S R → Node S R} (relays : ∀ n, Relays made n (f n)) :
    Advances (Relays made) (update f) := relays

theorem relays_phase (n : Node S R) {phase : Phase} (early : phase ≠ .watch) :
    Relays made n (n.enter phase) :=
  relays_same rfl rfl fun watch => (early watch).elim

theorem relays_enter {phase : Phase} (early : phase ≠ .watch) :
    Advances (Relays made) (update (enter phase) : EStateM PyExc (Node S R) _) :=
  relays_update fun n => relays_phase n early

theorem relays_still {f : Node S R → Node S R} (sent : ∀ n, (f n).sent = n.sent)
    (cache : ∀ n, (f n).cache = n.cache) (phase : ∀ n, (f n).phase = n.phase) :
    Advances (Relays made) (update f) := by
  refine relays_update fun n => relays_same (sent n) ?_ ?_
  · rw [cache]
  · rw [phase]
    exact fun watch => watch

theorem relays_orSkip {skips : PyExc → Bool} {x : EStateM PyExc (Node S R) Bool}
    (relays : Advances (Relays made) x) : Advances (Relays made) (orSkip skips x) := by
  intro n
  have step := relays n
  simp only [orSkip]
  cases run : x n with
  | ok res m =>
      rw [run] at step
      exact step
  | error e m =>
      rw [run] at step
      dsimp only
      split
      · exact step
      · exact step

end Relays

section Blocks

variable {S R : Type} [IPSet S] [FirstAddress S] {made : Share → Prop}

theorem relays_extractFirst (address : Address) :
    Advances (Relays made) (extractFirstIpFromAddress address : EStateM PyExc (Node S R) _) :=
  (relays_onService _).bind fun _ => Advances.pure _

variable [Radix R Address] [Platform]

omit [FirstAddress S] in
theorem relays_verifySigner (block : Block) (signer : Option IPAddress) :
    Advances (Relays made) (verifySigner block signer : EStateM PyExc (Node S R) _) := by
  cases signer with
  | none => exact Advances.raised _
  | some signer => exact (relays_asks _).bind fun _ => relays_onService _

variable [Hashlib] [Bls]

omit [Radix R Address] [Platform] [Hashlib] [Bls] in
theorem relays_extractSet (address : Option Address) : Advances (Relays made) (match address with
    | none => raised ⟨.unboundLocalError,
        "local variable 'signing_addr' referenced before assignment"⟩
    | some address => extractFirstIpFromAddress address : EStateM PyExc (Node S R) _) := by
  cases address with
  | none => exact Advances.raised _
  | some address => exact relays_extractFirst address

omit [Radix R Address] [Platform] in
theorem relays_expectedSigner (block : Block) :
    Advances (Relays made) (expectedSigner block : EStateM PyExc (Node S R) _) := by
  intro n
  have signing : Advances (Relays made) _ := relays_extractSet (S := S) (R := R) n.signingAddr
  have set (n : Node S R) : Relays made n { n with signerSet := true } :=
    relays_same rfl rfl fun watch => watch
  have left (n : Node S R) : Relays made n { n with exitFromDkg := false } :=
    relays_same rfl rfl fun watch => watch
  refine trans_of (Relays made) (set n) ?_
  simp only [expectedSigner]
  split
  · exact refl_of (Relays made) _
  · split
    · split
      · exact left _
      · exact trans_of (Relays made) (left _) (signing _)
    · split
      · refine Advances.bind signing (fun _ => Advances.bind ?_ fun _ => ?_) _
        · exact relays_still (fun _ => rfl) (fun _ => rfl) fun _ => rfl
        · exact Advances.pure _
      · exact refl_of (Relays made) _

theorem relays_checkBlock (block : Block) :
    Advances (Relays made) (checkBlock block : EStateM PyExc (Node S R) _) :=
  relays_orSkip ((relays_expectedSigner block).bind fun _ => relays_verifySigner block _)

variable [NodeConfig]

omit [FirstAddress S] [Radix R Address] in
theorem relays_newRound (now : Nat) :
    Advances (Relays fun _ => True) (newRound now : EStateM PyExc (Node S R) _) := by
  intro n
  simp only [newRound]
  split
  · have emptied : Relays (fun _ => True) n { n with count := 0 } :=
      relays_same rfl rfl fun watch => watch
    refine trans_of (Relays _) emptied (Advances.bind (relays_onConsensus _) (fun shares => ?_) _)
    exact relays_update fun n => relays_send now (fun _ _ => trivial) n
  · exact refl_of (Relays _) n

variable [TrieRoot] [Poststate] (op : Operator)

omit [FirstAddress S] in
theorem relays_adoptBlock (now depth : Nat) (block : Block) :
    Advances (Relays fun _ => True) (adoptBlock op now depth block : EStateM PyExc (Node S R) _) := by
  apply Advances.bind (relays_onService _)
  intro _
  apply Advances.bind (relays_asks _)
  intro head
  refine Advances.bind (x := update _) ?_ fun _ => ?_
  · exact relays_still (fun _ => rfl) (fun _ => rfl) fun _ => rfl
  refine Advances.bind (relays_update fun n => ?_) fun _ => ?_
  · split
    · exact relays_same rfl rfl fun watch => watch
    · exact refl_of (Relays _) n
  · apply Advances.bind (relays_onConsensus _)
    intro _
    refine Advances.bind (x := update _) ?_ fun _ => ?_
    · exact relays_still (fun _ => rfl) (fun _ => rfl) fun _ => rfl
    exact relays_newRound now

theorem relays_receiveBlock (now depth : Nat) (block : Block) :
    Advances (Relays fun _ => True) (receiveBlock op now depth block : EStateM PyExc (Node S R) _) := by
  refine (relays_checkBlock block).bind fun res => ?_
  cases res with
  | true => exact relays_adoptBlock op now depth block
  | false => exact Advances.pure _

variable [TrieKeys S]

omit [TrieRoot] [Poststate] [Radix R Address] [Bls] in
theorem relays_bootstrapSigner (block : Block) :
    Advances (Relays made) (bootstrapSigner op block : EStateM PyExc (Node S R) _) := by
  intro n
  simp only [bootstrapSigner]
  split
  · refine Advances.bind (relays_asks _) (fun group => Advances.bind (Advances.lift _) fun address =>
      Advances.bind (relays_extractFirst address) fun signer => Advances.bind ?_ fun _ => ?_) n
    · exact relays_still (fun _ => rfl) (fun _ => rfl) fun _ => rfl
    · exact Advances.pure _
  · exact refl_of (Relays made) n

omit [TrieRoot] [Poststate] in
theorem relays_checkBootstrap (block : Block) :
    Advances (Relays made) (checkBootstrap op block : EStateM PyExc (Node S R) _) := by
  refine relays_orSkip ((relays_bootstrapSigner op block).bind fun signer n => ?_)
  split
  · exact refl_of (Relays made) n
  · split
    · exact refl_of (Relays made) n
    · exact relays_verifySigner block signer n

omit [FirstAddress S] [Bls] [NodeConfig] [TrieKeys S] [Hashlib] in
theorem relays_adoptBootstrap (now depth : Nat) (block : Block) :
    Advances (Relays made) (adoptBootstrap now depth block : EStateM PyExc (Node S R) _) := by
  apply Advances.bind (relays_onService _)
  intro _
  refine Advances.bind (x := update _) ?_ fun _ => ?_
  · exact relays_still (fun _ => rfl) (fun _ => rfl) fun _ => rfl
  exact relays_onConsensus _

theorem relays_bootstrapBlock (now depth : Nat) (block : Block) :
    Advances (Relays made) (bootstrapBlock op now depth block : EStateM PyExc (Node S R) _) := by
  refine (relays_checkBootstrap op block).bind fun res => ?_
  cases res with
  | true => exact relays_adoptBootstrap now depth block
  | false => exact Advances.pure _

omit [FirstAddress S] [Radix R Address] [Hashlib] [Bls] [TrieRoot] [Poststate] [TrieKeys S] in
theorem relays_finishBootstrap :
    Advances (Relays made) (finishBootstrap op : EStateM PyExc (Node S R) _) := by
  refine (relays_asks _).bind fun head => (relays_asks _).bind fun _ => relays_update fun n => ?_
  exact relays_same rfl rfl fun watch => by cases watch

end Blocks

section Loop

variable {S R : Type} [IPSet S] [Radix R Address] [Platform] {made : Share → Prop}

omit [Radix R Address] in
theorem relays_submit (tx : Transaction) :
    Advances (Relays made) (submit tx : EStateM PyExc (Node S R) _) := by
  intro n
  have step : Relays made n _ := relays_onService (Service.addPendingTransaction tx) n
  simp only [submit]
  split
  · rename_i m added
    rw [added] at step
    have pooled : Relays made m { m with sent := m.sent ++ [.tx tx] } :=
      relays_said rfl (by simp) rfl fun watch => watch
    exact trans_of (Relays made) step pooled
  · rename_i e m failed
    rw [failed] at step
    exact step

omit [Radix R Address] in
theorem relays_receiveTx (tx : Transaction) :
    Advances (Relays made) (receiveTx tx : EStateM PyExc (Node S R) _) := by
  intro n
  have counted : Relays made n { n with processed := n.processed + 1 } :=
    relays_same rfl rfl fun watch => watch
  simp only [receiveTx]
  split
  · exact counted
  · exact trans_of (Relays made) counted (relays_submit tx _)

omit [Radix R Address] in
theorem relays_userTx (tx : Option Transaction) :
    Advances (Relays made) (userTx tx : EStateM PyExc (Node S R) _) := by
  intro n
  cases tx with
  | none => exact refl_of (Relays made) n
  | some tx =>
      simp only [userTx]
      split
      · exact refl_of (Relays made) n
      · exact relays_submit tx n

theorem relays_queryEid (eid : IPAddress) :
    Advances (Relays made) (queryEid eid : EStateM PyExc (Node S R) _) := by
  intro n
  simp only [queryEid]
  split
  · rename_i address found
    have step : Relays made n _ := relays_onService (Service.onState (getBalance address)) n
    dsimp only [finish]
    split
    · rename_i m run
      rw [run] at step
      exact step
    · rename_i m run
      rw [run] at step
      exact step
  · exact refl_of (Relays made) n

omit [Radix R Address] in
theorem relays_answerBlocks (op : Operator) (numbers : List Int) :
    Advances (Relays made) (answerBlocks op numbers : EStateM PyExc (Node S R) _) :=
  (relays_asks _).bind fun _ => relays_update fun _ =>
    relays_said rfl (by simp) rfl fun watch => watch

variable [Hashlib] [Bls] [NodeConfig] [TrieKeys S]

omit [Radix R Address] [Hashlib] [Bls] [NodeConfig] [TrieKeys S] in
theorem relays_leaveDkg : Advances (Relays made) (leaveDkg : EStateM PyExc (Node S R) _) := by
  intro n
  simp only [leaveDkg]
  split
  · exact refl_of (Relays made) n
  · dsimp only [finish]
    split
    · exact relays_same rfl rfl fun watch => watch
    · exact refl_of (Relays made) n

omit [Radix R Address] [Hashlib] [TrieKeys S] in
theorem relays_enterDkg (now : Nat) (draw : Address → Nat → Bytes × Bytes)
    (dkgGroup : List Address) :
    Advances (Relays made) (enterDkg now draw dkgGroup : EStateM PyExc (Node S R) _) := by
  intro n
  simp only [enterDkg]
  split
  · exact ((relays_onConsensus _).bind fun shares => (relays_update fun n =>
      relays_sendDkg now shares n).bind fun _ => relays_leaveDkg) n
  · exact relays_onConsensus _ n

omit [Radix R Address] in
theorem relays_triggerDkg (op : Operator) (now : Nat) (draw : Address → Nat → Bytes × Bytes) :
    Advances (Relays made) (triggerDkg op now draw : EStateM PyExc (Node S R) _) := by
  intro n
  simp only [triggerDkg]
  split
  · have still {f : Node S R → Node S R} (relays : ∀ n, Relays made n (f n)) := relays_update relays
    refine ((still fun _ => ?_).bind fun _ => (relays_asks _).bind fun group => (still fun _ =>
      ?_).bind fun _ => (relays_enterDkg now draw group).bind fun _ => (relays_asks _).bind
        fun last => (Advances.lift _).bind fun address => still fun _ => ?_) n
    · exact relays_same rfl rfl fun watch => watch
    · exact relays_same rfl rfl fun watch => watch
    · exact relays_same rfl rfl fun watch => watch
  · exact refl_of (Relays made) n

omit [Radix R Address] [Hashlib] [TrieKeys S] in
theorem relays_receiveDkgShare (now : Nat) (share : DkgShare) :
    Advances (Relays made) (receiveDkgShare now share : EStateM PyExc (Node S R) _) := by
  intro n
  have broadcast : Advances (Relays made) (update fun n => { n with
      sent := n.sent ++ [Message.dkgShare share] } : EStateM PyExc (Node S R) _) :=
    relays_update fun _ => relays_said rfl (by simp) rfl fun watch => watch
  have stored : Advances (Relays made) (update fun n => { n with
      cache := n.cache.storeDkg now share } : EStateM PyExc (Node S R) _) :=
    relays_update fun n => relays_same rfl (storeDkg_future n.cache now share) fun watch => watch
  simp only [receiveDkgShare]
  split
  · exact relays_same rfl rfl fun watch => by cases watch
  · split
    · exact refl_of (Relays made) n
    · cases share.destination with
      | none => exact Advances.bind broadcast (fun _ => stored) n
      | some destination =>
          refine (Advances.ite ?_ ?_) n
          · refine Advances.bind (relays_onConsensus _) (fun _ => Advances.bind relays_leaveDkg
              fun _ => Advances.bind (fun n => ?_) fun _ => stored)
            split
            · exact refl_of (Relays made) n
            · exact refl_of (Relays made) n
          · exact Advances.bind broadcast (fun _ => stored)

omit [Radix R Address] [Platform] [Hashlib] [Bls] [TrieKeys S] in
theorem relays_endCollect (now : Nat) :
    Advances (Relays made) (endCollect now : EStateM PyExc (Node S R) _) := by
  intro n
  simp only [endCollect]
  split
  · exact refl_of (Relays made) n
  · exact relays_same rfl rfl fun watch => by cases watch

end Loop

section Own

variable {S R : Type} [IPSet S] [Radix R Address] [Platform] [Hashlib] [Bls] [NodeConfig]
  [TrieKeys S] [TrieRoot] [Poststate] [StateRoot S] [Signing] {made : Share → Prop} (op : Operator)

omit [Hashlib] [Bls] [NodeConfig] [TrieKeys S] [TrieRoot] [Poststate] [StateRoot S] [Signing] in
theorem relays_electSigner : Advances (Relays made) (electSigner : EStateM PyExc (Node S R) _) := by
  intro n
  simp only [electSigner]
  split
  · exact refl_of (Relays made) n
  · split
    · exact relays_same rfl rfl fun watch => watch
    · exact relays_same rfl rfl fun watch => watch

omit [Hashlib] [Bls] in
theorem relays_createOwn (now depth : Nat) :
    Advances (Relays made) (createOwn op now depth : EStateM PyExc (Node S R) _) := by
  intro n
  have left : Relays made n { n with exitFromDkg := false } :=
    relays_same rfl rfl fun watch => watch
  simp only [createOwn]
  split
  · exact refl_of (Relays made) n
  · split
    · exact refl_of (Relays made) n
    · split
      · exact trans_of (Relays made) left ((relays_onService _).bind
          (fun _ => Advances.bind (Advances.lift _) fun _ => Advances.pure _) _)
      · exact left

omit [Hashlib] [Bls] in
theorem relays_makeBlock (now depth : Nat) :
    Advances (Relays made) (makeBlock op now depth : EStateM PyExc (Node S R) _) := by
  refine Advances.bind (relays_asks _) fun head => Advances.bind ?_ fun _ n => ?_
  · exact relays_still (fun _ => rfl) (fun _ => rfl) fun _ => rfl
  · split
    · exact refl_of (Relays made) n
    · split
      · exact refl_of (Relays made) n
      · split
        · exact (relays_electSigner.bind fun _ => relays_createOwn op now depth) n
        · exact refl_of (Relays made) n

omit [TrieKeys S] [StateRoot S] [Signing] in
theorem relays_adoptOwn (now wait depth : Nat) (block : Block) :
    Advances (Relays fun _ => True) (adoptOwn now wait depth block : EStateM PyExc (Node S R) _) := by
  apply Advances.bind (relays_onService _)
  intro _
  refine Advances.bind (relays_update fun n => ?_) fun _ => ?_
  · exact relays_said rfl (by simp) rfl fun watch => watch
  · apply Advances.bind (relays_onConsensus _)
    intro _
    refine Advances.bind (x := update _) ?_ fun _ => ?_
    · exact relays_still (fun _ => rfl) (fun _ => rfl) fun _ => rfl
    · exact relays_newRound now

theorem relays_signBlock (now wait depth : Nat) :
    Advances (Relays fun _ => True) (signBlock op now wait depth : EStateM PyExc (Node S R) _) := by
  refine (relays_makeBlock op now depth).bind fun made => ?_
  cases made with
  | some block => exact relays_adoptOwn now wait depth block
  | none => exact Advances.pure _

end Own

section Events

variable {S R : Type} [IPSet S] [Radix R Address] [FirstAddress S] [Platform] [Hashlib] [Bls]
  [NodeConfig] [TrieKeys S] [TrieRoot] [Poststate] [StateRoot S] [Signing] {made : Share → Prop}

omit [Radix R Address] [FirstAddress S] [Platform] [Hashlib] [Bls] [TrieKeys S] [TrieRoot]
  [Poststate] [StateRoot S] [Signing] in
theorem relays_watchShares (op : Operator) (now : Nat) (n : Node S R) :
    Relays made n (watchShares op now n) := by
  unfold watchShares
  split
  · exact relays_same rfl rfl fun watch => watch
  · exact refl_of (Relays made) n

def Event.quiet : Event → Bool
  | .block _ _ _ | .sign _ _ _ | .share _ _ | .futureShare => false
  | _ => true

theorem relays_quiet (op : Operator) {e : Event} (quiet : e.quiet = true) :
    Advances (Relays made) (handle op e : EStateM PyExc (Node S R) _) := by
  cases e with
  | bootstrapBlock now depth block => exact relays_bootstrapBlock op now depth block
  | finishBootstrap => exact relays_finishBootstrap op
  | noBlock => exact relays_update fun _ => relays_same rfl rfl fun watch => by cases watch
  | tx tx =>
      refine (relays_receiveTx tx).bind fun _ => relays_update fun n => ?_
      split
      · exact refl_of (Relays made) n
      · exact relays_same rfl rfl fun watch => by cases watch
  | noTx => exact relays_enter (by decide)
  | userTx tx => exact (relays_userTx tx).bind fun _ => relays_enter (by decide)
  | query eid =>
      cases eid with
      | some eid => exact (relays_queryEid eid).bind fun _ => relays_enter (by decide)
      | none => exact relays_enter (by decide)
  | blockQuery numbers =>
      exact (relays_answerBlocks op numbers).bind fun _ => relays_enter (by decide)
  | noShare => exact relays_enter (by decide)
  | block | sign | share | futureShare => simp [Event.quiet] at quiet
  | watch now =>
      refine relays_update fun n => ?_
      exact trans_of (Relays made) (relays_watchShares op now n) (relays_phase _ (by decide))
  | trigger now draw =>
      exact (relays_triggerDkg op now draw).bind fun _ => relays_enter (by decide)
  | dkgShare now share =>
      intro n
      simp only [handle]
      split
      · exact relays_receiveDkgShare now share n
      · exact refl_of (Relays made) n
  | noDkgShare now => exact relays_endCollect now

theorem relays_handle (op : Operator) {e : Event} (waits : e ≠ .futureShare)
    (other : ∀ now share, e ≠ .share now share) :
    Advances (Relays fun _ => True) (handle op e : EStateM PyExc (Node S R) _) := by
  cases e with
  | block now depth block => exact relays_receiveBlock op now depth block
  | sign now wait depth =>
      exact (relays_signBlock op now wait depth).bind fun _ => relays_enter (by decide)
  | share now share => exact absurd rfl (other now share)
  | futureShare => exact absurd rfl waits
  | bootstrapBlock | finishBootstrap | noBlock | tx | noTx | userTx | query | blockQuery | noShare
  | watch | trigger | dkgShare | noDkgShare => exact relays_quiet op rfl

end Events

end Node

end IPchain
