import IPchain.Step

/-! The effect of a transaction on the registry of address space: category 0 is a
transfer, category 1 a delegation, and the other categories leave the space alone. -/

namespace IPchain

open Lib IPSet

variable {S : Type} [IPSet S]

def Ledger.registry (L : Ledger S) : Registry Address IPAddress where
  own a := {x | x ∈ (L a).balance.ownIps}
  delegated a b := (L a).balance.delegatedIps.held b
  received a b := (L a).balance.receivedIps.held b

def Ledger.Live (L : Ledger S) : Prop :=
  ∀ a, (L a).balance.delegatedIps.Live ∧ (L a).balance.receivedIps.Live

def Ledger.Loopless (L : Ledger S) : Prop := ∀ a, (L a).balance.receivedIps.lookup a = none

/-- Nothing but the recipient's share and the sender's loans can have changed. -/
structure Frame (s : Address) (L L' : Ledger S) : Prop where
  sender : (L' s).nonce = (L s).nonce + 1
  nonce : ∀ a, a ≠ s → (L' a).nonce = (L a).nonce
  delegated : ∀ a, a ≠ s → (L' a).balance.delegatedIps = (L a).balance.delegatedIps
  received : ∀ a b, a = s ∨ b ≠ s →
    (L' a).balance.receivedIps.lookup b = (L a).balance.receivedIps.lookup b
  mapServer : ∀ a, a ≠ s → (L' a).balance.mapServer = (L a).balance.mapServer
  locator : ∀ a, a ≠ s → (L' a).balance.locator = (L a).balance.locator
  live : L.Live → L'.Live

theorem Frame.loopless {s : Address} {L L' : Ledger S} (frame : Frame s L L')
    (loopless : L.Loopless) : L'.Loopless := by
  intro a
  rw [frame.received a a (eq_or_ne a s), loopless a]

def Ledger.settle (L : Ledger S) (sender holder : Address) (debit credit : Balance S → Balance S)
    (b : Balance S) : Ledger S :=
  let L := Function.update L holder { L holder with balance := credit (L holder).balance }
  let L := Function.update L sender { L sender with balance := debit b }
  Function.update L sender { L sender with nonce := (L sender).nonce + 1 }

structure WrittenBack (M : Ledger S) (s t : Address) (debit credit : Balance S → Balance S)
    (b : Balance S) (L' : Ledger S) : Prop where
  sender : L' s = ⟨(M s).nonce + 1, debit b⟩
  holder : t ≠ s → L' t = { M t with balance := credit (M t).balance }
  other : ∀ a, a ≠ s → a ≠ t → L' a = M a

omit [IPSet S] in
theorem settle_writtenBack (M : Ledger S) (sender holder : Address) (debit credit : Balance S → Balance S)
    (b : Balance S) :
    WrittenBack M sender holder debit credit b (M.settle sender holder debit credit b) := by
  refine ⟨?_, ?_, ?_⟩
  · simp only [Ledger.settle, Function.update_self]
    by_cases same : sender = holder
    · subst same
      simp
    · simp [Function.update_of_ne same]
  · intro different
    simp [Ledger.settle, Function.update_of_ne different]
  · intro a first second
    simp [Ledger.settle, Function.update_of_ne first, Function.update_of_ne second]

/-- The state of the ledger when the loop is done and the two parties are about to be
written back. -/
structure Looped (L : Ledger S) (sender : Address) (value : IPNetwork) (b : Balance S)
    (M : Ledger S) : Prop where
  own : b.ownIps = (L sender).balance.ownIps
  received : b.receivedIps = (L sender).balance.receivedIps
  live : (L sender).balance.delegatedIps.Live → b.delegatedIps.Live
  kept : ∀ a, Kept sender (M a) (L a)
  owned : ∀ a, (M a).balance.ownIps = (L a).balance.ownIps
  lent : ∀ a x, x ∈ b.delegatedIps.held a ↔
    x ∈ (L sender).balance.delegatedIps.held a ∧ x ∉ value
  borrowed : ∀ a x, x ∈ (M a).balance.receivedIps.held sender ↔
    x ∈ (L a).balance.receivedIps.held sender ∧
      ¬ (x ∈ value ∧ x ∈ (L sender).balance.delegatedIps.held a)

structure Parties (s : Address) (debit credit : Balance S → Balance S) : Prop where
  received : ∀ c, (debit c).receivedIps = c.receivedIps
  live : ∀ c, c.delegatedIps.Live → (debit c).delegatedIps.Live
  delegated' : ∀ c, (credit c).delegatedIps = c.delegatedIps
  mapServer' : ∀ c, (credit c).mapServer = c.mapServer
  locator' : ∀ c, (credit c).locator = c.locator
  received' : ∀ c b, b ≠ s → (credit c).receivedIps.lookup b = c.receivedIps.lookup b
  live' : ∀ c, c.receivedIps.Live → (credit c).receivedIps.Live

theorem allocate_parties (s : Address) (V : IPNetwork) :
    Parties s (fun b : Balance S => b.removeOwnIps V) (fun b => b.addOwnIps V) :=
  ⟨fun _ => rfl, fun _ => id, fun _ => rfl, fun _ => rfl, fun _ => rfl, fun _ _ _ => rfl,
    fun _ => id⟩

theorem delegate_parties (s t : Address) (V : IPNetwork) :
    Parties s (fun b : Balance S => b.addDelegatedIps t V) (fun b => b.addReceivedIps s V) :=
  ⟨fun _ => rfl, fun _ live => Shares.live_add live t V, fun _ => rfl, fun _ => rfl,
    fun _ => rfl, fun _ _ other => Shares.lookup_add_ne _ other V,
    fun _ live => Shares.live_add live s V⟩

section Looped

variable {L M L' : Ledger S} {s t : Address} {V : IPNetwork} {b : Balance S}
  {debit credit : Balance S → Balance S}

theorem Looped.kept_settle (loop : Looped L s V b M) (parties : Parties s debit credit)
    (settled : WrittenBack M s t debit credit b L') (a : Address) (other : a ≠ s) :
    Kept s (L' a) (L a) := by
  have kept := loop.kept a
  by_cases holder : a = t
  · subst holder
    rw [settled.holder other]
    refine ⟨kept.nonce, ?_, ?_, ?_, ?_, ?_⟩
    · exact (parties.delegated' _).trans kept.delegated
    · exact (parties.mapServer' _).trans kept.mapServer
    · exact (parties.locator' _).trans kept.locator
    · intro c different
      exact (parties.received' _ c different).trans (kept.received c different)
    · exact fun live => parties.live' _ (kept.live live)
  · rw [settled.other a other holder]
    exact kept

theorem Looped.frame (loop : Looped L s V b M) (parties : Parties s debit credit)
    (settled : WrittenBack M s t debit credit b L') : Frame s L L' := by
  have received : (L' s).balance.receivedIps = (L s).balance.receivedIps := by
    rw [settled.sender]
    exact (parties.received b).trans loop.received
  have kept := loop.kept_settle parties settled
  refine ⟨?_, fun a other => (kept a other).nonce, fun a other => (kept a other).delegated, ?_,
    fun a other => (kept a other).mapServer, fun a other => (kept a other).locator, ?_⟩
  · rw [settled.sender, (loop.kept s).nonce]
  · intro a c
    by_cases same : a = s
    · subst same
      exact fun _ => by rw [received]
    · exact fun different => (kept a same).received c (different.resolve_left same)
  · intro live a
    by_cases same : a = s
    · subst same
      rw [received, settled.sender]
      exact ⟨parties.live b (loop.live (live a).1), (live a).2⟩
    · exact ⟨(kept a same).delegated ▸ (live a).1, (kept a same).live (live a).2⟩

theorem Looped.revoked_received (loop : Looped L s V b M) (a c : Address) (other : a ≠ s) :
    (M a).balance.receivedIps.held c = (L.registry.revoke s V.addresses).received a c := by
  ext x
  rw [Registry.mem_received_revoke]
  by_cases lender : c = s
  · subst lender
    rw [loop.borrowed]
    simp [Ledger.registry, other]
  · rw [Shares.held_congr ((loop.kept a).received c lender)]
    simp [Ledger.registry, lender]

theorem Looped.registry_allocate (loop : Looped L s V b M)
    (settled : WrittenBack M s t (fun b => b.removeOwnIps V) (fun b => b.addOwnIps V) b L') :
    L'.registry = L.registry.transfer s t V.addresses := by
  have kept := loop.kept_settle (allocate_parties s V) settled
  ext a
  · rename_i x
    rw [Registry.mem_own_transfer]
    by_cases same : a = s
    · subst same
      simp [Ledger.registry, settled.sender, Balance.removeOwnIps, loop.own]
    · by_cases holder : a = t
      · subst holder
        simp [Ledger.registry, settled.holder same, Balance.addOwnIps, loop.owned, same]
      · simp [Ledger.registry, settled.other a same holder, loop.owned, same, holder]
  · rename_i c x
    change _ ↔ x ∈ (L.registry.revoke s V.addresses).delegated a c
    rw [Registry.mem_delegated_revoke]
    by_cases same : a = s
    · subst same
      simp [Ledger.registry, settled.sender, Balance.removeOwnIps, loop.lent]
    · simp [Ledger.registry, (kept a same).delegated, same]
  · rename_i c x
    change _ ↔ x ∈ (L.registry.revoke s V.addresses).received a c
    by_cases same : a = s
    · subst same
      rw [Registry.mem_received_revoke]
      simp [Ledger.registry, settled.sender, Balance.removeOwnIps, loop.received]
    · rw [← loop.revoked_received a c same]
      by_cases holder : a = t
      · subst holder
        simp [Ledger.registry, settled.holder same, Balance.addOwnIps]
      · simp [Ledger.registry, settled.other a same holder]

theorem Looped.registry_delegate (loop : Looped L s V b M)
    (settled : WrittenBack M s t (fun b => b.addDelegatedIps t V) (fun b => b.addReceivedIps s V) b
      L') : L'.registry = L.registry.delegate s t V.addresses := by
  have kept := loop.kept_settle (delegate_parties s t V) settled
  ext a
  · rename_i x
    change x ∈ (L' a).balance.ownIps ↔ x ∈ (L a).balance.ownIps
    by_cases same : a = s
    · subst same
      simp [settled.sender, Balance.addDelegatedIps, loop.own]
    · by_cases holder : a = t
      · subst holder
        simp [settled.holder same, Balance.addReceivedIps, loop.owned]
      · rw [settled.other a same holder, loop.owned]
  · rename_i c x
    rw [Registry.mem_delegated_delegate]
    by_cases same : a = s
    · subst same
      by_cases holder : c = t
      · subst holder
        simp [Ledger.registry, settled.sender, Balance.addDelegatedIps, Shares.held_add, loop.lent]
      · have entry := Shares.held_congr (Shares.lookup_add_ne b.delegatedIps holder V)
        simp [Ledger.registry, settled.sender, Balance.addDelegatedIps, entry, loop.lent, holder]
    · simp [Ledger.registry, (kept a same).delegated, same]
  · rename_i c x
    rw [Registry.mem_received_delegate]
    by_cases same : a = s
    · subst same
      rw [Registry.mem_received_revoke]
      simp only [Ledger.registry, settled.sender, Balance.addDelegatedIps, loop.received]
      grind
    · rw [← loop.revoked_received a c same]
      by_cases holder : a = t
      · subst holder
        simp only [Ledger.registry, settled.holder same, Balance.addReceivedIps]
        by_cases lender : c = s
        · subst lender
          simp [Shares.held_add, same]
        · rw [Shares.held_congr (Shares.lookup_add_ne _ lender V)]
          simp [lender]
      · simp [Ledger.registry, settled.other a same holder, holder]

end Looped

omit [IPSet S] in
theorem setMapServer_eq_ok {b b' : Balance S} {items : List Bytes}
    (run : b.setMapServer items = .ok b') :
    ∃ servers, b' = { b with mapServer := servers, locator := ∅ } := by
  obtain ⟨servers, -, result⟩ := except_bind_eq_ok.mp run
  cases result
  exact ⟨servers, rfl⟩

omit [IPSet S] in
theorem setLocator_eq_ok {b b' : Balance S} {items : List Bytes}
    (run : b.setLocator items = .ok b') :
    ∃ dict, b' = { b with locator := dict, mapServer := ∅ } := by
  obtain ⟨dict, -, result⟩ := except_bind_eq_ok.mp run
  cases result
  exact ⟨dict, rfl⟩

omit [IPSet S] in
theorem balance_and_nonce (L : Ledger S) (s : Address) (b : Balance S) :
    AccountStore.incrementNonce (AccountStore.setBalance L s b) s =
      Function.update L s ⟨(L s).nonce + 1, b⟩ := by
  simp only [AccountStore.incrementNonce, AccountStore.setBalance, Function.update_self,
    Function.update_idem]

theorem mapping_effect {L L' : Ledger S} {s : Address} {b : Balance S}
    {servers : AList fun _ : IPNetwork => Bytes}
    {dict : AList fun _ : IPNetwork => Option Nat × Option Nat}
    (shape : b = { (L s).balance with mapServer := servers, locator := dict })
    (written : L' = Function.update L s ⟨(L s).nonce + 1, b⟩) :
    Frame s L L' ∧ L'.registry = L.registry := by
  have self : L' s = ⟨(L s).nonce + 1, b⟩ := by rw [written, Function.update_self]
  have other (a : Address) (different : a ≠ s) : L' a = L a := by
    rw [written, Function.update_of_ne different]
  have shares (a : Address) : (L' a).balance.ownIps = (L a).balance.ownIps ∧
      (L' a).balance.delegatedIps = (L a).balance.delegatedIps ∧
      (L' a).balance.receivedIps = (L a).balance.receivedIps := by
    by_cases same : a = s
    · subst same
      rw [self, shape]
      exact ⟨rfl, rfl, rfl⟩
    · rw [other a same]
      exact ⟨rfl, rfl, rfl⟩
  refine ⟨⟨by rw [self], ?_, fun a _ => (shares a).2.1, ?_, ?_, ?_, ?_⟩, ?_⟩
  · exact fun a different => by rw [other a different]
  · exact fun a c _ => by rw [(shares a).2.2]
  · exact fun a different => by rw [other a different]
  · exact fun a different => by rw [other a different]
  · intro live a
    rw [(shares a).2.1, (shares a).2.2]
    exact live a
  · simp only [Ledger.registry, fun a => (shares a).1, fun a => (shares a).2.1,
      fun a => (shares a).2.2]

variable [Platform]

/-- The checks of `validate_transaction`, one by one. -/
structure Valid (L : Ledger S) (tx : Transaction) (sender : Address) (value : IPNetwork) :
    Prop where
  signed : tx.sender = .ok sender
  known : sender ≠ nullAddress
  nonce : (L sender).nonce = tx.nonce
  category : tx.category ≤ 3
  network : tx.ipNetwork = .ok value
  owned : tx.category = 0 ∨ tx.category = 1 → ∀ x ∈ value, x ∈ (L sender).balance.ownIps

theorem validateTransaction_eq_ok {L L' : Ledger S} {tx : Transaction} {b : Bool} :
    validateTransaction tx L = .ok b L' ↔
      (∃ sender value, Valid L tx sender value) ∧ b = true ∧ L' = L := by
  simp only [validateTransaction, lift_bind_eq_ok, guard_eq_ok, getNonce_bind, getBalance_bind,
    pure_run, EStateM.Result.ok.injEq, not_not, not_lt, not_and, Bool.not_eq_false]
  constructor
  · rintro ⟨sender, signed, known, nonce, category, value, network, owned, rfl, rfl⟩
    refine ⟨⟨sender, value, signed, known, nonce, category, network, fun moves => ?_⟩, rfl, rfl⟩
    exact (contains_eq_true _ _).mp (owned moves)
  · rintro ⟨⟨sender, value, valid⟩, rfl, rfl⟩
    refine ⟨sender, valid.signed, valid.known, valid.nonce, valid.category, value, valid.network,
      fun moves => ?_, rfl, rfl⟩
    exact (contains_eq_true _ _).mpr (valid.owned moves)

theorem normalize_toBytes (toAddr : Option Address) (holder : Address) :
    normalizeAddress (.bytes (toBytes toAddr)) = .ok holder ↔ toAddr = some holder := by
  cases toAddr with
  | none => simp [toBytes, normalizeAddress_blank]
  | some a => simp [toBytes, normalizeAddress_bytes]

theorem moveIps_eq_ok {L L' : Ledger S} {tx : Transaction} {cached c : Cached}
    {debit credit : Address → IPNetwork → Balance S → Balance S} :
    moveIps tx debit credit cached L = .ok c L' ↔
      ∃ sender value holder b M, tx.sender = .ok sender ∧ tx.ipNetwork = .ok value ∧
        tx.toAddr = some holder ∧ (L sender).balance.delegatedIps.Measurable value ∧
        reclaim sender (Platform.items ((L sender).balance.delegatedIps.joints value))
          (L sender).balance L = .ok b M ∧
        c = cached.insert value holder ∧
        L' = M.settle sender holder (debit holder value) (credit sender value) b := by
  simp only [moveIps, lift_bind_eq_ok, getBalance_bind, normalize_toBytes,
    Balance.affectedDelegatedIps_eq_ok]
  constructor
  · rintro ⟨sender, signed, value, network, holder, recipient, affected, ⟨small, rfl⟩, run⟩
    obtain ⟨b, M, loop, run⟩ := bind_eq_ok.mp run
    cases run
    exact ⟨sender, value, holder, b, M, signed, network, recipient, small, loop, rfl, rfl⟩
  · rintro ⟨sender, value, holder, b, M, signed, network, recipient, small, loop, rfl, rfl⟩
    exact ⟨sender, signed, value, network, holder, recipient, _, ⟨small, rfl⟩,
      bind_eq_ok.mpr ⟨b, M, loop, rfl⟩⟩

theorem looped {L M : Ledger S} {sender : Address} {value : IPNetwork} {b : Balance S}
    (loop : reclaim sender (Platform.items ((L sender).balance.delegatedIps.joints value))
      (L sender).balance L = .ok b M) : Looped L sender value b M := by
  have perm := Platform.items_perm ((L sender).balance.delegatedIps.joints value)
  have distinct := (perm.map Prod.fst).nodup_iff.mpr
    ((L sender).balance.delegatedIps.nodup_joints value)
  have reclaimed := reclaim_spec distinct loop
  exact ⟨reclaimed.own, reclaimed.received, reclaimed.live,
    fun a => (reclaimed.kept a).1, fun a => (reclaimed.kept a).2, reclaimed.lent perm,
    reclaimed.borrowed perm⟩

omit [IPSet S] in
theorem setMapping_eq_ok {L L' : Ledger S} {tx : Transaction}
    {set : Balance S → List Bytes → Except PyExc (Balance S)} :
    setMapping tx set L = .ok () L' ↔ ∃ sender b, tx.sender = .ok sender ∧
      set (L sender).balance tx.metadata.elements = .ok b ∧
      L' = Function.update L sender ⟨(L sender).nonce + 1, b⟩ := by
  simp only [setMapping, lift_bind_eq_ok, getBalance_bind]
  constructor
  · rintro ⟨sender, signed, b, done, run⟩
    cases run
    exact ⟨sender, b, signed, done, balance_and_nonce L sender b⟩
  · rintro ⟨sender, b, signed, done, rfl⟩
    refine ⟨sender, signed, b, done, ?_⟩
    rw [← balance_and_nonce L sender b]
    rfl

/-- What the accepted transaction of `s` over the network `V` does to the registry and to
the new rows of the prefix tree. -/
inductive Effect (tx : Transaction) (s : Address) (V : IPNetwork) (cached : Cached)
    (L L' : Ledger S) (c : Cached) : Prop
  | transfer (t : Address) (category : tx.category = 0) (recipient : tx.toAddr = some t)
      (rows : c = cached.insert V t)
      (registry : L'.registry = L.registry.transfer s t V.addresses)
  | delegate (t : Address) (category : tx.category = 1) (recipient : tx.toAddr = some t)
      (rows : c = cached.insert V t)
      (registry : L'.registry = L.registry.delegate s t V.addresses)
  | mapping (category : 1 < tx.category) (rows : c = cached) (registry : L'.registry = L.registry)

structure Step (tx : Transaction) (s : Address) (V : IPNetwork) (cached : Cached)
    (L : Ledger S) (r : Bool × Cached) (L' : Ledger S) : Prop where
  valid : Valid L tx s V
  frame : Frame s L L'
  returned : r.1 = true
  effect : Effect tx s V cached L L' r.2

theorem applyTransaction_eq_ok {L L' : Ledger S} {tx : Transaction} {cached : Cached}
    {r : Bool × Cached} : applyTransaction tx cached L = .ok r L' ↔
      (∃ s V, Valid L tx s V) ∧ r.1 = true ∧ perform tx cached L = .ok r.2 L' := by
  rw [applyTransaction, bind_eq_ok]
  constructor
  · rintro ⟨_, _, validated, run⟩
    obtain ⟨valid, rfl, rfl⟩ := validateTransaction_eq_ok.mp validated
    obtain ⟨c, M, done, run⟩ := bind_eq_ok.mp run
    cases run
    exact ⟨valid, rfl, done⟩
  · rintro ⟨valid, returned, done⟩
    refine ⟨true, L, validateTransaction_eq_ok.mpr ⟨valid, rfl, rfl⟩, ?_⟩
    refine bind_eq_ok.mpr ⟨r.2, L', done, ?_⟩
    change EStateM.Result.ok (true, r.2) L' = _
    rw [← returned]

theorem moved {L L' : Ledger S} {tx : Transaction} {cached c : Cached} {s : Address}
    {V : IPNetwork} {debit credit : Address → IPNetwork → Balance S → Balance S}
    (valid : Valid L tx s V) (run : moveIps tx debit credit cached L = .ok c L') :
    ∃ t b M, tx.toAddr = some t ∧ c = cached.insert V t ∧ Looped L s V b M ∧
      WrittenBack M s t (debit t V) (credit s V) b L' := by
  obtain ⟨s', V', t, b, M, signed, network, recipient, -, loop, rfl, rfl⟩ := moveIps_eq_ok.mp run
  rw [valid.signed] at signed
  rw [valid.network] at network
  cases signed
  cases network
  exact ⟨t, b, M, recipient, rfl, looped loop, settle_writtenBack _ _ _ _ _ _⟩

theorem applyTransaction_step {L L' : Ledger S} {tx : Transaction} {cached : Cached}
    {r : Bool × Cached} (run : applyTransaction tx cached L = .ok r L') :
    ∃ s V, Step tx s V cached L r L' := by
  obtain ⟨⟨s, V, valid⟩, returned, done⟩ := applyTransaction_eq_ok.mp run
  obtain ⟨returns, c⟩ := r
  refine ⟨s, V, ?_⟩
  have mapped {set : Balance S → List Bytes → Except PyExc (Balance S)}
      (shaped : ∀ b b' items, set b items = .ok b' → ∃ servers dict,
        b' = { b with mapServer := servers, locator := dict })
      (high : 1 < tx.category)
      (run : (setMapping tx set >>= fun _ => pure cached) L = .ok c L') :
      Step tx s V cached L (returns, c) L' := by
    obtain ⟨_, M, set, run⟩ := bind_eq_ok.mp run
    cases run
    obtain ⟨s', b, signed, done, written⟩ := setMapping_eq_ok.mp set
    rw [valid.signed] at signed
    cases signed
    obtain ⟨servers, dict, shape⟩ := shaped _ _ _ done
    obtain ⟨frame, registry⟩ := mapping_effect shape written
    exact ⟨valid, frame, returned, .mapping high rfl registry⟩
  simp only [perform] at done
  split at done
  · rename_i category
    obtain ⟨t, b, M, recipient, rfl, loop, written⟩ := moved valid done
    exact ⟨valid, loop.frame (allocate_parties s V) written, returned,
      .transfer t category recipient rfl (loop.registry_allocate written)⟩
  · split at done
    · rename_i category
      obtain ⟨t, b, M, recipient, rfl, loop, written⟩ := moved valid done
      exact ⟨valid, loop.frame (delegate_parties s t V) written, returned,
        .delegate t category recipient rfl (loop.registry_delegate written)⟩
    · split at done
      · rename_i category
        refine mapped ?_ (by omega) done
        intro b b' items set
        obtain ⟨servers, shape⟩ := setMapServer_eq_ok set
        exact ⟨servers, ∅, shape⟩
      · split at done
        · rename_i category
          refine mapped ?_ (by omega) done
          intro b b' items set
          obtain ⟨dict, shape⟩ := setLocator_eq_ok set
          exact ⟨∅, dict, shape⟩
        · have known := valid.category
          omega

end IPchain
