import IPchain.Runs

/-! When a transaction that passes validation is also applied. -/

namespace IPchain

open Lib IPSet

section Applicability

variable {S : Type} [IPSet S]

/-- What `s` has lent out of `V` is lent to others, and the parts can be measured. -/
def Ledger.Reclaimable (L : Ledger S) (s : Address) (V : IPNetwork) : Prop :=
  ∀ b d, (L s).balance.delegatedIps.lookup b = some d →
    size (inter (ofNetwork V) d) ≤ maxint ∧
      ((∃ x, x ∈ V ∧ x ∈ d) → b ≠ s ∧ size (diff d (inter (ofNetwork V) d)) ≤ maxint)

theorem Ledger.Sound.twin {L : Ledger S} (sound : L.Sound) {s b : Address} (other : b ≠ s) {d : S}
    (present : (L s).balance.delegatedIps.lookup b = some d) :
    ∃ r, (L b).balance.receivedIps.lookup s = some r ∧ ∀ x, x ∈ d ↔ x ∈ r := by
  obtain ⟨y, inside⟩ := (sound.live s).1 b d present
  have halves := sound.mirrored s b (Ne.symm other)
  obtain ⟨r, borrowed, -⟩ := (halves y).mp ⟨d, present, inside⟩
  refine ⟨r, borrowed, fun x => ?_⟩
  rw [← Shares.mem_held present, ← Shares.mem_held borrowed]
  exact halves x

theorem Revocable.outward {L : Ledger S} (loopless : L.Loopless) {s b : Address} {d j : S}
    (present : (L s).balance.delegatedIps.lookup b = some d)
    (revocable : Revocable L (L s).balance s (b, j)) : b ≠ s ∧ size (diff d j) ≤ maxint := by
  obtain ⟨⟨d', found, small⟩, r, borrowed, -⟩ := revocable
  rw [present] at found
  cases found
  refine ⟨?_, small⟩
  rintro rfl
  rw [loopless b] at borrowed
  cases borrowed

theorem revocable_iff {L : Ledger S} (sound : L.Sound) {s b : Address} {d j : S}
    (present : (L s).balance.delegatedIps.lookup b = some d) :
    Revocable L (L s).balance s (b, j) ↔ b ≠ s ∧ size (diff d j) ≤ maxint := by
  constructor
  · exact Revocable.outward sound.loopless present
  · rintro ⟨other, small⟩
    obtain ⟨r, borrowed, same⟩ := sound.twin other present
    refine ⟨⟨d, present, small⟩, r, borrowed, ?_⟩
    rw [size_congr (diff r j) (diff d j) fun x => by simp [same]]
    exact small

theorem reclaimable_of_revocable {L : Ledger S} (loopless : L.Loopless) {s : Address}
    {V : IPNetwork} (small : (L s).balance.delegatedIps.Measurable V)
    (revocable : ∀ p ∈ (L s).balance.delegatedIps.joints V, Revocable L (L s).balance s p) :
    L.Reclaimable s V := by
  intro b d present
  refine ⟨small b d present, ?_⟩
  rintro ⟨x, inV, inD⟩
  have joint := (Shares.mem_joints _ V b _).mpr ⟨d, present, rfl, x, by simp [inV, inD]⟩
  exact (revocable (b, inter (ofNetwork V) d) joint).outward loopless present

theorem reclaimable_iff {L : Ledger S} (sound : L.Sound) (s : Address) (V : IPNetwork) :
    ((L s).balance.delegatedIps.Measurable V ∧
      ∀ p ∈ (L s).balance.delegatedIps.joints V, Revocable L (L s).balance s p) ↔
        L.Reclaimable s V := by
  constructor
  · rintro ⟨small, revocable⟩
    exact reclaimable_of_revocable sound.loopless small revocable
  · intro reclaimable
    refine ⟨fun b d present => (reclaimable b d present).1, ?_⟩
    rintro ⟨b, j⟩ member
    obtain ⟨d, present, rfl, x, inside⟩ := (Shares.mem_joints _ V b j).mp member
    rw [mem_inter_iff, mem_ofNetwork_iff] at inside
    exact (revocable_iff sound present).mpr ((reclaimable b d present).2 ⟨x, inside⟩)

/-- What the branch of the category needs beyond a valid transaction. -/
structure Applicable (L : Ledger S) (tx : Transaction) (s : Address) (V : IPNetwork) : Prop where
  moves : tx.category = 0 ∨ tx.category = 1 → tx.toAddr ≠ none ∧ L.Reclaimable s V
  locates : tx.category = 3 → [] ∉ tx.metadata.elements

variable [Platform]

theorem moveIps_reclaimable {L L' : Ledger S} (loopless : L.Loopless) {tx : Transaction}
    {s : Address} {V : IPNetwork} (valid : Valid L tx s V) {cached c : Cached}
    {debit credit : Address → IPNetwork → Balance S → Balance S}
    (run : moveIps tx debit credit cached L = .ok c L') :
    tx.toAddr ≠ none ∧ L.Reclaimable s V := by
  have perm := Platform.items_perm ((L s).balance.delegatedIps.joints V)
  have distinct := (perm.map Prod.fst).nodup_iff.mpr ((L s).balance.delegatedIps.nodup_joints V)
  obtain ⟨s', V', t, b, M, signed, network, recipient, small, loop, -⟩ := moveIps_eq_ok.mp run
  rw [valid.signed] at signed
  rw [valid.network] at network
  cases signed
  cases network
  refine ⟨Option.ne_none_iff_exists'.mpr ⟨t, recipient⟩, ?_⟩
  apply reclaimable_of_revocable loopless small
  intro p member
  exact (reclaim_ok_iff distinct).mp ⟨b, M, loop⟩ p (perm.mem_iff.mpr member)

theorem moveIps_ok_iff {L : Ledger S} (sound : L.Sound) {tx : Transaction} {s : Address}
    {V : IPNetwork} (valid : Valid L tx s V) (cached : Cached)
    (debit credit : Address → IPNetwork → Balance S → Balance S) :
    (∃ c L', moveIps tx debit credit cached L = .ok c L') ↔
      tx.toAddr ≠ none ∧ L.Reclaimable s V := by
  have perm := Platform.items_perm ((L s).balance.delegatedIps.joints V)
  have distinct := (perm.map Prod.fst).nodup_iff.mpr ((L s).balance.delegatedIps.nodup_joints V)
  constructor
  · rintro ⟨c, L', run⟩
    exact moveIps_reclaimable sound.loopless valid run
  · rintro ⟨recipient, reclaimable⟩
    obtain ⟨t, recipient⟩ := Option.ne_none_iff_exists'.mp recipient
    obtain ⟨small, revocable⟩ := (reclaimable_iff sound s V).mpr reclaimable
    obtain ⟨b, M, loop⟩ := (reclaim_ok_iff distinct).mpr fun p member =>
      revocable p (perm.mem_iff.mp member)
    exact ⟨_, _, moveIps_eq_ok.mpr
      ⟨s, V, t, b, M, valid.signed, valid.network, recipient, small, loop, rfl, rfl⟩⟩

omit [IPSet S] in
theorem setMapping_ok_iff {L : Ledger S} {tx : Transaction} {s : Address}
    (signed : tx.sender = .ok s) (set : Balance S → List Bytes → Except PyExc (Balance S)) :
    (∃ L', setMapping tx set L = .ok () L') ↔
      ∃ b, set (L s).balance tx.metadata.elements = .ok b := by
  constructor
  · rintro ⟨L', run⟩
    obtain ⟨s', b, signed', done, -⟩ := setMapping_eq_ok.mp run
    rw [signed] at signed'
    cases signed'
    exact ⟨b, done⟩
  · rintro ⟨b, done⟩
    exact ⟨_, setMapping_eq_ok.mpr ⟨s, b, signed, done, rfl⟩⟩

omit [IPSet S] in
theorem setMapServer_ok (b : Balance S) {tx : Transaction} (accepted : tx.Accepted)
    (category : tx.category = 2) : ∃ b', b.setMapServer tx.metadata.elements = .ok b' := by
  obtain ⟨items, listed, shaped⟩ := accepted.mapServer category
  obtain ⟨servers, done⟩ := mapServers_ok items shaped ∅
  rw [listed]
  exact ⟨_, except_bind_eq_ok.mpr ⟨servers, done, rfl⟩⟩

omit [IPSet S] in
theorem setLocator_ok_iff (b : Balance S) {tx : Transaction} (accepted : tx.Accepted)
    (category : tx.category = 3) :
    (∃ b', b.setLocator tx.metadata.elements = .ok b') ↔ [] ∉ tx.metadata.elements := by
  obtain ⟨items, listed, shaped⟩ := accepted.locator category
  rw [listed]
  change (∃ b', b.setLocator items = .ok b') ↔ [] ∉ items
  rcases locators_cases items shaped [] (none, none) with ⟨clean, dict, done⟩ | ⟨blank, e, fails, -⟩
  · exact iff_of_true ⟨_, except_bind_eq_ok.mpr ⟨dict, done, rfl⟩⟩ clean
  · refine iff_of_false ?_ (not_not_intro blank)
    rintro ⟨b', set⟩
    obtain ⟨dict, done, -⟩ := except_bind_eq_ok.mp set
    rw [fails] at done
    cases done

theorem perform_applicable {L L' : Ledger S} (loopless : L.Loopless) {tx : Transaction}
    (accepted : tx.Accepted) {s : Address} {V : IPNetwork} (valid : Valid L tx s V)
    {cached c : Cached} (run : perform tx cached L = .ok c L') : Applicable L tx s V := by
  simp only [perform] at run
  refine ⟨fun moves => ?_, fun third => ?_⟩
  · split at run
    · exact moveIps_reclaimable loopless valid run
    · rename_i other
      rw [if_pos (moves.resolve_left other)] at run
      exact moveIps_reclaimable loopless valid run
  · rw [if_neg (by omega), if_neg (by omega), if_neg (by omega), if_pos third] at run
    obtain ⟨_, M, set, -⟩ := bind_eq_ok.mp run
    obtain ⟨b, located⟩ := (setMapping_ok_iff valid.signed _).mp ⟨M, set⟩
    exact (setLocator_ok_iff _ accepted third).mp ⟨b, located⟩

theorem perform_ok_iff {L : Ledger S} (sound : L.Sound) {tx : Transaction}
    (accepted : tx.Accepted) {s : Address} {V : IPNetwork} (valid : Valid L tx s V)
    (cached : Cached) : (∃ c L', perform tx cached L = .ok c L') ↔ Applicable L tx s V := by
  have mapped (set : Balance S → List Bytes → Except PyExc (Balance S)) :
      (∃ c L', (setMapping tx set >>= fun _ => pure cached) L = .ok c L') ↔
        ∃ b, set (L s).balance tx.metadata.elements = .ok b := by
    rw [← setMapping_ok_iff valid.signed set]
    constructor
    · rintro ⟨c, L', run⟩
      obtain ⟨_, M, done, -⟩ := bind_eq_ok.mp run
      exact ⟨M, done⟩
    · rintro ⟨M, done⟩
      exact ⟨cached, M, bind_eq_ok.mpr ⟨(), M, done, rfl⟩⟩
  have moved (moves : tx.category = 0 ∨ tx.category = 1) :
      Applicable L tx s V ↔ tx.toAddr ≠ none ∧ L.Reclaimable s V :=
    ⟨fun applicable => applicable.moves moves,
      fun both => ⟨fun _ => both, fun third => by omega⟩⟩
  simp only [perform]
  split
  · rename_i category
    rw [moved (Or.inl category)]
    exact moveIps_ok_iff sound valid cached _ _
  · split
    · rename_i category
      rw [moved (Or.inr category)]
      exact moveIps_ok_iff sound valid cached _ _
    · split
      · rename_i category
        refine iff_of_true ?_ ⟨fun moves => by omega, fun third => by omega⟩
        exact (mapped _).mpr (setMapServer_ok _ accepted category)
      · split
        · rename_i category
          rw [mapped, setLocator_ok_iff _ accepted category]
          exact ⟨fun clean => ⟨fun moves => by omega, fun _ => clean⟩,
            fun applicable => applicable.locates category⟩
        · have known := valid.category
          omega

theorem applies_iff {L : Ledger S} (sound : L.Sound) {tx : Transaction} (accepted : tx.Accepted)
    (cached : Cached) : (∃ c L', applyTransaction tx cached L = .ok (true, c) L') ↔
      ∃ s V, Valid L tx s V ∧ Applicable L tx s V := by
  constructor
  · rintro ⟨c, L', applied⟩
    obtain ⟨⟨s, V, valid⟩, -, done⟩ := applyTransaction_eq_ok.mp applied
    exact ⟨s, V, valid, (perform_ok_iff sound accepted valid cached).mp ⟨c, L', done⟩⟩
  · rintro ⟨s, V, valid, applicable⟩
    obtain ⟨c, L', done⟩ := (perform_ok_iff sound accepted valid cached).mpr applicable
    exact ⟨c, L', applyTransaction_eq_ok.mpr ⟨⟨s, V, valid⟩, rfl, done⟩⟩

theorem Run.sound [StateRoot S] {g : GenesisData} {s₀ s : State S} {rows : Cached}
    {txs : List Transaction} (genesis : stateFromGenesisDeclaration g = .ok (s₀, rows))
    (run : Run s₀ txs s) : s.account.Sound :=
  run.preserves (fun _ _ _ _ _ _ _ step => step.sound) (sound_fresh (fresh_genesis genesis))

/-- When `validate_transaction` has returned True, `apply_transaction` returns True as well if
and only if a category 0 or 1 names its recipient and can take back what overlaps, and a
category 3 stores no priority and no weight as the empty string. -/
theorem validated_applies_iff [StateRoot S] {g : GenesisData} {s₀ s s₁ : State S} {rows : Cached}
    {txs : List Transaction} (genesis : stateFromGenesisDeclaration g = .ok (s₀, rows))
    (run : Run s₀ txs s) {tx : Transaction} (accepted : tx.Accepted)
    (validated : validateTransaction tx s = .ok true s₁) (cached : Cached) :
    (∃ c s', applyTransaction tx cached s = .ok (true, c) s') ↔
      ∀ sender V, tx.sender = .ok sender → tx.ipNetwork = .ok V →
        Applicable s.account tx sender V := by
  have simulates := simulates_applyTransaction (S := S) tx cached
  obtain ⟨⟨a, V, valid⟩, -⟩ :=
    validateTransaction_eq_ok.mp ((simulates_validateTransaction tx).ok validated)
  have ledger : (∃ c s', applyTransaction tx cached s = .ok (true, c) s') ↔
      ∃ c L', applyTransaction tx cached s.account = .ok (true, c) L' := by
    constructor
    · rintro ⟨c, s', applied⟩
      exact ⟨c, s'.account, simulates.ok applied⟩
    · rintro ⟨c, L', applied⟩
      obtain ⟨s', applied, -⟩ := simulates.exists_ok applied
      exact ⟨c, s', applied⟩
  rw [ledger, applies_iff (run.sound genesis) accepted]
  constructor
  · rintro ⟨b, W, checked, applicable⟩ sender U signed network
    rw [checked.signed] at signed
    rw [checked.network] at network
    cases signed
    cases network
    exact applicable
  · exact fun applicable => ⟨a, V, valid, applicable a V valid.signed valid.network⟩

end Applicability

section Sample

open Sample

theorem allocation_applies : ∃ (s s₁ s' : State AddressRanges) (c : Cached),
    validateTransaction (move 0 alice bob 0 (net 0 16)) s = .ok true s₁ ∧
      applyTransaction (move 0 alice bob 0 (net 0 16)) ∅ s = .ok (true, c) s' := by
  obtain ⟨⟨s, rows⟩, built, passes⟩ := passes_iff.mp (show
    Passes (stateFromGenesisDeclaration (S := AddressRanges) genesis) (fun g =>
      RunPasses (validateTransaction (move 0 alice bob 0 (net 0 16)) g.1) fun b _ => b) = true
    by decide)
  obtain ⟨b, s₁, validated, rfl⟩ := runPasses_iff.mp passes
  have accepted : (move 0 alice bob 0 (net 0 16)).Accepted :=
    ⟨0, 0, .bytes bob.bytes, 1, .bytes (valueOf (net 0 16)), .bytes [], 0, 27, 1, 1, rfl⟩
  obtain ⟨c, s', applied⟩ := (validated_applies_iff built .start accepted validated ∅).mpr (by
    intro sender V _ _
    refine ⟨fun _ => ⟨Option.some_ne_none bob, ?_⟩, fun third => absurd third (by decide)⟩
    intro b d present
    rw [(fresh_genesis built sender).1] at present
    cases present)
  exact ⟨s, s₁, s', c, validated, applied⟩

def unaddressed : Transaction := { move 0 alice bob 0 (net 0 16) with toAddr := none }

/-- The constructor and the validation let it pass, and its application raises. -/
theorem unaddressed_raises : ∃ (s : State AddressRanges) (rows : Cached) (s₁ : State AddressRanges),
    stateFromGenesisDeclaration genesis = .ok (s, rows) ∧ unaddressed.Accepted ∧
      validateTransaction unaddressed s = .ok true s₁ ∧
      ∀ cached, ¬ ∃ c s', applyTransaction unaddressed cached s = .ok (true, c) s' := by
  obtain ⟨⟨s, rows⟩, built, passes⟩ := passes_iff.mp (show
    Passes (stateFromGenesisDeclaration (S := AddressRanges) genesis) (fun g =>
      RunPasses (validateTransaction unaddressed g.1) fun b _ => b) = true by decide)
  obtain ⟨b, s₁, validated, rfl⟩ := runPasses_iff.mp passes
  refine ⟨s, rows, s₁, built, ?_, validated, ?_⟩
  · exact ⟨0, 0, .bytes [], 1, .bytes (valueOf (net 0 16)), .bytes [], 0, 27, 1, 1, rfl⟩
  · rintro cached ⟨c, s', applied⟩
    obtain ⟨a, V, step⟩ := applied_step applied
    rcases step.effect with ⟨t, -, recipient, -⟩ | ⟨t, -, recipient, -⟩ | ⟨category, -⟩
    · cases recipient
    · cases recipient
    · exact absurd category (by decide)

end Sample

end IPchain
