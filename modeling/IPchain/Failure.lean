import IPchain.Turns

/-! What a transaction that raises leaves behind. Only the loop over the borrowers writes
before anything can raise, and what it raises is never caught. -/

namespace IPchain

open Lib IPSet

section Loop

variable {S : Type} [IPSet S]

theorem len_uncaught {s : S} {e : PyExc} (failed : len s = .error e) : e.caught = false := by
  simp only [len] at failed
  split at failed <;> cases failed
  rfl

theorem remove_uncaught {shares : Shares S} {a : Address} {ips : S} {e : PyExc}
    (failed : shares.remove a ips = .error e) : e.caught = false := by
  simp only [Shares.remove] at failed
  split at failed
  · cases failed
    rfl
  · rcases except_bind_eq_error.mp failed with large | ⟨n, -, result⟩
    · exact len_uncaught large
    · cases result

theorem preserves_nonce_reclaim (sender : Address) (affected : List (Address × S)) (b : Balance S) :
    Preserves (fun (L : Ledger S) a => (L a).nonce) (reclaim sender affected b) := by
  induction affected generalizing b with
  | nil => exact Preserves.pure b
  | cons head tail ih =>
      refine (Preserves.lift _).bind fun senderBalance => ?_
      refine Preserves.bind (fun L => rfl) fun receivedBalance => ?_
      refine (Preserves.lift _).bind fun received => Preserves.bind ?_ fun _ => ih senderBalance
      intro L
      funext a
      change (Function.update L head.1 { L head.1 with balance := received } a).nonce = (L a).nonce
      by_cases same : a = head.1
      · subst same
        rw [Function.update_self]
      · rw [Function.update_of_ne same]

theorem preserves_other_reclaim (sender : Address) {affected : List (Address × S)} {a : Address}
    (absent : a ∉ affected.map Prod.fst) (b : Balance S) :
    Preserves (fun L : Ledger S => L a) (reclaim sender affected b) := by
  induction affected generalizing b with
  | nil => exact Preserves.pure b
  | cons head tail ih =>
      rw [List.map_cons, List.mem_cons, not_or] at absent
      refine (Preserves.lift _).bind fun senderBalance => ?_
      refine Preserves.bind (fun L => rfl) fun receivedBalance => ?_
      refine (Preserves.lift _).bind fun received => Preserves.bind ?_ fun _ => ih absent.2 _
      exact fun L => Function.update_of_ne absent.1 _ _

theorem reclaim_cons_eq_error {sender add : Address} {ips : S} {rest : List (Address × S)}
    {b : Balance S} {L L' : Ledger S} {e : PyExc}
    (failed : reclaim sender ((add, ips) :: rest) b L = .error e L') :
    (L' = L ∧ e.caught = false ∧ ¬ Revocable L b sender (add, ips)) ∨
      ∃ d r, (b.delegatedIps.lookup add = some d ∧ size (diff d ips) ≤ maxint) ∧
        ((L add).balance.receivedIps.lookup sender = some r ∧ size (diff r ips) ≤ maxint) ∧
        reclaim sender rest (b.cutDelegated add (diff d ips))
          (L.cutReceived add sender (diff r ips)) = .error e L' := by
  simp only [reclaim] at failed
  rcases bind_eq_error.mp failed with first | ⟨b', L₁, first, failed⟩
  · obtain ⟨refused, rfl⟩ := lift_eq_error.mp first
    refine Or.inl ⟨rfl, remove_uncaught (except_map_eq_error.mp refused), ?_⟩
    rintro ⟨⟨d, present, small⟩, -⟩
    rw [removeDelegatedIps_eq_ok.mpr ⟨d, present, small, rfl⟩] at refused
    cases refused
  · obtain ⟨lent, rfl⟩ := lift_eq_ok.mp first
    obtain ⟨d, present, small, rfl⟩ := removeDelegatedIps_eq_ok.mp lent
    rw [getBalance_bind] at failed
    rcases bind_eq_error.mp failed with second | ⟨b'', L₂, second, failed⟩
    · obtain ⟨refused, rfl⟩ := lift_eq_error.mp second
      refine Or.inl ⟨rfl, remove_uncaught (except_map_eq_error.mp refused), ?_⟩
      rintro ⟨-, r, borrowed, fits⟩
      rw [removeReceivedIps_eq_ok.mpr ⟨r, borrowed, fits, rfl⟩] at refused
      cases refused
    · obtain ⟨taken, rfl⟩ := lift_eq_ok.mp second
      obtain ⟨r, borrowed, fits, rfl⟩ := removeReceivedIps_eq_ok.mp taken
      exact Or.inr ⟨d, r, ⟨present, small⟩, ⟨borrowed, fits⟩, failed⟩

theorem reclaim_uncaught {sender : Address} {affected : List (Address × S)} {b : Balance S}
    {L L' : Ledger S} {e : PyExc} (failed : reclaim sender affected b L = .error e L') :
    e.caught = false := by
  induction affected generalizing b L with
  | nil => cases failed
  | cons head tail ih =>
      obtain ⟨add, ips⟩ := head
      rcases reclaim_cons_eq_error failed with ⟨-, uncaught, -⟩ | ⟨d, r, -, -, rest⟩
      · exact uncaught
      · exact ih rest

def TornLoop (L : Ledger S) (b : Balance S) (sender : Address) : List (Address × S) → Prop
  | [] => False
  | first :: rest => Revocable L b sender first ∧ ∃ p ∈ rest, ¬ Revocable L b sender p

theorem reclaim_error_iff {L L' : Ledger S} (sound : L.Sound) {s : Address} {V : IPNetwork}
    {affected : List (Address × S)} (distinct : (affected.map Prod.fst).Nodup)
    (joints : ∀ p ∈ affected, p ∈ (L s).balance.delegatedIps.joints V) {e : PyExc}
    (failed : reclaim s affected (L s).balance L = .error e L') :
    L' = L ↔ ¬ TornLoop L (L s).balance s affected := by
  cases affected with
  | nil => cases failed
  | cons first rest =>
      obtain ⟨add, ips⟩ := first
      rcases reclaim_cons_eq_error failed with ⟨same, -, refused⟩ | ⟨d, r, lent, borrowed, later⟩
      · exact iff_of_true same fun torn => refused torn.1
      · have revocable : Revocable L (L s).balance s (add, ips) := ⟨⟨d, lent⟩, ⟨r, borrowed⟩⟩
        refine iff_of_false ?_ (not_not_intro ⟨revocable, ?_⟩)
        · intro same
          have written := (preserves_other_reclaim s (List.nodup_cons.mp distinct).1 _).error later
          simp only [same, Ledger.cutReceived_self] at written
          have entry : some r = entryOf (diff r ips) := by
            rw [← borrowed.1, written]
            exact Shares.lookup_keep_self _ _ _
          obtain ⟨d', present, rfl, x, inside⟩ :=
            (Shares.mem_joints _ V add ips).mp (joints _ List.mem_cons_self)
          obtain ⟨other, -⟩ := (revocable_iff sound present).mp revocable
          obtain ⟨r', found, halves⟩ := sound.twin other present
          rw [borrowed.1] at found
          cases found
          have held : x ∈ r := (halves x).mp ((mem_inter_iff _ _ x).mp inside).2
          simp only [entryOf] at entry
          split at entry
          · cases entry
          · rw [Option.some.inj entry, mem_diff_iff] at held
            exact held.2 inside
        · by_contra all
          push Not at all
          obtain ⟨b', M, done⟩ := (reclaim_ok_iff distinct).mpr
            (List.forall_mem_cons.mpr ⟨revocable, all⟩)
          rw [done] at failed
          cases failed

theorem overlaps_uncaught {ips : S} {entries : List (Sigma fun _ : Address => S)} {e : PyExc}
    (failed : Shares.overlaps ips entries = .error e) : e.caught = false := by
  induction entries with
  | nil => cases failed
  | cons head tail ih =>
      rcases except_bind_eq_error.mp failed with large | ⟨n, -, failed⟩
      · exact len_uncaught large
      · rcases except_bind_eq_error.mp failed with later | ⟨rest, -, result⟩
        · exact ih later
        · cases result

end Loop

section Transaction

variable {S : Type} [IPSet S] [Platform]

theorem moveIps_eq_error {L L' : Ledger S} {tx : Transaction} {s : Address} {V : IPNetwork}
    (valid : Valid L tx s V) {cached : Cached} {e : PyExc}
    {debit credit : Address → IPNetwork → Balance S → Balance S}
    (failed : moveIps tx debit credit cached L = .error e L') :
    e.caught = false ∧
      (L' = L ∧ ¬ (tx.toAddr ≠ none ∧ (L s).balance.delegatedIps.Measurable V) ∨
        (tx.toAddr ≠ none ∧ (L s).balance.delegatedIps.Measurable V) ∧
          reclaim s (Platform.items ((L s).balance.delegatedIps.joints V)) (L s).balance L =
            .error e L') := by
  simp only [moveIps, valid.signed, valid.network, lift_ok, pure_bind] at failed
  cases recipient : tx.toAddr with
  | none =>
      rw [recipient, toBytes, normalizeAddress_blank] at failed
      cases failed
      exact ⟨rfl, Or.inl ⟨rfl, fun both => both.1 rfl⟩⟩
  | some t =>
      rw [(normalize_toBytes tx.toAddr t).mpr recipient, lift_ok, pure_bind, getBalance_bind]
        at failed
      rcases lift_bind_eq_error.mp failed with ⟨large, rfl⟩ | ⟨affected, small, failed⟩
      · refine ⟨overlaps_uncaught large, Or.inl ⟨rfl, ?_⟩⟩
        rintro ⟨-, measurable⟩
        rw [Balance.affectedDelegatedIps_eq_ok.mpr ⟨measurable, rfl⟩] at large
        cases large
      · obtain ⟨measurable, rfl⟩ := Balance.affectedDelegatedIps_eq_ok.mp small
        rcases bind_eq_error.mp failed with loop | ⟨b, M, -, finished⟩
        · exact ⟨reclaim_uncaught loop, Or.inr ⟨⟨Option.some_ne_none t, measurable⟩, loop⟩⟩
        · cases finished

omit [IPSet S] in
theorem setLocator_eq_error {b : Balance S} {tx : Transaction} (accepted : tx.Accepted)
    (category : tx.category = 3) {e : PyExc}
    (failed : b.setLocator tx.metadata.elements = .error e) :
    [] ∈ tx.metadata.elements ∧ e.caught = true := by
  obtain ⟨items, listed, shaped⟩ := accepted.locator category
  have elements : tx.metadata.elements = items := by rw [listed]; rfl
  rw [elements] at failed ⊢
  rcases except_bind_eq_error.mp failed with unread | ⟨dict, -, finished⟩
  · rcases locators_cases items shaped [] (none, none) with ⟨-, dict, done⟩ | ⟨blank, x, fails, cls⟩
    · rw [done] at unread
      cases unread
    · rw [fails] at unread
      cases unread
      exact ⟨blank, by simp [PyExc.caught, PyExc.isInstance, cls]⟩
  · cases finished

/-- A transaction that cannot be entered raises what `apply_block` catches. -/
inductive Book.Reverts (B : Book) (tx : Transaction) : Prop
  | signature {e : PyExc} (fails : tx.sender = .error e) (caught : e.caught = true)
  | network {s : Address} {e : PyExc} (signed : tx.sender = .ok s) (known : s ≠ nullAddress)
      (nonce : B.nonce s = tx.nonce) (category : tx.category ≤ 3)
      (fails : tx.ipNetwork = .error e) (caught : e.caught = true)
  | locator {s : Address} {V : IPNetwork} (accepts : B.Accepts tx s V) (category : tx.category = 3)
      (blank : [] ∈ tx.metadata.elements)

/-- A move of `tx` would write some borrower back and then raise. -/
def Torn (L : Ledger S) (tx : Transaction) : Prop :=
  ∃ s V, L.book.Accepts tx s V ∧ (tx.category = 0 ∨ tx.category = 1) ∧
    (tx.toAddr ≠ none ∧ (L s).balance.delegatedIps.Measurable V) ∧
    TornLoop L (L s).balance s (Platform.items ((L s).balance.delegatedIps.joints V))

theorem Book.Reverts.signed {B : Book} {tx : Transaction} (reverts : B.Reverts tx) {s : Address}
    (signed : tx.sender = .ok s) : (s ≠ nullAddress ∧ B.nonce s = tx.nonce ∧ tx.category ≤ 3) ∧
      ((∃ e, tx.ipNetwork = .error e ∧ e.caught = true) ∨
        tx.category = 3 ∧ [] ∈ tx.metadata.elements) := by
  cases reverts with
  | signature fails caught =>
      rw [signed] at fails
      cases fails
  | network signed' known nonce category fails caught =>
      rw [signed] at signed'
      cases signed'
      exact ⟨⟨known, nonce, category⟩, Or.inl ⟨_, fails, caught⟩⟩
  | locator accepts category blank =>
      have same := accepts.signed
      rw [signed] at same
      cases same
      exact ⟨⟨accepts.known, accepts.nonce, accepts.category⟩, Or.inr ⟨category, blank⟩⟩

theorem validateTransaction_eq_error {L L' : Ledger S} {tx : Transaction} {e : PyExc}
    (failed : validateTransaction tx L = .error e L') :
    L' = L ∧ (∀ s V, ¬ L.book.Accepts tx s V) ∧ (e.caught = true ↔ L.book.Reverts tx) := by
  have invalid (s : Address) (V : IPNetwork) : ¬ L.book.Accepts tx s V := by
    intro accepts
    have validated := validateTransaction_eq_ok.mpr
      ⟨⟨s, V, book_accepts_iff.mp accepts⟩, rfl, (rfl : L = L)⟩
    rw [validated] at failed
    cases failed
  rw [validateTransaction] at failed
  rcases lift_bind_eq_error.mp failed with ⟨unsigned, rfl⟩ | ⟨s, signed, failed⟩
  · refine ⟨rfl, invalid, fun caught => .signature unsigned caught, fun reverts => ?_⟩
    cases reverts with
    | signature fails caught =>
        rw [unsigned] at fails
        cases fails
        exact caught
    | network signed =>
        rw [unsigned] at signed
        cases signed
    | locator accepts => exact absurd accepts (invalid _ _)
  · have refused (text : e.caught = false) (first : ¬ L.book.Reverts tx) :
        e.caught = true ↔ L.book.Reverts tx := iff_of_false (by simp [text]) first
    split at failed
    · rename_i unknown
      cases failed
      exact ⟨rfl, invalid, refused rfl fun reverts => (reverts.signed signed).1.1 unknown⟩
    · rename_i known
      rw [getNonce_bind] at failed
      split at failed
      · rename_i nonce
        cases failed
        exact ⟨rfl, invalid, refused rfl fun reverts => nonce (reverts.signed signed).1.2.1⟩
      · rename_i nonce
        split at failed
        · rename_i category
          cases failed
          exact ⟨rfl, invalid, refused rfl fun reverts =>
            absurd (reverts.signed signed).1.2.2 (Nat.not_le_of_lt category)⟩
        · rename_i category
          rw [getBalance_bind] at failed
          rcases lift_bind_eq_error.mp failed with ⟨unreadable, rfl⟩ | ⟨V, network, failed⟩
          · refine ⟨rfl, invalid, fun caught => .network signed known (not_not.mp nonce)
              (Nat.le_of_not_lt category) unreadable caught, fun reverts => ?_⟩
            cases reverts with
            | signature fails =>
                rw [signed] at fails
                cases fails
            | network _ _ _ _ fails caught =>
                rw [unreadable] at fails
                cases fails
                exact caught
            | locator accepts => exact absurd accepts (invalid _ _)
          · split at failed
            · rename_i lacking
              cases failed
              refine ⟨rfl, invalid, refused rfl fun reverts => ?_⟩
              rcases (reverts.signed signed).2 with ⟨e, fails, -⟩ | ⟨third, -⟩
              · rw [network] at fails
                cases fails
              · omega
            · cases failed

omit [IPSet S] in
theorem setMapping_eq_error {L L' : Ledger S} {tx : Transaction} {s : Address}
    (signed : tx.sender = .ok s) {cached : Cached} {e : PyExc}
    {set : Balance S → List Bytes → Except PyExc (Balance S)}
    (failed : (setMapping tx set >>= fun _ => pure cached) L = .error e L') :
    set (L s).balance tx.metadata.elements = .error e ∧ L' = L := by
  rcases bind_eq_error.mp failed with refused | ⟨_, _, -, finished⟩
  · simp only [setMapping, signed, lift_ok, pure_bind] at refused
    rw [getBalance_bind] at refused
    rcases lift_bind_eq_error.mp refused with fails | ⟨b, -, finished⟩
    · exact fails
    · cases finished
  · cases finished

structure Failed (tx : Transaction) (L : Ledger S) (e : PyExc) (L' : Ledger S) : Prop where
  caught : e.caught = true ↔ L.book.Reverts tx
  same : L' = L ↔ ¬ Torn L tx
  nonce : ∀ a, (L' a).nonce = (L a).nonce

theorem moveIps_failed {L L' : Ledger S} (sound : L.Sound) {tx : Transaction} {s : Address}
    {V : IPNetwork} (valid : Valid L tx s V) (moves : tx.category = 0 ∨ tx.category = 1)
    {cached : Cached} {e : PyExc} {debit credit : Address → IPNetwork → Balance S → Balance S}
    (failed : moveIps tx debit credit cached L = .error e L') : Failed tx L e L' := by
  obtain ⟨uncaught, stopped⟩ := moveIps_eq_error valid failed
  have torn : Torn L tx ↔ (tx.toAddr ≠ none ∧ (L s).balance.delegatedIps.Measurable V) ∧
      TornLoop L (L s).balance s (Platform.items ((L s).balance.delegatedIps.joints V)) := by
    constructor
    · rintro ⟨s', V', accepts, -, torn⟩
      obtain ⟨rfl, rfl⟩ := accepts.unique (book_accepts_iff.mpr valid)
      exact torn
    · exact fun torn => ⟨s, V, book_accepts_iff.mpr valid, moves, torn⟩
  have passed : ¬ L.book.Reverts tx := by
    intro reverts
    rcases (reverts.signed valid.signed).2 with ⟨e, fails, -⟩ | ⟨third, -⟩
    · rw [valid.network] at fails
      cases fails
    · omega
  refine ⟨iff_of_false (by simp [uncaught]) passed, ?_, ?_⟩ <;>
    rcases stopped with ⟨rfl, stuck⟩ | ⟨ready, loop⟩
  · exact iff_of_true rfl fun torn' => stuck (torn.mp torn').1
  · have perm := Platform.items_perm ((L s).balance.delegatedIps.joints V)
    have distinct := (perm.map Prod.fst).nodup_iff.mpr
      ((L s).balance.delegatedIps.nodup_joints V)
    rw [reclaim_error_iff sound distinct (fun p => perm.mem_iff.mp) loop, torn, and_iff_right ready]
  · exact fun a => rfl
  · exact congrFun ((preserves_nonce_reclaim s _ _).error loop)

theorem applyTransaction_failed {L L' : Ledger S} (sound : L.Sound) {tx : Transaction}
    (accepted : tx.Accepted) {cached : Cached} {e : PyExc}
    (failed : applyTransaction tx cached L = .error e L') : Failed tx L e L' := by
  rcases bind_eq_error.mp failed with invalid | ⟨_, M, validated, rest⟩
  · obtain ⟨rfl, refused, caught⟩ := validateTransaction_eq_error invalid
    refine ⟨caught, iff_of_true rfl ?_, fun _ => rfl⟩
    rintro ⟨s, V, accepts, -⟩
    exact refused s V accepts
  · obtain ⟨⟨s, V, valid⟩, rfl, rfl⟩ := validateTransaction_eq_ok.mp validated
    rcases bind_eq_error.mp rest with stopped | ⟨c, M', -, finished⟩
    · have stays (category : 1 < tx.category) : ¬ Torn M tx := by
        rintro ⟨s, V, -, moves, -⟩
        omega
      have mapped {set : Balance S → List Bytes → Except PyExc (Balance S)}
          (run : (setMapping tx set >>= fun _ => pure cached) M = .error e L') :=
        setMapping_eq_error valid.signed run
      simp only [perform] at stopped
      split at stopped
      · rename_i category
        exact moveIps_failed sound valid (Or.inl category) stopped
      · split at stopped
        · rename_i category
          exact moveIps_failed sound valid (Or.inr category) stopped
        · split at stopped
          · rename_i category
            obtain ⟨fails, -⟩ := mapped stopped
            obtain ⟨b, done⟩ := setMapServer_ok (M s).balance accepted category
            rw [done] at fails
            cases fails
          · split at stopped
            · rename_i category
              obtain ⟨fails, rfl⟩ := mapped stopped
              obtain ⟨blank, caught⟩ := setLocator_eq_error accepted category fails
              refine ⟨iff_of_true caught ?_, iff_of_true rfl (stays (by omega)), fun _ => rfl⟩
              exact .locator (book_accepts_iff.mpr valid) category blank
            · cases stopped
    · cases finished

end Transaction

end IPchain
