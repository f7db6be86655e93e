import IPchain.Ledger
import IPchain.Lib.Registry

/-! What one transaction does to the ledger, said once for each program. -/

namespace IPchain

open Lib IPSet

variable {S : Type} [IPSet S]

def Balance.cutDelegated (b : Balance S) (a : Address) (rest : S) : Balance S :=
  { b with delegatedIps := b.delegatedIps.keep a rest }

def Account.cutReceived (account : Account S) (sender : Address) (rest : S) : Account S :=
  { account with balance := { account.balance with
    receivedIps := account.balance.receivedIps.keep sender rest } }

def Ledger.cutReceived (L : Ledger S) (a sender : Address) (rest : S) : Ledger S :=
  Function.update L a ((L a).cutReceived sender rest)

@[simp] theorem Ledger.cutReceived_self (L : Ledger S) (a sender : Address) (rest : S) :
    L.cutReceived a sender rest a = (L a).cutReceived sender rest := Function.update_self _ _ _

theorem Ledger.cutReceived_ne (L : Ledger S) {a c : Address} (different : c ≠ a) (sender : Address)
    (rest : S) : L.cutReceived a sender rest c = L c := Function.update_of_ne different _ _

/-- Both halves of one loan are on record, and what is left of them can be measured. -/
def Revocable (L : Ledger S) (b : Balance S) (sender : Address) (p : Address × S) : Prop :=
  (∃ d, b.delegatedIps.lookup p.1 = some d ∧ size (diff d p.2) ≤ maxint) ∧
    ∃ r, (L p.1).balance.receivedIps.lookup sender = some r ∧ size (diff r p.2) ≤ maxint

theorem removeDelegatedIps_eq_ok {b b' : Balance S} {a : Address} {ips : S} :
    b.removeDelegatedIps a ips = .ok b' ↔ ∃ d, b.delegatedIps.lookup a = some d ∧
      size (diff d ips) ≤ maxint ∧ b' = b.cutDelegated a (diff d ips) := by
  simp only [Balance.removeDelegatedIps, except_map_eq_ok, Shares.remove_eq_ok]
  constructor
  · rintro ⟨e, ⟨d, present, small, rfl⟩, rfl⟩
    exact ⟨d, present, small, rfl⟩
  · rintro ⟨d, present, small, rfl⟩
    exact ⟨_, ⟨d, present, small, rfl⟩, rfl⟩

theorem removeReceivedIps_eq_ok {b b' : Balance S} {a : Address} {ips : S} :
    b.removeReceivedIps a ips = .ok b' ↔ ∃ r, b.receivedIps.lookup a = some r ∧
      size (diff r ips) ≤ maxint ∧
      b' = { b with receivedIps := b.receivedIps.keep a (diff r ips) } := by
  simp only [Balance.removeReceivedIps, except_map_eq_ok, Shares.remove_eq_ok]
  constructor
  · rintro ⟨e, ⟨d, present, small, rfl⟩, rfl⟩
    exact ⟨d, present, small, rfl⟩
  · rintro ⟨d, present, small, rfl⟩
    exact ⟨_, ⟨d, present, small, rfl⟩, rfl⟩

theorem reclaim_cons_eq_ok {sender add : Address} {ips : S} {rest : List (Address × S)}
    {b b' : Balance S} {L L' : Ledger S} :
    reclaim sender ((add, ips) :: rest) b L = .ok b' L' ↔
      ∃ d r, (b.delegatedIps.lookup add = some d ∧ size (diff d ips) ≤ maxint) ∧
        ((L add).balance.receivedIps.lookup sender = some r ∧ size (diff r ips) ≤ maxint) ∧
        reclaim sender rest (b.cutDelegated add (diff d ips))
          (L.cutReceived add sender (diff r ips)) = .ok b' L' := by
  simp only [reclaim, bind_eq_ok, lift_eq_ok, removeDelegatedIps_eq_ok]
  constructor
  · rintro ⟨_, _, ⟨⟨d, present, small, rfl⟩, rfl⟩, _, _, read, _, _, ⟨received, rfl⟩, _, _, write, run⟩
    cases read
    obtain ⟨r, borrowed, fits, rfl⟩ := removeReceivedIps_eq_ok.mp received
    cases write
    exact ⟨d, r, ⟨present, small⟩, ⟨borrowed, fits⟩, run⟩
  · rintro ⟨d, r, ⟨present, small⟩, ⟨borrowed, fits⟩, run⟩
    exact ⟨_, _, ⟨⟨d, present, small, rfl⟩, rfl⟩, _, _, rfl, _, _,
      ⟨removeReceivedIps_eq_ok.mpr ⟨r, borrowed, fits, rfl⟩, rfl⟩, _, _, rfl, run⟩

def entryOf (s : S) : Option S := if size s = 0 then none else some s

theorem Shares.lookup_keep_self (e : Shares S) (a : Address) (s : S) :
    (e.keep a s).lookup a = entryOf s := by
  simp only [Shares.keep, entryOf]
  split
  · exact AList.lookup_erase a e
  · exact AList.lookup_insert e

/-- The two halves of the loan to `p.1` before and after the loop. -/
structure Cut (sender : Address) (b : Balance S) (L : Ledger S) (b' : Balance S) (L' : Ledger S)
    (p : Address × S) (d r : S) : Prop where
  delegated : b.delegatedIps.lookup p.1 = some d
  received : (L p.1).balance.receivedIps.lookup sender = some r
  delegated' : b'.delegatedIps.lookup p.1 = entryOf (diff d p.2)
  ledger' : L' p.1 = (L p.1).cutReceived sender (diff r p.2)

structure Reclaimed (sender : Address) (affected : List (Address × S)) (b : Balance S)
    (L : Ledger S) (b' : Balance S) (L' : Ledger S) : Prop where
  own : b'.ownIps = b.ownIps
  received : b'.receivedIps = b.receivedIps
  mapServer : b'.mapServer = b.mapServer
  locator : b'.locator = b.locator
  live : b.delegatedIps.Live → b'.delegatedIps.Live
  other : ∀ a, a ∉ affected.map Prod.fst →
    b'.delegatedIps.lookup a = b.delegatedIps.lookup a ∧ L' a = L a
  cut : ∀ p ∈ affected, ∃ d r, Cut sender b L b' L' p d r

theorem reclaim_spec {sender : Address} {affected : List (Address × S)} {b b' : Balance S}
    {L L' : Ledger S} (distinct : (affected.map Prod.fst).Nodup)
    (run : reclaim sender affected b L = .ok b' L') :
    Reclaimed sender affected b L b' L' := by
  induction affected generalizing b L with
  | nil =>
      cases run
      exact ⟨rfl, rfl, rfl, rfl, id, fun _ _ => ⟨rfl, rfl⟩, fun _ member => by cases member⟩
  | cons head tail ih =>
      obtain ⟨add, ips⟩ := head
      obtain ⟨absent, distinct⟩ := List.nodup_cons.mp distinct
      obtain ⟨d, r, ⟨present, -⟩, ⟨borrowed, -⟩, run⟩ := reclaim_cons_eq_ok.mp run
      have rest := ih distinct run
      have kept := rest.other add absent
      refine ⟨rest.own, rest.received, rest.mapServer, rest.locator, ?_, ?_, ?_⟩
      · intro live
        exact rest.live (Shares.live_keep live add _)
      · intro a outside
        rw [List.map_cons, List.mem_cons, not_or] at outside
        obtain ⟨delegated, ledger⟩ := rest.other a outside.2
        rw [delegated, ledger, L.cutReceived_ne outside.1]
        exact ⟨Shares.lookup_keep_ne _ outside.1 _, rfl⟩
      · intro p member
        rcases List.mem_cons.mp member with rfl | later
        · refine ⟨d, r, present, borrowed, ?_, kept.2.trans (L.cutReceived_self _ _ _)⟩
          rw [kept.1]
          exact Shares.lookup_keep_self _ _ _
        · have different : p.1 ≠ add := by
            rintro same
            exact absent (List.mem_map.mpr ⟨p, later, same⟩)
          obtain ⟨d', r', cut⟩ := rest.cut p later
          refine ⟨d', r', ?_, ?_, cut.delegated', ?_⟩
          · rw [← cut.delegated]
            exact (Shares.lookup_keep_ne _ different _).symm
          · rw [← cut.received, L.cutReceived_ne different]
          · rw [cut.ledger', L.cutReceived_ne different]

theorem reclaim_ok_iff {sender : Address} {affected : List (Address × S)} {b : Balance S}
    {L : Ledger S} (distinct : (affected.map Prod.fst).Nodup) :
    (∃ b' L', reclaim sender affected b L = .ok b' L') ↔
      ∀ p ∈ affected, Revocable L b sender p := by
  induction affected generalizing b L with
  | nil => exact iff_of_true ⟨b, L, rfl⟩ (fun _ member => by cases member)
  | cons head tail ih =>
      obtain ⟨add, ips⟩ := head
      obtain ⟨absent, distinct⟩ := List.nodup_cons.mp distinct
      have later (d r : S) : (∀ p ∈ tail, Revocable (L.cutReceived add sender r)
          (b.cutDelegated add d) sender p) ↔ ∀ p ∈ tail, Revocable L b sender p := by
        refine forall₂_congr fun p member => ?_
        have different : p.1 ≠ add := by
          rintro same
          exact absent (List.mem_map.mpr ⟨p, member, same⟩)
        rw [Revocable, Revocable, L.cutReceived_ne different, Balance.cutDelegated,
          Shares.lookup_keep_ne _ different]
      simp only [reclaim_cons_eq_ok, List.forall_mem_cons]
      constructor
      · rintro ⟨b', L', d, r, lent, borrowed, run⟩
        have others := (ih distinct).mp ⟨b', L', run⟩
        exact ⟨⟨⟨d, lent⟩, ⟨r, borrowed⟩⟩, (later _ _).mp others⟩
      · rintro ⟨⟨⟨d, lent⟩, ⟨r, borrowed⟩⟩, others⟩
        obtain ⟨b', L', run⟩ := (ih distinct).mpr ((later (diff d ips) (diff r ips)).mpr others)
        exact ⟨b', L', d, r, lent, borrowed, run⟩

theorem entryOf_mem (s : S) (x : IPAddress) : (∃ t, entryOf s = some t ∧ x ∈ t) ↔ x ∈ s := by
  simp only [entryOf]
  split
  · rename_i empty
    simp [(size_eq_zero s).mp empty x]
  · simp

theorem Shares.held_of_entry {e : Shares S} {a : Address} {s : S} (entry : e.lookup a = entryOf s)
    (x : IPAddress) : x ∈ e.held a ↔ x ∈ s := by
  rw [← entryOf_mem s x, ← entry]
  rfl

theorem Shares.mem_held {e : Shares S} {a : Address} {s : S} (present : e.lookup a = some s)
    (x : IPAddress) : x ∈ e.held a ↔ x ∈ s := by
  constructor
  · rintro ⟨t, found, member⟩
    rw [present] at found
    cases found
    exact member
  · intro member
    exact ⟨s, present, member⟩

theorem Shares.mem_keys_joints (e : Shares S) {V : IPNetwork} {a : Address} {x : IPAddress}
    (member : x ∈ e.held a) (inside : x ∈ V) : a ∈ (e.joints V).map Prod.fst := by
  obtain ⟨s, present, inS⟩ := member
  exact List.mem_map.mpr ⟨(a, inter (ofNetwork V) s),
    (e.mem_joints V a _).mpr ⟨s, present, rfl, x, by simp [inside, inS]⟩, rfl⟩

/-- `m` is `l` in all but what it owns and what it received from `sender`. -/
structure Kept (sender : Address) (m l : Account S) : Prop where
  nonce : m.nonce = l.nonce
  delegated : m.balance.delegatedIps = l.balance.delegatedIps
  mapServer : m.balance.mapServer = l.balance.mapServer
  locator : m.balance.locator = l.balance.locator
  received : ∀ b, b ≠ sender → m.balance.receivedIps.lookup b = l.balance.receivedIps.lookup b
  live : l.balance.receivedIps.Live → m.balance.receivedIps.Live

theorem Kept.refl (sender : Address) (l : Account S) : Kept sender l l :=
  ⟨rfl, rfl, rfl, rfl, fun _ _ => rfl, id⟩

theorem kept_cutReceived (sender : Address) (l : Account S) (rest : S) :
    Kept sender (l.cutReceived sender rest) l :=
  ⟨rfl, rfl, rfl, rfl, fun _ other => Shares.lookup_keep_ne _ other _,
    fun live => Shares.live_keep live _ _⟩

section Reclaimed

variable {sender : Address} {V : IPNetwork} {affected : List (Address × S)} {b b' : Balance S}
  {L L' : Ledger S}

theorem Reclaimed.kept (reclaimed : Reclaimed sender affected b L b' L') (a : Address) :
    Kept sender (L' a) (L a) ∧ (L' a).balance.ownIps = (L a).balance.ownIps := by
  by_cases listed : a ∈ affected.map Prod.fst
  · obtain ⟨p, member, rfl⟩ := List.mem_map.mp listed
    obtain ⟨d, r, cut⟩ := reclaimed.cut p member
    rw [cut.ledger']
    exact ⟨kept_cutReceived sender _ _, rfl⟩
  · rw [(reclaimed.other a listed).2]
    exact ⟨Kept.refl sender (L a), rfl⟩

variable (joints : affected.Perm (b.delegatedIps.joints V))

include joints

theorem Reclaimed.lent (reclaimed : Reclaimed sender affected b L b' L') (a : Address)
    (x : IPAddress) :
    x ∈ b'.delegatedIps.held a ↔ x ∈ b.delegatedIps.held a ∧ x ∉ V := by
  by_cases listed : a ∈ affected.map Prod.fst
  · obtain ⟨⟨a, j⟩, member, rfl⟩ := List.mem_map.mp listed
    obtain ⟨d, r, cut⟩ := reclaimed.cut _ member
    obtain ⟨d', present, rfl, -⟩ := (b.delegatedIps.mem_joints V a j).mp (joints.mem_iff.mp member)
    have same : d' = d := by
      have lookup := cut.delegated
      rw [present] at lookup
      exact Option.some.inj lookup
    subst same
    rw [Shares.held_of_entry cut.delegated', Shares.mem_held present]
    simp only [mem_diff_iff, mem_inter_iff, mem_ofNetwork_iff]
    tauto
  · rw [Shares.held_congr (reclaimed.other a listed).1]
    constructor
    · intro member
      refine ⟨member, fun inside => listed ?_⟩
      rw [(joints.map Prod.fst).mem_iff]
      exact b.delegatedIps.mem_keys_joints member inside
    · exact And.left

theorem Reclaimed.borrowed (reclaimed : Reclaimed sender affected b L b' L') (a : Address)
    (x : IPAddress) : x ∈ (L' a).balance.receivedIps.held sender ↔
      x ∈ (L a).balance.receivedIps.held sender ∧ ¬ (x ∈ V ∧ x ∈ b.delegatedIps.held a) := by
  by_cases listed : a ∈ affected.map Prod.fst
  · obtain ⟨⟨a, j⟩, member, rfl⟩ := List.mem_map.mp listed
    obtain ⟨d, r, cut⟩ := reclaimed.cut _ member
    obtain ⟨d', present, rfl, -⟩ := (b.delegatedIps.mem_joints V a j).mp (joints.mem_iff.mp member)
    have entry : (L' a).balance.receivedIps.lookup sender =
        entryOf (diff r (inter (ofNetwork V) d')) := by
      rw [cut.ledger']
      exact Shares.lookup_keep_self _ _ _
    rw [Shares.held_of_entry entry, Shares.mem_held cut.received, Shares.mem_held present]
    simp only [mem_diff_iff, mem_inter_iff, mem_ofNetwork_iff]
  · rw [(reclaimed.other a listed).2]
    constructor
    · intro member
      refine ⟨member, fun both => listed ?_⟩
      rw [(joints.map Prod.fst).mem_iff]
      exact b.delegatedIps.mem_keys_joints both.2 both.1
    · exact And.left

end Reclaimed

end IPchain
