import IPchain.Lib.IPSet
import IPchain.Lib.Program
import IPchain.Transactions
import Mathlib.Data.List.AList

/-! Balances: the address space an account owns, lends and borrows, and its mappings. -/

namespace IPchain

open Lib

abbrev Shares (S : Type) := AList fun _ : Address => S

structure Balance (S : Type) where
  ownIps : S
  delegatedIps : Shares S
  receivedIps : Shares S
  mapServer : AList fun _ : IPNetwork => Bytes
  locator : AList fun _ : IPNetwork => Option Nat × Option Nat

/-- `sys.maxint`, the largest size that `len` returns. -/
def maxint : Nat := 2 ^ 63 - 1

variable {S : Type} [IPSet S]

open IPSet

instance : DecidableEq (Balance S) := fun b c =>
  decidable_of_iff (b.ownIps = c.ownIps ∧ b.delegatedIps.entries = c.delegatedIps.entries ∧
    b.receivedIps.entries = c.receivedIps.entries ∧ b.mapServer.entries = c.mapServer.entries ∧
    b.locator.entries = c.locator.entries) (by
      cases b
      cases c
      simp only [Balance.mk.injEq, AList.ext_iff])

def len (s : S) : Except PyExc Nat :=
  if size s ≤ maxint then .ok (size s)
  else .error ⟨.indexError, "range contains more than sys.maxint IP addresses"⟩

theorem len_eq_ok {s : S} {n : Nat} : len s = .ok n ↔ size s ≤ maxint ∧ n = size s := by
  simp only [len]
  split
  · rename_i small
    simp [small, eq_comm]
  · rename_i large
    simp [large]

namespace Shares

def held (e : Shares S) (a : Address) : Set IPAddress := {x | ∃ s, e.lookup a = some s ∧ x ∈ s}

def Live (e : Shares S) : Prop := ∀ a s, e.lookup a = some s → ∃ x, x ∈ s

/-- `add_delegated_ips` and `add_received_ips`. -/
def add (e : Shares S) (a : Address) (ips : IPNetwork) : Shares S :=
  match e.lookup a with
  | some s => e.insert a (IPSet.add s ips)
  | none => e.insert a (ofNetwork ips)

def keep (e : Shares S) (a : Address) (s : S) : Shares S :=
  if size s = 0 then e.erase a else e.insert a s

/-- `remove_delegated_ips` and `remove_received_ips`. -/
def remove (e : Shares S) (a : Address) (ips : S) : Except PyExc (Shares S) :=
  match e.lookup a with
  | none => .error ⟨.keyError, ""⟩
  | some s => do
      let rest := diff s ips
      let n ← len rest
      pure (if n = 0 then e.erase a else e.insert a rest)

theorem remove_eq_ok {e e' : Shares S} {a : Address} {ips : S} : e.remove a ips = .ok e' ↔
    ∃ s, e.lookup a = some s ∧ size (diff s ips) ≤ maxint ∧ e' = e.keep a (diff s ips) := by
  simp only [remove]
  split
  · rename_i absent
    simp [absent]
  · rename_i s present
    simp only [except_bind_eq_ok, len_eq_ok, present, Option.some.injEq, exists_eq_left']
    constructor
    · rintro ⟨n, ⟨small, rfl⟩, result⟩
      cases result
      exact ⟨small, rfl⟩
    · rintro ⟨small, rfl⟩
      exact ⟨_, ⟨small, rfl⟩, rfl⟩

theorem lookup_keep_ne (e : Shares S) {a b : Address} (other : b ≠ a) (s : S) :
    (e.keep a s).lookup b = e.lookup b := by
  simp only [keep]
  split
  · exact AList.lookup_erase_ne other
  · exact AList.lookup_insert_ne other

theorem lookup_keep (e : Shares S) (a : Address) (s t : S) :
    (e.keep a s).lookup a = some t ↔ (∃ x, x ∈ s) ∧ t = s := by
  simp only [keep]
  split
  · rename_i empty
    simp [AList.lookup_erase, (size_eq_zero s).mp empty]
  · rename_i nonempty
    simp [AList.lookup_insert, (size_pos s).mp (Nat.pos_of_ne_zero nonempty), eq_comm]

theorem held_congr {e f : Shares S} {a : Address} (same : e.lookup a = f.lookup a) :
    e.held a = f.held a := by
  simp only [held, same]

theorem live_keep {e : Shares S} (live : e.Live) (a : Address) (s : S) : (e.keep a s).Live := by
  intro b t present
  by_cases same : b = a
  · subst same
    obtain ⟨nonempty, rfl⟩ := (e.lookup_keep b s t).mp present
    exact nonempty
  · rw [e.lookup_keep_ne same] at present
    exact live b t present

theorem lookup_add_ne (e : Shares S) {a b : Address} (other : b ≠ a) (ips : IPNetwork) :
    (e.add a ips).lookup b = e.lookup b := by
  simp only [add]
  split <;> exact AList.lookup_insert_ne other

theorem held_add (e : Shares S) (a : Address) (ips : IPNetwork) (x : IPAddress) :
    x ∈ (e.add a ips).held a ↔ x ∈ e.held a ∨ x ∈ ips := by
  simp only [add, held, Set.mem_ofPred_eq]
  split
  · rename_i s present
    simp [AList.lookup_insert, present]
  · rename_i absent
    simp [AList.lookup_insert, absent]

theorem live_add {e : Shares S} (live : e.Live) (a : Address) (ips : IPNetwork) :
    (e.add a ips).Live := by
  intro b t present
  by_cases same : b = a
  · subst same
    have inside : ips.ip ∈ (e.add b ips).held b := (e.held_add b ips _).mpr (Or.inr ips.ip_mem)
    obtain ⟨s, found, member⟩ := inside
    rw [present] at found
    cases found
    exact ⟨_, member⟩
  · rw [e.lookup_add_ne same] at present
    exact live b t present

def overlaps (ips : S) : List (Sigma fun _ : Address => S) → Except PyExc (List (Address × S))
  | [] => .ok []
  | ⟨a, s⟩ :: rest => do
      let joint := inter ips s
      let n ← len joint
      let addresses ← overlaps ips rest
      pure (if 0 < n then (a, joint) :: addresses else addresses)

def joint (ips : S) (entry : Sigma fun _ : Address => S) : Option (Address × S) :=
  if 0 < size (inter ips entry.2) then some (entry.1, inter ips entry.2) else none

/-- What an account has lent out of `ips`, borrower by borrower. -/
def joints (e : Shares S) (ips : IPNetwork) : List (Address × S) :=
  e.entries.filterMap (joint (ofNetwork ips))

/-- Every overlap is small enough for `len`. -/
def Measurable (e : Shares S) (ips : IPNetwork) : Prop :=
  ∀ a s, e.lookup a = some s → size (inter (ofNetwork ips) s) ≤ maxint

theorem overlaps_eq_ok (ips : S) (entries : List (Sigma fun _ : Address => S))
    (r : List (Address × S)) : overlaps ips entries = .ok r ↔
      (∀ entry ∈ entries, size (inter ips entry.2) ≤ maxint) ∧
        r = entries.filterMap (joint ips) := by
  induction entries generalizing r with
  | nil => simp [overlaps, eq_comm]
  | cons head tail ih =>
      obtain ⟨a, s⟩ := head
      simp only [overlaps, except_bind_eq_ok, len_eq_ok, ih, List.forall_mem_cons,
        List.filterMap_cons, joint]
      constructor
      · rintro ⟨n, ⟨small, rfl⟩, rest, ⟨others, rfl⟩, result⟩
        cases result
        refine ⟨⟨small, others⟩, ?_⟩
        split <;> simp_all
      · rintro ⟨⟨small, others⟩, rfl⟩
        refine ⟨_, ⟨small, rfl⟩, _, ⟨others, rfl⟩, ?_⟩
        split <;> simp_all [Pure.pure, Except.pure]

theorem mem_joints (e : Shares S) (ips : IPNetwork) (a : Address) (j : S) :
    (a, j) ∈ e.joints ips ↔
      ∃ s, e.lookup a = some s ∧ j = inter (ofNetwork ips) s ∧ ∃ x, x ∈ j := by
  simp only [joints, List.mem_filterMap, joint, Option.ite_none_right_eq_some, size_pos,
    Option.some.injEq, Prod.mk.injEq]
  constructor
  · rintro ⟨⟨b, s⟩, member, nonempty, rfl, rfl⟩
    exact ⟨s, AList.mem_lookup_iff.mpr member, rfl, nonempty⟩
  · rintro ⟨s, present, rfl, nonempty⟩
    exact ⟨⟨a, s⟩, AList.mem_lookup_iff.mp present, nonempty, rfl, rfl⟩

theorem joint_sublist (ips : S) (entries : List (Sigma fun _ : Address => S)) :
    ((entries.filterMap (joint ips)).map Prod.fst).Sublist (entries.map Sigma.fst) := by
  induction entries with
  | nil => exact List.Sublist.refl _
  | cons head tail ih =>
      simp only [List.filterMap_cons, joint]
      split
      · exact ih.cons _
      · rename_i found
        split at found
        · cases found
          exact ih.cons_cons _
        · cases found

theorem nodup_joints (e : Shares S) (ips : IPNetwork) : ((e.joints ips).map Prod.fst).Nodup :=
  List.Nodup.sublist (joint_sublist _ _) e.nodupKeys

end Shares

namespace Balance

def blank : Balance S := ⟨empty, ∅, ∅, ∅, ∅⟩

def addOwnIps (b : Balance S) (ips : IPNetwork) : Balance S :=
  { b with ownIps := IPSet.add b.ownIps ips }

def removeOwnIps (b : Balance S) (ips : IPNetwork) : Balance S :=
  { b with ownIps := IPSet.remove b.ownIps ips }

def addDelegatedIps (b : Balance S) (a : Address) (ips : IPNetwork) : Balance S :=
  { b with delegatedIps := b.delegatedIps.add a ips }

def removeDelegatedIps (b : Balance S) (a : Address) (ips : S) : Except PyExc (Balance S) :=
  (fun e => { b with delegatedIps := e }) <$> b.delegatedIps.remove a ips

def addReceivedIps (b : Balance S) (a : Address) (ips : IPNetwork) : Balance S :=
  { b with receivedIps := b.receivedIps.add a ips }

def removeReceivedIps (b : Balance S) (a : Address) (ips : S) : Except PyExc (Balance S) :=
  (fun e => { b with receivedIps := e }) <$> b.receivedIps.remove a ips

def inOwnIps (b : Balance S) (ips : IPNetwork) : Bool := contains b.ownIps ips

def affectedDelegatedIps (b : Balance S) (ips : IPNetwork) : Except PyExc (List (Address × S)) :=
  Shares.overlaps (ofNetwork ips) b.delegatedIps.entries

/-- An address family, an address of it and the account that serves it, over and over. -/
def mapServers (servers : AList fun _ : IPNetwork => Bytes) :
    List Bytes → Except PyExc (AList fun _ : IPNetwork => Bytes)
  | [] => .ok servers
  | afi :: rest => do
      let n ← bytesToInt afi
      match rest with
      | [] => .error ⟨.indexError, "list index out of range"⟩
      | ip :: rest => do
          let ip ← ipaddrToNetaddr n ip
          match rest with
          | [] => .error ⟨.indexError, "list index out of range"⟩
          | address :: rest => mapServers (servers.insert ip address) rest

def setMapServer (b : Balance S) (metadata : List Bytes) : Except PyExc (Balance S) := do
  let servers ← mapServers ∅ metadata
  pure { b with mapServer := servers, locator := ∅ }

/-- All addresses are given the one list `l`, so each ends with what was stored last. -/
def locators (ips : List IPNetwork) (l : Option Nat × Option Nat) :
    List Bytes → Except PyExc (AList fun _ : IPNetwork => Option Nat × Option Nat)
  | [] => .ok (ips.foldr (fun ip dict => dict.insert ip l) ∅)
  | afi :: rest => do
      let n ← bytesToInt afi
      match rest with
      | [] => .error ⟨.indexError, "list index out of range"⟩
      | ip :: rest => do
          let ip ← ipaddrToNetaddr n ip
          match rest with
          | [] => .error ⟨.indexError, "list index out of range"⟩
          | priority :: rest => do
              let priority ← bytesToInt priority
              match rest with
              | [] => .error ⟨.indexError, "list index out of range"⟩
              | weight :: rest => do
                  let weight ← bytesToInt weight
                  locators (ip :: ips) (some priority, some weight) rest

def setLocator (b : Balance S) (metadata : List Bytes) : Except PyExc (Balance S) := do
  let dict ← locators [] (none, none) metadata
  pure { b with locator := dict, mapServer := ∅ }

theorem affectedDelegatedIps_eq_ok {b : Balance S} {ips : IPNetwork} {r : List (Address × S)} :
    b.affectedDelegatedIps ips = .ok r ↔
      b.delegatedIps.Measurable ips ∧ r = b.delegatedIps.joints ips := by
  rw [affectedDelegatedIps, Shares.overlaps_eq_ok]
  refine and_congr ?_ Iff.rfl
  constructor
  · intro small a s present
    exact small ⟨a, s⟩ (AList.mem_lookup_iff.mp present)
  · rintro small ⟨a, s⟩ member
    exact small a s (AList.mem_lookup_iff.mpr member)

end Balance

theorem addressOfPacked_ok (f : Family) (b : Bytes) (sized : b.length = f.packedSize) :
    ∃ x, addressOfPacked f b = .ok x := by
  rw [addressOfPacked, dif_pos sized]
  exact ⟨_, rfl⟩

theorem AfiAddress.reads {afi ip : Bytes} (entry : AfiAddress afi ip) :
    ∃ n x, bytesToInt afi = .ok n ∧ ipaddrToNetaddr n ip = .ok x := by
  rcases entry with ⟨known, sized⟩ | ⟨known, sized⟩
  · obtain ⟨x, read⟩ := addressOfPacked_ok .v4 ip sized
    exact ⟨1, IPNetwork.ofAddress x, known, by simp [ipaddrToNetaddr, read]⟩
  · obtain ⟨x, read⟩ := addressOfPacked_ok .v6 ip sized
    exact ⟨2, IPNetwork.ofAddress x, known, by simp [ipaddrToNetaddr, read]⟩

theorem mapServers_ok (items : List Bytes) (shaped : MapServerItems items)
    (servers : AList fun _ : IPNetwork => Bytes) :
    ∃ dict, Balance.mapServers servers items = .ok dict := by
  fun_induction MapServerItems items generalizing servers with
  | case1 => exact ⟨servers, rfl⟩
  | case2 afi ip address rest ih =>
      obtain ⟨entry, others⟩ := shaped
      obtain ⟨n, x, known, read⟩ := entry.reads
      obtain ⟨dict, done⟩ := ih others (servers.insert x address)
      refine ⟨dict, ?_⟩
      rw [Balance.mapServers, known]
      simp only [bind, Except.bind, read, done]
  | case3 => exact shaped.elim

theorem AfiAddress.nonempty {afi ip : Bytes} (entry : AfiAddress afi ip) : afi ≠ [] ∧ ip ≠ [] := by
  constructor
  · rintro rfl
    rcases entry with ⟨known, -⟩ | ⟨known, -⟩ <;> cases known
  · rintro rfl
    rcases entry with ⟨-, sized⟩ | ⟨-, sized⟩ <;> cases sized

theorem bytesToInt_cases (b : Bytes) : (b ≠ [] ∧ ∃ n, bytesToInt b = .ok n) ∨
    (b = [] ∧ ∃ e, bytesToInt b = .error e ∧ e.cls = .valueError) := by
  by_cases blank : b = []
  · exact Or.inr ⟨blank, by simp [bytesToInt, blank]⟩
  · exact Or.inl ⟨blank, by simp [bytesToInt, blank]⟩

/-- Reading the locators fails exactly on a priority or a weight that is stored as the
empty string, which is how zero is stored. -/
theorem locators_cases (items : List Bytes) (shaped : LocatorItems items) (ips : List IPNetwork)
    (l : Option Nat × Option Nat) :
    ([] ∉ items ∧ ∃ dict, Balance.locators ips l items = .ok dict) ∨
      ([] ∈ items ∧ ∃ e, Balance.locators ips l items = .error e ∧ e.cls = .valueError) := by
  fun_induction LocatorItems items generalizing ips l with
  | case1 => simp [Balance.locators]
  | case2 afi ip priority weight rest ih =>
      obtain ⟨entry, others⟩ := shaped
      obtain ⟨n, x, known, read⟩ := entry.reads
      have parts := entry.nonempty
      rcases bytesToInt_cases priority with ⟨present, p, first⟩ | ⟨rfl, e, first, cls⟩
      · rcases bytesToInt_cases weight with ⟨given, w, second⟩ | ⟨rfl, e, second, cls⟩
        · have step : Balance.locators ips l (afi :: ip :: priority :: weight :: rest) =
              Balance.locators (x :: ips) (some p, some w) rest := by
            rw [Balance.locators, known]
            simp only [bind, Except.bind, read, first, second]
          rw [step]
          rcases ih others (x :: ips) (some p, some w) with ⟨clean, done⟩ | ⟨blank, fails⟩
          · refine Or.inl ⟨?_, done⟩
            simp [parts.1.symm, parts.2.symm, present.symm, given.symm, clean]
          · exact Or.inr ⟨by simp [blank], fails⟩
        · refine Or.inr ⟨by simp, e, ?_, cls⟩
          rw [Balance.locators, known]
          simp only [bind, Except.bind, read, first, second]
      · refine Or.inr ⟨by simp, e, ?_, cls⟩
        rw [Balance.locators, known]
        simp only [bind, Except.bind, read, first]
  | case3 => exact shaped.elim

end IPchain
