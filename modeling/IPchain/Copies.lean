import IPchain.Chain
import IPchain.Service

/-! Copies of a state: a snapshot of all accounts, and a clone over the same root. -/

namespace IPchain

open Lib

namespace State

variable {S : Type} [IPSet S]

theorem Alike.refl (s : State S) : s.Alike s := ⟨rfl, rfl, rfl, rfl⟩

theorem Alike.symm {s t : State S} (alike : s.Alike t) : t.Alike s :=
  ⟨alike.account.symm, alike.trie.symm, alike.auxvars.symm, alike.journal.symm⟩

theorem Alike.trans {s t u : State S} (first : s.Alike t) (second : t.Alike u) : s.Alike u :=
  ⟨second.account.trans first.account, second.trie.trans first.trie,
    second.auxvars.trans first.auxvars, second.journal.trans first.journal⟩

theorem alike_cacheAll (s : State S) (addresses : List Address) :
    s.Alike (s.cacheAll addresses) := by
  induction addresses generalizing s with
  | nil => exact Alike.refl s
  | cons a rest ih => exact (s.alike_read a).trans (ih _)

theorem cached_getAndCacheAccount {s : State S} {a : Address} {acct : CachedAccount S}
    (present : s.cache.lookup a = some acct) (b : Address) :
    (s.getAndCacheAccount b).2.cache.lookup a = some acct := by
  simp only [getAndCacheAccount]
  split
  · exact present
  · rename_i absent
    have different : a ≠ b := by
      rintro rfl
      rw [absent] at present
      cases present
    exact (AList.lookup_insert_ne different).trans present

theorem cached_cacheAll_of_cached {s : State S} {a : Address} {acct : CachedAccount S}
    (present : s.cache.lookup a = some acct) (addresses : List Address) :
    (s.cacheAll addresses).cache.lookup a = some acct := by
  induction addresses generalizing s with
  | nil => exact present
  | cons b rest ih => exact ih (cached_getAndCacheAccount present b)

theorem cached_cacheAll (s : State S) {addresses : List Address} {a : Address}
    (listed : a ∈ addresses) : ∃ acct, (s.cacheAll addresses).cache.lookup a = some acct := by
  induction addresses generalizing s with
  | nil => cases listed
  | cons b rest ih =>
      rcases List.mem_cons.mp listed with rfl | later
      · exact ⟨_, cached_cacheAll_of_cached (s.getAndCacheAccount_spec a).1 rest⟩
      · exact ih _ later

theorem account_setAlloc {l : List (Address × Account S)} (distinct : (l.map Prod.fst).Nodup)
    (s : State S) : (∀ row ∈ l, (setAlloc l s).account row.1 = row.2) ∧
      ∀ a, a ∉ l.map Prod.fst → (setAlloc l s).account a = s.account a := by
  induction l generalizing s with
  | nil => exact ⟨fun _ member => absurd member List.not_mem_nil, fun _ _ => rfl⟩
  | cons row rest ih =>
      obtain ⟨b, account⟩ := row
      obtain ⟨absent, distinct⟩ := List.nodup_cons.mp distinct
      obtain ⟨listed, others⟩ := ih distinct ((s.setBalance b account.balance).setNonce b account.nonce)
      constructor
      · intro row member
        rcases List.mem_cons.mp member with rfl | later
        · refine (others b absent).trans ?_
          rw [setNonce, account_setParam, Function.update_self, setBalance, account_setParam,
            Function.update_self]
          rfl
        · exact listed row later
      · intro a outside
        rw [List.map_cons, List.mem_cons, not_or] at outside
        rw [setAlloc, others a outside.2, setNonce, account_setParam,
          Function.update_of_ne outside.1, setBalance, account_setParam,
          Function.update_of_ne outside.1]

variable [Platform]

theorem account_fromSnapshot {h : FullSnapshot S} (distinct : (h.alloc.map Prod.fst).Nodup) :
    (∀ row ∈ h.alloc, (fromSnapshot h).account row.1 = row.2) ∧
      ∀ a, a ∉ h.alloc.map Prod.fst → (fromSnapshot h).account a = .blank := by
  have perm := Platform.items_perm h.alloc
  have distinct' := (perm.map Prod.fst).nodup_iff.mpr distinct
  obtain ⟨listed, others⟩ := account_setAlloc distinct' (State.initial : State S)
  rw [fromSnapshot, account_commit]
  constructor
  · intro row member
    exact listed row (perm.mem_iff.mpr member)
  · intro a outside
    apply others a
    rwa [(perm.map Prod.fst).mem_iff]

variable [TrieKeys S]

theorem alike_toSnapshot (s : State S) : s.Alike s.toSnapshot.2 := alike_cacheAll s _

theorem account_copied (s : State S) : (fromSnapshot s.toSnapshot.1).account = s.account := by
  have alike := s.alike_toSnapshot
  have rows : s.toSnapshot.1.alloc =
      s.toSnapshot.2.cache.entries.map fun entry => (entry.1, entry.2.account) := rfl
  have keys : s.toSnapshot.1.alloc.map Prod.fst = s.toSnapshot.2.cache.keys := by
    rw [rows, List.map_map]
    rfl
  have distinct : (s.toSnapshot.1.alloc.map Prod.fst).Nodup := by
    rw [keys]
    exact AList.keys_nodup _
  obtain ⟨listed, others⟩ := account_fromSnapshot distinct
  rw [← alike.account]
  funext a
  cases present : s.toSnapshot.2.cache.lookup a with
  | some acct =>
      have member : (a, acct.account) ∈ s.toSnapshot.1.alloc := by
        rw [rows]
        exact List.mem_map.mpr ⟨⟨a, acct⟩, AList.mem_lookup_iff.mp present, rfl⟩
      rw [listed _ member, account, present]
      rfl
  | none =>
      have absent : s.trie.lookup a = none := by
        by_contra some
        have known := (TrieKeys.mem_keys s.trie a).mpr (Finmap.lookup_isSome.mp
          (Option.isSome_iff_ne_none.mpr some))
        obtain ⟨acct, cached⟩ := s.cached_cacheAll known
        rw [toSnapshot] at present
        rw [present] at cached
        cases cached
      have outside : a ∉ s.toSnapshot.1.alloc.map Prod.fst := by
        rw [keys]
        exact AList.lookup_eq_none.mp present
      rw [others a outside, account, present, alike.trie, stored, absent]
      rfl

end State

theorem State.clone_quiet {S : Type} [IPSet S] {s : State S} (quiet : s.journal = []) :
    ∃ t, s.clone = .ok t ∧ t.trie = s.trie ∧ t.journal = [] := by
  simp only [clone, quiet]
  exact ⟨_, rfl, rfl, rfl⟩

end IPchain
