import IPchain.Lib.Concrete
import IPchain.Service

/-! Snapshots of the account state that are taken and gone back to inside one another. -/

namespace IPchain

open Lib

variable {S : Type} [IPSet S]

/-- The second cache has the accounts of the first one, and others as the trie has them. -/
def Widens (trie : Accounts S) (c d : Cache S) : Prop :=
  ∀ a, d.lookup a = c.lookup a ∨
    c.lookup a = none ∧ ∃ acct, d.lookup a = some acct ∧ acct.account = stored trie a

def undoAll (records : List (Undo S)) (cache : Cache S) : Cache S :=
  records.foldl (fun cache u => u.run cache) cache

theorem Widens.refl (trie : Accounts S) (c : Cache S) : Widens trie c c := fun _ => Or.inl rfl

theorem Widens.of_lookup {trie : Accounts S} {c d : Cache S}
    (same : ∀ a, d.lookup a = c.lookup a) : Widens trie c d := fun a => Or.inl (same a)

theorem Widens.trans {trie : Accounts S} {c d e : Cache S} (first : Widens trie c d)
    (second : Widens trie d e) : Widens trie c e := by
  intro a
  rcases first a with same | ⟨absent, acct, present, read⟩
  · rcases second a with again | ⟨absent, more⟩
    · exact Or.inl (again.trans same)
    · exact Or.inr ⟨same.symm.trans absent, more⟩
  · rcases second a with again | ⟨none, -⟩
    · exact Or.inr ⟨absent, acct, again.trans present, read⟩
    · rw [present] at none
      cases none

theorem Widens.run {trie : Accounts S} {c d : Cache S} (widens : Widens trie c d) {u : Undo S}
    (known : u.address ∈ c) : Widens trie (u.run c) (u.run d) := by
  have present : c.lookup u.address ≠ none := by
    rw [Ne, AList.lookup_eq_none]
    exact not_not_intro known
  intro a
  rw [u.lookup_run, u.lookup_run]
  by_cases own : a = u.address
  · subst own
    rw [if_pos rfl, if_pos rfl, (widens u.address).resolve_right fun other => present other.1]
    exact Or.inl rfl
  · rw [if_neg own, if_neg own]
    exact widens a

theorem Widens.undoAll {trie : Accounts S} {records rest : List (Undo S)} {c d : Cache S}
    (widens : Widens trie c d) (undoable : Undoable trie (records ++ rest) c) :
    Widens trie (undoAll records c) (undoAll records d) := by
  induction records generalizing c d with
  | nil => exact widens
  | cons u records ih => exact ih (widens.run undoable.2.1) undoable.2.2

omit [IPSet S] in
theorem undoAll_append (first second : List (Undo S)) (c : Cache S) :
    undoAll (first ++ second) c = undoAll second (undoAll first c) := List.foldl_append

omit [IPSet S] in
theorem rollback_append (records rest : List (Undo S)) (cache : Cache S) :
    rollback rest.length (records ++ rest) cache = (rest, undoAll records cache) := by
  induction records generalizing cache with
  | nil =>
      cases rest with
      | nil => rfl
      | cons u rest => exact if_neg (Nat.lt_irrefl _)
  | cons u records ih =>
      have longer : rest.length < (records ++ rest).length + 1 := by
        rw [List.length_append]
        omega
      rw [List.cons_append, rollback, if_pos longer, ih]
      rfl

namespace State

/-- The second state comes from the first one by journalled writes and by reads. -/
def Since (t u : State S) : Prop :=
  u.trie = t.trie ∧ ∃ records, u.journal = records ++ t.journal ∧
    Widens t.trie t.cache (undoAll records u.cache)

theorem Since.refl (t : State S) : Since t t := ⟨rfl, [], rfl, Widens.refl _ _⟩

theorem Since.trans {s t u : State S} (first : Since s t) (second : Since t u) : Since s u := by
  obtain ⟨trieT, recordsT, journalT, cacheT⟩ := first
  obtain ⟨trieU, recordsU, journalU, cacheU⟩ := second
  refine ⟨trieU.trans trieT, recordsU ++ recordsT, ?_, ?_⟩
  · rw [journalU, journalT, List.append_assoc]
  · have undoable := t.undoable
    rw [journalT] at undoable
    rw [undoAll_append]
    rw [trieT] at cacheU undoable
    exact cacheT.trans (cacheU.undoAll undoable)

theorem since_getAndCacheAccount (s : State S) (a : Address) :
    Since s (s.getAndCacheAccount a).2 := by
  simp only [getAndCacheAccount]
  split
  · exact Since.refl s
  · rename_i absent
    refine ⟨rfl, [], rfl, ?_⟩
    intro b
    by_cases same : b = a
    · subst same
      exact Or.inr ⟨absent, _, AList.lookup_insert _, (s.loadAccount_spec b).2.2⟩
    · exact Or.inl (AList.lookup_insert_ne same)

theorem since_setAndJournal (s : State S) (a : Address) (acct : CachedAccount S)
    (present : s.cache.lookup a = some acct) (p : Param S) :
    Since s (s.setAndJournal a acct present p) := by
  refine ⟨rfl, [⟨a, p.current acct.account, acct.touched⟩], rfl, Widens.of_lookup ?_⟩
  intro b
  change (Undo.run _ (s.cache.insert a _)).lookup b = _
  rw [Undo.lookup_run]
  by_cases same : b = a
  · subst same
    rw [if_pos rfl, AList.lookup_insert, present]
    simp [Param.assign_current]
  · rw [if_neg same, AList.lookup_insert_ne same]

theorem since_setParam (s : State S) (a : Address) (p : Account S → Param S) :
    Since s (s.setParam a p) :=
  (s.since_getAndCacheAccount a).trans (since_setAndJournal _ _ _ _ _)

theorem account_of_widens {s t : State S} (trie : t.trie = s.trie)
    (widens : Widens s.trie s.cache t.cache) : t.account = s.account := by
  funext a
  rw [account, account, trie]
  rcases widens a with same | ⟨absent, acct, present, read⟩
  · rw [same]
  · rw [absent, present, Option.map_none, Option.map_some, Option.getD_none, Option.getD_some, read]

theorem Since.revert {t u : State S} (since : Since t u) : ∃ v, revert t.snapshot u = .ok () v ∧
    v.account = t.account ∧ v.trie = t.trie ∧ v.toAuxVars = t.toAuxVars ∧ Since t v := by
  obtain ⟨trie, records, journal, widens⟩ := since
  have rolled : rollback t.journal.length u.journal u.cache =
      (t.journal, undoAll records u.cache) := by
    rw [journal, rollback_append]
  have opened : (u.unwind t.snapshot.journalLength).journal = t.journal ∧
      (u.unwind t.snapshot.journalLength).cache = undoAll records u.cache := by
    simp only [unwind, snapshot, rolled, and_self]
  have back : Widens t.trie t.cache (u.unwind t.snapshot.journalLength).cache := by
    rw [opened.2]
    exact widens
  have account : (u.unwind t.snapshot.journalLength).account = t.account :=
    account_of_widens trie back
  exact ⟨_, if_pos trie.symm, account, trie, rfl, trie, [], opened.1, back⟩

theorem trie_of_revert {h : Snapshot S} {u v : State S} (reverted : revert h u = .ok () v) :
    v.trie = h.trie := by
  simp only [revert] at reverted
  split at reverted
  · rename_i same
    cases reverted
    exact same.symm
  · split at reverted
    · cases reverted
      rfl
    · cases reverted

/-- A call on a state. The snapshots that can be gone back to are numbered from the newest one. -/
inductive Op (S : Type) where
  | getNonce (a : Address)
  | getBalance (a : Address)
  | setBalance (a : Address) (balance : Balance S)
  | setNonce (a : Address) (n : Nat)
  | incrementNonce (a : Address)
  | commit
  | snapshot
  | revert (i : Nat)

/-- A snapshot, by the state it was taken of, and whether a commit has come after it. -/
structure Mark (S : Type) [IPSet S] where
  taken : State S
  committed : Bool

structure Session (S : Type) [IPSet S] where
  state : State S
  marks : List (Mark S)

def Session.start (s : State S) : Session S := ⟨s, [⟨s, false⟩]⟩

def Op.run : Op S → EStateM PyExc (Session S) Unit
  | .getNonce a => fun s => .ok () { s with state := (s.state.getNonce a).2 }
  | .getBalance a => fun s => .ok () { s with state := (s.state.getBalance a).2 }
  | .setBalance a balance => fun s => .ok () { s with state := s.state.setBalance a balance }
  | .setNonce a n => fun s => .ok () { s with state := s.state.setNonce a n }
  | .incrementNonce a => fun s => .ok () { s with state := s.state.incrementNonce a }
  | .commit => fun s =>
      .ok () ⟨s.state.commit, s.marks.map fun m => { m with committed := true }⟩
  | .snapshot => fun s => .ok () { s with marks := ⟨s.state, false⟩ :: s.marks }
  | .revert i => fun s =>
      match s.marks.drop i with
      | [] => .ok () s
      | m :: rest =>
          match State.revert m.taken.snapshot s.state with
          | .ok _ t => .ok () ⟨t, m :: rest⟩
          | .error e t => .error e ⟨t, m :: rest⟩

def runOps : List (Op S) → EStateM PyExc (Session S) Unit
  | [] => fun s => .ok () s
  | op :: ops => fun s =>
      match op.run s with
      | .ok _ t => runOps ops t
      | .error e t => .error e t

/-- A snapshot that was taken with a journal is only gone back to when nothing was committed
since, or when the root is the same. -/
def Op.Proper (s : Session S) : Op S → Prop
  | .revert i => ∃ m rest, s.marks.drop i = m :: rest ∧
      (m.taken.journal = [] ∨ m.committed = false ∨ s.state.trie = m.taken.trie)
  | _ => True

def ProperRun : List (Op S) → Session S → Prop
  | [], _ => True
  | op :: ops, s => op.Proper s ∧ ∀ t, op.run s = .ok () t → ProperRun ops t

/-- Each snapshot is one of the past of the next newer one, and the newest of the past of the
state. -/
inductive Stacked : List (Mark S) → State S → Prop
  | nil (u : State S) : Stacked [] u
  | cons {m : Mark S} {rest : List (Mark S)} {u : State S} (below : Stacked rest m.taken)
      (since : m.committed = false → Since m.taken u)
      (older : ∀ k ∈ rest, k.committed = false → m.committed = false) : Stacked (m :: rest) u

variable {marks rest : List (Mark S)} {m : Mark S} {u v : State S}

theorem Stacked.step (stacked : Stacked marks u) (since : Since u v) : Stacked marks v := by
  cases stacked with
  | nil => exact .nil v
  | cons below taken older => exact .cons below (fun clear => (taken clear).trans since) older

theorem Stacked.commit (stacked : Stacked marks u) (v : State S) :
    Stacked (marks.map fun m => { m with committed := true }) v := by
  induction stacked generalizing v with
  | nil => exact .nil v
  | @cons m rest u below taken older ih =>
      refine .cons (ih m.taken) (fun clear => by cases clear) ?_
      intro k listed clear
      obtain ⟨l, -, rfl⟩ := List.mem_map.mp listed
      cases clear

theorem Stacked.drop (stacked : Stacked marks u) {i : Nat} (found : marks.drop i = m :: rest) :
    Stacked (m :: rest) m.taken ∧ (m.committed = false → Since m.taken u) := by
  induction stacked generalizing i with
  | nil =>
      rw [List.drop_nil] at found
      cases found
  | @cons k others u below taken older ih =>
      cases i with
      | zero =>
          cases found
          exact ⟨.cons below (fun _ => Since.refl _) older, taken⟩
      | succ i =>
          obtain ⟨stacked, since⟩ := ih found
          refine ⟨stacked, fun clear => (since clear).trans (taken ?_)⟩
          apply older m _ clear
          exact List.mem_of_mem_drop (found ▸ List.mem_cons_self)

theorem revert_same {h : Snapshot S} (u : State S) (same : u.trie = h.trie) :
    ∃ v, State.revert h u = .ok () v := ⟨_, if_pos same.symm⟩

theorem Stacked.revert (stacked : Stacked marks u) {i : Nat} (found : marks.drop i = m :: rest)
    (proper : m.taken.journal = [] ∨ m.committed = false ∨ u.trie = m.taken.trie) :
    ∃ v, State.revert m.taken.snapshot u = .ok () v ∧ Stacked (m :: rest) v := by
  obtain ⟨below, since⟩ := stacked.drop found
  cases committed : m.committed with
  | false =>
      obtain ⟨v, reverted, -, -, -, again⟩ := (since committed).revert
      exact ⟨v, reverted, below.step again⟩
  | true =>
      have returned : ∃ v, State.revert m.taken.snapshot u = .ok () v := by
        rcases proper with quiet | clear | same
        · obtain ⟨v, reverted, -⟩ := revert_snapshot m.taken u quiet
          exact ⟨v, reverted⟩
        · rw [committed] at clear
          cases clear
        · exact revert_same u same
      obtain ⟨v, reverted⟩ := returned
      refine ⟨v, reverted, ?_⟩
      cases below with
      | cons below taken older => exact .cons below (fun clear => by simp [committed] at clear) older

/-- The oldest snapshot is one of the state, and the others are nested in it. -/
structure Holds (s : State S) (committed : Bool) (t : Session S) : Prop where
  stacked : Stacked t.marks t.state
  oldest : t.marks.getLast? = some ⟨s, committed⟩

theorem Holds.start (s : State S) : Holds s false (Session.start s) :=
  ⟨.cons (.nil s) (fun _ => Since.refl s) (by simp), rfl⟩

def Op.commits : Op S → Bool
  | .commit => true
  | _ => false

variable {s : State S} {committed : Bool} {t : Session S}

theorem Holds.step (holds : Holds s committed t) {v : State S} (since : Since t.state v) :
    Holds s committed { t with state := v } := ⟨holds.stacked.step since, holds.oldest⟩

theorem Holds.run (holds : Holds s committed t) (op : Op S) (proper : op.Proper t) :
    ∃ t', op.run t = .ok () t' ∧ Holds s (committed || op.commits) t' := by
  cases op with
  | getNonce a =>
      simp only [Op.commits, Bool.or_false]
      exact ⟨_, rfl, holds.step (since_getAndCacheAccount _ a)⟩
  | getBalance a =>
      simp only [Op.commits, Bool.or_false]
      exact ⟨_, rfl, holds.step (since_getAndCacheAccount _ a)⟩
  | setBalance a balance =>
      simp only [Op.commits, Bool.or_false]
      exact ⟨_, rfl, holds.step (since_setParam _ a _)⟩
  | setNonce a n =>
      simp only [Op.commits, Bool.or_false]
      exact ⟨_, rfl, holds.step (since_setParam _ a _)⟩
  | incrementNonce a =>
      simp only [Op.commits, Bool.or_false]
      exact ⟨_, rfl, holds.step (since_setParam _ a _)⟩
  | commit =>
      simp only [Op.commits, Bool.or_true]
      refine ⟨_, rfl, holds.stacked.commit _, ?_⟩
      rw [List.getLast?_map, holds.oldest, Option.map_some]
  | snapshot =>
      simp only [Op.commits, Bool.or_false]
      refine ⟨_, rfl, .cons holds.stacked (fun _ => Since.refl _) (fun _ _ _ => rfl), ?_⟩
      rw [List.getLast?_cons, holds.oldest, Option.getD_some]
  | revert i =>
      obtain ⟨m, rest, found, proper⟩ := proper
      obtain ⟨v, reverted, stacked⟩ := holds.stacked.revert found proper
      simp only [Op.commits, Bool.or_false]
      refine ⟨⟨v, m :: rest⟩, by simp only [Op.run, found, reverted], stacked, ?_⟩
      change (m :: rest).getLast? = _
      rw [← found, List.getLast?_drop, holds.oldest, if_neg]
      intro short
      rw [List.drop_eq_nil_of_le short] at found
      cases found

theorem Holds.runOps {ops : List (Op S)} (holds : Holds s committed t)
    (proper : ProperRun ops t) :
    ∃ t', runOps ops t = .ok () t' ∧ Holds s (committed || ops.any Op.commits) t' := by
  induction ops generalizing committed t with
  | nil => exact ⟨t, rfl, by rwa [List.any_nil, Bool.or_false]⟩
  | cons op ops ih =>
      obtain ⟨t₁, first, held⟩ := holds.run op proper.1
      obtain ⟨t', later, kept⟩ := ih held (proper.2 t₁ first)
      refine ⟨t', ?_, ?_⟩
      · simp only [State.runOps, first]
        exact later
      · rwa [List.any_cons, ← Bool.or_assoc]

theorem Holds.since (holds : Holds s false t) : Since s t.state := by
  have nonempty : t.marks ≠ [] := by
    intro none
    have oldest := holds.oldest
    rw [none] at oldest
    cases oldest
  have last := holds.oldest
  rw [List.getLast?_eq_some_getLast nonempty, Option.some_inj] at last
  have found := List.drop_length_sub_one nonempty
  rw [last] at found
  exact (holds.stacked.drop found).2 rfl

omit [IPSet S] in
theorem any_commits {ops : List (Op S)} (none : Op.commit ∉ ops) : ops.any Op.commits = false := by
  rw [List.any_eq_false]
  intro op listed
  cases op with
  | commit => exact absurd listed none
  | _ => simp [Op.commits]

/-- A snapshot of an empty journal, or one with no commit after it, is gone back to exactly. -/
theorem revert_exact (s : State S) (ops : List (Op S)) (proper : ProperRun ops (.start s))
    (undone : s.journal = [] ∨ Op.commit ∉ ops) :
    ∃ t u, runOps ops (.start s) = .ok () t ∧ revert s.snapshot t.state = .ok () u ∧
      (∀ a, (u.getNonce a).1 = (s.getNonce a).1 ∧ (u.getBalance a).1 = (s.getBalance a).1) ∧
      u.trie = s.trie ∧ u.toAuxVars = s.toAuxVars := by
  obtain ⟨t, ran, holds⟩ := (Holds.start s).runOps proper
  have returned : ∃ u, revert s.snapshot t.state = .ok () u ∧ u.account = s.account ∧
      u.toAuxVars = s.toAuxVars := by
    rcases undone with quiet | none
    · obtain ⟨u, reverted, account, auxvars, -⟩ := revert_snapshot s t.state quiet
      exact ⟨u, reverted, account, auxvars⟩
    · rw [any_commits none] at holds
      obtain ⟨u, reverted, account, -, auxvars, -⟩ := holds.since.revert
      exact ⟨u, reverted, account, auxvars⟩
  obtain ⟨u, reverted, account, auxvars⟩ := returned
  refine ⟨t, u, ran, reverted, ?_, trie_of_revert reverted, auxvars⟩
  intro a
  rw [getNonce_fst, getNonce_fst, getBalance_fst, getBalance_fst, account]
  exact ⟨rfl, rfl⟩

end State

namespace Sample

open State

def payer : Address := ⟨List.replicate 20 1, rfl⟩

def payee : Address := ⟨List.replicate 20 2, rfl⟩

/-- Two snapshots inside one another are gone back to before a commit, and one of an empty journal
after another commit. -/
def nestedCalls : List (Op AddressRanges) :=
  [.setNonce payer 3, .snapshot, .incrementNonce payer, .snapshot, .setNonce payee 5, .revert 0,
    .revert 1, .commit, .snapshot, .setNonce payer 7, .commit, .revert 0, .setNonce payee 9]

theorem nestedCalls_proper : ProperRun nestedCalls (.start State.initial) := by
  refine ⟨trivial, fun t ran => ?_⟩
  cases ran
  refine ⟨trivial, fun t ran => ?_⟩
  cases ran
  refine ⟨trivial, fun t ran => ?_⟩
  cases ran
  refine ⟨trivial, fun t ran => ?_⟩
  cases ran
  refine ⟨trivial, fun t ran => ?_⟩
  cases ran
  refine ⟨⟨_, _, rfl, Or.inr (Or.inl rfl)⟩, fun t ran => ?_⟩
  cases ran
  refine ⟨⟨_, _, rfl, Or.inr (Or.inl rfl)⟩, fun t ran => ?_⟩
  cases ran
  refine ⟨trivial, fun t ran => ?_⟩
  cases ran
  refine ⟨trivial, fun t ran => ?_⟩
  cases ran
  refine ⟨trivial, fun t ran => ?_⟩
  cases ran
  refine ⟨trivial, fun t ran => ?_⟩
  cases ran
  refine ⟨⟨_, _, rfl, Or.inl rfl⟩, fun t ran => ?_⟩
  cases ran
  exact ⟨trivial, fun t ran => trivial⟩

theorem nested_revert : ∃ s : State AddressRanges, s.journal = [] ∧
    ProperRun nestedCalls (.start s) ∧
    ∃ t u, runOps nestedCalls (.start s) = .ok () t ∧ revert s.snapshot t.state = .ok () u ∧
      (∀ a, (u.getNonce a).1 = (s.getNonce a).1 ∧ (u.getBalance a).1 = (s.getBalance a).1) ∧
      u.trie = s.trie ∧ u.toAuxVars = s.toAuxVars :=
  ⟨State.initial, rfl, nestedCalls_proper,
    revert_exact State.initial nestedCalls nestedCalls_proper (Or.inl rfl)⟩

/-- The inner snapshot has a journal, and what it would undo is committed. -/
theorem commit_inside_raises : (State.initial : State AddressRanges).journal = [] ∧
    ∃ t, runOps [.setNonce payer 1, .snapshot, .commit, .revert 0]
      (.start (State.initial : State AddressRanges)) = .error ⟨.assertionError, ""⟩ t :=
  ⟨rfl, _, rfl⟩

end Sample

end IPchain
