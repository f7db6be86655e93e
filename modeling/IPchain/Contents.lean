import IPchain.Deleting
import IPchain.Listing
import Mathlib.Data.Finmap

/-! What a trie holds after any updates and deletions: a map from keys to values that depends on
nothing but the last call for each key, whose root hash stands for it and stays readable. -/

namespace IPchain.MerkleTrie

open Lib Platform

inductive Op where
  | update (key value : Bytes)
  | delete (key : Bytes)

/-- The values that are not taken for blanks, and the keys that `delete` takes. -/
def Op.Proper : Op → Prop
  | .update _ value => value ≠ []
  | .delete key => key.length ≤ 32

instance : DecidablePred Op.Proper
  | .update _ value => inferInstanceAs (Decidable (value ≠ []))
  | .delete key => inferInstanceAs (Decidable (key.length ≤ 32))

abbrev Contents := Finmap fun _ : Bytes => Bytes

def Op.apply (contents : Contents) : Op → Contents
  | .update key value => contents.insert key value
  | .delete key => contents.erase key

def contents (ops : List Op) : Contents := ops.foldl Op.apply ∅

/-- The entries of the tree are those of the map, under the paths of their keys. -/
def Matches (t : Tree) (m : Contents) : Prop :=
  (∀ key, (t.get (keyPath key)).map Subtype.val = m.lookup key) ∧
    ∀ path, (t.get path).isSome → ∃ key, path = keyPath key

theorem matches_blank : Matches .blank ∅ := by
  constructor
  · intro key
    rfl
  · intro path found
    cases found

theorem Matches.update {t : Tree} {m : Contents} (matched : Matches t m) (key : Bytes)
    (value : Value) : Matches (t.update (keyPath key) value) (m.insert key value.1) := by
  constructor
  · intro k
    rw [Patricia.get_update]
    by_cases same : k = key
    · subst same
      rw [if_pos rfl, Finmap.lookup_insert]
      rfl
    · rw [if_neg (mt keyPath_inj same), Finmap.lookup_insert_of_ne _ same]
      exact matched.1 k
  · intro path found
    rw [Patricia.get_update] at found
    split at found
    · rename_i same
      exact ⟨key, same⟩
    · exact matched.2 path found

theorem Matches.delete {t : Tree} {m : Contents} (matched : Matches t m) (key : Bytes) :
    Matches (t.delete (keyPath key)) (m.erase key) := by
  constructor
  · intro k
    rw [Patricia.get_delete]
    by_cases same : k = key
    · subst same
      rw [if_pos rfl, Finmap.lookup_erase]
      rfl
    · rw [if_neg (mt keyPath_inj same), Finmap.lookup_erase_ne same]
      exact matched.1 k
  · intro path found
    rw [Patricia.get_delete] at found
    split at found
    · cases found
    · exact matched.2 path found

theorem Matches.entry {t : Tree} {m : Contents} (matched : Matches t m) {path : Path} {v : Value}
    (found : t.get path = some v) : ∃ key, path = keyPath key ∧ m.lookup key = some v.1 := by
  obtain ⟨key, rfl⟩ := matched.2 path (by rw [found]; rfl)
  refine ⟨key, rfl, ?_⟩
  rw [← matched.1, found]
  rfl

theorem Matches.lookup_eq_some {t : Tree} {m : Contents} (matched : Matches t m) {key v : Bytes} :
    m.lookup key = some v ↔ ∃ value : Value, t.get (keyPath key) = some value ∧ value.1 = v := by
  rw [← matched.1, Option.map_eq_some_iff]

theorem Matches.inj {s t : Tree} {m : Contents} (first : Matches s m) (second : Matches t m)
    (normalS : s.Normal) (normalT : t.Normal) : s = t := by
  apply Patricia.eq_of_get normalS normalT
  intro path
  apply Option.ext
  intro v
  constructor
  · intro found
    obtain ⟨key, rfl, held⟩ := first.entry found
    obtain ⟨w, found, same⟩ := second.lookup_eq_some.mp held
    rw [found, Subtype.ext same]
  · intro found
    obtain ⟨key, rfl, held⟩ := second.entry found
    obtain ⟨w, found, same⟩ := first.lookup_eq_some.mp held
    rw [found, Subtype.ext same]

theorem Matches.contents_eq {t : Tree} {m m' : Contents} (first : Matches t m)
    (second : Matches t m') : m = m' := by
  apply Finmap.ext_lookup
  intro key
  rw [← first.1, second.1]

theorem Matches.keys {t : Tree} {m : Contents} (matched : Matches t m) :
    ((t.entries.map fun entry => Trie.pack (nibbles entry.1)).Nodup) ∧
      ∀ key, key ∈ t.entries.map (fun entry => Trie.pack (nibbles entry.1)) ↔ key ∈ m := by
  have back {entry : Path × Value} (member : entry ∈ t.entries) :
      ∃ key, entry.1 = keyPath key ∧ Trie.pack (nibbles entry.1) = key ∧
        m.lookup key = some entry.2.1 := by
    obtain ⟨key, path, held⟩ := matched.entry ((Patricia.mem_entries t entry.1 entry.2).mp member)
    exact ⟨key, path, by rw [path, pack_nibbles_keyPath], held⟩
  constructor
  · have distinct := Patricia.nodup_entries t
    have whole : (t.entries.map fun entry => Trie.pack (nibbles entry.1)) =
        (t.entries.map Prod.fst).map fun path => Trie.pack (nibbles path) := by
      rw [List.map_map]
      rfl
    rw [whole]
    apply List.Nodup.map_on _ distinct
    intro p first q second same
    obtain ⟨entry, member, rfl⟩ := List.mem_map.mp first
    obtain ⟨other, member', rfl⟩ := List.mem_map.mp second
    obtain ⟨key, path, packed, -⟩ := back member
    obtain ⟨key', path', packed', -⟩ := back member'
    rw [path, path', ← packed, ← packed', same]
  · intro key
    rw [List.mem_map, ← Finmap.lookup_isSome, Option.isSome_iff_exists]
    constructor
    · rintro ⟨entry, member, rfl⟩
      obtain ⟨key, -, packed, held⟩ := back member
      exact ⟨entry.2.1, by rw [packed, held]⟩
    · rintro ⟨v, held⟩
      obtain ⟨value, found, -⟩ := matched.lookup_eq_some.mp held
      exact ⟨(keyPath key, value), (Patricia.mem_entries t _ _).mpr found, pack_nibbles_keyPath key⟩

theorem Matches.card {t : Tree} {m : Contents} (matched : Matches t m) :
    t.entries.length = m.keys.card := by
  have keys : (t.entries.map fun entry => Trie.pack (nibbles entry.1)).toFinset = m.keys := by
    ext key
    rw [List.mem_toFinset, matched.keys.2, Finmap.mem_keys]
  rw [← keys, List.toFinset_card_of_nodup matched.keys.1, List.length_map]

section Tries

variable [Platform] [Decoder] {D : Type} [Database D]

def Op.run : Op → EStateM PyExc (MerkleTrie D) Unit
  | .update key value => MerkleTrie.update key value
  | .delete key => MerkleTrie.delete key

def runAll : List Op → EStateM PyExc (MerkleTrie D) Unit
  | [] => pure ()
  | op :: rest => do
      op.run
      runAll rest

/-- What a reader finds in a trie. The listings take as many steps as the trie is deep. -/
structure Reads (t : MerkleTrie D) (m : Contents) : Prop where
  get : ∀ key, get key t = .ok (.bytes ((m.lookup key).getD [])) t
  size : ∃ enough, ∀ depth, enough ≤ depth → size depth t = .ok m.keys.card t
  toDict : ∃ enough, ∀ depth, enough ≤ depth → ∃ d, toDict depth t = .ok d t ∧
    ∀ key x, d.lookup key = some x ↔ ∃ v, m.lookup key = some v ∧ x = .bytes v
  iterBranch : ∃ enough, ∀ depth, enough ≤ depth → ∃ rows, iterBranch depth t = .ok rows t ∧
    (rows.map Prod.fst).Nodup ∧
      ∀ key x, (key, x) ∈ rows ↔ ∃ v, m.lookup key = some v ∧ x = .bytes v

theorem runAll_append (ops later : List Op) :
    (runAll (ops ++ later) : EStateM PyExc (MerkleTrie D) Unit) =
      runAll ops >>= fun _ => runAll later := by
  induction ops with
  | nil => rfl
  | cons op ops ih => rw [List.cons_append, runAll, ih, runAll, bind_assoc]

variable [Archive D] {U : Set Bytes}

structure Represents (U : Set Bytes) (t : MerkleTrie D) (tree : Tree) : Prop where
  node : t.rootNode = nodeOf tree
  hash : t.rootHash = sha3 (nodeOf tree).encode
  normal : tree.Normal
  below : Below (· ∈ t.puts) tree
  root : tree = .blank ∨ (nodeOf tree).encode ∈ t.puts
  sound : Sound U t.toStore

omit [Decoder] in
theorem represents_blank {s : Store D} (sound : Sound U s) :
    Represents U (blank s : MerkleTrie D) .blank :=
  ⟨rfl, rfl, trivial, trivial, Or.inl rfl, sound⟩

def Along (r : Store D → Store D → Prop) (t t' : MerkleTrie D) : Prop := r t.toStore t'.toStore

section Growth

omit [Archive D]

variable {r : Store D → Store D → Prop} [Growth r]

omit [Decoder] in
instance : IsPreorder (MerkleTrie D) (Along r) where
  refl t := refl_of r t.toStore
  trans _ _ _ first second := trans_of r first second

omit [Platform] [Database D] [Decoder] [Growth r] in
theorem advances_reading {α : Type} {read : Rlp → EStateM PyExc (Store D) α}
    (advances : ∀ node, Advances r (read node)) : Advances (Along r) (reading read) := by
  intro t
  have step := advances t.rootNode t.toStore
  rw [reading]
  cases run : read t.rootNode t.toStore with
  | ok a s =>
      rw [run] at step
      exact step
  | error e s =>
      rw [run] at step
      exact step

omit [Decoder] in
theorem advances_updateRootHash :
    Advances (Along r) (updateRootHash : EStateM PyExc (MerkleTrie D) Unit) := by
  intro t
  have step : r t.toStore _ := advances_store t.rootNode.encode t.toStore
  rw [updateRootHash]
  cases run : store t.rootNode.encode t.toStore with
  | ok a s =>
      rw [run] at step
      exact step
  | error e s =>
      rw [run] at step
      exact step

omit [Decoder] in
theorem advances_editing {edit : Rlp → EStateM PyExc (Store D) Rlp}
    (advances : ∀ node, Advances r (edit node)) : Advances (Along r) (editing edit) := by
  refine Advances.bind (advances_reading advances) fun node => ?_
  refine Advances.bind ?_ fun _ => advances_updateRootHash
  exact fun t => refl_of r t.toStore

theorem Op.advances_run (op : Op) :
    Advances (Along r) (op.run : EStateM PyExc (MerkleTrie D) Unit) := by
  cases op with
  | update key value =>
      exact advances_editing fun node => advances_updateNode _ node (binToNibbles key) value
  | delete key =>
      change Advances (Along r) (MerkleTrie.delete key)
      rw [MerkleTrie.delete]
      apply Advances.ite
      · exact Advances.raised _
      · exact advances_editing fun node => advances_deleteNode _ node (binToNibbles key)

theorem advances_runAll (ops : List Op) :
    Advances (Along r) (runAll ops : EStateM PyExc (MerkleTrie D) Unit) := by
  induction ops with
  | nil => exact Advances.pure _
  | cons op ops ih => exact Advances.bind op.advances_run fun _ => ih

end Growth

def Extends (t t' : MerkleTrie D) : Prop := Grows t.toStore t'.toStore

omit [Platform] [Decoder] [Database D] [Archive D] in
instance : IsPreorder (MerkleTrie D) Extends where
  refl t := List.suffix_refl t.puts
  trans _ _ _ first second := List.IsSuffix.trans first second

def Assumed (U : Set Bytes) (t : MerkleTrie D) : Prop := Within U t.toStore

omit [Decoder] in
theorem assumed_bind {α β : Type} {x : EStateM PyExc (MerkleTrie D) α}
    {g : α → EStateM PyExc (MerkleTrie D) β} {t : MerkleTrie D} {Q : α → MerkleTrie D → Prop}
    {T : β → MerkleTrie D → Prop} (later : ∀ a, Advances Extends (g a))
    (first : Assures (Assumed U) x t Q)
    (next : ∀ a t', Assumed U t' → Q a t' → Assures (Assumed U) (g a) t' T) :
    Assures (Assumed U) (x >>= g) t T :=
  Assures.bind (fun _ _ extend assumed => Within.of_grows extend assumed) later first next

section Runs

variable (free : CollisionFree U)

include free

omit [Decoder] in
theorem editing_spec {edit : Rlp → EStateM PyExc (Store D) Rlp} {t : MerkleTrie D} {tree : Tree}
    (normal : tree.Normal)
    (edits : Assures (Within U) (edit t.rootNode) t.toStore (Yields U t.toStore tree)) :
    Assures (Assumed U) (editing edit) t fun _ t' => Represents U t' tree := by
  have read : Assures (Assumed U) (reading edit) t fun node t' =>
      Yields U t.toStore tree node t'.toStore := by
    intro assumed
    rw [reading] at assumed ⊢
    cases run : edit t.rootNode t.toStore with
    | ok node s =>
        rw [run] at assumed
        obtain ⟨a, s', same, yields⟩ := edits (by rw [run]; exact assumed)
        rw [run] at same
        cases same
        exact ⟨node, _, rfl, yields⟩
    | error e s =>
        rw [run] at assumed
        obtain ⟨a, s', same, -⟩ := edits (by rw [run]; exact assumed)
        rw [run] at same
        cases same
  have modified (node : Rlp) : Advances Extends
      (modify fun t => { t with rootNode := node } : EStateM PyExc (MerkleTrie D) Unit) :=
    fun t => List.suffix_refl t.puts
  apply assumed_bind (fun node => Advances.bind (modified node) fun _ => advances_updateRootHash) read
  rintro node t' - ⟨rfl, below, later⟩
  change Assures (Assumed U) updateRootHash { t' with rootNode := nodeOf tree } _
  intro assumed
  rw [updateRootHash] at assumed ⊢
  cases run : store (nodeOf tree).encode t'.toStore with
  | ok a s =>
      have stored := store_spec free later.2 (nodeOf tree).encode
      rw [Assures, run] at stored
      rw [run] at assumed
      obtain ⟨a, s', same, put, more⟩ := stored assumed
      cases same
      exact ⟨(), _, rfl, rfl, rfl, normal, more.below below, Or.inr put, more.2⟩
  | error e s =>
      have stored := store_spec free later.2 (nodeOf tree).encode
      rw [Assures, run] at stored
      rw [run] at assumed
      obtain ⟨a, s', same, -⟩ := stored assumed
      cases same

theorem Op.run_spec {t : MerkleTrie D} {tree : Tree} (represents : Represents U t tree)
    {m : Contents} (matched : Matches tree m) {op : Op} (proper : op.Proper) :
    Assures (Assumed U) op.run t fun _ t' =>
      ∃ tree', Represents U t' tree' ∧ Matches tree' (op.apply m) := by
  obtain ⟨node, -, normal, below, -, sound⟩ := represents
  cases op with
  | update key value =>
      change Assures _ (MerkleTrie.update key value) t _
      rw [MerkleTrie.update]
      have edits := updateNode_spec free sound normal below (keyPath key) ⟨value, proper⟩
        (Nat.lt_succ_self (keyPath key).length)
      rw [← node, ← binToNibbles_eq, ← nibbles_length, ← binToNibbles_eq] at edits
      apply (editing_spec free (Patricia.normal_update normal _ _) edits).mono
      intro _ t' _ represents
      exact ⟨_, represents, matched.update key ⟨value, proper⟩⟩
  | delete key =>
      change Assures _ (MerkleTrie.delete key) t _
      rw [MerkleTrie.delete, if_neg (Nat.not_lt.mpr proper)]
      have edits := deleteNode_spec free sound normal below (keyPath key)
        (Nat.lt_succ_self (keyPath key).length)
      rw [← node, ← binToNibbles_eq, ← nibbles_length, ← binToNibbles_eq] at edits
      apply (editing_spec free (Patricia.normal_delete normal _) edits).mono
      intro _ t' _ represents
      exact ⟨_, represents, matched.delete key⟩

theorem runAll_spec {ops : List Op} (proper : ∀ op ∈ ops, op.Proper) {t : MerkleTrie D} {tree : Tree}
    (represents : Represents U t tree) {m : Contents} (matched : Matches tree m) :
    Assures (Assumed U) (runAll ops) t fun _ t' =>
      ∃ tree', Represents U t' tree' ∧ Matches tree' (ops.foldl Op.apply m) := by
  induction ops generalizing t tree m with
  | nil => exact Assures.pure fun _ => ⟨tree, represents, matched⟩
  | cons op ops ih =>
      obtain ⟨first, rest⟩ := List.forall_mem_cons.mp proper
      apply assumed_bind (fun _ => advances_runAll ops)
        (op.run_spec free represents matched first)
      rintro _ t' - ⟨tree', represents, matched⟩
      exact ih rest represents matched

end Runs

end Tries

end IPchain.MerkleTrie
