import IPchain.Contents

/-! Readers of a trie, and the root hash that finds its contents again. -/

namespace IPchain.MerkleTrie

open Lib Platform

def keyOf (keyStr : Bytes) : Bytes := (keyOfString keyStr).toOption.getD []

theorem keyOf_keyPath (key : Bytes) : keyOf (keyString (keyPath key)) = key := by
  rw [keyOf, keyOfString_keyPath]
  rfl

theorem Matches.keyOfString {t : Tree} {m : Contents} (matched : Matches t m) {row : Bytes × Rlp}
    (member : row ∈ rows t) : ∃ key v, row = (keyString (keyPath key), .bytes v) ∧
      MerkleTrie.keyOfString row.1 = .ok key ∧ m.lookup key = some v := by
  obtain ⟨path, value, found, string, item⟩ := mem_rows.mp member
  obtain ⟨key, rfl, held⟩ := matched.entry found
  refine ⟨key, value.1, Prod.ext string item, ?_, held⟩
  rw [string, keyOfString_keyPath]

theorem Matches.mem_rows {t : Tree} {m : Contents} (matched : Matches t m) {key : Bytes} {x : Rlp} :
    (keyString (keyPath key), x) ∈ rows t ↔ ∃ v, m.lookup key = some v ∧ x = .bytes v := by
  rw [MerkleTrie.mem_rows]
  constructor
  · rintro ⟨path, value, found, string, rfl⟩
    rw [← keyString_inj string] at found
    exact ⟨value.1, matched.lookup_eq_some.mpr ⟨value, found, rfl⟩, rfl⟩
  · rintro ⟨v, held, rfl⟩
    obtain ⟨value, found, rfl⟩ := matched.lookup_eq_some.mp held
    exact ⟨keyPath key, value, found, rfl, rfl⟩

theorem foldlM_keys_run {σ : Type} (l : List (Σ _ : Bytes, Rlp)) (res : Rows) (t : σ)
    (decoded : ∀ row ∈ l, keyOfString row.1 = .ok (keyOf row.1)) :
    l.foldlM (fun res row => (do
      let key ← lift (keyOfString row.1)
      return res.insert key row.2 : EStateM PyExc σ Rows)) res t =
      .ok (Dict.update res (l.map fun row => (keyOf row.1, row.2))) t := by
  induction l generalizing res with
  | nil => rfl
  | cons row l ih =>
      obtain ⟨first, rest⟩ := List.forall_mem_cons.mp decoded
      rw [List.foldlM_cons, first]
      exact ih (res.insert (keyOf row.1) row.2) rest

theorem mapM_keys_run {σ : Type} (l : List (Bytes × Rlp)) (t : σ)
    (decoded : ∀ row ∈ l, keyOfString row.1 = .ok (keyOf row.1)) :
    l.mapM (fun row => (do
      let key ← lift (keyOfString row.1)
      return (key, row.2) : EStateM PyExc σ (Bytes × Rlp))) t =
      .ok (l.map fun row => (keyOf row.1, row.2)) t := by
  induction l with
  | nil => rfl
  | cons row l ih =>
      obtain ⟨first, rest⟩ := List.forall_mem_cons.mp decoded
      rw [List.mapM_cons, first, lift_ok, pure_bind, bind_of_ok (pure_run _ _), bind_of_ok (ih rest)]
      rfl

section Tries

variable [Platform] [Decoder] {D : Type} [Database D] [Archive D] {U : Set Bytes}

omit [Platform] [Decoder] [Database D] [Archive D] in
theorem reading_run {α : Type} {read : Rlp → EStateM PyExc (Store D) α} {t : MerkleTrie D} {node : Rlp}
    {a : α} (root : t.rootNode = node) (run : read node t.toStore = .ok a t.toStore) :
    reading read t = .ok a t := by
  subst root
  rw [reading, run]

section Sound

variable (free : CollisionFree U) {t : MerkleTrie D} {tree : Tree}
  (represents : Represents U t tree) (within : Within U t.toStore) {m : Contents}
  (matched : Matches tree m)

include free represents within matched

theorem get_run (key : Bytes) : get key t = .ok (.bytes ((m.lookup key).getD [])) t := by
  have read := getNode_run free represents.sound within represents.normal represents.below (keyPath key)
    (Nat.lt_succ_self _)
  rw [← nibbles_length, ← binToNibbles_eq] at read
  rw [valueItem, matched.1] at read
  rw [get]
  exact reading_run represents.node read

theorem size_run : ∃ enough, ∀ depth, enough ≤ depth → size depth t = .ok m.keys.card t := by
  refine ⟨tree.height + 1, ?_⟩
  intro depth deep
  rw [← matched.card]
  exact reading_run represents.node (getSize_run free represents.sound within represents.below deep)

theorem iterBranch_run : ∃ enough, ∀ depth, enough ≤ depth → ∃ rows,
    iterBranch depth t = .ok rows t ∧ (rows.map Prod.fst).Nodup ∧
      ∀ key x, (key, x) ∈ rows ↔ ∃ v, m.lookup key = some v ∧ x = .bytes v := by
  refine ⟨tree.height + 1, ?_⟩
  intro depth deep
  have read := reading_run represents.node
    (iterNode_run free represents.sound within represents.below deep)
  have decoded : ∀ row ∈ rows tree, keyOfString row.1 = .ok (keyOf row.1) := by
    intro row member
    obtain ⟨key, v, rfl, string, -⟩ := matched.keyOfString member
    rw [string, keyOf_keyPath]
  refine ⟨(rows tree).map fun row => (keyOf row.1, row.2), ?_, ?_, ?_⟩
  · rw [iterBranch, bind_of_ok read, mapM_keys_run (rows tree) t decoded]
  · have keys : ((rows tree).map fun row => (keyOf row.1, row.2)).map Prod.fst =
        ((rows tree).map Prod.fst).map keyOf := by
      rw [List.map_map, List.map_map]
      rfl
    rw [keys]
    apply List.Nodup.map_on _ (nodup_rows tree)
    intro one first two second same
    obtain ⟨row, member, rfl⟩ := List.mem_map.mp first
    obtain ⟨row', member', rfl⟩ := List.mem_map.mp second
    obtain ⟨key, v, rfl, -⟩ := matched.keyOfString member
    obtain ⟨key', v', rfl, -⟩ := matched.keyOfString member'
    rw [keyOf_keyPath, keyOf_keyPath] at same
    rw [same]
  · intro key x
    rw [← matched.mem_rows, List.mem_map]
    constructor
    · rintro ⟨row, member, same⟩
      obtain ⟨other, v, rfl, -⟩ := matched.keyOfString member
      rw [keyOf_keyPath] at same
      cases same
      exact member
    · intro member
      exact ⟨_, member, by rw [keyOf_keyPath]⟩

theorem toDict_run : ∃ enough, ∀ depth, enough ≤ depth → ∃ d, toDict depth t = .ok d t ∧
    ∀ key x, d.lookup key = some x ↔ ∃ v, m.lookup key = some v ∧ x = .bytes v := by
  refine ⟨tree.height + 1, ?_⟩
  intro depth deep
  obtain ⟨d, run, holding⟩ := dictNode_run free represents.sound within represents.below deep
  have read := reading_run represents.node run
  have row {entry : Σ _ : Bytes, Rlp} (member : entry ∈ d.entries) :
      (entry.1, entry.2) ∈ rows tree := (holding _ _).mp (AList.mem_lookup_iff.mpr member)
  have decoded : ∀ entry ∈ d.entries, keyOfString entry.1 = .ok (keyOf entry.1) := by
    intro entry member
    obtain ⟨key, v, same, string, -⟩ := matched.keyOfString (row member)
    rw [string, show entry.1 = _ from (Prod.mk.inj same).1, keyOf_keyPath]
  refine ⟨_, by rw [toDict, bind_of_ok read, foldlM_keys_run d.entries ∅ t decoded], ?_⟩
  intro key x
  rw [Dict.lookup_update_eq_some, ← matched.mem_rows, List.mem_map, AList.lookup_empty]
  · constructor
    · rintro (⟨entry, member, same⟩ | none)
      · obtain ⟨other, v, pair, -⟩ := matched.keyOfString (row member)
        have string : entry.1 = keyString (keyPath other) := (Prod.mk.inj pair).1
        rw [string, keyOf_keyPath] at same
        obtain ⟨rfl, rfl⟩ := Prod.mk.inj same
        rw [← string]
        exact row member
      · cases none
    · intro member
      exact Or.inl ⟨⟨_, x⟩, AList.mem_lookup_iff.mp ((holding _ _).mpr member), by rw [keyOf_keyPath]⟩
  · rw [List.map_map]
    apply List.Nodup.map_on _ (List.Nodup.of_map Sigma.fst d.nodupKeys)
    intro one first two second same
    obtain ⟨key, v, pair, -, held⟩ := matched.keyOfString (row first)
    obtain ⟨key', v', pair', -, held'⟩ := matched.keyOfString (row second)
    have string : one.1 = keyString (keyPath key) := (Prod.mk.inj pair).1
    have string' : two.1 = keyString (keyPath key') := (Prod.mk.inj pair').1
    simp only [Function.comp_apply, string, string', keyOf_keyPath] at same
    subst same
    rw [held, Option.some.injEq] at held'
    have items : one.2 = two.2 := by
      rw [show one.2 = .bytes v from (Prod.mk.inj pair).2, held',
        show two.2 = .bytes v' from (Prod.mk.inj pair').2]
    exact Sigma.ext (string.trans string'.symm) (heq_of_eq items)
  · intro entry _
    exact AList.lookup_empty _

theorem reads : Reads t m where
  get := get_run free represents within matched
  size := size_run free represents within matched
  toDict := toDict_run free represents within matched
  iterBranch := iterBranch_run free represents within matched

end Sound

def hashed (s : Store D) : Set Bytes := {v | v = blankNode.encode ∨ v ∈ s.puts}

/-- The hashes of everything that is hashed until the store `e` differ, the database has room
for it, and at `s` it has what was put so far. -/
structure Trusted (s e : Store D) : Prop where
  free : CollisionFree (hashed e)
  room : Archive.Room D e.puts
  sound : Sound (hashed e) s

omit [Platform] [Decoder] [Database D] [Archive D] in
theorem mem_hashed {s : Store D} {v : Bytes} (put : v ∈ s.puts) : v ∈ hashed s := Or.inr put

omit [Decoder] in
theorem Trusted.within {s e : Store D} (trusted : Trusted s e) : Within (hashed e) e :=
  ⟨fun _ => mem_hashed, trusted.room⟩

theorem run_represents {s : Store D} {ops : List Op} (proper : ∀ op ∈ ops, op.Proper)
    (trusted : Trusted s (finish (runAll ops (blank s))).toStore) :
    ∃ t tree, runAll ops (blank s) = .ok () t ∧ Represents (hashed t.toStore) t tree ∧
      Matches tree (contents ops) := by
  obtain ⟨_, t, run, tree, represents, matched⟩ := runAll_spec trusted.free proper
    (represents_blank trusted.sound) matches_blank trusted.within
  rw [run] at represents
  exact ⟨t, tree, run, represents, matched⟩

omit [Decoder] in
theorem Represents.root_hashed {t : MerkleTrie D} {tree : Tree} (represents : Represents U t tree) :
    (nodeOf tree).encode ∈ hashed t.toStore := by
  rcases represents.root with blank | put
  · rw [blank]
    exact Or.inl rfl
  · exact Or.inr put

/-- The trie is a map from keys to values. -/
theorem trie_is_map (s : Store D) (ops : List Op) (proper : ∀ op ∈ ops, op.Proper)
    (trusted : Trusted s (finish (runAll ops (blank s))).toStore) :
    ∃ t, runAll ops (blank s) = .ok () t ∧ Reads t (contents ops) := by
  obtain ⟨t, tree, run, represents, matched⟩ := run_represents proper trusted
  rw [run] at trusted
  exact ⟨t, run, reads trusted.free represents trusted.within matched⟩

omit [Decoder] in
theorem Represents.root_eq_iff {E : Type} [Database E] [Archive E] {V : Set Bytes} {t : MerkleTrie D}
    {t' : MerkleTrie E} {tree tree' : Tree} (free : CollisionFree (hashed t.toStore ∪ hashed t'.toStore))
    (represents : Represents U t tree) (represents' : Represents V t' tree') :
    t.rootHash = t'.rootHash ↔ tree = tree' := by
  constructor
  · intro same
    rw [represents.hash, represents'.hash] at same
    have encodings := free.injective (Or.inl represents.root_hashed) (Or.inr represents'.root_hashed) same
    have nodes := encode_inj_of_mem free (Or.inl represents.root_hashed) encodings
    exact nodeOf_inj free (represents.below.mono fun v put => Or.inl (mem_hashed put))
      (represents'.below.mono fun v put => Or.inr (mem_hashed put)) nodes
  · rintro rfl
    rw [represents.hash, represents'.hash]

theorem runs_root_eq_iff {E : Type} [Database E] [Archive E] {s : Store D} {s' : Store E}
    {ops ops' : List Op} (proper : ∀ op ∈ ops, op.Proper) (proper' : ∀ op ∈ ops', op.Proper)
    (trusted : Trusted s (finish (runAll ops (blank s))).toStore)
    (trusted' : Trusted s' (finish (runAll ops' (blank s'))).toStore)
    (free : CollisionFree (hashed (finish (runAll ops (blank s))).toStore ∪
      hashed (finish (runAll ops' (blank s'))).toStore)) :
    ∃ t t', runAll ops (blank s) = .ok () t ∧ runAll ops' (blank s') = .ok () t' ∧
      (t.rootHash = t'.rootHash ↔ contents ops = contents ops') := by
  obtain ⟨t, tree, run, represents, matched⟩ := run_represents proper trusted
  obtain ⟨t', tree', run', represents', matched'⟩ := run_represents proper' trusted'
  rw [run, run'] at free
  change CollisionFree (hashed t.toStore ∪ hashed t'.toStore) at free
  refine ⟨t, t', run, run', ?_⟩
  rw [represents.root_eq_iff free represents']
  constructor
  · rintro rfl
    exact matched.contents_eq matched'
  · intro same
    rw [same] at matched
    exact matched.inj matched' represents.normal represents'.normal

theorem setRootHash_run {t t' : MerkleTrie D} {tree : Tree} (free : CollisionFree U)
    (blankIn : blankNode.encode ∈ U) (represents : Represents U t tree) (extend : Extends t t')
    (sound : Sound U t'.toStore) (within : Within U t'.toStore) :
    setRootHash t.rootHash t' = .ok () ⟨t'.toStore, nodeOf tree, t.rootHash⟩ := by
  have length : ¬ (t.rootHash.length ≠ 0 ∧ t.rootHash.length ≠ 32) := by
    rw [represents.hash, sha3_length]
    omega
  rw [setRootHash, if_neg length]
  split
  · rename_i same
    rw [represents.hash] at same
    have member : (nodeOf tree).encode ∈ U := by
      rcases represents.root with blank | put
      · rwa [blank]
      · exact within.1 _ (extend.mem put)
    have node := encode_inj_of_mem free member (free.injective member blankIn same)
    rw [node, represents.hash, same]
  · rename_i other
    have put : (nodeOf tree).encode ∈ t'.puts := by
      rcases represents.root with blank | put
      · rw [blank] at represents
        exact absurd represents.hash other
      · exact extend.mem put
    rw [represents.hash, decodeToNode_hash free sound within put]

theorem earlier_root_spec {s : Store D} (free : CollisionFree U) (sound : Sound U s) {ops later : List Op}
    (proper : ∀ op ∈ ops, op.Proper) (properLater : ∀ op ∈ later, op.Proper) :
    Assures (Assumed U) (runAll (ops ++ later)) (blank s) fun _ t' =>
      ∃ t tree, runAll ops (blank s) = .ok () t ∧ runAll later t = .ok () t' ∧
        Represents U t tree ∧ Matches tree (contents ops) ∧ Sound U t'.toStore := by
  rw [runAll_append]
  apply assumed_bind (fun _ => advances_runAll later)
    (runAll_spec free proper (represents_blank sound) matches_blank).with_run
  rintro _ t - ⟨run, tree, represents, matched⟩
  apply (runAll_spec free properLater represents matched).with_run.mono
  rintro _ t' - ⟨run', tree', represents', -⟩
  exact ⟨t, tree, run, run', represents, matched, represents'.sound⟩

theorem earlier_root_reads {s : Store D} {ops later : List Op} (proper : ∀ op ∈ ops, op.Proper)
    (properLater : ∀ op ∈ later, op.Proper)
    (trusted : Trusted s (finish (runAll (ops ++ later) (blank s))).toStore) :
    ∃ t t', runAll ops (blank s) = .ok () t ∧ runAll later t = .ok () t' ∧
      (∃ u, setRootHash t.rootHash t' = .ok () u ∧ Reads u (contents ops)) ∧
        ∃ u, new t'.toStore t.rootHash = .ok () u ∧ Reads u (contents ops) := by
  obtain ⟨_, t', run, t, tree, first, second, represents, matched, sound⟩ :=
    earlier_root_spec trusted.free trusted.sound proper properLater trusted.within
  have extend : Extends t t' := (advances_runAll later).ok second
  rw [run] at trusted sound represents
  change Represents (hashed t'.toStore) t tree at represents
  change Sound (hashed t'.toStore) t'.toStore at sound
  have free : CollisionFree (hashed t'.toStore) := trusted.free
  have within : Within (hashed t'.toStore) t'.toStore := trusted.within
  have blankIn : blankNode.encode ∈ hashed t'.toStore := Or.inl rfl
  have root : tree = .blank ∨ (nodeOf tree).encode ∈ t'.puts :=
    represents.root.imp_right fun put => List.IsSuffix.mem put extend
  have again : Represents (hashed t'.toStore) ⟨t'.toStore, nodeOf tree, t.rootHash⟩ tree :=
    ⟨rfl, represents.hash, represents.normal, represents.below.mono fun _ => extend.mem, root, sound⟩
  have opened := reads free again within matched
  refine ⟨t, t', first, second, ⟨_, ?_, opened⟩, ⟨_, ?_, opened⟩⟩
  · exact setRootHash_run free blankIn represents extend sound within
  · have blank : Extends t ⟨t'.toStore, blankNode, []⟩ := extend
    exact setRootHash_run free blankIn represents blank sound within

end Tries

end IPchain.MerkleTrie
