import IPchain.Roots
import IPchain.RlpDecoder
import IPchain.Genesis

/-! The root hash identifies the contents of a trie, and the transactions of a block. -/

namespace IPchain

open Lib Platform

theorem digits_length_mono {m n : Nat} (le : m ≤ n) :
    (intToBigEndian m).length ≤ (intToBigEndian n).length := by
  rw [intToBigEndian, intToBigEndian, List.length_map, List.length_map, List.length_reverse,
    List.length_reverse]
  exact Nat.le_length_digits_le 256 m n le

theorem lengthPrefix_length_mono (offset : Nat) {m n : Nat} (le : m ≤ n) :
    (lengthPrefix offset m).length ≤ (lengthPrefix offset n).length := by
  have digits := digits_length_mono le
  simp only [lengthPrefix]
  split <;> split <;> simp only [List.length_cons, List.length_nil] <;> omega

theorem Rlp.encode_bytes_injective {b c : Bytes}
    (same : (Rlp.bytes b).encode = (Rlp.bytes c).encode) : b = c := by
  have first (n : Nat) : ∃ d rest, lengthPrefix 0x80 n = d :: rest := by
    simp only [lengthPrefix]
    split <;> exact ⟨_, _, rfl⟩
  -- a small byte is no prefix of a string
  have apart {d : UInt8} {data : Bytes} (below : d.toNat < 128)
      (same : [d] = lengthPrefix 0x80 data.length ++ data) : False := by
    have lengths := congrArg List.length same
    obtain ⟨e, rest, starts⟩ := first data.length
    rw [starts, List.length_append, List.length_cons, List.length_cons, List.length_nil] at lengths
    have none : data = [] := List.eq_nil_of_length_eq_zero (by omega)
    subst none
    cases same
    exact absurd below (by decide)
  rcases encode_bytes b with ⟨d, rfl, belowD, one⟩ | ⟨-, one⟩ <;>
    rcases encode_bytes c with ⟨e, rfl, belowE, two⟩ | ⟨-, two⟩ <;> rw [one, two] at same
  · exact same
  · exact (apart belowD same).elim
  · exact (apart belowE same.symm).elim
  · have lengths := congrArg List.length same
    rw [List.length_append, List.length_append] at lengths
    have equal : b.length = c.length := by
      rcases Nat.le_total b.length c.length with shorter | longer
      · have prefixes := lengthPrefix_length_mono 0x80 shorter
        omega
      · have prefixes := lengthPrefix_length_mono 0x80 longer
        omega
    rw [equal] at same
    exact List.append_cancel_left same

theorem Rlp.encode_list_ne_nil (items : List Rlp) : (Rlp.list items).encode ≠ [] := by
  simp only [encode, lengthPrefix]
  split <;> exact List.cons_ne_nil _ _

namespace MerkleTrie

def updates (rows : List (Bytes × Bytes)) : List Op := rows.map fun row => .update row.1 row.2

theorem lookup_updates {rows : List (Bytes × Bytes)} (distinct : (rows.map Prod.fst).Nodup)
    {m : Contents} (fresh : ∀ row ∈ rows, m.lookup row.1 = none) {key value : Bytes} :
    ((updates rows).foldl Op.apply m).lookup key = some value ↔
      (key, value) ∈ rows ∨ m.lookup key = some value := by
  induction rows generalizing m with
  | nil => simp [updates]
  | cons row rows ih =>
      rw [List.map_cons, List.nodup_cons] at distinct
      obtain ⟨here, others⟩ := List.forall_mem_cons.mp fresh
      have later : ∀ other ∈ rows, (m.insert row.1 row.2).lookup other.1 = none := by
        intro other member
        rw [Finmap.lookup_insert_of_ne]
        · exact others other member
        · intro same
          exact distinct.1 (List.mem_map.mpr ⟨other, member, same⟩)
      change ((updates rows).foldl Op.apply (m.insert row.1 row.2)).lookup key = _ ↔ _
      rw [ih distinct.2 later, List.mem_cons]
      by_cases same : key = row.1
      · subst same
        rw [Finmap.lookup_insert, here, Option.some.injEq]
        constructor
        · rintro (member | rfl)
          · exact Or.inl (Or.inr member)
          · exact Or.inl (Or.inl rfl)
        · rintro ((pair | member) | none)
          · exact Or.inr (congrArg Prod.snd pair).symm
          · exact Or.inl member
          · cases none
      · rw [Finmap.lookup_insert_of_ne _ same]
        have other : (key, value) ≠ row := by
          rintro rfl
          exact same rfl
        simp [other]

section Transactions

variable [Platform] [Decoder]

/-- The trie of `mk_transaction_sha` after the updates. -/
def trieOf (rows : List (Bytes × Bytes)) : EStateM.Result PyExc (MerkleTrie EphemDB) Unit :=
  runAll (updates rows) (blank ⟨⟨∅⟩, []⟩)

@[reducible] def trieRoot : TrieRoot := ⟨fun rows => (finish (trieOf rows)).rootHash⟩

omit [Decoder] in
theorem trusted_ephem {t : MerkleTrie EphemDB} (free : CollisionFree (hashed t.toStore)) :
    Trusted ⟨⟨∅⟩, []⟩ t.toStore :=
  ⟨free, trivial, fun _ put => absurd put List.not_mem_nil⟩

/-- The rows that `mk_transaction_sha` puts into its trie. -/
def transactionRows (transactions : List Transaction) : List (Bytes × Bytes) :=
  transactions.zipIdx.map fun (tx, i) => ((Rlp.int i).encode, tx.serialize.encode)

omit [Platform] [Decoder] in
theorem mem_transactionRows {transactions : List Transaction} {i : Nat} {value : Bytes} :
    ((Rlp.int i).encode, value) ∈ transactionRows transactions ↔
      (transactions[i]?.map fun tx => tx.serialize.encode) = some value := by
  simp only [transactionRows, List.mem_map, Prod.exists, Prod.mk.injEq, List.mem_zipIdx_iff_getElem?,
    Option.map_eq_some_iff]
  constructor
  · rintro ⟨tx, j, found, key, rfl⟩
    have index : j = i := intToBigEndian_inj (Rlp.encode_bytes_injective key)
    rw [← index]
    exact ⟨tx, found, rfl⟩
  · rintro ⟨tx, found, rfl⟩
    exact ⟨tx, i, found, rfl, rfl⟩

omit [Platform] [Decoder] in
theorem nodup_transactionRows (transactions : List Transaction) :
    ((transactionRows transactions).map Prod.fst).Nodup := by
  have keys : (transactionRows transactions).map Prod.fst =
      (List.range transactions.length).map fun i => (Rlp.int i).encode := by
    rw [List.range_eq_range', ← List.zipIdx_map_snd 0 transactions, transactionRows, List.map_map,
      List.map_map]
    rfl
  rw [keys]
  apply List.Nodup.map _ List.nodup_range
  intro i j same
  exact intToBigEndian_inj (Rlp.encode_bytes_injective same)

omit [Platform] [Decoder] in
theorem proper_transactionRows (transactions : List Transaction) :
    ∀ op ∈ updates (transactionRows transactions), op.Proper := by
  intro op member
  obtain ⟨row, listed, rfl⟩ := List.mem_map.mp member
  obtain ⟨pair, -, rfl⟩ := List.mem_map.mp listed
  exact Rlp.encode_list_ne_nil _

omit [Platform] [Decoder] in
theorem encodings_eq_of_contents {transactions others : List Transaction}
    (same : contents (updates (transactionRows transactions)) =
      contents (updates (transactionRows others))) :
    transactions.map (fun tx => tx.serialize.encode) = others.map fun tx => tx.serialize.encode := by
  have read (transactions : List Transaction) (i : Nat) (value : Bytes) :
      (contents (updates (transactionRows transactions))).lookup (Rlp.int i).encode = some value ↔
        (transactions.map fun tx => tx.serialize.encode)[i]? = some value := by
    rw [List.getElem?_map, ← mem_transactionRows, contents,
      lookup_updates (nodup_transactionRows transactions) fun _ _ => Finmap.lookup_empty _]
    simp
  apply List.ext_getElem?
  intro i
  apply Option.ext
  intro value
  rw [← read, same, read]

/-- The root hash identifies the contents of a trie, whatever calls led to them, and the root of
the transactions identifies their encodings. -/
theorem root_identifies_contents {D E : Type} [Database D] [Archive D] [Database E] [Archive E] :
    (∀ (s : Store D) (s' : Store E) (ops ops' : List Op), (∀ op ∈ ops, op.Proper) →
      (∀ op ∈ ops', op.Proper) → Trusted s (finish (runAll ops (blank s))).toStore →
      Trusted s' (finish (runAll ops' (blank s'))).toStore →
      CollisionFree (hashed (finish (runAll ops (blank s))).toStore ∪
        hashed (finish (runAll ops' (blank s'))).toStore) →
      ∃ t t', runAll ops (blank s) = .ok () t ∧ runAll ops' (blank s') = .ok () t' ∧
        (t.rootHash = t'.rootHash ↔ contents ops = contents ops')) ∧
    ∀ transactions others : List Transaction,
      CollisionFree (hashed (finish (trieOf (transactionRows transactions))).toStore ∪
        hashed (finish (trieOf (transactionRows others))).toStore) →
      @mkTransactionSha trieRoot transactions = @mkTransactionSha trieRoot others →
      transactions.map (fun tx => tx.serialize.encode) = others.map fun tx => tx.serialize.encode := by
  constructor
  · intro s s' ops ops' proper proper' trusted trusted' free
    exact runs_root_eq_iff proper proper' trusted trusted' free
  · intro transactions others free roots
    apply encodings_eq_of_contents
    have part {X Y : Set Bytes} (free : CollisionFree (X ∪ Y)) : CollisionFree X ∧ CollisionFree Y :=
      ⟨⟨free.injective.mono Set.subset_union_left, fun v member => free.short v (Or.inl member)⟩,
        ⟨free.injective.mono Set.subset_union_right, fun v member => free.short v (Or.inr member)⟩⟩
    obtain ⟨t, t', run, run', iff⟩ := runs_root_eq_iff (proper_transactionRows transactions)
      (proper_transactionRows others) (trusted_ephem (part free).1) (trusted_ephem (part free).2) free
    apply iff.mp
    change (finish (trieOf (transactionRows transactions))).rootHash =
      (finish (trieOf (transactionRows others))).rootHash at roots
    rwa [trieOf, trieOf, run, run'] at roots

end Transactions

/-- A trie over a database that counts references finds every root it ever had. -/
theorem old_roots_readable [Platform] [Decoder] {D : Type} [Database D] [Dictionary D]
    (s : Store (RefcountDB D)) (ops later : List Op) (proper : ∀ op ∈ ops ++ later, op.Proper)
    (trusted : Trusted s (finish (runAll (ops ++ later) (blank s))).toStore) :
    ∃ t t', runAll ops (blank s) = .ok () t ∧ runAll later t = .ok () t' ∧
      (∃ u, setRootHash t.rootHash t' = .ok () u ∧ Reads u (contents ops)) ∧
        ∃ u, new t'.toStore t.rootHash = .ok () u ∧ Reads u (contents ops) :=
  earlier_root_reads (fun op member => proper op (List.mem_append_left _ member))
    (fun op member => proper op (List.mem_append_right _ member)) trusted

end MerkleTrie

namespace Sample

open MerkleTrie

scoped instance : Decoder := rlpDecoder

def once : List Op := [.update [0x61] [0x62]]

def andBack : List Op := [.update [0x63] [0x64], .delete [0x63]]

def Distinct [Platform] (data : List Bytes) : Prop :=
  (data.map sha3).Nodup ∧ ∀ v ∈ data, v.length < 2 ^ 64

instance [Platform] : DecidablePred Distinct := fun _ => inferInstanceAs (Decidable (_ ∧ _))

theorem Distinct.free [Platform] {data : List Bytes} (distinct : Distinct data) {X : Set Bytes}
    (listed : ∀ v ∈ X, v ∈ data) : CollisionFree X :=
  ⟨fun _ one _ two same => List.inj_on_of_nodup_map distinct.1 (listed _ one) (listed _ two) same,
    fun v member => distinct.2 v (listed v member)⟩

theorem mem_of_hashed {D : Type} {s : Store D} {data : List Bytes}
    (listed : ∀ v ∈ blankNode.encode :: s.puts, v ∈ data) : ∀ v ∈ hashed s, v ∈ data := by
  rintro v (rfl | put)
  · exact listed _ List.mem_cons_self
  · exact listed v (List.mem_cons_of_mem _ put)

def fresh : Store EphemDB := ⟨⟨∅⟩, []⟩

def counted : Store (RefcountDB EphemDB) := ⟨⟨⟨∅⟩⟩, []⟩

def data : List Bytes :=
  [[0x80], [196, 130, 32, 97, 98],
    [215, 22, 213, 128, 194, 32, 98, 128, 194, 32, 100] ++ List.replicate 13 128]

theorem distinct_data : Distinct data := by decide +kernel

theorem hashed_once : ∀ v ∈ hashed (finish (runAll once (blank fresh))).toStore, v ∈ data :=
  mem_of_hashed (by decide)

theorem hashed_andBack :
    ∀ v ∈ hashed (finish (runAll (once ++ andBack) (blank fresh))).toStore, v ∈ data :=
  mem_of_hashed (by decide)

theorem trie_reads : ∃ t, runAll (once ++ andBack) (blank fresh) = .ok () t ∧
    Reads t (contents (once ++ andBack)) := by
  apply trie_is_map fresh (once ++ andBack) (by decide)
  exact trusted_ephem (distinct_data.free hashed_andBack)

def gift (nonce : Nat) : Transaction := move 0 alice bob nonce (net 0 16)

theorem roots_identified :
    (∃ t t', runAll once (blank fresh) = .ok () t ∧ runAll (once ++ andBack) (blank fresh) = .ok () t' ∧
      t.rootHash = t'.rootHash) ∧
    @mkTransactionSha trieRoot [gift 0] ≠ @mkTransactionSha trieRoot [gift 0, gift 1] := by
  constructor
  · have union : CollisionFree (hashed (finish (runAll once (blank fresh))).toStore ∪
        hashed (finish (runAll (once ++ andBack) (blank fresh))).toStore) := by
      apply distinct_data.free
      rintro v (first | second)
      · exact hashed_once v first
      · exact hashed_andBack v second
    obtain ⟨t, t', run, run', iff⟩ := (root_identifies_contents (D := EphemDB) (E := EphemDB)).1
      fresh fresh once (once ++ andBack) (by decide) (by decide)
      (trusted_ephem (distinct_data.free hashed_once))
      (trusted_ephem (distinct_data.free hashed_andBack)) union
    exact ⟨t, t', run, run', iff.mpr (by decide)⟩
  · intro same
    have distinct : Distinct (blankNode.encode ::
        ((finish (trieOf (transactionRows [gift 0]))).puts ++
          (finish (trieOf (transactionRows [gift 0, gift 1]))).puts)).dedup := by
      decide +kernel
    have encodings := (root_identifies_contents (D := EphemDB) (E := EphemDB)).2 [gift 0]
      [gift 0, gift 1] (distinct.free ?_) same
    · exact absurd (congrArg List.length encodings) (by decide)
    · rintro v (first | second)
      · apply List.mem_dedup.mpr
        exact mem_of_hashed (List.forall_mem_cons.mpr ⟨List.mem_cons_self, fun _ put =>
          List.mem_cons_of_mem _ (List.mem_append_left _ put)⟩) v first
      · apply List.mem_dedup.mpr
        exact mem_of_hashed (List.forall_mem_cons.mpr ⟨List.mem_cons_self, fun _ put =>
          List.mem_cons_of_mem _ (List.mem_append_right _ put)⟩) v second

theorem trusted_counted {t : MerkleTrie (RefcountDB EphemDB)} (free : CollisionFree (hashed t.toStore))
    (few : t.puts.length < 2 ^ 32) : Trusted counted t.toStore where
  free := free
  room _ := Nat.lt_of_le_of_lt List.count_le_length few
  sound _ _ := rfl

theorem earlier_root_read :
    ∃ t t', runAll once (blank counted) = .ok () t ∧ runAll andBack t = .ok () t' ∧
      (∃ u, setRootHash t.rootHash t' = .ok () u ∧ Reads u (contents once)) ∧
        ∃ u, new t'.toStore t.rootHash = .ok () u ∧ Reads u (contents once) := by
  apply old_roots_readable counted once andBack (by decide)
  have puts : (finish (runAll (once ++ andBack) (blank counted))).puts =
      [[196, 130, 32, 97, 98], [215, 22, 213, 128, 194, 32, 98, 128, 194, 32, 100] ++
        List.replicate 13 128, [196, 130, 32, 97, 98]] := by decide +kernel
  apply trusted_counted
  · apply distinct_data.free
    apply mem_of_hashed
    rw [puts]
    decide
  · rw [puts]
    decide

end Sample

end IPchain
