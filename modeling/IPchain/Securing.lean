import IPchain.Storage
import IPchain.Identity
import IPchain.Lib.Mirror

/-! The trie of the accounts as a map from addresses to accounts: what a commit writes to it,
what is read from it, and what its root hash tells. -/

namespace IPchain

open Lib Platform

theorem Rlp.length_item {x : Rlp} {items : List Rlp} (member : x ∈ items) :
    x.encode.length ≤ (Rlp.list items).encode.length := by
  have inside : x.encode.length ≤ (Rlp.encodeList items).length := by
    induction items with
    | nil => cases member
    | cons y rest ih =>
        rw [encodeList, List.length_append]
        rcases List.mem_cons.mp member with rfl | later
        · omega
        · have shorter := ih later
          omega
  exact inside.trans (length_list items)

namespace MerkleTrie

section Values

variable [Platform] {U : Set Bytes}

theorem value_length (short : ∀ data ∈ U, data.length < 2 ^ 64) {t : Tree} (below : Below (· ∈ U) t)
    (root : (nodeOf t).encode.length < 2 ^ 64) {path : Path} {v : Value}
    (found : t.get path = some v) : v.1.length < 2 ^ 64 := by
  have stored {sub : Tree} (put : Stored (· ∈ U) sub) : (nodeOf sub).encode.length < 2 ^ 64 := by
    by_cases small : (nodeOf sub).encode.length < 32
    · omega
    · exact short _ (put small)
  have bytes (b : Bytes) : b.length ≤ (Rlp.bytes b).encode.length := Rlp.length_bytes b
  induction t generalizing path with
  | blank => cases found
  | leaf key value =>
      rw [Patricia.get] at found
      split at found
      · cases found
        have inside : Rlp.bytes v.1 ∈ [Rlp.bytes (packNibbles (marked key true)), .bytes v.1] :=
          List.mem_cons_of_mem _ List.mem_cons_self
        exact Nat.lt_of_le_of_lt ((bytes v.1).trans (Rlp.length_item inside)) root
      · cases found
  | extension key sub ih =>
      rw [Patricia.get] at found
      split at found
      · exact ih below.2 (stored below.1) found
      · cases found
  | branch subs value ih =>
      cases path with
      | nil =>
          have present : value = some v := found
          have inside : Rlp.bytes v.1 ∈
              branchItems (fun d => reference (nodeOf (subs d))) (valueItem value) := by
            rw [present]
            exact List.mem_append_right _ (List.mem_singleton.mpr rfl)
          exact Nat.lt_of_le_of_lt ((bytes v.1).trans (Rlp.length_item inside)) root
      | cons d rest => exact ih d (below d).2 (stored (below d).1) found

end Values

section Opened

variable [Platform] [Decoder] {D : Type} [Database D] [Archive D] {U : Set Bytes}

/-- A trie is opened with the empty string for a root, and keeps it until something is put
there: `z` is the root hash of the empty trie. -/
structure Opened (z : Bytes) (U : Set Bytes) (t : MerkleTrie D) (tree : Tree) : Prop where
  node : t.rootNode = nodeOf tree
  hash : t.rootHash = if tree.isBlank then z else sha3 (nodeOf tree).encode
  normal : tree.Normal
  below : Below (· ∈ t.puts) tree
  root : tree = .blank ∨ (nodeOf tree).encode ∈ t.puts
  sound : Sound U t.toStore

variable {z : Bytes} {t t' : MerkleTrie D} {tree tree' : Tree} {m m' : Contents}

omit [Decoder] in
theorem Represents.opened (represents : Represents U t tree) (present : tree ≠ .blank) :
    Opened z U t tree where
  node := represents.node
  hash := by
    rw [if_neg (mt Patricia.isBlank_iff.mp present)]
    exact represents.hash
  normal := represents.normal
  below := represents.below
  root := represents.root
  sound := represents.sound

omit [Decoder] in
theorem Opened.represents (opened : Opened z U t tree) (present : tree ≠ .blank) :
    Represents U t tree where
  node := opened.node
  hash := by
    have hash := opened.hash
    rwa [if_neg (mt Patricia.isBlank_iff.mp present)] at hash
  normal := opened.normal
  below := opened.below
  root := opened.root
  sound := opened.sound

omit [Decoder] in
theorem Opened.later (opened : Opened z U t tree) (grows : Grows t.toStore t'.toStore)
    (sound : Sound U t'.toStore) (node : t'.rootNode = t.rootNode) (hash : t'.rootHash = t.rootHash) :
    Opened z U t' tree where
  node := node.trans opened.node
  hash := hash.trans opened.hash
  normal := opened.normal
  below := opened.below.mono fun _ => grows.mem
  root := opened.root.imp_right grows.mem
  sound := sound

section Sound

variable (free : CollisionFree U)

include free

omit [Decoder] in
theorem value_short (opened : Opened z U t tree) (within : Within U t.toStore)
    (matched : Matches tree m) {key v : Bytes} (found : m.lookup key = some v) :
    v.length < 2 ^ 64 := by
  rcases matched.lookup_eq_some.mp found with ⟨value, read, rfl⟩
  have root : (nodeOf tree).encode.length < 2 ^ 64 := by
    rcases opened.root with blank | put
    · rw [blank]
      exact (by decide : blankNode.encode.length < 2 ^ 64)
    · exact free.short _ (within.1 _ put)
  exact value_length free.short (opened.below.mono within.1) root read

theorem Opened.get_run (opened : Opened z U t tree) (within : Within U t.toStore)
    (matched : Matches tree m) (key : Bytes) :
    get key t = .ok (.bytes ((m.lookup key).getD [])) t := by
  have read := getNode_run free opened.sound within opened.normal opened.below (keyPath key)
    (Nat.lt_succ_self _)
  rw [← nibbles_length, ← binToNibbles_eq, valueItem, matched.1] at read
  rw [get]
  exact reading_run opened.node read

theorem Opened.update_spec (opened : Opened z U t tree) (matched : Matches tree m) (key : Bytes)
    {value : Bytes} (proper : value ≠ []) :
    Assures (Assumed U) (MerkleTrie.update key value) t fun _ t' =>
      ∃ tree', Opened z U t' tree' ∧ Matches tree' (m.insert key value) := by
  rw [MerkleTrie.update]
  have edits := updateNode_spec free opened.sound opened.normal opened.below (keyPath key)
    ⟨value, proper⟩ (Nat.lt_succ_self (keyPath key).length)
  rw [← opened.node, ← binToNibbles_eq, ← nibbles_length, ← binToNibbles_eq] at edits
  apply (editing_spec free (Patricia.normal_update opened.normal _ _) edits).mono
  intro _ t' _ represents
  exact ⟨_, represents.opened (Patricia.update_ne_blank tree (keyPath key) ⟨value, proper⟩),
    matched.update key ⟨value, proper⟩⟩

omit [Decoder] in
theorem Opened.root_ne (opened : Opened z U t tree) (within : Within U t.toStore)
    (blankIn : blankNode.encode ∈ U) (empty : z = [] ∨ z = blankRoot) (present : tree ≠ .blank) :
    t.rootHash ≠ z := by
  have hash := (opened.represents present).hash
  have put : (nodeOf tree).encode ∈ t.puts := opened.root.resolve_left present
  intro same
  rw [hash] at same
  rcases empty with rfl | rfl
  · exact sha3_ne_nil _ same
  · have equal := free.injective (within.1 _ put) blankIn same
    have node := encode_inj_of_mem free (within.1 _ put) equal
    exact present (nodeOf_eq_blank.mp node)

omit [Decoder] in
/-- Two tries over data without collisions have one root hash if and only if they are the same
tree. -/
theorem Opened.root_eq_iff {E : Type} [Database E] [Archive E] {u : MerkleTrie E}
    (opened : Opened z U t tree) (within : Within U t.toStore) (opened' : Opened z U u tree')
    (within' : Within U u.toStore) (blankIn : blankNode.encode ∈ U)
    (empty : z = [] ∨ z = blankRoot) : t.rootHash = u.rootHash ↔ tree = tree' := by
  constructor
  · intro same
    by_cases blank : tree = .blank
    · by_cases blank' : tree' = .blank
      · rw [blank, blank']
      · have other := opened'.root_ne free within' blankIn empty blank'
        have hash := opened.hash
        rw [if_pos (Patricia.isBlank_iff.mpr blank)] at hash
        exact absurd (same.symm.trans hash) other
    · by_cases blank' : tree' = .blank
      · have other := opened.root_ne free within blankIn empty blank
        have hash := opened'.hash
        rw [if_pos (Patricia.isBlank_iff.mpr blank')] at hash
        exact absurd (same.trans hash) other
      · have put := within.1 _ (opened.root.resolve_left blank)
        have put' := within'.1 _ (opened'.root.resolve_left blank')
        rw [(opened.represents blank).hash, (opened'.represents blank').hash] at same
        have nodes := encode_inj_of_mem free put (free.injective put put' same)
        exact nodeOf_inj free (opened.below.mono within.1) (opened'.below.mono within'.1) nodes
  · rintro rfl
    rw [opened.hash, opened'.hash]

theorem Opened.setRootHash_run (opened : Opened z U t tree) (within : Within U t'.toStore)
    (extend : MerkleTrie.Extends t t') (sound : Sound U t'.toStore) (blankIn : blankNode.encode ∈ U)
    (empty : z = [] ∨ z = blankRoot) :
    ∃ u, setRootHash t.rootHash t' = .ok () u ∧ u.toStore = t'.toStore ∧
      u.rootHash = t.rootHash ∧ Opened z U u tree := by
  have again (u : MerkleTrie D) (store : u.toStore = t'.toStore) (node : u.rootNode = t.rootNode)
      (hash : u.rootHash = t.rootHash) : Opened z U u tree := by
    have grows : Grows t.toStore u.toStore := by
      rw [store]
      exact extend
    exact opened.later grows (by rwa [store]) node hash
  by_cases blank : tree = .blank
  · have hash := opened.hash
    have node := opened.node
    rw [if_pos (Patricia.isBlank_iff.mpr blank)] at hash
    rw [blank] at node
    rcases empty with rfl | rfl
    · have differs : ([] : Bytes) ≠ blankRoot := fun same => sha3_ne_nil _ same.symm
      refine ⟨⟨t'.toStore, blankNode, []⟩, ?_, rfl, hash.symm, again _ rfl node.symm hash.symm⟩
      rw [hash, setRootHash, if_neg (by simp), if_neg differs]
      rfl
    · refine ⟨⟨t'.toStore, blankNode, blankRoot⟩, ?_, rfl, hash.symm, again _ rfl node.symm hash.symm⟩
      have length : blankRoot.length = 32 := sha3_length _
      rw [hash, setRootHash, if_neg (by omega), if_pos rfl]
  · have run := MerkleTrie.setRootHash_run free blankIn (opened.represents blank) extend sound within
    exact ⟨_, run, rfl, rfl, again _ rfl opened.node.symm rfl⟩

end Sound

end Opened

end MerkleTrie

section Records

variable {S : Type} [Pickle S]

def recordOf (account : Account S) : Bytes :=
  (Rlp.list [.int account.nonce, .bytes (objectToBin account.balance)]).encode

theorem recordOf_ne_nil (account : Account S) : recordOf account ≠ [] := Rlp.encode_list_ne_nil _

theorem binToObject_objectToBin (o : Balance S) : binToObject (objectToBin o) = .ok o := by
  rw [binToObject, objectToBin, decodeHex_encodeHex]
  exact Pickle.loads_dumps o

theorem objectToBin_inj {o o' : Balance S} (same : objectToBin o = objectToBin o') : o = o' := by
  have read := binToObject_objectToBin o
  rw [same, binToObject_objectToBin] at read
  exact (Except.ok.inj read).symm

theorem recordOf_inj {account other : Account S} (short : (recordOf account).length < 2 ^ 64)
    (same : recordOf account = recordOf other) : account = other := by
  have items := Rlp.eq_of_encode short same
  simp only [Rlp.list.injEq, List.cons.injEq, Rlp.bytes.injEq, and_true] at items
  exact Account.ext (Rlp.int_inj items.1) (objectToBin_inj items.2)

omit [Pickle S] in
theorem intToBigEndian_head {n : Nat} {d : UInt8} {rest : Bytes} (serial : intToBigEndian n = d :: rest) :
    d ≠ 0 := by
  rw [intToBigEndian] at serial
  rcases List.map_eq_cons_iff.mp serial with ⟨digit, digits, reversed, rfl, -⟩
  have ends : Nat.digits 256 n = digits.reverse ++ [digit] := by
    rw [← List.reverse_reverse (Nat.digits 256 n), reversed, List.reverse_cons]
  have nonzero : n ≠ 0 := by
    rintro rfl
    rw [Nat.digits_zero] at reversed
    cases reversed
  have last := Nat.getLast_digit_ne_zero 256 nonzero
  have small : digit < 256 := Nat.digits_lt_base (by decide) (by
    rw [ends]
    exact List.mem_append_right _ (List.mem_singleton.mpr rfl))
  have present : digit ≠ 0 := by
    simpa [ends] using last
  intro zero
  have value := congrArg UInt8.toNat zero
  rw [toNat_ofNat_mod, Nat.mod_eq_of_lt small] at value
  exact present value

theorem deserializeInt_int (n : Nat) : deserializeInt (.int n) = .ok n := by
  have value := bytesToNat_intToBigEndian n
  rw [Rlp.int]
  generalize serial : intToBigEndian n = b at value
  cases b with
  | nil =>
      rw [deserializeInt, value]
      intro rest same
      cases same
  | cons d rest =>
      have leading := intToBigEndian_head serial
      rw [deserializeInt, value]
      intro rest same
      cases same
      exact leading rfl

theorem decodeAccount_recordOf [Decoder] {account : Account S}
    (short : (recordOf account).length < 2 ^ 64) : decodeAccount (.bytes (recordOf account)) =
      .ok ⟨account.nonce, objectToBin account.balance, false, true, false⟩ := by
  rw [decodeAccount, recordOf, Decoder.decode_encode _ short]
  change (deserializeInt (.int account.nonce) >>= fun nonce => _) = _
  rw [deserializeInt_int]
  rfl

end Records

namespace SecureTrie

open MerkleTrie

variable {S : Type} [Pickle S] [Platform] [Decoder] {D : Type} [Database D] [Archive D]

/-- The records of the accounts under the hashes of their addresses, and nothing else. -/
def Spells (accounts : Accounts S) (m : Contents) : Prop :=
  ∀ key v, m.lookup key = some v ↔
    ∃ a account, accounts.lookup a = some account ∧ key = sha3 a.bytes ∧ v = recordOf account

def Keeps (z : Bytes) (U : Set Bytes) (t : MerkleTrie D) (accounts : Accounts S) : Prop :=
  ∃ tree m, Opened z U t tree ∧ Matches tree m ∧ Spells accounts m ∧
    ∀ a ∈ accounts, a.bytes ∈ t.puts

variable {z : Bytes} {U : Set Bytes} {t t' : MerkleTrie D} {accounts accounts' : Accounts S}
  {m m' : Contents} {a : Address} {account : Account S}

omit [Decoder] [Database D] [Archive D] in
theorem spells_empty : Spells (∅ : Accounts S) ∅ := by
  intro key v
  constructor
  · intro found
    cases found
  · rintro ⟨a, account, found, -⟩
    cases found

omit [Decoder] in
theorem Keeps.later (keeps : Keeps z U t accounts) (grows : Grows t.toStore t'.toStore)
    (sound : Sound U t'.toStore) (node : t'.rootNode = t.rootNode) (hash : t'.rootHash = t.rootHash) :
    Keeps z U t' accounts := by
  rcases keeps with ⟨tree, m, opened, matched, spells, known⟩
  exact ⟨tree, m, opened.later grows sound node hash, matched, spells,
    fun a member => grows.mem (known a member)⟩

omit [Decoder] [Archive D] in
theorem advances_putKey {r : Store D → Store D → Prop} [Growth r] (k : Bytes) :
    Advances (Along r) (putKey k : EStateM PyExc (MerkleTrie D) Unit) :=
  advances_reading fun _ => advances_store k

omit [Archive D] in
theorem advances_update {r : Store D → Store D → Prop} [Growth r] (k v : Bytes) :
    Advances (Along r) (SecureTrie.update k v : EStateM PyExc (MerkleTrie D) Unit) :=
  Advances.bind (advances_putKey k) fun _ => (Op.update (sha3 k) v).advances_run

section Sound

variable (free : CollisionFree U)

include free

omit [Decoder] [Database D] [Archive D] in
theorem Spells.lookup (spells : Spells accounts m) (known : ∀ b ∈ accounts, b.bytes ∈ U)
    (here : a.bytes ∈ U) : m.lookup (sha3 a.bytes) = (accounts.lookup a).map recordOf := by
  cases found : accounts.lookup a with
  | some account => exact (spells _ _).mpr ⟨a, account, found, rfl, rfl⟩
  | none =>
      by_contra some
      rcases Option.ne_none_iff_exists'.mp some with ⟨v, read⟩
      rcases (spells _ _).mp read with ⟨b, account, present, same, -⟩
      have member : b ∈ accounts := Finmap.mem_of_lookup_eq_some present
      have equal : a = b := Address.ext (free.injective here (known b member) same)
      rw [← equal, found] at present
      cases present

omit [Decoder] [Database D] [Archive D] in
theorem Spells.insert (spells : Spells accounts m) (known : ∀ b ∈ accounts, b.bytes ∈ U)
    (here : a.bytes ∈ U) (account : Account S) :
    Spells (accounts.insert a account) (m.insert (sha3 a.bytes) (recordOf account)) := by
  intro key v
  by_cases same : key = sha3 a.bytes
  · rw [same, Finmap.lookup_insert]
    constructor
    · intro found
      cases found
      exact ⟨a, account, Finmap.lookup_insert _, rfl, rfl⟩
    · rintro ⟨b, other, found, hash, rfl⟩
      by_cases equal : b = a
      · rw [equal, Finmap.lookup_insert] at found
        cases found
        rfl
      · rw [Finmap.lookup_insert_of_ne _ equal] at found
        have member : b ∈ accounts := Finmap.mem_of_lookup_eq_some found
        exact absurd (Address.ext (free.injective here (known b member) hash)).symm equal
  · rw [Finmap.lookup_insert_of_ne _ same, spells key v]
    have other {b : Address} (hash : key = sha3 b.bytes) : b ≠ a := by
      rintro rfl
      exact same hash
    constructor
    · rintro ⟨b, account, found, hash, value⟩
      exact ⟨b, account, (Finmap.lookup_insert_of_ne _ (other hash)).trans found, hash, value⟩
    · rintro ⟨b, account, found, hash, value⟩
      exact ⟨b, account, (Finmap.lookup_insert_of_ne _ (other hash)).symm.trans found, hash, value⟩

omit [Decoder] free in
theorem Keeps.known (keeps : Keeps z U t accounts) (within : Within U t.toStore) :
    ∀ a ∈ accounts, a.bytes ∈ U := by
  rcases keeps with ⟨-, -, -, -, -, known⟩
  exact fun a member => within.1 _ (known a member)

omit [Decoder] in
theorem Keeps.short (keeps : Keeps z U t accounts) (within : Within U t.toStore)
    (found : accounts.lookup a = some account) : (recordOf account).length < 2 ^ 64 := by
  rcases keeps with ⟨tree, m, opened, matched, spells, -⟩
  exact value_short free opened within matched ((spells _ _).mpr ⟨a, account, found, rfl, rfl⟩)

theorem Keeps.get_run (keeps : Keeps z U t accounts) (within : Within U t.toStore)
    (here : a.bytes ∈ U) :
    SecureTrie.get a.bytes t = .ok (.bytes (((accounts.lookup a).map recordOf).getD [])) t := by
  have known := keeps.known within
  rcases keeps with ⟨tree, m, opened, matched, spells, -⟩
  rw [SecureTrie.get, opened.get_run free within matched, spells.lookup free known here]

omit [Decoder] [Database D] [Archive D] in
theorem Spells.inj (spells : Spells accounts m) (spells' : Spells accounts' m)
    (known : ∀ b ∈ accounts, b.bytes ∈ U) (known' : ∀ b ∈ accounts', b.bytes ∈ U)
    (short : ∀ key v, m.lookup key = some v → v.length < 2 ^ 64) : accounts = accounts' := by
  have half {one two : Accounts S} (first : Spells one m) (second : Spells two m)
      (knownOne : ∀ b ∈ one, b.bytes ∈ U) (knownTwo : ∀ b ∈ two, b.bytes ∈ U) {a : Address}
      {account : Account S} (found : one.lookup a = some account) : two.lookup a = some account := by
    have read := (first _ _).mpr ⟨a, account, found, rfl, rfl⟩
    rcases (second _ _).mp read with ⟨b, other, found', hash, value⟩
    have here := knownOne a (Finmap.mem_of_lookup_eq_some found)
    have there := knownTwo b (Finmap.mem_of_lookup_eq_some found')
    have same : a = b := Address.ext (free.injective here there hash)
    rw [recordOf_inj (short _ _ read) value, same]
    exact found'
  apply Finmap.ext_lookup
  intro a
  cases found : accounts.lookup a with
  | some account => exact (half spells spells' known known' found).symm
  | none =>
      cases found' : accounts'.lookup a with
      | none => rfl
      | some account =>
          rw [half spells' spells known' known found'] at found
          cases found

omit [Decoder] in
theorem Keeps.root_eq_iff {E : Type} [Database E] [Archive E] {u : MerkleTrie E}
    (keeps : Keeps z U t accounts) (within : Within U t.toStore) (keeps' : Keeps z U u accounts')
    (within' : Within U u.toStore) (blankIn : blankNode.encode ∈ U)
    (empty : z = [] ∨ z = blankRoot) : t.rootHash = u.rootHash ↔ accounts = accounts' := by
  have known := keeps.known within
  have known' := keeps'.known within'
  rcases keeps with ⟨tree, m, opened, matched, spells, -⟩
  rcases keeps' with ⟨tree', m', opened', matched', spells', -⟩
  rw [opened.root_eq_iff free within opened' within' blankIn empty]
  constructor
  · rintro rfl
    have contents := matched.contents_eq matched'
    rw [← contents] at spells'
    exact spells.inj free spells' known known' fun key v found =>
      value_short free opened within matched found
  · rintro rfl
    have contents : m = m' := by
      apply Finmap.ext_lookup
      intro key
      apply Option.ext
      intro v
      exact (spells key v).trans (spells' key v).symm
    rw [← contents] at matched'
    exact matched.inj matched' opened.normal opened'.normal

theorem Keeps.setRootHash_run (keeps : Keeps z U t accounts)
    (within : Within U t'.toStore) (extend : MerkleTrie.Extends t t') (sound : Sound U t'.toStore)
    (blankIn : blankNode.encode ∈ U) (empty : z = [] ∨ z = blankRoot) :
    ∃ u, setRootHash t.rootHash t' = .ok () u ∧ u.toStore = t'.toStore ∧
      u.rootHash = t.rootHash ∧ Keeps z U u accounts := by
  rcases keeps with ⟨tree, m, opened, matched, spells, known⟩
  rcases opened.setRootHash_run free within extend sound blankIn empty with
    ⟨u, run, store, root, opened'⟩
  refine ⟨u, run, store, root, tree, m, opened', matched, spells, ?_⟩
  intro a member
  rw [store]
  exact Grows.mem extend (known a member)

theorem Keeps.update_spec (keeps : Keeps z U t accounts) (a : Address) (account : Account S) :
    Assures (Assumed U) (SecureTrie.update a.bytes (recordOf account)) t fun _ t' =>
      Keeps z U t' (accounts.insert a account) := by
  rcases keeps with ⟨tree, m, opened, matched, spells, known⟩
  have put : Assures (Assumed U) (putKey a.bytes) t fun _ t' =>
      MerkleTrie.Extends t t' ∧ a.bytes ∈ t'.puts ∧ Opened z U t' tree := by
    intro assumed
    rw [putKey, reading] at assumed ⊢
    have stored := store_spec free opened.sound a.bytes
    cases run : store a.bytes t.toStore with
    | ok _ s =>
        rw [run] at assumed
        rw [Assures, run] at stored
        rcases stored assumed with ⟨_, s', same, put, later⟩
        cases same
        exact ⟨(), _, rfl, later.1, put, opened.later later.1 later.2 rfl rfl⟩
    | error e s =>
        rw [run] at assumed
        rw [Assures, run] at stored
        rcases stored assumed with ⟨_, s', same, -⟩
        cases same
  apply assumed_bind (fun _ => (Op.update (sha3 a.bytes) (recordOf account)).advances_run) put
  rintro _ t' within ⟨extend, put, opened⟩
  apply ((opened.update_spec free matched (sha3 a.bytes) (recordOf_ne_nil account)).with_run).mono
  rintro _ u within' ⟨run, tree', opened', matched'⟩
  have extend' : MerkleTrie.Extends t' u :=
    ((Op.update (sha3 a.bytes) (recordOf account)).advances_run).ok run
  have here : a.bytes ∈ U := within.1 _ put
  have inside : ∀ b ∈ accounts, b.bytes ∈ U := fun b member =>
    within.1 _ (Grows.mem extend (known b member))
  refine ⟨tree', _, opened', matched', spells.insert free inside here account, ?_⟩
  intro b member
  rcases Finmap.mem_insert.mp member with rfl | earlier
  · exact Grows.mem extend' put
  · exact Grows.mem extend' (Grows.mem extend (known b earlier))

end Sound

end SecureTrie

end IPchain
