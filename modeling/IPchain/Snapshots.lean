import IPchain.Sessions

/-! The full snapshot of a state, with its numbers and its balances as text, and the state that is
built from it over another database. -/

namespace IPchain

open Lib Platform

theorem isDigit_ofChar {c : Char} (digit : c.isDigit = true) :
    isDigit (UInt8.ofNat c.toNat) = true ∧ (UInt8.ofNat c.toNat).toNat = c.toNat := by
  simp only [Char.isDigit, Bool.and_eq_true, decide_eq_true_eq] at digit
  have lower : 48 ≤ c.toNat := by
    exact digit.1
  have upper : c.toNat ≤ 57 := by
    exact digit.2
  have value : (UInt8.ofNat c.toNat).toNat = c.toNat := by
    rw [toNat_ofNat_mod]
    omega
  refine ⟨?_, value⟩
  simp only [isDigit, Bool.and_eq_true, decide_eq_true_eq, UInt8.le_iff_toNat_le, value]
  exact ⟨lower, upper⟩

theorem strOfInt_digits (n : Nat) : strOfInt n =
    (Nat.toDigits 10 n).map fun c => UInt8.ofNat c.toNat := by
  have text : (toString (n : Int)) = n.repr := rfl
  rw [strOfInt, text, Nat.toList_repr]

theorem foldl_digits (chars : List Char) (digits : ∀ c ∈ chars, c.isDigit = true) (m : Nat) :
    (chars.map fun c => UInt8.ofNat c.toNat).foldl (fun n b => 10 * n + (b.toNat - 48)) m =
      Nat.ofDigitChars 10 chars m := by
  induction chars generalizing m with
  | nil => rfl
  | cons c rest ih =>
      rcases List.forall_mem_cons.mp digits with ⟨first, later⟩
      rw [List.map_cons, List.foldl_cons, (isDigit_ofChar first).2, ih later, Nat.ofDigitChars_cons]
      rfl

theorem digitsToNat_strOfInt (n : Nat) : digitsToNat (strOfInt n) = some n := by
  have digits : ∀ c ∈ Nat.toDigits 10 n, c.isDigit = true := fun c member =>
    Nat.isDigit_of_mem_toDigits (by decide) (by decide) member
  have present : strOfInt n ≠ [] := by
    rw [strOfInt_digits]
    intro none
    exact Nat.toDigits_ne_nil (List.map_eq_nil_iff.mp none)
  have all : (strOfInt n).all isDigit = true := by
    rw [strOfInt_digits, List.all_map, List.all_eq_true]
    exact fun c member => (isDigit_ofChar (digits c member)).1
  rw [digitsToNat, if_pos ⟨present, all⟩, strOfInt_digits, foldl_digits _ digits,
    Nat.ofDigitChars_ten_toDigits]

theorem dropSpaces_digits {data : Bytes} (digits : data.all isDigit = true) :
    data.dropWhile isSpace = data := by
  cases data with
  | nil => rfl
  | cons b rest =>
      have digit : isDigit b = true := (List.all_eq_true.mp digits) b List.mem_cons_self
      have solid : isSpace b = false := by
        simp only [isDigit, Bool.and_eq_true, decide_eq_true_eq, UInt8.le_iff_toNat_le] at digit
        have lower : 48 ≤ b.toNat := digit.1
        have apart : b ≠ 32 := by
          rintro rfl
          exact absurd lower (by decide)
        have above : ¬ b ≤ 13 := by
          rw [UInt8.le_iff_toNat_le]
          change ¬ b.toNat ≤ 13
          omega
        simp [isSpace, apart, above]
      rw [List.dropWhile_cons, solid]
      rfl

theorem parseInt_strOfInt (n : Nat) : parseInt (strOfInt n) = .ok (n : Int) := by
  have read := digitsToNat_strOfInt n
  have digits : (strOfInt n).all isDigit = true := by
    rw [digitsToNat] at read
    split at read
    · rename_i all
      exact all.2
    · cases read
  have stripped : stripSpaces (strOfInt n) = strOfInt n := by
    rw [stripSpaces, dropSpaces_digits digits, dropSpaces_digits (by rwa [List.all_reverse]),
      List.reverse_reverse]
  have digit {b : UInt8} {rest : Bytes} (same : strOfInt n = b :: rest) : isDigit b = true :=
    (List.all_eq_true.mp digits) b (by
      rw [same]
      exact List.mem_cons_self)
  simp only [parseInt, stripped]
  split
  · rename_i m found
    split at found
    · rename_i rest same
      exact absurd (digit same) (by decide)
    · rename_i rest same
      exact absurd (digit same) (by decide)
    · rw [read] at found
      cases found
      rfl
  · rename_i found
    split at found
    · rename_i rest same
      exact absurd (digit same) (by decide)
    · rename_i rest same
      exact absurd (digit same) (by decide)
    · rw [read] at found
      cases found

def prefixedHex (b : Bytes) : Bytes := [0x30, 0x78] ++ encodeHex b

def parseAsBin (s : Bytes) : Except PyExc Bytes :=
  decodeHex (if s.take 2 = [0x30, 0x78] then s.drop 2 else s)

/-- `parse_as_int` of a decimal number. -/
def parseAsInt (s : Bytes) : Except PyExc Nat := do
  let n ← parseInt s
  return n.toNat

structure AccountText where
  balance : Bytes
  nonce : Bytes

structure HeaderText where
  hash : Bytes
  number : Bytes
  timestamp : Bytes

structure TextSnapshot where
  alloc : List (Bytes × AccountText)
  txindex : Bytes
  blockNumber : Bytes
  blockCoinbase : Bytes
  timestamp : Bytes
  prevHeaders : List HeaderText

section Texts

variable [Platform]

def prevHeaderToDict (h : PrevHeader) : HeaderText :=
  ⟨prefixedHex h.hash, strOfInt h.number, strOfInt h.timestamp⟩

def dictToPrevHeader (h : HeaderText) : Except PyExc PrevHeader := do
  let hash ← parseAsBin h.hash
  let number ← parseAsInt h.number
  let timestamp ← parseAsInt h.timestamp
  return .fake hash number timestamp

def readAuxVars (h : TextSnapshot) : Except PyExc AuxVars := do
  let txindex ← parseAsInt h.txindex
  let blockNumber ← parseAsInt h.blockNumber
  let blockCoinbase ← parseAsBin h.blockCoinbase
  let timestamp ← parseAsInt h.timestamp
  let prevHeaders ← h.prevHeaders.mapM dictToPrevHeader
  return ⟨txindex, blockNumber, blockCoinbase, timestamp, prevHeaders⟩

def rowAddress (addr : Bytes) : Except PyExc Address := do
  let addr ← if addr.length = 40 then decodeHex addr else pure addr
  if sized : addr.length = 20 then return ⟨addr, sized⟩ else .error ⟨.assertionError, ""⟩

end Texts

namespace DbState

variable {S D : Type} [IPSet S] [Pickle S] [Platform] [Decoder] [Database D] [Forgets D]

def cacheAll : List Address → EStateM PyExc (DbState S D) Unit
  | [] => pure ()
  | a :: rest => do
      let _ ← getAndCacheAccount a
      cacheAll rest

def toDict (depth : Nat) : EStateM PyExc (DbState S D) (List (Bytes × AccountText)) := do
  let rows ← onTrie (SecureTrie.toDict depth)
  let addresses ← lift (rows.keys.mapM twentyBytes)
  cacheAll addresses
  let s ← get
  return s.cache.entries.map fun entry =>
    (encodeHex entry.1.bytes, ⟨entry.2.balance, strOfInt entry.2.nonce⟩)

def toSnapshot (depth : Nat) : EStateM PyExc (DbState S D) TextSnapshot := do
  let alloc ← toDict depth
  let s ← get
  return {
    alloc := alloc
    txindex := strOfInt s.txindex
    blockNumber := strOfInt s.blockNumber
    blockCoinbase := prefixedHex s.blockCoinbase
    timestamp := strOfInt s.timestamp
    prevHeaders := (s.prevHeaders.take prevHeaderDepth).map prevHeaderToDict }

def readAccount (row : Bytes × AccountText) : EStateM PyExc (DbState S D) Unit := do
  let addr ← lift (rowAddress row.1)
  let balance ← lift (binToObject row.2.balance)
  setBalance addr balance
  let nonce ← lift (parseAsInt row.2.nonce)
  setNonce addr nonce

def readAlloc : List (Bytes × AccountText) → EStateM PyExc (DbState S D) Unit
  | [] => pure ()
  | row :: rest => do
      readAccount row
      readAlloc rest

/-- `from_snapshot`, from the new state on. -/
def readSnapshot (h : TextSnapshot) : EStateM PyExc (DbState S D) Unit := do
  readAlloc (Platform.items h.alloc)
  let auxvars ← lift (readAuxVars h)
  setAuxVars auxvars
  commit

end DbState

theorem parseAsInt_strOfInt (n : Nat) : parseAsInt (strOfInt n) = .ok n := by
  rw [parseAsInt, parseInt_strOfInt]
  rfl

theorem parseAsBin_prefixedHex (b : Bytes) : parseAsBin (prefixedHex b) = .ok b := by
  have marked : (prefixedHex b).take 2 = [0x30, 0x78] := rfl
  have digits : (prefixedHex b).drop 2 = encodeHex b := rfl
  rw [parseAsBin, if_pos marked, digits, decodeHex_encodeHex]

theorem rowAddress_encodeHex (a : Address) : rowAddress (encodeHex a.bytes) = .ok a := by
  have length : (encodeHex a.bytes).length = 40 := by rw [encodeHex_length, a.sized]
  have sized := a.sized
  rw [rowAddress, if_pos length, decodeHex_encodeHex]
  change (if sized : a.bytes.length = 20 then _ else _) = _
  rw [dif_pos sized]
  rfl

section Texts

variable [Platform]

theorem dictToPrevHeader_prevHeaderToDict (h : PrevHeader) :
    dictToPrevHeader (prevHeaderToDict h) = .ok h.reread := by
  rw [dictToPrevHeader, prevHeaderToDict, parseAsBin_prefixedHex, parseAsInt_strOfInt,
    parseAsInt_strOfInt]
  rfl

theorem mapM_prevHeaders (headers : List PrevHeader) :
    (headers.map prevHeaderToDict).mapM dictToPrevHeader =
      .ok (headers.map PrevHeader.reread) := by
  induction headers with
  | nil => rfl
  | cons h rest ih =>
      rw [List.map_cons, List.mapM_cons, dictToPrevHeader_prevHeaderToDict, ih]
      rfl

def AuxVars.kept (aux : AuxVars) : AuxVars :=
  { aux with prevHeaders := (aux.prevHeaders.take prevHeaderDepth).map PrevHeader.reread }

theorem readAuxVars_text (aux : AuxVars) (alloc : List (Bytes × AccountText)) :
    readAuxVars {
      alloc := alloc
      txindex := strOfInt aux.txindex
      blockNumber := strOfInt aux.blockNumber
      blockCoinbase := prefixedHex aux.blockCoinbase
      timestamp := strOfInt aux.timestamp
      prevHeaders := (aux.prevHeaders.take prevHeaderDepth).map prevHeaderToDict } =
        .ok aux.kept := by
  simp only [readAuxVars, parseAsInt_strOfInt, parseAsBin_prefixedHex, mapM_prevHeaders]
  rfl

end Texts

namespace MerkleTrie

variable [Platform] [Decoder] {D : Type} [Database D]

omit [Platform] in
theorem toDict_rehash {t : MerkleTrie D} {depth : Nat} {hash : Bytes} {d : Rows}
    (run : toDict depth { t with rootHash := hash } = .ok d { t with rootHash := hash }) :
    toDict depth t = .ok d t := by
  have rest (l : List (Σ _ : Bytes, Rlp)) (res : Rows) (u v : MerkleTrie D)
      (ran : l.foldlM (fun res row => (do
        let key ← lift (keyOfString row.1)
        return res.insert key row.2 : EStateM PyExc (MerkleTrie D) Rows)) res u = .ok d v) :
      v = u ∧ ∀ w, l.foldlM (fun res row => (do
        let key ← lift (keyOfString row.1)
        return res.insert key row.2 : EStateM PyExc (MerkleTrie D) Rows)) res w = .ok d w := by
    induction l generalizing res u with
    | nil =>
        cases ran
        exact ⟨rfl, fun _ => rfl⟩
    | cons row l ih =>
        rw [List.foldlM_cons] at ran
        cases read : keyOfString row.1 with
        | error e =>
            rw [read] at ran
            cases ran
        | ok key =>
            rw [read] at ran
            rcases ih _ u ran with ⟨same, others⟩
            refine ⟨same, ?_⟩
            intro w
            rw [List.foldlM_cons, read]
            exact others w
  rcases bind_eq_ok.mp run with ⟨d₀, u, listed, keyed⟩
  rcases rest _ _ _ _ keyed with ⟨same, others⟩
  rw [reading] at listed
  cases read : dictNode depth t.rootNode t.toStore with
  | error e s =>
      simp only [read] at listed
      cases listed
  | ok d₁ s =>
      simp only [read] at listed
      cases listed
      have store : t.toStore = s := congrArg MerkleTrie.toStore same
      have here : reading (dictNode depth) t = .ok d₀ t := by
        rw [reading, read, ← store]
      exact (bind_of_ok here _).trans (others t)

variable [Archive D] {U : Set Bytes} {z : Bytes} {t : MerkleTrie D} {tree : Tree} {m : Contents}

theorem Opened.toDict_run (free : CollisionFree U) (opened : Opened z U t tree)
    (within : Within U t.toStore) (matched : Matches tree m) :
    ∃ enough, ∀ depth, enough ≤ depth → ∃ d, toDict depth t = .ok d t ∧
      ∀ key x, d.lookup key = some x ↔ ∃ v, m.lookup key = some v ∧ x = .bytes v := by
  have represents : Represents U { t with rootHash := sha3 (nodeOf tree).encode } tree :=
    ⟨opened.node, rfl, opened.normal, opened.below, opened.root, opened.sound⟩
  rcases MerkleTrie.toDict_run free represents within matched with ⟨enough, listed⟩
  refine ⟨enough, ?_⟩
  intro depth deep
  rcases listed depth deep with ⟨d, run, rows⟩
  exact ⟨d, toDict_rehash run, rows⟩

end MerkleTrie

namespace SecureTrie

open MerkleTrie

variable {S : Type} [Pickle S] [Platform] [Decoder] {D : Type} [Database D] [Archive D]
  {U : Set Bytes} {z : Bytes} {t : MerkleTrie D} {accounts : Accounts S}

omit [Pickle S] [Decoder] in
theorem fetchKeys_run (free : CollisionFree U) (sound : Sound U t.toStore) (within : Within U t.toStore)
    (known : ∀ a ∈ accounts, a.bytes ∈ t.puts) {l : List (Σ _ : Bytes, Rlp)}
    (hashes : ∀ row ∈ l, ∃ a ∈ accounts, row.1 = sha3 a.bytes) (o : Rows) :
    ∃ o', l.foldlM (fun o row => (do
        let k ← reading fun _ => fetch row.1
        return o.insert k row.2 : EStateM PyExc (MerkleTrie D) Rows)) o t = .ok o' t ∧
      ∀ k, k ∈ o' ↔ k ∈ o ∨ ∃ row ∈ l, ∃ a ∈ accounts, row.1 = sha3 a.bytes ∧ k = a.bytes := by
  induction l generalizing o with
  | nil =>
      refine ⟨o, rfl, ?_⟩
      intro k
      simp
  | cons row l ih =>
      rcases List.forall_mem_cons.mp hashes with ⟨⟨a, member, hash⟩, rest⟩
      have read : reading (fun _ => fetch row.1) t = .ok a.bytes t := by
        rw [reading, hash, fetch_run sound within (known a member)]
      rcases ih rest (o.insert a.bytes row.2) with ⟨o', run, keys⟩
      refine ⟨o', ?_, ?_⟩
      · have first : (do
            let k ← reading fun _ => fetch row.1
            return o.insert k row.2 : EStateM PyExc (MerkleTrie D) Rows) t =
              .ok (o.insert a.bytes row.2) t := by
          rw [bind_of_ok read]
          rfl
        rw [List.foldlM_cons, bind_of_ok first]
        exact run
      · intro k
        rw [keys, AList.mem_insert]
        constructor
        · rintro ((rfl | earlier) | ⟨other, later, found⟩)
          · exact Or.inr ⟨row, List.mem_cons_self, a, member, hash, rfl⟩
          · exact Or.inl earlier
          · exact Or.inr ⟨other, List.mem_cons_of_mem _ later, found⟩
        · rintro (earlier | ⟨other, listed, b, present, same, rfl⟩)
          · exact Or.inl (Or.inr earlier)
          · rcases List.mem_cons.mp listed with rfl | later
            · have equal := free.injective (within.1 _ (known a member))
                (within.1 _ (known b present)) (hash.symm.trans same)
              exact Or.inl (Or.inl equal.symm)
            · exact Or.inr ⟨other, later, b, present, same, rfl⟩

theorem Keeps.toDict_run (free : CollisionFree U) (keeps : Keeps z U t accounts)
    (within : Within U t.toStore) : ∃ enough, ∀ depth, enough ≤ depth → ∃ rows,
      SecureTrie.toDict depth t = .ok rows t ∧ ∀ k, k ∈ rows ↔ ∃ a ∈ accounts, k = a.bytes := by
  rcases keeps with ⟨tree, m, opened, matched, spells, known⟩
  rcases opened.toDict_run free within matched with ⟨enough, listed⟩
  refine ⟨enough, ?_⟩
  intro depth deep
  rcases listed depth deep with ⟨d, run, rows⟩
  have hashes : ∀ row ∈ d.entries, ∃ a ∈ accounts, row.1 = sha3 a.bytes := by
    intro row member
    rcases (rows row.1 row.2).mp (AList.mem_lookup_iff.mpr member) with ⟨v, found, -⟩
    rcases (spells _ _).mp found with ⟨a, account, present, same, -⟩
    exact ⟨a, Finmap.mem_of_lookup_eq_some present, same⟩
  rcases fetchKeys_run free opened.sound within known hashes ∅ with ⟨o, fetched, keys⟩
  refine ⟨o, ?_, ?_⟩
  · rw [SecureTrie.toDict, bind_of_ok run]
    exact fetched
  · intro k
    rw [keys]
    constructor
    · rintro (none | ⟨row, -, a, member, -, rfl⟩)
      · exact absurd none (AList.notMem_empty _)
      · exact ⟨a, member, rfl⟩
    · rintro ⟨a, member, rfl⟩
      rcases Option.isSome_iff_exists.mp (Finmap.lookup_isSome.mpr member) with ⟨account, found⟩
      have read := (rows _ _).mpr ⟨_, (spells _ _).mpr ⟨a, account, found, rfl, rfl⟩, rfl⟩
      exact Or.inr ⟨_, AList.mem_lookup_iff.mp read, a, member, rfl, rfl⟩

end SecureTrie

def accountText {S : Type} [Pickle S] (row : Address × Account S) : Bytes × AccountText :=
  (encodeHex row.1.bytes, ⟨objectToBin row.2.balance, strOfInt row.2.nonce⟩)

theorem mapM_twentyBytes {keys : List Bytes} (sized : ∀ k ∈ keys, ∃ a : Address, k = a.bytes) :
    ∃ addresses : List Address, keys.mapM twentyBytes = .ok addresses ∧
      keys = addresses.map Address.bytes := by
  induction keys with
  | nil => exact ⟨[], rfl, rfl⟩
  | cons k rest ih =>
      rcases List.forall_mem_cons.mp sized with ⟨⟨a, rfl⟩, later⟩
      rcases ih later with ⟨addresses, read, same⟩
      have here : twentyBytes a.bytes = .ok a := dif_pos a.sized
      refine ⟨a :: addresses, ?_, ?_⟩
      · rw [List.mapM_cons, here, read]
        rfl
      · rw [same]
        rfl

namespace DbState

open MerkleTrie (blankNode blankRoot)

variable {S D : Type} [IPSet S] [Pickle S] [Platform] [Decoder] [Database D] [Dictionary D]
  {z : Bytes} {U : Set Bytes} {c c' : DbState S D} {s : State S}

omit [Dictionary D] in
theorem advances_cacheAll (addresses : List Address) :
    Advances Grows (cacheAll addresses : EStateM PyExc (DbState S D) Unit) := by
  induction addresses with
  | nil => exact Advances.pure _
  | cons a rest ih => exact Advances.bind (advances_getAndCacheAccount a) fun _ => ih

omit [Dictionary D] in
theorem advances_readAccount (row : Bytes × AccountText) :
    Advances Grows (readAccount row : EStateM PyExc (DbState S D) Unit) := by
  refine Advances.bind (Advances.lift _) fun addr => ?_
  refine Advances.bind (Advances.lift _) fun balance => ?_
  refine Advances.bind (advances_assign addr _) fun _ => ?_
  exact Advances.bind (Advances.lift _) fun nonce => advances_assign addr _

omit [Dictionary D] in
theorem advances_readAlloc (rows : List (Bytes × AccountText)) :
    Advances Grows (readAlloc rows : EStateM PyExc (DbState S D) Unit) := by
  induction rows with
  | nil => exact Advances.pure _
  | cons row rest ih => exact Advances.bind (advances_readAccount row) fun _ => ih

section Texts

variable (free : CollisionFree U) (nothing : ∀ v ∈ U, sha3 v ≠ sha3 [])

include free nothing

theorem cacheAll_assures {addresses : List Address} (inside : ∀ a ∈ addresses, a.bytes ∈ U)
    (refines : Refines z U c s) :
    Assures (Assumed U) (cacheAll addresses) c fun _ c' => Refines z U c' (s.cacheAll addresses) := by
  induction addresses generalizing c s with
  | nil => exact Assures.pure fun _ => refines
  | cons a rest ih =>
      rcases List.forall_mem_cons.mp inside with ⟨first, later⟩
      apply assures_bind (fun _ => advances_cacheAll rest)
        (getAndCacheAccount_assures free nothing refines first)
      rintro _ c' - ⟨-, refines⟩
      exact ih later refines

theorem toDict_assures (refines : Refines z U c s) (assumed : Assumed U c) :
    ∃ enough, ∀ depth, enough ≤ depth → Assures (Assumed U) (toDict depth) c fun alloc c' =>
      ∃ addresses : List Address, (∀ a ∈ s.trie, a ∈ addresses) ∧
        Refines z U c' (s.cacheAll addresses) ∧
          alloc = (s.cacheAll addresses).cache.entries.map fun entry =>
            accountText (entry.1, entry.2.account) := by
  rcases refines.trie.toDict_run free assumed with ⟨enough, listed⟩
  refine ⟨enough, ?_⟩
  intro depth deep
  rcases listed depth deep with ⟨rows, run, keys⟩
  have known := refines.trie.known assumed
  have inside : ∀ k ∈ rows.keys, ∃ a ∈ s.trie, k = a.bytes := fun k member =>
    (keys k).mp (AList.mem_keys.mpr member)
  rcases mapM_twentyBytes fun k member => (inside k member).imp fun _ found => found.2 with
    ⟨addresses, read, same⟩
  have fetched : onTrie (SecureTrie.toDict depth) c = .ok rows c := by
    rw [onTrie, run]
  have program : toDict depth c = (do
      cacheAll addresses
      let s ← get
      return s.cache.entries.map fun entry =>
        (encodeHex entry.1.bytes, ⟨entry.2.balance, strOfInt entry.2.nonce⟩) :
      EStateM PyExc (DbState S D) (List (Bytes × AccountText))) c := by
    rw [toDict, bind_of_ok fetched, read]
    rfl
  have members {a : Address} : a ∈ addresses ↔ a.bytes ∈ rows.keys := by
    rw [same]
    constructor
    · exact List.mem_map_of_mem
    · intro member
      rcases List.mem_map.mp member with ⟨b, listed, equal⟩
      rwa [← Address.ext equal]
  have known' : ∀ a ∈ addresses, a.bytes ∈ U := by
    intro a member
    rcases inside _ (members.mp member) with ⟨b, present, equal⟩
    rw [equal]
    exact known b present
  rw [Assures, program]
  have advances (_ : Unit) : Advances Grows (do
      let s ← get
      return s.cache.entries.map fun entry =>
        (encodeHex entry.1.bytes, ⟨entry.2.balance, strOfInt entry.2.nonce⟩) :
      EStateM PyExc (DbState S D) (List (Bytes × AccountText))) :=
    Advances.bind advances_get fun _ => Advances.pure _
  apply assures_bind advances (cacheAll_assures free nothing known' refines)
  rintro _ c' - refines'
  apply Assures.of_run rfl
  intro _
  refine ⟨addresses, ?_, refines', ?_⟩
  · intro a member
    exact members.mpr (AList.mem_keys.mp ((keys _).mpr ⟨a, member, rfl⟩))
  · rw [refines'.cache, entries_objectsOf, List.map_map]
    rfl

theorem readAccount_assures {row : Address × Account S} (inside : row.1.bytes ∈ U)
    (refines : Refines z U c s) : Assures (Assumed U) (readAccount (accountText row)) c fun _ c' =>
      Refines z U c' ((s.setBalance row.1 row.2.balance).setNonce row.1 row.2.nonce) := by
  have program : readAccount (accountText row) c = (do
      setBalance row.1 row.2.balance
      setNonce row.1 row.2.nonce : EStateM PyExc (DbState S D) Unit) c := by
    rw [readAccount, accountText]
    simp only [rowAddress_encodeHex, binToObject_objectToBin, parseAsInt_strOfInt, lift_ok,
      pure_bind]
  have sets : Assures (Assumed U) (setBalance row.1 row.2.balance) c fun _ c' =>
      Refines z U c' (s.setBalance row.1 row.2.balance) :=
    assign_assures free nothing (fun _ => rfl) refines inside
  rw [Assures, program]
  apply assures_bind (fun _ => advances_assign row.1 fun _ => .nonce row.2.nonce) sets
  rintro _ c' - refines
  exact assign_assures free nothing (fun _ => rfl) refines inside

theorem readAlloc_assures {rows : List (Address × Account S)}
    (inside : ∀ row ∈ rows, row.1.bytes ∈ U) (refines : Refines z U c s) :
    Assures (Assumed U) (readAlloc (rows.map accountText)) c fun _ c' =>
      Refines z U c' (State.setAlloc rows s) := by
  induction rows generalizing c s with
  | nil => exact Assures.pure fun _ => refines
  | cons row rest ih =>
      rcases List.forall_mem_cons.mp inside with ⟨first, later⟩
      apply assures_bind (fun _ => advances_readAlloc _)
        (readAccount_assures free nothing first refines)
      rintro _ c' - refines
      exact ih later refines

theorem readSnapshot_assures [Forgets D] {h : TextSnapshot} {aux : AuxVars} {rows : List (Address × Account S)}
    (items : Platform.items h.alloc = rows.map accountText) (read : readAuxVars h = .ok aux)
    (inside : ∀ row ∈ rows, row.1.bytes ∈ U) (refines : Refines z U c s) :
    Assures (Assumed U) (readSnapshot h) c fun _ c' =>
      Refines z U c' (State.commit { State.setAlloc rows s with toAuxVars := aux }) := by
  have program : readSnapshot h c = (do
      readAlloc (rows.map accountText)
      setAuxVars aux
      commit : EStateM PyExc (DbState S D) Unit) c := by
    rw [readSnapshot, items, read]
    rfl
  have setting (_ : Unit) : Advances Grows (do
      setAuxVars aux
      commit : EStateM PyExc (DbState S D) Unit) :=
    Advances.bind (advances_setAuxVars aux) fun _ => advances_commit
  rw [Assures, program]
  apply assures_bind setting (readAlloc_assures free nothing inside refines)
  rintro _ c' - refines
  apply Assures.bind_ok rfl
  exact commit_assures free
    ⟨rfl, refines.cache, refines.journal, refines.trie, refines.cached⟩

omit free nothing in
theorem toSnapshot_assures {depth : Nat}
    (listed : Assures (Assumed U) (toDict depth) c fun alloc c' =>
      ∃ addresses : List Address, (∀ a ∈ s.trie, a ∈ addresses) ∧
        Refines z U c' (s.cacheAll addresses) ∧
          alloc = (s.cacheAll addresses).cache.entries.map fun entry =>
            accountText (entry.1, entry.2.account)) :
    Assures (Assumed U) (toSnapshot depth) c fun h c' =>
      ∃ addresses : List Address, (∀ a ∈ s.trie, a ∈ addresses) ∧
        Refines z U c' (s.cacheAll addresses) ∧
          h.alloc = ((s.cacheAll addresses).cache.entries.map fun entry =>
            (entry.1, entry.2.account)).map accountText ∧
          readAuxVars h = .ok s.toAuxVars.kept := by
  have advances (alloc : List (Bytes × AccountText)) : Advances Grows (do
      let s ← get
      return {
        alloc := alloc
        txindex := strOfInt s.txindex
        blockNumber := strOfInt s.blockNumber
        blockCoinbase := prefixedHex s.blockCoinbase
        timestamp := strOfInt s.timestamp
        prevHeaders := (s.prevHeaders.take prevHeaderDepth).map prevHeaderToDict } :
      EStateM PyExc (DbState S D) TextSnapshot) :=
    Advances.bind advances_get fun _ => Advances.pure _
  apply assures_bind advances listed
  rintro alloc c' - ⟨addresses, all, refines, rfl⟩
  apply Assures.of_run rfl
  intro _
  have aux : c'.toAuxVars = s.toAuxVars :=
    refines.auxvars.trans (s.alike_cacheAll addresses).auxvars
  refine ⟨addresses, all, refines, ?_, ?_⟩
  · rw [List.map_map]
    rfl
  · rw [← aux]
    exact readAuxVars_text c'.toAuxVars _

end Texts

end DbState

theorem exists_map_of_perm {α β : Type} {f : α → β} {l : List β} {rows : List α}
    (perm : l.Perm (rows.map f)) : ∃ rows' : List α, rows'.Perm rows ∧ l = rows'.map f := by
  have images : List.Forall₂ (fun b a => b = f a) (rows.map f) rows := by
    rw [List.forall₂_map_left_iff]
    exact List.forall₂_same.mpr fun _ _ => rfl
  rcases List.perm_comp_forall₂ perm images with ⟨rows', related, perm'⟩
  refine ⟨rows', perm', ?_⟩
  clear perm images perm'
  induction related with
  | nil => rfl
  | cons same _ ih => rw [List.map_cons, ← ih, same]

namespace State

variable {S : Type} [IPSet S]

theorem account_reread (s : State S) {addresses : List Address} (all : ∀ a ∈ s.trie, a ∈ addresses)
    {rows : List (Address × Account S)}
    (perm : rows.Perm ((s.cacheAll addresses).cache.entries.map fun entry =>
      (entry.1, entry.2.account))) : (setAlloc rows State.initial).account = s.account := by
  have alike := s.alike_cacheAll addresses
  have keys : ((s.cacheAll addresses).cache.entries.map fun entry =>
      (entry.1, entry.2.account)).map Prod.fst = (s.cacheAll addresses).cache.keys := by
    rw [List.map_map]
    rfl
  have distinct : (rows.map Prod.fst).Nodup := by
    rw [(perm.map Prod.fst).nodup_iff, keys]
    exact AList.keys_nodup _
  rcases account_setAlloc distinct (State.initial : State S) with ⟨listed, others⟩
  rw [← alike.account]
  funext a
  cases present : (s.cacheAll addresses).cache.lookup a with
  | some acct =>
      have member : (a, acct.account) ∈ rows := by
        rw [perm.mem_iff]
        exact List.mem_map.mpr ⟨⟨a, acct⟩, AList.mem_lookup_iff.mp present, rfl⟩
      rw [listed _ member, account, present]
      rfl
  | none =>
      have absent : s.trie.lookup a = none := by
        by_contra some
        have known := all a (Finmap.lookup_isSome.mp (Option.isSome_iff_ne_none.mpr some))
        rcases s.cached_cacheAll known with ⟨acct, cached⟩
        rw [present] at cached
        cases cached
      have outside : a ∉ rows.map Prod.fst := by
        rw [(perm.map Prod.fst).mem_iff, keys]
        exact AList.lookup_eq_none.mp present
      have blank : (State.initial : State S).account a = .blank := rfl
      rw [others a outside, blank, account, present, alike.trie, stored, absent]
      rfl

end State

namespace DbState

open MerkleTrie (blankRoot)

variable {S D E : Type} [IPSet S] [Pickle S] [Platform] [Decoder] [Database D] [Forgets D]
  [Dictionary D] [Database E] [Forgets E] [Dictionary E] {U : Set Bytes} {known : Set Address}
  {c : DbState S D} {d : DbState S E} {root : Bytes} {head head' : Bool}
  {store : Store (RefcountDB D)} {store' : Store (RefcountDB E)}

/-- A full snapshot can be taken of a state after any calls, committed or not. What is built from
it over any other database has every account and every variable of the state. -/
theorem snapshot_copies {calls : List (Access S)} {answers : List (Answer S)}
    {s : Session (DbState S D) DbSnapshot} (opened : init store root head = .ok c)
    (empty : root = [] ∨ root = blankRoot) (named : ∀ access ∈ calls, access.Names known)
    (ran : Session.run interface calls ⟨c, []⟩ = .ok answers s) (trusted : Trusted U known c s.state)
    (opened' : init store' [] head' = .ok d) :
    ∃ t, Session.run State.interface calls ⟨State.initial, []⟩ = .ok answers t ∧
      ∃ enough, ∀ depth, enough ≤ depth →
        Trusted U known c (finish (toSnapshot depth s.state)) → ∃ h s',
          toSnapshot depth s.state = .ok h s' ∧ (Trusted U known d (finish (readSnapshot h d)) →
            ∃ d', readSnapshot h d = .ok () d' ∧ d'.toAuxVars = t.state.toAuxVars.kept ∧
              ∀ more : List (Access S), (∀ access ∈ more, access.Names known) →
                Trusted U known d (finish (Session.run interface more ⟨d', []⟩)).state →
                  ∃ u : State S, u.account = t.state.account ∧
                    u.toAuxVars = t.state.toAuxVars.kept ∧
                      outcome (Session.run interface more ⟨d', []⟩) =
                        outcome (Session.run State.interface more ⟨u, []⟩)) := by
  have mirrors := session_mirrors opened empty named trusted
  have assumed : Assumed U s.state := trusted.assumed
  rcases mirrors.backward (by rw [ran]; exact assumed) ran with ⟨t, map, related⟩
  rcases toDict_assures trusted.free trusted.nothing related.refines assumed with ⟨enough, listing⟩
  refine ⟨t, map, enough, ?_⟩
  intro depth deep trusted'
  have after : Assumed U (finish (toSnapshot depth s.state)) := trusted'.assumed
  rcases toSnapshot_assures (listing depth deep) after with
    ⟨h, s', taken, addresses, all, refines, alloc, read⟩
  refine ⟨h, s', taken, ?_⟩
  intro loaded
  rcases exists_map_of_perm ((Platform.items_perm h.alloc).trans (.of_eq alloc)) with
    ⟨rows, perm, items⟩
  have inside : ∀ row ∈ rows, row.1.bytes ∈ U := by
    intro row member
    rcases List.mem_map.mp (perm.mem_iff.mp member) with ⟨entry, listed, rfl⟩
    exact refines.cached _ (AList.lookup_isSome.mp
      (Option.isSome_of_mem (AList.mem_lookup_iff.mpr listed)))
  have account := t.state.account_reread all perm
  rw [init_blank (Or.inl rfl)] at opened'
  cases opened'
  rcases readSnapshot_assures loaded.free loaded.nothing items read inside
    (related_initial loaded.sound).refines loaded.assumed with ⟨_, d', built, refines'⟩
  refine ⟨d', built, refines'.auxvars, ?_⟩
  intro more names trusted''
  refine ⟨State.commit { State.setAlloc rows State.initial with
    toAuxVars := t.state.toAuxVars.kept }, ?_, rfl, ?_⟩
  · rw [State.account_commit]
    exact account
  · exact (Session.run_mirrors trusted''.free trusted''.nothing trusted''.blankIn (Or.inl rfl)
      trusted''.names names ⟨refines', .nil⟩).outcome_eq trusted''.assumed

end DbState

end IPchain
