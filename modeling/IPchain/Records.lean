import IPchain.Turns

/-! The book and the prefix tree side by side. The program enters every transaction in the
balances at once and in the tree at the end of its block, from a dictionary of rows. -/

namespace IPchain

open Lib

def Transaction.row (tx : Transaction) : Option (IPNetwork × Address) :=
  match tx.category, tx.ipNetwork, tx.toAddr with
  | 0, .ok V, some t => some (V, t)
  | 1, .ok V, some t => some (V, t)
  | _, _, _ => none

def Block.rows (block : Block) : List (IPNetwork × Address) :=
  block.transactions.filterMap Transaction.row

/-- No prefix is given to two accounts in two spellings. -/
def Block.Spelled (block : Block) : Prop := Radix.Spelled (Dict.update ∅ block.rows)

theorem row_eq_some {tx : Transaction} {V : IPNetwork} {t : Address} :
    tx.row = some (V, t) ↔
      (tx.category = 0 ∨ tx.category = 1) ∧ tx.ipNetwork = .ok V ∧ tx.toAddr = some t := by
  unfold Transaction.row
  split
  · rename_i category network recipient
    simp [category, network, recipient]
  · rename_i category network recipient
    simp [category, network, recipient]
  · rename_i allocates delegates
    refine iff_of_false (by simp) ?_
    rintro ⟨category | category, network, recipient⟩
    · exact allocates _ _ category network recipient
    · exact delegates _ _ category network recipient

structure Records (R : Type) where
  book : Book
  tree : R

namespace Records

variable {R : Type} [Radix R Address] [Platform]

def enter (m : Records R) (tx : Transaction) : Records R :=
  match tx.sender, tx.ipNetwork with
  | .ok s, .ok V => ⟨m.book.after tx s V, Radix.addAll m.tree tx.row.toList⟩
  | _, _ => m

def enterAll (m : Records R) (txs : List Transaction) : Records R := txs.foldl enter m

theorem enterAll_append (m : Records R) (txs more : List Transaction) :
    m.enterAll (txs ++ more) = (m.enterAll txs).enterAll more := List.foldl_append

/-- Every transaction of the list meets the condition when its turn comes. -/
def Throughout (condition : Records R → Transaction → Prop) (m : Records R)
    (txs : List Transaction) : Prop :=
  ∀ pre tx post, txs = pre ++ tx :: post → condition (m.enterAll pre) tx

def Accepted (m : Records R) (tx : Transaction) : Prop := ∃ s V, m.book.Accepts tx s V

section Throughout

variable {condition : Records R → Transaction → Prop} {m : Records R}

theorem throughout_nil : Throughout condition m [] := by
  intro pre tx post split
  simp at split

theorem throughout_cons {tx : Transaction} {txs : List Transaction} :
    Throughout condition m (tx :: txs) ↔
      condition m tx ∧ Throughout condition (m.enter tx) txs := by
  constructor
  · intro throughout
    refine ⟨throughout [] tx txs rfl, fun pre later post split => ?_⟩
    exact throughout (tx :: pre) later post (by rw [split, List.cons_append])
  · rintro ⟨first, rest⟩ pre later post split
    cases pre with
    | nil =>
        cases split
        exact first
    | cons head pre =>
        cases split
        exact rest pre later post rfl

theorem throughout_append {txs more : List Transaction} :
    Throughout condition m (txs ++ more) ↔
      Throughout condition m txs ∧ Throughout condition (m.enterAll txs) more := by
  induction txs generalizing m with
  | nil => exact (and_iff_right throughout_nil).symm
  | cons tx txs ih =>
      rw [List.cons_append, throughout_cons, throughout_cons, ih, and_assoc]
      rfl

end Throughout

theorem preserved {P : Records R → Prop} {condition : Records R → Transaction → Prop}
    (step : ∀ m tx s V, m.book.Accepts tx s V → condition m tx → P m → P (m.enter tx))
    {m : Records R} {txs : List Transaction} (accepted : Throughout Accepted m txs)
    (throughout : Throughout condition m txs) (start : P m) : P (m.enterAll txs) := by
  induction txs generalizing m with
  | nil => exact start
  | cons tx txs ih =>
      obtain ⟨⟨s, V, accepts⟩, others⟩ := throughout_cons.mp accepted
      obtain ⟨met, rest⟩ := throughout_cons.mp throughout
      exact ih others rest (step m tx s V accepts met start)

variable {m : Records R} {tx : Transaction} {s : Address} {V : IPNetwork}

theorem enter_book (accepts : m.book.Accepts tx s V) : (m.enter tx).book = m.book.after tx s V := by
  simp only [enter, accepts.signed, accepts.network]

theorem enter_cases (accepts : m.book.Accepts tx s V) :
    (∃ t, tx.category = 0 ∧ tx.row = some (V, t) ∧ m.enter tx = ⟨⟨(m.book.after tx s V).nonce,
      m.book.registry.transfer s t V.addresses⟩, Radix.add m.tree V t⟩) ∨
    (∃ t, tx.category = 1 ∧ tx.row = some (V, t) ∧ m.enter tx = ⟨⟨(m.book.after tx s V).nonce,
      m.book.registry.delegate s t V.addresses⟩, Radix.add m.tree V t⟩) ∨
    tx.row = none ∧ m.enter tx = ⟨⟨(m.book.after tx s V).nonce, m.book.registry⟩, m.tree⟩ := by
  have entered : m.enter tx = ⟨m.book.after tx s V, Radix.addAll m.tree tx.row.toList⟩ := by
    simp only [enter, accepts.signed, accepts.network]
  have row (t : Address) (moves : tx.category = 0 ∨ tx.category = 1) (recipient : tx.toAddr = some t) :
      tx.row = some (V, t) := row_eq_some.mpr ⟨moves, accepts.network, recipient⟩
  rw [entered]
  cases recipient : tx.toAddr with
  | none =>
      refine Or.inr (Or.inr ?_)
      have absent : tx.row = none := by
        rw [Option.eq_none_iff_forall_ne_some]
        rintro ⟨W, t⟩ present
        have found := (row_eq_some.mp present).2.2
        rw [recipient] at found
        cases found
      refine ⟨absent, ?_⟩
      simp [absent, Book.after, recipient, Radix.addAll]
  | some t =>
      by_cases allocates : tx.category = 0
      · have present := row t (Or.inl allocates) recipient
        refine Or.inl ⟨t, allocates, present, ?_⟩
        simp [present, Book.after, recipient, allocates, Radix.addAll]
      · by_cases delegates : tx.category = 1
        · have present := row t (Or.inr delegates) recipient
          refine Or.inr (Or.inl ⟨t, delegates, present, ?_⟩)
          simp [present, Book.after, recipient, delegates, Radix.addAll]
        · have absent : tx.row = none := by
            rw [Option.eq_none_iff_forall_ne_some]
            rintro ⟨W, u⟩ present
            exact (row_eq_some.mp present).1.elim allocates delegates
          refine Or.inr (Or.inr ⟨absent, ?_⟩)
          have registry : (m.book.after tx s V).registry = m.book.registry := by
            simp only [Book.after]
            split <;> first | rfl | omega
          rw [absent, ← registry]
          rfl

theorem tree_enterAll (m : Records R) {txs : List Transaction} (accepted : Throughout Accepted m txs) :
    (m.enterAll txs).tree = Radix.addAll m.tree (txs.filterMap Transaction.row) := by
  induction txs generalizing m with
  | nil => rfl
  | cons tx txs ih =>
      obtain ⟨⟨s, V, accepts⟩, others⟩ := throughout_cons.mp accepted
      have entered : (m.enter tx).tree = Radix.addAll m.tree tx.row.toList := by
        simp only [enter, accepts.signed, accepts.network]
      have first : (tx :: txs).filterMap Transaction.row =
          tx.row.toList ++ txs.filterMap Transaction.row := by
        cases row : tx.row <;> simp [row]
      rw [first, Radix.addAll_append, ← entered]
      exact ih (m.enter tx) others

end Records

section Program

variable {S R : Type} [IPSet S] [Radix R Address] [Platform]

omit [Radix R Address] in
theorem Step.rows {tx : Transaction} {s : Address} {V : IPNetwork} {cached : Cached}
    {L L' : Ledger S} {r : Bool × Cached} (step : Step tx s V cached L r L') :
    r.2 = Dict.update cached tx.row.toList := by
  rcases step.effect with ⟨t, category, recipient, rows, -⟩ | ⟨t, category, recipient, rows, -⟩ |
    ⟨category, rows, -⟩
  · rw [row_eq_some.mpr ⟨Or.inl category, step.valid.network, recipient⟩]
    exact rows
  · rw [row_eq_some.mpr ⟨Or.inr category, step.valid.network, recipient⟩]
    exact rows
  · have absent : tx.row = none := by
      rw [Option.eq_none_iff_forall_ne_some]
      rintro ⟨W, t⟩ present
      have moves := (row_eq_some.mp present).1
      omega
    rw [absent]
    exact rows

theorem applyTransactions_records {txs : List Transaction} {L L' : Ledger S} {cached c : Cached}
    (run : applyTransactions txs cached L = .ok c L') (m : Records R) (same : L.book = m.book) :
    m.Throughout Records.Accepted txs ∧ L'.book = (m.enterAll txs).book ∧
      c = Dict.update cached (txs.filterMap Transaction.row) := by
  induction txs generalizing L cached m with
  | nil =>
      cases run
      exact ⟨Records.throughout_nil, same, rfl⟩
  | cons tx txs ih =>
      obtain ⟨r, M, applied, run⟩ := bind_eq_ok.mp run
      obtain ⟨s, V, step⟩ := applyTransaction_step applied
      have accepts := book_accepts_iff.mpr step.valid
      rw [same] at accepts
      have entered : M.book = (m.enter tx).book := by
        rw [Records.enter_book accepts, step.book, same]
      obtain ⟨accepted, book, rows⟩ := ih run (m.enter tx) entered
      refine ⟨Records.throughout_cons.mpr ⟨⟨s, V, accepts⟩, accepted⟩, book, ?_⟩
      have first : (tx :: txs).filterMap Transaction.row =
          tx.row.toList ++ txs.filterMap Transaction.row := by
        cases row : tx.row <;> simp [row]
      rw [first, Dict.update_append, ← step.rows]
      exact rows

structure Recorded (m : Records R) (txs : List Transaction) (s : State S) (p : R) : Prop where
  accepted : m.Throughout Records.Accepted txs
  book : s.account.book = (m.enterAll txs).book
  tree : ∀ n, Radix.exact p n = Radix.exact (m.enterAll txs).tree n

theorem Recorded.congr {m : Records R} {txs : List Transaction} {s t : State S} {p : R}
    (recorded : Recorded m txs s p) (same : t.account = s.account) : Recorded m txs t p :=
  ⟨recorded.accepted, same ▸ recorded.book, recorded.tree⟩

theorem Recorded.block [TrieRoot] {m : Records R} {txs : List Transaction} {s t : State S} {p q : R}
    {block : Block} (recorded : Recorded m txs s p)
    (applied : applyBlock block (s, p) = .ok () (t, q)) (spelled : block.Spelled) :
    Recorded m (txs ++ block.transactions) t q := by
  obtain ⟨-, cached, u, loop, rfl, rfl⟩ := applyBlock_eq_ok.mp applied
  obtain ⟨accepted, book, rows⟩ := applyTransactions_records
    ((simulates_applyTransactions _ _).ok loop) (m.enterAll txs) recorded.book
  refine ⟨Records.throughout_append.mpr ⟨recorded.accepted, accepted⟩, ?_, fun n => ?_⟩
  · rw [Records.enterAll_append]
    exact book
  · rw [Records.enterAll_append, Records.tree_enterAll _ accepted]
    refine Radix.exact_addAll_update recorded.tree ?_ spelled n
    rw [Block.rows, ← rows]
    exact Platform.items_perm _

end Program

theorem Block.spelled_of_length {block : Block} (single : block.transactions.length ≤ 1) :
    block.Spelled := by
  have few : block.rows.length ≤ 1 := (List.length_filterMap_le _ _).trans single
  refine Radix.spelled_update fun row member other member' _ => ?_
  match rows : block.rows, few with
  | [], _ =>
      rw [rows] at member
      cases member
  | [only], _ =>
      rw [rows, List.mem_singleton] at member member'
      rw [member, member']

section Start

variable {S R : Type} [IPSet S] [Radix R Address] [Platform] [StateRoot S]

/-- The records that a genesis declaration sets up. -/
def genesisRecords (s : State S) (rows : Cached) : Records R :=
  ⟨s.account.book, PatriciaState.setValues Radix.empty (cachedRows rows)⟩

omit [StateRoot S] in
theorem recorded_start (s : State S) (rows : Cached) :
    Recorded (genesisRecords s rows : Records R) [] s
      (PatriciaState.setValues Radix.empty (cachedRows rows)) :=
  ⟨Records.throughout_nil, rfl, fun _ => rfl⟩

theorem genesis_tree {g : GenesisData} {s : State S} {rows : Cached}
    (genesis : stateFromGenesisDeclaration g = .ok (s, rows)) :
    (∀ m d, Radix.exact (genesisRecords s rows : Records R).tree m = some d →
      ∃ ip, m.cidr = ip.cidr ∧ Lists g.alloc d ip) ∧
    ∀ a, ∀ x ∈ (s.account a).balance.ownIps, ∃ d,
      Radix.lookup (genesisRecords s rows : Records R).tree x = some d := by
  obtain ⟨listed, covered⟩ := genesis_rows genesis
  have present (row : IPNetwork × Address) :
      row ∈ cachedRows rows ↔ rows.lookup row.1 = some row.2 :=
    (Platform.items_perm _).mem_iff.trans Dict.mem_pairs
  have stored (m : IPNetwork) := Radix.exact_addAll (Radix.empty : R) (cachedRows rows) m
  have tree : (genesisRecords s rows : Records R).tree =
      Radix.addAll Radix.empty (cachedRows rows) := rfl
  rw [tree]
  constructor
  · intro m d found
    rcases stored m with ⟨earlier, row, later, split, cidr, -, result⟩ | ⟨-, result⟩
    · rw [result] at found
      cases found
      have member : row ∈ cachedRows rows := split ▸ by simp
      exact ⟨row.1, cidr, listed row.1 row.2 ((present row).mp member)⟩
    · rw [result, Radix.exact_empty] at found
      cases found
  · intro a x owned
    obtain ⟨ip, b, row, inside⟩ := covered a x owned
    cases best : Radix.best (Radix.addAll (Radix.empty : R) (cachedRows rows)) x with
    | some pair => exact ⟨pair.2, by rw [Radix.lookup, best]; rfl⟩
    | none =>
        have absent := Radix.best_none _ x best ip inside
        rcases stored ip with ⟨_, _, _, _, _, _, result⟩ | ⟨missing, -⟩
        · rw [result] at absent
          cases absent
        · exact absurd rfl (missing (ip, b) ((present (ip, b)).mpr row))

end Start

end IPchain
