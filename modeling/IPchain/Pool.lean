import IPchain.Copies
import IPchain.Draft
import IPchain.Retrieval

/-! The pool of a service, and the blocks that it makes of it. -/

namespace IPchain

open Lib

section Removal

variable {M : Type} (same : M → M → Bool)

def removeAll (pool removed : List M) : List M :=
  removed.foldl (fun pool m => pool.eraseP fun other => same other m) pool

theorem removeAll_sublist (removed pool : List M) : (removeAll same pool removed).Sublist pool := by
  induction removed generalizing pool with
  | nil => exact List.Sublist.refl pool
  | cons m removed ih => exact (ih _).trans List.eraseP_sublist

variable {same}

theorem removeAll_filter (refl : ∀ m, same m m = true) (p : M → Bool) (kept : List M)
    {pool : List M} (stay : ∀ m ∈ kept, p m = false)
    (together : ∀ m ∈ kept ++ pool, ∀ other ∈ kept ++ pool, same other m = true → p other = p m) :
    removeAll same (kept ++ pool) (pool.filter p) = kept ++ pool.filter fun m => !p m := by
  induction pool generalizing kept with
  | nil => rfl
  | cons m pool ih =>
      by_cases gone : p m = true
      · have others : ∀ other ∈ kept, ¬ same other m = true := by
          intro other member match'
          have listed : m ∈ kept ++ m :: pool := List.mem_append_right _ List.mem_cons_self
          have equal := together m listed other (List.mem_append_left _ member) match'
          rw [stay other member, gone] at equal
          cases equal
        have first : (kept ++ m :: pool).eraseP (fun other => same other m) = kept ++ pool := by
          rw [List.eraseP_append_right _ others, List.eraseP_cons_of_pos]
          exact refl m
        rw [List.filter_cons_of_pos gone, removeAll, List.foldl_cons, first,
          List.filter_cons_of_neg (by simp [gone])]
        apply ih kept stay
        intro one memberOne two memberTwo
        have inside {x : M} (member : x ∈ kept ++ pool) : x ∈ kept ++ m :: pool := by
          rcases List.mem_append.mp member with left | right
          · exact List.mem_append_left _ left
          · exact List.mem_append_right _ (List.mem_cons_of_mem m right)
        exact together one (inside memberOne) two (inside memberTwo)
      · have moved : kept ++ m :: pool = (kept ++ [m]) ++ pool := by simp
        rw [List.filter_cons_of_neg gone, moved, List.filter_cons_of_pos (by simp [gone])]
        rw [moved] at together
        rw [ih (kept ++ [m]) ?_ together]
        · simp
        · intro x member
          rcases List.mem_append.mp member with left | right
          · exact stay x left
          · rw [List.mem_singleton.mp right]
            exact Bool.eq_false_iff.mpr gone

end Removal

section Same

variable [Platform]

omit [Platform] in
theorem Transaction.same_iff {t u : Transaction} :
    t.same u = true ↔ { t with cachedSender := none } = { u with cachedSender := none } := by
  simp only [same, decide_eq_true_eq]

theorem Transaction.same_sender {t u : Transaction} (same : t.same u = true) (first : t.Genuine)
    (second : u.Genuine) : t.sender = u.sender := by
  rw [first, second, same_iff.mp same]

/-- Transactions that are the same have one sender, whether it was noted or not. -/
def Consonant (txs : List Transaction) : Prop :=
  ∀ t ∈ txs, ∀ u ∈ txs, t.same u = true → t.sender = u.sender

theorem Consonant.of_genuine {txs : List Transaction} (genuine : ∀ tx ∈ txs, tx.Genuine) :
    Consonant txs :=
  fun t memberT u memberU same => Transaction.same_sender same (genuine t memberT) (genuine u memberU)

omit [Platform] in
theorem Transaction.same_fields {t u : Transaction} (same : t.same u = true) :
    t.nonce = u.nonce ∧ t.category = u.category ∧ t.ipNetwork = u.ipNetwork := by
  obtain ⟨nonce, category, -, afi, value, -⟩ := Transaction.mk.inj (same_iff.mp same)
  refine ⟨nonce, category, ?_⟩
  rw [ipNetwork, ipNetwork, afi, value]

theorem Book.Accepts.same {B : Book} {t u : Transaction} {s : Address} {V : IPNetwork}
    (accepts : B.Accepts t s V) (same : t.same u = true) (sender : t.sender = u.sender) :
    B.Accepts u s V := by
  obtain ⟨nonce, category, network⟩ := Transaction.same_fields same
  refine ⟨?_, accepts.known, nonce ▸ accepts.nonce, category ▸ accepts.category, ?_, ?_⟩
  · rw [← sender]
    exact accepts.signed
  · rw [← network]
    exact accepts.network
  · rw [← category]
    exact accepts.owned

end Same

namespace Service

section Purge

variable {S R : Type} [IPSet S] [Platform]

theorem alike_validateTransaction (tx : Transaction) (s : State S) :
    s.Alike (finish (validateTransaction tx s)) :=
  ⟨preserves_validateTransaction State.account_getAndCacheAccount tx s,
    preserves_validateTransaction State.trie_getAndCacheAccount tx s,
    preserves_validateTransaction State.toAuxVars_getAndCacheAccount tx s,
    preserves_validateTransaction State.journal_getAndCacheAccount tx s⟩

theorem validateTransaction_ok_iff {tx : Transaction} {s : State S} :
    (∃ b t, validateTransaction tx s = .ok b t) ↔ ∃ a V, s.account.book.Accepts tx a V := by
  have simulates := simulates_validateTransaction (S := S) tx
  simp only [book_accepts_iff]
  constructor
  · rintro ⟨b, t, run⟩
    exact (validateTransaction_eq_ok.mp (simulates.ok run)).1
  · intro valid
    obtain ⟨t, run, -⟩ := simulates.exists_ok (validateTransaction_eq_ok.mpr ⟨valid, rfl, rfl⟩)
    exact ⟨true, t, run⟩

open Classical in
theorem invalidTransactions_eq (pool : List Transaction) (s : State S) :
    (invalidTransactions pool s).1 =
        pool.filter (fun tx => ¬ ∃ a V, s.account.book.Accepts tx a V) ∧
      s.Alike (invalidTransactions pool s).2 := by
  induction pool generalizing s with
  | nil => exact ⟨rfl, State.Alike.refl s⟩
  | cons tx pool ih =>
      have alike := alike_validateTransaction tx s
      have valid : (∃ b t, validateTransaction tx s = .ok b t) ↔
          ∃ a V, s.account.book.Accepts tx a V := validateTransaction_ok_iff
      simp only [invalidTransactions]
      cases run : validateTransaction tx s with
      | ok b t =>
          rw [run] at alike
          simp only [finish] at alike
          have accepts := valid.mp ⟨b, t, run⟩
          obtain ⟨others, later⟩ := ih t
          rw [alike.account] at others
          refine ⟨?_, alike.trans later⟩
          rw [List.filter_cons_of_neg (by simpa using accepts)]
          exact others
      | error e t =>
          rw [run] at alike
          simp only [finish] at alike
          have refused : ¬ ∃ a V, s.account.book.Accepts tx a V := by
            intro accepts
            obtain ⟨b, t', done⟩ := valid.mpr accepts
            rw [run] at done
            cases done
          obtain ⟨others, later⟩ := ih t
          rw [alike.account] at others
          refine ⟨?_, alike.trans later⟩
          rw [List.filter_cons_of_pos (by simpa using refused)]
          exact congrArg (List.cons tx) others

/-- The transactions came from the constructor, and each of them is valid at the head. -/
structure Stocked (B : Book) (pool : List Transaction) : Prop where
  accepted : ∀ tx ∈ pool, tx.Accepted
  genuine : ∀ tx ∈ pool, tx.Genuine
  valid : ∀ tx ∈ pool, ∃ a V, B.Accepts tx a V

theorem Stocked.sublist {B : Book} {pool part : List Transaction} (stocked : Stocked B pool)
    (sublist : part.Sublist pool) : Stocked B part :=
  ⟨fun tx member => stocked.accepted tx (sublist.subset member),
    fun tx member => stocked.genuine tx (sublist.subset member),
    fun tx member => stocked.valid tx (sublist.subset member)⟩

open Classical in
theorem purge_eq (block : Block) (svc : Service S R)
    (consonant : Consonant svc.transactions) :
    (svc.purge block).transactions =
        (removeAll Transaction.same svc.transactions block.transactions).filter
          (fun tx => ∃ a V, svc.chain.state.account.book.Accepts tx a V) ∧
      ∃ s, svc.chain.state.Alike s ∧ (svc.purge block).chain = { svc.chain with state := s } := by
  have sublist := removeAll_sublist Transaction.same block.transactions svc.transactions
  obtain ⟨invalid, alike⟩ := invalidTransactions_eq
    (removeAll Transaction.same svc.transactions block.transactions) svc.chain.state
  refine ⟨?_, _, alike, rfl⟩
  change removeAll Transaction.same
    (removeAll Transaction.same svc.transactions block.transactions)
    (invalidTransactions (removeAll Transaction.same svc.transactions block.transactions)
      svc.chain.state).1 = _
  rw [invalid]
  have refl (tx : Transaction) : tx.same tx = true := Transaction.same_iff.mpr rfl
  refine (removeAll_filter refl _ [] (fun _ member => absurd member List.not_mem_nil) ?_).trans ?_
  · intro t memberT u memberU same
    have sender := consonant u (sublist.subset memberU) t (sublist.subset memberT) same
    have back : t.same u = true := Transaction.same_iff.mpr (Transaction.same_iff.mp same).symm
    simp only [decide_eq_decide, not_iff_not]
    constructor
    · rintro ⟨a, V, accepts⟩
      exact ⟨a, V, accepts.same same sender⟩
    · rintro ⟨a, V, accepts⟩
      exact ⟨a, V, accepts.same back sender.symm⟩
  · rw [List.nil_append]
    apply List.filter_congr
    intro tx member
    rw [decide_not, Bool.not_not]

end Purge

end Service

end IPchain
