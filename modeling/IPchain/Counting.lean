import IPchain.Database
import IPchain.Lib.Advance

/-! Reference counts over databases that keep their writes in memory for a while. -/

namespace IPchain

open Lib

class Backend (D : Type) where
  get : Bytes → EStateM PyExc D Bytes
  put : Bytes → Bytes → EStateM PyExc D Unit
  delete : Bytes → EStateM PyExc D Unit
  commit : D → D

def missingKey : PyExc := ⟨.keyError, ""⟩

instance : Backend EphemDB where
  get key d :=
    match d.db.lookup key with
    | some value => .ok value d
    | none => .error missingKey d
  put key value d := .ok () ⟨d.db.insert key value⟩
  delete key d := if key ∈ d.db then .ok () ⟨d.db.erase key⟩ else .error missingKey d
  commit d := d

instance {D : Type} [Backend D] : Backend (OverlayDB D) where
  get key d :=
    match d.overlay.lookup key with
    | some (some value) => .ok value d
    | some none => .error missingKey d
    | none =>
        match Backend.get key d.db with
        | .ok value db => .ok value { d with db := db }
        | .error e db => .error e { d with db := db }
  put key value d := .ok () { d with overlay := d.overlay.insert key (some value) }
  delete key d := .ok () { d with overlay := d.overlay.insert key none }
  commit d := d

/-- The leveldb package: a read, which finds nothing where it raises KeyError, and a batch of
puts and deletions of different keys. -/
class Leveldb (B : Type) where
  get : B → Bytes → Option Bytes
  write : B → List (Bytes × Option Bytes) → B
  get_write : ∀ (b : B) (rows : List (Bytes × Option Bytes)), (rows.map Prod.fst).Nodup →
    (∀ row ∈ rows, get (write b rows) row.1 = row.2) ∧
      ∀ key, key ∉ rows.map Prod.fst → get (write b rows) key = get b key

/-- A deleted key is uncommitted without a value. What was read is kept there, too. -/
structure LevelDB (B : Type) where
  uncommitted : AList fun _ : Bytes => Option Bytes
  db : B

instance {B : Type} [Leveldb B] : Backend (LevelDB B) where
  get key d :=
    match d.uncommitted.lookup key with
    | some none => .error ⟨.keyError, "key not in db"⟩ d
    | some (some value) => .ok value d
    | none =>
        match Leveldb.get d.db key with
        | some o => .ok o { d with uncommitted := d.uncommitted.insert key (some o) }
        | none => .error missingKey d
  put key value d := .ok () { d with uncommitted := d.uncommitted.insert key (some value) }
  delete key d := .ok () { d with uncommitted := d.uncommitted.insert key none }
  commit d := ⟨∅, Leveldb.write d.db (d.uncommitted.entries.map fun row => (row.1, row.2))⟩

class Keeper (D : Type) [Backend D] where
  value : D → Bytes → Option Bytes
  get_some : ∀ {d : D} {key v : Bytes}, value d key = some v →
    ∃ d', Backend.get key d = .ok v d' ∧ value d' = value d
  get_none : ∀ {d : D} {key : Bytes}, value d key = none →
    ∃ e d', Backend.get key d = .error e d' ∧ e.isInstance .keyError ∧ value d' = value d
  put_run : ∀ (d : D) (key v : Bytes), ∃ d', Backend.put key v d = .ok () d' ∧
    value d' = Function.update (value d) key (some v)
  delete_run : ∀ {d : D} {key : Bytes}, value d key ≠ none → ∃ d',
    Backend.delete key d = .ok () d' ∧ value d' = Function.update (value d) key none
  value_commit : ∀ d : D, value (Backend.commit d) = value d

theorem lookup_insert_eq {V : Type} (m : AList fun _ : Bytes => V) (key : Bytes) (v : V) :
    (fun k => (m.insert key v).lookup k) = Function.update (fun k => m.lookup k) key (some v) := by
  funext k
  by_cases same : k = key
  · subst same
    rw [AList.lookup_insert, Function.update_self]
  · rw [AList.lookup_insert_ne same, Function.update_of_ne same]

instance : Keeper EphemDB where
  value d key := d.db.lookup key
  get_some {d key v} present := ⟨d, by simp only [Backend.get, present], rfl⟩
  get_none {d key} absent := ⟨missingKey, d, by simp only [Backend.get, absent], rfl, rfl⟩
  put_run d key v := ⟨_, rfl, lookup_insert_eq d.db key v⟩
  delete_run {d key} present := by
    have member : key ∈ d.db := by
      rw [← AList.lookup_isSome]
      exact Option.isSome_iff_ne_none.mpr present
    refine ⟨_, if_pos member, ?_⟩
    funext k
    by_cases same : k = key
    · subst same
      rw [AList.lookup_erase, Function.update_self]
    · rw [AList.lookup_erase_ne same, Function.update_of_ne same]
  value_commit _ := rfl

def overlaid (overlay : AList fun _ : Bytes => Option Bytes) (below : Bytes → Option Bytes) :
    Bytes → Option Bytes := fun key => (overlay.lookup key).getD (below key)

theorem overlaid_insert (overlay : AList fun _ : Bytes => Option Bytes)
    (below : Bytes → Option Bytes) (key : Bytes) (v : Option Bytes) :
    overlaid (overlay.insert key v) below = Function.update (overlaid overlay below) key v := by
  funext k
  by_cases same : k = key
  · subst same
    rw [overlaid, AList.lookup_insert, Function.update_self, Option.getD_some]
  · rw [overlaid, AList.lookup_insert_ne same, Function.update_of_ne same, overlaid]

theorem overlaid_insert_same {overlay : AList fun _ : Bytes => Option Bytes}
    {below : Bytes → Option Bytes} {key : Bytes} (absent : overlay.lookup key = none) :
    overlaid (overlay.insert key (below key)) below = overlaid overlay below := by
  rw [overlaid_insert]
  have same : below key = overlaid overlay below key := by rw [overlaid, absent, Option.getD_none]
  rw [same, Function.update_eq_self]

instance {D : Type} [Backend D] [Keeper D] : Keeper (OverlayDB D) where
  value d := overlaid d.overlay (Keeper.value d.db)
  get_some {d key v} present := by
    rw [overlaid] at present
    simp only [Backend.get]
    split
    · rename_i found
      rw [found, Option.getD_some, Option.some_inj] at present
      exact ⟨d, by rw [present], rfl⟩
    · rename_i found
      rw [found] at present
      cases present
    · rename_i found
      rw [found] at present
      obtain ⟨db, run, same⟩ := Keeper.get_some present
      exact ⟨{ d with db := db }, by rw [run], by rw [same]⟩
  get_none {d key} absent := by
    rw [overlaid] at absent
    simp only [Backend.get]
    split
    · rename_i found
      rw [found] at absent
      cases absent
    · exact ⟨missingKey, d, rfl, rfl, rfl⟩
    · rename_i found
      rw [found] at absent
      obtain ⟨e, db, run, missing, same⟩ := Keeper.get_none absent
      exact ⟨e, { d with db := db }, by rw [run], missing, by rw [same]⟩
  put_run d key v := ⟨_, rfl, overlaid_insert d.overlay _ key (some v)⟩
  delete_run {d key} _ := ⟨_, rfl, overlaid_insert d.overlay _ key none⟩
  value_commit _ := rfl

instance {B : Type} [Leveldb B] : Keeper (LevelDB B) where
  value d := overlaid d.uncommitted (Leveldb.get d.db)
  get_some {d key v} present := by
    rw [overlaid] at present
    simp only [Backend.get]
    split
    · rename_i found
      rw [found] at present
      cases present
    · rename_i found
      rw [found, Option.getD_some, Option.some_inj] at present
      exact ⟨d, by rw [present], rfl⟩
    · rename_i found
      rw [found, Option.getD_none] at present
      simp only [present]
      refine ⟨_, rfl, ?_⟩
      rw [← present]
      exact overlaid_insert_same found
  get_none {d key} absent := by
    rw [overlaid] at absent
    simp only [Backend.get]
    split
    · exact ⟨_, d, rfl, rfl, rfl⟩
    · rename_i found
      rw [found] at absent
      cases absent
    · rename_i found
      rw [found, Option.getD_none] at absent
      simp only [absent]
      exact ⟨missingKey, d, rfl, rfl, rfl⟩
  put_run d key v := ⟨_, rfl, overlaid_insert d.uncommitted _ key (some v)⟩
  delete_run {d key} _ := ⟨_, rfl, overlaid_insert d.uncommitted _ key none⟩
  value_commit d := by
    have keys : (d.uncommitted.entries.map fun row => (row.1, row.2)).map Prod.fst =
        d.uncommitted.keys := by
      rw [List.map_map]
      rfl
    have distinct : ((d.uncommitted.entries.map fun row => (row.1, row.2)).map Prod.fst).Nodup := by
      rw [keys]
      exact d.uncommitted.keys_nodup
    obtain ⟨written, others⟩ := Leveldb.get_write d.db _ distinct
    funext key
    change Leveldb.get (Leveldb.write d.db _) key = overlaid d.uncommitted _ key
    cases found : d.uncommitted.lookup key with
    | some v =>
        rw [overlaid, found]
        exact written (key, v) (List.mem_map.mpr ⟨⟨key, v⟩, AList.mem_lookup_iff.mp found, rfl⟩)
    | none =>
        rw [overlaid, found]
        apply others key
        rw [keys]
        exact AList.lookup_eq_none.mp found

def counted (n : Nat) (v : Bytes) : Option Bytes :=
  if n = 0 then none else some (bigEndian 4 n ++ v)

/-- `encode_int` does not take negative numbers. -/
def sub1 (b : Bytes) : Except PyExc Bytes :=
  if bytesToNat b = 0 then .error ⟨.exception, "Integer invalid or out of range: -1"⟩
  else .ok (zpad (intToBigEndian (bytesToNat b - 1)) 4)

/-! A RefcountDB has nothing of its own but the database it counts in. -/

namespace RefcountDB

variable {D : Type} [Backend D]

def getRefcount (key : Bytes) : EStateM PyExc D Nat := fun d =>
  match Backend.get key d with
  | .ok existing d => .ok (bytesToNat (existing.take 4)) d
  | .error e d => if e.isInstance .keyError then .ok 0 d else .error e d

def get (key : Bytes) : EStateM PyExc D Bytes := do
  let existing ← Backend.get key
  return existing.drop 4

def putAgain (key value : Bytes) : EStateM PyExc D Unit := do
  let existing ← Backend.get key
  if existing.drop 4 = value then Backend.put key (add1 (existing.take 4) ++ value)
  else raised ⟨.assertionError, ""⟩

def put (key value : Bytes) : EStateM PyExc D Unit := fun d =>
  match putAgain key value d with
  | .ok _ d => .ok () d
  | .error e d =>
      if e.isInstance .keyError then Backend.put key ([0, 0, 0, 1] ++ value) d else .error e d

def delete (key : Bytes) : EStateM PyExc D Unit := do
  let existing ← Backend.get key
  if existing.take 4 = [0, 0, 0, 1] then Backend.delete key
  else do
    let counter ← lift (sub1 (existing.take 4))
    Backend.put key (counter ++ existing.drop 4)

variable [Keeper D] {d : D} {key v : Bytes} {n : Nat}

theorem getRefcount_run (held : Keeper.value d key = counted n v) (small : n < 2 ^ 32) :
    ∃ d', getRefcount key d = .ok n d' := by
  by_cases zero : n = 0
  · subst zero
    obtain ⟨e, d', run, missing, -⟩ := Keeper.get_none held
    exact ⟨d', by simp only [getRefcount, run, if_pos missing]⟩
  · rw [counted, if_neg zero] at held
    obtain ⟨d', run, -⟩ := Keeper.get_some held
    refine ⟨d', ?_⟩
    simp only [getRefcount, run, List.take_left' (bigEndian_length 4 n)]
    rw [bytesToNat_bigEndian (show n < 256 ^ 4 by omega)]

theorem get_run (held : Keeper.value d key = counted n v) :
    (0 < n → ∃ d', get key d = .ok v d') ∧
      (n = 0 → ∃ e d', get key d = .error e d' ∧ e.isInstance .keyError) := by
  constructor
  · intro positive
    rw [counted, if_neg (Nat.pos_iff_ne_zero.mp positive)] at held
    obtain ⟨d', run, -⟩ := Keeper.get_some held
    refine ⟨d', ?_⟩
    rw [get, bind_of_ok run, List.drop_left' (bigEndian_length 4 n)]
    rfl
  · rintro rfl
    obtain ⟨e, d', run, missing, -⟩ := Keeper.get_none held
    exact ⟨e, d', by rw [get, bind_of_error run], missing⟩

theorem put_run (held : Keeper.value d key = counted n v) (small : n + 1 < 2 ^ 32) :
    ∃ d', put key v d = .ok () d' ∧
      Keeper.value d' = Function.update (Keeper.value d) key (counted (n + 1) v) := by
  rw [counted, if_neg (Nat.succ_ne_zero n)]
  by_cases zero : n = 0
  · subst zero
    obtain ⟨e, d₁, read, missing, same⟩ := Keeper.get_none held
    obtain ⟨d', run, value⟩ := Keeper.put_run d₁ key ([0, 0, 0, 1] ++ v)
    refine ⟨d', ?_, ?_⟩
    · simp only [put, putAgain, bind_of_error read, if_pos missing, run]
    · rw [value, same]
      rfl
  · rw [counted, if_neg zero] at held
    obtain ⟨d₁, read, same⟩ := Keeper.get_some held
    obtain ⟨d', run, value⟩ := Keeper.put_run d₁ key (bigEndian 4 (n + 1) ++ v)
    refine ⟨d', ?_, by rw [value, same]⟩
    simp only [put, putAgain, bind_of_ok read, List.drop_left' (bigEndian_length 4 n),
      List.take_left' (bigEndian_length 4 n), if_pos, add1_bigEndian small, run]

theorem delete_run (held : Keeper.value d key = counted n v) (positive : 0 < n)
    (small : n < 2 ^ 32) : ∃ d', delete key d = .ok () d' ∧
      Keeper.value d' = Function.update (Keeper.value d) key (counted (n - 1) v) := by
  rw [counted, if_neg (Nat.pos_iff_ne_zero.mp positive)] at held
  obtain ⟨d₁, read, same⟩ := Keeper.get_some held
  have number := bytesToNat_bigEndian (show n < 256 ^ 4 by omega)
  rw [delete, bind_of_ok read, List.take_left' (bigEndian_length 4 n),
    List.drop_left' (bigEndian_length 4 n)]
  by_cases one : n = 1
  · subst one
    have present : Keeper.value d₁ key ≠ none := by simp [same, held]
    obtain ⟨d', run, value⟩ := Keeper.delete_run present
    exact ⟨d', by rw [if_pos (by decide), run], by rw [value, same]; rfl⟩
  · have other : bigEndian 4 n ≠ [0, 0, 0, 1] := by
      intro first
      rw [first] at number
      exact one number.symm
    obtain ⟨d', run, value⟩ := Keeper.put_run d₁ key (bigEndian 4 (n - 1) ++ v)
    refine ⟨d', ?_, ?_⟩
    · rw [if_neg other, sub1, number, if_neg (by omega),
        zpad_intToBigEndian (show n - 1 < 256 ^ 4 by omega), lift_ok, pure_bind, run]
    · rw [value, same, counted, if_neg (by omega)]

inductive Op where
  | put (key value : Bytes)
  | delete (key : Bytes)
  | commit
  deriving DecidableEq

def Op.run : Op → EStateM PyExc D Unit
  | .put key value => RefcountDB.put key value
  | .delete key => RefcountDB.delete key
  | .commit => modify Backend.commit

def runAll : List Op → EStateM PyExc D Unit
  | [] => pure ()
  | op :: ops => do
      op.run
      runAll ops

def Op.isPut (k : Bytes) : Op → Bool
  | .put key _ => key = k
  | _ => false

def Op.isDelete (k : Bytes) : Op → Bool
  | .delete key => key = k
  | _ => false

def puts (k : Bytes) (ops : List Op) : Nat := ops.countP (Op.isPut k)

def deletes (k : Bytes) (ops : List Op) : Nat := ops.countP (Op.isDelete k)

theorem puts_cons (k : Bytes) (op : Op) (ops : List Op) :
    puts k (op :: ops) = puts k [op] + puts k ops := by
  rw [← List.singleton_append, puts, List.countP_append]
  rfl

theorem deletes_cons (k : Bytes) (op : Op) (ops : List Op) :
    deletes k (op :: ops) = deletes k [op] + deletes k ops := by
  rw [← List.singleton_append, deletes, List.countP_append]
  rfl

/-- From counts `n`, no key is deleted more often than put, and the counts stay small. -/
def Covered (n : Bytes → Nat) (ops : List Op) : Prop :=
  ∀ front, front <+: ops → ∀ k, deletes k front ≤ n k + puts k front ∧
    n k + puts k front < 2 ^ 32 + deletes k front

/-- The keys of `K` are counted by `n`. -/
def Counts (K : Set Bytes) (values : Bytes → Bytes) (n : Bytes → Nat) (d : D) : Prop :=
  ∀ k ∈ K, Keeper.value d k = counted (n k) (values k)

variable {K : Set Bytes} {values : Bytes → Bytes} {c : Bytes → Nat}

theorem Counts.update {d d' : D} (counts : Counts K values c d) {key : Bytes} {m : Nat}
    (value : Keeper.value d' =
      Function.update (Keeper.value d) key (counted m (values key))) :
    Counts K values (Function.update c key m) d' := by
  intro k member
  rw [value]
  by_cases same : k = key
  · subst same
    rw [Function.update_self, Function.update_self]
  · rw [Function.update_of_ne same, Function.update_of_ne same]
    exact counts k member

theorem Covered.head {op : Op} {ops : List Op} (covered : Covered c (op :: ops)) (k : Bytes) :
    deletes k [op] ≤ c k + puts k [op] ∧ c k + puts k [op] < 2 ^ 32 + deletes k [op] :=
  covered [op] (by simp) k

theorem Covered.small {ops : List Op} (covered : Covered c ops) (k : Bytes) : c k < 2 ^ 32 := by
  have bound := (covered [] List.nil_prefix k).2
  have puts : puts k [] = 0 := rfl
  have deletes : deletes k [] = 0 := rfl
  rw [puts, deletes] at bound
  omega

theorem Covered.tail {op : Op} {ops : List Op} {c' : Bytes → Nat} (covered : Covered c (op :: ops))
    (step : ∀ k, c' k + deletes k [op] = c k + puts k [op]) : Covered c' ops := by
  intro front begins k
  have whole := covered (op :: front) (List.cons_prefix_cons.mpr ⟨rfl, begins⟩) k
  have shift := step k
  rw [puts_cons, deletes_cons] at whole
  omega

theorem Op.run_counts {op : Op} {d : D} (counts : Counts K values c d)
    (listed : ∀ k, op.isPut k ∨ op.isDelete k → k ∈ K)
    (same : ∀ k v, op = .put k v → v = values k) (small : ∀ k, c k < 2 ^ 32)
    (covered : ∀ k, deletes k [op] ≤ c k + puts k [op] ∧
      c k + puts k [op] < 2 ^ 32 + deletes k [op]) :
    ∃ d' c', op.run d = .ok () d' ∧ Counts K values c' d' ∧
      ∀ k, c' k + deletes k [op] = c k + puts k [op] := by
  cases op with
  | put key value =>
      obtain rfl := same key value rfl
      have bound := covered key
      have one : puts key [.put key (values key)] = 1 := by simp [puts, Op.isPut]
      have none (k : Bytes) : deletes k [.put key (values key)] = 0 := by simp [deletes, Op.isDelete]
      rw [one, none] at bound
      have held := counts key (listed key (Or.inl (by simp [Op.isPut])))
      obtain ⟨d', run, value⟩ := put_run held (by omega)
      refine ⟨d', _, run, counts.update value, ?_⟩
      intro k
      rw [none]
      by_cases here : k = key
      · subst here
        rw [Function.update_self, one]
      · rw [Function.update_of_ne here]
        simp [puts, Op.isPut, Ne.symm here]
  | delete key =>
      have bound := covered key
      have one : deletes key [.delete key] = 1 := by simp [deletes, Op.isDelete]
      have none (k : Bytes) : puts k [.delete key] = 0 := by simp [puts, Op.isPut]
      rw [one, none] at bound
      have held := counts key (listed key (Or.inr (by simp [Op.isDelete])))
      have positive : 0 < c key := by omega
      obtain ⟨d', run, value⟩ := delete_run held positive (small key)
      refine ⟨d', _, run, counts.update value, ?_⟩
      intro k
      rw [none]
      by_cases here : k = key
      · subst here
        rw [Function.update_self, one]
        omega
      · rw [Function.update_of_ne here]
        simp [deletes, Op.isDelete, Ne.symm here]
  | commit =>
      refine ⟨_, c, rfl, ?_, fun k => rfl⟩
      intro k member
      rw [Keeper.value_commit]
      exact counts k member

theorem runAll_counts {ops : List Op} {d : D} (counts : Counts K values c d)
    (listed : ∀ op ∈ ops, ∀ k, op.isPut k ∨ op.isDelete k → k ∈ K)
    (same : ∀ k v, .put k v ∈ ops → v = values k) (covered : Covered c ops) :
    ∃ d' c', runAll ops d = .ok () d' ∧ Counts K values c' d' ∧
      ∀ k, c' k + deletes k ops = c k + puts k ops := by
  induction ops generalizing c d with
  | nil => exact ⟨d, c, rfl, counts, fun k => rfl⟩
  | cons op ops ih =>
      obtain ⟨first, later⟩ := List.forall_mem_cons.mp listed
      obtain ⟨d₁, c₁, run, counts, step⟩ := op.run_counts counts first
        (fun k v put => same k v (put ▸ List.mem_cons_self)) covered.small covered.head
      obtain ⟨d', c', rest, counts', steps⟩ := ih counts later
        (fun k v put => same k v (List.mem_cons_of_mem _ put)) (covered.tail step)
      refine ⟨d', c', ?_, counts', ?_⟩
      · rw [runAll, bind_of_ok run, rest]
      · intro k
        have one := step k
        have more := steps k
        rw [puts_cons, deletes_cons]
        omega

/-- Any calls on a database without entries of their keys, where a key comes with one value, is
not deleted more often than it was put, and has fewer than 2 ^ 32 puts outstanding. -/
structure Fair (values : Bytes → Bytes) (d : D) (ops : List Op) : Prop where
  fresh : ∀ op ∈ ops, ∀ k, op.isPut k ∨ op.isDelete k → Keeper.value d k = none
  same : ∀ k v, .put k v ∈ ops → v = values k
  covered : ∀ front, front <+: ops → ∀ k, deletes k front ≤ puts k front
  few : ∀ front, front <+: ops → ∀ k, puts k front < 2 ^ 32 + deletes k front

/-- The calls return, and what they leave behind is read as the count says. -/
def Exact (values : Bytes → Bytes) (d : D) (ops : List Op) : Prop :=
  ∃ d', runAll ops d = .ok () d' ∧ ∀ k, Keeper.value d k = none →
    (∃ e, getRefcount k d' = .ok (puts k ops - deletes k ops) e) ∧
    (deletes k ops < puts k ops → ∃ e, get k d' = .ok (values k) e) ∧
    (puts k ops = deletes k ops → ∃ x e, get k d' = .error x e ∧ x.isInstance .keyError)

theorem exact_of_fair {d : D} {ops : List Op} (fair : Fair values d ops) : Exact values d ops := by
  have blank : Counts {k | Keeper.value d k = none} values (fun _ => 0) d := fun k none => none
  have covered : Covered (fun _ => 0) ops := by
    intro front begins k
    have bounds := fair.covered front begins k
    have few := fair.few front begins k
    change deletes k front ≤ 0 + puts k front ∧ 0 + puts k front < 2 ^ 32 + deletes k front
    omega
  obtain ⟨d', c', run, counts, total⟩ := runAll_counts blank fair.fresh fair.same covered
  refine ⟨d', run, fun k none => ?_⟩
  have held := counts k none
  have sum := total k
  have few := fair.few ops List.prefix_rfl k
  have count : c' k = puts k ops - deletes k ops := by omega
  obtain ⟨present, absent⟩ := get_run held
  refine ⟨?_, fun more => present (by omega), fun equal => absent (by omega)⟩
  rw [← count]
  exact getRefcount_run held (by omega)

end RefcountDB

open RefcountDB in
/-- The counts are exact over each of the databases. -/
theorem refcounts_exact (values : Bytes → Bytes) (ops : List Op) :
    (∀ d : EphemDB, Fair values d ops → Exact values d ops) ∧
    (∀ (D : Type) [Backend D] [Keeper D] (d : OverlayDB D), Fair values d ops →
      Exact values d ops) ∧
    ∀ (B : Type) [Leveldb B] (d : LevelDB B), Fair values d ops → Exact values d ops :=
  ⟨fun _ fair => exact_of_fair fair, fun _ _ _ _ fair => exact_of_fair fair,
    fun _ _ _ fair => exact_of_fair fair⟩

namespace Sample

open RefcountDB

scoped instance : Leveldb (Bytes → Option Bytes) where
  get b key := b key
  write b rows key := ((rows.find? fun row => row.1 = key).map Prod.snd).getD (b key)
  get_write b rows distinct := by
    constructor
    · intro row member
      change ((rows.find? fun other => other.1 = row.1).map Prod.snd).getD _ = _
      cases found : rows.find? fun other => other.1 = row.1 with
      | none => simpa using List.find?_eq_none.mp found row member
      | some other =>
          have key : other.1 = row.1 := by simpa using List.find?_some found
          have same := List.inj_on_of_nodup_map distinct (List.mem_of_find?_eq_some found) member key
          rw [Option.map_some, Option.getD_some, same]
    · intro key absent
      have none : (rows.find? fun row => row.1 = key) = none := by
        rw [List.find?_eq_none]
        intro row member here
        exact absent (List.mem_map.mpr ⟨row, member, by simpa using here⟩)
      change ((rows.find? fun row => row.1 = key).map Prod.snd).getD _ = _
      rw [none, Option.map_none, Option.getD_none]

def putTwice : List Op := [.put [1] [7], .commit, .put [1] [7], .delete [1]]

theorem putTwice_fair {D : Type} [Backend D] [Keeper D] {d : D}
    (blank : ∀ k, Keeper.value d k = none) : Fair (fun _ => [7]) d putTwice := by
  have counts (front : List Op) (begins : front <+: putTwice) (k : Bytes) :
      deletes k front ≤ puts k front ∧ puts k front ≤ 2 := by
    have member := (List.mem_inits front putTwice).mpr begins
    simp only [putTwice, List.inits, List.map_cons, List.map_nil, List.mem_cons,
      List.not_mem_nil, or_false] at member
    by_cases one : [1] = k <;> rcases member with rfl | rfl | rfl | rfl | rfl <;>
      simp [puts, deletes, Op.isPut, Op.isDelete, one]
  refine ⟨fun _ _ k _ => blank k, ?_, fun front begins k => (counts front begins k).1, ?_⟩
  · intro k v member
    simp only [putTwice, List.mem_cons, Op.put.injEq, reduceCtorEq, List.not_mem_nil, or_false,
      false_or] at member
    rcases member with ⟨-, same⟩ | ⟨-, same⟩ <;> exact same
  · intro front begins k
    have bound := (counts front begins k).2
    omega

theorem putTwice_exact :
    Exact (fun _ => [7]) (⟨∅⟩ : EphemDB) putTwice ∧
    Exact (fun _ => [7]) (⟨⟨∅⟩, ∅⟩ : OverlayDB EphemDB) putTwice ∧
    Exact (fun _ => [7]) (⟨∅, fun _ => none⟩ : LevelDB (Bytes → Option Bytes)) putTwice := by
  refine ⟨?_, ?_, ?_⟩
  · exact (refcounts_exact _ putTwice).1 _ (putTwice_fair fun _ => rfl)
  · exact (refcounts_exact _ putTwice).2.1 EphemDB _ (putTwice_fair fun _ => rfl)
  · exact (refcounts_exact _ putTwice).2.2 _ _ (putTwice_fair fun _ => rfl)

end Sample

end IPchain
