import IPchain.Lib.Dict
import IPchain.Lib.Network

/-! Longest-prefix matching.

`exact` is the table of stored prefixes, `best` the row of the longest stored
prefix that contains an address. Everything said of a lookup follows from the
table alone. -/

namespace IPchain.Lib

class Radix (R : Type) (D : outParam Type) where
  empty : R
  add : R → IPNetwork → D → R
  exact : R → IPNetwork → Option D
  best : R → IPAddress → Option (IPNetwork × D)
  exact_empty : ∀ m, exact empty m = none
  exact_add : ∀ r n d m, exact (add r n d) m = if m.cidr = n.cidr then some d else exact r m
  exact_cidr : ∀ r m n, m.cidr = n.cidr → exact r m = exact r n
  best_none : ∀ r x, best r x = none → ∀ m, x ∈ m → exact r m = none
  best_some : ∀ r x m d, best r x = some (m, d) → x ∈ m ∧ exact r m = some d ∧
    ∀ longer, x ∈ longer → m.prefixlen < longer.prefixlen → exact r longer = none

namespace Radix

variable {R D : Type} [Radix R D]

/-- `m` is the longest stored prefix that contains `x`, and it holds `d`. -/
structure Covers (r : R) (x : IPAddress) (m : IPNetwork) (d : D) : Prop where
  inside : x ∈ m
  stored : exact r m = some d
  longest : ∀ longer, x ∈ longer → m.prefixlen < longer.prefixlen → exact r longer = none

def lookup (r : R) (x : IPAddress) : Option D := (best r x).map Prod.snd

theorem Covers.unique {r : R} {x : IPAddress} {m n : IPNetwork} {d e : D}
    (first : Covers r x m d) (second : Covers r x n e) : m.cidr = n.cidr ∧ d = e := by
  have lengths : m.prefixlen = n.prefixlen := by
    rcases lt_trichotomy m.prefixlen n.prefixlen with shorter | same | longer
    · have absent := first.longest n second.inside shorter
      rw [second.stored] at absent
      cases absent
    · exact same
    · have absent := second.longest m first.inside longer
      rw [first.stored] at absent
      cases absent
  have cidrs := IPNetwork.cidr_eq_of_mem first.inside second.inside lengths
  have stored := first.stored
  rw [exact_cidr r m n cidrs, second.stored] at stored
  exact ⟨cidrs, (Option.some.inj stored).symm⟩

theorem lookup_eq_some (r : R) (x : IPAddress) (d : D) :
    lookup r x = some d ↔ ∃ m, Covers r x m d := by
  constructor
  · intro found
    obtain ⟨⟨m, e⟩, row, rfl⟩ := Option.map_eq_some_iff.mp found
    obtain ⟨inside, stored, longest⟩ := best_some r x m e row
    exact ⟨m, inside, stored, longest⟩
  · rintro ⟨m, covers⟩
    cases row : best r x with
    | none =>
        have absent := best_none r x row m covers.inside
        rw [covers.stored] at absent
        cases absent
    | some pair =>
        obtain ⟨inside, stored, longest⟩ := best_some r x pair.1 pair.2 row
        have same := Covers.unique covers ⟨inside, stored, longest⟩
        simp [lookup, row, same.2]

theorem Covers.congr {r s : R} (same : ∀ m, exact r m = exact s m) {x : IPAddress}
    {m : IPNetwork} {d : D} (covers : Covers r x m d) : Covers s x m d where
  inside := covers.inside
  stored := (same m).symm.trans covers.stored
  longest longer member bound := (same longer).symm.trans (covers.longest longer member bound)

theorem lookup_congr {r s : R} (same : ∀ m, exact r m = exact s m) (x : IPAddress) :
    lookup r x = lookup s x := by
  apply Option.ext
  intro d
  simp only [lookup_eq_some]
  constructor
  · rintro ⟨m, covers⟩
    exact ⟨m, covers.congr same⟩
  · rintro ⟨m, covers⟩
    exact ⟨m, covers.congr (fun m => (same m).symm)⟩

/-- Storing `d` at `n` decides every address of `n`: wherever a longer prefix is
already stored and wins, it holds `d` too. -/
def Settled (r : R) (n : IPNetwork) (d : D) : Prop :=
  ∀ x ∈ n, ∀ m e, n.prefixlen < m.prefixlen → Covers r x m e → e = d

theorem Covers.of_add_outside {r : R} {n m : IPNetwork} {d e : D} {x : IPAddress}
    (outside : x ∉ n) (covers : Covers r x m e) : Covers (add r n d) x m e := by
  have other (k : IPNetwork) (member : x ∈ k) : exact (add r n d) k = exact r k := by
    rw [exact_add, if_neg]
    intro same
    exact outside (IPNetwork.mem_of_cidr_eq same member)
  refine ⟨covers.inside, (other m covers.inside).trans covers.stored, ?_⟩
  intro longer member bound
  exact (other longer member).trans (covers.longest longer member bound)

theorem Covers.of_add_longer {r : R} {n m : IPNetwork} {d e : D} {x : IPAddress}
    (longer : n.prefixlen < m.prefixlen) (covers : Covers r x m e) :
    Covers (add r n d) x m e := by
  have other (k : IPNetwork) (bound : n.prefixlen < k.prefixlen) :
      exact (add r n d) k = exact r k := by
    rw [exact_add, if_neg]
    intro same
    exact Nat.ne_of_lt bound ((IPNetwork.cidr_eq_iff k n).mp same).2.1.symm
  refine ⟨covers.inside, (other m longer).trans covers.stored, ?_⟩
  intro k member bound
  exact (other k (lt_trans longer bound)).trans (covers.longest k member bound)

def Clear (r : R) (n : IPNetwork) (x : IPAddress) : Prop :=
  ∀ longer, x ∈ longer → n.prefixlen < longer.prefixlen → exact r longer = none

theorem clear_or_covers (r : R) (n : IPNetwork) (x : IPAddress) :
    Clear r n x ∨ ∃ m e, n.prefixlen < m.prefixlen ∧ Covers r x m e := by
  by_cases clear : Clear r n x
  · exact Or.inl clear
  · simp only [Clear, not_forall] at clear
    obtain ⟨longer, member, bound, present⟩ := clear
    cases row : best r x with
    | none => exact absurd (best_none r x row longer member) present
    | some pair =>
        obtain ⟨inside, stored, maximal⟩ := best_some r x pair.1 pair.2 row
        have deeper : n.prefixlen < pair.1.prefixlen := by
          by_contra shallow
          exact present (maximal longer member (by omega))
        exact Or.inr ⟨pair.1, pair.2, deeper, inside, stored, maximal⟩

theorem Covers.of_add_inside {r : R} {n : IPNetwork} {d : D} {x : IPAddress} (inside : x ∈ n)
    (clear : Clear r n x) : Covers (add r n d) x n d := by
  refine ⟨inside, by rw [exact_add, if_pos rfl], ?_⟩
  intro longer member bound
  rw [exact_add, if_neg]
  · exact clear longer member bound
  · intro same
    exact Nat.ne_of_lt bound ((IPNetwork.cidr_eq_iff longer n).mp same).2.1.symm

theorem lookup_add_outside (r : R) (n : IPNetwork) (d : D) (x : IPAddress) (outside : x ∉ n) (e : D)
    (found : lookup r x = some e) : lookup (add r n d) x = some e := by
  obtain ⟨m, covers⟩ := (lookup_eq_some r x e).mp found
  exact (lookup_eq_some _ x e).mpr ⟨m, covers.of_add_outside outside⟩

theorem lookup_add_clear {r : R} {n : IPNetwork} (d : D) {x : IPAddress} (inside : x ∈ n)
    (clear : Clear r n x) : lookup (add r n d) x = some d :=
  (lookup_eq_some _ x d).mpr ⟨n, Covers.of_add_inside inside clear⟩

theorem lookup_add_longer {r : R} {n m : IPNetwork} (d : D) {e : D} {x : IPAddress}
    (longer : n.prefixlen < m.prefixlen) (covers : Covers r x m e) :
    lookup (add r n d) x = some e :=
  (lookup_eq_some _ x e).mpr ⟨m, covers.of_add_longer longer⟩

theorem lookup_add_inside (r : R) (n : IPNetwork) (d : D) (settled : Settled r n d)
    (x : IPAddress) (inside : x ∈ n) : lookup (add r n d) x = some d := by
  rcases clear_or_covers r n x with clear | ⟨m, e, longer, covers⟩
  · exact lookup_add_clear d inside clear
  · rw [lookup_add_longer d longer covers, settled x inside m e longer covers]

def addAll (r : R) (rows : List (IPNetwork × D)) : R :=
  rows.foldl (fun r row => add r row.1 row.2) r

theorem addAll_append (r : R) (rows more : List (IPNetwork × D)) :
    addAll r (rows ++ more) = addAll (addAll r rows) more := List.foldl_append

theorem exact_addAll (r : R) (rows : List (IPNetwork × D)) (m : IPNetwork) :
    (∃ earlier row later, rows = earlier ++ row :: later ∧ m.cidr = row.1.cidr ∧
      (∀ other ∈ later, m.cidr ≠ other.1.cidr) ∧ exact (addAll r rows) m = some row.2) ∨
    ((∀ row ∈ rows, m.cidr ≠ row.1.cidr) ∧ exact (addAll r rows) m = exact r m) := by
  induction rows generalizing r with
  | nil => exact Or.inr ⟨fun _ member => (List.not_mem_nil member).elim, rfl⟩
  | cons head tail ih =>
      rcases ih (add r head.1 head.2) with
        ⟨earlier, row, later, rfl, same, last, found⟩ | ⟨absent, found⟩
      · exact Or.inl ⟨head :: earlier, row, later, rfl, same, last, found⟩
      · change exact (addAll r (head :: tail)) m = _ at found
        rw [exact_add] at found
        split at found
        · rename_i same
          exact Or.inl ⟨[], head, tail, rfl, same, absent, found⟩
        · rename_i other
          exact Or.inr ⟨List.forall_mem_cons.mpr ⟨other, absent⟩, found⟩

theorem addAll_congr {r s : R} (same : ∀ m, exact r m = exact s m) (rows : List (IPNetwork × D))
    (m : IPNetwork) : exact (addAll r rows) m = exact (addAll s rows) m := by
  induction rows generalizing r s with
  | nil => exact same m
  | cons head tail ih =>
      refine ih fun n => ?_
      rw [exact_add, exact_add, same]

def Spelled (dict : AList fun _ : IPNetwork => D) : Prop :=
  ∀ m n d e, m.cidr = n.cidr → dict.lookup m = some d → dict.lookup n = some e → d = e

omit [Radix R D] in
theorem spelled_update {updates : List (IPNetwork × D)}
    (agree : ∀ row ∈ updates, ∀ other ∈ updates, row.1.cidr = other.1.cidr → row.2 = other.2) :
    Spelled (Dict.update ∅ updates) := by
  intro m n d e same first second
  rcases Dict.mem_of_lookup_update first with member | none
  · rcases Dict.mem_of_lookup_update second with member' | none
    · exact agree (m, d) member (n, e) member' same
    · cases none
  · cases none

/-- The rows of a dictionary, stored in any order, make the tree that its updates make one
after another, as long as no prefix is spelled in two ways with different values. -/
theorem exact_addAll_update {r s : R} (same : ∀ m, exact r m = exact s m)
    {updates rows : List (IPNetwork × D)}
    (perm : rows.Perm ((Dict.update ∅ updates).entries.map fun row => (row.1, row.2)))
    (spelled : Spelled (Dict.update ∅ updates)) (m : IPNetwork) :
    exact (addAll r rows) m = exact (addAll s updates) m := by
  have listed (row : IPNetwork × D) :
      row ∈ rows ↔ (Dict.update ∅ updates).lookup row.1 = some row.2 :=
    perm.mem_iff.trans Dict.mem_pairs
  rcases exact_addAll s updates m with
    ⟨earlier, row, later, rfl, cidr, last, found⟩ | ⟨absent, found⟩
  · have present : (Dict.update ∅ (earlier ++ row :: later)).lookup row.1 = some row.2 :=
      Dict.lookup_update_last fun other member spelling =>
        last other member (cidr.trans (congrArg IPNetwork.cidr spelling))
    rw [found]
    rcases exact_addAll r rows m with ⟨first, other, rest, split, cidr', -, found'⟩ | ⟨absent, -⟩
    · have stored := (listed other).mp (split ▸ by simp)
      rw [found', spelled other.1 row.1 other.2 row.2 (cidr'.symm.trans cidr) stored present]
    · exact absurd cidr (absent row ((listed row).mpr present))
  · rw [found, ← same]
    rcases exact_addAll r rows m with ⟨first, other, rest, split, cidr', -, -⟩ | ⟨-, found'⟩
    · rcases Dict.mem_of_lookup_update ((listed other).mp (split ▸ by simp)) with member | none
      · exact absurd cidr' (absent other member)
      · cases none
    · exact found'

end Radix

end IPchain.Lib
