import Mathlib.Data.List.AList

/-! Dictionaries that are filled by one update after another. -/

namespace IPchain.Lib.Dict

variable {K D : Type} [DecidableEq K]

def update (dict : AList fun _ : K => D) (updates : List (K × D)) : AList fun _ : K => D :=
  updates.foldl (fun dict row => dict.insert row.1 row.2) dict

theorem update_append (dict : AList fun _ : K => D) (updates more : List (K × D)) :
    update dict (updates ++ more) = update (update dict updates) more := List.foldl_append

theorem lookup_update_of_absent {updates : List (K × D)} {dict : AList fun _ : K => D} {n : K}
    (absent : ∀ row ∈ updates, n ≠ row.1) : (update dict updates).lookup n = dict.lookup n := by
  induction updates generalizing dict with
  | nil => rfl
  | cons head tail ih =>
      obtain ⟨other, absent⟩ := List.forall_mem_cons.mp absent
      exact (ih absent).trans (AList.lookup_insert_ne other)

theorem lookup_update_last {earlier later : List (K × D)} {dict : AList fun _ : K => D}
    {row : K × D} (last : ∀ other ∈ later, row.1 ≠ other.1) :
    (update dict (earlier ++ row :: later)).lookup row.1 = some row.2 := by
  rw [update_append]
  exact (lookup_update_of_absent last).trans (AList.lookup_insert _)

theorem lookup_update_of_mem (dict : AList fun _ : K => D) {updates : List (K × D)}
    (distinct : (updates.map Prod.fst).Nodup) {row : K × D} (member : row ∈ updates) :
    (update dict updates).lookup row.1 = some row.2 := by
  obtain ⟨earlier, later, rfl⟩ := List.append_of_mem member
  rw [List.map_append, List.map_cons, List.nodup_middle, List.nodup_cons] at distinct
  apply lookup_update_last
  intro other later same
  apply distinct.1
  exact List.mem_append_right _ (List.mem_map.mpr ⟨other, later, same.symm⟩)

theorem mem_of_lookup_update {updates : List (K × D)} {dict : AList fun _ : K => D} {n : K} {d : D}
    (found : (update dict updates).lookup n = some d) :
    (n, d) ∈ updates ∨ dict.lookup n = some d := by
  induction updates generalizing dict with
  | nil => exact Or.inr found
  | cons head tail ih =>
      rcases ih found with later | earlier
      · exact Or.inl (List.mem_cons_of_mem _ later)
      · by_cases same : n = head.1
        · subst same
          rw [AList.lookup_insert] at earlier
          cases earlier
          exact Or.inl List.mem_cons_self
        · rw [AList.lookup_insert_ne same] at earlier
          exact Or.inr earlier

theorem lookup_update_eq_some {updates : List (K × D)} {dict : AList fun _ : K => D}
    (distinct : (updates.map Prod.fst).Nodup)
    (fresh : ∀ row ∈ updates, dict.lookup row.1 = none) {n : K} {d : D} :
    (update dict updates).lookup n = some d ↔ (n, d) ∈ updates ∨ dict.lookup n = some d := by
  constructor
  · exact mem_of_lookup_update
  · rintro (updated | earlier)
    · exact lookup_update_of_mem dict distinct updated
    · rw [lookup_update_of_absent]
      · exact earlier
      · rintro row member rfl
        rw [fresh row member] at earlier
        cases earlier

theorem mem_pairs {dict : AList fun _ : K => D} {row : K × D} :
    row ∈ (dict.entries.map fun entry => (entry.1, entry.2)) ↔ dict.lookup row.1 = some row.2 := by
  rw [List.mem_map]
  constructor
  · rintro ⟨entry, member, rfl⟩
    exact AList.mem_lookup_iff.mpr member
  · exact fun found => ⟨⟨row.1, row.2⟩, AList.mem_lookup_iff.mp found, rfl⟩

end IPchain.Lib.Dict
