import Mathlib.Data.Finset.Lattice.Fold
import Mathlib.Data.Fintype.Basic
import Mathlib.Data.List.FinRange
import Mathlib.Logic.Function.Basic

/-! Patricia trees: maps from words over a finite alphabet, kept as trees whose single paths are
compressed into leaves and extensions.

A normal tree has no branch with less than two items and no extension above a leaf or another
extension. Normal trees with the same entries are equal, whatever was added and removed on the
way to them. -/

namespace IPchain.Lib

inductive Patricia (n : Nat) (α : Type) where
  | blank
  | leaf (path : List (Fin n)) (value : α)
  | extension (path : List (Fin n)) (sub : Patricia n α)
  | branch (subs : Fin n → Patricia n α) (value : Option α)

def divide {κ : Type} [DecidableEq κ] : List κ → List κ → List κ × List κ × List κ
  | a :: l, b :: r =>
      if a = b then (a :: (divide l r).1, (divide l r).2) else ([], a :: l, b :: r)
  | l, r => ([], l, r)

section Divide

variable {κ : Type} [DecidableEq κ]

theorem divide_left (l r : List κ) : (divide l r).1 ++ (divide l r).2.1 = l := by
  fun_induction divide l r with
  | case1 l b r ih => exact congrArg (b :: ·) ih
  | case2 a l b r other => rfl
  | case3 l r => rfl

theorem divide_right (l r : List κ) : (divide l r).1 ++ (divide l r).2.2 = r := by
  fun_induction divide l r with
  | case1 l b r ih => exact congrArg (b :: ·) ih
  | case2 a l b r other => rfl
  | case3 l r => rfl

theorem divide_apart {l r : List κ} {a b : κ} {l' r' : List κ}
    (left : (divide l r).2.1 = a :: l') (right : (divide l r).2.2 = b :: r') : a ≠ b := by
  fun_induction divide l r with
  | case1 l c r ih => exact ih left right
  | case2 c l d r other =>
      cases left
      cases right
      exact other
  | case3 l r none => exact absurd right (by rintro rfl; exact none _ _ _ _ left rfl)

theorem exists_divide (l r : List κ) : ∃ p l' r', divide l r = (p, l', r') ∧ l = p ++ l' ∧
    r = p ++ r' ∧ ∀ a more, l' = a :: more → ∀ rest, r' ≠ a :: rest := by
  refine ⟨_, _, _, rfl, (divide_left l r).symm, (divide_right l r).symm, ?_⟩
  intro a more left rest right
  exact divide_apart left right rfl

end Divide

namespace Patricia

variable {n : Nat} {α : Type}

def get : Patricia n α → List (Fin n) → Option α
  | blank, _ => none
  | leaf path value, key => if key = path then some value else none
  | extension path sub, key => if path <+: key then sub.get (key.drop path.length) else none
  | branch _ value, [] => value
  | branch subs _, d :: key => (subs d).get key

def prepend : List (Fin n) → Patricia n α → Patricia n α
  | [], t => t
  | d :: path, t => extension (d :: path) t

def single (d : Fin n) (t : Patricia n α) : Fin n → Patricia n α :=
  Function.update (fun _ => blank) d t

/-- A branch with the child `t` under `d` and the value at the end of `rest`. -/
def fork (d : Fin n) (t : Patricia n α) (value : α) : List (Fin n) → Patricia n α
  | [] => branch (single d t) (some value)
  | e :: rest => branch (Function.update (single d t) e (leaf rest value)) none

def update : Patricia n α → List (Fin n) → α → Patricia n α
  | blank, key, value => leaf key value
  | branch subs _, [], value => branch subs (some value)
  | branch subs old, d :: key, value =>
      branch (Function.update subs d ((subs d).update key value)) old
  | leaf path old, key, value =>
      match divide path key with
      | (_, [], []) => leaf path value
      | (p, [], e :: rest) => prepend p (branch (single e (leaf rest value)) (some old))
      | (p, d :: more, rest) => prepend p (fork d (leaf more old) value rest)
  | extension path sub, key, value =>
      match divide path key with
      | (p, [], rest) => prepend p (sub.update rest value)
      | (p, d :: more, rest) => prepend p (fork d (prepend more sub) value rest)

def isBlank : Patricia n α → Bool
  | blank => true
  | _ => false

def attach (path : List (Fin n)) : Patricia n α → Patricia n α
  | blank => blank
  | leaf more value => leaf (path ++ more) value
  | extension more sub => extension (path ++ more) sub
  | branch subs value => extension path (branch subs value)

def children (subs : Fin n → Patricia n α) : List (Fin n) :=
  (List.finRange n).filter fun d => !(subs d).isBlank

def normalize (subs : Fin n → Patricia n α) (value : Option α) : Patricia n α :=
  match children subs, value with
  | [], some v => leaf [] v
  | [d], none => attach [d] (subs d)
  | _, _ => branch subs value

def delete : Patricia n α → List (Fin n) → Patricia n α
  | blank, _ => blank
  | leaf path value, key => if key = path then blank else leaf path value
  | extension path sub, key =>
      if path <+: key then attach path (sub.delete (key.drop path.length)) else extension path sub
  | branch subs _, [] => normalize subs none
  | branch subs value, d :: key =>
      normalize (Function.update subs d ((subs d).delete key)) value

/-- All keys with their values, in the order of the digits, the end of a branch last. -/
def entries : Patricia n α → List (List (Fin n) × α)
  | blank => []
  | leaf path value => [(path, value)]
  | extension path sub => sub.entries.map fun entry => (path ++ entry.1, entry.2)
  | branch subs value =>
      ((List.finRange n).flatMap fun d => (subs d).entries.map fun entry => (d :: entry.1, entry.2)) ++
        (value.map fun v => ([], v)).toList

def height : Patricia n α → Nat
  | blank => 0
  | leaf _ _ => 0
  | extension _ sub => sub.height + 1
  | branch subs _ => (Finset.univ.sup fun d => (subs d).height) + 1

theorem height_child (subs : Fin n → Patricia n α) (value : Option α) (d : Fin n) :
    (subs d).height < (branch subs value).height :=
  Nat.lt_succ_of_le (Finset.le_sup (f := fun d => (subs d).height) (Finset.mem_univ d))

theorem get_prepend_append (path : List (Fin n)) (t : Patricia n α) (key : List (Fin n)) :
    (prepend path t).get (path ++ key) = t.get key := by
  cases path with
  | nil => rfl
  | cons d path => rw [prepend, get, if_pos (List.prefix_append _ _), List.drop_left]

theorem get_prepend_of_not {path key : List (Fin n)} (outside : ¬ path <+: key)
    (t : Patricia n α) : (prepend path t).get key = none := by
  cases path with
  | nil => exact absurd (List.nil_prefix) outside
  | cons d path => rw [prepend, get, if_neg outside]

theorem get_attach_append (path : List (Fin n)) (t : Patricia n α) (key : List (Fin n)) :
    (attach path t).get (path ++ key) = t.get key := by
  cases t with
  | blank => rfl
  | leaf more value => simp only [attach, get, List.append_cancel_left_eq]
  | extension more sub =>
      simp only [attach, get, List.prefix_append_right_inj, List.length_append,
        ← List.drop_drop, List.drop_left]
  | branch subs value => simp only [attach, get, List.prefix_append, if_true, List.drop_left]

theorem get_attach_of_not {path key : List (Fin n)} (outside : ¬ path <+: key)
    (t : Patricia n α) : (attach path t).get key = none := by
  cases t with
  | blank => rfl
  | leaf more value =>
      rw [attach, get, if_neg]
      rintro rfl
      exact outside (List.prefix_append _ _)
  | extension more sub =>
      rw [attach, get, if_neg]
      intro inside
      exact outside ((List.prefix_append _ _).trans inside)
  | branch subs value => rw [attach, get, if_neg outside]

theorem get_single (d : Fin n) (t : Patricia n α) (e : Fin n) (key : List (Fin n)) :
    (single d t e).get key = if e = d then t.get key else none := by
  rw [single, Function.update_apply]
  split
  · rfl
  · rfl

theorem get_fork {d : Fin n} {rest : List (Fin n)} (apart : ∀ more, rest ≠ d :: more)
    (t : Patricia n α) (value : α) (key : List (Fin n)) :
    (fork d t value rest).get key = if key = rest then some value
      else (branch (single d t) none).get key := by
  cases rest with
  | nil =>
      cases key with
      | nil => rfl
      | cons e key => rfl
  | cons f rest =>
      cases key with
      | nil => rfl
      | cons e key =>
          simp only [fork, get, Function.update_apply, List.cons.injEq]
          by_cases same : e = f
          · subst same
            have other : e ≠ d := by
              rintro rfl
              exact apart rest rfl
            simp [get, get_single, other]
          · simp [same]

theorem get_single_prepend (d : Fin n) (path : List (Fin n)) (t : Patricia n α)
    (key : List (Fin n)) :
    (branch (single d (prepend path t)) none).get key = (extension (d :: path) t).get key := by
  cases key with
  | nil => rfl
  | cons e key =>
      simp only [get, get_single, List.cons_prefix_cons, List.length_cons, List.drop_succ_cons]
      by_cases same : e = d
      · subst same
        by_cases inside : path <+: key
        · obtain ⟨key, rfl⟩ := inside
          simp [get_prepend_append]
        · simp [get_prepend_of_not inside, inside]
      · simp [same, Ne.symm same]

theorem get_update (t : Patricia n α) (key : List (Fin n)) (value : α) (k : List (Fin n)) :
    (t.update key value).get k = if k = key then some value else t.get k := by
  induction t generalizing key k with
  | blank => rfl
  | leaf path old =>
      obtain ⟨p, l, r, divided, rfl, rfl, apart⟩ := exists_divide path key
      simp only [update, divided, get]
      by_cases inside : p <+: k
      · obtain ⟨k, rfl⟩ := inside
        simp only [List.append_cancel_left_eq]
        cases l with
        | nil =>
            cases r with
            | nil =>
                rw [List.append_nil, get]
                by_cases here : k = [] <;> simp [here]
            | cons e r =>
                rw [get_prepend_append]
                cases k with
                | nil => rfl
                | cons c k =>
                    simp only [get, get_single, List.cons.injEq, reduceCtorEq, if_false]
                    split <;> simp_all
        | cons d l =>
            rw [get_prepend_append, get_fork (apart d l rfl)]
            cases k with
            | nil => simp [get]
            | cons c k => simp only [get, get_single, List.cons.injEq, ← ite_and]
      · have absent (rest : List (Fin n)) : k ≠ p ++ rest := by
          rintro rfl
          exact inside (List.prefix_append _ _)
        rw [if_neg (absent r), if_neg (absent l)]
        cases l with
        | nil =>
            cases r with
            | nil => rw [get, if_neg (absent [])]
            | cons e r => exact get_prepend_of_not inside _
        | cons d l => exact get_prepend_of_not inside _
  | extension path sub ih =>
      obtain ⟨p, l, r, divided, rfl, rfl, apart⟩ := exists_divide path key
      simp only [update, divided, get]
      by_cases inside : p <+: k
      · obtain ⟨k, rfl⟩ := inside
        simp only [List.append_cancel_left_eq, List.prefix_append_right_inj, List.length_append,
          ← List.drop_drop, List.drop_left]
        cases l with
        | nil =>
            rw [get_prepend_append, ih]
            simp
        | cons d l =>
            rw [get_prepend_append, get_fork (apart d l rfl), get_single_prepend, get]
      · have absent : k ≠ p ++ r := by
          rintro rfl
          exact inside (List.prefix_append _ _)
        have outside : ¬ p ++ l <+: k := fun longer => inside ((List.prefix_append _ _).trans longer)
        rw [if_neg absent, if_neg outside]
        cases l with
        | nil => exact get_prepend_of_not inside _
        | cons d l => exact get_prepend_of_not inside _
  | branch subs old ih =>
      cases key with
      | nil =>
          cases k with
          | nil => rfl
          | cons e k => rfl
      | cons d key =>
          cases k with
          | nil => rfl
          | cons e k =>
              simp only [update, get, Function.update_apply, List.cons.injEq]
              by_cases same : e = d
              · subst same
                simp [ih]
              · simp [same]

theorem isBlank_iff {t : Patricia n α} : t.isBlank = true ↔ t = blank := by
  cases t <;> simp [isBlank]

theorem mem_children {subs : Fin n → Patricia n α} {d : Fin n} :
    d ∈ children subs ↔ subs d ≠ blank := by
  simp [children, ← isBlank_iff]

theorem get_normalize (subs : Fin n → Patricia n α) (value : Option α) (key : List (Fin n)) :
    (normalize subs value).get key = (branch subs value).get key := by
  have gone {d : Fin n} (absent : d ∉ children subs) : subs d = blank :=
    not_not.mp (mt mem_children.mpr absent)
  simp only [normalize]
  split
  · rename_i v none
    cases key with
    | nil => rfl
    | cons e key =>
        have blank := gone (show e ∉ children subs by rw [none]; exact List.not_mem_nil)
        rw [get, get, blank, get, if_neg (List.cons_ne_nil e key)]
  · rename_i d only
    cases key with
    | nil => exact get_attach_of_not (by simp) _
    | cons e key =>
        by_cases same : e = d
        · subst same
          exact get_attach_append [e] (subs e) key
        · have blank := gone (show e ∉ children subs by rw [only]; simpa using same)
          rw [get, blank, get]
          exact get_attach_of_not (by simpa using Ne.symm same) _
  · rfl

theorem get_delete (t : Patricia n α) (key k : List (Fin n)) :
    (t.delete key).get k = if k = key then none else t.get k := by
  induction t generalizing key k with
  | blank => simp [delete, get]
  | leaf path value =>
      rw [delete]
      split
      · rename_i same
        subst same
        simp only [get]
        split <;> rfl
      · rename_i other
        simp only [get]
        by_cases here : k = path
        · subst here
          simp [Ne.symm other]
        · simp [here]
  | extension path sub ih =>
      rw [delete]
      split
      · rename_i inside
        obtain ⟨key, rfl⟩ := inside
        rw [List.drop_left, get]
        by_cases inside : path <+: k
        · obtain ⟨k, rfl⟩ := inside
          rw [get_attach_append, ih, if_pos (List.prefix_append _ _), List.drop_left]
          simp
        · rw [get_attach_of_not inside, if_neg inside]
          simp
      · rename_i outside
        by_cases same : k = key
        · subst same
          rw [if_pos rfl, get, if_neg outside]
        · rw [if_neg same]
  | branch subs value ih =>
      cases key with
      | nil =>
          rw [delete, get_normalize]
          cases k with
          | nil => rfl
          | cons e k => rfl
      | cons d key =>
          rw [delete, get_normalize]
          cases k with
          | nil => rfl
          | cons e k =>
              simp only [get, Function.update_apply, List.cons.injEq]
              by_cases same : e = d
              · subst same
                simp [ih]
              · simp [same]

def IsBranch : Patricia n α → Prop
  | branch _ _ => True
  | _ => False

/-- At least two items: a child, and besides each digit's child a value or another child. -/
def Several (subs : Fin n → Patricia n α) (value : Option α) : Prop :=
  (∃ e, subs e ≠ blank) ∧ ∀ d, value.isSome ∨ ∃ e, e ≠ d ∧ subs e ≠ blank

def Normal : Patricia n α → Prop
  | blank => True
  | leaf _ _ => True
  | extension path sub => path ≠ [] ∧ sub.IsBranch ∧ sub.Normal
  | branch subs value => Several subs value ∧ ∀ d, (subs d).Normal

theorem normal_attach {path : List (Fin n)} (present : path ≠ []) {t : Patricia n α}
    (normal : t.Normal) : (attach path t).Normal := by
  cases t with
  | blank => trivial
  | leaf more value => trivial
  | extension more sub => exact ⟨by simp [present], normal.2⟩
  | branch subs value => exact ⟨present, trivial, normal⟩

theorem normal_prepend (path : List (Fin n)) {t : Patricia n α} (inner : t.IsBranch)
    (normal : t.Normal) : (prepend path t).Normal := by
  cases path with
  | nil => exact normal
  | cons d path => exact ⟨List.cons_ne_nil d path, inner, normal⟩

theorem normal_update_subs {subs : Fin n → Patricia n α} (normal : ∀ d, (subs d).Normal)
    (d : Fin n) {t : Patricia n α} (updated : t.Normal) (e : Fin n) :
    (Function.update subs d t e).Normal := by
  rw [Function.update_apply]
  split
  · exact updated
  · exact normal e

theorem normal_single (d : Fin n) {t : Patricia n α} (normal : t.Normal) (e : Fin n) :
    (single d t e).Normal := by
  have blanks : ∀ c : Fin n, Normal (((fun _ => blank) : Fin n → Patricia n α) c) :=
    fun _ => trivial
  exact normal_update_subs blanks d normal e

theorem several_single_value (d : Fin n) {t : Patricia n α} (present : t ≠ blank) (value : α) :
    Several (single d t) (some value) :=
  ⟨⟨d, by rwa [single, Function.update_self]⟩, fun _ => Or.inl rfl⟩

theorem normal_fork {d : Fin n} {rest : List (Fin n)} (apart : ∀ more, rest ≠ d :: more)
    {t : Patricia n α} (present : t ≠ blank) (normal : t.Normal) (value : α) :
    (fork d t value rest).Normal ∧ (fork d t value rest).IsBranch := by
  cases rest with
  | nil => exact ⟨⟨several_single_value d present value, normal_single d normal⟩, trivial⟩
  | cons e rest =>
      have other : d ≠ e := by
        rintro rfl
        exact apart rest rfl
      have first : Function.update (single d t) e (leaf rest value) d ≠ blank := by
        rwa [Function.update_of_ne other, single, Function.update_self]
      have second : Function.update (single d t) e (leaf rest value) e ≠ blank := by
        rw [Function.update_self]
        exact fun same => by cases same
      refine ⟨⟨⟨⟨d, first⟩, ?_⟩, normal_update_subs (normal_single d normal) e trivial⟩, trivial⟩
      intro c
      by_cases same : d = c
      · subst same
        exact Or.inr ⟨e, Ne.symm other, second⟩
      · exact Or.inr ⟨d, same, first⟩

theorem update_ne_blank (t : Patricia n α) (key : List (Fin n)) (value : α) :
    t.update key value ≠ blank := by
  intro same
  have found := get_update t key value key
  rw [same, if_pos rfl] at found
  cases found

theorem several_update {subs : Fin n → Patricia n α} {value : Option α}
    (several : Several subs value) (d : Fin n) {t : Patricia n α} (present : t ≠ blank) :
    Several (Function.update subs d t) value := by
  refine ⟨⟨d, by rwa [Function.update_self]⟩, ?_⟩
  intro c
  by_cases same : c = d
  · subst same
    rcases several.2 c with valued | ⟨e, other, filled⟩
    · exact Or.inl valued
    · exact Or.inr ⟨e, other, by rwa [Function.update_of_ne other]⟩
  · exact Or.inr ⟨d, Ne.symm same, by rwa [Function.update_self]⟩

theorem branch_update {t : Patricia n α} (inner : t.IsBranch) (key : List (Fin n)) (value : α) :
    (t.update key value).IsBranch := by
  cases t with
  | blank => exact inner
  | leaf path old => exact inner.elim
  | extension path sub => exact inner.elim
  | branch subs old => cases key <;> trivial

theorem IsBranch.ne_blank {t : Patricia n α} (inner : t.IsBranch) : t ≠ blank := by
  rintro rfl
  exact inner

theorem prepend_ne_blank (path : List (Fin n)) {t : Patricia n α} (present : t ≠ blank) :
    prepend path t ≠ blank := by
  cases path with
  | nil => exact present
  | cons d path => exact fun same => by cases same

theorem normal_update {t : Patricia n α} (normal : t.Normal) (key : List (Fin n)) (value : α) :
    (t.update key value).Normal := by
  induction t generalizing key with
  | blank => trivial
  | leaf path old =>
      obtain ⟨p, l, r, divided, -, -, apart⟩ := exists_divide path key
      simp only [update, divided]
      have present (rest : List (Fin n)) (v : α) : leaf rest v ≠ blank := fun same => by cases same
      cases l with
      | nil =>
          cases r with
          | nil => trivial
          | cons e r =>
              exact normal_prepend p trivial
                ⟨several_single_value e (present r value) old, normal_single e trivial⟩
      | cons d l =>
          have forked := normal_fork (apart d l rfl) (present l old) trivial value
          exact normal_prepend p forked.2 forked.1
  | extension path sub ih =>
      obtain ⟨-, inner, normal⟩ := normal
      obtain ⟨p, l, r, divided, -, -, apart⟩ := exists_divide path key
      simp only [update, divided]
      cases l with
      | nil => exact normal_prepend p (branch_update inner r value) (ih normal r)
      | cons d l =>
          have forked := normal_fork (apart d l rfl) (prepend_ne_blank l inner.ne_blank)
            (normal_prepend l inner normal) value
          exact normal_prepend p forked.2 forked.1
  | branch subs old ih =>
      obtain ⟨several, normal⟩ := normal
      cases key with
      | nil => exact ⟨⟨several.1, fun _ => Or.inl rfl⟩, normal⟩
      | cons d key =>
          exact ⟨several_update several d (update_ne_blank (subs d) key value),
            normal_update_subs normal d (ih d (normal d) key)⟩

theorem normal_normalize {subs : Fin n → Patricia n α} (normal : ∀ d, (subs d).Normal)
    {value : Option α} (item : value.isSome ∨ ∃ e, subs e ≠ blank) :
    (normalize subs value).Normal := by
  have filled {d : Fin n} {more : List (Fin n)} (listed : children subs = more) (member : d ∈ more) :
      subs d ≠ blank := mem_children.mp (listed ▸ member)
  simp only [normalize]
  cases listed : children subs with
  | nil =>
      cases value with
      | none =>
          obtain ⟨e, present⟩ := item.resolve_left (by simp)
          have member := mem_children.mpr present
          rw [listed] at member
          cases member
      | some v => trivial
  | cons d more =>
      have first := filled listed List.mem_cons_self
      cases more with
      | nil =>
          cases value with
          | none => exact normal_attach (List.cons_ne_nil d []) (normal d)
          | some v => exact ⟨⟨⟨d, first⟩, fun _ => Or.inl rfl⟩, normal⟩
      | cons e more =>
          have second := filled listed (List.mem_cons_of_mem d List.mem_cons_self)
          have distinct : (children subs).Nodup := (List.nodup_finRange n).filter _
          rw [listed] at distinct
          have apart : d ≠ e := by
            rintro rfl
            exact (List.nodup_cons.mp distinct).1 List.mem_cons_self
          refine ⟨⟨⟨d, first⟩, ?_⟩, normal⟩
          intro c
          by_cases same : d = c
          · subst same
            exact Or.inr ⟨e, Ne.symm apart, second⟩
          · exact Or.inr ⟨d, same, first⟩

theorem normalize_eq_branch {subs : Fin n → Patricia n α} {value : Option α}
    (several : Several subs value) : normalize subs value = branch subs value := by
  obtain ⟨⟨e, filled⟩, others⟩ := several
  simp only [normalize]
  split
  · rename_i v none
    have member := mem_children.mpr filled
    rw [none] at member
    cases member
  · rename_i d only
    rcases others d with valued | ⟨c, other, filled⟩
    · cases valued
    · have member := mem_children.mpr filled
      rw [only] at member
      exact absurd (List.mem_singleton.mp member) other
  · rfl

theorem normal_delete {t : Patricia n α} (normal : t.Normal) (key : List (Fin n)) :
    (t.delete key).Normal := by
  induction t generalizing key with
  | blank => trivial
  | leaf path value =>
      rw [delete]
      split <;> trivial
  | extension path sub ih =>
      rw [delete]
      split
      · exact normal_attach normal.1 (ih normal.2.2 _)
      · exact normal
  | branch subs value ih =>
      obtain ⟨several, normal⟩ := normal
      cases key with
      | nil => exact normal_normalize normal (Or.inr several.1)
      | cons d key =>
          apply normal_normalize (normal_update_subs normal d (ih d (normal d) key))
          rcases several.2 d with valued | ⟨e, other, filled⟩
          · exact Or.inl valued
          · exact Or.inr ⟨e, by rwa [Function.update_of_ne other]⟩

theorem exists_key {t : Patricia n α} (normal : t.Normal) (present : t ≠ blank) :
    ∃ key, (t.get key).isSome := by
  induction t with
  | blank => exact absurd rfl present
  | leaf path value => exact ⟨path, by simp [get]⟩
  | extension path sub ih =>
      obtain ⟨key, found⟩ := ih normal.2.2 normal.2.1.ne_blank
      exact ⟨path ++ key, by rwa [get, if_pos (List.prefix_append _ _), List.drop_left]⟩
  | branch subs value ih =>
      obtain ⟨d, filled⟩ := normal.1.1
      obtain ⟨key, found⟩ := ih d (normal.2 d) filled
      exact ⟨d :: key, found⟩

theorem exists_key_apart {t : Patricia n α} (inner : t.IsBranch) (normal : t.Normal) (d : Fin n) :
    ∃ key, (t.get key).isSome ∧ ∀ more, key ≠ d :: more := by
  cases t with
  | blank => exact inner.elim
  | leaf path value => exact inner.elim
  | extension path sub => exact inner.elim
  | branch subs value =>
      rcases normal.1.2 d with valued | ⟨e, other, filled⟩
      · exact ⟨[], valued, fun more => by simp⟩
      · obtain ⟨key, found⟩ := exists_key (normal.2 e) filled
        exact ⟨e :: key, found, fun more same => other (List.cons.inj same).1⟩

theorem exists_two_keys {t : Patricia n α} (inner : t.IsBranch) (normal : t.Normal) :
    ∃ k l, k ≠ l ∧ (t.get k).isSome ∧ (t.get l).isSome := by
  cases t with
  | blank => exact inner.elim
  | leaf path value => exact inner.elim
  | extension path sub => exact inner.elim
  | branch subs value =>
      obtain ⟨d, filled⟩ := normal.1.1
      obtain ⟨key, found⟩ := exists_key (normal.2 d) filled
      obtain ⟨other, found', apart⟩ := exists_key_apart (t := branch subs value) trivial normal d
      exact ⟨d :: key, other, Ne.symm (apart key), found, found'⟩

theorem get_extension_append (path : List (Fin n)) (sub : Patricia n α) (key : List (Fin n)) :
    (extension path sub).get (path ++ key) = sub.get key := by
  rw [get, if_pos (List.prefix_append _ _), List.drop_left]

theorem prefix_of_get_extension {path key : List (Fin n)} (sub : Patricia n α)
    (found : ((extension path sub).get key).isSome) : path <+: key := by
  by_contra outside
  rw [get, if_neg outside] at found
  cases found

theorem prefix_of_same {p q : List (Fin n)} {s t : Patricia n α} (inner : s.IsBranch)
    (normal : s.Normal) (same : ∀ key, (extension p s).get key = (extension q t).get key) :
    q <+: p := by
  have all {key : List (Fin n)} (found : (s.get key).isSome) : q <+: p ++ key := by
    apply prefix_of_get_extension t
    rwa [← same, get_extension_append]
  obtain ⟨key, _, _, found, _⟩ := exists_two_keys inner normal
  rcases List.prefix_or_prefix_of_prefix (all found) (List.prefix_append p key) with shorter | longer
  · exact shorter
  · obtain ⟨rest, rfl⟩ := longer
    cases rest with
    | nil => exact ⟨[], by simp⟩
    | cons d rest =>
        obtain ⟨other, found', apart⟩ := exists_key_apart inner normal d
        have inside := all found'
        rw [List.prefix_append_right_inj] at inside
        obtain ⟨more, rfl⟩ := inside
        exact absurd rfl (apart (rest ++ more))

theorem branch_ne_extension {t : Patricia n α} (inner : t.IsBranch) (normal : t.Normal)
    {path : List (Fin n)} (present : path ≠ []) {sub : Patricia n α} :
    ¬ ∀ key, t.get key = (extension path sub).get key := by
  intro same
  cases path with
  | nil => exact present rfl
  | cons d path =>
      obtain ⟨key, found, apart⟩ := exists_key_apart inner normal d
      rw [same] at found
      obtain ⟨more, rfl⟩ := prefix_of_get_extension sub found
      exact apart (path ++ more) rfl

theorem leaf_ne {t : Patricia n α} {k l : List (Fin n)} (apart : k ≠ l) (first : (t.get k).isSome)
    (second : (t.get l).isSome) {path : List (Fin n)} {value : α} :
    ¬ ∀ key, t.get key = (leaf path value).get key := by
  intro same
  have only {key : List (Fin n)} (found : (t.get key).isSome) : key = path := by
    by_contra other
    rw [same, get, if_neg other] at found
    cases found
  exact apart ((only first).trans (only second).symm)

theorem extension_two_keys {path : List (Fin n)} {sub : Patricia n α} (inner : sub.IsBranch)
    (normal : sub.Normal) : ∃ k l, k ≠ l ∧ ((extension path sub).get k).isSome ∧
      ((extension path sub).get l).isSome := by
  obtain ⟨k, l, apart, first, second⟩ := exists_two_keys inner normal
  refine ⟨path ++ k, path ++ l, by simpa using apart, ?_, ?_⟩
  · rwa [get_extension_append]
  · rwa [get_extension_append]

theorem eq_of_get {s t : Patricia n α} (normalS : s.Normal) (normalT : t.Normal)
    (same : ∀ key, s.get key = t.get key) : s = t := by
  have blank_of {t : Patricia n α} (normal : t.Normal) (none : ∀ key, t.get key = none) :
      t = blank := by
    by_contra present
    obtain ⟨key, found⟩ := exists_key normal present
    rw [none] at found
    cases found
  induction s generalizing t with
  | blank => exact (blank_of normalT fun key => (same key).symm).symm
  | leaf p v =>
      have here := same p
      rw [get, if_pos rfl] at here
      cases t with
      | blank => cases here
      | leaf q w =>
          rw [get] at here
          split at here
          · rename_i paths
            cases here
            rw [paths]
          · cases here
      | extension q sub =>
          obtain ⟨k, l, apart, first, second⟩ := extension_two_keys normalT.2.1 normalT.2.2
          exact (leaf_ne apart first second fun key => (same key).symm).elim
      | branch subs w =>
          obtain ⟨k, l, apart, first, second⟩ := exists_two_keys (t := branch subs w) trivial normalT
          exact (leaf_ne apart first second fun key => (same key).symm).elim
  | extension p sub ih =>
      obtain ⟨present, inner, normal⟩ := normalS
      cases t with
      | blank => exact blank_of (t := extension p sub) ⟨present, inner, normal⟩ same
      | leaf q w =>
          obtain ⟨k, l, apart, first, second⟩ := extension_two_keys inner normal
          exact (leaf_ne apart first second same).elim
      | extension q sub' =>
          obtain ⟨-, inner', normal'⟩ := normalT
          have paths : p = q :=
            (prefix_of_same inner' normal' fun key => (same key).symm).eq_of_length_le
              (prefix_of_same inner normal same).length_le
          subst paths
          rw [ih normal normal']
          intro key
          rw [← get_extension_append p sub, same, get_extension_append]
      | branch subs w =>
          exact (branch_ne_extension (t := branch subs w) trivial normalT present
            fun key => (same key).symm).elim
  | branch subs v ih =>
      have inner : (branch subs v).IsBranch := trivial
      cases t with
      | blank => exact blank_of normalS same
      | leaf q w =>
          obtain ⟨k, l, apart, first, second⟩ := exists_two_keys inner normalS
          exact (leaf_ne apart first second same).elim
      | extension q sub => exact (branch_ne_extension inner normalS normalT.1 same).elim
      | branch subs' w =>
          have values : v = w := same []
          have trees : subs = subs' := by
            funext d
            exact ih d (normalS.2 d) (normalT.2 d) fun key => same (d :: key)
          rw [values, trees]

theorem mem_entries (t : Patricia n α) (key : List (Fin n)) (value : α) :
    (key, value) ∈ t.entries ↔ t.get key = some value := by
  induction t generalizing key with
  | blank => simp [entries, get]
  | leaf path v =>
      simp only [entries, get, List.mem_singleton, Prod.mk.injEq]
      by_cases same : key = path
      · simp [same, eq_comm]
      · simp [same]
  | extension path sub ih =>
      simp only [entries, get, List.mem_map, Prod.mk.injEq, Prod.exists]
      constructor
      · rintro ⟨k, v, member, rfl, rfl⟩
        rw [if_pos (List.prefix_append _ _), List.drop_left]
        exact (ih k).mp member
      · intro found
        split at found
        · rename_i inside
          obtain ⟨k, rfl⟩ := inside
          rw [List.drop_left] at found
          exact ⟨k, value, (ih k).mpr found, rfl, rfl⟩
        · cases found
  | branch subs v ih =>
      cases key with
      | nil => simp [entries, get]
      | cons d key => simp [entries, get, ih]

theorem nodup_entries (t : Patricia n α) : (t.entries.map Prod.fst).Nodup := by
  induction t with
  | blank => exact List.nodup_nil
  | leaf path v => exact List.nodup_singleton path
  | extension path sub ih =>
      have keys : (extension path sub).entries.map Prod.fst = (sub.entries.map Prod.fst).map (path ++ ·) := by
        rw [entries, List.map_map, List.map_map]
        rfl
      rw [keys]
      exact ih.map (List.append_right_injective path)
  | branch subs v ih =>
      have keys : (branch subs v).entries.map Prod.fst =
          ((List.finRange n).flatMap fun d => ((subs d).entries.map Prod.fst).map (d :: ·)) ++
            (v.map fun _ => []).toList := by
        rw [entries, List.map_append, List.map_flatMap]
        congr 1
        · simp only [List.map_map]
          rfl
        · cases v <;> rfl
      rw [keys]
      apply List.Nodup.append
      · rw [List.nodup_flatMap]
        constructor
        · intro d _
          exact (ih d).map (List.cons_injective)
        · apply (List.nodup_finRange n).imp
          intro d e apart key first second
          obtain ⟨k, -, rfl⟩ := List.mem_map.mp first
          obtain ⟨l, -, same⟩ := List.mem_map.mp second
          exact apart (List.cons.inj same).1.symm
      · cases v with
        | none => exact List.nodup_nil
        | some v => exact List.nodup_singleton []
      · intro key first second
        obtain ⟨d, -, listed⟩ := List.mem_flatMap.mp first
        obtain ⟨k, -, rfl⟩ := List.mem_map.mp listed
        cases v <;> simp at second

end Patricia

end IPchain.Lib
