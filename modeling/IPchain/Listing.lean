import IPchain.Reading

/-! The listings of a trie: its size, its entries as a generator yields them, and as a dictionary. -/

namespace IPchain.MerkleTrie

open Lib Platform

theorem mapM_digits_run {σ α : Type} {f : Nat → EStateM PyExc σ α} {g : Fin 16 → α} {s : σ}
    (runs : ∀ d : Fin 16, f d s = .ok (g d) s) :
    (List.range 16).mapM f s = .ok ((List.finRange 16).map g) s := by
  have indices : List.range 16 = (List.finRange 16).map Fin.val := by decide
  rw [indices]
  generalize List.finRange 16 = digits
  induction digits with
  | nil => rfl
  | cons d digits ih =>
      rw [List.map_cons, List.mapM_cons, bind_of_ok (runs d), bind_of_ok ih]
      rfl

/-- The path of an entry as `_iter_branch` and `_to_dict` write it. -/
def keyString (path : Path) : Bytes := joinNibbles (marked path true)

def Plain (part : Bytes) : Prop := part ≠ [] ∧ plus ∉ part

theorem plain_nibbleString (n : Fin 17) : Plain (nibbleString n) := by
  have all : ∀ n : Fin 17, nibbleString n ≠ [] ∧ plus ∉ nibbleString n := by decide
  exact all n

theorem plain_nibble {path : Path} {terminated : Bool} {n : Nat} (member : n ∈ marked path terminated) :
    Plain (nibbleString n) := by
  rw [marked, List.mem_append] at member
  rcases member with digit | last
  · obtain ⟨d, -, rfl⟩ := List.mem_map.mp digit
    exact plain_nibbleString ⟨d.val, by omega⟩
  · cases terminated with
    | false => cases last
    | true =>
        rw [List.mem_singleton.mp last]
        exact plain_nibbleString ⟨16, by omega⟩

theorem parseInt_nibble (n : Fin 17) : parseInt (nibbleString n) = .ok (n.val : Int) := by
  have all : ∀ n : Fin 17, (parseInt (nibbleString n)).toOption = some (n.val : Int) := by
    decide
  have read := all n
  cases parsed : parseInt (nibbleString n) with
  | ok m =>
      rw [parsed] at read
      exact congrArg Except.ok (Option.some.inj read)
  | error e =>
      rw [parsed] at read
      cases read

theorem dropWhile_plain {part : Bytes} (plain : Plain part) (rest : Bytes) :
    (part ++ rest).dropWhile (· = plus) = part ++ rest := by
  cases part with
  | nil => exact absurd rfl plain.1
  | cons b part =>
      have other : b ≠ plus := by
        rintro rfl
        exact plain.2 List.mem_cons_self
      rw [List.cons_append, List.dropWhile_cons_of_neg (by simpa using other)]

theorem join_first (first : Bytes) (parts : List Bytes) :
    ∃ back, [plus].intercalate (first :: parts) = first ++ back := by
  cases parts with
  | nil => exact ⟨[], by simp⟩
  | cons next parts =>
      rw [List.intercalate_cons_cons, List.append_assoc]
      exact ⟨_, rfl⟩

theorem join_last (parts : List Bytes) (last : Bytes) :
    ∃ front, [plus].intercalate (parts ++ [last]) = front ++ last := by
  induction parts with
  | nil => exact ⟨[], by simp⟩
  | cons part parts ih =>
      obtain ⟨front, same⟩ := ih
      refine ⟨part ++ [plus] ++ front, ?_⟩
      cases parts with
      | nil =>
          rw [List.nil_append, List.intercalate_singleton] at same
          rw [List.singleton_append, List.intercalate_cons_cons, List.intercalate_singleton,
            List.append_assoc (part ++ [plus]), ← same]
      | cons next parts =>
          rw [List.cons_append] at same
          rw [List.cons_append, List.cons_append, List.intercalate_cons_cons, same, List.append_assoc,
            List.append_assoc, List.append_assoc]

theorem join_append {parts more : List Bytes} (left : parts ≠ []) (right : more ≠ []) :
    [plus].intercalate (parts ++ more) =
      [plus].intercalate parts ++ plus :: [plus].intercalate more := by
  induction parts with
  | nil => exact absurd rfl left
  | cons part parts ih =>
      cases parts with
      | nil =>
          cases more with
          | nil => exact absurd rfl right
          | cons next more =>
              rw [List.singleton_append, List.intercalate_cons_cons, List.intercalate_singleton,
                List.append_assoc, List.singleton_append]
      | cons next parts =>
          have rest := ih (List.cons_ne_nil _ _)
          rw [List.cons_append] at rest
          rw [List.cons_append, List.cons_append, List.intercalate_cons_cons, rest,
            List.intercalate_cons_cons]
          simp only [List.append_assoc]

theorem strip_join {parts : List Bytes} (plain : ∀ part ∈ parts, Plain part) :
    ((([plus].intercalate parts).dropWhile (· = plus)).reverse.dropWhile (· = plus)).reverse =
      [plus].intercalate parts := by
  cases parts using List.reverseRecOn with
  | nil => rfl
  | append_singleton parts last =>
      have plainLast := plain last (List.mem_append_right _ List.mem_cons_self)
      have reversed : Plain last.reverse := by
        constructor
        · exact mt List.reverse_eq_nil_iff.mp plainLast.1
        · exact mt List.mem_reverse.mp plainLast.2
      have front : ([plus].intercalate (parts ++ [last])).dropWhile (· = plus) =
          [plus].intercalate (parts ++ [last]) := by
        cases parts with
        | nil => simpa using dropWhile_plain plainLast []
        | cons first parts =>
            obtain ⟨back, same⟩ := join_first first (parts ++ [last])
            rw [List.cons_append, same]
            exact dropWhile_plain (plain first List.mem_cons_self) back
      obtain ⟨start, ends⟩ := join_last parts last
      rw [front, ends, List.reverse_append, dropWhile_plain reversed, ← List.reverse_append,
        List.reverse_reverse]

theorem plain_parts (path : Path) (terminated : Bool) :
    ∀ part ∈ (marked path terminated).map nibbleString, Plain part := by
  intro part member
  obtain ⟨n, digit, rfl⟩ := List.mem_map.mp member
  exact plain_nibble digit

theorem fullKey_keyString (above path : Path) :
    fullKey (joinNibbles (nibbles above)) (keyString path) = keyString (above ++ path) := by
  have stripped := strip_join (plain_parts path true)
  cases above with
  | nil =>
      change (((plus :: keyString path).dropWhile (· = plus)).reverse.dropWhile (· = plus)).reverse = _
      rw [List.dropWhile_cons_of_pos (by simp)]
      exact stripped
  | cons d above =>
      have joined : joinNibbles (nibbles (d :: above)) ++ plus :: keyString path =
          keyString (d :: above ++ path) := by
        rw [keyString, keyString, ← marked_append, joinNibbles, joinNibbles, joinNibbles,
          List.map_append, join_append]
        · simp [nibbles]
        · simp [marked]
      rw [fullKey, joined]
      exact strip_join (plain_parts _ true)

theorem fullKey_digit (d : Fin 16) (path : Path) :
    fullKey (nibbleString d) (keyString path) = keyString (d :: path) := by
  have single : nibbleString d = joinNibbles (nibbles [d]) := by
    rw [joinNibbles, nibbles, List.map_singleton, List.map_singleton, List.intercalate_singleton]
  rw [single]
  exact fullKey_keyString [d] path

theorem keyString_nil : keyString [] = terminatorKey := by
  rw [keyString, joinNibbles, marked, nibbles, List.map_nil, List.nil_append, if_pos rfl,
    List.map_singleton, List.intercalate_singleton]
  rfl

theorem mapM_parseInt (path : Path) :
    ((marked path true).map nibbleString).mapM parseInt =
      .ok ((marked path true).map Int.ofNat) := by
  have small : ∀ n ∈ marked path true, n < 17 := by
    intro n member
    rcases List.mem_append.mp member with digit | last
    · obtain ⟨d, -, rfl⟩ := List.mem_map.mp digit
      omega
    · rw [List.mem_singleton.mp last]
      decide
  generalize marked path true = parts at small
  induction parts with
  | nil => rfl
  | cons n parts ih =>
      obtain ⟨first, rest⟩ := List.forall_mem_cons.mp small
      have read : parseInt (nibbleString n) = .ok (n : Int) := parseInt_nibble ⟨n, first⟩
      rw [List.map_cons, List.mapM_cons, read, ih rest]
      rfl

theorem pack_nibbles_keyPath (key : Bytes) : Trie.pack (nibbles (keyPath key)) = key := by
  induction key with
  | nil => rfl
  | cons b key ih =>
      change UInt8.ofNat (16 * (b.toNat / 16) + b.toNat % 16) :: Trie.pack (nibbles (keyPath key)) = _
      rw [ih, Nat.div_add_mod, UInt8.ofNat_toNat]

theorem keyOfString_keyPath (key : Bytes) : keyOfString (keyString (keyPath key)) = .ok key := by
  have present : keyString (keyPath key) ≠ [] := by
    obtain ⟨front, same⟩ := join_last ((nibbles (keyPath key)).map nibbleString)
      (nibbleString 16)
    have joined : keyString (keyPath key) = front ++ nibbleString 16 := by
      rw [← same, keyString, joinNibbles, marked, List.map_append]
      rfl
    rw [joined]
    exact List.append_ne_nil_of_right_ne_nil _ (plain_nibbleString ⟨16, by omega⟩).1
  have parts : (keyString (keyPath key)).splitOn plus =
      (marked (keyPath key) true).map nibbleString := by
    apply List.splitOn_intercalate
    · exact fun part member => (plain_parts _ true part member).2
    · simp [marked]
  have whole : (marked (keyPath key) true).map Int.ofNat =
      (nibbles (keyPath key)).map Int.ofNat ++ [(nibbleTerminator : Int)] := by
    rw [marked, List.map_append]
    rfl
  have digits : ((nibbles (keyPath key)).map Int.ofNat).any (fun x => 15 < x ∨ x < 0) =
      false := by
    rw [List.any_eq_false]
    intro x member
    obtain ⟨n, digit, rfl⟩ := List.mem_map.mp member
    obtain ⟨d, -, rfl⟩ := List.mem_map.mp digit
    have bound := d.isLt
    simp only [decide_eq_true_eq, Int.ofNat_eq_natCast]
    omega
  have even : ¬ ((nibbles (keyPath key)).map Int.ofNat).length % 2 = 1 := by
    rw [List.length_map, nibbles_length, keyPath_length]
    omega
  have back : ((nibbles (keyPath key)).map Int.ofNat).map Int.toNat = nibbles (keyPath key) := by
    rw [List.map_map]
    exact List.map_id'' (fun n => Int.toNat_natCast n) _
  rw [keyOfString, if_neg present, parts, mapM_parseInt]
  change nibblesToBin (if ((marked (keyPath key) true).map Int.ofNat).getLast? = _ then
    ((marked (keyPath key) true).map Int.ofNat).dropLast else _) = _
  rw [whole, List.getLast?_append, List.getLast?_singleton, Option.some_or, if_pos rfl,
    List.dropLast_concat, nibblesToBin, if_neg (by rw [digits]; decide), if_neg even, back,
    pack_nibbles_keyPath]

def rowOf (entry : Path × Value) : Bytes × Rlp := (keyString entry.1, .bytes entry.2.1)

def rows (t : Tree) : List (Bytes × Rlp) := t.entries.map rowOf

theorem rows_above (above : Path) (t : Tree) :
    (rows t).map (fun row => (fullKey (joinNibbles (nibbles above)) row.1, row.2)) =
      (t.entries.map fun entry => (above ++ entry.1, entry.2)).map rowOf := by
  rw [rows, List.map_map, List.map_map]
  apply List.map_congr_left
  intro entry _
  exact congrArg (·, _) (fullKey_keyString above entry.1)

theorem rows_digit (d : Fin 16) (t : Tree) :
    (rows t).map (fun row => (fullKey (nibbleString d) row.1, row.2)) =
      (t.entries.map fun entry => (d :: entry.1, entry.2)).map rowOf := by
  rw [rows, List.map_map, List.map_map]
  apply List.map_congr_left
  intro entry _
  exact congrArg (·, _) (fullKey_digit d entry.1)

theorem rows_value (value : Option Value) :
    (if filled (valueItem value) then [(terminatorKey, valueItem value)] else []) =
      ((value.map fun v => (([] : Path), v)).toList).map rowOf := by
  rw [filled_valueItem]
  cases value with
  | none => rfl
  | some v =>
      rw [← keyString_nil]
      rfl

theorem keyString_inj {p q : Path} (same : keyString p = keyString q) : p = q := by
  have parts (path : Path) : (keyString path).splitOn plus = (marked path true).map nibbleString := by
    apply List.splitOn_intercalate
    · exact fun part member => (plain_parts _ true part member).2
    · simp [marked]
  have split : (marked p true).map nibbleString = (marked q true).map nibbleString := by
    rw [← parts, same, parts]
  have numbers := mapM_parseInt p
  rw [split, mapM_parseInt, Except.ok.injEq] at numbers
  have whole := List.map_injective_iff.mpr Int.ofNat_injective numbers
  have digits := congrArg withoutTerminator whole
  rw [withoutTerminator_marked, withoutTerminator_marked, nibbles_inj] at digits
  exact digits.symm

theorem nodup_rows (t : Tree) : ((rows t).map Prod.fst).Nodup := by
  have keys : (rows t).map Prod.fst = (t.entries.map Prod.fst).map keyString := by
    rw [rows, List.map_map, List.map_map]
    rfl
  rw [keys]
  exact (Patricia.nodup_entries t).map fun _ _ => keyString_inj

theorem mem_rows {t : Tree} {k : Bytes} {x : Rlp} :
    (k, x) ∈ rows t ↔ ∃ path v, t.get path = some v ∧ k = keyString path ∧ x = .bytes v.1 := by
  simp only [rows, List.mem_map, Prod.exists, rowOf, Prod.mk.injEq, Patricia.mem_entries]
  constructor
  · rintro ⟨path, v, found, rfl, rfl⟩
    exact ⟨path, v, found, rfl, rfl⟩
  · rintro ⟨path, v, found, rfl, rfl⟩
    exact ⟨path, v, found, rfl, rfl⟩

def Holding (d : Rows) (rows : List (Bytes × Rlp)) : Prop :=
  ∀ k x, d.lookup k = some x ↔ (k, x) ∈ rows

theorem holding_empty : Holding ∅ [] := by
  intro k x
  simp

theorem Holding.insert {d : Rows} {rows : List (Bytes × Rlp)} (holding : Holding d rows)
    (key : Bytes) (fresh : key ∉ rows.map Prod.fst) (x : Rlp) :
    Holding (d.insert key x) (rows ++ [(key, x)]) := by
  intro k y
  rw [List.mem_append, List.mem_singleton, ← holding]
  by_cases same : k = key
  · subst same
    rw [AList.lookup_insert]
    constructor
    · intro found
      rw [Option.some.inj found]
      exact Or.inr rfl
    · rintro (found | pair)
      · exact absurd (List.mem_map.mpr ⟨(k, y), (holding k y).mp found, rfl⟩) fresh
      · rw [(Prod.mk.inj pair).2]
  · rw [AList.lookup_insert_ne same]
    simp [same]

theorem Holding.addRows {d sub : Rows} {rows subRows : List (Bytes × Rlp)} (holding : Holding d rows)
    (below : Holding sub subRows) (key : Bytes)
    (distinct : ((rows ++ subRows.map fun row => (fullKey key row.1, row.2)).map Prod.fst).Nodup) :
    Holding (addRows key d sub) (rows ++ subRows.map fun row => (fullKey key row.1, row.2)) := by
  rw [List.map_append, List.nodup_append, List.map_map] at distinct
  obtain ⟨-, apart, disjoint⟩ := distinct
  have member {k : Bytes} {x : Rlp} :
      (k, x) ∈ (sub.entries.map fun row => (fullKey key row.1, row.2)) ↔
        (k, x) ∈ subRows.map fun row => (fullKey key row.1, row.2) := by
    simp only [List.mem_map, Prod.mk.injEq]
    constructor
    · rintro ⟨row, entry, rfl, rfl⟩
      exact ⟨(row.1, row.2), (below _ _).mp (AList.mem_lookup_iff.mpr entry), rfl, rfl⟩
    · rintro ⟨row, entry, rfl, rfl⟩
      exact ⟨⟨row.1, row.2⟩, AList.mem_lookup_iff.mp ((below _ _).mpr entry), rfl, rfl⟩
  intro k x
  rw [MerkleTrie.addRows, Dict.lookup_update_eq_some, member, holding, List.mem_append, or_comm]
  · rw [List.map_map]
    apply List.Nodup.map_on _ (List.Nodup.of_map Sigma.fst sub.nodupKeys)
    intro one first two second same
    have rowOne := (below one.1 one.2).mp (AList.mem_lookup_iff.mpr first)
    have rowTwo := (below two.1 two.2).mp (AList.mem_lookup_iff.mpr second)
    have pairs := List.inj_on_of_nodup_map apart rowOne rowTwo same
    cases one
    cases two
    cases pairs
    rfl
  · rintro ⟨k, x⟩ updated
    rw [member] at updated
    by_contra known
    obtain ⟨y, found⟩ := Option.ne_none_iff_exists'.mp known
    apply disjoint k (List.mem_map.mpr ⟨(k, y), (holding k y).mp found, rfl⟩) k _ rfl
    obtain ⟨row, entry, same⟩ := List.mem_map.mp updated
    exact List.mem_map.mpr ⟨row, entry, (Prod.mk.inj same).1⟩

theorem foldlM_digits_run {σ : Type} {s : σ} {subs : Fin 16 → Tree}
    (f : Rows → Nat → EStateM PyExc σ Rows)
    (runs : ∀ res (d : Fin 16), ∃ sub, f res d s = .ok (addRows (nibbleString d) res sub) s ∧
      Holding sub (rows (subs d))) (digits : List (Fin 16)) {res : Rows}
    {earlier : List (Bytes × Rlp)} (holding : Holding res earlier)
    (distinct : ((earlier ++ digits.flatMap fun d => ((subs d).entries.map fun entry =>
      (d :: entry.1, entry.2)).map rowOf).map Prod.fst).Nodup) :
    ∃ d, (digits.map Fin.val).foldlM f res s = .ok d s ∧ Holding d (earlier ++ digits.flatMap
      fun d => ((subs d).entries.map fun entry => (d :: entry.1, entry.2)).map rowOf) := by
  induction digits generalizing res earlier with
  | nil =>
      rw [List.flatMap_nil, List.append_nil]
      exact ⟨res, rfl, holding⟩
  | cons d digits ih =>
      obtain ⟨sub, run, below⟩ := runs res d
      rw [List.flatMap_cons, ← List.append_assoc] at distinct ⊢
      have first := (List.nodup_append.mp (by rwa [List.map_append] at distinct)).1
      rw [← rows_digit] at first
      have added := holding.addRows below (nibbleString d) first
      rw [rows_digit] at added
      obtain ⟨result, rest, all⟩ := ih added distinct
      refine ⟨result, ?_, all⟩
      rw [List.map_cons, List.foldlM_cons, bind_of_ok run]
      exact rest

section Listings

variable [Platform] [Decoder] {D : Type} [Database D] [Archive D] {U : Set Bytes}
  (free : CollisionFree U) {s : Store D} (sound : Sound U s) (within : Within U s)

include free sound within

theorem getSize_run {t : Tree} (below : Below (· ∈ s.puts) t) {depth : Nat}
    (deep : t.height < depth) : getSize depth (nodeOf t) s = .ok t.entries.length s := by
  induction t generalizing depth with
  | blank =>
      cases depth with
      | zero => omega
      | succ depth => rfl
  | leaf path value =>
      cases depth with
      | zero => omega
      | succ depth =>
          rw [getSize, getNodeType_nodeOf, lift_ok, bind_of_ok (pure_run _ _)]
          rfl
  | extension path sub ih =>
      cases depth with
      | zero => omega
      | succ depth =>
          rw [getSize, getNodeType_nodeOf, lift_ok, bind_of_ok (pure_run _ _)]
          simp only [treeType, bind_of_ok (decodeToNode_run free sound within below.1),
            Patricia.entries, List.length_map]
          exact ih below.2 (Nat.lt_of_succ_lt_succ deep)
  | branch subs value ih =>
      cases depth with
      | zero => omega
      | succ depth =>
          have size (d : Fin 16) : (child (branchItems (fun d => reference (nodeOf (subs d)))
              (valueItem value)) d >>= getSize depth) s = .ok (subs d).entries.length s := by
            rw [bind_of_ok (child_run free sound within (below d).1)]
            apply ih d (below d).2
            have lower := Patricia.height_child subs value d
            omega
          rw [getSize, getNodeType_nodeOf, lift_ok, bind_of_ok (pure_run _ _)]
          simp only [treeType]
          rw [bind_of_ok (mapM_digits_run size), item_branchItems_end, lift_ok,
            bind_of_ok (pure_run _ _), filled_valueItem, Patricia.entries, List.length_append,
            List.length_flatMap]
          simp only [List.length_map]
          cases value <;> rfl

theorem iterNode_run {t : Tree} (below : Below (· ∈ s.puts) t) {depth : Nat}
    (deep : t.height < depth) : iterNode depth (nodeOf t) s = .ok (rows t) s := by
  induction t generalizing depth with
  | blank =>
      cases depth with
      | zero => omega
      | succ depth => rfl
  | leaf path value =>
      cases depth with
      | zero => omega
      | succ depth =>
          rw [iterNode, getNodeType_nodeOf, lift_ok, bind_of_ok (pure_run _ _)]
          simp only [treeType, currKey_packNibbles, lift_ok, bind_of_ok (pure_run _ _), ← keyString_nil,
            fullKey_keyString, List.append_nil]
          rfl
  | extension path sub ih =>
      cases depth with
      | zero => omega
      | succ depth =>
          have inner := ih below.2 (Nat.lt_of_succ_lt_succ deep)
          rw [iterNode, getNodeType_nodeOf, lift_ok, bind_of_ok (pure_run _ _)]
          simp only [treeType, currKey_packNibbles, lift_ok, bind_of_ok (pure_run _ _),
            bind_of_ok (decodeToNode_run free sound within below.1), bind_of_ok inner, rows_above]
          rfl
  | branch subs value ih =>
      cases depth with
      | zero => omega
      | succ depth =>
          have subTree (d : Fin 16) : (child (branchItems (fun d => reference (nodeOf (subs d)))
              (valueItem value)) d >>= fun sub => iterNode depth sub >>= fun subTree =>
                pure (subTree.map fun row => (fullKey (nibbleString d) row.1, row.2))) s =
              .ok (((subs d).entries.map fun entry => (d :: entry.1, entry.2)).map rowOf) s := by
            have lower := Patricia.height_child subs value d
            rw [bind_of_ok (child_run free sound within (below d).1),
              bind_of_ok (ih d (below d).2 (by omega)), rows_digit]
            rfl
          rw [iterNode, getNodeType_nodeOf, lift_ok, bind_of_ok (pure_run _ _)]
          simp only [treeType]
          rw [bind_of_ok (mapM_digits_run subTree), item_branchItems_end, lift_ok,
            bind_of_ok (pure_run _ _), rows_value, rows, Patricia.entries, List.map_append,
            List.map_flatMap, List.flatMap_def]
          rfl

theorem dictNode_run {t : Tree} (below : Below (· ∈ s.puts) t) {depth : Nat}
    (deep : t.height < depth) :
    ∃ d, dictNode depth (nodeOf t) s = .ok d s ∧ Holding d (rows t) := by
  induction t generalizing depth with
  | blank =>
      cases depth with
      | zero => omega
      | succ depth => exact ⟨∅, rfl, holding_empty⟩
  | leaf path value =>
      cases depth with
      | zero => omega
      | succ depth =>
          have single : Holding (AList.insert terminatorKey (.bytes value.1) ∅)
              (rows (.leaf [] value)) := by
            have added := holding_empty.insert terminatorKey List.not_mem_nil (.bytes value.1)
            rw [← keyString_nil] at added ⊢
            exact added
          have distinct := nodup_rows (.leaf path value)
          have paths := rows_above path (.leaf [] value)
          simp only [Patricia.entries, List.map_cons, List.map_nil, List.append_nil] at paths
          have added := holding_empty.addRows single (joinNibbles (nibbles path)) (by
            rw [List.nil_append, paths]
            exact distinct)
          rw [List.nil_append, paths] at added
          refine ⟨_, ?_, added⟩
          rw [dictNode, getNodeType_nodeOf, lift_ok, bind_of_ok (pure_run _ _)]
          simp only [treeType, currKey_packNibbles, lift_ok, bind_of_ok (pure_run _ _)]
          rfl
  | extension path sub ih =>
      cases depth with
      | zero => omega
      | succ depth =>
          obtain ⟨d, run, holding⟩ := ih below.2 (Nat.lt_of_succ_lt_succ deep)
          have distinct := nodup_rows (.extension path sub)
          have added := holding_empty.addRows holding (joinNibbles (nibbles path)) (by
            rw [List.nil_append, rows_above]
            exact distinct)
          rw [List.nil_append, rows_above] at added
          refine ⟨_, ?_, added⟩
          rw [dictNode, getNodeType_nodeOf, lift_ok, bind_of_ok (pure_run _ _)]
          simp only [treeType, currKey_packNibbles, lift_ok, bind_of_ok (pure_run _ _),
            bind_of_ok (decodeToNode_run free sound within below.1), bind_of_ok run]
          rfl
  | branch subs value ih =>
      cases depth with
      | zero => omega
      | succ depth =>
          let add (res : Rows) (i : Nat) : EStateM PyExc (Store D) Rows := do
            let sub ← child (branchItems (fun d => reference (nodeOf (subs d))) (valueItem value)) i
            let subDict ← dictNode depth sub
            return addRows (nibbleString i) res subDict
          have runs (res : Rows) (d : Fin 16) : ∃ sub,
              add res d s = .ok (addRows (nibbleString d) res sub) s ∧ Holding sub (rows (subs d)) := by
            have lower := Patricia.height_child subs value d
            obtain ⟨sub, run, holding⟩ := @ih d (below d).2 depth (by omega)
            refine ⟨sub, ?_, holding⟩
            change (child (branchItems (fun d => reference (nodeOf (subs d))) _) d >>= _) s = _
            rw [bind_of_ok (child_run free sound within (below d).1), bind_of_ok run]
            rfl
          have distinct := nodup_rows (.branch subs value)
          rw [rows, Patricia.entries, List.map_append, List.map_flatMap] at distinct
          have children := (List.nodup_append.mp (by rwa [List.map_append] at distinct)).1
          obtain ⟨res, run, holding⟩ := foldlM_digits_run add runs (List.finRange 16) holding_empty
            (by rwa [List.nil_append])
          rw [List.nil_append] at holding
          have indices : List.range 16 = (List.finRange 16).map Fin.val := by decide
          rw [dictNode, getNodeType_nodeOf, lift_ok, bind_of_ok (pure_run _ _), rows, Patricia.entries,
            List.map_append, List.map_flatMap]
          simp only [treeType]
          rw [indices, bind_of_ok run, item_branchItems_end, lift_ok, bind_of_ok (pure_run _ _),
            filled_valueItem]
          cases value with
          | none =>
              refine ⟨res, rfl, ?_⟩
              simpa using holding
          | some v =>
              refine ⟨res.insert terminatorKey (.bytes v.1), rfl, ?_⟩
              rw [← keyString_nil]
              apply holding.insert
              intro member
              exact (List.nodup_append.mp (by rwa [List.map_append] at distinct)).2.2 _ member
                (keyString []) (List.mem_singleton.mpr rfl) rfl

end Listings

end IPchain.MerkleTrie
