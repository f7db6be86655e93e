import IPchain.MerkleTrie
import IPchain.Lib.Patricia

/-! The node that stands for a tree: what it tells of the tree, and how it is found again. -/

namespace IPchain.MerkleTrie

open Lib Platform

abbrev Value := {v : Bytes // v ≠ []}

abbrev Path := List (Fin 16)

abbrev Tree := Patricia 16 Value

def nibbles (path : Path) : List Nat := path.map Fin.val

def keyPath (key : Bytes) : Path :=
  key.flatMap fun b => [⟨b.toNat / 16, by have := b.toNat_lt; omega⟩,
    ⟨b.toNat % 16, Nat.mod_lt _ (by decide)⟩]

def marked (path : Path) (terminated : Bool) : List Nat :=
  nibbles path ++ if terminated then [nibbleTerminator] else []

theorem marked_false (path : Path) : marked path false = nibbles path := List.append_nil _

theorem binToNibbles_eq (key : Bytes) : binToNibbles key = nibbles (keyPath key) := by
  rw [binToNibbles, Trie.nibbles, nibbles, keyPath, List.map_flatMap]
  rfl

theorem keyPath_inj {key other : Bytes} (same : keyPath key = keyPath other) : key = other := by
  induction key generalizing other with
  | nil =>
      cases other with
      | nil => rfl
      | cons c other => cases same
  | cons b key ih =>
      cases other with
      | nil => cases same
      | cons c other =>
          simp only [keyPath, List.flatMap_cons, List.cons_append, List.nil_append,
            List.cons.injEq, Fin.mk.injEq] at same
          obtain ⟨high, low, rest⟩ := same
          have first : b = c := by
            apply UInt8.toNat_inj.mp
            omega
          rw [first, ih rest]

theorem keyPath_length (key : Bytes) : (keyPath key).length = 2 * key.length := by
  induction key with
  | nil => rfl
  | cons b key ih =>
      have unfolded : (keyPath (b :: key)).length = (keyPath key).length + 2 := rfl
      rw [unfolded, ih, List.length_cons]
      omega

theorem nibbles_inj {p q : Path} : nibbles p = nibbles q ↔ p = q :=
  (List.map_injective_iff.mpr Fin.val_injective).eq_iff

theorem nibbles_prefix_iff {p q : Path} : nibbles p <+: nibbles q ↔ p <+: q :=
  List.prefix_map_iff_of_injective Fin.val_injective

theorem nibbles_drop (path : Path) (n : Nat) : (nibbles path).drop n = nibbles (path.drop n) :=
  (List.map_drop).symm

theorem nibbles_length (path : Path) : (nibbles path).length = path.length := List.length_map _

theorem hasTerminator_nibbles (path : Path) : hasTerminator (nibbles path) = false := by
  rw [hasTerminator, decide_eq_false_iff_not, nibbles, List.getLast?_map]
  cases path.getLast? with
  | none => simp
  | some d =>
      have bound := d.isLt
      simp only [Option.map_some, Option.some.injEq, nibbleTerminator]
      omega

theorem hasTerminator_marked (path : Path) (terminated : Bool) :
    hasTerminator (marked path terminated) = terminated := by
  cases terminated with
  | false => simp [marked, hasTerminator_nibbles]
  | true => simp [marked, hasTerminator]

theorem withoutTerminator_marked (path : Path) (terminated : Bool) :
    withoutTerminator (marked path terminated) = nibbles path := by
  rw [withoutTerminator, hasTerminator_marked]
  cases terminated <;> simp [marked]

theorem withTerminator_nibbles (path : Path) : withTerminator (nibbles path) = marked path true := by
  rw [withTerminator, hasTerminator_nibbles]
  rfl

theorem adaptTerminator_nibbles (path : Path) (terminated : Bool) :
    adaptTerminator (nibbles path) terminated = marked path terminated := by
  cases terminated with
  | false => simp [adaptTerminator, withoutTerminator, hasTerminator_nibbles, marked]
  | true => exact withTerminator_nibbles path

theorem marked_append (path more : Path) (terminated : Bool) :
    nibbles path ++ marked more terminated = marked (path ++ more) terminated := by
  rw [marked, marked, nibbles, nibbles, nibbles, List.map_append, List.append_assoc]

theorem binToNibbles_pack : (nibbles : List Nat) → nibbles.length % 2 = 0 → (∀ n ∈ nibbles, n < 16) →
    binToNibbles (Trie.pack nibbles) = nibbles
  | [], _, _ => rfl
  | [_], odd, _ => by cases odd
  | high :: low :: rest, even, small => by
      obtain ⟨first, small⟩ := List.forall_mem_cons.mp small
      obtain ⟨second, small⟩ := List.forall_mem_cons.mp small
      have even : rest.length % 2 = 0 := by
        simp only [List.length_cons] at even
        omega
      have ih := binToNibbles_pack rest even small
      have byte : (UInt8.ofNat (16 * high + low)).toNat = 16 * high + low := by
        rw [toNat_ofNat_mod]
        omega
      rw [binToNibbles, Trie.nibbles] at ih ⊢
      rw [Trie.pack, List.flatMap_cons, ih, byte]
      simp only [List.cons_append, List.nil_append, List.cons.injEq, and_true]
      constructor <;> omega

theorem unpackToNibbles_packNibbles (path : Path) (terminated : Bool) :
    unpackToNibbles (packNibbles (marked path terminated)) = .ok (marked path terminated) := by
  have small : ∀ n ∈ nibbles path, n < 16 := by
    intro n member
    obtain ⟨d, -, rfl⟩ := List.mem_map.mp member
    exact d.isLt
  simp only [packNibbles, hasTerminator_marked, withoutTerminator_marked, nibbles_length]
  split
  · rename_i odd
    rw [unpackToNibbles, binToNibbles_pack]
    · cases terminated <;> simp [odd, marked]
    · simp only [List.length_cons, nibbles_length]
      omega
    · intro n member
      rcases List.mem_cons.mp member with rfl | member
      · cases terminated <;> simp [odd]
      · exact small n member
  · rename_i even
    rw [unpackToNibbles, binToNibbles_pack]
    · cases terminated <;> simp [marked]
    · simp only [List.length_cons, nibbles_length]
      omega
    · intro n member
      rcases List.mem_cons.mp member with rfl | member
      · cases terminated <;> simp
      · rcases List.mem_cons.mp member with rfl | member
        · decide
        · exact small n member

theorem currKey_packNibbles (path : Path) (terminated : Bool) :
    currKey (packNibbles (marked path terminated)) = .ok (nibbles path) := by
  rw [currKey, unpackToNibbles_packNibbles]
  exact congrArg Except.ok (withoutTerminator_marked path terminated)

theorem packNibbles_inj {p q : Path} {a b : Bool}
    (same : packNibbles (marked p a) = packNibbles (marked q b)) : p = q ∧ a = b := by
  have unpacked := unpackToNibbles_packNibbles p a
  rw [same, unpackToNibbles_packNibbles, Except.ok.injEq] at unpacked
  constructor
  · have paths := congrArg withoutTerminator unpacked
    rw [withoutTerminator_marked, withoutTerminator_marked, nibbles_inj] at paths
    exact paths.symm
  · have ends := congrArg hasTerminator unpacked
    rw [hasTerminator_marked, hasTerminator_marked] at ends
    exact ends.symm

section Nodes

variable [Platform]

def reference (node : Rlp) : Rlp := Trie.reference sha3 node

def valueItem (value : Option Value) : Rlp := .bytes ((value.map Subtype.val).getD [])

def branchItems (subs : Fin 16 → Rlp) (value : Rlp) : List Rlp :=
  (List.finRange 16).map subs ++ [value]

def nodeOf : Tree → Rlp
  | .blank => blankNode
  | .leaf path value => kvNode (marked path true) (.bytes value.1)
  | .extension path sub => kvNode (marked path false) (reference (nodeOf sub))
  | .branch subs value =>
      .list (branchItems (fun d => reference (nodeOf (subs d))) (valueItem value))

omit [Platform] in
theorem branchItems_length (subs : Fin 16 → Rlp) (value : Rlp) :
    (branchItems subs value).length = 17 := by simp [branchItems]

omit [Platform] in
theorem getElem?_branchItems (subs : Fin 16 → Rlp) (value : Rlp) (d : Fin 16) :
    (branchItems subs value)[d.val]? = some (subs d) := by
  rw [branchItems, List.getElem?_append_left (by simp)]
  simp

omit [Platform] in
theorem getElem?_branchItems_end (subs : Fin 16 → Rlp) (value : Rlp) :
    (branchItems subs value)[16]? = some value := by
  rw [branchItems, List.getElem?_append_right (by simp)]
  simp

omit [Platform] in
theorem item_branchItems (subs : Fin 16 → Rlp) (value : Rlp) (d : Fin 16) :
    item (branchItems subs value) d = .ok (subs d) := by rw [item, getElem?_branchItems]

omit [Platform] in
theorem item_branchItems_end (subs : Fin 16 → Rlp) (value : Rlp) :
    item (branchItems subs value) 16 = .ok value := by rw [item, getElem?_branchItems_end]

omit [Platform] in
theorem set_branchItems (subs : Fin 16 → Rlp) (value : Rlp) (d : Fin 16) (x : Rlp) :
    (branchItems subs value).set d x = branchItems (Function.update subs d x) value := by
  rw [branchItems, List.set_append_left _ _ (by simp), branchItems]
  congr 1
  apply List.ext_getElem
  · simp
  · intro i bound _
    simp only [List.length_set, List.length_map, List.length_finRange] at bound
    rw [List.getElem_set, List.getElem_map, List.getElem_map, Function.update_apply]
    simp [Fin.ext_iff, eq_comm]

omit [Platform] in
theorem set_branchItems_end (subs : Fin 16 → Rlp) (value x : Rlp) :
    (branchItems subs value).set 16 x = branchItems subs x := by
  rw [branchItems, List.set_append_right _ _ (by simp), branchItems]
  simp

omit [Platform] in
theorem blankBranch_eq : blankBranch = branchItems (fun _ => blankNode) blankNode := by
  rfl

omit [Platform] in
theorem branchItems_inj {subs subs' : Fin 16 → Rlp} {value value' : Rlp}
    (same : branchItems subs value = branchItems subs' value') : subs = subs' ∧ value = value' := by
  constructor
  · funext d
    have read := item_branchItems subs value d
    rw [same, item_branchItems] at read
    exact (Except.ok.inj read).symm
  · have read := item_branchItems_end subs value
    rw [same, item_branchItems_end] at read
    exact (Except.ok.inj read).symm

def treeType : Tree → NodeType
  | .blank => .blank
  | .leaf path value => .leaf (packNibbles (marked path true)) (.bytes value.1)
  | .extension path sub => .extension (packNibbles (marked path false)) (reference (nodeOf sub))
  | .branch subs value =>
      .branch (branchItems (fun d => reference (nodeOf (subs d))) (valueItem value))

omit [Platform] in
theorem getNodeType_kvNode (path : Path) (terminated : Bool) (x : Rlp) :
    getNodeType (kvNode (marked path terminated) x) =
      .ok (if terminated then .leaf (packNibbles (marked path terminated)) x
        else .extension (packNibbles (marked path terminated)) x) := by
  simp only [kvNode, getNodeType, unpackToNibbles_packNibbles]
  change (if hasTerminator (marked path terminated) then _ else _) = _
  rw [hasTerminator_marked]
  cases terminated <;> rfl

theorem getNodeType_nodeOf (t : Tree) : getNodeType (nodeOf t) = .ok (treeType t) := by
  cases t with
  | blank => rfl
  | leaf path value => exact getNodeType_kvNode path true _
  | extension path sub => exact getNodeType_kvNode path false _
  | branch subs value =>
      have length := branchItems_length (fun d => reference (nodeOf (subs d))) (valueItem value)
      rw [nodeOf, getNodeType, if_pos length, treeType]
      intro path x same
      rw [same] at length
      cases length

theorem nodeOf_eq_blank {t : Tree} : nodeOf t = blankNode ↔ t = .blank := by
  cases t <;> simp [nodeOf, blankNode, kvNode]

theorem nodeOf_cases (t : Tree) : nodeOf t = blankNode ∨ ∃ items, nodeOf t = .list items := by
  cases t with
  | blank => exact Or.inl rfl
  | leaf path value => exact Or.inr ⟨_, rfl⟩
  | extension path sub => exact Or.inr ⟨_, rfl⟩
  | branch subs value => exact Or.inr ⟨_, rfl⟩

theorem reference_short {node : Rlp} (short : node.encode.length < 32) : reference node = node :=
  if_pos short

theorem reference_long {node : Rlp} (long : ¬ node.encode.length < 32) :
    reference node = .bytes (sha3 node.encode) := if_neg long

theorem reference_blank : reference blankNode = blankNode := reference_short (by decide)

theorem sha3_ne_nil (data : Bytes) : sha3 data ≠ [] := by
  intro none
  have length := sha3_length data
  rw [none] at length
  cases length

theorem reference_eq_blank {t : Tree} : reference (nodeOf t) = blankNode ↔ t = .blank := by
  constructor
  · intro blank
    by_cases short : (nodeOf t).encode.length < 32
    · rwa [reference_short short, nodeOf_eq_blank] at blank
    · rw [reference_long short] at blank
      exact absurd (Rlp.bytes.inj blank) (sha3_ne_nil _)
  · rintro rfl
    exact reference_blank

theorem filled_reference (t : Tree) : filled (reference (nodeOf t)) = !t.isBlank := by
  by_cases short : (nodeOf t).encode.length < 32
  · rw [reference_short short]
    cases t with
    | blank => rfl
    | leaf path value => rfl
    | extension path sub => rfl
    | branch subs value =>
        have length := branchItems_length (fun d => reference (nodeOf (subs d))) (valueItem value)
        have present : branchItems (fun d => reference (nodeOf (subs d))) (valueItem value) ≠ [] :=
          List.ne_nil_of_length_eq_add_one length
        simp [nodeOf, filled, Patricia.isBlank, present]
  · have present : t ≠ .blank := by
      rintro rfl
      exact short (show blankNode.encode.length < 32 by decide)
    rw [reference_long short, filled, Bool.eq_false_iff.mpr (mt Patricia.isBlank_iff.mp present)]
    simp [sha3_ne_nil]

omit [Platform] in
theorem filled_valueItem (value : Option Value) : filled (valueItem value) = value.isSome := by
  cases value with
  | none => rfl
  | some v => simp [valueItem, filled, v.2]

def Stored (data : Bytes → Prop) (t : Tree) : Prop :=
  ¬ (nodeOf t).encode.length < 32 → data (nodeOf t).encode

def Below (data : Bytes → Prop) : Tree → Prop
  | .blank => True
  | .leaf _ _ => True
  | .extension _ sub => Stored data sub ∧ Below data sub
  | .branch subs _ => ∀ d, Stored data (subs d) ∧ Below data (subs d)

theorem Stored.mono {data more : Bytes → Prop} (sub : ∀ v, data v → more v) {t : Tree}
    (stored : Stored data t) : Stored more t := fun long => sub _ (stored long)

theorem Below.mono {data more : Bytes → Prop} (sub : ∀ v, data v → more v) {t : Tree}
    (below : Below data t) : Below more t := by
  induction t with
  | blank => trivial
  | leaf path value => trivial
  | extension path t ih => exact ⟨below.1.mono sub, ih below.2⟩
  | branch subs value ih => exact fun d => ⟨(below d).1.mono sub, ih d (below d).2⟩

section Injective

variable {U : Set Bytes} (free : CollisionFree U)

include free

theorem encode_inj_of_mem {x y : Rlp} (member : x.encode ∈ U) (same : x.encode = y.encode) : x = y :=
  Rlp.eq_of_encode (free.short _ member) same

theorem reference_inj {s t : Tree} (storedS : Stored (· ∈ U) s) (storedT : Stored (· ∈ U) t)
    (same : reference (nodeOf s) = reference (nodeOf t)) : nodeOf s = nodeOf t := by
  -- a node is no hash
  have apart (t : Tree) (data : Bytes) : nodeOf t ≠ .bytes (sha3 data) := by
    rcases nodeOf_cases t with blank | ⟨items, list⟩
    · rw [blank]
      intro same
      exact sha3_ne_nil data (Rlp.bytes.inj same).symm
    · rw [list]
      exact fun same => by cases same
  by_cases shortS : (nodeOf s).encode.length < 32
  · by_cases shortT : (nodeOf t).encode.length < 32
    · rwa [reference_short shortS, reference_short shortT] at same
    · rw [reference_short shortS, reference_long shortT] at same
      exact absurd same (apart s _)
  · by_cases shortT : (nodeOf t).encode.length < 32
    · rw [reference_long shortS, reference_short shortT] at same
      exact absurd same.symm (apart t _)
    · rw [reference_long shortS, reference_long shortT] at same
      have encodings := free.injective (storedS shortS) (storedT shortT) (Rlp.bytes.inj same)
      exact encode_inj_of_mem free (storedS shortS) encodings

theorem nodeOf_inj {s t : Tree} (belowS : Below (· ∈ U) s) (belowT : Below (· ∈ U) t)
    (same : nodeOf s = nodeOf t) : s = t := by
  have types : treeType s = treeType t := by
    have read := getNodeType_nodeOf s
    rw [same, getNodeType_nodeOf] at read
    exact (Except.ok.inj read).symm
  induction s generalizing t with
  | blank => exact (nodeOf_eq_blank.mp same.symm).symm
  | leaf p v =>
      cases t with
      | leaf q w =>
          simp only [treeType, NodeType.leaf.injEq, Rlp.bytes.injEq] at types
          rw [(packNibbles_inj types.1).1, Subtype.ext types.2]
      | _ => cases types
  | extension p s ih =>
      cases t with
      | extension q t =>
          simp only [treeType, NodeType.extension.injEq] at types
          have subs := reference_inj free belowS.1 belowT.1 types.2
          have read := getNodeType_nodeOf s
          rw [subs, getNodeType_nodeOf] at read
          rw [(packNibbles_inj types.1).1,
            ih belowS.2 belowT.2 subs (Except.ok.inj read).symm]
      | _ => cases types
  | branch subs v ih =>
      cases t with
      | branch subs' w =>
          simp only [treeType, NodeType.branch.injEq] at types
          obtain ⟨children, values⟩ := branchItems_inj types
          have trees : subs = subs' := by
            funext d
            have nodes := reference_inj free (belowS d).1 (belowT d).1 (congrFun children d)
            have read := getNodeType_nodeOf (subs d)
            rw [nodes, getNodeType_nodeOf] at read
            exact ih d (belowS d).2 (belowT d).2 nodes (Except.ok.inj read).symm
          have ends : v = w := by
            cases v with
            | none =>
                cases w with
                | none => rfl
                | some w => exact absurd (Rlp.bytes.inj values).symm w.2
            | some v =>
                cases w with
                | none => exact absurd (Rlp.bytes.inj values) v.2
                | some w => exact congrArg some (Subtype.ext (Rlp.bytes.inj values))
          rw [trees, ends]
      | _ => cases types

end Injective

end Nodes

end IPchain.MerkleTrie
