import IPchain.Reading

/-! An update of the nodes is an update of the tree they stand for. -/

namespace IPchain.MerkleTrie

open Lib Platform

variable [Platform] [Decoder] {D : Type} [Database D]

section Growth

variable {r : Store D → Store D → Prop} [Growth r]

omit [Decoder] in
theorem advances_belowPrefix (shared : List Nat) (node : Rlp) :
    Advances r (belowPrefix shared node : EStateM PyExc (Store D) Rlp) := by
  rw [belowPrefix]
  apply Advances.ite
  · exact Advances.pure _
  · exact Advances.bind (advances_encodeNode _) fun _ => Advances.pure _

omit [Decoder] in
theorem advances_placeValue (items : List Rlp) (value : Bytes) (key : List Nat) :
    Advances r (placeValue items value key : EStateM PyExc (Store D) (List Rlp)) := by
  cases key with
  | nil => exact Advances.pure _
  | cons d rest => exact Advances.bind (advances_encodeNode _) fun _ => Advances.pure _

omit [Decoder] in
theorem advances_moveItem (isInner : Bool) (more : List Nat) (old : Rlp) :
    Advances r (moveItem isInner more old : EStateM PyExc (Store D) Rlp) := by
  rw [moveItem]
  apply Advances.ite
  · exact Advances.pure _
  · exact advances_encodeNode _

theorem advances_updateKvNode
    {update : Rlp → List Nat → Bytes → EStateM PyExc (Store D) Rlp}
    (inner : ∀ node key value, Advances r (update node key value)) (isInner : Bool)
    (path : Bytes) (old : Rlp) (key : List Nat) (value : Bytes) :
    Advances r (updateKvNode update isInner path old key value) := by
  refine Advances.bind (Advances.lift _) ?_
  intro curr
  dsimp only
  split
  · apply Advances.ite
    · refine Advances.bind (advances_decodeToNode _) ?_
      intro sub
      exact Advances.bind (inner _ _ _) fun _ => advances_belowPrefix _ _
    · apply Advances.ite
      · exact Advances.pure _
      · exact Advances.bind (advances_placeValue _ _ _) fun _ => advances_belowPrefix _ _
  · refine Advances.bind (advances_moveItem _ _ _) ?_
    intro moved
    exact Advances.bind (advances_placeValue _ _ _) fun _ => advances_belowPrefix _ _

theorem advances_updateNode (depth : Nat) (node : Rlp) (key : List Nat) (value : Bytes) :
    Advances r (updateNode depth node key value : EStateM PyExc (Store D) Rlp) := by
  induction depth generalizing node key value with
  | zero => exact Advances.raised _
  | succ depth ih =>
      refine Advances.bind (Advances.lift _) ?_
      intro type
      cases type with
      | blank => exact Advances.pure _
      | leaf path old => exact advances_updateKvNode ih _ _ _ _ _
      | extension path sub => exact advances_updateKvNode ih _ _ _ _ _
      | branch items =>
          cases key with
          | nil => exact Advances.pure _
          | cons d rest =>
              refine Advances.bind (advances_child _ _) ?_
              intro sub
              refine Advances.bind (ih _ _ _) ?_
              intro newNode
              exact Advances.bind (advances_encodeNode _) fun _ => Advances.pure _

end Growth

variable [Archive D] {U : Set Bytes}

/-- What a program is to leave behind: the node of a tree, and the nodes below it in the store. -/
def Yields (U : Set Bytes) (s : Store D) (t : Tree) (x : Rlp) (s' : Store D) : Prop :=
  x = nodeOf t ∧ Below (· ∈ s'.puts) t ∧ Later U s s'

section Parts

omit [Decoder]

theorem belowPrefix_spec (free : CollisionFree U) {s : Store D} (sound : Sound U s) (path : Path)
    {t : Tree} (below : Below (· ∈ s.puts) t) :
    Assures (Within U) (belowPrefix (nibbles path) (nodeOf t)) s
      (Yields U s (Patricia.prepend path t)) := by
  cases path with
  | nil => exact Assures.pure fun _ => ⟨rfl, below, Later.refl sound⟩
  | cons d path =>
      rw [belowPrefix, if_neg (show nibbles (d :: path) ≠ [] from List.cons_ne_nil _ _)]
      apply assures_bind (fun _ => Advances.pure _) (encodeNode_spec free sound t)
      rintro x s' - ⟨rfl, stored, later⟩
      apply Assures.pure
      intro _
      refine ⟨?_, ⟨stored, later.below below⟩, later⟩
      rw [Patricia.prepend, nodeOf, marked, if_neg Bool.false_ne_true, List.append_nil]

def place (subs : Fin 16 → Tree) (old : Option Value) (value : Value) : Path → Tree
  | [] => .branch subs (some value)
  | d :: rest => .branch (Function.update subs d (.leaf rest value)) old

theorem branch_update_items (subs : Fin 16 → Tree) (d : Fin 16) (t : Tree) (value : Rlp) :
    (branchItems (fun d => reference (nodeOf (subs d))) value).set d (reference (nodeOf t)) =
      branchItems (fun e => reference (nodeOf (Function.update subs d t e))) value := by
  rw [set_branchItems]
  congr 1
  funext e
  rw [Function.update_apply, Function.update_apply]
  split <;> rfl

theorem below_update {data : Bytes → Prop} {subs : Fin 16 → Tree}
    (below : ∀ e, Stored data (subs e) ∧ Below data (subs e)) (d : Fin 16) {t : Tree}
    (stored : Stored data t) (inner : Below data t) (e : Fin 16) :
    Stored data (Function.update subs d t e) ∧ Below data (Function.update subs d t e) := by
  by_cases same : e = d
  · subst same
    rw [Function.update_self]
    exact ⟨stored, inner⟩
  · rw [Function.update_of_ne same]
    exact below e

theorem placeValue_spec (free : CollisionFree U) {s : Store D} (sound : Sound U s)
    {subs : Fin 16 → Tree} (below : ∀ d, Stored (· ∈ s.puts) (subs d) ∧ Below (· ∈ s.puts) (subs d))
    (old : Option Value) (value : Value) (key : Path) :
    Assures (Within U) (placeValue (branchItems (fun d => reference (nodeOf (subs d)))
        (valueItem old)) value.1 (nibbles key)) s fun items s' =>
      .list items = nodeOf (place subs old value key) ∧
        Below (· ∈ s'.puts) (place subs old value key) ∧ Later U s s' := by
  cases key with
  | nil =>
      apply Assures.pure
      intro _
      exact ⟨congrArg Rlp.list (set_branchItems_end _ _ _), below, Later.refl sound⟩
  | cons d rest =>
      have leaf : kvNode (withTerminator (nibbles rest)) (.bytes value.1) =
          nodeOf (.leaf rest value) := by
        rw [withTerminator_nibbles]
        rfl
      change Assures _ (encodeNode (kvNode (withTerminator (nibbles rest)) _) >>= _) s _
      rw [leaf]
      apply assures_bind (fun _ => Advances.pure _) (encodeNode_spec free sound _)
      rintro x s' - ⟨rfl, stored, later⟩
      apply Assures.pure
      intro _
      refine ⟨congrArg Rlp.list (branch_update_items _ _ _ _), ?_, later⟩
      exact below_update (fun e => ⟨later.stored (below e).1, later.below (below e).2⟩) d stored
        trivial

omit [Platform] in
theorem place_single (d : Fin 16) (t : Tree) (value : Value) (rest : Path) :
    place (Patricia.single d t) none value rest = Patricia.fork d t value rest := by
  cases rest <;> rfl

theorem reference_single (d : Fin 16) (t : Tree) :
    branchItems (fun e => reference (nodeOf (Patricia.single d t e))) (valueItem none) =
      blankBranch.set d (reference (nodeOf t)) := by
  rw [blankBranch_eq, set_branchItems]
  congr 1
  funext e
  rw [Patricia.single, Function.update_apply, Function.update_apply]
  split
  · rfl
  · exact reference_blank

theorem below_blank (data : Bytes → Prop) (d : Fin 16) :
    Stored data ((fun _ => .blank : Fin 16 → Tree) d) ∧
      Below data ((fun _ => .blank : Fin 16 → Tree) d) :=
  ⟨fun long => absurd (show blankNode.encode.length < 32 by decide) long, trivial⟩

theorem below_single {data : Bytes → Prop} (d : Fin 16) {t : Tree} (stored : Stored data t)
    (inner : Below data t) (e : Fin 16) :
    Stored data (Patricia.single d t e) ∧ Below data (Patricia.single d t e) := by
  exact below_update (below_blank data) d stored inner e

omit [Platform] in
theorem prefixLength_append {p l r : Path} (apart : ∀ a more, l = a :: more → ∀ rest, r ≠ a :: rest) :
    prefixLength (nibbles (p ++ l)) (nibbles (p ++ r)) = p.length := by
  induction p with
  | nil =>
      cases l with
      | nil => rfl
      | cons a l =>
          cases r with
          | nil => rfl
          | cons b r =>
              have differ : a.val ≠ b.val := by
                intro same
                exact apart a l rfl r (by rw [Fin.ext same])
              exact if_neg differ
  | cons d p ih =>
      change (if d.val = d.val then prefixLength (nibbles (p ++ l)) (nibbles (p ++ r)) + 1 else 0) = _
      rw [if_pos rfl, ih]
      rfl

theorem below_prepend {data : Bytes → Prop} (path : Path) {t : Tree} (stored : Stored data t)
    (below : Below data t) : Below data (Patricia.prepend path t) := by
  cases path with
  | nil => exact below
  | cons d path => exact ⟨stored, below⟩

theorem blankBranch_set_end (value : Value) : blankBranch.set 16 (.bytes value.1) =
    branchItems (fun d => reference (nodeOf ((fun _ => .blank : Fin 16 → Tree) d)))
      (valueItem (some value)) := by
  rw [blankBranch_eq, set_branchItems_end]
  exact congrArg (fun x => branchItems (fun _ => x) _) reference_blank.symm

omit [Platform] in
theorem nibbles_take (path : Path) (n : Nat) : (nibbles path).take n = nibbles (path.take n) :=
  (List.map_take).symm

theorem moveItem_leaf_spec (free : CollisionFree U) {s : Store D} (sound : Sound U s) (more : Path)
    (value : Value) : Assures (Within U) (moveItem false (nibbles more) (.bytes value.1)) s
      fun x s' => x = reference (nodeOf (.leaf more value)) ∧
        Stored (· ∈ s'.puts) (.leaf more value) ∧ Later U s s' := by
  rw [moveItem, if_neg (by simp), adaptTerminator_nibbles]
  exact encodeNode_spec free sound (.leaf more value)

theorem moveItem_extension_spec (free : CollisionFree U) {s : Store D} (sound : Sound U s)
    (more : Path) {sub : Tree} (stored : Stored (· ∈ s.puts) sub) :
    Assures (Within U) (moveItem true (nibbles more) (reference (nodeOf sub))) s
      fun x s' => x = reference (nodeOf (Patricia.prepend more sub)) ∧
        Stored (· ∈ s'.puts) (Patricia.prepend more sub) ∧ Later U s s' := by
  cases more with
  | nil => exact Assures.pure fun _ => ⟨rfl, stored, Later.refl sound⟩
  | cons d more =>
      rw [moveItem, if_neg (by simp [nibbles]), adaptTerminator_nibbles]
      exact encodeNode_spec free sound (.extension (d :: more) sub)

theorem fork_spec (free : CollisionFree U) {s : Store D} (sound : Sound U s) (path : Path)
    (d : Fin 16) {t : Tree} (stored : Stored (· ∈ s.puts) t) (below : Below (· ∈ s.puts) t)
    (value : Value) (rest : Path) :
    Assures (Within U) (do
      let newNode ← placeValue (blankBranch.set d (reference (nodeOf t))) value.1 (nibbles rest)
      belowPrefix (nibbles path) (.list newNode)) s
      (Yields U s (Patricia.prepend path (Patricia.fork d t value rest))) := by
  rw [← reference_single, ← place_single]
  apply assures_bind (fun _ => advances_belowPrefix _ _)
    (placeValue_spec free sound (below_single d stored below) none value rest)
  rintro items s' - ⟨same, inner, later⟩
  rw [same]
  apply (belowPrefix_spec free later.2 path inner).mono
  rintro x s'' - ⟨node, below, more⟩
  exact ⟨node, below, later.trans more⟩

end Parts

section Update

variable (free : CollisionFree U)

include free

theorem updateLeaf_spec {update : Rlp → List Nat → Bytes → EStateM PyExc (Store D) Rlp}
    {s : Store D} (sound : Sound U s) (path : Path) (old : Value) (key : Path) (value : Value) :
    Assures (Within U) (updateKvNode update false (packNibbles (marked path true)) (.bytes old.1)
      (nibbles key) value.1) s (Yields U s ((Patricia.leaf path old).update key value)) := by
  obtain ⟨p, l, r, divided, rfl, rfl, apart⟩ := exists_divide path key
  rw [updateKvNode, currKey_packNibbles, lift_ok]
  apply Assures.bind_ok (pure_run _ _)
  simp only [prefixLength_append apart, nibbles_drop, nibbles_take, List.drop_left, List.take_left,
    Patricia.update, divided]
  cases l with
  | nil =>
      cases r with
      | nil =>
          apply Assures.pure
          intro _
          rw [List.append_nil]
          exact ⟨rfl, trivial, Later.refl sound⟩
      | cons e r =>
          change Assures _ (placeValue (blankBranch.set 16 (.bytes old.1)) value.1
            (nibbles (e :: r)) >>= _) s _
          rw [blankBranch_set_end]
          apply assures_bind (fun _ => advances_belowPrefix _ _)
            (placeValue_spec free sound (below_blank _) (some old) value (e :: r))
          rintro items s' - ⟨same, inner, later⟩
          rw [same]
          apply (belowPrefix_spec free later.2 p inner).mono
          rintro x s'' - ⟨node, below, more⟩
          exact ⟨node, below, later.trans more⟩
  | cons d l =>
      change Assures _ (moveItem false (nibbles l) (.bytes old.1) >>= _) s _
      apply assures_bind (fun _ => Advances.bind (advances_placeValue _ _ _) fun _ =>
        advances_belowPrefix _ _) (moveItem_leaf_spec free sound l old)
      rintro x s' - ⟨rfl, stored, later⟩
      apply (fork_spec free later.2 p d stored trivial value r).mono
      rintro x s'' - ⟨node, below, more⟩
      exact ⟨node, below, later.trans more⟩

theorem updateExtension_spec {update : Rlp → List Nat → Bytes → EStateM PyExc (Store D) Rlp}
    {s : Store D} (sound : Sound U s) (within : Within U s) (path : Path) {sub : Tree}
    (held : Stored (· ∈ s.puts) sub) (below : Below (· ∈ s.puts) sub) (key : Path) (value : Value)
    (inner : ∀ rest, key = path ++ rest → Assures (Within U)
      (update (nodeOf sub) (nibbles rest) value.1) s (Yields U s (sub.update rest value))) :
    Assures (Within U) (updateKvNode update true (packNibbles (marked path false))
      (reference (nodeOf sub)) (nibbles key) value.1) s
      (Yields U s ((Patricia.extension path sub).update key value)) := by
  obtain ⟨p, l, r, divided, rfl, rfl, apart⟩ := exists_divide path key
  rw [updateKvNode, currKey_packNibbles, lift_ok]
  apply Assures.bind_ok (pure_run _ _)
  simp only [prefixLength_append apart, nibbles_drop, nibbles_take, List.drop_left, List.take_left,
    Patricia.update, divided]
  cases l with
  | nil =>
      change Assures _ (decodeToNode (reference (nodeOf sub)) >>= _) s _
      apply Assures.bind_ok (decodeToNode_run free sound within held)
      apply assures_bind (fun _ => advances_belowPrefix _ _) (inner r (by rw [List.append_nil]))
      rintro x s' - ⟨rfl, below, later⟩
      apply (belowPrefix_spec free later.2 p below).mono
      rintro x s'' - ⟨node, below, more⟩
      exact ⟨node, below, later.trans more⟩
  | cons d l =>
      change Assures _ (moveItem true (nibbles l) (reference (nodeOf sub)) >>= _) s _
      apply assures_bind (fun _ => Advances.bind (advances_placeValue _ _ _) fun _ =>
        advances_belowPrefix _ _) (moveItem_extension_spec free sound l held)
      rintro x s' - ⟨rfl, stored, later⟩
      have inside := below_prepend l (later.stored held) (later.below below)
      apply (fork_spec free later.2 p d stored inside value r).mono
      rintro x s'' - ⟨node, below, more⟩
      exact ⟨node, below, later.trans more⟩

theorem updateNode_spec {s : Store D} (sound : Sound U s) {t : Tree} (normal : t.Normal)
    (below : Below (· ∈ s.puts) t) (key : Path) (value : Value) {depth : Nat}
    (deep : key.length < depth) :
    Assures (Within U) (updateNode depth (nodeOf t) (nibbles key) value.1) s
      (Yields U s (t.update key value)) := by
  intro ends
  have within : Within U s := Within.of_grows (advances_updateNode _ _ _ _ s) ends
  revert ends
  change Assures _ _ _ _
  induction t generalizing key depth with
  | blank =>
      cases depth with
      | zero => omega
      | succ depth =>
          apply Assures.pure
          intro _
          refine ⟨?_, trivial, Later.refl sound⟩
          rw [withTerminator_nibbles]
          rfl
  | leaf path old =>
      cases depth with
      | zero => omega
      | succ depth =>
          rw [updateNode, getNodeType_nodeOf, lift_ok]
          apply Assures.bind_ok (pure_run _ _)
          exact updateLeaf_spec free sound path old key value
  | extension path sub ih =>
      cases depth with
      | zero => omega
      | succ depth =>
          rw [updateNode, getNodeType_nodeOf, lift_ok]
          apply Assures.bind_ok (pure_run _ _)
          apply updateExtension_spec free sound within path below.1 below.2 key value
          rintro rest rfl
          apply ih normal.2.2 below.2
          have present := List.length_pos_of_ne_nil normal.1
          rw [List.length_append] at deep
          omega
  | branch subs old ih =>
      cases depth with
      | zero => omega
      | succ depth =>
          rw [updateNode, getNodeType_nodeOf, lift_ok]
          apply Assures.bind_ok (pure_run _ _)
          cases key with
          | nil =>
              apply Assures.pure
              intro _
              exact ⟨congrArg Rlp.list (set_branchItems_end _ _ _), below, Later.refl sound⟩
          | cons d key =>
              change Assures _ (child (branchItems _ _) d >>= fun sub =>
                updateNode depth sub (nibbles key) value.1 >>= _) s _
              apply Assures.bind_ok (child_run free sound within (below d).1)
              rw [List.length_cons] at deep
              apply assures_bind (fun _ => Advances.bind (advances_encodeNode _) fun _ =>
                Advances.pure _) (ih d (normal.2 d) (below d).2 key (by omega))
              rintro x s' - ⟨rfl, inner, later⟩
              apply assures_bind (fun _ => Advances.pure _) (encodeNode_spec free later.2 _)
              rintro x s'' - ⟨rfl, stored, more⟩
              apply Assures.pure
              intro _
              refine ⟨congrArg Rlp.list (branch_update_items _ _ _ _), ?_, later.trans more⟩
              have all := later.trans more
              exact below_update (fun e => ⟨all.stored (below e).1, all.below (below e).2⟩) d stored
                (more.below inner)

end Update

end IPchain.MerkleTrie
