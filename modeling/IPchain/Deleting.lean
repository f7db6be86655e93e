import IPchain.Writing

/-! A deletion from the nodes is a deletion from the tree they stand for. -/

namespace IPchain.MerkleTrie

open Lib Platform

variable [Platform] [Decoder] {D : Type} [Database D]

section Growth

variable {r : Store D → Store D → Prop} [Growth r]

omit [Decoder] in
theorem advances_mergePath (above : List Nat) (node : Rlp) :
    Advances r (mergePath above node : EStateM PyExc (Store D) Rlp) := by
  refine Advances.bind (Advances.lift _) ?_
  intro type
  cases type with
  | blank => exact Advances.raised _
  | leaf path item => exact Advances.bind (Advances.lift _) fun _ => Advances.pure _
  | extension path item => exact Advances.bind (Advances.lift _) fun _ => Advances.pure _
  | branch items => exact Advances.bind (advances_encodeNode _) fun _ => Advances.pure _

theorem advances_normalizeBranchNode (items : List Rlp) :
    Advances r (normalizeBranchNode items : EStateM PyExc (Store D) Rlp) := by
  rw [normalizeBranchNode]
  split
  · exact Advances.raised _
  · apply Advances.ite
    · exact Advances.bind (Advances.lift _) fun _ => Advances.pure _
    · exact Advances.bind (advances_child _ _) fun _ => advances_mergePath _ _
  · exact Advances.pure _

section Recursion

variable {delete : Rlp → List Nat → EStateM PyExc (Store D) Rlp}
  (inner : ∀ node key, Advances r (delete node key))

include inner

theorem advances_deleteBranchNode (items : List Rlp) (key : List Nat) :
    Advances r (deleteBranchNode delete items key) := by
  cases key with
  | nil => exact advances_normalizeBranchNode _
  | cons d rest =>
      refine Advances.bind (Advances.lift _) fun old => ?_
      refine Advances.bind (advances_decodeToNode _) fun sub => ?_
      refine Advances.bind (inner _ _) fun newSub => ?_
      refine Advances.bind (advances_encodeNode _) fun encoded => ?_
      apply Advances.ite
      · exact Advances.pure _
      · exact Advances.ite (advances_normalizeBranchNode _) (Advances.pure _)

theorem advances_deleteExtension (path : Bytes) (old : Rlp) (key : List Nat) :
    Advances r (deleteExtension delete path old key) := by
  refine Advances.bind (Advances.lift _) fun curr => ?_
  apply Advances.ite
  · refine Advances.bind (advances_decodeToNode _) fun sub => ?_
    refine Advances.bind (inner _ _) fun newSub => ?_
    refine Advances.bind (advances_encodeNode _) fun encoded => ?_
    apply Advances.ite
    · exact Advances.pure _
    · exact Advances.ite (Advances.pure _) (advances_mergePath _ _)
  · exact Advances.pure _

end Recursion

theorem advances_deleteNode (depth : Nat) (node : Rlp) (key : List Nat) :
    Advances r (deleteNode depth node key : EStateM PyExc (Store D) Rlp) := by
  induction depth generalizing node key with
  | zero => exact Advances.raised _
  | succ depth ih =>
      refine Advances.bind (Advances.lift _) ?_
      intro type
      cases type with
      | blank => exact Advances.pure _
      | leaf path value => exact Advances.bind (Advances.lift _) fun _ => Advances.pure _
      | extension path old => exact advances_deleteExtension ih path old key
      | branch items => exact advances_deleteBranchNode ih items key

end Growth

variable [Archive D] {U : Set Bytes} (free : CollisionFree U)

include free

omit [Decoder] in
theorem mergePath_spec {s : Store D} (sound : Sound U s) (above : Path) {t : Tree}
    (present : t ≠ .blank) (below : Below (· ∈ s.puts) t) :
    Assures (Within U) (mergePath (nibbles above) (nodeOf t)) s
      (Yields U s (Patricia.attach above t)) := by
  rw [mergePath, getNodeType_nodeOf, lift_ok]
  apply Assures.bind_ok (pure_run _ _)
  cases t with
  | blank => exact absurd rfl present
  | leaf path value =>
      simp only [treeType, unpackToNibbles_packNibbles, lift_ok]
      apply Assures.bind_ok (pure_run _ _)
      apply Assures.pure
      intro _
      rw [marked_append]
      exact ⟨rfl, trivial, Later.refl sound⟩
  | extension path sub =>
      simp only [treeType, unpackToNibbles_packNibbles, lift_ok]
      apply Assures.bind_ok (pure_run _ _)
      apply Assures.pure
      intro _
      rw [marked_append]
      exact ⟨rfl, below, Later.refl sound⟩
  | branch subs value =>
      simp only [treeType]
      apply assures_bind (fun _ => Advances.pure _) (encodeNode_spec free sound _)
      rintro x s' - ⟨rfl, stored, later⟩
      apply Assures.pure
      intro _
      rw [← marked_false]
      exact ⟨rfl, ⟨stored, later.below below⟩, later⟩

omit [Decoder] free in
theorem filled_items (subs : Fin 16 → Tree) (value : Option Value) :
    ((List.range 17).filter fun i => ((branchItems (fun d => reference (nodeOf (subs d)))
        (valueItem value))[i]?.map filled).getD false) =
      (Patricia.children subs).map Fin.val ++ if value.isSome then [16] else [] := by
  have indices : List.range 17 = (List.finRange 16).map Fin.val ++ [16] := by decide
  rw [indices, List.filter_append, List.filter_map, Patricia.children]
  congr 1
  · congr 1
    apply List.filter_congr
    intro d _
    simp only [Function.comp_apply, getElem?_branchItems, Option.map_some, Option.getD_some,
      filled_reference]
  · rw [List.filter_cons, getElem?_branchItems_end, Option.map_some, Option.getD_some, filled_valueItem]
    rfl

theorem normalizeBranchNode_spec {s : Store D} (sound : Sound U s) (within : Within U s)
    {subs : Fin 16 → Tree} {value : Option Value} (items : value.isSome ∨ ∃ e, subs e ≠ .blank)
    (below : ∀ d, Stored (· ∈ s.puts) (subs d) ∧ Below (· ∈ s.puts) (subs d)) :
    Assures (Within U) (normalizeBranchNode (branchItems (fun d => reference (nodeOf (subs d)))
      (valueItem value))) s (Yields U s (Patricia.normalize subs value)) := by
  have whole : Assures (Within U) (pure (.list (branchItems (fun d => reference (nodeOf (subs d)))
      (valueItem value))) : EStateM PyExc (Store D) Rlp) s (Yields U s (.branch subs value)) :=
    Assures.pure fun _ => ⟨rfl, below, Later.refl sound⟩
  rw [normalizeBranchNode, filled_items]
  simp only [Patricia.normalize]
  cases listed : Patricia.children subs with
  | nil =>
      cases value with
      | none =>
          obtain ⟨e, present⟩ := items.resolve_left Bool.false_ne_true
          have member := Patricia.mem_children.mpr present
          rw [listed] at member
          cases member
      | some v =>
          change Assures _ (lift (item (branchItems _ _) 16) >>= _) s _
          rw [item_branchItems_end, lift_ok]
          apply Assures.bind_ok (pure_run _ _)
          apply Assures.pure
          intro _
          exact ⟨rfl, trivial, Later.refl sound⟩
  | cons d more =>
      cases more with
      | nil =>
          cases value with
          | none =>
              have other : ¬ d.val = 16 := Nat.ne_of_lt d.isLt
              change Assures _ (if d.val = 16 then _ else _) s _
              rw [if_neg other]
              have present : subs d ≠ .blank := by
                apply Patricia.mem_children.mp
                rw [listed]
                exact List.mem_cons_self
              apply Assures.bind_ok (child_run free sound within (below d).1)
              exact mergePath_spec free sound [d] present (below d).2
          | some v => exact whole
      | cons e more => cases value <;> exact whole

theorem deleteBranch_spec {delete : Rlp → List Nat → EStateM PyExc (Store D) Rlp} {s : Store D}
    (sound : Sound U s) (within : Within U s) {subs : Fin 16 → Tree} {value : Option Value}
    (several : Patricia.Several subs value)
    (below : ∀ d, Stored (· ∈ s.puts) (subs d) ∧ Below (· ∈ s.puts) (subs d)) (key : Path)
    (inner : ∀ d rest, key = d :: rest → Assures (Within U)
      (delete (nodeOf (subs d)) (nibbles rest)) s (Yields U s ((subs d).delete rest))) :
    Assures (Within U) (deleteBranchNode delete (branchItems (fun d => reference (nodeOf (subs d)))
      (valueItem value)) (nibbles key)) s (Yields U s ((Patricia.branch subs value).delete key)) := by
  cases key with
  | nil =>
      change Assures _ (normalizeBranchNode ((branchItems _ _).set 16 (valueItem none))) s _
      rw [set_branchItems_end, Patricia.delete]
      exact normalizeBranchNode_spec free sound within (Or.inr several.1) below
  | cons d rest =>
      change Assures _ (lift (item (branchItems _ _) d) >>= _) s _
      rw [item_branchItems, lift_ok, Patricia.delete]
      apply Assures.bind_ok (pure_run _ _)
      apply Assures.bind_ok (decodeToNode_run free sound within (below d).1)
      apply assures_bind (fun newSub => Advances.bind (advances_encodeNode _) fun encoded =>
        Advances.ite (Advances.pure _) (Advances.ite (advances_normalizeBranchNode _)
          (Advances.pure _))) (inner d rest rfl)
      rintro x s' - ⟨rfl, inside, later⟩
      apply assures_bind (fun encoded => Advances.ite (Advances.pure _)
        (Advances.ite (advances_normalizeBranchNode _) (Advances.pure _)))
        (encodeNode_spec free later.2 _)
      rintro x s'' within ⟨rfl, stored, more⟩
      have all := later.trans more
      have below := below_update (fun e => ⟨all.stored (below e).1, all.below (below e).2⟩) d stored
        (more.below inside)
      rw [branch_update_items]
      generalize (subs d).delete rest = t at inside stored below ⊢
      by_cases gone : t = .blank
      · subst gone
        rw [nodeOf, reference_blank, if_pos rfl]
        split
        · rename_i same
          have absent := reference_eq_blank.mp same.symm
          rw [← absent, Function.update_eq_self] at below ⊢
          rw [Patricia.normalize_eq_branch several]
          apply Assures.pure
          intro _
          exact ⟨rfl, below, all⟩
        · have left : value.isSome ∨ ∃ e, Function.update subs d .blank e ≠ .blank := by
            rcases several.2 d with valued | ⟨e, other, filled⟩
            · exact Or.inl valued
            · exact Or.inr ⟨e, by rwa [Function.update_of_ne other]⟩
          apply (normalizeBranchNode_spec free more.2 within left below).mono
          rintro x u - ⟨node, below, last⟩
          exact ⟨node, below, all.trans last⟩
      · rw [Patricia.normalize_eq_branch (Patricia.several_update several d gone)]
        have kept : Yields U s (.branch (Function.update subs d t) value) (.list (branchItems
            (fun e => reference (nodeOf (Function.update subs d t e))) (valueItem value))) s'' :=
          ⟨rfl, below, all⟩
        split
        · rename_i same
          have items : (fun e => reference (nodeOf (Function.update subs d t e))) =
              fun e => reference (nodeOf (subs e)) := by
            funext e
            rw [Function.update_apply]
            split
            · rename_i here
              rw [same, here]
            · rfl
          rw [items] at kept
          exact Assures.pure fun _ => kept
        · rw [if_neg (mt reference_eq_blank.mp gone)]
          exact Assures.pure fun _ => kept

theorem deleteExtension_spec {delete : Rlp → List Nat → EStateM PyExc (Store D) Rlp} {s : Store D}
    (sound : Sound U s) (within : Within U s) (path : Path) {sub : Tree} (branch : sub.IsBranch)
    (held : Stored (· ∈ s.puts) sub) (below : Below (· ∈ s.puts) sub) (key : Path)
    (inner : ∀ rest, key = path ++ rest → Assures (Within U)
      (delete (nodeOf sub) (nibbles rest)) s (Yields U s (sub.delete rest))) :
    Assures (Within U) (deleteExtension delete (packNibbles (marked path false))
      (reference (nodeOf sub)) (nibbles key)) s
      (Yields U s ((Patricia.extension path sub).delete key)) := by
  rw [deleteExtension, currKey_packNibbles, lift_ok]
  apply Assures.bind_ok (pure_run _ _)
  rw [Patricia.delete]
  simp only [nibbles_prefix_iff]
  split
  · rename_i inside
    obtain ⟨rest, rfl⟩ := inside
    apply Assures.bind_ok (decodeToNode_run free sound within held)
    rw [nibbles_length, nibbles_drop, List.drop_left]
    apply assures_bind (fun newSub => Advances.bind (advances_encodeNode _) fun encoded =>
      Advances.ite (Advances.pure _) (Advances.ite (Advances.pure _) (advances_mergePath _ _)))
      (inner rest rfl)
    rintro x s' - ⟨rfl, newBelow, later⟩
    apply assures_bind (fun encoded => Advances.ite (Advances.pure _)
      (Advances.ite (Advances.pure _) (advances_mergePath _ _))) (encodeNode_spec free later.2 _)
    rintro x s'' within ⟨rfl, stored, more⟩
    have all := later.trans more
    generalize sub.delete rest = t at newBelow stored ⊢
    split
    · rename_i same
      -- the child is held by the same reference, so it is the same child
      have inside {t : Tree} (stored : Stored (· ∈ s''.puts) t) : Stored (· ∈ U) t :=
        stored.mono within.1
      have belowU {t : Tree} (below : Below (· ∈ s''.puts) t) : Below (· ∈ U) t :=
        below.mono within.1
      have nodes := reference_inj free (inside stored) (inside (all.stored held)) same
      have trees := nodeOf_inj free (belowU (more.below newBelow)) (belowU (all.below below)) nodes
      subst trees
      apply Assures.pure
      intro _
      cases t with
      | blank => exact branch.elim
      | leaf path value => exact branch.elim
      | extension path sub => exact branch.elim
      | branch subs value => exact ⟨rfl, ⟨stored, more.below newBelow⟩, all⟩
    · split
      · rename_i blank
        rw [nodeOf_eq_blank] at blank
        subst blank
        exact Assures.pure fun _ => ⟨rfl, trivial, all⟩
      · rename_i present
        apply (mergePath_spec free more.2 path (mt nodeOf_eq_blank.mpr present)
          (more.below newBelow)).mono
        rintro x u - ⟨node, below, last⟩
        exact ⟨node, below, all.trans last⟩
  · exact Assures.pure fun _ => ⟨rfl, ⟨held, below⟩, Later.refl sound⟩

theorem deleteNode_spec {s : Store D} (sound : Sound U s) {t : Tree} (normal : t.Normal)
    (below : Below (· ∈ s.puts) t) (key : Path) {depth : Nat} (deep : key.length < depth) :
    Assures (Within U) (deleteNode depth (nodeOf t) (nibbles key)) s
      (Yields U s (t.delete key)) := by
  intro ends
  have within : Within U s := Within.of_grows (advances_deleteNode _ _ _ s) ends
  revert ends
  change Assures _ _ _ _
  induction t generalizing key depth with
  | blank =>
      cases depth with
      | zero => omega
      | succ depth => exact Assures.pure fun _ => ⟨rfl, trivial, Later.refl sound⟩
  | leaf path old =>
      cases depth with
      | zero => omega
      | succ depth =>
          rw [deleteNode, getNodeType_nodeOf, lift_ok]
          apply Assures.bind_ok (pure_run _ _)
          simp only [treeType, currKey_packNibbles, lift_ok, Patricia.delete]
          apply Assures.bind_ok (pure_run _ _)
          simp only [nibbles_inj]
          split
          · exact Assures.pure fun _ => ⟨rfl, trivial, Later.refl sound⟩
          · exact Assures.pure fun _ => ⟨rfl, trivial, Later.refl sound⟩
  | extension path sub ih =>
      cases depth with
      | zero => omega
      | succ depth =>
          rw [deleteNode, getNodeType_nodeOf, lift_ok]
          apply Assures.bind_ok (pure_run _ _)
          apply deleteExtension_spec free sound within path normal.2.1 below.1 below.2 key
          rintro rest rfl
          apply ih normal.2.2 below.2
          have present := List.length_pos_of_ne_nil normal.1
          rw [List.length_append] at deep
          omega
  | branch subs old ih =>
      cases depth with
      | zero => omega
      | succ depth =>
          rw [deleteNode, getNodeType_nodeOf, lift_ok]
          apply Assures.bind_ok (pure_run _ _)
          apply deleteBranch_spec free sound within normal.1 below key
          rintro d rest rfl
          rw [List.length_cons] at deep
          exact ih d (normal.2 d) (below d).2 rest (by omega)

end IPchain.MerkleTrie
