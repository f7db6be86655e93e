import IPchain.Nodes
import IPchain.Lib.Assume

/-! A store that has the nodes of a tree, and what a lookup reads from it. -/

namespace IPchain.MerkleTrie

open Lib Platform

variable [Platform] {D : Type}

def Grows (s s' : Store D) : Prop := s.puts <:+ s'.puts

omit [Platform] in
theorem Grows.mem {s s' : Store D} (grows : Grows s s') {v : Bytes} (put : v ∈ s.puts) :
    v ∈ s'.puts := List.IsSuffix.mem put grows

instance : IsPreorder (Store D) Grows where
  refl s := List.suffix_refl s.puts
  trans _ _ _ first second := List.IsSuffix.trans first second

variable [Database D] [Archive D]

/-- Nothing was put that is not in `U`, and the database has room for it. -/
def Within (U : Set Bytes) (s : Store D) : Prop :=
  (∀ v ∈ s.puts, v ∈ U) ∧ Archive.Room D s.puts

def Sound (U : Set Bytes) (s : Store D) : Prop := Archive.Holds U s.puts s.db

def Later (U : Set Bytes) (s s' : Store D) : Prop := Grows s s' ∧ Sound U s'

theorem room_of_append {puts : List Bytes} (more : List Bytes)
    (room : Archive.Room D (more ++ puts)) : Archive.Room D puts := by
  induction more with
  | nil => exact room
  | cons v more ih => exact ih (Archive.room_of_cons room)

theorem Within.of_grows {U : Set Bytes} {s s' : Store D} (grows : Grows s s')
    (within : Within U s') : Within U s := by
  obtain ⟨more, same⟩ := grows
  obtain ⟨inside, room⟩ := within
  rw [← same] at inside room
  exact ⟨fun v put => inside v (List.mem_append_right _ put), room_of_append more room⟩

theorem assures_bind {α β : Type} {U : Set Bytes} {x : EStateM PyExc (Store D) α}
    {g : α → EStateM PyExc (Store D) β} {s : Store D} {Q : α → Store D → Prop}
    {T : β → Store D → Prop} (later : ∀ a, Advances Grows (g a))
    (first : Assures (Within U) x s Q)
    (next : ∀ a s', Within U s' → Q a s' → Assures (Within U) (g a) s' T) :
    Assures (Within U) (x >>= g) s T :=
  Assures.bind (fun _ _ => Within.of_grows) later first next

theorem Later.refl {U : Set Bytes} {s : Store D} (sound : Sound U s) : Later U s s :=
  ⟨List.suffix_refl _, sound⟩

theorem Later.trans {U : Set Bytes} {s s' s'' : Store D} (first : Later U s s')
    (second : Later U s' s'') : Later U s s'' := ⟨first.1.trans second.1, second.2⟩

theorem Later.below {U : Set Bytes} {s s' : Store D} (later : Later U s s') {t : Tree}
    (below : Below (· ∈ s.puts) t) : Below (· ∈ s'.puts) t := below.mono fun _ => later.1.mem

theorem Later.stored {U : Set Bytes} {s s' : Store D} (later : Later U s s') {t : Tree}
    (stored : Stored (· ∈ s.puts) t) : Stored (· ∈ s'.puts) t := stored.mono fun _ => later.1.mem

class Growth {D : Type} [Database D] (r : Store D → Store D → Prop) : Prop
    extends IsPreorder (Store D) r where
  store : ∀ data, Advances r (store data)

omit [Archive D] in
instance : Growth (Grows : Store D → Store D → Prop) where
  store data s := by
    rw [MerkleTrie.store]
    split
    · exact List.suffix_cons data s.puts
    · exact List.suffix_cons data s.puts

section Growth

omit [Archive D]

variable {r : Store D → Store D → Prop} [Growth r]

theorem advances_store (data : Bytes) : Advances r (store data : EStateM PyExc (Store D) Unit) :=
  Growth.store data

theorem advances_encodeNode (node : Rlp) :
    Advances r (encodeNode node : EStateM PyExc (Store D) Rlp) := by
  rw [encodeNode]
  apply Advances.ite
  · exact Advances.pure _
  · apply Advances.ite
    · exact Advances.pure _
    · exact Advances.bind (advances_store _) fun _ => Advances.pure _

theorem advances_fetch (key : Bytes) : Advances r (fetch key : EStateM PyExc (Store D) Bytes) := by
  intro s
  rw [fetch]
  split
  · exact refl_of r s
  · exact refl_of r s

variable [Decoder]

theorem advances_decodeToNode (encoded : Rlp) :
    Advances r (decodeToNode encoded : EStateM PyExc (Store D) Rlp) := by
  rw [decodeToNode.eq_def]
  split
  · exact Advances.pure _
  · exact Advances.pure _
  · exact Advances.bind (advances_fetch _) fun _ => Advances.lift _

theorem advances_child (items : List Rlp) (i : Nat) :
    Advances r (child items i : EStateM PyExc (Store D) Rlp) := by
  rw [child]
  exact Advances.bind (Advances.lift _) fun _ => advances_decodeToNode _

end Growth

theorem store_spec {U : Set Bytes} (free : CollisionFree U) {s : Store D} (sound : Sound U s)
    (data : Bytes) : Assures (Within U) (store data) s fun _ s' =>
      data ∈ s'.puts ∧ Later U s s' := by
  intro within
  have member : data ∈ U := by
    apply within.1
    rw [store]
    split <;> exact List.mem_cons_self
  have room : Archive.Room D (data :: s.puts) := by
    have room := within.2
    rw [store] at room
    split at room <;> exact room
  obtain ⟨db, run, holds⟩ := Archive.put_run free.injective sound member room
  refine ⟨(), ⟨db, data :: s.puts⟩, ?_, List.mem_cons_self, List.suffix_cons data s.puts, holds⟩
  rw [store, run]

theorem fetch_run {U : Set Bytes} {s : Store D} (sound : Sound U s) (within : Within U s)
    {data : Bytes} (put : data ∈ s.puts) : fetch (sha3 data) s = .ok data s := by
  rw [fetch, Archive.get_run sound put (within.1 data put)]

theorem encodeNode_spec {U : Set Bytes} (free : CollisionFree U) {s : Store D} (sound : Sound U s)
    (t : Tree) : Assures (Within U) (encodeNode (nodeOf t)) s fun x s' =>
      x = reference (nodeOf t) ∧ Stored (· ∈ s'.puts) t ∧ Later U s s' := by
  rw [encodeNode]
  split
  · rename_i blank
    rw [nodeOf_eq_blank] at blank
    subst blank
    apply Assures.pure
    intro _
    exact ⟨reference_blank.symm, fun long => absurd (show blankNode.encode.length < 32 by decide) long,
      Later.refl sound⟩
  · split
    · rename_i short
      apply Assures.pure
      intro _
      exact ⟨(reference_short short).symm, fun long => absurd short long, Later.refl sound⟩
    · rename_i long
      apply assures_bind (fun _ => Advances.pure _) (store_spec free sound _)
      rintro - s' - ⟨put, later⟩
      apply Assures.pure
      intro _
      exact ⟨(reference_long long).symm, fun _ => put, later⟩

variable [Decoder]

section Sound

variable {U : Set Bytes} (free : CollisionFree U) {s : Store D} (sound : Sound U s)
  (within : Within U s)

include free sound within

theorem decodeToNode_hash {x : Rlp} (put : x.encode ∈ s.puts) :
    decodeToNode (.bytes (sha3 x.encode)) s = .ok x s := by
  have fetched := fetch_run sound within put
  have decoded := Decoder.decode_encode x (free.short _ (within.1 _ put))
  have present := sha3_ne_nil x.encode
  revert fetched present
  generalize sha3 x.encode = key
  intro fetched present
  cases key with
  | nil => exact absurd rfl present
  | cons b key =>
      change (fetch (b :: key) >>= fun data => lift (Decoder.decode data)) s = _
      rw [bind_of_ok fetched, decoded]
      rfl

theorem decodeToNode_run {t : Tree} (stored : Stored (· ∈ s.puts) t) :
    decodeToNode (reference (nodeOf t)) s = .ok (nodeOf t) s := by
  by_cases short : (nodeOf t).encode.length < 32
  · rw [reference_short short]
    rcases nodeOf_cases t with blank | ⟨items, list⟩
    · rw [blank]
      rfl
    · rw [list]
      rfl
  · rw [reference_long short]
    exact decodeToNode_hash free sound within (stored short)

theorem child_run {subs : Fin 16 → Tree} {value : Rlp} {d : Fin 16}
    (stored : Stored (· ∈ s.puts) (subs d)) :
    child (branchItems (fun d => reference (nodeOf (subs d))) value) d s = .ok (nodeOf (subs d)) s := by
  rw [child, item_branchItems, lift_ok, bind_of_ok (pure_run _ _)]
  exact decodeToNode_run free sound within stored

theorem getNode_run {t : Tree} (normal : t.Normal) (below : Below (· ∈ s.puts) t) (key : Path)
    {depth : Nat} (deep : key.length < depth) :
    getNode depth (nodeOf t) (nibbles key) s = .ok (valueItem (t.get key)) s := by
  induction t generalizing key depth with
  | blank =>
      cases depth with
      | zero => omega
      | succ depth => rfl
  | leaf path value =>
      cases depth with
      | zero => omega
      | succ depth =>
          rw [getNode, getNodeType_nodeOf, lift_ok, bind_of_ok (pure_run _ _)]
          simp only [treeType, currKey_packNibbles, lift_ok, bind_of_ok (pure_run _ _), nibbles_inj,
            Patricia.get]
          split <;> rfl
  | extension path sub ih =>
      cases depth with
      | zero => omega
      | succ depth =>
          rw [getNode, getNodeType_nodeOf, lift_ok, bind_of_ok (pure_run _ _)]
          simp only [treeType, currKey_packNibbles, lift_ok, bind_of_ok (pure_run _ _),
            nibbles_prefix_iff, Patricia.get]
          split
          · rename_i inside
            rw [bind_of_ok (decodeToNode_run free sound within below.1), nibbles_length, nibbles_drop]
            apply ih normal.2.2 below.2
            have shared := inside.length_le
            have present := List.length_pos_of_ne_nil normal.1
            rw [List.length_drop]
            omega
          · rfl
  | branch subs value ih =>
      cases depth with
      | zero => omega
      | succ depth =>
          rw [getNode, getNodeType_nodeOf, lift_ok, bind_of_ok (pure_run _ _)]
          cases key with
          | nil =>
              change lift (item (branchItems _ _) 16) s = _
              rw [item_branchItems_end]
              rfl
          | cons d key =>
              change (child (branchItems _ _) d >>= fun sub => getNode depth sub (nibbles key)) s = _
              rw [bind_of_ok (child_run free sound within (below d).1)]
              apply ih d (normal.2 d) (below d).2
              rw [List.length_cons] at deep
              omega

end Sound

end IPchain.MerkleTrie
