import IPchain.Database
import IPchain.Parser
import IPchain.Trie
import IPchain.Lib.Dict

/-! The Merkle Patricia trie of trie.py.

A node is an rlp item: blank, a pair of a packed path and a value or a child, or a list of
sixteen children and a value. A child is held by its hash unless its encoding is shorter than
that. The source changes nodes in place; nobody else holds the nodes it changes, so a changed
node is a new one here. The hashes of replaced nodes are collected in `deletes`, which nothing
reads: no node is ever removed from the database. -/

namespace IPchain

open Lib Platform

mutual

def Rlp.decEq : (x y : Rlp) → Decidable (x = y)
  | .bytes b, .bytes c => decidable_of_iff (b = c) (by rw [Rlp.bytes.injEq])
  | .list xs, .list ys =>
      match Rlp.decEqList xs ys with
      | .isTrue same => .isTrue (congrArg Rlp.list same)
      | .isFalse differ => .isFalse fun same => differ (Rlp.list.inj same)
  | .bytes _, .list _ => .isFalse (by simp)
  | .list _, .bytes _ => .isFalse (by simp)

def Rlp.decEqList : (xs ys : List Rlp) → Decidable (xs = ys)
  | [], [] => .isTrue rfl
  | [], _ :: _ => .isFalse (by simp)
  | _ :: _, [] => .isFalse (by simp)
  | x :: xs, y :: ys =>
      match Rlp.decEq x y, Rlp.decEqList xs ys with
      | .isTrue first, .isTrue rest => .isTrue (by rw [first, rest])
      | .isFalse differ, _ => .isFalse fun same => differ (List.cons.inj same).1
      | _, .isFalse differ => .isFalse fun same => differ (List.cons.inj same).2

end

instance : DecidableEq Rlp := Rlp.decEq

class Decoder where
  decode : Bytes → Except PyExc Rlp
  decode_encode : ∀ x : Rlp, x.encode.length < 2 ^ 64 → decode x.encode = .ok x

/-- A database with everything that was put into it under its hash, the last first. Only the
statements read the list. -/
structure Store (D : Type) where
  db : D
  puts : List Bytes

structure MerkleTrie (D : Type) extends Store D where
  rootNode : Rlp
  rootHash : Bytes

namespace MerkleTrie

def nibbleTerminator : Nat := 16

def binToNibbles (s : Bytes) : List Nat := Trie.nibbles s

def nibblesToBin (nibbles : List Int) : Except PyExc Bytes :=
  if nibbles.any fun x => 15 < x ∨ x < 0 then
    .error ⟨.exception, "nibbles can only be [0,..15]"⟩
  else if nibbles.length % 2 = 1 then .error ⟨.exception, "nibbles must be of even numbers"⟩
  else .ok (Trie.pack (nibbles.map Int.toNat))

def hasTerminator (nibbles : List Nat) : Bool := nibbles.getLast? = some nibbleTerminator

def withTerminator (nibbles : List Nat) : List Nat :=
  if hasTerminator nibbles then nibbles else nibbles ++ [nibbleTerminator]

def withoutTerminator (nibbles : List Nat) : List Nat :=
  if hasTerminator nibbles then nibbles.dropLast else nibbles

def adaptTerminator (nibbles : List Nat) (terminated : Bool) : List Nat :=
  if terminated then withTerminator nibbles else withoutTerminator nibbles

def packNibbles (nibbles : List Nat) : Bytes :=
  let flags := if hasTerminator nibbles then 2 else 0
  let nibbles := withoutTerminator nibbles
  let oddlen := nibbles.length % 2
  if oddlen = 1 then Trie.pack ((flags ||| oddlen) :: nibbles) else Trie.pack (flags :: 0 :: nibbles)

def unpackToNibbles (bindata : Bytes) : Except PyExc (List Nat) :=
  match binToNibbles bindata with
  | [] => .error ⟨.indexError, "list index out of range"⟩
  | flags :: rest =>
      let o := if flags &&& 2 ≠ 0 then flags :: rest ++ [nibbleTerminator] else flags :: rest
      .ok (if flags &&& 1 = 1 then o.drop 1 else o.drop 2)

def prefixLength : List Nat → List Nat → Nat
  | a :: l, b :: r => if a = b then prefixLength l r + 1 else 0
  | _, _ => 0

def blankNode : Rlp := .bytes []

inductive NodeType where
  | blank
  | leaf (path : Bytes) (value : Rlp)
  | extension (path : Bytes) (child : Rlp)
  | branch (items : List Rlp)

/-- The type with what a node of that type is made of. No node has another shape. -/
def getNodeType : Rlp → Except PyExc NodeType
  | .bytes [] => .ok .blank
  | .list [.bytes path, item] => do
      let nibbles ← unpackToNibbles path
      if hasTerminator nibbles then return .leaf path item else return .extension path item
  | .list items => if items.length = 17 then .ok (.branch items) else .error ⟨.typeError, ""⟩
  | .bytes _ => .error ⟨.typeError, ""⟩

/-- `without_terminator(unpack_to_nibbles(path))`. -/
def currKey (path : Bytes) : Except PyExc (List Nat) := withoutTerminator <$> unpackToNibbles path

def item (items : List Rlp) (i : Nat) : Except PyExc Rlp :=
  match items[i]? with
  | some x => .ok x
  | none => .error ⟨.indexError, "list index out of range"⟩

def filled : Rlp → Bool
  | .bytes b => b ≠ []
  | .list items => items ≠ []

def kvNode (nibbles : List Nat) (item : Rlp) : Rlp := .list [.bytes (packNibbles nibbles), item]

def tooDeep : PyExc := ⟨.runtimeError, "maximum recursion depth exceeded"⟩

section Nodes

variable [Platform] [Decoder] {D : Type} [Database D]

def blankRoot : Bytes := sha3 blankNode.encode

def store (data : Bytes) : EStateM PyExc (Store D) Unit := fun s =>
  match Database.put s.db (sha3 data) data with
  | .ok db => .ok () ⟨db, data :: s.puts⟩
  | .error e => .error e ⟨s.db, data :: s.puts⟩

def fetch (key : Bytes) : EStateM PyExc (Store D) Bytes := fun s =>
  match Database.get s.db key with
  | .ok data => .ok data s
  | .error e => .error e s

def encodeNode (node : Rlp) : EStateM PyExc (Store D) Rlp :=
  if node = blankNode then pure blankNode
  else if node.encode.length < 32 then pure node
  else do
    store node.encode
    return .bytes (sha3 node.encode)

def decodeToNode : Rlp → EStateM PyExc (Store D) Rlp
  | .bytes [] => pure blankNode
  | .list items => pure (.list items)
  | .bytes key => do
      let data ← fetch key
      lift (Decoder.decode data)

def child (items : List Rlp) (i : Nat) : EStateM PyExc (Store D) Rlp := do
  let encoded ← lift (item items i)
  decodeToNode encoded

/-- `_get`. The source has no bound on the recursion but the one of the interpreter. -/
def getNode : Nat → Rlp → List Nat → EStateM PyExc (Store D) Rlp
  | 0, _, _ => raised tooDeep
  | depth + 1, node, key => do
      match ← lift (getNodeType node) with
      | .blank => pure blankNode
      | .branch items =>
          match key with
          | [] => lift (item items 16)
          | d :: rest => do
              let sub ← child items d
              getNode depth sub rest
      | .leaf path value => do
          let curr ← lift (currKey path)
          return if key = curr then value else blankNode
      | .extension path sub => do
          let curr ← lift (currKey path)
          if curr <+: key then do
            let sub ← decodeToNode sub
            getNode depth sub (key.drop curr.length)
          else pure blankNode

def blankBranch : List Rlp := List.replicate 17 blankNode

/-- The end of `_update_kv_node`: the new node below the nibbles that both keys share. -/
def belowPrefix (shared : List Nat) (newNode : Rlp) : EStateM PyExc (Store D) Rlp :=
  if shared = [] then pure newNode
  else do
    let encoded ← encodeNode newNode
    return kvNode shared encoded

def placeValue (newNode : List Rlp) (value : Bytes) :
    List Nat → EStateM PyExc (Store D) (List Rlp)
  | [] => pure (newNode.set 16 (.bytes value))
  | d :: rest => do
      let encoded ← encodeNode (kvNode (withTerminator rest) (.bytes value))
      return newNode.set d encoded

/-- What the old key had, as a child of a branch that it shares with the new one. -/
def moveItem (isInner : Bool) (more : List Nat) (old : Rlp) : EStateM PyExc (Store D) Rlp :=
  if more = [] ∧ isInner then pure old
  else encodeNode (kvNode (adaptTerminator more (!isInner)) old)

/-- `update` is the call of `_update` for the child. -/
def updateKvNode (update : Rlp → List Nat → Bytes → EStateM PyExc (Store D) Rlp) (isInner : Bool)
    (path : Bytes) (old : Rlp) (key : List Nat) (value : Bytes) : EStateM PyExc (Store D) Rlp := do
  let curr ← lift (currKey path)
  let shared := prefixLength curr key
  match curr.drop shared, key.drop shared with
  | [], remainKey =>
      if isInner then do
        let sub ← decodeToNode old
        let newNode ← update sub remainKey value
        belowPrefix (curr.take shared) newNode
      else if remainKey = [] then pure (.list [.bytes path, .bytes value])
      else do
        let newNode ← placeValue (blankBranch.set 16 old) value remainKey
        belowPrefix (curr.take shared) (.list newNode)
  | d :: more, remainKey => do
      let moved ← moveItem isInner more old
      let newNode ← placeValue (blankBranch.set d moved) value remainKey
      belowPrefix (curr.take shared) (.list newNode)

def updateNode : Nat → Rlp → List Nat → Bytes → EStateM PyExc (Store D) Rlp
  | 0, _, _, _ => raised tooDeep
  | depth + 1, node, key, value => do
      match ← lift (getNodeType node) with
      | .blank => pure (kvNode (withTerminator key) (.bytes value))
      | .branch items =>
          match key with
          | [] => pure (.list (items.set 16 (.bytes value)))
          | d :: rest => do
              let sub ← child items d
              let newNode ← updateNode depth sub rest value
              let encoded ← encodeNode newNode
              return .list (items.set d encoded)
      | .leaf path old => updateKvNode (updateNode depth) false path old key value
      | .extension path sub => updateKvNode (updateNode depth) true path sub key value

/-- A node below `above`, merged with it where it has a path of its own. -/
def mergePath (above : List Nat) (node : Rlp) : EStateM PyExc (Store D) Rlp := do
  match ← lift (getNodeType node) with
  | .blank => raised ⟨.assertionError, ""⟩
  | .leaf path item | .extension path item => do
      let nibbles ← lift (unpackToNibbles path)
      return kvNode (above ++ nibbles) item
  | .branch _ => do
      let encoded ← encodeNode node
      return kvNode above encoded

def normalizeBranchNode (items : List Rlp) : EStateM PyExc (Store D) Rlp :=
  match (List.range 17).filter fun i => (items[i]?.map filled).getD false with
  | [] => raised ⟨.assertionError, ""⟩
  | [i] =>
      if i = 16 then do
        let value ← lift (item items 16)
        return kvNode (withTerminator []) value
      else do
        let sub ← child items i
        mergePath [i] sub
  | _ => pure (.list items)

def deleteBranchNode (delete : Rlp → List Nat → EStateM PyExc (Store D) Rlp)
    (items : List Rlp) : List Nat → EStateM PyExc (Store D) Rlp
  | [] => normalizeBranchNode (items.set 16 blankNode)
  | d :: rest => do
      let old ← lift (item items d)
      let sub ← decodeToNode old
      let newSub ← delete sub rest
      let encoded ← encodeNode newSub
      if encoded = old then pure (.list items)
      else if encoded = blankNode then normalizeBranchNode (items.set d encoded)
      else pure (.list (items.set d encoded))

/-- The part of `_delete_kv_node` for an extension. -/
def deleteExtension (delete : Rlp → List Nat → EStateM PyExc (Store D) Rlp) (path : Bytes)
    (old : Rlp) (key : List Nat) : EStateM PyExc (Store D) Rlp := do
  let curr ← lift (currKey path)
  if curr <+: key then do
    let sub ← decodeToNode old
    let newSub ← delete sub (key.drop curr.length)
    let encoded ← encodeNode newSub
    if encoded = old then pure (.list [.bytes path, old])
    else if newSub = blankNode then pure blankNode
    else mergePath curr newSub
  else pure (.list [.bytes path, old])

def deleteNode : Nat → Rlp → List Nat → EStateM PyExc (Store D) Rlp
  | 0, _, _ => raised tooDeep
  | depth + 1, node, key => do
      match ← lift (getNodeType node) with
      | .blank => pure blankNode
      | .branch items => deleteBranchNode (deleteNode depth) items key
      | .leaf path _ => do
          let curr ← lift (currKey path)
          return if key = curr then blankNode else node
      | .extension path old => deleteExtension (deleteNode depth) path old key

def getSize : Nat → Rlp → EStateM PyExc (Store D) Nat
  | 0, _ => raised tooDeep
  | depth + 1, node => do
      match ← lift (getNodeType node) with
      | .blank => pure 0
      | .leaf _ _ => pure 1
      | .extension _ sub => do
          let sub ← decodeToNode sub
          getSize depth sub
      | .branch items => do
          let sizes ← (List.range 16).mapM fun i => do
            let sub ← child items i
            getSize depth sub
          let value ← lift (item items 16)
          return sizes.sum + if filled value then 1 else 0

def plus : UInt8 := 43

def nibbleString (x : Nat) : Bytes := strOfInt x

def joinNibbles (nibbles : List Nat) : Bytes := [plus].intercalate (nibbles.map nibbleString)

/-- `(key + b'+' + sub_key).strip(b'+')` -/
def fullKey (key subKey : Bytes) : Bytes :=
  (((key ++ plus :: subKey).dropWhile (· = plus)).reverse.dropWhile (· = plus)).reverse

def terminatorKey : Bytes := nibbleString nibbleTerminator

def iterNode : Nat → Rlp → EStateM PyExc (Store D) (List (Bytes × Rlp))
  | 0, _ => raised tooDeep
  | depth + 1, node => do
      match ← lift (getNodeType node) with
      | .blank => pure []
      | .leaf path value => do
          let curr ← lift (currKey path)
          return [(fullKey (joinNibbles curr) terminatorKey, value)]
      | .extension path sub => do
          let curr ← lift (currKey path)
          let sub ← decodeToNode sub
          let subTree ← iterNode depth sub
          return subTree.map fun row => (fullKey (joinNibbles curr) row.1, row.2)
      | .branch items => do
          let subTrees ← (List.range 16).mapM fun i => do
            let sub ← child items i
            let subTree ← iterNode depth sub
            return subTree.map fun row => (fullKey (nibbleString i) row.1, row.2)
          let value ← lift (item items 16)
          return subTrees.flatten ++ if filled value then [(terminatorKey, value)] else []

abbrev Rows := AList fun _ : Bytes => Rlp

/-- `for sub_key, sub_value in sub_dict.items(): res[full_key] = sub_value` -/
def addRows (key : Bytes) (res subDict : Rows) : Rows :=
  Dict.update res (subDict.entries.map fun row => (fullKey key row.1, row.2))

def dictNode : Nat → Rlp → EStateM PyExc (Store D) Rows
  | 0, _ => raised tooDeep
  | depth + 1, node => do
      match ← lift (getNodeType node) with
      | .blank => pure ∅
      | .leaf path value => do
          let curr ← lift (currKey path)
          return addRows (joinNibbles curr) ∅ (AList.insert terminatorKey value ∅)
      | .extension path sub => do
          let curr ← lift (currKey path)
          let sub ← decodeToNode sub
          let subDict ← dictNode depth sub
          return addRows (joinNibbles curr) ∅ subDict
      | .branch items => do
          let res ← (List.range 16).foldlM (fun res i => do
            let sub ← child items i
            let subDict ← dictNode depth sub
            return addRows (nibbleString i) res subDict) ∅
          let value ← lift (item items 16)
          return if filled value then res.insert terminatorKey value else res

def keyOfString (keyStr : Bytes) : Except PyExc Bytes := do
  let nibbles ← if keyStr = [] then pure [] else (keyStr.splitOn plus).mapM parseInt
  nibblesToBin (if nibbles.getLast? = some (nibbleTerminator : Int) then nibbles.dropLast else nibbles)

end Nodes

section Tries

variable [Platform] [Decoder] {D : Type} [Database D]

def reading {α : Type} (read : Rlp → EStateM PyExc (Store D) α) : EStateM PyExc (MerkleTrie D) α :=
  fun t =>
    match read t.rootNode t.toStore with
    | .ok a s => .ok a { t with toStore := s }
    | .error e s => .error e { t with toStore := s }

def updateRootHash : EStateM PyExc (MerkleTrie D) Unit := fun t =>
  match store t.rootNode.encode t.toStore with
  | .ok _ s => .ok () { t with toStore := s, rootHash := sha3 t.rootNode.encode }
  | .error e s => .error e { t with toStore := s }

/-- The root node is replaced by what `edit` makes of it, and its hash is updated. -/
def editing (edit : Rlp → EStateM PyExc (Store D) Rlp) : EStateM PyExc (MerkleTrie D) Unit := do
  let node ← reading edit
  modify fun t => { t with rootNode := node }
  updateRootHash

def setRootHash (rootHash : Bytes) : EStateM PyExc (MerkleTrie D) Unit := fun t =>
  if rootHash.length ≠ 0 ∧ rootHash.length ≠ 32 then .error ⟨.assertionError, ""⟩ t
  else if rootHash = blankRoot then .ok () { t with rootNode := blankNode, rootHash := blankRoot }
  else
    match decodeToNode (.bytes rootHash) t.toStore with
    | .ok node s => .ok () ⟨s, node, rootHash⟩
    | .error e s => .error e { t with toStore := s }

def new (s : Store D) (rootHash : Bytes) : EStateM.Result PyExc (MerkleTrie D) Unit :=
  setRootHash rootHash ⟨s, blankNode, []⟩

def blank (s : Store D) : MerkleTrie D := ⟨s, blankNode, blankRoot⟩

def get (key : Bytes) : EStateM PyExc (MerkleTrie D) Rlp :=
  let nibbles := binToNibbles key
  reading fun root => getNode (nibbles.length + 1) root nibbles

def update (key value : Bytes) : EStateM PyExc (MerkleTrie D) Unit :=
  let nibbles := binToNibbles key
  editing fun root => updateNode (nibbles.length + 1) root nibbles value

def delete (key : Bytes) : EStateM PyExc (MerkleTrie D) Unit :=
  if 32 < key.length then raised ⟨.exception, "Max key length is 32"⟩
  else
    let nibbles := binToNibbles key
    editing fun root => deleteNode (nibbles.length + 1) root nibbles

def size (depth : Nat) : EStateM PyExc (MerkleTrie D) Nat := reading (getSize depth)

def iterBranch (depth : Nat) : EStateM PyExc (MerkleTrie D) (List (Bytes × Rlp)) := do
  let rows ← reading (iterNode depth)
  rows.mapM fun row => do
    let key ← lift (keyOfString row.1)
    return (key, row.2)

def toDict (depth : Nat) : EStateM PyExc (MerkleTrie D) Rows := do
  let d ← reading (dictNode depth)
  d.entries.foldlM (fun res row => do
    let key ← lift (keyOfString row.1)
    return res.insert key row.2) ∅

end Tries

end MerkleTrie

end IPchain
