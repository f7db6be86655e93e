import IPchain.Utils

/-! Root hashes of Merkle Patricia tries, from the rows of the trie. -/

namespace IPchain.Trie

def nibbles (key : Bytes) : List Nat := key.flatMap fun b => [b.toNat / 16, b.toNat % 16]

def pack : List Nat → Bytes
  | high :: low :: rest => UInt8.ofNat (16 * high + low) :: pack rest
  | _ => []

/-- The path of a leaf or of an extension, with the flag that tells them apart. -/
def packPath (path : List Nat) (flag : Nat) : Bytes :=
  if path.length % 2 = 1 then pack ((flag + 1) :: path) else pack (flag :: 0 :: path)

def commonPath : List (List Nat) → List Nat
  | [] => []
  | first :: rest => rest.foldl
      (fun path other => ((path.zip other).takeWhile fun pair => pair.1 = pair.2).map Prod.fst) first

section Hash

variable (hash : Bytes → Bytes)

def reference (node : Rlp) : Rlp :=
  if node.encode.length < 32 then node else .bytes (hash node.encode)

/-- The node that holds the given rows: a blank, a leaf, a branch or an extension. -/
def node : Nat → List (List Nat × Bytes) → Rlp
  | 0, _ => .bytes []
  | _, [] => .bytes []
  | _, [(path, value)] => .list [.bytes (packPath path 2), .bytes value]
  | depth + 1, rows =>
      let shared := commonPath (rows.map Prod.fst)
      if shared = [] then
        let child (digit : Nat) := rows.filterMap fun row =>
          if row.1.head? = some digit then some (row.1.tail, row.2) else none
        let here := (rows.find? fun row => row.1 = []).map Prod.snd
        .list ((List.range 16).map (fun digit => reference hash (node depth (child digit))) ++
          [.bytes (here.getD [])])
      else
        let below := rows.map fun row => (row.1.drop shared.length, row.2)
        .list [.bytes (packPath shared 0), reference hash (node depth below)]

def rootHash (rows : List (Bytes × Bytes)) : Bytes :=
  let paths := rows.map fun row => (nibbles row.1, row.2)
  let depth := 2 * (paths.map fun row => row.1.length).sum + 2
  hash (node hash depth paths).encode

end Hash

end IPchain.Trie
