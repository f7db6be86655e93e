import IPchain.Transactions
import IPchain.Lib.Program

/-! The parser of transaction files: one line sets one field, and an `end` line closes a record.

A handler that raises keeps what it wrote into the shared buffer before. -/

namespace IPchain

open Lib Platform

def text (chars : List Char) : Bytes := chars.map fun c => UInt8.ofNat c.toNat

def isSpace (b : UInt8) : Bool := b = 32 || 9 ≤ b && b ≤ 13

def isDigit (b : UInt8) : Bool := 48 ≤ b && b ≤ 57

def stripSpaces (data : Bytes) : Bytes :=
  ((data.dropWhile isSpace).reverse.dropWhile isSpace).reverse

def digitsToNat (data : Bytes) : Option Nat :=
  if data ≠ [] ∧ data.all isDigit then
    some (data.foldl (fun n b => 10 * n + (b.toNat - 48)) 0)
  else none

/-- `int(data)`: a decimal number, perhaps with a sign, and with spaces around it or after the
sign. -/
def parseInt (data : Bytes) : Except PyExc Int :=
  let number := match stripSpaces data with
    | 43 :: digits => (digitsToNat (digits.dropWhile isSpace)).map Int.ofNat
    | 45 :: digits => (digitsToNat (digits.dropWhile isSpace)).map fun n => -(n : Int)
    | digits => (digitsToNat digits).map Int.ofNat
  match number with
  | some n => .ok n
  | none => .error ⟨.valueError, "invalid literal for int() with base 10"⟩

structure DataBuffer where
  category : Option Int
  toAddr : Option Address
  afi : Option Int
  frm : Option Address
  value : Option Bytes
  metadata : Option RawMetadata

namespace DataBuffer

def empty : DataBuffer := ⟨none, none, none, none, none, none⟩

def complete (b : DataBuffer) : Bool :=
  b.afi.isSome && b.category.isSome && b.value.isSome && b.toAddr.isSome && b.frm.isSome

def filled (b : DataBuffer) : DataBuffer :=
  { b with metadata := some (b.metadata.getD (.bytes [])) }

end DataBuffer

abbrev Handler := Bytes → EStateM PyExc DataBuffer Unit

structure Parser where
  transactions : List DataBuffer

namespace Parser

def readCategory (data : Bytes) : Except PyExc Int := do
  let category ← parseInt data
  if category < 0 ∨ 3 < category then .error ⟨.exception, "Wrong category"⟩ else pure category

def readAfi (data : Bytes) : Except PyExc Int := do
  let afi ← parseInt data
  if afi ≠ 1 ∧ afi ≠ 2 then .error ⟨.exception, "Wrong AFI"⟩ else pure afi

variable [Platform]

def readAddress (data : Bytes) : Except PyExc Address := normalizeAddress (.bytes data)

omit [Platform] in
def assign {α : Type} (read : Bytes → Except PyExc α) (set : DataBuffer → α → DataBuffer) : Handler :=
  fun data => do
    let a ← lift (read data)
    modify fun b => set b a

def category : Handler := assign readCategory fun b c => { b with category := some c }

def toAddr : Handler := assign readAddress fun b a => { b with toAddr := some a }

def afi : Handler := assign readAfi fun b n => { b with afi := some n }

def value : Handler := assign .ok fun b v => { b with value := some v }

def frm : Handler := assign readAddress fun b a => { b with frm := some a }

def append (item : Item) : EStateM PyExc DataBuffer Unit :=
  modify fun b => { b with
    metadata := match b.metadata with
      | some (.list items) => some (.list (items ++ [item]))
      | other => other }

def appendLocation (afi ip : Bytes) : EStateM PyExc DataBuffer Unit := do
  let n ← lift (parseInt afi)
  append (.int n)
  if n = 1 ∨ n = 2 then append (.bytes ip)
  else raised ⟨.exception, "Incorrect AFI in metadata"⟩

def appendMapServers : List Bytes → EStateM PyExc DataBuffer Unit
  | afi :: ip :: address :: rest => do
      appendLocation afi ip
      let address ← lift (readAddress address)
      append (.bytes address.bytes)
      appendMapServers rest
  | _ => pure ()

omit [Platform] in
/-- The attribute that is looked up for the priority is written `appned`. -/
def appendLocators : List Bytes → EStateM PyExc DataBuffer Unit
  | afi :: ip :: _ :: _ :: _ => do
      appendLocation afi ip
      raised ⟨.attributeError, "'list' object has no attribute 'appned'"⟩
  | _ => pure ()

def metadata : Handler := fun line => do
  modify fun b => { b with metadata := some (.list []) }
  let data := line.splitOn 44
  match (← get).category with
  | none => raised ⟨.keyError, "category"⟩
  | some 2 =>
      if data.length % 3 ≠ 0 then
        raised ⟨.exception, "metadata of a transaction with category 2 is not multiple of 3"⟩
      else appendMapServers data
  | some 3 =>
      if data.length % 4 ≠ 0 then
        raised ⟨.exception, "metadata of a transaction with category 3 is not multiple of 4"⟩
      else appendLocators data
  | some _ => raised ⟨.exception, "Category not yet defined"⟩

def typesDir (type : Bytes) : Option Handler :=
  if type = text ['c', 'a', 't', 'e', 'g', 'o', 'r', 'y'] then some category
  else if type = text ['t', 'o'] then some toAddr
  else if type = text ['f', 'r', 'o', 'm'] then some frm
  else if type = text ['a', 'f', 'i'] then some afi
  else if type = text ['v', 'a', 'l', 'u', 'e'] then some value
  else if type = text ['m', 'e', 't', 'a', 'd', 'a', 't', 'a'] then some metadata
  else none

def fileLines (file : Bytes) : List Bytes :=
  let lines := file.splitOn 10
  if lines.getLast? = some [] then lines.dropLast else lines

/-- One turn of the loop over the lines: the record that is being read, and those read before. An
exception of a handler is logged only. -/
def readLine (line : Bytes) (s : DataBuffer × List DataBuffer) :
    Except PyExc (DataBuffer × List DataBuffer) :=
  match line.splitOn 59 with
  | [type, content] =>
      if type = text ['e', 'n', 'd'] then
        .ok (.empty, if s.1.complete then s.2 ++ [s.1.filled] else s.2)
      else
        match typesDir type with
        | some handler => .ok (finish (handler content s.1), s.2)
        | none => .ok s
  | [_] => .error ⟨.valueError, "need more than 1 value to unpack"⟩
  | _ => .error ⟨.valueError, "too many values to unpack"⟩

def readLines : List Bytes → DataBuffer × List DataBuffer →
    Except PyExc (DataBuffer × List DataBuffer)
  | [], s => .ok s
  | line :: rest, s => do
      let s ← readLine line s
      readLines rest s

def readTransactions (file : Bytes) (p : Parser) : Except PyExc Parser := do
  let (_, buffers) ← readLines (fileLines file) (.empty, [])
  pure ⟨p.transactions ++ buffers⟩

def new : Parser := ⟨[]⟩

omit [Platform] in
def getTx (p : Parser) : Option DataBuffer × Parser :=
  match p.transactions with
  | [] => (none, p)
  | tx :: rest => (some tx, ⟨rest⟩)

/-- The results of so many calls of `get_tx`, one after another. -/
def getTxs : Nat → Parser → List (Option DataBuffer)
  | 0, _ => []
  | n + 1, p => p.getTx.1 :: getTxs n p.getTx.2

end Parser

end IPchain
