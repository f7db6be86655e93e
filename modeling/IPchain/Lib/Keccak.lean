import Mathlib.Algebra.Group.Nat.Defs
import Mathlib.Data.List.Basic

/-! The hash function keccak-256, on lanes that are natural numbers below 2 ^ 64. -/

namespace IPchain.Lib.Keccak

def lane : Nat := 2 ^ 64

def rotate (x n : Nat) : Nat := (x <<< n) % lane ||| x >>> (64 - n)

structure Row where
  x0 : Nat
  x1 : Nat
  x2 : Nat
  x3 : Nat
  x4 : Nat

structure Lanes where
  y0 : Row
  y1 : Row
  y2 : Row
  y3 : Row
  y4 : Row

def roundConstants : List Nat :=
  [0x0000000000000001, 0x0000000000008082, 0x800000000000808a, 0x8000000080008000,
    0x000000000000808b, 0x0000000080000001, 0x8000000080008081, 0x8000000000008009,
    0x000000000000008a, 0x0000000000000088, 0x0000000080008009, 0x000000008000000a,
    0x000000008000808b, 0x800000000000008b, 0x8000000000008089, 0x8000000000008003,
    0x8000000000008002, 0x8000000000000080, 0x000000000000800a, 0x800000008000000a,
    0x8000000080008081, 0x8000000000008080, 0x0000000080000001, 0x8000000080008008]

def Row.xor (a b : Row) : Row :=
  ⟨a.x0 ^^^ b.x0, a.x1 ^^^ b.x1, a.x2 ^^^ b.x2, a.x3 ^^^ b.x3, a.x4 ^^^ b.x4⟩

def theta (a : Lanes) : Lanes :=
  let c := a.y0.xor (a.y1.xor (a.y2.xor (a.y3.xor a.y4)))
  let d : Row := ⟨c.x4 ^^^ rotate c.x1 1, c.x0 ^^^ rotate c.x2 1, c.x1 ^^^ rotate c.x3 1,
    c.x2 ^^^ rotate c.x4 1, c.x3 ^^^ rotate c.x0 1⟩
  ⟨a.y0.xor d, a.y1.xor d, a.y2.xor d, a.y3.xor d, a.y4.xor d⟩

/-- The steps rho and pi: the lane of column `x + 3y` and row `x` moves to column `x` and row `y`. -/
def rhoPi (a : Lanes) : Lanes where
  y0 := ⟨rotate a.y0.x0 0, rotate a.y1.x1 44, rotate a.y2.x2 43, rotate a.y3.x3 21,
    rotate a.y4.x4 14⟩
  y1 := ⟨rotate a.y0.x3 28, rotate a.y1.x4 20, rotate a.y2.x0 3, rotate a.y3.x1 45,
    rotate a.y4.x2 61⟩
  y2 := ⟨rotate a.y0.x1 1, rotate a.y1.x2 6, rotate a.y2.x3 25, rotate a.y3.x4 8,
    rotate a.y4.x0 18⟩
  y3 := ⟨rotate a.y0.x4 27, rotate a.y1.x0 36, rotate a.y2.x1 10, rotate a.y3.x2 15,
    rotate a.y4.x3 56⟩
  y4 := ⟨rotate a.y0.x2 62, rotate a.y1.x3 55, rotate a.y2.x4 39, rotate a.y3.x0 41,
    rotate a.y4.x1 2⟩

def Row.chi (b : Row) : Row :=
  ⟨b.x0 ^^^ ((lane - 1 - b.x1) &&& b.x2), b.x1 ^^^ ((lane - 1 - b.x2) &&& b.x3),
    b.x2 ^^^ ((lane - 1 - b.x3) &&& b.x4), b.x3 ^^^ ((lane - 1 - b.x4) &&& b.x0),
    b.x4 ^^^ ((lane - 1 - b.x0) &&& b.x1)⟩

def chi (b : Lanes) : Lanes := ⟨b.y0.chi, b.y1.chi, b.y2.chi, b.y3.chi, b.y4.chi⟩

def iota (constant : Nat) (a : Lanes) : Lanes :=
  { a with y0 := { a.y0 with x0 := a.y0.x0 ^^^ constant } }

def permute (a : Lanes) : Lanes :=
  roundConstants.foldl (fun a constant => iota constant (chi (rhoPi (theta a)))) a

def laneAt (block : List UInt8) (i : Nat) : Nat :=
  ((block.drop (8 * i)).take 8).foldr (fun byte value => byte.toNat + 256 * value) 0

def rowAt (block : List UInt8) (i : Nat) : Row :=
  ⟨laneAt block i, laneAt block (i + 1), laneAt block (i + 2), laneAt block (i + 3),
    laneAt block (i + 4)⟩

def rate : Nat := 136

/-- The padding is one bit, zeros, and one bit at the end of the last block. -/
def pad (data : List UInt8) : List UInt8 :=
  let missing := rate - data.length % rate
  if missing = 1 then data ++ [0x81]
  else data ++ 0x01 :: List.replicate (missing - 2) 0 ++ [0x80]

def absorb : Nat → Lanes → List UInt8 → Lanes
  | 0, a, _ => a
  | n + 1, a, data =>
      let block := data.take rate
      let mixed : Lanes := ⟨a.y0.xor (rowAt block 0), a.y1.xor (rowAt block 5),
        a.y2.xor (rowAt block 10), a.y3.xor (rowAt block 15), a.y4⟩
      absorb n (permute mixed) (data.drop rate)

def laneBytes (value : Nat) : List UInt8 :=
  (List.range 8).map fun i => UInt8.ofNat (value / 256 ^ i)

def zeros : Lanes :=
  let row : Row := ⟨0, 0, 0, 0, 0⟩
  ⟨row, row, row, row, row⟩

def keccak256 (data : List UInt8) : List UInt8 :=
  let padded := pad data
  let a := absorb (padded.length / rate) zeros padded
  [a.y0.x0, a.y0.x1, a.y0.x2, a.y0.x3].flatMap laneBytes

theorem keccak256_length (data : List UInt8) : (keccak256 data).length = 32 := by
  simp [keccak256, laneBytes]

example : (keccak256 []).take 4 = [0xc5, 0xd2, 0x46, 0x01] := by decide +kernel

end IPchain.Lib.Keccak
