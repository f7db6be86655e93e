import Mathlib.Algebra.Group.Nat.Defs
import Mathlib.Data.List.Basic

/-! The hash function SHA-256, on words that are natural numbers below 2 ^ 32. -/

namespace IPchain.Lib.Sha256

def word : Nat := 2 ^ 32

def rotate (x n : Nat) : Nat := x >>> n ||| (x <<< (32 - n)) % word

def constants : List Nat :=
  [0x428a2f98, 0x71374491, 0xb5c0fbcf, 0xe9b5dba5, 0x3956c25b, 0x59f111f1, 0x923f82a4, 0xab1c5ed5,
    0xd807aa98, 0x12835b01, 0x243185be, 0x550c7dc3, 0x72be5d74, 0x80deb1fe, 0x9bdc06a7, 0xc19bf174,
    0xe49b69c1, 0xefbe4786, 0x0fc19dc6, 0x240ca1cc, 0x2de92c6f, 0x4a7484aa, 0x5cb0a9dc, 0x76f988da,
    0x983e5152, 0xa831c66d, 0xb00327c8, 0xbf597fc7, 0xc6e00bf3, 0xd5a79147, 0x06ca6351, 0x14292967,
    0x27b70a85, 0x2e1b2138, 0x4d2c6dfc, 0x53380d13, 0x650a7354, 0x766a0abb, 0x81c2c92e, 0x92722c85,
    0xa2bfe8a1, 0xa81a664b, 0xc24b8b70, 0xc76c51a3, 0xd192e819, 0xd6990624, 0xf40e3585, 0x106aa070,
    0x19a4c116, 0x1e376c08, 0x2748774c, 0x34b0bcb5, 0x391c0cb3, 0x4ed8aa4a, 0x5b9cca4f, 0x682e6ff3,
    0x748f82ee, 0x78a5636f, 0x84c87814, 0x8cc70208, 0x90befffa, 0xa4506ceb, 0xbef9a3f7, 0xc67178f2]

structure Registers where
  a : Nat
  b : Nat
  c : Nat
  d : Nat
  e : Nat
  f : Nat
  g : Nat
  h : Nat

def initial : Registers :=
  ⟨0x6a09e667, 0xbb67ae85, 0x3c6ef372, 0xa54ff53a, 0x510e527f, 0x9b05688c, 0x1f83d9ab, 0x5be0cd19⟩

def Registers.add (r s : Registers) : Registers :=
  ⟨(r.a + s.a) % word, (r.b + s.b) % word, (r.c + s.c) % word, (r.d + s.d) % word,
    (r.e + s.e) % word, (r.f + s.f) % word, (r.g + s.g) % word, (r.h + s.h) % word⟩

def Registers.words (r : Registers) : List Nat := [r.a, r.b, r.c, r.d, r.e, r.f, r.g, r.h]

/-- The next sixteen words of the message schedule. -/
structure Window where
  w0 : Nat
  w1 : Nat
  w2 : Nat
  w3 : Nat
  w4 : Nat
  w5 : Nat
  w6 : Nat
  w7 : Nat
  w8 : Nat
  w9 : Nat
  w10 : Nat
  w11 : Nat
  w12 : Nat
  w13 : Nat
  w14 : Nat
  w15 : Nat

def wordAt (block : List UInt8) (i : Nat) : Nat :=
  ((block.drop (4 * i)).take 4).foldl (fun value byte => 256 * value + byte.toNat) 0

def window (block : List UInt8) : Window :=
  ⟨wordAt block 0, wordAt block 1, wordAt block 2, wordAt block 3, wordAt block 4, wordAt block 5,
    wordAt block 6, wordAt block 7, wordAt block 8, wordAt block 9, wordAt block 10,
    wordAt block 11, wordAt block 12, wordAt block 13, wordAt block 14, wordAt block 15⟩

def Window.shift (w : Window) : Window :=
  let s := rotate w.w1 7 ^^^ rotate w.w1 18 ^^^ (w.w1 >>> 3)
  let t := rotate w.w14 17 ^^^ rotate w.w14 19 ^^^ (w.w14 >>> 10)
  ⟨w.w1, w.w2, w.w3, w.w4, w.w5, w.w6, w.w7, w.w8, w.w9, w.w10, w.w11, w.w12, w.w13, w.w14, w.w15,
    (w.w0 + s + w.w9 + t) % word⟩

def round (r : Registers) (constant input : Nat) : Registers :=
  let sum := rotate r.e 6 ^^^ rotate r.e 11 ^^^ rotate r.e 25
  let choice := (r.e &&& r.f) ^^^ ((word - 1 - r.e) &&& r.g)
  let first := r.h + sum + choice + constant + input
  let second := (rotate r.a 2 ^^^ rotate r.a 13 ^^^ rotate r.a 22) +
    ((r.a &&& r.b) ^^^ (r.a &&& r.c) ^^^ (r.b &&& r.c))
  ⟨(first + second) % word, r.a, r.b, r.c, (r.d + first) % word, r.e, r.f, r.g⟩

def compress (state : Registers) (block : List UInt8) : Registers :=
  let (last, _) := constants.foldl (fun (r, w) constant => (round r constant w.w0, w.shift))
    (state, window block)
  last.add state

def pad (data : List UInt8) : List UInt8 :=
  data ++ 0x80 :: List.replicate ((119 - data.length % 64) % 64) 0 ++
    (List.range 8).reverse.map fun i => UInt8.ofNat (8 * data.length / 256 ^ i)

def absorb : Nat → Registers → List UInt8 → Registers
  | 0, state, _ => state
  | n + 1, state, data => absorb n (compress state (data.take 64)) (data.drop 64)

def sha256 (data : List UInt8) : List UInt8 :=
  let padded := pad data
  (absorb (padded.length / 64) initial padded).words.flatMap fun w =>
    (List.range 4).reverse.map fun j => UInt8.ofNat (w / 256 ^ j)

theorem sha256_length (data : List UInt8) : (sha256 data).length = 32 := by
  simp [sha256, Registers.words, List.range_succ]

example : (sha256 []).take 4 = [0xe3, 0xb0, 0xc4, 0x42] := by decide +kernel

end IPchain.Lib.Sha256
