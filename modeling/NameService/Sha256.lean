import NameService.Bytes

/-
  The hash function SHA-256.

  The message is padded to whole blocks of 64 bytes, each block is expanded to
  64 words, and 64 rounds mix them into a state of eight words. All arithmetic
  is on 32-bit words.
-/

namespace NameService.Sha256

/-- The eight words of the chaining value, and of the working registers. -/
structure Registers where
  a : UInt32
  b : UInt32
  c : UInt32
  d : UInt32
  e : UInt32
  f : UInt32
  g : UInt32
  h : UInt32

/-- The chaining value before the first block. -/
def start : Registers where
  a := 0x6a09e667
  b := 0xbb67ae85
  c := 0x3c6ef372
  d := 0xa54ff53a
  e := 0x510e527f
  f := 0x9b05688c
  g := 0x1f83d9ab
  h := 0x5be0cd19

def roundConstants : List UInt32 :=
  [0x428a2f98, 0x71374491, 0xb5c0fbcf, 0xe9b5dba5, 0x3956c25b, 0x59f111f1, 0x923f82a4, 0xab1c5ed5,
   0xd807aa98, 0x12835b01, 0x243185be, 0x550c7dc3, 0x72be5d74, 0x80deb1fe, 0x9bdc06a7, 0xc19bf174,
   0xe49b69c1, 0xefbe4786, 0x0fc19dc6, 0x240ca1cc, 0x2de92c6f, 0x4a7484aa, 0x5cb0a9dc, 0x76f988da,
   0x983e5152, 0xa831c66d, 0xb00327c8, 0xbf597fc7, 0xc6e00bf3, 0xd5a79147, 0x06ca6351, 0x14292967,
   0x27b70a85, 0x2e1b2138, 0x4d2c6dfc, 0x53380d13, 0x650a7354, 0x766a0abb, 0x81c2c92e, 0x92722c85,
   0xa2bfe8a1, 0xa81a664b, 0xc24b8b70, 0xc76c51a3, 0xd192e819, 0xd6990624, 0xf40e3585, 0x106aa070,
   0x19a4c116, 0x1e376c08, 0x2748774c, 0x34b0bcb5, 0x391c0cb3, 0x4ed8aa4a, 0x5b9cca4f, 0x682e6ff3,
   0x748f82ee, 0x78a5636f, 0x84c87814, 0x8cc70208, 0x90befffa, 0xa4506ceb, 0xbef9a3f7, 0xc67178f2]

def rotateRight (w : UInt32) (n : UInt32) : UInt32 :=
  (w >>> n) ||| (w <<< (32 - n))

/-- The next word of a block's schedule, from the sixteen words before it,
latest first. -/
def nextWord (latest : List UInt32) : UInt32 :=
  let w2 := latest.getD 1 0
  let w7 := latest.getD 6 0
  let w15 := latest.getD 14 0
  let w16 := latest.getD 15 0
  let low := rotateRight w15 7 ^^^ rotateRight w15 18 ^^^ (w15 >>> 3)
  let high := rotateRight w2 17 ^^^ rotateRight w2 19 ^^^ (w2 >>> 10)
  w16 + low + w7 + high

/-- Extends a schedule, latest word first, by `n` words. -/
def extend : Nat → List UInt32 → List UInt32
  | 0, words => words
  | n + 1, words => extend n (nextWord words :: words)

def schedule (block : List UInt32) : List UInt32 :=
  (extend 48 block.reverse).reverse

/-- One round, on a round constant and a word of the schedule. -/
def round (r : Registers) (k w : UInt32) : Registers :=
  let high := rotateRight r.e 6 ^^^ rotateRight r.e 11 ^^^ rotateRight r.e 25
  let choice := (r.e &&& r.f) ^^^ ((~~~ r.e) &&& r.g)
  let first := r.h + high + choice + k + w
  let low := rotateRight r.a 2 ^^^ rotateRight r.a 13 ^^^ rotateRight r.a 22
  let majority := (r.a &&& r.b) ^^^ (r.a &&& r.c) ^^^ (r.b &&& r.c)
  { a := first + (low + majority), b := r.a, c := r.b, d := r.c,
    e := r.d + first, f := r.e, g := r.f, h := r.g }

def Registers.add (x y : Registers) : Registers :=
  { a := x.a + y.a, b := x.b + y.b, c := x.c + y.c, d := x.d + y.d,
    e := x.e + y.e, f := x.f + y.f, g := x.g + y.g, h := x.h + y.h }

/-- The chaining value after one block of sixteen words. -/
def compress (r : Registers) (block : List UInt32) : Registers :=
  r.add ((roundConstants.zip (schedule block)).foldl (fun s kw => round s kw.1 kw.2) r)

/-- The message followed by the bit 1, zeros, and its length in bits, so that
whole blocks of 64 bytes come out. -/
def pad (message : Bytes) : Bytes :=
  message ++ 0x80 :: List.replicate ((119 - message.length % 64) % 64) 0 ++
    Bytes.bigEndian 8 (8 * message.length)

/-- The big-endian words of a byte string, four bytes each. -/
def words : Bytes → List UInt32
  | a :: b :: c :: d :: rest => UInt32.ofNat (Bytes.toNat [a, b, c, d]) :: words rest
  | _ => []

/-- Runs `n` blocks of sixteen words through the compression. -/
def run : Nat → Registers → List UInt32 → Registers
  | 0, r, _ => r
  | n + 1, r, ws => run n (compress r (ws.take 16)) (ws.drop 16)

def Registers.bytes (r : Registers) : Bytes :=
  [r.a, r.b, r.c, r.d, r.e, r.f, r.g, r.h].flatMap fun w => Bytes.bigEndian 4 w.toNat

def hash (message : Bytes) : Bytes :=
  let padded := pad message
  (run (padded.length / 64) start (words padded)).bytes

theorem length_hash (message : Bytes) : (hash message).length = 32 := by
  simp [hash, Registers.bytes]

end NameService.Sha256
