/-!
# SHA-256

The digest by which a file on disk is compared with a generated one. A message is padded to
whole blocks of 64 bytes; each block is expanded to 64 words and mixed into eight state words.
-/

namespace YangToProto.Digest

/-- The round constants: the first 32 bits of the fractional parts of the cube roots of the first
64 primes. -/
def roundConstants : List UInt32 :=
  [
    0x428a2f98, 0x71374491, 0xb5c0fbcf, 0xe9b5dba5, 0x3956c25b, 0x59f111f1, 0x923f82a4, 0xab1c5ed5,
    0xd807aa98, 0x12835b01, 0x243185be, 0x550c7dc3, 0x72be5d74, 0x80deb1fe, 0x9bdc06a7, 0xc19bf174,
    0xe49b69c1, 0xefbe4786, 0x0fc19dc6, 0x240ca1cc, 0x2de92c6f, 0x4a7484aa, 0x5cb0a9dc, 0x76f988da,
    0x983e5152, 0xa831c66d, 0xb00327c8, 0xbf597fc7, 0xc6e00bf3, 0xd5a79147, 0x06ca6351, 0x14292967,
    0x27b70a85, 0x2e1b2138, 0x4d2c6dfc, 0x53380d13, 0x650a7354, 0x766a0abb, 0x81c2c92e, 0x92722c85,
    0xa2bfe8a1, 0xa81a664b, 0xc24b8b70, 0xc76c51a3, 0xd192e819, 0xd6990624, 0xf40e3585, 0x106aa070,
    0x19a4c116, 0x1e376c08, 0x2748774c, 0x34b0bcb5, 0x391c0cb3, 0x4ed8aa4a, 0x5b9cca4f, 0x682e6ff3,
    0x748f82ee, 0x78a5636f, 0x84c87814, 0x8cc70208, 0x90befffa, 0xa4506ceb, 0xbef9a3f7, 0xc67178f2]

structure State where
  a : UInt32
  b : UInt32
  c : UInt32
  d : UInt32
  e : UInt32
  f : UInt32
  g : UInt32
  h : UInt32
deriving DecidableEq

/-- The first state: the first 32 bits of the fractional parts of the square roots of the first
eight primes. -/
def State.initial : State :=
  ⟨0x6a09e667, 0xbb67ae85, 0x3c6ef372, 0xa54ff53a, 0x510e527f, 0x9b05688c, 0x1f83d9ab, 0x5be0cd19⟩

/-- The word with its bits turned to the right. -/
def rotateRight (word : UInt32) (count : UInt32) : UInt32 :=
  (word >>> count) ||| (word <<< (32 - count))

/-- The words of big-endian bytes; up to three bytes left over are dropped. -/
def words : List UInt8 → List UInt32
  | a :: b :: c :: d :: rest =>
    (a.toUInt32 <<< 24 ||| b.toUInt32 <<< 16 ||| c.toUInt32 <<< 8 ||| d.toUInt32) :: words rest
  | _ => []

def bigEndian (number : Nat) : Nat → List UInt8
  | 0 => []
  | count + 1 => UInt8.ofNat (number / 256 ^ count) :: bigEndian number count

/-- The message with the bit that ends it, zeros, and its length in bits, in whole blocks. -/
def pad (message : List UInt8) : List UInt8 :=
  message ++ 0x80 :: List.replicate ((119 - message.length % 64) % 64) 0 ++
    bigEndian (8 * message.length) 8

/-- The schedule of a block, of which the sixteen latest words are given, the latest first: each
round takes the oldest of them and adds a new one. -/
def schedule (latest : List UInt32) : Nat → List UInt32
  | 0 => []
  | rounds + 1 =>
    let word (back : Nat) := latest.getD (back - 1) 0
    let low := rotateRight (word 15) 7 ^^^ rotateRight (word 15) 18 ^^^ (word 15 >>> 3)
    let high := rotateRight (word 2) 17 ^^^ rotateRight (word 2) 19 ^^^ (word 2 >>> 10)
    let next := word 16 + low + word 7 + high
    word 16 :: schedule (next :: latest.take 15) rounds

def State.round (s : State) (input : UInt32 × UInt32) : State :=
  let sum₁ := rotateRight s.e 6 ^^^ rotateRight s.e 11 ^^^ rotateRight s.e 25
  let choice := (s.e &&& s.f) ^^^ ((~~~ s.e) &&& s.g)
  let first := s.h + sum₁ + choice + input.1 + input.2
  let sum₀ := rotateRight s.a 2 ^^^ rotateRight s.a 13 ^^^ rotateRight s.a 22
  let majority := (s.a &&& s.b) ^^^ (s.a &&& s.c) ^^^ (s.b &&& s.c)
  ⟨first + sum₀ + majority, s.a, s.b, s.c, s.d + first, s.e, s.f, s.g⟩

def State.add (s t : State) : State :=
  ⟨s.a + t.a, s.b + t.b, s.c + t.c, s.d + t.d, s.e + t.e, s.f + t.f, s.g + t.g, s.h + t.h⟩

def State.block (s : State) (input : List UInt32) : State :=
  s.add ((roundConstants.zip (schedule input.reverse 64)).foldl State.round s)

def State.blocks (s : State) (input : List UInt32) : Nat → State
  | 0 => s
  | count + 1 => (s.block (input.take 16)).blocks (input.drop 16) count

def State.toList (s : State) : List UInt32 := [s.a, s.b, s.c, s.d, s.e, s.f, s.g, s.h]

def hexDigits (number : Nat) : Nat → List Char
  | 0 => []
  | count + 1 => Nat.digitChar (number / 16 ^ count % 16) :: hexDigits number count

end YangToProto.Digest

namespace YangToProto

/-- A digest as 64 hexadecimal digits. -/
structure Digest where
  hex : String
deriving DecidableEq

end YangToProto

namespace YangToProto.Digest

def ofBytes (message : List UInt8) : Digest :=
  let input := words (pad message)
  let state := State.initial.blocks input (input.length / 16)
  ⟨String.ofList (state.toList.flatMap fun word => hexDigits word.toNat 8)⟩

def ofText (text : String) : Digest := ofBytes text.toUTF8.toList

def verify (digest : Digest) (text : String) : Bool := digest == ofText text

end YangToProto.Digest
