import SoloPool.Lib.Bytes

/-!
# SHA-256

The digest of FIPS 180-4 over byte lists. The model takes the hash function as a parameter; this is the function that
parameter stands for, used where a concrete digest is needed.
-/

namespace SoloPool.Lib.Sha256

def roundConstants : List UInt32 := [
  0x428a2f98, 0x71374491, 0xb5c0fbcf, 0xe9b5dba5, 0x3956c25b, 0x59f111f1, 0x923f82a4, 0xab1c5ed5,
  0xd807aa98, 0x12835b01, 0x243185be, 0x550c7dc3, 0x72be5d74, 0x80deb1fe, 0x9bdc06a7, 0xc19bf174,
  0xe49b69c1, 0xefbe4786, 0x0fc19dc6, 0x240ca1cc, 0x2de92c6f, 0x4a7484aa, 0x5cb0a9dc, 0x76f988da,
  0x983e5152, 0xa831c66d, 0xb00327c8, 0xbf597fc7, 0xc6e00bf3, 0xd5a79147, 0x06ca6351, 0x14292967,
  0x27b70a85, 0x2e1b2138, 0x4d2c6dfc, 0x53380d13, 0x650a7354, 0x766a0abb, 0x81c2c92e, 0x92722c85,
  0xa2bfe8a1, 0xa81a664b, 0xc24b8b70, 0xc76c51a3, 0xd192e819, 0xd6990624, 0xf40e3585, 0x106aa070,
  0x19a4c116, 0x1e376c08, 0x2748774c, 0x34b0bcb5, 0x391c0cb3, 0x4ed8aa4a, 0x5b9cca4f, 0x682e6ff3,
  0x748f82ee, 0x78a5636f, 0x84c87814, 0x8cc70208, 0x90befffa, 0xa4506ceb, 0xbef9a3f7, 0xc67178f2]

def rotr (x n : UInt32) : UInt32 := x >>> n ||| x <<< (32 - n)

structure State where
  a : UInt32 := 0x6a09e667
  b : UInt32 := 0xbb67ae85
  c : UInt32 := 0x3c6ef372
  d : UInt32 := 0xa54ff53a
  e : UInt32 := 0x510e527f
  f : UInt32 := 0x9b05688c
  g : UInt32 := 0x1f83d9ab
  h : UInt32 := 0x5be0cd19

def nextWord (window : List UInt32) : UInt32 :=
  let w := fun i => window.getD i 0
  let s0 := rotr (w 1) 7 ^^^ rotr (w 1) 18 ^^^ w 1 >>> 3
  let s1 := rotr (w 14) 17 ^^^ rotr (w 14) 19 ^^^ w 14 >>> 10
  w 0 + s0 + w 9 + s1

/-- One round, on the chaining value and the sliding window of the message schedule. -/
def round (s : State × List UInt32) (k : UInt32) : State × List UInt32 :=
  let ⟨s, window⟩ := s
  let s1 := rotr s.e 6 ^^^ rotr s.e 11 ^^^ rotr s.e 25
  let ch := s.e &&& s.f ^^^ ~~~s.e &&& s.g
  let t1 := s.h + s1 + ch + k + window.getD 0 0
  let s0 := rotr s.a 2 ^^^ rotr s.a 13 ^^^ rotr s.a 22
  let maj := s.a &&& s.b ^^^ s.a &&& s.c ^^^ s.b &&& s.c
  ({ a := t1 + (s0 + maj), b := s.a, c := s.b, d := s.c, e := s.d + t1, f := s.e, g := s.f, h := s.g },
    window.tail ++ [nextWord window])

def words : Nat → Bytes → List UInt32
  | 0, _ => []
  | n + 1, block => UInt32.ofNat (beNat (block.take 4)) :: words n (block.drop 4)

def compress (s : State) (block : Bytes) : State :=
  let t := (roundConstants.foldl round (s, words 16 block)).1
  { a := s.a + t.a, b := s.b + t.b, c := s.c + t.c, d := s.d + t.d, e := s.e + t.e, f := s.f + t.f, g := s.g + t.g,
    h := s.h + t.h }

def compressBlocks : Nat → State → Bytes → State
  | 0, s, _ => s
  | n + 1, s, message => compressBlocks n (compress s (message.take 64)) (message.drop 64)

/-- The message with its `1` bit, zeros and 64-bit length. -/
def pad (message : Bytes) : Bytes :=
  message ++ [0x80] ++ List.replicate ((119 - message.length % 64) % 64) 0 ++ beBytes 8 (8 * message.length)

def digest (message : Bytes) : Octets 32 :=
  let padded := pad message
  let s := compressBlocks (padded.length / 64) {} padded
  ⟨beBytes 4 s.a.toNat ++ beBytes 4 s.b.toNat ++ beBytes 4 s.c.toNat ++ beBytes 4 s.d.toNat ++ beBytes 4 s.e.toNat ++
    beBytes 4 s.f.toNat ++ beBytes 4 s.g.toNat ++ beBytes 4 s.h.toNat, by simp⟩

example : (digest [0x61, 0x62, 0x63]).toList = [
    0xba, 0x78, 0x16, 0xbf, 0x8f, 0x01, 0xcf, 0xea, 0x41, 0x41, 0x40, 0xde, 0x5d, 0xae, 0x22, 0x23,
    0xb0, 0x03, 0x61, 0xa3, 0x96, 0x17, 0x7a, 0x9c, 0xb4, 0x10, 0xff, 0x61, 0xf2, 0x00, 0x15, 0xad] := by
  decide +kernel

end SoloPool.Lib.Sha256
