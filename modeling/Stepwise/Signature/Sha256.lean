/-!
# SHA-256

The digest of a message of bytes. The message is padded to whole blocks of 64 bytes; each block is
spread over 64 words and mixed into a state of eight words.
-/

namespace Stepwise.Sha256

/-- The state of the digest. -/
structure State where
  a : UInt32
  b : UInt32
  c : UInt32
  d : UInt32
  e : UInt32
  f : UInt32
  g : UInt32
  h : UInt32

/-- The state before the first block. -/
def start : State :=
  ⟨0x6a09e667, 0xbb67ae85, 0x3c6ef372, 0xa54ff53a, 0x510e527f, 0x9b05688c, 0x1f83d9ab, 0x5be0cd19⟩

/-- One constant for each of the 64 rounds. -/
def roundConstants : List UInt32 := [
  0x428a2f98, 0x71374491, 0xb5c0fbcf, 0xe9b5dba5, 0x3956c25b, 0x59f111f1, 0x923f82a4, 0xab1c5ed5,
  0xd807aa98, 0x12835b01, 0x243185be, 0x550c7dc3, 0x72be5d74, 0x80deb1fe, 0x9bdc06a7, 0xc19bf174,
  0xe49b69c1, 0xefbe4786, 0x0fc19dc6, 0x240ca1cc, 0x2de92c6f, 0x4a7484aa, 0x5cb0a9dc, 0x76f988da,
  0x983e5152, 0xa831c66d, 0xb00327c8, 0xbf597fc7, 0xc6e00bf3, 0xd5a79147, 0x06ca6351, 0x14292967,
  0x27b70a85, 0x2e1b2138, 0x4d2c6dfc, 0x53380d13, 0x650a7354, 0x766a0abb, 0x81c2c92e, 0x92722c85,
  0xa2bfe8a1, 0xa81a664b, 0xc24b8b70, 0xc76c51a3, 0xd192e819, 0xd6990624, 0xf40e3585, 0x106aa070,
  0x19a4c116, 0x1e376c08, 0x2748774c, 0x34b0bcb5, 0x391c0cb3, 0x4ed8aa4a, 0x5b9cca4f, 0x682e6ff3,
  0x748f82ee, 0x78a5636f, 0x84c87814, 0x8cc70208, 0x90befffa, 0xa4506ceb, 0xbef9a3f7, 0xc67178f2]

/-- The word turned to the right by a number of bits. -/
def rotate (word count : UInt32) : UInt32 := (word >>> count) ||| (word <<< (32 - count))

/-- A number as bytes, the most significant first. -/
def bytesOf : Nat → Nat → List UInt8
  | 0, _ => []
  | width + 1, n => bytesOf width (n / 256) ++ [n.toUInt8]

/-- The message with a one bit, zeros and its length in bits, up to a whole block. -/
def pad (message : List UInt8) : List UInt8 :=
  let zeros := (119 - message.length % 64) % 64
  message ++ 0x80 :: List.replicate zeros 0 ++ bytesOf 8 (8 * message.length)

/-- Four bytes make a word. -/
def words : List UInt8 → List UInt32
  | a :: b :: c :: d :: rest =>
    ((a.toUInt32 <<< 24) ||| (b.toUInt32 <<< 16) ||| (c.toUInt32 <<< 8) ||| d.toUInt32)
      :: words rest
  | _ => []

/-- The words of a block spread over all rounds. -/
def schedule (block : List UInt32) : List UInt32 :=
  let spread := (List.range 48).foldl (fun (w : Array UInt32) i =>
    let near := w.getD (i + 14) 0
    let far := w.getD (i + 1) 0
    w.push (w.getD i 0 + w.getD (i + 9) 0
      + (rotate far 7 ^^^ rotate far 18 ^^^ (far >>> 3))
      + (rotate near 17 ^^^ rotate near 19 ^^^ (near >>> 10)))) block.toArray
  spread.toList

/-- One round. -/
def round (s : State) (constant word : UInt32) : State :=
  let choice := (s.e &&& s.f) ^^^ (~~~s.e &&& s.g)
  let first := s.h + (rotate s.e 6 ^^^ rotate s.e 11 ^^^ rotate s.e 25) + choice + constant + word
  let majority := (s.a &&& s.b) ^^^ (s.a &&& s.c) ^^^ (s.b &&& s.c)
  let second := (rotate s.a 2 ^^^ rotate s.a 13 ^^^ rotate s.a 22) + majority
  ⟨first + second, s.a, s.b, s.c, s.d + first, s.e, s.f, s.g⟩

/-- Mixes a block into the state. -/
def absorb (s : State) (block : List UInt32) : State :=
  let t := (roundConstants.zip (schedule block)).foldl (fun t (k, w) => round t k w) s
  ⟨s.a + t.a, s.b + t.b, s.c + t.c, s.d + t.d, s.e + t.e, s.f + t.f, s.g + t.g, s.h + t.h⟩

/-- Mixes blocks of sixteen words into the state, as many as `count`. -/
def absorbAll : Nat → State → List UInt32 → State
  | 0, s, _ => s
  | count + 1, s, ws => absorbAll count (absorb s (ws.take 16)) (ws.drop 16)

/-- The digest of a message. -/
def digest (message : List UInt8) : List UInt8 :=
  let padded := pad message
  let s := absorbAll (padded.length / 64) start (words padded)
  [s.a, s.b, s.c, s.d, s.e, s.f, s.g, s.h].flatMap fun word => bytesOf 4 word.toNat

end Stepwise.Sha256
