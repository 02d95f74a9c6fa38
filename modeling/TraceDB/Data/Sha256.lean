import TraceDB.Data.Bytes

/-!
# SHA-256

The hash function, computable on byte strings.  Words are `UInt32` and blocks are lists of 16 words.
-/

namespace TraceDB

namespace Sha256

/-- The eight words of the chaining value. -/
structure Chaining where
  a : UInt32
  b : UInt32
  c : UInt32
  d : UInt32
  e : UInt32
  f : UInt32
  g : UInt32
  h : UInt32

/-- The initial chaining value. -/
def initial : Chaining :=
  ⟨0x6a09e667, 0xbb67ae85, 0x3c6ef372, 0xa54ff53a, 0x510e527f, 0x9b05688c, 0x1f83d9ab, 0x5be0cd19⟩

/-- The round constants. -/
def roundConstants : List UInt32 :=
  [0x428a2f98, 0x71374491, 0xb5c0fbcf, 0xe9b5dba5, 0x3956c25b, 0x59f111f1, 0x923f82a4, 0xab1c5ed5,
   0xd807aa98, 0x12835b01, 0x243185be, 0x550c7dc3, 0x72be5d74, 0x80deb1fe, 0x9bdc06a7, 0xc19bf174,
   0xe49b69c1, 0xefbe4786, 0x0fc19dc6, 0x240ca1cc, 0x2de92c6f, 0x4a7484aa, 0x5cb0a9dc, 0x76f988da,
   0x983e5152, 0xa831c66d, 0xb00327c8, 0xbf597fc7, 0xc6e00bf3, 0xd5a79147, 0x06ca6351, 0x14292967,
   0x27b70a85, 0x2e1b2138, 0x4d2c6dfc, 0x53380d13, 0x650a7354, 0x766a0abb, 0x81c2c92e, 0x92722c85,
   0xa2bfe8a1, 0xa81a664b, 0xc24b8b70, 0xc76c51a3, 0xd192e819, 0xd6990624, 0xf40e3585, 0x106aa070,
   0x19a4c116, 0x1e376c08, 0x2748774c, 0x34b0bcb5, 0x391c0cb3, 0x4ed8aa4a, 0x5b9cca4f, 0x682e6ff3,
   0x748f82ee, 0x78a5636f, 0x84c87814, 0x8cc70208, 0x90befffa, 0xa4506ceb, 0xbef9a3f7, 0xc67178f2]

/-- Rotation to the right. -/
def rotr (x n : UInt32) : UInt32 := (x >>> n) ||| (x <<< (32 - n))

/-- One more word of the message schedule, which is kept with its latest word first. -/
def extend (schedule : List UInt32) : List UInt32 :=
  let w (i : ℕ) : UInt32 := schedule.getD (i - 1) 0
  let s₀ := rotr (w 15) 7 ^^^ rotr (w 15) 18 ^^^ (w 15 >>> 3)
  let s₁ := rotr (w 2) 17 ^^^ rotr (w 2) 19 ^^^ (w 2 >>> 10)
  (w 16 + s₀ + w 7 + s₁) :: schedule

/-- The message schedule of a block. -/
def schedule (block : List UInt32) : List UInt32 := (extend^[48] block.reverse).reverse

/-- One round. -/
def round (v : Chaining) (kw : UInt32 × UInt32) : Chaining :=
  let s₁ := rotr v.e 6 ^^^ rotr v.e 11 ^^^ rotr v.e 25
  let ch := (v.e &&& v.f) ^^^ (~~~ v.e &&& v.g)
  let t₁ := v.h + s₁ + ch + kw.1 + kw.2
  let s₀ := rotr v.a 2 ^^^ rotr v.a 13 ^^^ rotr v.a 22
  let maj := (v.a &&& v.b) ^^^ (v.a &&& v.c) ^^^ (v.b &&& v.c)
  ⟨t₁ + (s₀ + maj), v.a, v.b, v.c, v.d + t₁, v.e, v.f, v.g⟩

/-- The compression function. -/
def compress (v : Chaining) (block : List UInt32) : Chaining :=
  let r := (roundConstants.zip (schedule block)).foldl round v
  ⟨v.a + r.a, v.b + r.b, v.c + r.c, v.d + r.d, v.e + r.e, v.f + r.f, v.g + r.g, v.h + r.h⟩

/-- The message with its padding: a one bit, zeros, and the length in bits. -/
def pad (message : Bytes) : Bytes :=
  message ++ 0x80 :: (List.replicate ((119 - message.length % 64) % 64) 0 ++
    (Bytes.toLe 8 (8 * message.length)).reverse)

/-- The big-endian words of a byte string. -/
def words : Bytes → List UInt32
  | b₀ :: b₁ :: b₂ :: b₃ :: bs => UInt32.ofNat (Bytes.ofLe [b₃, b₂, b₁, b₀]) :: words bs
  | _ => []

/-- The blocks of 16 words of a list of words; the first argument bounds their number. -/
def blocks : ℕ → List UInt32 → List (List UInt32)
  | 0, _ => []
  | n + 1, ws => ws.take 16 :: blocks n (ws.drop 16)

/-- The bytes of a chaining value. -/
def output (v : Chaining) : Digest :=
  ⟨[v.a, v.b, v.c, v.d, v.e, v.f, v.g, v.h].flatMap fun w => (Bytes.toLe 4 w.toNat).reverse,
    by simp⟩

end Sha256

/-- SHA-256. -/
def sha256 (message : Bytes) : Digest :=
  let padded := Sha256.pad message
  Sha256.output
    ((Sha256.blocks (padded.length / 64) (Sha256.words padded)).foldl
      Sha256.compress Sha256.initial)

example : (sha256 [0x61, 0x62, 0x63]).bytes =
    [0xba, 0x78, 0x16, 0xbf, 0x8f, 0x01, 0xcf, 0xea, 0x41, 0x41, 0x40, 0xde, 0x5d, 0xae, 0x22, 0x23,
      0xb0, 0x03, 0x61, 0xa3, 0x96, 0x17, 0x7a, 0x9c, 0xb4, 0x10, 0xff, 0x61, 0xf2, 0x00, 0x15,
      0xad] := by
  decide +kernel

/-- HMAC with SHA-256, for keys of at most one block. -/
def hmacSha256 (key message : Bytes) : Digest :=
  let block := key ++ List.replicate (64 - key.length) 0
  sha256 (block.map (· ^^^ 0x5c) ++ (sha256 (block.map (· ^^^ 0x36) ++ message)).bytes)

end TraceDB
