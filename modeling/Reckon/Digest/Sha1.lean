/-!
The SHA-1 digest of a sequence of bytes, as in FIPS 180-4: the message is padded to blocks of 64
bytes, and each block is mixed into five words in 80 steps.
-/

set_option autoImplicit false

namespace Reckon.Sha1

structure State where
  a : UInt32
  b : UInt32
  c : UInt32
  d : UInt32
  e : UInt32
deriving DecidableEq, Repr

def State.initial : State :=
  ⟨0x67452301, 0xEFCDAB89, 0x98BADCFE, 0x10325476, 0xC3D2E1F0⟩

def State.add (s t : State) : State :=
  ⟨s.a + t.a, s.b + t.b, s.c + t.c, s.d + t.d, s.e + t.e⟩

def State.words (s : State) : List UInt32 :=
  [s.a, s.b, s.c, s.d, s.e]

def rotateLeft (x : UInt32) (n : UInt32) : UInt32 :=
  (x <<< n) ||| (x >>> (32 - n))

def bigEndian (count n : Nat) : List UInt8 :=
  (List.range count).reverse.map fun i => UInt8.ofNat (n >>> (8 * i))

/-- The message, a set bit, zeros up to the last eight bytes of a block, and the length in bits. -/
def pad (message : List UInt8) : List UInt8 :=
  let zeros := (119 - message.length % 64) % 64
  message ++ 0x80 :: List.replicate zeros 0 ++ bigEndian 8 (8 * message.length)

def pieces {α : Type} (size : Nat) : Nat → List α → List (List α)
  | 0, _ => []
  | fuel + 1, xs => if xs.isEmpty then [] else xs.take size :: pieces size fuel (xs.drop size)

def wordOf (bytes : List UInt8) : UInt32 :=
  bytes.foldl (fun word byte => word * 256 + byte.toUInt32) 0

def expand : Nat → Array UInt32 → Array UInt32
  | 0, words => words
  | fuel + 1, words =>
    let n := words.size
    let mixed := words.getD (n - 3) 0 ^^^ words.getD (n - 8) 0 ^^^ words.getD (n - 14) 0 ^^^
      words.getD (n - 16) 0
    expand fuel (words.push (rotateLeft mixed 1))

def roundOf (step : Nat) (b c d : UInt32) : UInt32 × UInt32 :=
  if step < 20 then ((b &&& c) ||| (~~~b &&& d), 0x5A827999)
  else if step < 40 then (b ^^^ c ^^^ d, 0x6ED9EBA1)
  else if step < 60 then ((b &&& c) ||| (b &&& d) ||| (c &&& d), 0x8F1BBCDC)
  else (b ^^^ c ^^^ d, 0xCA62C1D6)

def step (s : State) (entry : UInt32 × Nat) : State :=
  let (mixed, constant) := roundOf entry.2 s.b s.c s.d
  ⟨rotateLeft s.a 5 + mixed + s.e + constant + entry.1, s.a, rotateLeft s.b 30, s.c, s.d⟩

def mixBlock (s : State) (block : List UInt8) : State :=
  let words := expand 64 ((pieces 4 16 block).map wordOf).toArray
  s.add (words.toList.zipIdx.foldl step s)

def digest (message : List UInt8) : List UInt8 :=
  let padded := pad message
  let final := (pieces 64 padded.length padded).foldl mixBlock State.initial
  final.words.flatMap fun word => bigEndian 4 word.toNat

end Reckon.Sha1
