import ChordSearch.Bytes

/-! # SHA-1

The 160-bit SHA-1 digest (FIPS 180-4, section 6.1) of a byte string. Ring positions of
nodes and terms are digests, so this is the only hash the ring needs.

The message is padded with a one bit, zeros, and its length in bits as a 64-bit big-endian
number, to a whole number of 64-byte blocks. Each block is read as sixteen big-endian
words, stretched to eighty, and mixed into five words of state in eighty rounds; the digest
is the final state, big-endian.
-/

namespace ChordSearch.Sha1

/-- The five words of state between blocks. -/
structure State where
  h0 : UInt32
  h1 : UInt32
  h2 : UInt32
  h3 : UInt32
  h4 : UInt32

/-- The state before the first block. -/
def initial : State := ⟨0x67452301, 0xEFCDAB89, 0x98BADCFE, 0x10325476, 0xC3D2E1F0⟩

/-- Rotate a word left by `n` bits. -/
def rotl (x : UInt32) (n : UInt32) : UInt32 := (x <<< n) ||| (x >>> (32 - n))

/-- The message followed by its padding: a whole number of 64-byte blocks. -/
def pad (msg : Bytes) : Bytes :=
  let len := msg.length
  let zeros := (119 - len % 64) % 64
  msg ++ [0x80] ++ List.replicate zeros 0 ++ Bytes.ofNatBE 8 (8 * len)

/-- The big-endian word at byte offset `4 * i` of a block. -/
def wordAt (block : Array UInt8) (i : Nat) : UInt32 :=
  let b (k : Nat) : UInt32 := (block.getD (4 * i + k) 0).toUInt32
  (b 0 <<< 24) ||| (b 1 <<< 16) ||| (b 2 <<< 8) ||| b 3

/-- The eighty schedule words of a block. -/
def schedule (block : Array UInt8) : Array UInt32 :=
  let first := (List.range 16).toArray.map (wordAt block)
  (List.range 64).foldl (fun w i =>
    let t := i + 16
    w.push (rotl (w.getD (t - 3) 0 ^^^ w.getD (t - 8) 0 ^^^ w.getD (t - 14) 0 ^^^
      w.getD (t - 16) 0) 1)) first

/-- The round function and constant of round `t`. -/
def roundMix (t : Nat) (b c d : UInt32) : UInt32 × UInt32 :=
  if t < 20 then ((b &&& c) ||| (~~~b &&& d), 0x5A827999)
  else if t < 40 then (b ^^^ c ^^^ d, 0x6ED9EBA1)
  else if t < 60 then ((b &&& c) ||| (b &&& d) ||| (c &&& d), 0x8F1BBCDC)
  else (b ^^^ c ^^^ d, 0xCA62C1D6)

/-- Mix one 64-byte block into the state. -/
def compress (st : State) (block : Array UInt8) : State :=
  let w := schedule block
  let (a, b, c, d, e) := (List.range 80).foldl (fun (a, b, c, d, e) t =>
    let (f, k) := roundMix t b c d
    let temp := rotl a 5 + f + e + k + w.getD t 0
    (temp, a, rotl b 30, c, d)) (st.h0, st.h1, st.h2, st.h3, st.h4)
  ⟨st.h0 + a, st.h1 + b, st.h2 + c, st.h3 + d, st.h4 + e⟩

/-- Mix the first `n` blocks of `bs` into the state. -/
def compressBlocks : Nat → State → Bytes → State
  | 0, st, _ => st
  | n + 1, st, bs => compressBlocks n (compress st (bs.take 64).toArray) (bs.drop 64)

/-- The state's five words, big-endian. -/
def State.toBytes (st : State) : Bytes :=
  [st.h0, st.h1, st.h2, st.h3, st.h4].flatMap fun w => Bytes.ofNatBE 4 w.toNat

/-- The SHA-1 digest of a byte string: twenty bytes. -/
def digest (msg : Bytes) : Bytes :=
  let padded := pad msg
  (compressBlocks (padded.length / 64) initial padded).toBytes

example : Bytes.toHex (digest (Bytes.ofString "abc")) =
    "a9993e364706816aba3e25717850c26c9cd0d89d" := by decide +kernel

end ChordSearch.Sha1
