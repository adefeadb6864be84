/-!
# Digests

A digest of 64 bits, made by mixing the bytes with a fixed key. Inputs are handled in five classes by
their length: up to 16 bytes, up to 128, up to 240, and longer ones in stripes of 64 bytes that eight
accumulators take in.
-/

namespace Stencil.Digest

/-! ## Constants -/

/-- The key that all inputs are mixed with. -/
def key : Array UInt8 :=
  #[0xb8, 0xfe, 0x6c, 0x39, 0x23, 0xa4, 0x4b, 0xbe, 0x7c, 0x01, 0x81, 0x2c, 0xf7, 0x21, 0xad, 0x1c,
    0xde, 0xd4, 0x6d, 0xe9, 0x83, 0x90, 0x97, 0xdb, 0x72, 0x40, 0xa4, 0xa4, 0xb7, 0xb3, 0x67, 0x1f,
    0xcb, 0x79, 0xe6, 0x4e, 0xcc, 0xc0, 0xe5, 0x78, 0x82, 0x5a, 0xd0, 0x7d, 0xcc, 0xff, 0x72, 0x21,
    0xb8, 0x08, 0x46, 0x74, 0xf7, 0x43, 0x24, 0x8e, 0xe0, 0x35, 0x90, 0xe6, 0x81, 0x3a, 0x26, 0x4c,
    0x3c, 0x28, 0x52, 0xbb, 0x91, 0xc3, 0x00, 0xcb, 0x88, 0xd0, 0x65, 0x8b, 0x1b, 0x53, 0x2e, 0xa3,
    0x71, 0x64, 0x48, 0x97, 0xa2, 0x0d, 0xf9, 0x4e, 0x38, 0x19, 0xef, 0x46, 0xa9, 0xde, 0xac, 0xd8,
    0xa8, 0xfa, 0x76, 0x3f, 0xe3, 0x9c, 0x34, 0x3f, 0xf9, 0xdc, 0xbb, 0xc7, 0xc7, 0x0b, 0x4f, 0x1d,
    0x8a, 0x51, 0xe0, 0x4b, 0xcd, 0xb4, 0x59, 0x31, 0xc8, 0x9f, 0x7e, 0xc9, 0xd9, 0x78, 0x73, 0x64,
    0xea, 0xc5, 0xac, 0x83, 0x34, 0xd3, 0xeb, 0xc3, 0xc5, 0x81, 0xa0, 0xff, 0xfa, 0x13, 0x63, 0xeb,
    0x17, 0x0d, 0xdd, 0x51, 0xb7, 0xf0, 0xda, 0x49, 0xd3, 0x16, 0x55, 0x26, 0x29, 0xd4, 0x68, 0x9e,
    0x2b, 0x16, 0xbe, 0x58, 0x7d, 0x47, 0xa1, 0xfc, 0x8f, 0xf8, 0xb8, 0xd1, 0x7a, 0xd0, 0x31, 0xce,
    0x45, 0xcb, 0x3a, 0x8f, 0x95, 0x16, 0x04, 0x28, 0xaf, 0xd7, 0xfb, 0xca, 0xbb, 0x4b, 0x40, 0x7e]

def prime1 : UInt64 := 0x9E3779B185EBCA87
def prime2 : UInt64 := 0xC2B2AE3D27D4EB4F
def prime3 : UInt64 := 0x165667B19E3779F9
def prime4 : UInt64 := 0x85EBCA77C2B2AE63
def prime5 : UInt64 := 0x27D4EB2F165667C5

def halfPrime1 : UInt64 := 0x9E3779B1
def halfPrime2 : UInt64 := 0x85EBCA77
def halfPrime3 : UInt64 := 0xC2B2AE3D

/-! ## Words and mixing -/

/-- The number that `count` bytes from `offset` on write, the lowest byte first. -/
def littleEndian (bytes : Array UInt8) (offset count : Nat) : UInt64 :=
  (List.range count).foldr (fun i w => w <<< 8 ||| (bytes.getD (offset + i) 0).toUInt64) 0

def word (bytes : Array UInt8) (offset : Nat) : UInt64 := littleEndian bytes offset 8

def halfWord (bytes : Array UInt8) (offset : Nat) : UInt64 := littleEndian bytes offset 4

def keyWord (offset : Nat) : UInt64 := word key offset

/-- Both halves of the product of 128 bits, mixed into one. -/
def foldedProduct (a b : UInt64) : UInt64 :=
  let product := a.toNat * b.toNat
  UInt64.ofNat product ^^^ UInt64.ofNat (product >>> 64)

def rotateLeft (w : UInt64) (count : UInt64) : UInt64 := w <<< count ||| w >>> (64 - count)

/-- The bytes of a word in the other order. -/
def swapBytes (w : UInt64) : UInt64 :=
  (List.range 8).foldl (fun out i => out <<< 8 ||| (w >>> (8 * i.toUInt64) &&& 0xFF)) 0

/-- Spreads every bit over the word. -/
def scatter (w : UInt64) : UInt64 :=
  let w := (w ^^^ w >>> 37) * 0x165667919E3779F9
  w ^^^ w >>> 32

/-- Spreads the bits of a word that comes from very few bytes. -/
def scatterFew (w : UInt64) : UInt64 :=
  let w := (w ^^^ w >>> 33) * prime2
  let w := (w ^^^ w >>> 29) * prime3
  w ^^^ w >>> 32

/-- Sixteen bytes mixed with sixteen bytes of the key. -/
def mixBlock (bytes : Array UInt8) (offset keyOffset : Nat) : UInt64 :=
  foldedProduct (word bytes offset ^^^ keyWord keyOffset)
    (word bytes (offset + 8) ^^^ keyWord (keyOffset + 8))

/-! ## Short inputs -/

def ofNone : UInt64 := scatterFew (keyWord 56 ^^^ keyWord 64)

/-- One to three bytes. -/
def ofFew (bytes : Array UInt8) : UInt64 :=
  let n := bytes.size
  let byte (i : Nat) : UInt64 := (bytes.getD i 0).toUInt64
  let packed := byte 0 <<< 16 ||| byte (n / 2) <<< 24 ||| byte (n - 1) ||| n.toUInt64 <<< 8
  scatterFew (packed ^^^ (halfWord key 0 ^^^ halfWord key 4))

/-- Four to eight bytes. -/
def ofHalves (bytes : Array UInt8) : UInt64 :=
  let n := bytes.size
  let packed := halfWord bytes (n - 4) + halfWord bytes 0 <<< 32
  let w := packed ^^^ (keyWord 8 ^^^ keyWord 16)
  let w := (w ^^^ rotateLeft w 49 ^^^ rotateLeft w 24) * 0x9FB21C651E98DF25
  let w := (w ^^^ (w >>> 35 + n.toUInt64)) * 0x9FB21C651E98DF25
  w ^^^ w >>> 28

/-- Nine to sixteen bytes. -/
def ofWords (bytes : Array UInt8) : UInt64 :=
  let n := bytes.size
  let low := word bytes 0 ^^^ (keyWord 24 ^^^ keyWord 32)
  let high := word bytes (n - 8) ^^^ (keyWord 40 ^^^ keyWord 48)
  scatter (n.toUInt64 + swapBytes low + high + foldedProduct low high)

/-! ## Inputs of some blocks -/

/-- Up to 128 bytes: blocks from both ends towards the middle. -/
def ofPairs (bytes : Array UInt8) : UInt64 :=
  let n := bytes.size
  let pair (i : Nat) : UInt64 :=
    mixBlock bytes (16 * i) (32 * i) + mixBlock bytes (n - 16 * (i + 1)) (32 * i + 16)
  scatter ((List.range ((n - 1) / 32 + 1)).foldl (fun sum i => sum + pair i) (n.toUInt64 * prime1))

/-- Up to 240 bytes: eight blocks, the ones after them with the key moved, and the last 16 bytes. -/
def ofBlocks (bytes : Array UInt8) : UInt64 :=
  let n := bytes.size
  let first := (List.range 8).foldl (fun sum i => sum + mixBlock bytes (16 * i) (16 * i))
    (n.toUInt64 * prime1)
  let rest := (List.range (n / 16 - 8)).foldl
    (fun sum i => sum + mixBlock bytes (16 * (i + 8)) (16 * i + 3)) (scatter first)
  scatter (rest + mixBlock bytes (n - 16) 119)

/-! ## Long inputs -/

/-- The accumulators before the first stripe. -/
def start : Array UInt64 :=
  #[halfPrime3, prime1, prime2, prime3, prime4, halfPrime2, prime5, halfPrime1]

/-- The product of the two halves of a word. -/
def halvesProduct (w : UInt64) : UInt64 := w.toUInt32.toUInt64 * (w >>> 32)

/-- Takes in 64 bytes. A word goes to the neighbour of the accumulator that its mixed form goes to. -/
def addStripe (bytes : Array UInt8) (offset keyOffset : Nat) (sums : Array UInt64) : Array UInt64 :=
  sums.mapIdx fun i sum =>
    let mixed := word bytes (offset + 8 * i) ^^^ keyWord (keyOffset + 8 * i)
    sum + word bytes (offset + 8 * (i ^^^ 1)) + halvesProduct mixed

/-- Takes in `count` stripes, with the key moved by a word for each. -/
def addStripes (bytes : Array UInt8) (offset count : Nat) (sums : Array UInt64) : Array UInt64 :=
  (List.range count).foldl (fun sums i => addStripe bytes (offset + 64 * i) (8 * i) sums) sums

/-- Mixes the accumulators once the key is used up. -/
def stir (sums : Array UInt64) : Array UInt64 :=
  sums.mapIdx fun (i : Nat) (sum : UInt64) =>
    (sum ^^^ sum >>> 47 ^^^ keyWord (128 + 8 * i)) * halfPrime1

/-- More than 240 bytes. -/
def ofStripes (bytes : Array UInt8) : UInt64 :=
  let n := bytes.size
  let rounds := (n - 1) / 1024
  let sums := (List.range rounds).foldl (fun sums i => stir (addStripes bytes (1024 * i) 16 sums)) start
  let sums := addStripes bytes (1024 * rounds) ((n - 1 - 1024 * rounds) / 64) sums
  let sums := addStripe bytes (n - 64) 121 sums
  let merged (i : Nat) : UInt64 :=
    foldedProduct (sums.getD (2 * i) 0 ^^^ keyWord (11 + 16 * i))
      (sums.getD (2 * i + 1) 0 ^^^ keyWord (19 + 16 * i))
  scatter ((List.range 4).foldl (fun sum i => sum + merged i) (n.toUInt64 * prime1))

/-- The digest of some bytes. -/
def ofBytes (bytes : ByteArray) : UInt64 :=
  let n := bytes.size
  if n = 0 then ofNone
  else if n ≤ 3 then ofFew bytes.data
  else if n ≤ 8 then ofHalves bytes.data
  else if n ≤ 16 then ofWords bytes.data
  else if n ≤ 128 then ofPairs bytes.data
  else if n ≤ 240 then ofBlocks bytes.data
  else ofStripes bytes.data

end Stencil.Digest
