/-!
# XXH64

The 64-bit xxHash of a byte sequence under seed zero. Inputs of at least thirty-two bytes pass
through four lanes, eight bytes to a lane per stripe; the rest is folded in by words of eight
bytes, one word of four, and single bytes, and a final mix spreads every bit.

* `xxh64`: the hash of a byte list
* `hashString`: the hash of a string's UTF-8 bytes
-/

namespace ClassCompiler.Hash

def prime1 : UInt64 := 0x9e3779b185ebca87
def prime2 : UInt64 := 0xc2b2ae3d27d4eb4f
def prime3 : UInt64 := 0x165667b19e3779f9
def prime4 : UInt64 := 0x85ebca77c2b2ae63
def prime5 : UInt64 := 0x27d4eb2f165667c5

/-- Rotation to the left by `count` bits, for `count` between 1 and 63. -/
def rotateLeft (word count : UInt64) : UInt64 :=
  (word <<< count) ||| (word >>> (64 - count))

/-- The number whose base-256 digits are `bytes`, least significant first. -/
def littleEndian (bytes : List UInt8) : UInt64 :=
  bytes.foldr (fun byte rest => byte.toUInt64 ||| (rest <<< 8)) 0

def round (lane input : UInt64) : UInt64 :=
  rotateLeft (lane + input * prime2) 31 * prime1

/-! ## Lanes -/

structure Lanes where
  first : UInt64
  second : UInt64
  third : UInt64
  fourth : UInt64

def Lanes.start : Lanes := ⟨prime1 + prime2, prime2, 0, 0 - prime1⟩

/-- Each lane takes its eight bytes of a stripe. -/
def Lanes.absorb (lanes : Lanes) (stripe : List UInt8) : Lanes where
  first := round lanes.first (littleEndian (stripe.take 8))
  second := round lanes.second (littleEndian ((stripe.drop 8).take 8))
  third := round lanes.third (littleEndian ((stripe.drop 16).take 8))
  fourth := round lanes.fourth (littleEndian ((stripe.drop 24).take 8))

/-- Absorbs the first `count` stripes of thirty-two bytes. -/
def Lanes.absorbAll (lanes : Lanes) : Nat → List UInt8 → Lanes
  | 0, _ => lanes
  | count + 1, bytes => (lanes.absorb (bytes.take 32)).absorbAll count (bytes.drop 32)

def mergeRound (hash lane : UInt64) : UInt64 :=
  (hash ^^^ round 0 lane) * prime1 + prime4

def Lanes.merge (lanes : Lanes) : UInt64 :=
  let hash := rotateLeft lanes.first 1 + rotateLeft lanes.second 7
    + rotateLeft lanes.third 12 + rotateLeft lanes.fourth 18
  mergeRound (mergeRound (mergeRound (mergeRound hash lanes.first) lanes.second) lanes.third)
    lanes.fourth

/-! ## Tail and final mix -/

/-- Folds in `count` words of eight bytes. -/
def foldWords (hash : UInt64) : Nat → List UInt8 → UInt64
  | 0, _ => hash
  | count + 1, bytes =>
    foldWords (rotateLeft (hash ^^^ round 0 (littleEndian (bytes.take 8))) 27 * prime1 + prime4)
      count (bytes.drop 8)

def foldHalf (hash : UInt64) (bytes : List UInt8) : UInt64 :=
  rotateLeft (hash ^^^ littleEndian bytes * prime1) 23 * prime2 + prime3

def foldByte (hash : UInt64) (byte : UInt8) : UInt64 :=
  rotateLeft (hash ^^^ byte.toUInt64 * prime5) 11 * prime1

/-- Folds in the fewer than thirty-two bytes that follow the stripes. -/
def foldTail (hash : UInt64) (bytes : List UInt8) : UInt64 :=
  let words := bytes.length / 8
  let hash := foldWords hash words bytes
  let bytes := bytes.drop (8 * words)
  if 4 ≤ bytes.length then (bytes.drop 4).foldl foldByte (foldHalf hash (bytes.take 4))
  else bytes.foldl foldByte hash

def avalanche (hash : UInt64) : UInt64 :=
  let hash := (hash ^^^ (hash >>> 33)) * prime2
  let hash := (hash ^^^ (hash >>> 29)) * prime3
  hash ^^^ (hash >>> 32)

def xxh64 (bytes : List UInt8) : UInt64 :=
  let stripes := bytes.length / 32
  let hash := if stripes = 0 then prime5 else (Lanes.start.absorbAll stripes bytes).merge
  avalanche (foldTail (hash + bytes.length.toUInt64) (bytes.drop (32 * stripes)))

def hashString (text : String) : UInt64 :=
  xxh64 text.toUTF8.data.toList

end ClassCompiler.Hash
