/-!
# SHA-256

The digest of a byte string: it is padded to blocks of sixteen words, and each
block is mixed into eight words of state in sixty-four rounds.
-/

namespace ChatGateway

namespace Sha256

/-- The words that a block is mixed into. -/
structure State where
  a : UInt32
  b : UInt32
  c : UInt32
  d : UInt32
  e : UInt32
  f : UInt32
  g : UInt32
  h : UInt32
  deriving DecidableEq, Repr

namespace State

/-- The state before the first block. -/
def initial : State :=
  ⟨0x6A09E667, 0xBB67AE85, 0x3C6EF372, 0xA54FF53A,
    0x510E527F, 0x9B05688C, 0x1F83D9AB, 0x5BE0CD19⟩

/-- The sum of two states, word by word. -/
def add (left right : State) : State :=
  ⟨left.a + right.a, left.b + right.b, left.c + right.c, left.d + right.d,
    left.e + right.e, left.f + right.f, left.g + right.g, left.h + right.h⟩

/-- The words in order. -/
def words (state : State) : List UInt32 :=
  [state.a, state.b, state.c, state.d, state.e, state.f, state.g, state.h]

end State

/-- The constant of each round. -/
def constants : List UInt32 := [
  0x428A2F98, 0x71374491, 0xB5C0FBCF, 0xE9B5DBA5, 0x3956C25B, 0x59F111F1, 0x923F82A4, 0xAB1C5ED5,
  0xD807AA98, 0x12835B01, 0x243185BE, 0x550C7DC3, 0x72BE5D74, 0x80DEB1FE, 0x9BDC06A7, 0xC19BF174,
  0xE49B69C1, 0xEFBE4786, 0x0FC19DC6, 0x240CA1CC, 0x2DE92C6F, 0x4A7484AA, 0x5CB0A9DC, 0x76F988DA,
  0x983E5152, 0xA831C66D, 0xB00327C8, 0xBF597FC7, 0xC6E00BF3, 0xD5A79147, 0x06CA6351, 0x14292967,
  0x27B70A85, 0x2E1B2138, 0x4D2C6DFC, 0x53380D13, 0x650A7354, 0x766A0ABB, 0x81C2C92E, 0x92722C85,
  0xA2BFE8A1, 0xA81A664B, 0xC24B8B70, 0xC76C51A3, 0xD192E819, 0xD6990624, 0xF40E3585, 0x106AA070,
  0x19A4C116, 0x1E376C08, 0x2748774C, 0x34B0BCB5, 0x391C0CB3, 0x4ED8AA4A, 0x5B9CCA4F, 0x682E6FF3,
  0x748F82EE, 0x78A5636F, 0x84C87814, 0x8CC70208, 0x90BEFFFA, 0xA4506CEB, 0xBEF9A3F7, 0xC67178F2]

/-- The bits of a word moved to the right in a circle. -/
def rotate (count word : UInt32) : UInt32 :=
  (word >>> count) ||| (word <<< (32 - count))

/-- One round with its constant and its word of the schedule. -/
def round (state : State) (key : UInt32 × UInt32) : State :=
  let mixed := rotate 6 state.e ^^^ rotate 11 state.e ^^^ rotate 25 state.e
  let choice := (state.e &&& state.f) ^^^ (~~~state.e &&& state.g)
  let first := state.h + mixed + choice + key.1 + key.2
  let blended := rotate 2 state.a ^^^ rotate 13 state.a ^^^ rotate 22 state.a
  let majority := (state.a &&& state.b) ^^^ (state.a &&& state.c) ^^^ (state.b &&& state.c)
  ⟨first + (blended + majority), state.a, state.b, state.c,
    state.d + first, state.e, state.f, state.g⟩

/-- Adds words to a schedule, which is reversed and holds sixteen words at least. -/
def extend : Nat -> List UInt32 -> List UInt32
  | 0, schedule => schedule
  | count + 1, schedule =>
      let word (back : Nat) : UInt32 := schedule.getD (back - 1) 0
      let near := rotate 17 (word 2) ^^^ rotate 19 (word 2) ^^^ (word 2 >>> 10)
      let far := rotate 7 (word 15) ^^^ rotate 18 (word 15) ^^^ (word 15 >>> 3)
      extend count ((near + word 7 + far + word 16) :: schedule)

/-- The schedule of a block: its sixteen words and forty-eight after them. -/
def schedule (block : List UInt32) : List UInt32 :=
  (extend 48 block.reverse).reverse

/-- Mixes a block into the state. -/
def compress (state : State) (block : List UInt32) : State :=
  state.add ((constants.zip (schedule block)).foldl round state)

/-- The bytes of a number, the highest first. -/
def bigEndian : Nat -> Nat -> List UInt8
  | 0, _ => []
  | count + 1, n => UInt8.ofNat (n / Nat.pow 0x100 count) :: bigEndian count n

/--
The message, a byte with its top bit set, zeros up to the last eight bytes of a block, and
its length in bits.
-/
def pad (message : List UInt8) : List UInt8 :=
  message ++ 0x80 :: (List.replicate ((119 - message.length % 64) % 64) 0 ++
    bigEndian 8 (8 * message.length))

/-- Four bytes a word, the highest first. -/
def wordsOf : List UInt8 -> List UInt32
  | a :: b :: c :: d :: rest =>
      UInt32.ofNat (((a.toNat * 0x100 + b.toNat) * 0x100 + c.toNat) * 0x100 + d.toNat) ::
        wordsOf rest
  | _ => []

/-- The first `count` blocks of sixteen words. -/
def blocks : Nat -> List UInt32 -> List (List UInt32)
  | 0, _ => []
  | count + 1, words => words.take 16 :: blocks count (words.drop 16)

/-- The digest of a message, thirty-two bytes. -/
def digest (message : List UInt8) : List UInt8 :=
  let words := wordsOf (pad message)
  ((blocks (words.length / 16) words).foldl compress State.initial).words.flatMap
    fun word => bigEndian 4 word.toNat

end Sha256

end ChatGateway
