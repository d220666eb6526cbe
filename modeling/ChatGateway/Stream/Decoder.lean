import ChatGateway.Failure
import ChatGateway.Stream.Frame
import ChatGateway.Text.Utf8

/-!
# Decoding an event stream

Bytes are held back until a blank line ends a block, so it does not matter how
the stream was cut into reads.  A block that is not UTF-8 is a failure and is
gone; the blocks after it are read as ever.
-/

namespace ChatGateway

namespace Stream

/-- What follows a blank line at the front: two line feeds, or two pairs of return and feed. -/
def afterBlankLine? (input : List UInt8) : Option (List UInt8) :=
  match Text.dropStart? [0x0A, 0x0A] input with
  | some rest => some rest
  | none => Text.dropStart? [0x0D, 0x0A, 0x0D, 0x0A] input

/-- The bytes before the first blank line and those after it; `held` is reversed. -/
def splitBlockFrom (held : List UInt8) : List UInt8 -> Option (List UInt8 × List UInt8)
  | [] => none
  | byte :: rest =>
      match afterBlankLine? (byte :: rest) with
      | some after => some (held.reverse, after)
      | none => splitBlockFrom (byte :: held) rest

/-- The bytes before the first blank line and those after it. -/
def splitBlock (input : List UInt8) : Option (List UInt8 × List UInt8) :=
  splitBlockFrom [] input

/-- The frame of a block, nothing for a block without data. -/
def readBlock (block : List UInt8) : Option (Except Failure Frame) :=
  match Text.Utf8.decode? block with
  | none => some (.error (.malformedStream ("frame is not UTF-8: " ++ Text.Utf8.fault block)))
  | some text => (Frame.ofText text).map .ok

/-- The bytes that have come and are in no block yet. -/
structure Decoder where
  buffer : List UInt8
  deriving DecidableEq, Repr

namespace Decoder

def empty : Decoder := ⟨[]⟩

def push (decoder : Decoder) (chunk : List UInt8) : Decoder :=
  ⟨decoder.buffer ++ chunk⟩

/--
Takes blocks until one is a frame or a failure; what is left after a block is shorter than
what it was taken from, so the length is fuel enough.
-/
def nextWithin : Nat -> Decoder -> Option (Except Failure Frame) × Decoder
  | 0, decoder => (none, decoder)
  | fuel + 1, decoder =>
      match splitBlock decoder.buffer with
      | none => (none, decoder)
      | some (block, rest) =>
          match readBlock block with
          | some found => (some found, ⟨rest⟩)
          | none => nextWithin fuel ⟨rest⟩

/-- The next frame or failure, if a block that makes one is complete. -/
def next (decoder : Decoder) : Option (Except Failure Frame) × Decoder :=
  nextWithin decoder.buffer.length decoder

/-- Everything that is complete, in order. -/
def drainWithin : Nat -> Decoder -> List (Except Failure Frame) × Decoder
  | 0, decoder => ([], decoder)
  | fuel + 1, decoder =>
      match decoder.next with
      | (none, decoder) => ([], decoder)
      | (some found, decoder) =>
          let (more, decoder) := drainWithin fuel decoder
          (found :: more, decoder)

/-- Everything that is complete, in order. -/
def drain (decoder : Decoder) : List (Except Failure Frame) × Decoder :=
  drainWithin (decoder.buffer.length + 1) decoder

/-- Blank, tab, line feed, form feed and carriage return. -/
def isBlank (byte : UInt8) : Bool :=
  byte = 0x20 || byte = 0x09 || byte = 0x0A || byte = 0x0C || byte = 0x0D

/-- Something other than blanks has begun a block that is not complete. -/
def hasPartial (decoder : Decoder) : Bool :=
  decoder.buffer.any fun byte => !isBlank byte

end Decoder

end Stream

end ChatGateway
