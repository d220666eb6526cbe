import ChatGateway.Stream.Decoder
import ChatGateway.Stream.Delta

/-!
# Taking in a body

The body of a streamed answer arrives in reads.  Each read is decoded into
frames, the frames into events and the events into deltas.  One terminal delta
ends the list, whatever the body holds, unless the stream breaks off.
-/

namespace ChatGateway

namespace Stream

inductive Read where
  | chunk (bytes : List UInt8)
  | failed (reason : String)
  | closed
  deriving DecidableEq, Repr

/-- What is due at one time. -/
structure Timed (α : Type) where
  time : Nat
  value : α
  deriving Repr

inductive Intake where
  | running (decoder : Decoder) (progress : Progress)
  /-- Nothing more comes: the terminal delta has come, or the stream has broken off. -/
  | ended
  deriving DecidableEq, Repr

namespace Intake

def initial : Intake := .running .empty .initial

def unreadable (frame : Frame) (fault : Json.Fault) : Failure :=
  .malformedStream ("unparsable " ++ frame.event.getD "data" ++ " event: " ++ fault.message)

/-- The progress after a frame, and what it brings. -/
def interpret (progress : Progress) : Except Failure Frame -> Progress × Brought
  | .error failure => (progress, .one (.failed failure))
  | .ok frame =>
      match Event.read frame.data with
      | .error fault => (progress, .one (.failed (unreadable frame fault)))
      | .ok event => progress.step event

/-- The deltas of the frames, up to the first terminal one or to where the stream breaks off. -/
def interpretAll : Progress -> List (Except Failure Frame) -> Option Progress × List Delta
  | progress, [] => (some progress, [])
  | progress, frame :: rest =>
      match interpret progress frame with
      | (progress, .nothing) => interpretAll progress rest
      | (_, .breakOff) => (none, [])
      | (progress, .one delta) =>
          if delta.isTerminal then (none, [delta])
          else
            let (after, deltas) := interpretAll progress rest
            (after, delta :: deltas)

/-- The failure of a body that ends before its terminal event. -/
def cutShort (decoder : Decoder) : Failure :=
  .malformedStream
    (if decoder.hasPartial then "upstream closed mid-frame"
      else "upstream closed before message_stop")

/-- One read: the state after it and the deltas it brings. -/
def step : Intake -> Read -> Intake × List Delta
  | .ended, _ => (.ended, [])
  | .running decoder progress, .chunk bytes =>
      let (frames, decoder) := (decoder.push bytes).drain
      match interpretAll progress frames with
      | (some progress, deltas) => (.running decoder progress, deltas)
      | (none, deltas) => (.ended, deltas)
  | .running _ _, .failed reason =>
      (.ended, [.failed (.malformedStream ("failed to read upstream body: " ++ reason))])
  | .running decoder _, .closed => (.ended, [.failed (cutShort decoder)])

/--
The deltas of a body with the times at which they come.  Each read has the delay
since the one before it; a delay longer than `idle` ends the stream with a
timeout, and so does a body that stops without being closed.
-/
def deltasFrom (idle : Nat) : Nat -> Intake -> List (Nat × Read) -> List (Timed Delta)
  | _, .ended, _ => []
  | now, .running _ _, [] => [⟨now + idle, .failed .timedOut⟩]
  | now, .running decoder progress, (delay, read) :: rest =>
      if idle < delay then [⟨now + idle, .failed .timedOut⟩]
      else
        let (after, deltas) := (Intake.running decoder progress).step read
        deltas.map (fun delta => ⟨now + delay, delta⟩) ++
          deltasFrom idle (now + delay) after rest

def deltas (idle : Nat) (reads : List (Nat × Read)) : List (Timed Delta) :=
  deltasFrom idle 0 .initial reads

/-- When nothing more comes of a body. -/
def endFrom (idle : Nat) : Nat -> Intake -> List (Nat × Read) -> Nat
  | now, .ended, _ => now
  | now, .running _ _, [] => now + idle
  | now, .running decoder progress, (delay, read) :: rest =>
      if idle < delay then now + idle
      else endFrom idle (now + delay) ((Intake.running decoder progress).step read).1 rest

def ending (idle : Nat) (reads : List (Nat × Read)) : Nat :=
  endFrom idle 0 .initial reads

end Intake

end Stream

end ChatGateway
