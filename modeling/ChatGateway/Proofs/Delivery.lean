import ChatGateway.Proofs.Framing
import ChatGateway.Stream.Intake

/-!
# A body by its bytes

The deltas of a body depend on the bytes that came in time and on how they stopped,
not on the reads that brought them.  `deltas_eq_translation` says so for every list of
reads; two ways of delivering the same bytes are a special case of it.
-/

namespace ChatGateway

namespace Stream

inductive Stop where
  | closed
  | failed (reason : String)
  /-- Nothing comes for longer than the idle time. -/
  | silent
  deriving DecidableEq, Repr

/-- The failure of a body that stops before its terminal event, with `rest` in no block. -/
def Stop.failure (rest : List UInt8) : Stop -> Failure
  | .closed => Intake.cutShort ⟨rest⟩
  | .failed reason => .malformedStream ("failed to read upstream body: " ++ reason)
  | .silent => .timedOut

/-- The read that stops a body, `pause` after the one before it. -/
def Stop.reads (pause : Nat) : Stop -> List (Nat × Read)
  | .closed => [(pause, .closed)]
  | .failed reason => [(pause, .failed reason)]
  | .silent => []

/-- The bytes that reads bring in time, before anything else than bytes comes. -/
def arrived (idle : Nat) : List (Nat × Read) -> List UInt8
  | [] => []
  | (delay, read) :: rest =>
      if idle < delay then []
      else
        match read with
        | .chunk bytes => bytes ++ arrived idle rest
        | _ => []

/-- How the bytes of reads stop. -/
def stopOf (idle : Nat) : List (Nat × Read) -> Stop
  | [] => .silent
  | (delay, read) :: rest =>
      if idle < delay then .silent
      else
        match read with
        | .chunk _ => stopOf idle rest
        | .failed reason => .failed reason
        | .closed => .closed

namespace Intake

/-! ## One read -/

theorem interpretAll_append (progress : Progress) (first second : List (Except Failure Frame)) :
    interpretAll progress (first ++ second) =
      match interpretAll progress first with
      | (none, deltas) => (none, deltas)
      | (some after, deltas) =>
          ((interpretAll after second).1, deltas ++ (interpretAll after second).2) := by
  induction first generalizing progress with
  | nil =>
      simp [interpretAll]
  | cons frame first ih =>
      rw [List.cons_append, interpretAll, interpretAll]
      cases hframe : interpret progress frame with
      | mk after brought =>
          cases brought with
          | nothing =>
              simp only
              exact ih after
          | breakOff =>
              rfl
          | one delta =>
              by_cases hlast : delta.isTerminal
              · simp [hlast]
              · simp only [hlast, Bool.false_eq_true, if_false, ih after]
                cases interpretAll after first with
                | mk reached deltas => cases reached <;> rfl

/-- The state and the deltas after frames, `rest` being in no block. -/
def settle (rest : List UInt8) : Option Progress × List Delta -> Intake × List Delta
  | (some progress, deltas) => (.running ⟨rest⟩ progress, deltas)
  | (none, deltas) => (.ended, deltas)

theorem step_chunk (decoder : Decoder) (progress : Progress) (bytes : List UInt8) :
    (Intake.running decoder progress).step (.chunk bytes) =
      settle (remainder (decoder.buffer ++ bytes))
        (interpretAll progress (framesOf (decoder.buffer ++ bytes))) := by
  simp only [step, Decoder.drain_eq, Decoder.push]
  cases interpretAll progress (framesOf (decoder.buffer ++ bytes)) with
  | mk reached deltas => cases reached <;> rfl

@[simp] theorem step_ended (read : Read) : Intake.ended.step read = (.ended, []) := by
  cases read <;> rfl

/-- Two chunks do what their bytes in one chunk do. -/
theorem step_chunk_append (state : Intake) (first second : List UInt8) :
    state.step (.chunk (first ++ second)) =
      (((state.step (.chunk first)).1.step (.chunk second)).1,
        (state.step (.chunk first)).2 ++
          ((state.step (.chunk first)).1.step (.chunk second)).2) := by
  cases state with
  | ended =>
      simp
  | running decoder progress =>
      rw [step_chunk, step_chunk, ← List.append_assoc, framesOf_append, remainder_append,
        interpretAll_append]
      cases interpretAll progress (framesOf (decoder.buffer ++ first)) with
      | mk reached deltas =>
          cases reached with
          | none =>
              simp [settle]
          | some after =>
              simp only [settle, step_chunk]
              cases interpretAll after
                  (framesOf (remainder (decoder.buffer ++ first) ++ second)) with
              | mk reached more => cases reached <;> rfl

/-- The decoder holds no complete block. -/
def Settled : Intake -> Prop
  | .running decoder _ => splitBlock decoder.buffer = none
  | .ended => True

theorem initial_settled : initial.Settled := rfl

theorem step_chunk_settled (state : Intake) (bytes : List UInt8) :
    (state.step (.chunk bytes)).1.Settled := by
  cases state with
  | ended =>
      trivial
  | running decoder progress =>
      rw [step_chunk]
      cases interpretAll progress (framesOf (decoder.buffer ++ bytes)) with
      | mk reached deltas =>
          cases reached with
          | none => trivial
          | some after => exact splitBlock_blocks (decoder.buffer ++ bytes)

theorem step_chunk_nil {state : Intake} (h : state.Settled) :
    state.step (.chunk []) = (state, []) := by
  cases state with
  | ended =>
      rfl
  | running decoder progress =>
      have hblocks : blocks decoder.buffer = ([], decoder.buffer) := blocks_of_none h
      rw [step_chunk, List.append_nil]
      simp [framesOf, remainder, hblocks, interpretAll, settle]

/-! ## All reads -/

def outcome (idle : Nat) (state : Intake) (reads : List (Nat × Read)) : List Delta :=
  (deltasFrom idle 0 state reads).map Timed.value

/-- What comes does not depend on when it is read, as long as it is in time. -/
theorem map_value_deltasFrom (idle now : Nat) (state : Intake) (reads : List (Nat × Read)) :
    (deltasFrom idle now state reads).map Timed.value = outcome idle state reads := by
  unfold outcome
  suffices hany : ∀ other, (deltasFrom idle now state reads).map Timed.value =
      (deltasFrom idle other state reads).map Timed.value from hany 0
  induction reads generalizing now state with
  | nil =>
      intro other
      cases state <;> rfl
  | cons read rest ih =>
      intro other
      obtain ⟨delay, read⟩ := read
      cases state with
      | ended =>
          rfl
      | running decoder progress =>
          by_cases hlate : idle < delay
          · simp [deltasFrom, hlate]
          · simp only [deltasFrom, hlate, if_false, List.map_append, List.map_map]
            rw [ih (now + delay) _ (other + delay)]
            rfl

@[simp] theorem deltasFrom_ended (idle now : Nat) (reads : List (Nat × Read)) :
    deltasFrom idle now .ended reads = [] := by
  cases reads <;> rfl

@[simp] theorem endFrom_ended (idle now : Nat) (reads : List (Nat × Read)) :
    endFrom idle now .ended reads = now := by
  cases reads <;> rfl

@[simp] theorem outcome_ended (idle : Nat) (reads : List (Nat × Read)) :
    outcome idle .ended reads = [] := by
  simp [outcome]

theorem outcome_late {idle delay : Nat} (decoder : Decoder) (progress : Progress) (read : Read)
    (rest : List (Nat × Read)) (h : idle < delay) :
    outcome idle (.running decoder progress) ((delay, read) :: rest) = [.failed .timedOut] := by
  simp [outcome, deltasFrom, h]

theorem deltasFrom_cons {idle now delay : Nat} (state : Intake) (read : Read)
    (rest : List (Nat × Read)) (h : delay ≤ idle) :
    deltasFrom idle now state ((delay, read) :: rest) =
      (state.step read).2.map (fun delta => ⟨now + delay, delta⟩) ++
        deltasFrom idle (now + delay) (state.step read).1 rest := by
  cases state with
  | ended =>
      simp
  | running decoder progress =>
      simp only [deltasFrom, Nat.not_lt.2 h, if_false]

theorem outcome_cons {idle delay : Nat} (state : Intake) (read : Read)
    (rest : List (Nat × Read)) (h : delay ≤ idle) :
    outcome idle state ((delay, read) :: rest) =
      (state.step read).2 ++ outcome idle (state.step read).1 rest := by
  rw [outcome, deltasFrom_cons state read rest h, List.map_append, map_value_deltasFrom,
    List.map_map]
  congr 1
  exact List.map_id _

/-- The deltas that a body's stop adds. -/
def finish (stop : Stop) : Intake -> List Delta
  | .running decoder _ => [.failed (stop.failure decoder.buffer)]
  | .ended => []

theorem outcome_eq (idle : Nat) {state : Intake} (reads : List (Nat × Read))
    (settled : state.Settled) :
    outcome idle state reads =
      (state.step (.chunk (arrived idle reads))).2 ++
        (state.step (.chunk (arrived idle reads))).1.finish (stopOf idle reads) := by
  induction reads generalizing state with
  | nil =>
      rw [arrived, step_chunk_nil settled]
      cases state <;> rfl
  | cons read rest ih =>
      obtain ⟨delay, read⟩ := read
      by_cases hlate : idle < delay
      · have hnothing : arrived idle ((delay, read) :: rest) = [] := by
          simp [arrived, hlate]
        rw [hnothing, step_chunk_nil settled]
        cases state with
        | ended => simp [finish]
        | running decoder progress =>
            simp [outcome_late decoder progress read rest hlate, finish, stopOf, hlate,
              Stop.failure]
      · rw [outcome_cons state read rest (by omega)]
        cases read with
        | chunk bytes =>
            simp only [arrived, stopOf, hlate, if_false]
            rw [step_chunk_append, ih (step_chunk_settled state bytes), List.append_assoc]
        | failed reason =>
            simp only [arrived, stopOf, hlate, if_false]
            rw [step_chunk_nil settled]
            cases state <;> simp [step, finish, Stop.failure]
        | closed =>
            simp only [arrived, stopOf, hlate, if_false]
            rw [step_chunk_nil settled]
            cases state <;> simp [step, finish, Stop.failure]

/-- The deltas of a body that consists of these bytes and stops so. -/
def translation (bytes : List UInt8) (stop : Stop) : List Delta :=
  match interpretAll .initial (framesOf bytes) with
  | (none, deltas) => deltas
  | (some _, deltas) => deltas ++ [.failed (stop.failure (remainder bytes))]

/-- Every list of reads is worth the bytes that arrived and the way they stopped. -/
theorem deltas_eq_translation (idle : Nat) (reads : List (Nat × Read)) :
    (deltas idle reads).map Timed.value =
      translation (arrived idle reads) (stopOf idle reads) := by
  rw [deltas, map_value_deltasFrom, outcome_eq idle reads initial_settled, initial, step_chunk]
  simp only [Decoder.empty, List.nil_append, translation]
  cases interpretAll .initial (framesOf (arrived idle reads)) with
  | mk reached deltas => cases reached <;> simp [settle, finish]

/-! ## One byte string, two deliveries -/

/-- Chunks, each with the delay before it, and then the stop. -/
def delivery (chunks : List (Nat × List UInt8)) (stop : Stop) (pause : Nat) :
    List (Nat × Read) :=
  chunks.map (fun chunk => (chunk.1, .chunk chunk.2)) ++ stop.reads pause

theorem arrived_delivery {idle pause : Nat} {chunks : List (Nat × List UInt8)} {stop : Stop}
    (prompt : ∀ read ∈ delivery chunks stop pause, read.1 ≤ idle) :
    arrived idle (delivery chunks stop pause) = chunks.flatMap Prod.snd := by
  induction chunks with
  | nil =>
      cases stop <;> simp [delivery, Stop.reads, arrived]
  | cons chunk chunks ih =>
      have hfirst : ¬ idle < chunk.1 := Nat.not_lt.2 (prompt _ List.mem_cons_self)
      have hrest := ih fun read hread => prompt read (List.mem_cons_of_mem _ hread)
      rw [List.flatMap_cons, ← hrest]
      simp [delivery, arrived, hfirst]

theorem stopOf_delivery {idle pause : Nat} {chunks : List (Nat × List UInt8)} {stop : Stop}
    (prompt : ∀ read ∈ delivery chunks stop pause, read.1 ≤ idle) :
    stopOf idle (delivery chunks stop pause) = stop := by
  induction chunks with
  | nil =>
      cases stop with
      | silent =>
          rfl
      | closed =>
          have hpause : ¬ idle < pause := Nat.not_lt.2 (prompt _ List.mem_cons_self)
          simp [delivery, Stop.reads, stopOf, hpause]
      | failed reason =>
          have hpause : ¬ idle < pause := Nat.not_lt.2 (prompt _ List.mem_cons_self)
          simp [delivery, Stop.reads, stopOf, hpause]
  | cons chunk chunks ih =>
      have hfirst : ¬ idle < chunk.1 := Nat.not_lt.2 (prompt _ List.mem_cons_self)
      have hrest := ih fun read hread => prompt read (List.mem_cons_of_mem _ hread)
      simpa [delivery, stopOf, hfirst] using hrest

/--
However a byte string is cut into chunks, and whatever the delays within the idle
time, the same stop after it leaves the same deltas.
-/
theorem deltas_independent_of_chunks {idle pause pause' : Nat} {stop : Stop}
    {body : List UInt8} {chunks chunks' : List (Nat × List UInt8)}
    (cut : chunks.flatMap Prod.snd = body) (cut' : chunks'.flatMap Prod.snd = body)
    (prompt : ∀ read ∈ delivery chunks stop pause, read.1 ≤ idle)
    (prompt' : ∀ read ∈ delivery chunks' stop pause', read.1 ≤ idle) :
    (deltas idle (delivery chunks stop pause)).map Timed.value =
      (deltas idle (delivery chunks' stop pause')).map Timed.value := by
  rw [deltas_eq_translation, deltas_eq_translation, arrived_delivery prompt,
    arrived_delivery prompt', stopOf_delivery prompt, stopOf_delivery prompt', cut, cut']

/-- A letter of two bytes and a blank line of four, cut inside both, before a failed read. -/
theorem deltas_independent_of_chunks_inside_letter :
    let split : List (Nat × List UInt8) :=
      [(2, [0x64, 0xC3]), (0, []), (50, [0xA9, 0x0D, 0x0A, 0x0D]), (7, [0x0A])]
    let whole : List (Nat × List UInt8) := [(9, [0x64, 0xC3, 0xA9, 0x0D, 0x0A, 0x0D, 0x0A])]
    (deltas 50 (delivery split (.failed "reset") 1)).map Timed.value =
      (deltas 50 (delivery whole (.failed "reset") 50)).map Timed.value :=
  deltas_independent_of_chunks rfl rfl (by decide) (by decide)

end Intake

end Stream

end ChatGateway
