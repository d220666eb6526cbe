import ChatGateway.Proofs.SelectLoop
import ChatGateway.Proofs.Terminal
import Mathlib.Data.List.TakeWhile

/-!
# The time that a body may be idle

The translator waits for a read no longer than the idle time, counted from when it begins
to wait.  As its consumer is never late, that is the time of the last read, whatever that
read brought; comments that the writer gives meanwhile do not matter.
`deltas_by_idle_time` has both, for the translator alone and under the writer.  A stream
that breaks off is over for its consumer like one that has ended.
-/

namespace ChatGateway

namespace Stream

/-! ## The translator -/

/--
The translator between two rounds: the deltas of the last read that nobody has taken yet,
how long it waits for the next read, and the reads that are still to come.
-/
structure Translator where
  intake : Intake
  held : List Delta
  deadline : Option Nat
  coming : List (Timed Read)

namespace Translator

variable {idle now due : Nat} {translator after : Translator}

/-- A read is taken: its deltas are held, and the next wait begins anew. -/
def take (translator : Translator) (read : Read) (rest : List (Timed Read)) : Translator :=
  ⟨(translator.intake.step read).1, (translator.intake.step read).2, none, rest⟩

/-- No read is there: the stream fails when the wait is over. -/
def stall (now due : Nat) (translator : Translator) : Round Delta × Translator :=
  if due ≤ now then (.gives (.failed .timedOut), { translator with intake := .ended })
  else (.waits, translator)

def round (idle now : Nat) (translator : Translator) : Round Delta × Translator :=
  match translator.held with
  | delta :: rest => (.gives delta, { translator with held := rest })
  | [] =>
      match translator.intake, translator.deadline with
      | .ended, _ => (.ends, translator)
      | .running _ _, none => (.again, { translator with deadline := some (now + idle) })
      | .running _ _, some due =>
          match translator.coming with
          | read :: rest =>
              if read.time ≤ now then (.again, translator.take read.value rest)
              else translator.stall now due
          | [] => translator.stall now due

/-- The end of the wait, or the next read if that comes earlier. -/
def wake (translator : Translator) : Option Nat :=
  translator.deadline.map fun due =>
    translator.coming.head?.elim due fun read => min due read.time

theorem stall_eq_waits :
    translator.stall now due = (.waits, after) ↔ after = translator ∧ now < due := by
  by_cases hdue : due ≤ now
  · simp [stall, hdue]
  · simp [stall, hdue, Nat.lt_of_not_le hdue, eq_comm]

theorem round_eq_waits :
    round idle now translator = (.waits, after) ↔
      after = translator ∧ translator.held = [] ∧ translator.intake ≠ .ended ∧
        ∃ due, translator.wake = some due ∧ now < due := by
  obtain ⟨intake, held, deadline, coming⟩ := translator
  cases held with
  | cons delta rest =>
      simp [round]
  | nil =>
      cases intake with
      | ended =>
          simp [round]
      | running decoder progress =>
          cases deadline with
          | none =>
              simp [round, wake]
          | some due =>
              cases coming with
              | nil =>
                  simp [round, wake, stall_eq_waits]
              | cons read rest =>
                  by_cases hread : read.time ≤ now
                  · have hmin : min due read.time ≤ now := by omega
                    simp [round, wake, hread, Nat.not_lt.2 hmin]
                  · have hmin : now < min due read.time ↔ now < due := by omega
                    simp [round, wake, hread, stall_eq_waits, hmin]

/-- The translator as a stream. -/
def stream (idle : Nat) : Polled Translator Delta where
  round := round idle
  wake := wake
  wake_later := by
    intro now due translator after hround hdue
    obtain ⟨rfl, _, _, time, hwake, hlater⟩ := round_eq_waits.1 hround
    rw [hwake] at hdue
    cases hdue
    exact hlater
  steady := by
    intro now later translator after hround _ hlater
    obtain ⟨rfl, hheld, hopen, time, hwake, _⟩ := round_eq_waits.1 hround
    exact round_eq_waits.2 ⟨rfl, hheld, hopen, time, hwake, hlater time hwake⟩

/-- The times at which reads arrive, each with the delay since the one before it. -/
def arrivals : Nat -> List (Nat × Read) -> List (Timed Read)
  | _, [] => []
  | now, (delay, read) :: rest => ⟨now + delay, read⟩ :: arrivals (now + delay) rest

/-- The translator when a body begins. -/
def initial (reads : List (Nat × Read)) : Translator :=
  ⟨.initial, [], none, arrivals 0 reads⟩

variable {leave : Option Nat} {stop : Nat} {intake : Intake} {coming : List (Timed Read)}

/-- Deltas that are held come at once. -/
theorem runs_held {deadline : Option Nat} {deltas : List (Timed Delta)} (held : List Delta)
    (runs : Runs (stream idle) leave now ⟨intake, [], deadline, coming⟩ deltas stop) :
    Runs (stream idle) leave now ⟨intake, held, deadline, coming⟩
      (held.map (fun delta => ⟨now, delta⟩) ++ deltas) stop := by
  induction held with
  | nil =>
      exact runs
  | cons delta rest ih =>
      exact .gives rfl ih

theorem runs_ended {deadline : Option Nat} :
    Runs (stream idle) leave now ⟨.ended, [], deadline, coming⟩ [] now :=
  .ends rfl

/-- Whatever a waiting translator does next happens when it has something to do. -/
theorem runs_of_wake {state : Translator} {time : Nat} {deltas : List (Timed Delta)}
    (hheld : state.held = []) (hopen : state.intake ≠ .ended) (hwake : state.wake = some time)
    (hnow : now ≤ time) (hrest : Runs (stream idle) none time state deltas stop) :
    Runs (stream idle) none now state deltas stop := by
  rcases Nat.lt_or_eq_of_le hnow with hwait | rfl
  · have hround : (stream idle).round now state = (.waits, state) :=
      round_eq_waits.2 ⟨rfl, hheld, hopen, time, hwake, hwait⟩
    exact .waits hround hwake (by simp) hrest
  · exact hrest

/-- No read comes before the wait is over. -/
theorem runs_timeout (idle : Nat) (decoder : Decoder) (progress : Progress) (hnow : now ≤ due)
    (hlate : ∀ read ∈ coming.head?, due < read.time) :
    Runs (stream idle) none now ⟨.running decoder progress, [], some due, coming⟩
      [⟨due, .failed .timedOut⟩] due := by
  have hwake : wake ⟨.running decoder progress, [], some due, coming⟩ = some due := by
    cases coming with
    | nil =>
        rfl
    | cons read rest =>
        have hread := hlate read rfl
        simp only [wake, Option.map_some, List.head?_cons, Option.elim_some, Option.some.injEq]
        omega
  have hround : (stream idle).round due ⟨.running decoder progress, [], some due, coming⟩ =
      (.gives (.failed .timedOut), ⟨.ended, [], some due, coming⟩) := by
    cases coming with
    | nil =>
        simp [stream, round, stall]
    | cons read rest =>
        simp [stream, round, stall, Nat.not_le.2 (hlate read rfl)]
  exact runs_of_wake rfl (by simp) hwake hnow (.gives hround runs_ended)

/-- A read that comes while the translator waits is taken when it comes. -/
theorem runs_read {read : Timed Read} {rest : List (Timed Read)} {deltas : List (Timed Delta)}
    (decoder : Decoder) (progress : Progress) (hnow : now ≤ read.time) (hprompt : read.time ≤ due)
    (hrest : Runs (stream idle) none read.time
      (take ⟨.running decoder progress, [], some due, read :: rest⟩ read.value rest) deltas stop) :
    Runs (stream idle) none now ⟨.running decoder progress, [], some due, read :: rest⟩
      deltas stop := by
  have hmin : min due read.time = read.time := by omega
  refine runs_of_wake rfl (by simp) (congrArg some hmin) hnow (.again ?_ hrest)
  simp [stream, round]

/--
The translator gives the deltas of a body at the times at which they come, and is over when
nothing more comes.
-/
theorem runs (idle now : Nat) (intake : Intake) (reads : List (Nat × Read)) :
    Runs (stream idle) none now ⟨intake, [], none, arrivals now reads⟩
      (Intake.deltasFrom idle now intake reads) (Intake.endFrom idle now intake reads) := by
  induction reads generalizing now intake with
  | nil =>
      cases intake with
      | ended =>
          exact runs_ended
      | running decoder progress =>
          exact .again rfl
            (runs_timeout idle decoder progress (Nat.le_add_right now idle) (by simp [arrivals]))
  | cons read rest ih =>
      obtain ⟨delay, read⟩ := read
      cases intake with
      | ended =>
          exact runs_ended
      | running decoder progress =>
          refine .again rfl ?_
          by_cases hlate : idle < delay
          · have htimeout : Runs (stream idle) none now
                ⟨.running decoder progress, [], some (now + idle),
                  arrivals now ((delay, read) :: rest)⟩ [⟨now + idle, .failed .timedOut⟩]
                (now + idle) :=
              runs_timeout idle decoder progress (Nat.le_add_right now idle)
                (by simp [arrivals, hlate])
            simpa only [Intake.deltasFrom, Intake.endFrom, hlate, if_true] using htimeout
          · have hrest := ih (now + delay) ((Intake.running decoder progress).step read).1
            simp only [Intake.deltasFrom, Intake.endFrom, hlate, if_false, arrivals]
            exact runs_read decoder progress (Nat.le_add_right now delay)
              (Nat.add_le_add_left (Nat.le_of_not_lt hlate) now) (runs_held _ hrest)

end Translator

namespace Intake

/-! ## What reads bring -/

/-- The state after reads. -/
def after (state : Intake) (reads : List (Nat × Read)) : Intake :=
  reads.foldl (fun state read => (state.step read.2).1) state

/-- The deltas of reads that are all taken, each at the time of its read. -/
def stamped (now : Nat) (state : Intake) : List (Nat × Read) -> List (Timed Delta)
  | [] => []
  | (delay, read) :: rest =>
      (state.step read).2.map (fun delta => ⟨now + delay, delta⟩) ++
        stamped (now + delay) (state.step read).1 rest

/-- The time that reads take. -/
def elapsed : List (Nat × Read) -> Nat
  | [] => 0
  | (delay, _) :: rest => delay + elapsed rest

/-- The same reads without delays. -/
def undelayed (reads : List (Nat × Read)) : List (Nat × Read) :=
  reads.map fun read => (0, read.2)

/-- The reads before the first one that comes too late. -/
def prompt (idle : Nat) (reads : List (Nat × Read)) : List (Nat × Read) :=
  reads.takeWhile fun read => read.1 ≤ idle

variable {idle now : Nat} {state : Intake} {reads before rest : List (Nat × Read)}

/-- Reads in time are taken one after the other, and the wait for the next begins after them. -/
theorem deltasFrom_append (now : Nat) (state : Intake) (h : ∀ read ∈ before, read.1 ≤ idle) :
    deltasFrom idle now state (before ++ rest) =
      stamped now state before ++
        deltasFrom idle (now + elapsed before) (state.after before) rest := by
  induction before generalizing now state with
  | nil =>
      rfl
  | cons read before ih =>
      obtain ⟨delay, read⟩ := read
      rw [List.cons_append, deltasFrom_cons state read _ (h _ List.mem_cons_self),
        ih _ _ fun other hother => h other (List.mem_cons_of_mem _ hother)]
      simp only [stamped, after, elapsed, List.foldl_cons, Nat.add_assoc, List.append_assoc]

/-- When no further read comes in time, the body fails at the end of the wait. -/
theorem deltasFrom_silent (hopen : state ≠ .ended) (hlate : ∀ read ∈ rest.head?, idle < read.1) :
    deltasFrom idle now state rest = [⟨now + idle, .failed .timedOut⟩] := by
  cases state with
  | ended =>
      exact absurd rfl hopen
  | running decoder progress =>
      cases rest with
      | nil =>
          rfl
      | cons read rest =>
          have hread := hlate read rfl
          simp [deltasFrom, hread]

theorem map_value_stamped (now : Nat) (state : Intake) (reads : List (Nat × Read)) :
    (stamped now state reads).map Timed.value =
      (stamped 0 state (undelayed reads)).map Timed.value := by
  suffices hany : ∀ other, (stamped now state reads).map Timed.value =
      (stamped other state (undelayed reads)).map Timed.value from hany 0
  induction reads generalizing now state with
  | nil =>
      intro other
      rfl
  | cons read rest ih =>
      intro other
      have hrest := ih (now + read.1) (state.step read.2).1 (other + 0)
      simp only [undelayed, List.map_cons, stamped, List.map_append, List.map_map] at hrest ⊢
      rw [hrest]
      rfl

theorem after_undelayed (state : Intake) (reads : List (Nat × Read)) :
    state.after (undelayed reads) = state.after reads := by
  simp [after, undelayed, List.foldl_map]

/-! ## The whole body -/

/-- After the prompt reads comes a late one, or none. -/
theorem reads_eq_append (idle : Nat) (reads : List (Nat × Read)) :
    ∃ rest, reads = prompt idle reads ++ rest ∧ (∀ read ∈ prompt idle reads, read.1 ≤ idle) ∧
      ∀ read ∈ rest.head?, idle < read.1 := by
  refine ⟨reads.dropWhile fun read => read.1 ≤ idle, List.takeWhile_append_dropWhile.symm, ?_, ?_⟩
  · intro read hread
    simpa using List.mem_takeWhile_imp hread
  · intro read hread
    have hfirst := List.head?_dropWhile_not (fun read : Nat × Read => decide (read.1 ≤ idle)) reads
    rw [hread] at hfirst
    simpa using hfirst

theorem watched_iff (idle : Nat) (reads : List (Nat × Read)) (seen : List (Timed Delta)) :
    Watched (Translator.stream idle) none 0 (Translator.initial reads) seen ↔
      seen = deltas idle reads :=
  (Translator.runs idle 0 .initial reads).watched_iff seen

theorem frames_watched_iff (idle : Nat) (encoder : Encoder) (reads : List (Nat × Read))
    (seen : List (Timed Outgoing)) :
    Watched (Writer.stream (Translator.stream idle)) none 0
        (Writer.initial encoder (Translator.initial reads)) seen ↔
      seen = encoder.frames (ending idle reads) (deltas idle reads) :=
  Writer.watched_iff (Translator.runs idle 0 .initial reads) encoder seen

/-- Nothing more comes after the prompt reads. -/
theorem deltas_of_ended (h : initial.after (prompt idle reads) = .ended) :
    deltas idle reads = stamped 0 initial (prompt idle reads) ∧
      (deltas idle reads).map Timed.value = (deltas idle (undelayed reads)).map Timed.value := by
  obtain ⟨rest, hsplit, hprompt, _⟩ := reads_eq_append idle reads
  generalize prompt idle reads = before at h hsplit hprompt ⊢
  subst hsplit
  have hown : deltas idle (before ++ rest) = stamped 0 initial before := by
    rw [deltas, deltasFrom_append 0 initial hprompt, h, deltasFrom_ended, List.append_nil]
  have hundelayed : deltas idle (undelayed (before ++ rest)) =
      stamped 0 initial (undelayed before) := by
    have hzero : ∀ read ∈ undelayed before, read.1 ≤ idle := by
      intro read hread
      obtain ⟨_, _, rfl⟩ := List.mem_map.1 hread
      exact Nat.zero_le idle
    rw [deltas, undelayed, List.map_append, ← undelayed, deltasFrom_append 0 initial hzero,
      after_undelayed, h, deltasFrom_ended, List.append_nil]
  refine ⟨hown, ?_⟩
  rw [hown, hundelayed]
  exact map_value_stamped 0 initial before

/-- A late read, or none, comes while something may still come. -/
theorem deltas_of_open (h : initial.after (prompt idle reads) ≠ .ended) :
    deltas idle reads = stamped 0 initial (prompt idle reads) ++
      [⟨elapsed (prompt idle reads) + idle, .failed .timedOut⟩] := by
  obtain ⟨rest, hsplit, hprompt, hlate⟩ := reads_eq_append idle reads
  generalize prompt idle reads = before at h hsplit hprompt ⊢
  subst hsplit
  rw [deltas, deltasFrom_append 0 initial hprompt, deltasFrom_silent h hlate, Nat.zero_add]

/-- After reads in time nothing more comes if they have the terminal delta or break off. -/
theorem after_prompt_eq_ended_iff :
    initial.after (prompt idle reads) = .ended ↔
      (∃ delta ∈ stamped 0 initial (prompt idle reads), delta.value.isTerminal = true) ∨
        BreaksOff (framesOf (arrived idle reads)) := by
  constructor
  · intro hended
    by_cases hbreaks : BreaksOff (framesOf (arrived idle reads))
    · exact .inr hbreaks
    · obtain ⟨init, last, hsplit, hlast, -⟩ := deltas_endsWithOnly hbreaks
      refine .inl ⟨last, ?_, hlast⟩
      rw [← (deltas_of_ended hended).1, hsplit]
      simp
  · intro hover
    by_contra hopen
    have hdeltas := deltas_of_open hopen
    -- the timeout is the terminal delta, so that the reads have none, and no break
    rcases hover with ⟨delta, hmem, hterminal⟩ | hbreaks
    · have hnone : ¬ BreaksOff (framesOf (arrived idle reads)) := by
        intro hbreaks
        have hfalse := deltas_of_breaksOff hbreaks delta (by rw [hdeltas]; simp [hmem])
        rw [hterminal] at hfalse
        cases hfalse
      obtain ⟨init, last, hsplit, -, hinit⟩ := deltas_endsWithOnly hnone
      rw [hdeltas] at hsplit
      obtain ⟨rfl, -⟩ := List.append_inj' hsplit rfl
      exact hinit delta hmem hterminal
    · have htimeout := deltas_of_breaksOff hbreaks
        ⟨elapsed (prompt idle reads) + idle, .failed .timedOut⟩ (by rw [hdeltas]; simp)
      cases htimeout

/--
What the polled translator gives, and what a caller gets of it through the writer, whose
own alarm goes off meanwhile: if a terminal delta comes before any read that is late, or
the stream breaks off there, the deltas of the reads, the same ones as without delays; or
else the deltas of the reads before the late one and a timeout, `idle` after the last of them.
-/
theorem deltas_by_idle_time (idle : Nat) (encoder : Encoder) (reads : List (Nat × Read)) :
    (∀ seen, Watched (Translator.stream idle) none 0 (Translator.initial reads) seen ↔
      seen = deltas idle reads) ∧
    (∀ seen, Watched (Writer.stream (Translator.stream idle)) none 0
        (Writer.initial encoder (Translator.initial reads)) seen ↔
      seen = encoder.frames (ending idle reads) (deltas idle reads)) ∧
    let before := prompt idle reads
    (((∃ delta ∈ stamped 0 initial before, delta.value.isTerminal = true) ∨
        BreaksOff (framesOf (arrived idle reads))) ∧
      deltas idle reads = stamped 0 initial before ∧
      (deltas idle reads).map Timed.value = (deltas idle (undelayed reads)).map Timed.value) ∨
    ((∀ delta ∈ stamped 0 initial before, delta.value.isTerminal = false) ∧
      ¬ BreaksOff (framesOf (arrived idle reads)) ∧
      deltas idle reads =
        stamped 0 initial before ++ [⟨elapsed before + idle, .failed .timedOut⟩] ∧
      ∀ stop, ∃ earlier, encoder.frames stop (deltas idle reads) =
        earlier ++ [⟨elapsed before + idle, .data Failure.timedOut.body⟩]) := by
  refine ⟨watched_iff idle reads, frames_watched_iff idle encoder reads, ?_⟩
  intro before
  by_cases hended : initial.after before = .ended
  · exact .inl ⟨after_prompt_eq_ended_iff.1 hended, deltas_of_ended hended⟩
  · have hdeltas := deltas_of_open hended
    obtain ⟨hnone, hwhole⟩ := not_or.1 (mt after_prompt_eq_ended_iff.2 hended)
    have hopen : ∀ delta ∈ stamped 0 initial before, delta.value.isTerminal = false := by
      intro delta hdelta
      exact Bool.eq_false_iff.2 fun hterminal => hnone ⟨delta, hdelta, hterminal⟩
    refine .inr ⟨hopen, hwhole, hdeltas, fun stop => ?_⟩
    obtain ⟨earlier, hearlier, _⟩ := encoder.frames_of_terminal stop hopen
      (show (⟨elapsed before + idle, .failed .timedOut⟩ : Timed Delta).value.isTerminal = true
        from rfl)
    exact ⟨earlier, by rw [hdeltas]; exact hearlier⟩

/-- An empty chunk, a comment and a ping bring nothing, and each begins a new wait. -/
example :
    (deltas 10 [(10, .chunk []), (9, .chunk ": x\n\n".toUTF8.toList),
      (10, .chunk "data: \x7b\"type\":\"ping\"\x7d\n\n".toUTF8.toList), (11, .closed)]).map
        (fun due => (due.time, due.value)) = [(39, .failed .timedOut)] := by
  decide +kernel

end Intake

end Stream

end ChatGateway
