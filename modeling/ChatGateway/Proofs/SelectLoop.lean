import ChatGateway.Proofs.Polling
import ChatGateway.Proofs.Rendering

/-!
# The loop that writes the caller's stream

The writer waits for a delta and for its alarm at once, the delta first if both are there.
A delta puts the alarm off; an alarm that goes off is set again from its own time, and
the wait for the delta goes on.  Whatever the source, the frames are `framesFrom` of its
deltas: `Writer.runs`.
-/

namespace ChatGateway

namespace Stream

/-! ## Deltas that come at given times -/

/-- Deltas that come at their times; without an end, nothing comes after the last one. -/
structure Schedule where
  coming : List (Timed Delta)
  ending : Option Nat

namespace Schedule

def round (now : Nat) (schedule : Schedule) : Round Delta × Schedule :=
  match schedule.coming with
  | delta :: rest =>
      if delta.time ≤ now then (.gives delta.value, { schedule with coming := rest })
      else (.waits, schedule)
  | [] =>
      match schedule.ending with
      | some time => if time ≤ now then (.ends, schedule) else (.waits, schedule)
      | none => (.waits, schedule)

def wake (schedule : Schedule) : Option Nat :=
  match schedule.coming with
  | delta :: _ => some delta.time
  | [] => schedule.ending

theorem round_eq_waits {now : Nat} {schedule after : Schedule} :
    round now schedule = (.waits, after) ↔
      after = schedule ∧ ∀ due ∈ schedule.wake, now < due := by
  obtain ⟨coming, ending⟩ := schedule
  cases coming with
  | nil =>
      cases ending with
      | none =>
          simp [round, wake, eq_comm]
      | some time =>
          by_cases hdue : time ≤ now
          · simp [round, wake, hdue]
          · simp [round, wake, hdue, Nat.lt_of_not_le hdue, eq_comm]
  | cons delta rest =>
      by_cases hdue : delta.time ≤ now
      · simp [round, wake, hdue]
      · simp [round, wake, hdue, Nat.lt_of_not_le hdue, eq_comm]

/-- The schedule as a stream. -/
def stream : Polled Schedule Delta where
  round := round
  wake := wake
  wake_later := by
    intro now due schedule after hround hdue
    obtain ⟨rfl, hlater⟩ := round_eq_waits.1 hround
    exact hlater due hdue
  steady := by
    intro now later schedule after hround _ hlater
    obtain ⟨rfl, _⟩ := round_eq_waits.1 hround
    exact round_eq_waits.2 ⟨rfl, hlater⟩

theorem round_of_early {now : Nat} {schedule : Schedule} (h : ∀ due ∈ schedule.wake, now < due) :
    stream.round now schedule = (.waits, schedule) :=
  round_eq_waits.2 ⟨rfl, h⟩

variable {leave : Option Nat} {now stop : Nat} {coming : List (Timed Delta)}

/-- Deltas come at their times, whatever follows the last one. -/
theorem runs_coming {ending : Option Nat}
    (sorted : coming.Pairwise fun first second => first.time ≤ second.time)
    (later : ∀ delta ∈ coming, now ≤ delta.time) (intime : ∀ delta ∈ coming, delta.time ≤ stop)
    (stays : ∀ delta ∈ coming, ∀ time ∈ leave, delta.time < time) (hnow : now ≤ stop)
    (stops : ∀ {now : Nat}, now ≤ stop -> (∀ time ∈ leave, now < time) ->
      Runs stream leave now ⟨[], ending⟩ [] stop) (hleave : ∀ time ∈ leave, now < time) :
    Runs stream leave now ⟨coming, ending⟩ coming stop := by
  induction coming generalizing now with
  | nil =>
      exact stops hnow hleave
  | cons delta rest ih =>
      have hstays := stays delta List.mem_cons_self
      have hround : round delta.time ⟨delta :: rest, ending⟩ =
          (.gives delta.value, ⟨rest, ending⟩) := by
        simp [round]
      have hrest : Runs stream leave delta.time ⟨delta :: rest, ending⟩ (delta :: rest) stop :=
        .gives hround (ih (List.pairwise_cons.1 sorted).2 (List.pairwise_cons.1 sorted).1
          (fun other hother => intime other (List.mem_cons_of_mem _ hother))
          (fun other hother => stays other (List.mem_cons_of_mem _ hother))
          (intime delta List.mem_cons_self) hstays)
      rcases Nat.lt_or_eq_of_le (later delta List.mem_cons_self) with hwait | rfl
      · exact .waits (round_of_early (by simpa [wake] using hwait)) rfl hstays hrest
      · exact hrest

/-- The deltas of a schedule with an end. -/
theorem runs_ended (sorted : coming.Pairwise fun first second => first.time ≤ second.time)
    (intime : ∀ delta ∈ coming, delta.time ≤ stop) :
    Runs stream none 0 ⟨coming, some stop⟩ coming stop := by
  refine runs_coming sorted (by simp) intime (by simp) (Nat.zero_le _) ?_ (by simp)
  intro now hnow _
  have hround : stream.round stop ⟨[], some stop⟩ = (.ends, ⟨[], some stop⟩) := by
    simp [stream, round]
  have hend : Runs stream none stop ⟨[], some stop⟩ [] stop := .ends hround
  rcases Nat.lt_or_eq_of_le hnow with hwait | rfl
  · exact .waits (round_of_early (by simpa [wake] using hwait)) rfl (by simp) hend
  · exact hend

/-- The deltas of a schedule without an end, for a consumer that leaves after the last one. -/
theorem runs_left (sorted : coming.Pairwise fun first second => first.time ≤ second.time)
    (hstop : 0 < stop) (intime : ∀ delta ∈ coming, delta.time < stop) :
    Runs stream (some stop) 0 ⟨coming, none⟩ coming stop := by
  refine runs_coming sorted (by simp) (fun delta h => Nat.le_of_lt (intime delta h))
    (by simpa using intime) (Nat.zero_le _) ?_ (by simpa using hstop)
  intro now _ hleave
  exact .leaves (round_of_early (by simp [wake])) rfl (hleave stop rfl) (by simp [stream, wake])

end Schedule

/-! ## The frames of timed deltas -/

namespace Encoder

variable {last due stop : Nat} {encoder : Encoder} {deltas : List (Timed Delta)}

theorem keepAlives_of_le (h : due ≤ last + keepAlivePeriod) : keepAlives last due = [] := by
  have hnone : (due - last - 1) / keepAlivePeriod = 0 := by
    unfold keepAlivePeriod at h ⊢
    omega
  simp [keepAlives, hnone]

theorem keepAlives_of_lt (h : last + keepAlivePeriod < due) :
    keepAlives last due =
      ⟨last + keepAlivePeriod, .keepAlive⟩ :: keepAlives (last + keepAlivePeriod) due := by
  have hcount : (due - last - 1) / keepAlivePeriod =
      (due - (last + keepAlivePeriod) - 1) / keepAlivePeriod + 1 := by
    unfold keepAlivePeriod at h ⊢
    omega
  simp only [keepAlives, hcount, List.range_succ_eq_map, List.map_cons, List.map_map,
    Nat.zero_add, Nat.mul_one]
  refine congrArg _ (List.map_congr_left ?_)
  intro count _
  simp only [Function.comp_apply, Timed.mk.injEq, and_true, Nat.mul_add, Nat.succ_eq_add_one]
  omega

/-- When the next delta comes, or the deltas stop. -/
def nextTime (stop : Nat) (deltas : List (Timed Delta)) : Nat :=
  deltas.head?.elim stop Timed.time

theorem framesFrom_of_lt (h : last + keepAlivePeriod < nextTime stop deltas) :
    framesFrom stop last encoder deltas =
      ⟨last + keepAlivePeriod, .keepAlive⟩ ::
        framesFrom stop (last + keepAlivePeriod) encoder deltas := by
  cases deltas with
  | nil =>
      exact keepAlives_of_lt h
  | cons delta rest =>
      have hdelta : last + keepAlivePeriod < delta.time := h
      rw [framesFrom_cons, framesFrom_cons, keepAlives_of_lt hdelta, List.cons_append]

end Encoder

/-! ## The writer -/

/--
The writer between two rounds: the frames of the last delta that the caller has not got
yet, whether it was the last delta of all, and when the next comment is due.
-/
structure Writer (σ : Type) where
  encoder : Encoder
  queued : List Outgoing
  finished : Bool
  alarm : Nat
  source : σ

namespace Writer

open Encoder

variable {σ : Type} {source : Polled σ Delta} {leave : Option Nat}

/-- The writer has written everything, and listens to its source and its alarm. -/
def listening (encoder : Encoder) (alarm : Nat) (state : σ) : Writer σ :=
  ⟨encoder, [], false, alarm, state⟩

/-- The writer when a stream begins: the first comment is one period away. -/
def initial (encoder : Encoder) (state : σ) : Writer σ :=
  listening encoder keepAlivePeriod state

/-- A delta is taken: its frames are queued, and the alarm is put off. -/
def take (writer : Writer σ) (now : Nat) (delta : Delta) (state : σ) : Writer σ :=
  ⟨(writer.encoder.step delta).1, (writer.encoder.step delta).2, delta.isTerminal,
    now + keepAlivePeriod, state⟩

def round (source : Polled σ Delta) (now : Nat) (writer : Writer σ) :
    Round Outgoing × Writer σ :=
  match writer.queued with
  | frame :: rest => (.gives frame, { writer with queued := rest })
  | [] =>
      if writer.finished then (.ends, writer)
      else
        match source.round now writer.source with
        | (.gives delta, state) => (.again, writer.take now delta state)
        | (.again, state) => (.again, { writer with source := state })
        | (.ends, state) => (.ends, { writer with finished := true, source := state })
        | (.waits, state) =>
            if writer.alarm ≤ now then
              (.gives .keepAlive,
                { writer with alarm := writer.alarm + keepAlivePeriod, source := state })
            else (.waits, { writer with source := state })

/-- The alarm, or what the source waits for if that is earlier. -/
def wake (source : Polled σ Delta) (writer : Writer σ) : Option Nat :=
  some ((source.wake writer.source).elim writer.alarm (min writer.alarm))

theorem le_wake {time due : Nat} {writer : Writer σ} (hdue : due ∈ wake source writer) :
    time ≤ due ↔ time ≤ writer.alarm ∧ ∀ other ∈ source.wake writer.source, time ≤ other := by
  simp only [wake, Option.mem_some_iff] at hdue
  subst hdue
  cases source.wake writer.source with
  | none => simp
  | some other => simp only [Option.elim_some, Nat.le_min, Option.mem_some_iff, forall_eq']

theorem round_eq_waits {now : Nat} {writer after : Writer σ} :
    round source now writer = (.waits, after) ↔
      writer.queued = [] ∧ writer.finished = false ∧ now < writer.alarm ∧
        ∃ state, source.round now writer.source = (.waits, state) ∧
          after = { writer with source := state } := by
  obtain ⟨encoder, queued, finished, alarm, state⟩ := writer
  cases queued with
  | cons frame rest =>
      simp [round]
  | nil =>
      cases finished with
      | true =>
          simp [round]
      | false =>
          cases hsource : source.round now state with
          | mk outcome reached =>
              cases outcome with
              | waits =>
                  by_cases halarm : alarm ≤ now
                  · simp [round, hsource, halarm, Nat.not_lt.2 halarm]
                  · simp [round, hsource, halarm, Nat.lt_of_not_le halarm, eq_comm]
              | _ => simp [round, hsource]

/-- The writer as a stream. -/
def stream (source : Polled σ Delta) : Polled (Writer σ) Outgoing where
  round := round source
  wake := wake source
  wake_later := by
    intro now due writer after hround hdue
    obtain ⟨_, _, halarm, state, hsource, rfl⟩ := round_eq_waits.1 hround
    refine (le_wake hdue).2 ⟨halarm, ?_⟩
    intro other hother
    exact source.wake_later hsource hother
  steady := by
    intro now later writer after hround hlater hwake
    obtain ⟨hqueued, hfinished, _, state, hsource, rfl⟩ := round_eq_waits.1 hround
    obtain ⟨halarm, hdue⟩ := (le_wake rfl).1 (hwake _ rfl)
    exact round_eq_waits.2
      ⟨hqueued, hfinished, halarm, state, source.steady hsource hlater hdue, rfl⟩

/-! ## The rounds of a listening writer -/

variable {now last due stop : Nat} {encoder : Encoder} {state after : σ}
  {deltas : List (Timed Delta)} {frames : List (Timed Outgoing)}

theorem round_of_gives {delta : Delta} (hsource : source.round now state = (.gives delta, after))
    (alarm : Nat) :
    (stream source).round now (listening encoder alarm state) =
      (.again, (listening encoder alarm state).take now delta after) := by
  simp [stream, round, listening, hsource]

theorem round_of_again (hsource : source.round now state = (.again, after)) (alarm : Nat) :
    (stream source).round now (listening encoder alarm state) =
      (.again, listening encoder alarm after) := by
  simp [stream, round, listening, hsource]

theorem round_of_ends (hsource : source.round now state = (.ends, after)) (alarm : Nat) :
    (stream source).round now (listening encoder alarm state) =
      (.ends, { listening encoder alarm after with finished := true }) := by
  simp [stream, round, listening, hsource]

theorem round_of_alarm (hsource : source.round now state = (.waits, after)) :
    (stream source).round now (listening encoder now state) =
      (.gives .keepAlive, listening encoder (now + keepAlivePeriod) after) := by
  simp [stream, round, listening, hsource]

theorem round_of_waits {alarm : Nat} (hsource : source.round now state = (.waits, after))
    (halarm : now < alarm) :
    (stream source).round now (listening encoder alarm state) =
      (.waits, listening encoder alarm after) := by
  simp [stream, round, listening, hsource, Nat.not_le.2 halarm]

theorem wake_of_quiet {alarm : Nat} (hquiet : ∀ time ∈ source.wake state, alarm ≤ time) :
    (stream source).wake (listening encoder alarm state) = some alarm := by
  cases hsource : source.wake state with
  | none => simp [stream, wake, listening, hsource]
  | some time => simp [stream, wake, listening, hsource, hquiet time hsource]

/-- Queued frames come at once. -/
theorem runs_queued {alarm : Nat} {finished : Bool} (queued : List Outgoing)
    (runs : Runs (stream source) leave now ⟨encoder, [], finished, alarm, state⟩ frames stop) :
    Runs (stream source) leave now ⟨encoder, queued, finished, alarm, state⟩
      (queued.map (fun frame => ⟨now, frame⟩) ++ frames) stop := by
  induction queued with
  | nil =>
      exact runs
  | cons frame rest ih =>
      exact .gives rfl ih

/-! ## While the source waits -/

theorem le_nextTime (runs : Runs source leave due state deltas stop) :
    due ≤ nextTime stop deltas := by
  cases deltas with
  | nil => exact runs.le_time.2
  | cons delta rest => exact runs.le_time.1 delta List.mem_cons_self

/--
While the source waits, the alarm goes off every period until `due`; what comes after
the last time it does so is `arrival`.
-/
theorem runs_waiting (hquiet : ∀ time ∈ source.wake after, due ≤ time)
    (hstays : ∀ time ∈ leave, due ≤ time) (hdue : due ≤ nextTime stop deltas)
    (arrival : ∀ {now last : Nat} {state : σ}, source.round now state = (.waits, after) ->
      last ≤ now -> now < due -> due ≤ last + keepAlivePeriod ->
      ∃ finish, Runs (stream source) leave now
        (listening encoder (last + keepAlivePeriod) state)
        (framesFrom stop last encoder deltas) finish)
    (hwaits : source.round now state = (.waits, after)) (hlast : last ≤ now) (hnow : now < due)
    (halarm : now ≤ last + keepAlivePeriod) :
    ∃ finish, Runs (stream source) leave now
      (listening encoder (last + keepAlivePeriod) state)
      (framesFrom stop last encoder deltas) finish := by
  induction hleft : due - last using Nat.strongRecOn generalizing now last state with
  | _ left ih =>
      by_cases hreach : due ≤ last + keepAlivePeriod
      · exact arrival hwaits hlast hnow hreach
      · have hbefore : last + keepAlivePeriod < due := by omega
        have hless : due - (last + keepAlivePeriod) < left := by
          unfold keepAlivePeriod at hbefore ⊢
          omega
        have hpolled : source.round (last + keepAlivePeriod) after = (.waits, after) :=
          source.steady hwaits halarm
            (fun time htime => Nat.lt_of_lt_of_le hbefore (hquiet time htime))
        obtain ⟨finish, hrest⟩ := ih _ hless hpolled (Nat.le_refl _) hbefore
          (Nat.le_add_right _ _) rfl
        rw [framesFrom_of_lt (Nat.lt_of_lt_of_le hbefore hdue)]
        refine ⟨finish, ?_⟩
        rcases Nat.lt_or_eq_of_le halarm with hwait | rfl
        · -- the alarm is due before the source has anything to do
          have hwake : (stream source).wake
              (listening encoder (last + keepAlivePeriod) after) = some (last + keepAlivePeriod) :=
            wake_of_quiet fun time htime =>
              Nat.le_trans (Nat.le_of_lt hbefore) (hquiet time htime)
          refine .waits (round_of_waits hwaits hwait) hwake ?_
            (.gives (round_of_alarm hpolled) hrest)
          intro time htime
          exact Nat.lt_of_lt_of_le hbefore (hstays time htime)
        · exact .gives (round_of_alarm hwaits) hrest

/-! ## A whole stream -/

/-- The frames of a source's deltas, however far apart these come. -/
theorem runs (hsource : Runs source leave now state deltas stop) (encoder : Encoder)
    (last : Nat) (hlast : last ≤ now) (halarm : now ≤ last + keepAlivePeriod) :
    ∃ finish, Runs (stream source) leave now
      (listening encoder (last + keepAlivePeriod) state)
      (framesFrom stop last encoder deltas) finish := by
  induction hsource generalizing encoder last with
  | @gives now stop state after delta deltas round rest ih =>
      rw [framesFrom_cons, keepAlives_of_le halarm, List.nil_append]
      cases hterminal : delta.isTerminal with
      | true =>
          have hdone : Runs (stream source) leave now
              ⟨(encoder.step delta).1, [], true, now + keepAlivePeriod, after⟩ [] now :=
            .ends rfl
          refine ⟨now, .again (round_of_gives round _) ?_⟩
          simp only [take, listening, hterminal, if_true]
          exact runs_queued _ hdone
      | false =>
          obtain ⟨finish, hrest⟩ := ih (encoder.step delta).1 now (Nat.le_refl _)
            (Nat.le_add_right _ _)
          refine ⟨finish, .again (round_of_gives round _) ?_⟩
          simp only [take, listening, hterminal, Bool.false_eq_true, if_false]
          exact runs_queued _ hrest
  | again round _ ih =>
      obtain ⟨finish, hrest⟩ := ih encoder last hlast halarm
      exact ⟨finish, .again (round_of_again round _) hrest⟩
  | @ends now state after round =>
      rw [framesFrom_nil, keepAlives_of_le halarm]
      exact ⟨now, .ends (round_of_ends round _)⟩
  | @waits now due stop state after deltas round wakes stays rest ih =>
      refine runs_waiting (by simp [wakes]) (fun time htime => Nat.le_of_lt (stays time htime))
        (le_nextTime rest) ?_ round hlast (source.wake_later round wakes) halarm
      intro poll last state hwaits hlast hpoll hreach
      obtain ⟨finish, hrest⟩ := ih encoder last (by omega) hreach
      refine ⟨finish, .waits (round_of_waits hwaits (by omega)) ?_ stays hrest⟩
      simp [stream, wake, listening, wakes, hreach]
  | @leaves now time state after round goes later prompt =>
      refine runs_waiting prompt (by simp [goes]) (Nat.le_refl _) ?_ round hlast later halarm
      intro poll last state hwaits hlast hpoll hreach
      rw [framesFrom_nil, keepAlives_of_le hreach]
      refine ⟨time, .leaves (round_of_waits hwaits (by omega)) goes hpoll ?_⟩
      intro due hdue
      exact (le_wake hdue).2 ⟨hreach, prompt⟩

/-- The frames that a caller gets of a source's deltas, however the caller polls. -/
theorem watched_iff (hsource : Runs source leave 0 state deltas stop) (encoder : Encoder)
    (seen : List (Timed Outgoing)) :
    Watched (stream source) leave 0 (initial encoder state) seen ↔
      seen = encoder.frames stop deltas := by
  obtain ⟨finish, hruns⟩ := runs hsource encoder 0 (Nat.le_refl 0)
    (Nat.le_add_right 0 keepAlivePeriod)
  rw [Nat.zero_add] at hruns
  exact hruns.watched_iff seen

end Writer

end Stream

end ChatGateway
