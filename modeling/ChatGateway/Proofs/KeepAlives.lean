import ChatGateway.Proofs.SelectLoop
import Mathlib.Data.List.Chain

/-!
# Comments while nothing comes

The comments in a caller's stream take nothing from the frames of the deltas and hold
none of them up, and they come every fifteen seconds of silence, counted from the last
delta: `frames_with_keepAlives`.
-/

namespace ChatGateway

namespace Stream

namespace Encoder

variable {last due stop time : Nat} {encoder : Encoder} {deltas : List (Timed Delta)}

/-- When a stream ends: with its first terminal delta, or else when the deltas stop. -/
def endTime (stop : Nat) (deltas : List (Timed Delta)) : Nat :=
  (deltas.find? fun delta => delta.value.isTerminal).elim stop Timed.time

/-- A whole number of periods has gone by since the last delta, or since `start` without one. -/
def CommentDue (start : Nat) (deltas : List (Timed Delta)) (time : Nat) : Prop :=
  ∃ since count, (since = start ∨ ∃ delta ∈ deltas, delta.time = since) ∧
    (∀ delta ∈ deltas, delta.time ≤ since ∨ time < delta.time) ∧
    time = since + keepAlivePeriod * (count + 1)

/-- Deltas that come at once leave no time for a comment. -/
theorem frames_at_once (encoder : Encoder) (deltas : List (Timed Delta)) :
    encoder.frames 0 (deltas.map fun delta => ⟨0, delta.value⟩) =
      encoder.writtenAt (deltas.map fun delta => ⟨0, delta.value⟩) := by
  unfold frames
  induction deltas generalizing encoder with
  | nil =>
      rfl
  | cons delta rest ih =>
      rw [List.map_cons, framesFrom_cons, keepAlives_of_le (Nat.zero_le _), writtenAt, ih]
      rfl

/-! ## When comments come -/

theorem mem_keepAlives :
    (⟨time, .keepAlive⟩ : Timed Outgoing) ∈ keepAlives last due ↔
      time < due ∧ ∃ count, time = last + keepAlivePeriod * (count + 1) := by
  simp only [keepAlives, List.mem_map, List.mem_range, Timed.mk.injEq, and_true]
  constructor
  · rintro ⟨count, hcount, rfl⟩
    refine ⟨?_, count, rfl⟩
    unfold keepAlivePeriod at hcount ⊢
    omega
  · rintro ⟨hdue, count, rfl⟩
    refine ⟨count, ?_, rfl⟩
    unfold keepAlivePeriod at hdue ⊢
    omega

theorem keepAlive_not_mem_step (encoder : Encoder) (delta : Delta) :
    Outgoing.keepAlive ∉ (encoder.step delta).2 := by
  intro h
  have hcomment := not_isComment_of_mem_step h
  simp [Outgoing.isComment] at hcomment

theorem CommentDue.lt {start : Nat} (h : CommentDue start deltas time)
    (later : ∀ delta ∈ deltas, start ≤ delta.time) : start < time := by
  obtain ⟨since, count, hsince, _, rfl⟩ := h
  have hstart : start ≤ since := by
    rcases hsince with rfl | ⟨delta, hdelta, rfl⟩
    · exact Nat.le_refl _
    · exact later delta hdelta
  unfold keepAlivePeriod
  omega

/-- Before the next delta, comments count from the start. -/
theorem commentDue_cons_of_lt {start : Nat} {delta : Timed Delta} {rest : List (Timed Delta)}
    (hrest : ∀ other ∈ rest, delta.time ≤ other.time) (h : time < delta.time) :
    CommentDue start (delta :: rest) time ↔
      ∃ count, time = start + keepAlivePeriod * (count + 1) := by
  have hall : ∀ other ∈ delta :: rest, time < other.time := by
    intro other hother
    rcases List.mem_cons.1 hother with rfl | hmem
    · exact h
    · exact Nat.lt_of_lt_of_le h (hrest other hmem)
  constructor
  · rintro ⟨since, count, rfl | ⟨other, hother, rfl⟩, _, htime⟩
    · exact ⟨count, htime⟩
    · have hlate := hall other hother
      omega
  · rintro ⟨count, htime⟩
    exact ⟨start, count, .inl rfl, fun other hother => .inr (hall other hother), htime⟩

/-- Once a delta has come, comments count from it or from a later one. -/
theorem commentDue_cons_of_le {start : Nat} {delta : Timed Delta} {rest : List (Timed Delta)}
    (hstart : start ≤ delta.time) (hrest : ∀ other ∈ rest, delta.time ≤ other.time)
    (h : delta.time ≤ time) :
    CommentDue start (delta :: rest) time ↔ CommentDue delta.time rest time := by
  constructor
  · rintro ⟨since, count, hsince, hquiet, htime⟩
    have hdelta : delta.time ≤ since := by
      have hown := hquiet delta List.mem_cons_self
      omega
    refine ⟨since, count, ?_, fun other hother => hquiet other (List.mem_cons_of_mem _ hother),
      htime⟩
    rcases hsince with rfl | ⟨other, hother, rfl⟩
    · exact .inl (Nat.le_antisymm hstart hdelta)
    · rcases List.mem_cons.1 hother with rfl | hmem
      · exact .inl rfl
      · exact .inr ⟨other, hmem, rfl⟩
  · rintro ⟨since, count, hsince, hquiet, htime⟩
    have hdelta : delta.time ≤ since := by
      rcases hsince with rfl | ⟨other, hother, rfl⟩
      · exact Nat.le_refl _
      · exact hrest other hother
    refine ⟨since, count, .inr ?_, ?_, htime⟩
    · rcases hsince with rfl | ⟨other, hother, rfl⟩
      · exact ⟨delta, List.mem_cons_self, rfl⟩
      · exact ⟨other, List.mem_cons_of_mem _ hother, rfl⟩
    · intro other hother
      rcases List.mem_cons.1 hother with rfl | hmem
      · exact .inl hdelta
      · exact hquiet other hmem

theorem endTime_cons (stop : Nat) (delta : Timed Delta) (rest : List (Timed Delta)) :
    endTime stop (delta :: rest) =
      if delta.value.isTerminal then delta.time else endTime stop rest := by
  cases h : delta.value.isTerminal <;> simp [endTime, h]

theorem le_endTime (hstop : time ≤ stop) (later : ∀ delta ∈ deltas, time ≤ delta.time) :
    time ≤ endTime stop deltas := by
  induction deltas with
  | nil =>
      exact hstop
  | cons delta rest ih =>
      rw [endTime_cons]
      split
      · exact later delta List.mem_cons_self
      · exact ih fun other hother => later other (List.mem_cons_of_mem _ hother)

/-- A comment is in the stream exactly when it is due and the stream has not ended. -/
theorem mem_framesFrom_keepAlive
    (sorted : deltas.Pairwise fun first second => first.time ≤ second.time)
    (later : ∀ delta ∈ deltas, last ≤ delta.time) (intime : ∀ delta ∈ deltas, delta.time ≤ stop) :
    (⟨time, .keepAlive⟩ : Timed Outgoing) ∈ framesFrom stop last encoder deltas ↔
      time < endTime stop deltas ∧ CommentDue last deltas time := by
  induction deltas generalizing last encoder with
  | nil =>
      rw [framesFrom_nil, mem_keepAlives]
      simp [endTime, CommentDue]
  | cons delta rest ih =>
      obtain ⟨hfirst, hrest⟩ := List.pairwise_cons.1 sorted
      have hlast := later delta List.mem_cons_self
      have hown : (⟨time, .keepAlive⟩ : Timed Outgoing) ∉
          (encoder.step delta.value).2.map fun frame => ⟨delta.time, frame⟩ := by
        intro h
        obtain ⟨frame, hframe, heq⟩ := List.mem_map.1 h
        cases heq
        exact keepAlive_not_mem_step encoder delta.value hframe
      rw [framesFrom_cons, List.mem_append, List.mem_append, mem_keepAlives,
        or_iff_right hown]
      have hopen : (⟨time, .keepAlive⟩ : Timed Outgoing) ∈
            framesFrom stop delta.time (encoder.step delta.value).1 rest ↔
          time < endTime stop rest ∧ CommentDue delta.time rest time :=
        ih hrest hfirst fun other hother => intime other (List.mem_cons_of_mem _ hother)
      rcases Nat.lt_or_ge time delta.time with hbefore | hafter
      · -- before the delta, the comments are those of the silence before it
        have hend : time < endTime stop (delta :: rest) := by
          refine Nat.lt_of_lt_of_le hbefore (le_endTime (intime delta List.mem_cons_self) ?_)
          simpa using hfirst
        have hnone : (⟨time, .keepAlive⟩ : Timed Outgoing) ∉ if delta.value.isTerminal then []
            else framesFrom stop delta.time (encoder.step delta.value).1 rest := by
          intro h
          split at h
          · simp at h
          · have hlate := (hopen.1 h).2.lt hfirst
            omega
        rw [or_iff_left hnone, commentDue_cons_of_lt hfirst hbefore]
        exact ⟨fun h => ⟨hend, h.2⟩, fun h => ⟨hbefore, h.2⟩⟩
      · -- after it, they are those of the rest, if there is one
        rw [or_iff_right (fun h => absurd h.1 (Nat.not_lt.2 hafter)), endTime_cons,
          commentDue_cons_of_le hlast hfirst hafter]
        cases delta.value.isTerminal with
        | true => simp [Nat.not_lt.2 hafter]
        | false => exact hopen

/-! ## The order of the frames -/

/-- Times do not go back, and a comment shares its time with no other frame. -/
def Spaced (earlier later : Timed Outgoing) : Prop :=
  earlier.time ≤ later.time ∧
    (earlier.value.isComment ∨ later.value.isComment -> earlier.time < later.time)

theorem bounds_of_mem_keepAlives {frame : Timed Outgoing} (h : frame ∈ keepAlives last due) :
    last < frame.time ∧ frame.time < due := by
  obtain ⟨count, hcount, rfl⟩ := List.mem_map.1 h
  rw [List.mem_range] at hcount
  simp only
  unfold keepAlivePeriod at hcount ⊢
  omega

theorem pairwise_keepAlives (last due : Nat) : (keepAlives last due).Pairwise Spaced := by
  refine List.pairwise_map.2 (List.pairwise_lt_range.imp ?_)
  intro first second h
  have htimes : last + keepAlivePeriod * (first + 1) < last + keepAlivePeriod * (second + 1) := by
    unfold keepAlivePeriod
    omega
  exact ⟨Nat.le_of_lt htimes, fun _ => htimes⟩

/-- Frames come from the start on, and a comment only after it. -/
theorem bounds_of_mem_framesFrom
    (sorted : deltas.Pairwise fun first second => first.time ≤ second.time)
    (later : ∀ delta ∈ deltas, last ≤ delta.time) {frame : Timed Outgoing}
    (h : frame ∈ framesFrom stop last encoder deltas) :
    last ≤ frame.time ∧ (frame.value.isComment -> last < frame.time) := by
  induction deltas generalizing last encoder with
  | nil =>
      have hbounds := bounds_of_mem_keepAlives h
      exact ⟨Nat.le_of_lt hbounds.1, fun _ => hbounds.1⟩
  | cons delta rest ih =>
      obtain ⟨hfirst, hrest⟩ := List.pairwise_cons.1 sorted
      have hlast := later delta List.mem_cons_self
      rw [framesFrom_cons, List.mem_append, List.mem_append] at h
      rcases h with hcomment | hown | hlater
      · have hbounds := bounds_of_mem_keepAlives hcomment
        exact ⟨Nat.le_of_lt hbounds.1, fun _ => hbounds.1⟩
      · obtain ⟨own, hmem, rfl⟩ := List.mem_map.1 hown
        refine ⟨hlast, fun hcomment => ?_⟩
        simp [not_isComment_of_mem_step hmem] at hcomment
      · split at hlater
        · simp at hlater
        · have hbounds := ih hrest hfirst hlater
          exact ⟨Nat.le_trans hlast hbounds.1,
            fun hcomment => Nat.lt_of_le_of_lt hlast (hbounds.2 hcomment)⟩

theorem pairwise_framesFrom
    (sorted : deltas.Pairwise fun first second => first.time ≤ second.time)
    (later : ∀ delta ∈ deltas, last ≤ delta.time) :
    (framesFrom stop last encoder deltas).Pairwise Spaced := by
  induction deltas generalizing last encoder with
  | nil =>
      exact pairwise_keepAlives last stop
  | cons delta rest ih =>
      obtain ⟨hfirst, hrest⟩ := List.pairwise_cons.1 sorted
      have htail : ∀ frame ∈ (if delta.value.isTerminal then []
          else framesFrom stop delta.time (encoder.step delta.value).1 rest),
          delta.time ≤ frame.time ∧ (frame.value.isComment -> delta.time < frame.time) := by
        intro frame hframe
        split at hframe
        · simp at hframe
        · exact bounds_of_mem_framesFrom hrest hfirst hframe
      rw [framesFrom_cons, List.pairwise_append, List.pairwise_append]
      refine ⟨pairwise_keepAlives last delta.time, ⟨?_, ?_, ?_⟩, ?_⟩
      · refine List.pairwise_map.2 (List.pairwise_of_forall_mem_list ?_)
        intro first hmem second hmem'
        refine ⟨Nat.le_refl _, fun hcomment => ?_⟩
        simp [not_isComment_of_mem_step hmem, not_isComment_of_mem_step hmem'] at hcomment
      · split
        · exact .nil
        · exact ih hrest hfirst
      · intro first hown second hsecond
        obtain ⟨own, hmem, rfl⟩ := List.mem_map.1 hown
        refine ⟨(htail second hsecond).1, fun hcomment => (htail second hsecond).2 ?_⟩
        simpa [not_isComment_of_mem_step hmem] using hcomment
      · intro first hcomment second hsecond
        have hbefore := (bounds_of_mem_keepAlives hcomment).2
        have hafter : delta.time ≤ second.time := by
          rcases List.mem_append.1 hsecond with hown | hlater
          · obtain ⟨own, _, rfl⟩ := List.mem_map.1 hown
            exact Nat.le_refl _
          · exact (htail second hlater).1
        have htimes : first.time < second.time := Nat.lt_of_lt_of_le hbefore hafter
        exact ⟨Nat.le_of_lt htimes, fun _ => htimes⟩

/-! ## No long silence -/

/-- The later time is at most a period after the earlier one. -/
def Close (earlier later : Nat) : Prop :=
  later ≤ earlier + keepAlivePeriod

theorem isChain_keepAlives {rest : List Nat} (hlast : last ≤ due)
    (hrest : (due :: rest).IsChain Close) :
    (last :: ((keepAlives last due).map Timed.time ++ due :: rest)).IsChain Close := by
  induction hleft : due - last using Nat.strongRecOn generalizing last with
  | _ left ih =>
      by_cases hreach : due ≤ last + keepAlivePeriod
      · rw [keepAlives_of_le hreach, List.map_nil, List.nil_append]
        exact .cons_cons hreach hrest
      · have hbefore : last + keepAlivePeriod < due := by omega
        rw [keepAlives_of_lt hbefore, List.map_cons, List.cons_append]
        have hless : due - (last + keepAlivePeriod) < left := by
          unfold keepAlivePeriod at hbefore ⊢
          omega
        exact .cons_cons (Nat.le_refl _) (ih _ hless (Nat.le_of_lt hbefore) rfl)

theorem step_ne_nil (encoder : Encoder) (delta : Delta) : (encoder.step delta).2 ≠ [] := by
  cases delta <;> simp [step]

/-- The frames of a delta come at one time, and there is one at least. -/
theorem isChain_step (encoder : Encoder) (delta : Timed Delta) {rest : List Nat}
    (hrest : (delta.time :: rest).IsChain Close) :
    ∃ more, ((encoder.step delta.value).2.map fun frame =>
        (⟨delta.time, frame⟩ : Timed Outgoing)).map Timed.time ++ rest = delta.time :: more ∧
      (delta.time :: more).IsChain Close := by
  have hone := step_ne_nil encoder delta.value
  generalize (encoder.step delta.value).2 = frames at hone ⊢
  induction frames with
  | nil =>
      exact absurd rfl hone
  | cons frame frames ih =>
      refine ⟨_, by rw [List.map_cons, List.map_cons, List.cons_append], ?_⟩
      cases frames with
      | nil =>
          exact hrest
      | cons other frames =>
          obtain ⟨more, hmore, hchain⟩ := ih (List.cons_ne_nil _ _)
          rw [hmore]
          exact .cons_cons (Nat.le_add_right _ _) hchain

/-- From the start through all frames to the end, no step is longer than a period. -/
theorem isChain_framesFrom
    (sorted : deltas.Pairwise fun first second => first.time ≤ second.time)
    (later : ∀ delta ∈ deltas, last ≤ delta.time) (hstop : last ≤ stop)
    (intime : ∀ delta ∈ deltas, delta.time ≤ stop) :
    (last :: ((framesFrom stop last encoder deltas).map Timed.time ++
      [endTime stop deltas])).IsChain Close := by
  induction deltas generalizing last encoder with
  | nil =>
      exact isChain_keepAlives hstop (.singleton stop)
  | cons delta rest ih =>
      obtain ⟨hfirst, hrest⟩ := List.pairwise_cons.1 sorted
      have htail : (delta.time :: ((if delta.value.isTerminal then []
          else framesFrom stop delta.time (encoder.step delta.value).1 rest).map Timed.time ++
            [endTime stop (delta :: rest)])).IsChain Close := by
        rw [endTime_cons]
        cases delta.value.isTerminal with
        | true =>
            exact .cons_cons (Nat.le_add_right _ _) (.singleton _)
        | false =>
            exact ih hrest hfirst (intime delta List.mem_cons_self)
              fun other hother => intime other (List.mem_cons_of_mem _ hother)
      obtain ⟨more, hmore, hchain⟩ := isChain_step encoder delta htail
      rw [framesFrom_cons, List.map_append, List.map_append, List.append_assoc,
        List.append_assoc, hmore]
      exact isChain_keepAlives (later delta List.mem_cons_self) hchain

/-! ## The whole stream -/

/--
A caller that is never late gets these frames of deltas that come at their times, whether
they end at `stop` or the caller leaves then.  Without the comments they are the frames
of the same deltas at once, each at the time of its delta.  The comments come whenever
they are due before the stream ends, each once; so from the start to the end nothing is
longer than a period.
-/
theorem frames_with_keepAlives (encoder : Encoder)
    (sorted : deltas.Pairwise fun first second => first.time ≤ second.time)
    (intime : ∀ delta ∈ deltas, delta.time ≤ stop) :
    (∀ seen, Watched (Writer.stream Schedule.stream) none 0
        (Writer.initial encoder ⟨deltas, some stop⟩) seen ↔
      seen = encoder.frames stop deltas) ∧
    (0 < stop -> (∀ delta ∈ deltas, delta.time < stop) ->
      ∀ seen, Watched (Writer.stream Schedule.stream) (some stop) 0
          (Writer.initial encoder ⟨deltas, none⟩) seen ↔
        seen = encoder.frames stop deltas) ∧
    (encoder.frames stop deltas).filter (fun frame => !frame.value.isComment) =
      encoder.writtenAt deltas ∧
    (encoder.writtenAt deltas).map Timed.value =
      (encoder.frames 0 (deltas.map fun delta => ⟨0, delta.value⟩)).map Timed.value ∧
    (∀ time, (⟨time, .keepAlive⟩ : Timed Outgoing) ∈ encoder.frames stop deltas ↔
      time < endTime stop deltas ∧ CommentDue 0 deltas time) ∧
    (encoder.frames stop deltas).Pairwise Spaced ∧
    (0 :: ((encoder.frames stop deltas).map Timed.time ++
      [endTime stop deltas])).IsChain Close := by
  have hzero : ∀ delta ∈ deltas, 0 ≤ delta.time := fun _ _ => Nat.zero_le _
  refine ⟨?_, ?_, filter_framesFrom stop 0 encoder deltas, ?_, ?_, ?_, ?_⟩
  · exact Writer.watched_iff (Schedule.runs_ended sorted intime) encoder
  · intro hstop hbefore
    exact Writer.watched_iff (Schedule.runs_left sorted hstop hbefore) encoder
  · rw [frames_at_once, map_value_writtenAt, map_value_writtenAt, List.map_map]
    rfl
  · intro time
    exact mem_framesFrom_keepAlive sorted hzero intime
  · exact pairwise_framesFrom sorted hzero
  · exact isChain_framesFrom sorted hzero (Nat.zero_le _) intime

/-- Two comments in forty seconds of silence, and the two deltas that end it. -/
theorem frames_with_keepAlives_twice :
    let encoder : Encoder := ⟨"chatcmpl-1", 0, "m", false⟩
    let deltas : List (Timed Delta) :=
      [⟨0, .start "m"⟩, ⟨40000, .content (.text "x")⟩, ⟨40000, .done ⟨1, 2, by decide⟩⟩]
    (∀ seen, Watched (Writer.stream Schedule.stream) none 0
        (Writer.initial encoder ⟨deltas, some 40000⟩) seen ↔
      seen = encoder.frames 40000 deltas) ∧
    (∀ seen, Watched (Writer.stream Schedule.stream) (some 50000) 0
        (Writer.initial encoder ⟨deltas, none⟩) seen ↔
      seen = encoder.frames 50000 deltas) ∧
    (⟨30000, .keepAlive⟩ : Timed Outgoing) ∈ encoder.frames 40000 deltas ∧
    (encoder.frames 40000 deltas).map Timed.time = [0, 15000, 30000, 40000, 40000] := by
  intro encoder deltas
  have hended := @frames_with_keepAlives 40000 deltas encoder (by decide) (by decide)
  have hleft := @frames_with_keepAlives 50000 deltas encoder (by decide) (by decide)
  refine ⟨hended.1, hleft.2.1 (by decide) (by decide), ?_, by decide⟩
  exact (hended.2.2.2.2.1 30000).2 ⟨by decide, 0, 1, .inl rfl, by decide, rfl⟩

end Encoder

end Stream

end ChatGateway
