import ChatGateway.Proofs.Caller
import ChatGateway.Proofs.Terminal

/-!
# The usage of a turn

Input tokens and output tokens are reported apart, by the event that begins a message and by those
that change it, and as often as the provider likes.  The usage of a complete turn is the last
report of each, and its total is their sum.  A turn whose last reports have no sum in 32 bits has
no usage: its stream breaks off.
-/

namespace ChatGateway

namespace Stream

open Chat (Usage)
open Intake (deltas deltas_eq_translation lastBrought translation_eq_lastBrought)

/-! ## The chunk with the usage -/

/-- The choices and the usage of a frame that has a usage. -/
def Outgoing.usage? : Outgoing -> Option (Option Json × Json)
  | .data body => (body.get? "usage").map fun usage => (body.get? "choices", usage)
  | _ => none

namespace Encoder

theorem usage?_step_of_open {delta : Delta} (encoder : Encoder) (h : delta.isTerminal = false) :
    (encoder.step delta).2.filterMap Outgoing.usage? = [] ∧
      (encoder.step delta).1.includeUsage = encoder.includeUsage := by
  cases delta with
  | done usage => cases h
  | failed failure => cases h
  | _ => exact ⟨rfl, rfl⟩

/-- Only a terminal delta can bring a usage. -/
theorem usage?_written {init : List Delta} (encoder : Encoder) (last : Option Delta)
    (hinit : ∀ delta ∈ init, delta.isTerminal = false) :
    ∃ after : Encoder, after.includeUsage = encoder.includeUsage ∧
      (encoder.written (init ++ last.toList)).filterMap Outgoing.usage? =
        last.elim [] fun delta => (after.step delta).2.filterMap Outgoing.usage? := by
  induction init generalizing encoder with
  | nil =>
      refine ⟨encoder, rfl, ?_⟩
      cases last <;> simp [written]
  | cons delta init ih =>
      have hopen := hinit delta List.mem_cons_self
      obtain ⟨hnone, hinclude⟩ := encoder.usage?_step_of_open hopen
      obtain ⟨after, hafter, hwritten⟩ :=
        ih (encoder.step delta).1 fun other hother => hinit other (List.mem_cons_of_mem _ hother)
      refine ⟨after, hafter.trans hinclude, ?_⟩
      rw [List.cons_append, written, List.filterMap_append, hnone, hopen, List.nil_append]
      exact hwritten

theorem usage?_step_done (encoder : Encoder) (usage : Usage) :
    (encoder.step (.done usage)).2.filterMap Outgoing.usage? =
      if encoder.includeUsage then [(some (.array []), usage.toJson.canonical)] else [] := by
  simp only [step]
  cases encoder.includeUsage <;> rfl

/-- The usages in the frames of a body are those of what closes it. -/
theorem usage?_frames (idle stop : Nat) (encoder : Encoder) (reads : List (Nat × Read)) :
    ∃ after : Encoder, after.includeUsage = encoder.includeUsage ∧
      (withoutComments (encoder.frames stop (deltas idle reads))).filterMap Outgoing.usage? =
        (lastBrought (arrived idle reads) (stopOf idle reads)).delta?.elim []
          fun delta => (after.step delta).2.filterMap Outgoing.usage? := by
  rw [withoutComments_frames, deltas_eq_translation, translation_eq_lastBrought]
  exact encoder.usage?_written _
    (Progress.run_opening .initial (framesOf (arrived idle reads)))

end Encoder

/-- The event that completes a turn brings the last reports as its usage, if they have a total. -/
theorem Progress.step_messageStop_run (events : List Event) :
    ((initial.run events).1.step .messageStop).2 =
      if h : HasTotal events then .one (.done (lastUsage events h)) else .breakOff :=
  complete_run events

/--
The usage of a complete turn is the last report of either count, whichever events report them, and
its total is the sum of both; if that does not fit into 32 bits, the stream breaks off.  A stream
to a caller that asks for it has these three numbers in one chunk without a choice; no frame has
a usage if the caller did not ask, the turn is not complete or the stream breaks off.
-/
theorem usage_of_last_reports (idle stop : Nat) (encoder : Encoder) (reads : List (Nat × Read)) :
    (∀ events (h : HasTotal events),
      (Progress.initial.run (events ++ [.messageStop])).2.getLast? =
        some (.done (lastUsage events h))) ∧
    (∀ events, ¬ HasTotal events →
      ((Progress.initial.run events).1.step .messageStop).2 = .breakOff) ∧
    (∀ usage : Usage, usage.total.toNat = usage.prompt.toNat + usage.completion.toNat) ∧
    let usages :=
      (Encoder.withoutComments (encoder.frames stop (deltas idle reads))).filterMap Outgoing.usage?
    (CompletesFirst (framesOf (arrived idle reads)) →
      ∀ h : HasTotal (opening (framesOf (arrived idle reads))),
      let usage := lastUsage (opening (framesOf (arrived idle reads))) h
      ((deltas idle reads).map Timed.value).getLast? = some (.done usage) ∧
      (encoder.includeUsage = true →
        usages = [(some (.array []), .object [
          ("completion_tokens", .nat usage.completion.toNat),
          ("prompt_tokens", .nat usage.prompt.toNat),
          ("total_tokens", .nat usage.total.toNat)])])) ∧
    (encoder.includeUsage = false ∨ ¬ CompletesFirst (framesOf (arrived idle reads)) ∨
        BreaksOff (framesOf (arrived idle reads)) →
      usages = []) := by
  refine ⟨?_, ?_, Usage.toNat_total, ?_⟩
  · intro events h
    rw [Progress.run_append, Progress.run_cons, Progress.run_nil, Progress.step_messageStop_run,
      dif_pos h]
    exact List.getLast?_concat
  · intro events h
    rw [Progress.step_messageStop_run, dif_neg h]
  · intro usages
    obtain ⟨after, hinclude, husages⟩ := Encoder.usage?_frames idle stop encoder reads
    refine ⟨?_, fun hnone => ?_⟩
    · intro hcompletes h usage
      have hlast := Intake.lastBrought_of_completesFirst (stopOf idle reads) hcompletes h
      rw [hlast] at husages
      refine ⟨?_, fun hasks => ?_⟩
      · rw [deltas_eq_translation, translation_eq_lastBrought, hlast]
        exact List.getLast?_concat
      · simp only [Brought.delta?, Option.elim_some, Encoder.usage?_step_done, hinclude, hasks,
          if_true, Encoder.canonical_usage] at husages
        exact husages
    · rcases Intake.lastBrought_cases (arrived idle reads) (stopOf idle reads) with
        ⟨htotal, hcompletes, hlast⟩ | ⟨-, hlast⟩ | ⟨-, failure, -, hlast⟩
      · have hasks : encoder.includeUsage = false := by
          rcases hnone with hasks | hincomplete | hbreaks
          · exact hasks
          · exact absurd hcompletes hincomplete
          · exact absurd htotal hbreaks.2
        rw [hlast] at husages
        simp only [Brought.delta?, Option.elim_some, Encoder.usage?_step_done, hinclude, hasks,
          Bool.false_eq_true, if_false] at husages
        exact husages
      · rw [hlast] at husages
        exact husages
      · rw [hlast] at husages
        exact husages

/-- The data of frames: each count is reported twice, the input last by an event without output. -/
def reportsApart : List String := [
  "\x7b\"type\":\"message_start\",\"message\":\x7b\"id\":\"m\"," ++
    "\"usage\":\x7b\"input_tokens\":5,\"output_tokens\":1\x7d\x7d\x7d",
  "\x7b\"type\":\"message_delta\",\"usage\":\x7b\"output_tokens\":4294967286\x7d\x7d",
  "\x7b\"type\":\"message_delta\",\"usage\":\x7b\"input_tokens\":9\x7d\x7d",
  "\x7b\"type\":\"message_stop\"\x7d"]

/-- The reports are last at different events, and the total is the greatest that fits. -/
theorem usage_of_last_reports_apart :
    let encoder : Encoder := ⟨"chatcmpl-1", 0, "m", true⟩
    let reads : List (Nat × Read) :=
      reportsApart.map fun data => (0, .chunk (Text.bytes ("data:" ++ data ++ "\n\n")))
    CompletesFirst (framesOf (arrived 9 reads)) ∧
    ((deltas 9 reads).map Timed.value).getLast? = some (.done ⟨9, 4294967286, by decide⟩) ∧
    (Encoder.withoutComments (encoder.frames 0 (deltas 9 reads))).filterMap Outgoing.usage? =
      [(some (.array []), .object [
        ("completion_tokens", .nat 4294967286), ("prompt_tokens", .nat 9),
        ("total_tokens", .nat 4294967295)])] := by
  intro encoder reads
  have hframes : framesOf (arrived 9 reads) = reportsApart.map fun data => .ok ⟨none, data⟩ := by
    have hdrain : (Decoder.mk (arrived 9 reads)).drain.1 =
        reportsApart.map fun data => .ok ⟨none, data⟩ := by
      decide +kernel
    rwa [Decoder.drain_eq] at hdrain
  have hcompletes : CompletesFirst (framesOf (arrived 9 reads)) := by
    rw [completesFirst_iff, hframes]
    decide +kernel
  have hevents : opening (framesOf (arrived 9 reads)) = [
      .messageStart "m" (some ⟨some 5, some 1⟩), .messageDelta none (some ⟨none, some 4294967286⟩),
      .messageDelta none (some ⟨some 9, none⟩)] := by
    rw [hframes]
    decide +kernel
  have htotal : HasTotal (opening (framesOf (arrived 9 reads))) := by
    rw [hevents]
    decide
  have husage : lastUsage (opening (framesOf (arrived 9 reads))) htotal =
      ⟨9, 4294967286, by decide⟩ := by
    simp only [lastUsage, hevents]
    rfl
  obtain ⟨hlast, hchunk⟩ := (usage_of_last_reports 9 0 encoder reads).2.2.2.1 hcompletes htotal
  rw [husage] at hlast hchunk
  exact ⟨hcompletes, hlast, hchunk rfl⟩

/-- Two counts whose sum is one more than fits: the turn is complete and has no usage. -/
theorem no_usage_without_total :
    let reports := [.messageStart "m" (some ⟨some 4294967295, some 1⟩)]
    (lastCount TokenReport.input reports).toNat + (lastCount TokenReport.output reports).toNat =
      4294967296 ∧
    ((Progress.initial.run reports).1.step .messageStop).2 = .breakOff ∧
    (Progress.initial.run (reports ++ [.messageStop])).2 = [.start "m"] := by
  decide

end Stream

end ChatGateway
