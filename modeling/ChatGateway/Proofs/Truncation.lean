import ChatGateway.Proofs.Terminal

/-!
# Bodies that are cut short

A body that closes too early brings the deltas that it brought before the cut.  Unless a
frame before the cut closed the stream, they are followed by a failure that tells whether a
frame was open.
-/

namespace ChatGateway

namespace Stream

/--
The deltas of a body that was cut short with `rest` in no block: some of the whole body's
deltas before its terminal one, and then the failure that goes with `rest`.  Only a body
that breaks off has no terminal delta.
-/
def Truncates (rest : List UInt8) (whole cut : List Delta) : Prop :=
  ∃ (init : List Delta) (last : Option Delta) (shown : List Delta) (detail : String),
    whole = init ++ last.toList ∧ (∀ delta ∈ last, delta.isTerminal = true) ∧
    (∀ delta ∈ init, delta.isTerminal = false) ∧ shown <+: init ∧
    cut = shown ++ [.failed (.malformedStream detail)] ∧
    (detail = "upstream closed mid-frame" ↔ ∃ byte ∈ rest, Decoder.isBlank byte = false) ∧
    (detail = "upstream closed before message_stop" ↔ ∀ byte ∈ rest, Decoder.isBlank byte = true)

theorem Decoder.hasPartial_eq_true {rest : List UInt8} :
    (Decoder.mk rest).hasPartial = true ↔ ∃ byte ∈ rest, isBlank byte = false := by
  simp [hasPartial]

namespace Intake

/-- The failure of a body that closes too early says whether `rest` begins a frame. -/
theorem cutShort_eq (rest : List UInt8) :
    ∃ detail, cutShort ⟨rest⟩ = .malformedStream detail ∧
      (detail = "upstream closed mid-frame" ↔ ∃ byte ∈ rest, Decoder.isBlank byte = false) ∧
      (detail = "upstream closed before message_stop" ↔
        ∀ byte ∈ rest, Decoder.isBlank byte = true) := by
  by_cases hopen : ∃ byte ∈ rest, Decoder.isBlank byte = false
  · have hcut : cutShort ⟨rest⟩ = .malformedStream "upstream closed mid-frame" := by
      rw [cutShort, Decoder.hasPartial_eq_true.2 hopen]
      rfl
    have hnot : ¬ ∀ byte ∈ rest, Decoder.isBlank byte = true := by
      intro hall
      obtain ⟨byte, hbyte, hblank⟩ := hopen
      rw [hall byte hbyte] at hblank
      cases hblank
    exact ⟨_, hcut, iff_of_true rfl hopen, iff_of_false (by decide) hnot⟩
  · have hpartial : (Decoder.mk rest).hasPartial = false := by
      rw [← Bool.not_eq_true, Decoder.hasPartial_eq_true]
      exact hopen
    have hcut : cutShort ⟨rest⟩ = .malformedStream "upstream closed before message_stop" := by
      rw [cutShort, hpartial]
      rfl
    have hall : ∀ byte ∈ rest, Decoder.isBlank byte = true := by
      intro byte hbyte
      rw [← Bool.not_eq_false]
      intro hblank
      exact hopen ⟨byte, hbyte, hblank⟩
    exact ⟨_, hcut, iff_of_false (by decide) hopen, iff_of_true rfl hall⟩

theorem truncates_translation {head tail : List UInt8} (stop : Stop)
    (h : closing? (framesOf head) = none) :
    Truncates (remainder head) (translation (head ++ tail) stop) (translation head .closed) := by
  -- What comes after the cut joins the open block only, so the frames before it stay.
  obtain ⟨hopening, hclosing⟩ := opening_append (framesOf (remainder head ++ tail)) h
  rw [← framesOf_append] at hopening
  have hprefix : (Progress.initial.run (opening (framesOf head))).2 <+:
      (Progress.initial.run (opening (framesOf (head ++ tail)))).2 := by
    rw [hopening, Progress.run_append]
    exact List.prefix_append _ _
  obtain ⟨detail, hfailure, hmid, hbefore⟩ := cutShort_eq (remainder head)
  refine ⟨_, _, _, detail, translation_eq_lastBrought (head ++ tail) stop,
    isTerminal_of_mem_lastBrought _ _, Progress.run_opening _ _, hprefix, ?_, hmid, hbefore⟩
  rw [translation_eq, closingOf, h, ← hfailure]
  rfl

/--
A body that is closed after some of the bytes that it has otherwise, however both are cut
into reads.  If a frame in those bytes closes the stream, the deltas are the same; else
they are a prefix of the others without the terminal delta, and a failure.  It says that a
frame was open exactly if a byte after the last complete block is no white space, and that
the message is not complete exactly if none is.
-/
theorem closed_early {idle : Nat} {reads cut : List (Nat × Read)}
    (hcut : arrived idle cut <+: arrived idle reads) (hclosed : stopOf idle cut = .closed) :
    (closing? (framesOf (arrived idle cut)) ≠ none →
      (deltas idle cut).map Timed.value = (deltas idle reads).map Timed.value) ∧
    (closing? (framesOf (arrived idle cut)) = none →
      Truncates (remainder (arrived idle cut)) ((deltas idle reads).map Timed.value)
        ((deltas idle cut).map Timed.value)) := by
  obtain ⟨tail, htail⟩ := hcut
  rw [deltas_eq_translation, deltas_eq_translation, hclosed, ← htail]
  exact ⟨fun h => (translation_of_closing _ _ h).symm, truncates_translation _⟩

/-- A body that lacks the last byte of its last frame closes in the midst of that frame. -/
theorem closed_early_inside_blank_line :
    let startFrame := Text.bytes
      "data: \x7b\"type\":\"message_start\",\"message\":\x7b\"id\":\"é\"\x7d\x7d\r\n\r\n"
    let stopFrame := Text.bytes "data: \x7b\"type\":\"message_stop\"\x7d\n\n"
    let reads : List (Nat × Read) := [(3, .chunk (startFrame ++ stopFrame)), (0, .closed)]
    let cut : List (Nat × Read) :=
      [(2, .chunk startFrame), (9, .chunk stopFrame.dropLast), (1, .closed)]
    arrived 9 cut <+: arrived 9 reads ∧ stopOf 9 cut = .closed ∧
    closing? (framesOf (arrived 9 cut)) = none ∧
    Truncates (remainder (arrived 9 cut)) ((deltas 9 reads).map Timed.value)
      ((deltas 9 cut).map Timed.value) ∧
    (deltas 9 reads).map Timed.value = [.start "é", .done ⟨0, 0, by decide⟩] ∧
    (deltas 9 cut).map Timed.value =
      [.start "é", .failed (.malformedStream "upstream closed mid-frame")] := by
  intro startFrame stopFrame reads cut
  have hcut : arrived 9 cut <+: arrived 9 reads := ⟨[0x0A], by decide +kernel⟩
  have hclosed : stopOf 9 cut = .closed := rfl
  have hgoes : closing? (framesOf (arrived 9 cut)) = none := by
    have hframes : framesOf (arrived 9 cut) = (Decoder.mk (arrived 9 cut)).drain.1 := by
      rw [Decoder.drain_eq]
    rw [hframes]
    decide +kernel
  exact ⟨hcut, hclosed, hgoes, (closed_early hcut hclosed).2 hgoes, by decide +kernel,
    by decide +kernel⟩

end Intake

end Stream

end ChatGateway
