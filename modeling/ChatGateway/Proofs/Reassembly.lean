import ChatGateway.Proofs.Caller

/-!
# Putting a completion together from its chunks

A caller joins the contents and the reasonings of the chunks, and collects the pieces of a
tool call under the index of the call.  The arguments of a call are JSON, which the caller
reads when they are complete; it keeps them in compact form.
-/

namespace ChatGateway

namespace Stream

/-! ## The changes of a stream -/

def joinedContent (changes : List Change) : String :=
  String.join (changes.map fun change => change.content.getD "")

def joinedReasoning (changes : List Change) : String :=
  String.join (changes.map fun change => change.reasoning.getD "")

def callPieces (changes : List Change) : List CallPiece :=
  changes.flatMap Change.calls

def finishes (changes : List Change) : List String :=
  changes.filterMap Change.finish

@[simp] theorem joinedContent_append (first second : List Change) :
    joinedContent (first ++ second) = joinedContent first ++ joinedContent second := by
  simp [joinedContent]

@[simp] theorem joinedReasoning_append (first second : List Change) :
    joinedReasoning (first ++ second) = joinedReasoning first ++ joinedReasoning second := by
  simp [joinedReasoning]

@[simp] theorem callPieces_append (first second : List Change) :
    callPieces (first ++ second) = callPieces first ++ callPieces second := by
  simp [callPieces]

@[simp] theorem finishes_append (first second : List Change) :
    finishes (first ++ second) = finishes first ++ finishes second := by
  simp [finishes]

/-! ## Tool calls -/

/-- A tool call with the arguments that have come. -/
structure GatheredCall where
  index : UInt32
  id : String
  name : String
  arguments : String
  deriving DecidableEq, Repr

namespace GatheredCall

def begun (piece : CallPiece) : GatheredCall :=
  ⟨piece.index, piece.id.getD "", piece.name.getD "", piece.arguments⟩

def extend (call : GatheredCall) (arguments : String) : GatheredCall :=
  { call with arguments := call.arguments ++ arguments }

/-- Adds a piece to the call with its index; if there is none, the piece begins one. -/
def gather : List GatheredCall -> CallPiece -> List GatheredCall
  | [], piece => [begun piece]
  | call :: rest, piece =>
      if call.index = piece.index then call.extend piece.arguments :: rest
      else call :: gather rest piece

def compact? (text : String) : Option String :=
  (Json.read (Text.bytes text)).toOption.map fun value => value.canonical.render

/-- The call when its arguments are complete. -/
def complete (call : GatheredCall) : Option Chat.CalledTool :=
  (compact? call.arguments).map fun arguments => ⟨call.id, call.name, arguments⟩

theorem gather_of_new {calls : List GatheredCall} {piece : CallPiece}
    (h : ∀ call ∈ calls, call.index ≠ piece.index) :
    gather calls piece = calls ++ [begun piece] := by
  induction calls with
  | nil =>
      rfl
  | cons call rest ih =>
      have hrest : ∀ other ∈ rest, other.index ≠ piece.index := fun other hother =>
        h other (List.mem_cons_of_mem _ hother)
      rw [gather, if_neg (h call List.mem_cons_self), ih hrest, List.cons_append]

theorem gather_of_last {calls : List GatheredCall} {call : GatheredCall} {piece : CallPiece}
    (h : ∀ other ∈ calls, other.index ≠ piece.index) (hcall : call.index = piece.index) :
    gather (calls ++ [call]) piece = calls ++ [call.extend piece.arguments] := by
  induction calls with
  | nil =>
      rw [List.nil_append, gather, if_pos hcall, List.nil_append]
  | cons other rest ih =>
      have hrest : ∀ another ∈ rest, another.index ≠ piece.index := fun another hanother =>
        h another (List.mem_cons_of_mem _ hanother)
      rw [List.cons_append, gather, if_neg (h other List.mem_cons_self), ih hrest,
        List.cons_append]

/-- Pieces of one call that come while it is the last one end up in it, in their order. -/
theorem gather_pieces {calls : List GatheredCall} {call : GatheredCall}
    {pieces : List CallPiece} (hcalls : ∀ other ∈ calls, other.index ≠ call.index)
    (hpieces : ∀ piece ∈ pieces, piece.index = call.index) :
    pieces.foldl gather (calls ++ [call]) =
      calls ++ [call.extend (String.join (pieces.map CallPiece.arguments))] := by
  induction pieces generalizing call with
  | nil =>
      simp [extend]
  | cons piece rest ih =>
      have hindex : piece.index = call.index := hpieces piece List.mem_cons_self
      have hrest : ∀ other ∈ rest, other.index = (call.extend piece.arguments).index :=
        fun other hother => hpieces other (List.mem_cons_of_mem _ hother)
      have hmore := @ih (call.extend piece.arguments) hcalls hrest
      rw [List.foldl_cons, gather_of_last (hindex ▸ hcalls) hindex.symm, hmore]
      simp [extend, String.append_assoc]

end GatheredCall

/-! ## The completion -/

def finishNamed (name : String) : Option Chat.FinishReason :=
  [.stop, .length, .toolCalls, .contentFilter].find? fun reason => reason.name = name

theorem finishNamed_name (reason : Chat.FinishReason) : finishNamed reason.name = some reason := by
  cases reason <;> decide

/--
The completion of a stream's chunks.  All of them have to agree on its head; exactly one
gives the reason for its end and exactly one the usage.
-/
def reassemble (chunks : List Chunk) : Option Chat.Completion := do
  let first ← chunks.head?
  guard (chunks.all fun chunk =>
    (chunk.id, chunk.created, chunk.model) = (first.id, first.created, first.model))
  let changes := chunks.flatMap Chunk.choices
  let calls ← ((callPieces changes).foldl GatheredCall.gather []).mapM GatheredCall.complete
  match finishes changes, chunks.filterMap Chunk.usage with
  | [name], [usage] => do
      let finish ← finishNamed name
      pure {
        id := first.id
        created := first.created
        model := first.model
        content := Chat.nonEmpty (joinedContent changes)
        reasoning := Chat.nonEmpty (joinedReasoning changes)
        toolCalls := calls
        finish
        usage }
  | _, _ => none

section Whole

variable (encoder : Encoder) (changes : List Change) (usage : Option Chat.Usage)

/-- The chunks of a message, and the one with its usage if it has one. -/
def wholeChunks : List Chunk :=
  changes.map encoder.chunkWith ++ (usage.map encoder.usageWith).toList

theorem choices_wholeChunks :
    (wholeChunks encoder changes usage).flatMap Chunk.choices = changes := by
  induction changes with
  | nil => cases usage <;> rfl
  | cons change rest ih =>
      simp only [wholeChunks, List.map_cons, List.cons_append, List.flatMap_cons] at ih ⊢
      rw [ih]
      rfl

theorem usages_wholeChunks :
    (wholeChunks encoder changes usage).filterMap Chunk.usage = usage.toList := by
  induction changes with
  | nil => cases usage <;> rfl
  | cons change rest ih => exact ih

theorem head_of_mem_wholeChunks {chunk : Chunk} (h : chunk ∈ wholeChunks encoder changes usage) :
    (chunk.id, chunk.created, chunk.model) = (encoder.id, encoder.created, encoder.model) := by
  rcases List.mem_append.1 h with hchange | hlast
  · obtain ⟨_, _, rfl⟩ := List.mem_map.1 hchange
    rfl
  · obtain ⟨_, _, rfl⟩ := Option.map_eq_some_iff.1 (Option.mem_toList.1 hlast)
    rfl

end Whole

/-- The chunks of a message that has ended make a completion if they have a usage. -/
theorem reassemble_wholeChunks {changes : List Change} {calls : List Chat.CalledTool}
    {reason : Chat.FinishReason} (encoder : Encoder) (usage : Option Chat.Usage)
    (hcalls : ((callPieces changes).foldl GatheredCall.gather []).mapM GatheredCall.complete =
      some calls)
    (hfinish : finishes changes = [reason.name]) :
    reassemble (wholeChunks encoder changes usage) = usage.map fun usage => {
        id := encoder.id
        created := encoder.created
        model := encoder.model
        content := Chat.nonEmpty (joinedContent changes)
        reasoning := Chat.nonEmpty (joinedReasoning changes)
        toolCalls := calls
        finish := reason
        usage } := by
  have hne : wholeChunks encoder changes usage ≠ [] := by
    rintro hnil
    rw [wholeChunks, List.append_eq_nil_iff, List.map_eq_nil_iff] at hnil
    rw [hnil.1] at hfinish
    cases hfinish
  obtain ⟨first, rest, hcons⟩ := List.exists_cons_of_ne_nil hne
  have hhead : (wholeChunks encoder changes usage).head? = some first := by rw [hcons]; rfl
  have hfirst := head_of_mem_wholeChunks encoder changes usage
    (List.mem_of_mem_head? hhead)
  have hall : (wholeChunks encoder changes usage).all (fun chunk => decide
      ((chunk.id, chunk.created, chunk.model) = (first.id, first.created, first.model))) =
        true := by
    rw [List.all_eq_true]
    intro chunk hchunk
    rw [hfirst, head_of_mem_wholeChunks encoder changes usage hchunk]
    exact decide_eq_true rfl
  simp only [Prod.mk.injEq] at hfirst
  obtain ⟨hid, hcreated, hmodel⟩ := hfirst
  rw [reassemble, hhead]
  simp only [Option.bind_eq_bind, Option.bind_some, hall]
  cases usage with
  | none => simp [choices_wholeChunks, usages_wholeChunks, hcalls, hfinish]
  | some usage =>
      simp [choices_wholeChunks, usages_wholeChunks, hcalls, hfinish, finishNamed_name,
        hid, hcreated, hmodel]

end Stream

end ChatGateway
