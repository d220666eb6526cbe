import ChatGateway.Proofs.Hoisting

/-!
# Which requests are translated

A request is looked at piece by piece: each message with its role, its parts and its calls, then
the tools and then the tool choice.  It is translated exactly if every piece can be expressed for
the provider, and the first piece that cannot is the one that is reported.  Before all of that the
options are checked: several choices, other modalities than text, and a response format that names
another type than text.
-/

namespace ChatGateway

namespace Chat

/-- The parts of a content; a plain text is a single part. -/
def Content.allParts : Content → List Part
  | .text plain => [.text plain]
  | .parts several => several
  | .absent => []

end Chat

namespace Messages

open Chat (Part Content)

/-! ## What can be expressed -/

def IsText (part : Part) : Prop :=
  ∃ text, part = .text text

/-- The URL of an image: a web address, or data in base64. -/
inductive ImageUrl : String → Prop
  | http (rest : String) : ImageUrl ("http://" ++ rest)
  | https (rest : String) : ImageUrl ("https://" ++ rest)
  | data (mediaType payload : String) : ',' ∉ mediaType.toList →
      ImageUrl ("data:" ++ mediaType ++ ";base64," ++ payload)

/-- A part of a turn is text or an image. -/
def IsShowable (part : Part) : Prop :=
  IsText part ∨ ∃ url, part = .image url ∧ ImageUrl url

/-- The arguments of a call are blank, or they are a JSON text. -/
def HasReadableArguments (call : Chat.ToolCall) : Prop :=
  Text.isAllBlank call.arguments = true ∨
    ∃ value, Json.read (Text.bytes call.arguments) = .ok value

/-- A tool is a function with a name. -/
def IsNamedFunction (tool : Chat.Tool) : Prop :=
  tool.kind = "function" ∧ ∃ function name, tool.function = some function ∧
    function.name = some name ∧ name ≠ ""

/-- A tool choice is one of three words, or it names a function. -/
def IsKnownChoice (choice : Json) : Prop :=
  choice = .text "auto" ∨ choice = .text "none" ∨ choice = .text "required" ∨
    choice.get? "type" = some (.text "function") ∧ ∃ function name,
      choice.get? "function" = some function ∧ function.get? "name" = some (.text name)

structure ExpressibleMessage (message : Chat.Message) : Prop where
  role : message.role ∈ ["system", "developer", "user", "assistant", "tool"]
  plain : message.role ∈ ["system", "developer", "tool"] →
    ∀ part ∈ message.content.allParts, IsText part
  answers : message.role = "tool" → message.toolCallId.isSome = true
  shown : message.role ∈ ["user", "assistant"] →
    ∀ part ∈ message.content.allParts, IsShowable part
  calls : message.role = "assistant" → ∀ call ∈ message.toolCalls.getD [], HasReadableArguments call

/-- All that a request holds can be expressed for the provider. -/
structure Expressible (request : Chat.Request) : Prop where
  messages : ∀ message ∈ request.messages, ExpressibleMessage message
  tools : ∀ tool ∈ request.tools.getD [], IsNamedFunction tool
  choice : ∀ choice, request.toolChoice = some choice → IsKnownChoice choice

/-! ## Pieces of a request -/

/-- What is looked at by itself. -/
inductive Piece where
  | role (name : String)
  | callId (id : Option String)
  /-- A part of a system or tool message. -/
  | plain (part : Part)
  /-- A part of a turn. -/
  | shown (part : Part)
  | call (call : Chat.ToolCall)
  | tool (tool : Chat.Tool)
  | choice (choice : Json)

namespace Piece

def Sound : Piece → Prop
  | .role name => name ∈ ["system", "developer", "user", "assistant", "tool"]
  | .callId id => id.isSome = true
  | .plain part => IsText part
  | .shown part => IsShowable part
  | .call made => HasReadableArguments made
  | .tool offered => IsNamedFunction offered
  | .choice made => IsKnownChoice made

/-- The piece is malformed, whoever serves the request. -/
def Malformed : Piece → Prop
  | .callId id => id = none
  | .shown (.image url) => ∃ rest, url = "data:" ++ rest ∧ ',' ∉ rest.toList
  | _ => False

/-- The kind of failure that reports the piece. -/
inductive Reports (piece : Piece) : Failure → Prop
  | invalid (reason : String) : piece.Malformed → Reports piece (.invalidRequest reason)
  | unsupported (feature : String) : ¬ piece.Malformed → Reports piece (.unsupported feature)

end Piece

/-- The pieces of a message, in the order in which they are looked at. -/
def piecesOf (message : Chat.Message) : List Piece :=
  .role message.role :: match message.role with
    | "system" | "developer" => message.content.allParts.map .plain
    | "user" => message.content.allParts.map .shown
    | "assistant" =>
        message.content.allParts.map .shown ++ (message.toolCalls.getD []).map .call
    | "tool" => .callId message.toolCallId :: message.content.allParts.map .plain
    | _ => []

def pieces (request : Chat.Request) : List Piece :=
  request.messages.flatMap piecesOf ++
    ((request.tools.getD []).map .tool ++ request.toolChoice.toList.map .choice)

theorem expressibleMessage_iff {message : Chat.Message} :
    ExpressibleMessage message ↔ ∀ piece ∈ piecesOf message, piece.Sound := by
  rw [piecesOf, List.forall_mem_cons]
  constructor
  · intro h
    refine ⟨h.role, ?_⟩
    split
    case h_1 hrole | h_2 hrole =>
      exact List.forall_mem_map.2 (h.plain (by simp [hrole]))
    case h_3 hrole => exact List.forall_mem_map.2 (h.shown (by simp [hrole]))
    case h_4 hrole =>
      exact List.forall_mem_append.2 ⟨List.forall_mem_map.2 (h.shown (by simp [hrole])),
        List.forall_mem_map.2 (h.calls hrole)⟩
    case h_5 hrole =>
      exact List.forall_mem_cons.2 ⟨h.answers hrole,
        List.forall_mem_map.2 (h.plain (by simp [hrole]))⟩
    case h_6 => exact nofun
  · rintro ⟨hrole, hrest⟩
    have hroles : message.role = "system" ∨ message.role = "developer" ∨ message.role = "user" ∨
        message.role = "assistant" ∨ message.role = "tool" := by
      simpa [Piece.Sound] using hrole
    rcases hroles with hname | hname | hname | hname | hname <;> rw [hname] at hrest
    case inl | inr.inl =>
      have hplain := List.forall_mem_map.1 hrest
      exact ⟨hrole, fun _ => hplain, by simp [hname], by simp [hname], by simp [hname]⟩
    case inr.inr.inl =>
      have hshown := List.forall_mem_map.1 hrest
      exact ⟨hrole, by simp [hname], by simp [hname], fun _ => hshown, by simp [hname]⟩
    case inr.inr.inr.inl =>
      obtain ⟨hparts, hmade⟩ := List.forall_mem_append.1 hrest
      have hshown := List.forall_mem_map.1 hparts
      have hcalls := List.forall_mem_map.1 hmade
      exact ⟨hrole, by simp [hname], by simp [hname], fun _ => hshown, fun _ => hcalls⟩
    case inr.inr.inr.inr =>
      obtain ⟨hanswers, hparts⟩ := List.forall_mem_cons.1 hrest
      have hplain := List.forall_mem_map.1 hparts
      exact ⟨hrole, fun _ => hplain, fun _ => hanswers, by simp [hname], by simp [hname]⟩

theorem expressible_iff {request : Chat.Request} :
    Expressible request ↔ ∀ piece ∈ pieces request, piece.Sound := by
  rw [pieces, List.forall_mem_append, List.forall_mem_append, List.forall_mem_flatMap,
    List.forall_mem_map, List.forall_mem_map]
  constructor
  · intro h
    exact ⟨fun message hmessage => expressibleMessage_iff.1 (h.messages message hmessage), h.tools,
      fun choice hchoice => h.choice choice (by simpa using hchoice)⟩
  · rintro ⟨hmessages, htools, hchoice⟩
    exact ⟨fun message hmessage => expressibleMessage_iff.2 (hmessages message hmessage), htools,
      fun choice hsome => hchoice choice (by simp [hsome])⟩

/-! ## The first piece that cannot be expressed -/

/-- The piece cannot be expressed, and all pieces before it can. -/
def FirstFault (pieces : List Piece) (piece : Piece) : Prop :=
  ∃ before after, pieces = before ++ piece :: after ∧ (∀ sound ∈ before, sound.Sound) ∧
    ¬ piece.Sound

section FirstFault

variable {pieces rest : List Piece} {piece other : Piece}

theorem FirstFault.single (h : ¬ piece.Sound) : FirstFault [piece] piece :=
  ⟨[], [], rfl, nofun, h⟩

theorem FirstFault.append (h : FirstFault pieces piece) (rest : List Piece) :
    FirstFault (pieces ++ rest) piece := by
  obtain ⟨before, after, rfl, hbefore, hpiece⟩ := h
  exact ⟨before, after ++ rest, by simp, hbefore, hpiece⟩

theorem FirstFault.append_left (h : FirstFault rest piece)
    (hpieces : ∀ sound ∈ pieces, sound.Sound) : FirstFault (pieces ++ rest) piece := by
  obtain ⟨before, after, rfl, hbefore, hpiece⟩ := h
  refine ⟨pieces ++ before, after, by simp, fun sound hsound => ?_, hpiece⟩
  rcases List.mem_append.1 hsound with hsound | hsound
  · exact hpieces sound hsound
  · exact hbefore sound hsound

theorem FirstFault.unique (h : FirstFault pieces piece) (hother : FirstFault pieces other) :
    other = piece := by
  obtain ⟨before, after, rfl, hbefore, hpiece⟩ := h
  obtain ⟨earlier, later, heq, hearlier, hfault⟩ := hother
  -- The one that comes first is not among those before the other, which are sound.
  rcases List.append_eq_append_iff.1 heq with ⟨between, rfl, hrest⟩ | ⟨between, rfl, hrest⟩
  · cases between with
    | nil => exact (List.cons.inj hrest).1.symm
    | cons first more =>
        cases hrest
        exact (hpiece (hearlier piece (by simp))).elim
  · cases between with
    | nil => exact (List.cons.inj hrest).1
    | cons first more =>
        cases hrest
        exact (hfault (hbefore other (by simp))).elim

end FirstFault

/-- What comes of looking at the pieces: all of them are sound, or the first fault is reported. -/
def Examines {α : Type} (pieces : List Piece) (result : Except Failure α) : Prop :=
  match result with
  | .ok _ => ∀ piece ∈ pieces, piece.Sound
  | .error failure => ∃ piece, FirstFault pieces piece ∧ piece.Reports failure

section Examines

variable {α β : Type} {held rest : List Piece} {piece : Piece}

theorem Examines.nothing (result : α) : Examines [] (.ok result) :=
  nofun

theorem Examines.fault {failure : Failure} (h : ¬ piece.Sound) (hreports : piece.Reports failure) :
    Examines [piece] (.error failure : Except Failure α) :=
  ⟨piece, .single h, hreports⟩

/-- A sound piece in front is passed over. -/
theorem Examines.cons {result : Except Failure α} (hpiece : piece.Sound)
    (h : Examines rest result) : Examines (piece :: rest) result := by
  cases result with
  | ok value => exact List.forall_mem_cons.2 ⟨hpiece, h⟩
  | error failure =>
      obtain ⟨fault, hfirst, hreports⟩ := h
      have hlater : FirstFault ([piece] ++ rest) fault :=
        hfirst.append_left (by simpa using hpiece)
      exact ⟨fault, hlater, hreports⟩

theorem Examines.sound {result : Except Failure α} {value : α} (h : piece.Sound)
    (hresult : result = .ok value) : Examines [piece] result := by
  rw [hresult]
  exact .cons h (.nothing value)

theorem Examines.bind {first : Except Failure α} {next : α → Except Failure β}
    (h : Examines held first) (hnext : ∀ value, first = .ok value → Examines rest (next value)) :
    Examines (held ++ rest) (first >>= next) := by
  cases first with
  | error failure =>
      obtain ⟨piece, hfirst, hreports⟩ := h
      exact ⟨piece, hfirst.append rest, hreports⟩
  | ok value =>
      have hrest := hnext value rfl
      show Examines (held ++ rest) (next value)
      cases hvalue : next value with
      | ok result =>
          rw [hvalue] at hrest
          intro piece hpiece
          exact (List.mem_append.1 hpiece).elim (h piece) (hrest piece)
      | error failure =>
          rw [hvalue] at hrest
          obtain ⟨piece, hfirst, hreports⟩ := hrest
          exact ⟨piece, hfirst.append_left h, hreports⟩

/-- What is made of a result afterwards does not matter. -/
theorem Examines.map {first : Except Failure α} (h : Examines held first) (f : α → β) :
    Examines held (first >>= fun value => pure (f value)) := by
  cases first <;> exact h

theorem Examines.mapM {f : α → Except Failure β} {piecesOf : α → List Piece}
    (h : ∀ item, Examines (piecesOf item) (f item)) (items : List α) :
    Examines (items.flatMap piecesOf) (items.mapM f) := by
  induction items with
  | nil => exact .nothing []
  | cons item rest ih =>
      rw [List.mapM_cons, List.flatMap_cons]
      exact (h item).bind fun value _ => ih.map fun values => value :: values

/-- Of items that are one piece each. -/
theorem Examines.mapM_single {f : α → Except Failure β} {toPiece : α → Piece}
    (h : ∀ item, Examines [toPiece item] (f item)) (items : List α) :
    Examines (items.map toPiece) (items.mapM f) := by
  rw [List.map_eq_flatMap]
  exact .mapM h items

end Examines

/-! ## Looking at each piece -/

section Pieces

variable {url : String} {content : Content}

theorem examines_partText (part : Part) : Examines [.plain part] (partText part) := by
  cases part with
  | text plain => exact .sound ⟨plain, rfl⟩ rfl
  | image url => exact .fault (by simp [Piece.Sound, IsText]) (.unsupported _ nofun)
  | other => exact .fault (by simp [Piece.Sound, IsText]) (.unsupported _ nofun)

theorem examines_plainText (content : Content) :
    Examines (content.allParts.map .plain) (plainText content) := by
  cases content with
  | text plain => exact examines_partText (.text plain)
  | parts several => exact (Examines.mapM_single examines_partText several).map _
  | absent => exact .nothing ""

theorem imageUrl_of_imageSource {source : ImageSource} (h : imageSource url = .ok source) :
    ImageUrl url := by
  rw [imageSource] at h
  split at h
  next rest hrest =>
    have hurl := Text.dropStart?_eq_some.1 hrest
    split at h
    next => cases h
    next header payload hcut =>
      obtain ⟨rfl, hfree⟩ := Text.cut_eq_some.1 hcut
      split at h
      next mediaType hheader =>
        rw [Text.dropEnd?_eq_some.1 hheader] at hurl hfree
        have hdata : url =
            "data:" ++ String.ofList mediaType ++ ";base64," ++ String.ofList payload := by
          rw [← String.toList_inj, hurl]
          simp
        rw [hdata]
        refine .data _ _ fun hmem => hfree (List.mem_append_left _ ?_)
        rwa [String.toList_ofList] at hmem
      next => cases h
  next =>
    split at h
    next hweb =>
      rcases Bool.or_eq_true_iff.1 hweb with hstart | hstart <;>
        obtain ⟨rest, hrest⟩ := List.isPrefixOf_iff_prefix.1 hstart <;>
        rw [Text.eq_append_ofList hrest.symm]
      · exact .https _
      · exact .http _
    next => cases h

theorem imageSource_of_imageUrl (h : ImageUrl url) : ∃ source, imageSource url = .ok source := by
  cases h with
  | http rest | https rest => simp [imageSource, Text.dropStart?]
  | data mediaType payload hfree =>
      have hurl : ("data:" ++ mediaType ++ ";base64," ++ payload).toList =
          "data:".toList ++ ((mediaType.toList ++ ";base64".toList) ++ ',' :: payload.toList) := by
        simp
      have hcut := Text.cut_append payload.toList
        (show ',' ∉ mediaType.toList ++ ";base64".toList by simp [hfree])
      have hheader := Text.dropEnd?_eq_some.2 (rfl : mediaType.toList ++ ";base64".toList = _)
      refine ⟨.base64 mediaType payload, ?_⟩
      rw [imageSource, hurl, Text.dropStart?_append]
      simp only [hcut, hheader, String.ofList_toList]

/-- Of an image URL that cannot be sent, data without a comma is malformed. -/
theorem reports_imageSource {failure : Failure} (h : imageSource url = .error failure) :
    (Piece.shown (.image url)).Reports failure := by
  rw [imageSource] at h
  split at h
  next rest hrest =>
    have hurl := Text.eq_append_ofList (Text.dropStart?_eq_some.1 hrest)
    split at h
    next hcut =>
      cases h
      exact .invalid _ ⟨_, hurl, by simpa using Text.cut_eq_none.1 hcut⟩
    next header payload hcut =>
      split at h
      next => cases h
      next =>
        cases h
        refine .unsupported _ ?_
        rintro ⟨other, hother, hfree⟩
        rw [hother, String.toList_append, Text.dropStart?_append] at hrest
        cases hrest
        rw [Text.cut_eq_none.2 hfree] at hcut
        cases hcut
  next hnone =>
    split at h
    next => cases h
    next =>
      cases h
      refine .unsupported _ ?_
      rintro ⟨rest, rfl, -⟩
      rw [String.toList_append, Text.dropStart?_append] at hnone
      cases hnone

theorem isShowable_image : IsShowable (.image url) ↔ ImageUrl url := by
  simp [IsShowable, IsText]

theorem examines_imageSource (url : String) : Examines [.shown (.image url)] (imageSource url) := by
  cases hsource : imageSource url with
  | ok source => exact .sound (isShowable_image.2 (imageUrl_of_imageSource hsource)) rfl
  | error failure =>
      refine .fault (fun hshowable => ?_) (reports_imageSource hsource)
      obtain ⟨source, hfound⟩ := imageSource_of_imageUrl (isShowable_image.1 hshowable)
      rw [hsource] at hfound
      cases hfound

theorem examines_partBlocks (part : Part) : Examines [.shown part] (partBlocks part) := by
  cases part with
  | text plain => exact .sound (.inl ⟨plain, rfl⟩) rfl
  | image url => exact (examines_imageSource url).map _
  | other => exact .fault (by simp [Piece.Sound, IsShowable, IsText]) (.unsupported _ nofun)

theorem examines_contentBlocks (content : Content) :
    Examines (content.allParts.map .shown) (contentBlocks content) := by
  cases content with
  | text plain => exact examines_partBlocks (.text plain)
  | parts several => exact (Examines.mapM_single examines_partBlocks several).map _
  | absent => exact .nothing []

theorem examines_toolInput (call : Chat.ToolCall) : Examines [.call call] (toolInput call) := by
  rw [toolInput]
  cases hblank : Text.isAllBlank call.arguments with
  | true =>
      rw [if_pos rfl]
      exact .sound (.inl hblank) rfl
  | false =>
      rw [if_neg Bool.false_ne_true]
      cases hread : Json.read (Text.bytes call.arguments) with
      | ok value => exact .sound (.inr ⟨value, hread⟩) rfl
      | error fault =>
          refine .fault ?_ (.unsupported _ nofun)
          rintro (hall | ⟨value, hvalue⟩)
          · rw [hblank] at hall
            cases hall
          · rw [hread] at hvalue
            cases hvalue

theorem examines_turnBlocks (content : Content) (calls : List Chat.ToolCall) :
    Examines (content.allParts.map .shown ++ calls.map .call) (turnBlocks content calls) :=
  (examines_contentBlocks content).bind fun _ _ =>
    (Examines.mapM_single (fun call => (examines_toolInput call).map _) calls).map _

/-- A message whose role has no place is one piece, and it is refused with the role's name. -/
theorem place_of_other_role {message : Chat.Message}
    (h : message.role ∉ ["system", "developer", "user", "assistant", "tool"]) :
    piecesOf message = [.role message.role] ∧
      place message = .error (.unsupported ("message role '" ++ message.role ++ "'")) := by
  simp only [List.mem_cons, List.not_mem_nil, or_false, not_or] at h
  -- With the five inequations at hand, both matches come down to their last case.
  obtain ⟨hsystem, hdeveloper, huser, hassistant, htool⟩ := h
  constructor
  · simp [piecesOf]
  · simp [place]

theorem examines_place (message : Chat.Message) : Examines (piecesOf message) (place message) := by
  by_cases hknown : message.role ∈ ["system", "developer", "user", "assistant", "tool"]
  · have hsound : (Piece.role message.role).Sound := hknown
    have hroles : message.role = "system" ∨ message.role = "developer" ∨ message.role = "user" ∨
        message.role = "assistant" ∨ message.role = "tool" := by
      simpa using hknown
    rw [piecesOf]
    refine .cons hsound ?_
    rcases hroles with hrole | hrole | hrole | hrole | hrole <;> rw [place, hrole]
    case inl | inr.inl => exact (examines_plainText message.content).map _
    case inr.inr.inl =>
      have hparts : Examines (message.content.allParts.map .shown)
          (turnBlocks message.content []) := by
        simpa using examines_turnBlocks message.content []
      exact hparts.map _
    case inr.inr.inr.inl =>
      exact (examines_turnBlocks message.content (message.toolCalls.getD [])).map _
    case inr.inr.inr.inr =>
      cases hcall : message.toolCallId with
      | none => exact ⟨_, (FirstFault.single (by simp [Piece.Sound])).append _, .invalid _ rfl⟩
      | some callId => exact .cons rfl ((examines_plainText message.content).map _)
  · obtain ⟨hpieces, hplace⟩ := place_of_other_role hknown
    rw [hpieces, hplace]
    exact .fault hknown (.unsupported _ id)

theorem examines_toolOf (tool : Chat.Tool) : Examines [.tool tool] (toolOf tool) := by
  rw [toolOf]
  split
  next hkind => exact .fault (fun hsound => hkind hsound.1) (.unsupported _ nofun)
  next hkind =>
    split
    next hnone =>
      refine .fault ?_ (.unsupported _ nofun)
      rintro ⟨-, function, name, hfunction, -⟩
      rw [hnone] at hfunction
      cases hfunction
    next function hfunction =>
      split
      next hnone =>
        refine .fault ?_ (.unsupported _ nofun)
        rintro ⟨-, other, name, hother, hname, hempty⟩
        cases hfunction.symm.trans hother
        simp [hname, hempty] at hnone
      next name hname =>
        obtain ⟨hname, hempty⟩ := Option.filter_eq_some_iff.1 hname
        have hne : name ≠ "" := by
          rintro rfl
          simp at hempty
        exact .sound ⟨by simpa using hkind, function, name, hfunction, hname, hne⟩ rfl

theorem exists_chosenFunction {choice : Json} :
    (∃ name, chosenFunction choice = some name) ↔ choice.get? "type" = some (.text "function") ∧
      ∃ function name, choice.get? "function" = some function ∧
        function.get? "name" = some (.text name) := by
  have htext : ∀ {found : Option Json} {text : String},
      found.bind Json.text? = some text ↔ found = some (.text text) := by
    intro found text
    cases found with
    | none => simp
    | some value => cases value <;> simp [Json.text?]
  rw [chosenFunction]
  split
  next htype =>
    rw [htext] at htype
    simp only [htext, Option.bind_eq_some_iff, htype, true_and]
    exact exists_comm
  next htype =>
    rw [htext] at htype
    simp [htype]

theorem examines_toolChoiceOf (choice : Json) :
    Examines [.choice choice] (toolChoiceOf choice) := by
  rw [toolChoiceOf.eq_def]
  split
  case h_1 => exact .sound (.inl rfl) rfl
  case h_2 => exact .sound (.inr (.inl rfl)) rfl
  case h_3 => exact .sound (.inr (.inr (.inl rfl))) rfl
  case h_4 word hauto hnone hrequired =>
    refine .fault ?_ (.unsupported _ nofun)
    rintro (heq | heq | heq | ⟨htype, -⟩)
    · exact hauto (Json.text.inj heq)
    · exact hnone (Json.text.inj heq)
    · exact hrequired (Json.text.inj heq)
    · cases htype
  case h_5 htext =>
    split
    next name hname =>
      exact .sound (.inr (.inr (.inr (exists_chosenFunction.1 ⟨name, hname⟩)))) rfl
    next hnone =>
      refine .fault ?_ (.unsupported _ nofun)
      rintro (heq | heq | heq | hfunction)
      · exact htext _ heq
      · exact htext _ heq
      · exact htext _ heq
      · obtain ⟨name, hname⟩ := exists_chosenFunction.2 hfunction
        rw [hnone] at hname
        cases hname

end Pieces

variable {request : Chat.Request} {model : String}

/-- With options that pass, a request is examined piece by piece, in their order. -/
theorem examines_ofChat (hoptions : checkOptions request = .ok ()) (model : String) :
    Examines (pieces request) (Request.ofChat request model) := by
  rw [Request.ofChat, hoptions]
  refine (Examines.mapM examines_place request.messages).bind fun placed _ => ?_
  refine Examines.bind ?_ fun tools _ => ?_
  · cases request.tools with
    | none => exact .nothing none
    | some tools => exact (Examines.mapM_single examines_toolOf tools).map some
  · refine Examines.map ?_ _
    cases request.toolChoice with
    | none => exact .nothing none
    | some choice => exact (examines_toolChoiceOf choice).map some

/--
A request whose options pass is translated exactly if all that it holds can be expressed.  If not,
the failure is that of the first piece that cannot: messages in order, in each the call that a
tool answers before the parts and the parts before the calls, then the tools, then the tool
choice.  It is an invalid request exactly if that piece is malformed, a tool message without the
call that it answers or image data without a comma, and else an unsupported feature.
-/
theorem ofChat_ok_iff_expressible (hoptions : checkOptions request = .ok ()) :
    ((∃ sent, Request.ofChat request model = .ok sent) ↔ Expressible request) ∧
    ∀ failure, Request.ofChat request model = .error failure →
      ∃ piece, FirstFault (pieces request) piece ∧
        (∀ other, FirstFault (pieces request) other → other = piece) ∧
        ((∃ reason, failure = .invalidRequest reason) ↔ piece.Malformed) ∧
        ((∃ feature, failure = .unsupported feature) ↔ ¬ piece.Malformed) := by
  have hexamines := examines_ofChat hoptions model
  rw [expressible_iff]
  cases hresult : Request.ofChat request model with
  | ok sent =>
      rw [hresult] at hexamines
      exact ⟨⟨fun _ => hexamines, fun _ => ⟨sent, rfl⟩⟩, nofun⟩
  | error fault =>
      rw [hresult] at hexamines
      obtain ⟨piece, hfirst, hreports⟩ := hexamines
      refine ⟨⟨fun ⟨sent, heq⟩ => ?_, fun hall => ?_⟩, fun failure heq => ?_⟩
      · cases heq
      · obtain ⟨before, after, hpieces, -, hfault⟩ := hfirst
        exact (hfault (hall piece (by simp [hpieces]))).elim
      · cases heq
        refine ⟨piece, hfirst, fun other hother => hfirst.unique hother, ?_⟩
        cases hreports with
        | invalid reason hmalformed => simp [hmalformed]
        | unsupported feature hsound => simp [hsound]

/-- The image of the second message has no data, and the tool message answers no call. -/
def faulty : Chat.Request :=
  .ofMessages "alias" [⟨"user", .text "What is the time?", none, none⟩,
    ⟨"user", .parts [.text "Look:", .image "data:image/png;base64"], none, none⟩,
    ⟨"tool", .parts [.other], none, none⟩]

set_option maxRecDepth 8000 in
theorem ofChat_ok_iff_expressible_faulty :
    Expressible instructed ∧ ¬ Expressible faulty ∧
      ∃ piece, FirstFault (pieces faulty) piece ∧ piece.Malformed := by
  obtain ⟨sent, failure, hsent, hfailure, hinvalid⟩ :
      ∃ sent failure, Request.ofChat instructed "model" = .ok sent ∧
        Request.ofChat faulty "model" = .error failure ∧
        failure = .invalidRequest "image data URL without a payload" :=
    ⟨_, _, rfl, rfl, rfl⟩
  have hinstructed : checkOptions instructed = .ok () := rfl
  have hfaulty : checkOptions faulty = .ok () := rfl
  refine ⟨(ofChat_ok_iff_expressible hinstructed).1.1 ⟨sent, hsent⟩, fun hall => ?_, ?_⟩
  · obtain ⟨other, hother⟩ : ∃ sent, Request.ofChat faulty "model" = .ok sent :=
      (ofChat_ok_iff_expressible hfaulty).1.2 hall
    rw [hfailure] at hother
    cases hother
  · obtain ⟨piece, hfirst, -, hmalformed, -⟩ := (ofChat_ok_iff_expressible hfaulty).2 _ hfailure
    exact ⟨piece, hfirst, hmalformed.1 ⟨_, hinvalid⟩⟩

/-! ## Options -/

/-- The options ask for what the provider does not do. -/
def AsksMore (request : Chat.Request) : Prop :=
  (∃ count, request.choices = some count ∧ 1 < count) ∨
    (∃ format name, request.responseFormat = some format ∧
      format.get? "type" = some (.text name) ∧ name ≠ "text") ∨
    ∃ modality ∈ request.modalities.getD [], modality ≠ "text"

theorem formatType_ne_text {format : Json} : formatType format ≠ "text" ↔
    ∃ name, format.get? "type" = some (.text name) ∧ name ≠ "text" := by
  rw [formatType]
  cases format.get? "type" with
  | none => simp
  | some value => cases value <;> simp [Json.text?]

/-- The options are refused as unsupported, or they ask for nothing. -/
theorem checkOptions_cases (request : Chat.Request) :
    (AsksMore request ∧ ∃ feature, checkOptions request = .error (.unsupported feature)) ∨
      ¬ AsksMore request ∧ checkOptions request = .ok () := by
  rw [checkOptions]
  split
  next hchoices =>
    cases hcount : request.choices with
    | none => simp [hcount] at hchoices
    | some count =>
        exact .inl ⟨.inl ⟨count, hcount, by simpa [hcount] using hchoices⟩, _, rfl⟩
  next hchoices =>
    split
    next name hname =>
      obtain ⟨hnamed, hother⟩ := Option.filter_eq_some_iff.1 hname
      obtain ⟨format, hformat, rfl⟩ := Option.map_eq_some_iff.1 hnamed
      obtain ⟨name, htype, hne⟩ := formatType_ne_text.1 (by simpa using hother)
      exact .inl ⟨.inr (.inl ⟨format, name, hformat, htype, hne⟩), _, rfl⟩
    next hformat =>
      split
      next modality hmodality =>
        have hne := List.find?_some hmodality
        exact .inl ⟨.inr (.inr ⟨modality, List.mem_of_find?_eq_some hmodality, by simpa using hne⟩),
          _, rfl⟩
      next hmodality =>
        refine .inr ⟨?_, rfl⟩
        rintro (⟨count, hcount, hmore⟩ | ⟨format, name, hsome, htype, hne⟩ | ⟨modality, hin, hne⟩)
        · simp [hcount, hmore] at hchoices
        · have hother := formatType_ne_text.2 ⟨name, htype, hne⟩
          simp [hsome, hother] at hformat
        · have hall := List.find?_eq_none.1 hmodality modality hin
          simp [hne] at hall

/--
Several choices, a response format that names another type than text, and another modality than
text are refused, whatever else the request holds.  Every other response format is taken for text:
such a request is translated as if it named none of the three.
-/
theorem ofChat_refuses_options (request : Chat.Request) :
    (AsksMore request → ∃ feature, ∀ model,
      Request.ofChat request model = .error (.unsupported feature)) ∧
    (¬ AsksMore request → ∀ model, Request.ofChat request model =
      Request.ofChat { request with choices := none, responseFormat := none, modalities := none }
        model) := by
  rcases checkOptions_cases request with ⟨hasks, feature, hfeature⟩ | ⟨hasks, hok⟩
  · refine ⟨fun _ => ⟨feature, fun model => ?_⟩, fun hnone => (hnone hasks).elim⟩
    rw [Request.ofChat, hfeature]
    rfl
  · refine ⟨fun hmore => (hasks hmore).elim, fun _ model => ?_⟩
    rw [Request.ofChat, hok]
    rfl

/-- A request that asks for this response format. -/
def formatted (format : Json) : Chat.Request :=
  { Chat.Request.ofMessages "alias" conversation with responseFormat := some format }

theorem ofChat_refuses_options_schema :
    (∃ feature, ∀ model,
      Request.ofChat (formatted (.object [("type", .text "json_schema")])) model =
        .error (.unsupported feature)) ∧
    ∀ model, Request.ofChat (formatted (.object [("type", .text "text")])) model =
      Request.ofChat (.ofMessages "alias" conversation) model := by
  constructor
  · exact (ofChat_refuses_options _).1 (.inr (.inl ⟨_, "json_schema", rfl, rfl, by decide⟩))
  · refine (ofChat_refuses_options (formatted (.object [("type", .text "text")]))).2 ?_
    rintro (⟨count, hcount, -⟩ | ⟨format, name, hformat, htype, hne⟩ | ⟨modality, hin, -⟩)
    · cases hcount
    · cases hformat
      cases htype
      exact hne rfl
    · cases hin

set_option maxRecDepth 8000 in
/-- A response format that is a plain word is not refused: it is dropped. -/
theorem plain_format_dropped :
    ∃ sent, Request.ofChat (formatted (.text "json_object")) "model" = .ok sent ∧
      Request.ofChat (.ofMessages "alias" conversation) "model" = .ok sent :=
  ⟨_, rfl, rfl⟩

end Messages

end ChatGateway
