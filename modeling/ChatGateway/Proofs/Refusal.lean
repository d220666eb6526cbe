import ChatGateway.Gateway.Run
import ChatGateway.Proofs.Hoisting

/-!
# Requests that are refused at once

A request without the key, and one for a completion whose body cannot be read, whose model is
not known or that cannot be translated, is refused before anything else is looked at.  Which of
these faults is reported is settled by their order, the response is made of the request alone,
and the world is left as it was.
-/

namespace ChatGateway

theorem Text.after?_eq_some {start text rest : String} :
    Text.after? start text = some rest ↔ text = start ++ rest := by
  rw [after?, Option.map_eq_some_iff]
  constructor
  · rintro ⟨chars, hchars, rfl⟩
    exact eq_append_ofList (dropStart?_eq_some.1 hchars)
  · rintro rfl
    exact ⟨rest.toList, by rw [String.toList_append, dropStart?_append], String.ofList_toList⟩

/-- A key that is set is not empty. -/
theorem Settings.apiKey_ne_empty {directory : String} {lookup : String → Option String}
    {settings : Settings} (h : Settings.ofVariables directory lookup = .ok settings) :
    settings.apiKey ≠ some "" := by
  obtain ⟨_, -, h⟩ := bind_eq_ok.1 h
  obtain ⟨_, -, h⟩ := bind_eq_ok.1 h
  obtain ⟨_, -, h⟩ := bind_eq_ok.1 h
  have hkey : settings.apiKey =
      (lookup "API_KEY").filter fun value => !Text.isAllBlank value := by
    split at h
    · obtain ⟨_, -, h⟩ := bind_eq_ok.1 h
      cases h
      rfl
    · cases h
      rfl
  rw [hkey]
  intro hempty
  exact Bool.false_ne_true (Option.filter_eq_some_iff.1 hempty).2

namespace Messages

/-- Whether a request can be translated, and into what, depends on the model for its name only. -/
theorem ofChat_model (request : Chat.Request) (model other : String) :
    Request.ofChat request other =
      (Request.ofChat request model).map fun sent => { sent with model := other } := by
  unfold Request.ofChat
  cases checkOptions request with
  | error failure => rfl
  | ok done =>
      cases request.messages.mapM place with
      | error failure => rfl
      | ok placed =>
          cases request.tools.mapM fun tools => tools.mapM toolOf with
          | error failure => rfl
          | ok tools => cases request.toolChoice.mapM toolChoiceOf <;> rfl

end Messages

namespace Gateway

/-! ## Faults -/

/-- The request gives the key after `Bearer `, or if it gives none there, by itself. -/
def Presents (request : Http.Request) (key : String) : Prop :=
  request.header? "authorization" = some ("Bearer " ++ key) ∨
    (∀ text, request.header? "authorization" ≠ some ("Bearer " ++ text)) ∧
      request.header? "x-api-key" = some key

/-- A key is asked for and the request does not give it. -/
def Keyless (key : Option String) (request : Http.Request) : Prop :=
  ∃ asked, key = some asked ∧ ¬ Presents request asked

/-- The model has a name in the registry. -/
def Known (registry : Model.Registry) (name : String) : Prop :=
  ∃ entry ∈ registry, entry.name = name

/-- The body of a request for a completion cannot be read, or what it asks for cannot be served. -/
def Faulty (registry : Model.Registry) (request : Http.Request) : Prop :=
  (∃ failure, readBody Chat.Request.read request = .error failure) ∨
  ∃ asked, readBody Chat.Request.read request = .ok asked ∧
    (¬ Known registry asked.model ∨
      ∃ model failure, Messages.Request.ofChat asked model = .error failure)

/-- The first of the faults of a request, each of which counts only without those before it. -/
inductive Refuses (key : Option String) (registry : Model.Registry) (request : Http.Request)
    (route : Route) : Failure → Prop
  | key : Keyless key request → Refuses key registry request route .invalidKey
  | body {failure} : ¬ Keyless key request → route = .chatCompletions →
      readBody Chat.Request.read request = .error failure →
      Refuses key registry request route failure
  | model {asked} : ¬ Keyless key request → route = .chatCompletions →
      readBody Chat.Request.read request = .ok asked →
      ¬ Known registry asked.model → Refuses key registry request route (.unknownModel asked.model)
  | translation {asked failure} : ¬ Keyless key request → route = .chatCompletions →
      readBody Chat.Request.read request = .ok asked →
      Known registry asked.model →
      (∀ model, Messages.Request.ofChat asked model = .error failure) →
      Refuses key registry request route failure

variable {key : Option String} {registry : Model.Registry} {request : Http.Request} {route : Route}
  {failure : Failure}

theorem Refuses.unique {other : Failure} (h : Refuses key registry request route failure)
    (hother : Refuses key registry request route other) : other = failure := by
  cases h <;> cases hother <;> simp_all

theorem exists_refuses
    (h : Keyless key request ∨ route = .chatCompletions ∧ Faulty registry request) :
    ∃ failure, Refuses key registry request route failure := by
  by_cases hkey : Keyless key request
  · exact ⟨_, .key hkey⟩
  · obtain ⟨hroute, ⟨failure, hbody⟩ | ⟨asked, hbody, hasked⟩⟩ := h.resolve_left hkey
    · exact ⟨failure, .body hkey hroute hbody⟩
    · by_cases hknown : Known registry asked.model
      · obtain ⟨model, failure, hfails⟩ := hasked.resolve_left (not_not_intro hknown)
        refine ⟨failure, .translation hkey hroute hbody hknown fun other => ?_⟩
        rw [Messages.ofChat_model asked model other, hfails]
        rfl
      · exact ⟨_, .model hkey hroute hbody hknown⟩

/-! ## Admission -/

theorem bearerKey?_eq_some {value : String} : bearerKey? request = some value ↔
    request.header? "authorization" = some ("Bearer " ++ value) := by
  simp [bearerKey?, Option.bind_eq_some_iff, Text.after?_eq_some]

theorem presentedKey_eq {value : String} (hvalue : value ≠ "") :
    presentedKey request = value ↔ Presents request value := by
  cases hbearer : bearerKey? request with
  | some given =>
      have hgiven := bearerKey?_eq_some.1 hbearer
      simp [presentedKey, Presents, hbearer, hgiven]
  | none =>
      have hnone : ∀ given, request.header? "authorization" ≠ some ("Bearer " ++ given) := by
        intro given hgiven
        rw [bearerKey?_eq_some.2 hgiven] at hbearer
        cases hbearer
      cases hother : request.header? "x-api-key" <;>
        simp [presentedKey, Presents, hbearer, hnone, hother, Ne.symm hvalue]

theorem hasKey_eq_true {settings : Settings} (hkey : settings.apiKey ≠ some "") :
    hasKey settings request = true ↔ ¬ Keyless settings.apiKey request := by
  rw [hasKey, Keyless]
  cases hasked : settings.apiKey with
  | none => simp
  | some value =>
      have hvalue : value ≠ "" := by
        rintro rfl
        exact hkey hasked
      simp [presentedKey_eq hvalue]

theorem resolve_of_known {name : String} (h : Known registry name) :
    ∃ model, registry.resolve name = .ok model := by
  obtain ⟨entry, hentry, hname⟩ := h
  cases hfind : registry.find? fun entry => entry.name = name with
  | some found => exact ⟨found.model, by rw [Model.Registry.resolve, hfind]⟩
  | none => exact (List.find?_eq_none.1 hfind entry hentry (decide_eq_true hname)).elim

theorem resolve_of_unknown {name : String} (h : ¬ Known registry name) :
    registry.resolve name = .error (.unknownModel name) := by
  have hfind : registry.find? (fun entry => entry.name = name) = none :=
    List.find?_eq_none.2 fun entry hentry hname =>
      h ⟨entry, hentry, of_decide_eq_true hname⟩
  rw [Model.Registry.resolve, hfind]

/-- The first fault of a request with the key is the one that its plan fails with. -/
theorem planOf_of_refuses {setup : Setup} (hkey : ¬ Keyless key request)
    (h : Refuses key setup.registry request route failure) :
    route = .chatCompletions ∧ planOf setup request = .error failure := by
  cases h with
  | key hkeyless => exact (hkey hkeyless).elim
  | body _ hchat hbody => exact ⟨hchat, by simp [planOf, hbody, bind, Except.bind]⟩
  | model _ hchat hbody hunknown =>
      exact ⟨hchat, by simp [planOf, hbody, resolve_of_unknown hunknown, bind, Except.bind]⟩
  | translation _ hchat hbody hknown hfails =>
      obtain ⟨model, hmodel⟩ := resolve_of_known hknown
      exact ⟨hchat, by simp [planOf, hbody, hmodel, hfails, bind, Except.bind]⟩

theorem assess_of_refuses {setup : Setup} (hroute : routeOf request = some route)
    (hguarded : route.isGuarded = true) (hmethod : route.allows request.method = true)
    (hkey : setup.settings.apiKey ≠ some "")
    (h : Refuses setup.settings.apiKey setup.registry request route failure) :
    assess setup request = .refused failure := by
  have hoptions : request.method ≠ "OPTIONS" := by
    intro hoptions
    rw [hoptions] at hmethod
    cases route <;> cases hmethod
  rw [assess, if_neg hoptions, hroute]
  by_cases hkeyless : Keyless setup.settings.apiKey request
  · have hno : hasKey setup.settings request = false := by
      rw [← Bool.not_eq_true, hasKey_eq_true hkey]
      exact not_not_intro hkeyless
    cases h.unique (.key hkeyless)
    simp [hguarded, hno]
  · obtain ⟨rfl, hplan⟩ := planOf_of_refuses hkeyless h
    simp [(hasKey_eq_true hkey).2 hkeyless, hmethod, assessRoute, hplan]

/-! ## A run -/

variable {conditions : Conditions} {run : Run} {index : Nat}

/-- A task that is refused is over, and nothing else has changed. -/
theorem Run.move_of_refused (h : assess conditions.setup request = .refused failure)
    (htask : run.tasks[index]? = some (.ordered (.serve request))) :
    run.move conditions index = run.put index (.over (.response
      (dress conditions.setup.settings.origins request (.ofFailure failure)))) := by
  simp [move, htask, begin, h, Admission.refused, respond, respondNow]

/-- Served by itself, a refused request takes two moves, and then nothing is left to do. -/
theorem Run.all_of_refused (h : assess conditions.setup request = .refused failure)
    (world : World) :
    Run.all conditions world [.serve request] = (world, [some (.response
      (dress conditions.setup.settings.origins request (.ofFailure failure)))]) := by
  let task : Task := .over (.response
    (dress conditions.setup.settings.origins request (.ofFailure failure)))
  have hserve : (Run.ofOrders world [.serve request]).next conditions =
      some ⟨world, [task], [0], [], [], []⟩ :=
    congrArg some (Run.move_of_refused h rfl)
  have hpause : Run.next conditions ⟨world, [task], [0], [], [], []⟩ =
      some ⟨world, [task], [], [], [], []⟩ := rfl
  have hmoves : (Run.ofOrders world [.serve request]).moves conditions 64 =
      ⟨world, [task], [], [], [], []⟩ := by
    rw [moves, hserve]
    rfl
  show ((Run.moves conditions 64 _).world, (Run.moves conditions 64 _).tasks.map outcome?) = _
  rw [hmoves]
  rfl

/--
A request of a guarded route that lacks the key, or asks for a completion that cannot be read,
resolved or translated, has exactly one first fault.  Whatever the state of the credential, the
disk and the provider, and whatever else is going on, its response tells that fault and nothing
but the response changes: nothing is sent and nothing is stored.  A key that is set is never
empty (`Settings.apiKey_ne_empty`).
-/
theorem refused_request_touches_nothing (hroute : routeOf request = some route)
    (hguarded : route.isGuarded = true) (hmethod : route.allows request.method = true)
    (hkey : key ≠ some "")
    (hfault : Keyless key request ∨ route = .chatCompletions ∧ Faulty registry request) :
    ∃ failure, Refuses key registry request route failure ∧
      (∀ other, Refuses key registry request route other → other = failure) ∧
      ∀ conditions : Conditions, conditions.setup.settings.apiKey = key →
        conditions.setup.registry = registry →
        (∀ world, Run.all conditions world [.serve request] = (world, [some (.response
          (dress conditions.setup.settings.origins request (.ofFailure failure)))])) ∧
        ∀ (run : Run) index, run.tasks[index]? = some (.ordered (.serve request)) →
          run.move conditions index = { run with tasks := run.tasks.set index (.over (.response
            (dress conditions.setup.settings.origins request (.ofFailure failure)))) } := by
  obtain ⟨failure, hfailure⟩ := exists_refuses hfault
  refine ⟨failure, hfailure, fun other => hfailure.unique, ?_⟩
  rintro conditions rfl rfl
  have hrefused := assess_of_refuses hroute hguarded hmethod hkey hfailure
  exact ⟨Run.all_of_refused hrefused, fun run index => Run.move_of_refused hrefused⟩

/-- A gateway that asks for a key. -/
def guardedConditions : Conditions where
  setup := {
    settings := {
      host := "127.0.0.1", tcpPort := 8100, logLevel := "info", tokenFile := "tokens.json"
      clientId := Settings.defaultClientId, authorizeUrl := Settings.defaultAuthorizeUrl
      tokenUrl := Settings.defaultTokenUrl, apiUrl := Settings.defaultApiUrl
      requestTimeout := 120, idleTimeout := 120, aliases := [], origins := .localhost
      apiKey := some "secret" }
    registry := Model.builtin, revision := "", buildTime := "" }
  store := ⟨["tokens.json"]⟩
  now := 1000
  idle := 0
  flow := fun _ => ⟨"verifier", "state"⟩
  streamId := "id"
  otherwise := .silent

/-- The record in memory has expired, so that a request with the key would have it refreshed. -/
def expiredWorld : World where
  keeper := .initial (some ⟨"access", "refresh", "Bearer", 0⟩)
  disk := .empty
  flows := 0
  exchanges := [.silent]
  seen := []

/-- A completion is asked for without a body, and with a wrong key. -/
def wrongKeyRequest : Http.Request :=
  ⟨"POST", "/v1/chat/completions/", [("X-Api-Key", Text.ascii "other")], []⟩

theorem refused_request_touches_nothing_wrong_key :
    ∃ response : Http.Response, response.status = 401 ∧
      Run.all guardedConditions expiredWorld [.serve wrongKeyRequest] =
        (expiredWorld, [some (.response response)]) := by
  have hkeyless : Keyless (some "secret") wrongKeyRequest := by
    refine ⟨"secret", rfl, ?_⟩
    rintro (hbearer | ⟨-, hother⟩)
    · cases hbearer
    · exact absurd hother (by decide)
  obtain ⟨failure, -, hfirst, hrefused⟩ := @refused_request_touches_nothing (some "secret")
    Model.builtin wrongKeyRequest .chatCompletions rfl rfl rfl (by decide) (.inl hkeyless)
  cases hfirst .invalidKey (.key hkeyless)
  exact ⟨_, rfl, (hrefused guardedConditions rfl rfl).1 expiredWorld⟩

end Gateway

end ChatGateway
