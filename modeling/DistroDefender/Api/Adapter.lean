import DistroDefender.Base.Schema

/-!
# Requests and responses

`api::adapter`: a request is parsed and its handler locked before a route does its work. A response
keeps its content as JSON, which rapidjson's `PrettyWriter` prints. `parseWith` is the beginning
every route shares.
-/

namespace DistroDefender.Api

open Base Lib

/-- `httplib::StatusCode`. -/
inductive StatusCode where
  | OK_200
  | BadRequest_400
  | InternalServerError_500
  deriving DecidableEq, Repr

/-- `httplib::Response`. -/
structure Response where
  status : StatusCode
  content : Json

/-- `schemas::engine::ReturnStatus`. -/
inductive ReturnStatus where
  | UNKNOWN
  | OK
  | ERROR

def ReturnStatus.toJson : ReturnStatus → Json
  | .UNKNOWN => .num (.int 0)
  | .OK => .num (.int 1)
  | .ERROR => .num (.int 2)

def errorContent (message : String) : Json :=
  Json.ofItems [(["status"], ReturnStatus.ERROR.toJson), (["error"], .str message)]

def internalErrorResponse (message : String) : Response :=
  ⟨.InternalServerError_500, errorContent message⟩

def userResponse (res : Json) : Response := ⟨.OK_200, res⟩

def userErrorResponse (message : String) : Response := ⟨.BadRequest_400, errorContent message⟩

/-- What a route is built with: rapidjson and its validator. -/
structure JsonLib where
  rapidjson : Rapidjson
  validator : SchemaValidator

variable (L : JsonLib)

/-- `parseRequest`: an empty body is the null document. -/
def parseRequest (body : String) : Except Response Json :=
  if body = "" then .ok .null
  else
    match L.rapidjson.parse (cstr body) with
    | .error err => .error (userErrorResponse s!"Failed to parse json request: {err.message}")
    | .ok reqJson => .ok reqJson

/-- A body without a NUL is parsed as it is. -/
theorem parseRequest_of_parse {body : String} {j : Json} (hbody : body ≠ "")
    (hnul : Char.ofNat 0 ∉ body.toList) (hparse : L.rapidjson.parse body = .ok j) :
    parseRequest L body = .ok j := by
  unfold parseRequest
  rw [if_neg hbody, cstr_of_not_mem hnul, hparse]

/-- `getReqAndHandler`: `none` is a handler that is gone. -/
def getReqAndHandler {μ : Type} (weakHandler : Option μ) (body : String) :
    Except Response (μ × Json) :=
  match weakHandler with
  | none => .error (internalErrorResponse "Error: Handler is not initialized")
  | some handler =>
    match parseRequest L body with
    | .error res => .error res
    | .ok jsonReq => .ok (handler, jsonReq)

/-- The beginning of a route: the handler, the request, and its schema. -/
def parseWith {μ σ : Type} (schema : Json) (weakHandler : Option μ) (body : String)
    (route : μ → Json → Call σ Response) : Call σ Response :=
  match getReqAndHandler L weakHandler body with
  | .error res => return res
  | .ok (handler, jsonReq) =>
    match L.validator.validate jsonReq schema with
    | some err => return userErrorResponse err.message
    | none => route handler jsonReq

/-- A call of a manager: it answers, and may change the state. -/
def ask {σ α : Type} (x : StateM σ α) : Call σ α := fun s => .ok (x.run s).1 (x.run s).2

@[simp] theorem run_ask {σ α : Type} (x : StateM σ α) (s : σ) :
    (ask x).run s = .ok (x.run s).1 (x.run s).2 := rfl

/-- A `try` block around pure code: what it throws is a user error. -/
def orUserError {σ α : Type} (x : Except Throw α) (k : α → Call σ Response) : Call σ Response :=
  match x with
  | .error e => return userErrorResponse e.what
  | .ok a => k a

/-- The answer without content. -/
def okStatus : Json := Json.ofItems [(["status"], ReturnStatus.OK.toJson)]

/-- The answer of a call that reports an error only. -/
def reportError : OptError → Response
  | some err => userErrorResponse err.message
  | none => userResponse okStatus

/-! ## Answers -/

/-- A user response or a user error response. -/
def Response.IsUser (res : Response) : Prop := res.status = .OK_200 ∨ res.status = .BadRequest_400

/-- The route set a response for the user, and no exception escaped. -/
def Answers {σ : Type} (r : EStateM.Result Throw σ Response) : Prop :=
  ∃ res s, r = .ok res s ∧ res.IsUser

section Answers

variable {σ α μ : Type} {s : σ}

theorem answers_user (j : Json) : Answers ((pure (userResponse j) : Call σ Response).run s) :=
  ⟨_, s, rfl, .inl rfl⟩

theorem answers_userError (message : String) :
    Answers ((pure (userErrorResponse message) : Call σ Response).run s) :=
  ⟨_, s, rfl, .inr rfl⟩

theorem answers_reportError (err : OptError) :
    Answers ((pure (reportError err) : Call σ Response).run s) := by
  cases err with
  | none => exact answers_user _
  | some err => exact answers_userError _

theorem not_answers_error (e : Throw) :
    ¬ Answers (.error e s : EStateM.Result Throw σ Response) := by
  rintro ⟨res, s', h, -⟩
  cases h

theorem answers_ask {x : StateM σ α} {k : α → Call σ Response}
    (h : ∀ a s', Answers ((k a).run s')) : Answers ((ask x >>= k).run s) := by
  rw [EStateM.run_bind, run_ask]
  exact h _ _

theorem answers_orUserError {x : Except Throw α} {k : α → Call σ Response}
    (h : ∀ a, x = .ok a → Answers ((k a).run s)) : Answers ((orUserError x k).run s) := by
  unfold orUserError
  cases hx : x with
  | error e => exact answers_userError _
  | ok a => exact h a hx

/-- A value that is there is read without a throw. -/
theorem answers_value {o : Option α} {k : α → Call σ Response} (ho : o.isSome = true)
    (h : ∀ a, o = some a → Answers ((k a).run s)) : Answers ((orThrow (value o) >>= k).run s) := by
  cases hx : o with
  | none =>
    rw [hx] at ho
    cases ho
  | some a => exact h a hx

theorem not_answers_value {o : Option α} {k : α → Call σ Response} (ho : o = none) :
    ¬ Answers ((orThrow (value o) >>= k).run s) := by
  rw [ho]
  exact not_answers_error _

theorem answers_value_iff {o : Option α} {k : α → Call σ Response} :
    Answers ((orThrow (value o) >>= k).run s) ↔ ∃ a, o = some a ∧ Answers ((k a).run s) := by
  cases o with
  | none => exact iff_of_false (not_answers_value rfl) (by simp)
  | some a =>
    refine ⟨fun h => ⟨a, rfl, h⟩, ?_⟩
    rintro ⟨a', ha', h⟩
    cases ha'
    exact h

/-- What a route can count on: the handler is there and the request is of its schema. -/
def Admitted (schema : Json) (weakHandler : Option μ) (body : String) (handler : μ)
    (jsonReq : Json) : Prop :=
  weakHandler = some handler ∧ parseRequest L body = .ok jsonReq ∧
    L.validator.accepts schema jsonReq = true

/-- A route answers when its handler is there and it answers what is of its schema. -/
theorem answers_parseWith {schema : Json} {weakHandler : Option μ} {body : String}
    {route : μ → Json → Call σ Response} :
    Answers ((parseWith L schema weakHandler body route).run s) ↔ weakHandler ≠ none ∧
      ∀ handler jsonReq, Admitted L schema weakHandler body handler jsonReq →
        Answers ((route handler jsonReq).run s) := by
  unfold parseWith getReqAndHandler Admitted
  cases weakHandler with
  | none =>
    refine iff_of_false ?_ (fun h => h.1 rfl)
    rintro ⟨res, s', h, hres⟩
    cases h
    rcases hres with h | h <;> cases h
  | some handler =>
    cases hreq : parseRequest L body with
    | error res =>
      refine iff_of_true ?_ ⟨by simp, fun m j h => by cases h.2.1⟩
      unfold parseRequest at hreq
      split at hreq
      · cases hreq
      · split at hreq
        · cases hreq
          exact answers_userError _
        · cases hreq
    | ok jsonReq =>
      simp only [SchemaValidator.validate]
      cases hvalid : L.validator.accepts schema jsonReq with
      | false =>
        refine iff_of_true (answers_userError _) ⟨by simp, fun m j h => ?_⟩
        obtain ⟨-, hj, haccepts⟩ := h
        cases hj
        cases hvalid.symm.trans haccepts
      | true =>
        constructor
        · intro h
          refine ⟨by simp, fun m j hadmitted => ?_⟩
          obtain ⟨hm, hj, -⟩ := hadmitted
          cases hm
          cases hj
          exact h
        · intro h
          exact h.2 handler jsonReq ⟨rfl, rfl, hvalid⟩

end Answers

end DistroDefender.Api
