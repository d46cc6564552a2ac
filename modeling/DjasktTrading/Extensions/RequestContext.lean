import DjasktTrading.Extensions.Emission
import DjasktTrading.Ledger.Models
import DjasktTrading.Reasoning.Runs
import DjasktTrading.Reasoning.Scopes
import DjasktTrading.Reasoning.Slots

/-!
# Request context — which request a log line belongs to

The middleware puts the metadata of a request into a context variable and puts the old value back when
the response is there, or an exception.  A server handles many requests at once: in threads that it
uses again, in tasks that start with a copy of the context they are created in, one inside another.
-/

open Reasoning

namespace DjasktTrading.Extensions

variable {ω : Type}

/-! ## 1. The middleware -/

structure HttpRequest where
  /-- `request.headers.get` -/
  header : String → Option String
  method : String
  path : String

/-- A request and the trace id that is resolved for it. -/
structure Served where
  request : HttpRequest
  traceId : String

/-- A header that is there and not empty. -/
def HttpRequest.named? (request : HttpRequest) (name : String) : Option String :=
  (request.header name).filter (· ≠ "")

/-- The trace id; `uuid` is what `uuid4` draws where the caller names none. -/
def HttpRequest.traceId (request : HttpRequest) (uuid : Uuid) : String :=
  ((request.named? "X-Request-ID").or (request.named? "X-Correlation-ID")).getD uuid.str

/-- What `_start` puts into `request_metadata_var`. -/
def Served.metadata (served : Served) : RequestLogMetadata ω where
  trace := [("id", .str served.traceId)]
  transaction := [("id", .str served.traceId)]
  http := [("request", .dict [("method", .str served.request.method), ("id", .str served.traceId)])]
  url := [("path", .str served.request.path)]

/-! ## 2. Contexts -/

/-- A context: the variable with the tokens of the calls that are open in it, the requests of these
calls, and the request in whose context it was copied, which no step reads. -/
structure Context (ω : Type) where
  metadata : Scopes (Option (RequestLogMetadata ω))
  open_ : List Served
  inherited : Option Served

/-- Whose work is done in a context. -/
def Context.served? (context : Context ω) : Option Served := context.open_.head?.or context.inherited

/-- A line that was written, with the record it is made of and the request it was written for. -/
structure Line (ω : Type) where
  record : LogRecord ω
  served? : Option Served
  json : Fields ω

/-- A response, with the header that `_finish` sets. -/
structure Stamped where
  served : Served
  requestId : String

structure World (ω : Type) where
  contexts : List (Context ω)
  lines : List (Line ω)
  responses : List Stamped

def World.initial : World ω := ⟨[], [], []⟩

inductive Event (ω : Type) where
  /-- a thread starts, with an empty context -/
  | thread
  /-- a task is created, or a function is handed to another thread -/
  | copy (i : ℕ)
  | start (i : ℕ) (request : HttpRequest) (uuid : Uuid)
  | log (i : ℕ) (record : LogRecord ω)
  /-- `get_response` returns -/
  | returns (i : ℕ)
  /-- `get_response` raises -/
  | raises (i : ℕ)

section

variable (formatter : ECSDeepJsonFormatter) (py : Python ω) (addFields : LogRecord ω → Fields ω)

/-- The `finally` clause: the innermost call puts its token back. -/
def Context.reset (context : Context ω) : Option (Served × Context ω) :=
  match context.open_ with
  | [] => none
  | served :: rest => context.metadata.leave.map fun metadata =>
      (served, { context with metadata, open_ := rest })

def step (w : World ω) : Event ω → Option (World ω)
  | .thread => some { w with contexts := w.contexts ++ [⟨.outside none, [], none⟩] }
  | .copy i =>
      match w.contexts[i]? with
      | none => none
      | some context => some { w with contexts := w.contexts ++
          [⟨.outside context.metadata.var, [], context.served?⟩] }
  | .start i request uuid =>
      match w.contexts[i]? with
      | none => none
      | some context =>
          let served : Served := ⟨request, request.traceId uuid⟩
          some { w with contexts := w.contexts.set i { context with
            metadata := context.metadata.enter (some served.metadata)
            open_ := served :: context.open_ } }
  | .log i record =>
      match w.contexts[i]? with
      | none => none
      | some context =>
          match emit formatter py addFields context.metadata.var record with
          -- `handleError` swallows it
          | .error _ => some w
          | .ok json => some { w with lines := w.lines ++ [⟨record, context.served?, json⟩] }
  | .returns i =>
      match (w.contexts[i]?).bind Context.reset with
      | none => none
      | some (served, context) => some { w with
          contexts := w.contexts.set i context
          responses := w.responses ++ [⟨served, served.traceId⟩] }
  | .raises i =>
      match (w.contexts[i]?).bind Context.reset with
      | none => none
      | some (_, context) => some { w with contexts := w.contexts.set i context }

/-! ## 3. The variable follows the calls -/

/-- A scope is entered for each open call, and they are left in the opposite order. -/
def Context.Balanced (context : Context ω) : Prop :=
  context.metadata = .entered (fun served : Served => some served.metadata)
    (context.inherited.map Served.metadata) context.open_

theorem Context.Balanced.var {context : Context ω} (h : context.Balanced) :
    context.metadata.var = context.served?.map Served.metadata := by
  rw [Context.Balanced] at h
  rw [h, Scopes.var_entered, Context.served?]
  cases context.open_.head? with
  | none => rfl
  | some served => rfl

theorem Context.Balanced.start {context : Context ω} (h : context.Balanced) (served : Served) :
    Context.Balanced { context with
      metadata := context.metadata.enter (some served.metadata)
      open_ := served :: context.open_ } := by
  rw [Context.Balanced, h]
  exact Scopes.enter_entered (fun served : Served => some served.metadata) _ context.open_ served

theorem Context.Balanced.reset {context left : Context ω} {served : Served} (h : context.Balanced)
    (hreset : context.reset = some (served, left)) : left.Balanced := by
  unfold Context.reset at hreset
  split at hreset
  · cases hreset
  · rename_i served' rest hopen
    rw [Context.Balanced, hopen] at h
    rw [h, Scopes.leave_entered] at hreset
    cases hreset
    rfl

/-- What holds of the contexts, of the lines and of the responses. -/
structure World.Inv (w : World ω) : Prop where
  contexts : ∀ context ∈ w.contexts, context.Balanced
  lines : ∀ line ∈ w.lines,
    emit formatter py addFields (line.served?.map Served.metadata) line.record = .ok line.json
  responses : ∀ response ∈ w.responses, response.requestId = response.served.traceId

variable {formatter py addFields} {w w' : World ω} {e : Event ω} {es : List (Event ω)}

theorem World.Inv.append (h : w.Inv formatter py addFields) {context : Context ω}
    (hbalanced : context.Balanced) :
    World.Inv formatter py addFields { w with contexts := w.contexts ++ [context] } :=
  { h with
    contexts := fun other hmem => (List.mem_append.mp hmem).elim (h.contexts other)
      fun hnew => List.mem_singleton.mp hnew ▸ hbalanced }

theorem World.Inv.set (h : w.Inv formatter py addFields) {context : Context ω} (i : ℕ)
    (hbalanced : context.Balanced) :
    World.Inv formatter py addFields { w with contexts := w.contexts.set i context } :=
  { h with
    contexts := fun other hmem => (List.mem_or_eq_of_mem_set hmem).elim (h.contexts other)
      fun hnew => hnew ▸ hbalanced }

theorem World.Inv.reset (h : w.Inv formatter py addFields) {i : ℕ} {served : Served} {left : Context ω}
    (hreset : (w.contexts[i]?).bind Context.reset = some (served, left)) :
    World.Inv formatter py addFields { w with contexts := w.contexts.set i left } := by
  obtain ⟨context, hcontext, hleft⟩ := Option.bind_eq_some_iff.mp hreset
  exact h.set i ((h.contexts context (List.mem_of_getElem? hcontext)).reset hleft)

theorem World.Inv.step (h : w.Inv formatter py addFields)
    (hstep : step formatter py addFields w e = some w') :
    w'.Inv formatter py addFields := by
  have hat {i : ℕ} {context : Context ω} (hcontext : w.contexts[i]? = some context) :
      context.Balanced := h.contexts context (List.mem_of_getElem? hcontext)
  cases e with
  | thread =>
      cases hstep
      exact h.append rfl
  | copy i =>
      simp only [Extensions.step] at hstep
      split at hstep
      · cases hstep
      · rename_i context hcontext
        cases hstep
        -- the copy holds what the context holds, and no token
        refine h.append ?_
        rw [(hat hcontext).var]
        rfl
  | start i request uuid =>
      simp only [Extensions.step] at hstep
      split at hstep
      · cases hstep
      · rename_i context hcontext
        cases hstep
        exact h.set i ((hat hcontext).start _)
  | log i record =>
      simp only [Extensions.step] at hstep
      split at hstep
      · cases hstep
      · rename_i context hcontext
        split at hstep
        · cases hstep
          exact h
        · rename_i json hjson
          cases hstep
          rw [(hat hcontext).var] at hjson
          refine { h with lines := fun line hmem => ?_ }
          rcases List.mem_append.mp hmem with hold | hnew
          · exact h.lines line hold
          · rw [List.mem_singleton.mp hnew]
            exact hjson
  | returns i =>
      simp only [Extensions.step] at hstep
      split at hstep
      · cases hstep
      · rename_i served left hreset
        cases hstep
        refine { h.reset hreset with responses := fun response hmem => ?_ }
        rcases List.mem_append.mp hmem with hold | hnew
        · exact h.responses response hold
        · rw [List.mem_singleton.mp hnew]
  | raises i =>
      simp only [Extensions.step] at hstep
      split at hstep
      · cases hstep
      · rename_i served left hreset
        cases hstep
        exact h.reset hreset

theorem World.Inv.of_run (hrun : Run (Extensions.step formatter py addFields) .initial es w) :
    w.Inv formatter py addFields :=
  hrun.invariant ⟨nofun, nofun, nofun⟩ fun _ _ _ h hstep => h.step hstep

end

/-! ## 4. Lines and their requests -/

/-- The keys of the metadata. -/
def contextBlocks : List String := ["trace", "transaction", "http", "url"]

/-- The line has the blocks of its request, and what the caller gave under their keys if it has none. -/
structure Line.Belongs (line : Line ω) : Prop where
  request : ∀ served, line.served? = some served → ∀ block ∈ contextBlocks,
    line.json.lookup block = served.metadata.blocks.lookup block
  nobody : line.served? = none → ∀ block ∈ contextBlocks,
    line.json.lookup block = line.record.extra.entries.lookup block

theorem Line.belongs_of_emit {formatter : ECSDeepJsonFormatter} {py : Python ω}
    {addFields : LogRecord ω → Fields ω} (hadd : AddsFields addFields) {line : Line ω}
    (h : emit formatter py addFields (line.served?.map Served.metadata) line.record = .ok line.json) :
    line.Belongs := by
  obtain ⟨last, hqueued, hline, -⟩ := emit_eq_ok hadd h
  constructor
  case request =>
    intro served hserved block hblock
    rw [hserved] at hqueued
    exact hline.lookup_context hadd hqueued hblock
  case nobody =>
    intro hnobody block hblock
    have hecs : ∀ block ∈ contextBlocks, block ∈ ECSDeepJsonFormatter.ecsBlocks := by decide
    rw [hline.lookup_block hadd (hecs block hblock), hqueued.extra, hnobody]
    rfl

/-- **Every line belongs to one request.**  Whatever the requests that are served at once, nested and
handed between tasks and threads, and however they end: a line has the blocks of the request it was
written for, by which it is found under the id that the response bears, and a line of no request has
nothing of another's. -/
theorem lines_belong {formatter : ECSDeepJsonFormatter} {py : Python ω}
    {addFields : LogRecord ω → Fields ω} (hadd : AddsFields addFields) {w : World ω}
    {es : List (Event ω)} (hrun : Run (step formatter py addFields) .initial es w) :
    ∀ line ∈ w.lines, line.Belongs ∧ ∀ response ∈ w.responses,
      line.served? = some response.served →
        line.json.lookup "trace" = some (.dict [("id", .str response.requestId)]) := by
  intro line hline
  have hinv := World.Inv.of_run hrun
  have hbelongs : line.Belongs := Line.belongs_of_emit hadd (hinv.lines line hline)
  refine ⟨hbelongs, ?_⟩
  intro response hresponse hserved
  rw [hbelongs.request response.served hserved "trace" (by decide),
    hinv.responses response hresponse]
  rfl

def createTradeRequest : HttpRequest where
  header name := if name = "X-Request-ID" then some "8c1f" else none
  method := "POST"
  path := "/api/trades"

/-- A request logs an error and raises; the thread logs once more. -/
def failedRequest : List (Event Empty) :=
  [.thread, .start 0 createTradeRequest default, .log 0 (unexpectedError noExtra), .raises 0,
    .log 0 (unexpectedError noExtra)]

theorem lines_belong_failedRequest : ∃ w first second,
    Run (step ledgerFormatter plainPython mergeRecordExtra) .initial failedRequest w ∧
      w.lines = [first, second] ∧ first.served?.isSome = true ∧ second.served? = none ∧
        first.Belongs ∧ second.Belongs := by
  have hvalues : (exec (step ledgerFormatter plainPython mergeRecordExtra) .initial failedRequest).map
      (fun w => w.lines.map fun line => line.served?.isSome) = some [true, false] := by decide +kernel
  obtain ⟨w, hrun, hw⟩ := Option.map_eq_some_iff.mp hvalues
  obtain ⟨first, rest, hlines, hfirst, hrest⟩ := List.map_eq_cons_iff.mp hw
  obtain ⟨second, rest, rfl, hsecond, hnil⟩ := List.map_eq_cons_iff.mp hrest
  obtain rfl := List.map_eq_nil_iff.mp hnil
  have hbelongs : ∀ line ∈ w.lines, line.Belongs := fun line hmem =>
    (lines_belong mergeRecordExtra_addsFields hrun line hmem).1
  rw [hlines] at hbelongs
  exact ⟨w, first, second, hrun, hlines, hfirst, Option.isNone_iff_eq_none.mp (by simpa using hsecond),
    hbelongs first (by simp), hbelongs second (by simp)⟩

end DjasktTrading.Extensions
