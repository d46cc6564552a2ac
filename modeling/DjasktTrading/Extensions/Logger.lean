import DjasktTrading.Reasoning.Entries
import Mathlib.Data.Int.Notation

/-!
# Logger — the structured log lines of `extensions.logger`

A record passes three stages: the context filter of the queue handler, the queue handler's own
`prepare`, and the formatter behind the queue.  All three rewrite one flat namespace, the attributes
of the record, into which the caller's `extra` goes as well.
-/

open Reasoning

namespace DjasktTrading.Extensions

/-! ## 1. Values and records -/

/-- A value of a record.  `object` is any Python object that is none of the others. -/
inductive Value (ω : Type) where
  | none
  | str (s : String)
  | int (n : ℤ)
  | dict (entries : List (String × Value ω))
  | object (o : ω)

abbrev Fields (ω : Type) := List (String × Value ω)

/-- What the interpreter does with the objects and texts of a record. -/
structure Python (ω : Type) where
  truth : ω → Bool
  str : Value ω → String
  lower : String → String
  /-- what a call of the object returns, if it can be called without arguments -/
  call : ω → Option (Value ω)
  /-- the JSON encoder has a text for the object -/
  encodes : ω → Bool

/-- What stops a line. -/
inductive Exn where
  /-- `AttributeError`: the value has no such method -/
  | noAttribute (method : String)
  /-- the method is shadowed by what cannot be called -/
  | notCallable (method : String)
  | notEncodable

variable {ω : Type}

def Value.truth (py : Python ω) : Value ω → Bool
  | .none => false
  | .str s => s ≠ ""
  | .int n => n ≠ 0
  | .dict entries => !entries.isEmpty
  | .object o => py.truth o

/-- `str(value)` -/
def Value.text (py : Python ω) : Value ω → String
  | .str s => s
  | value => py.str value

/-- `value.lower()` -/
def Value.lower (py : Python ω) : Value ω → Except Exn (Value ω)
  | .str s => .ok (.str (py.lower s))
  | _ => .error (.noAttribute "lower")

mutual

/-- `json.dumps` encodes the value.  Integers have at most the 4300 digits that `int.__repr__` prints
by default. -/
def Value.encodes (py : Python ω) : Value ω → Bool
  | .none => true
  | .str _ => true
  | .int _ => true
  | .dict entries => encodesAll py entries
  | .object o => py.encodes o

def encodesAll (py : Python ω) : List (String × Value ω) → Bool
  | [] => true
  | (_, value) :: entries => value.encodes py && encodesAll py entries

end

theorem encodesAll_iff {py : Python ω} {entries : Fields ω} :
    encodesAll py entries = true ↔ ∀ entry ∈ entries, entry.2.encodes py = true := by
  induction entries with
  | nil => simp [encodesAll]
  | cons entry entries ih =>
      obtain ⟨key, value⟩ := entry
      simp [encodesAll, ih]

theorem encodes_dict_iff {py : Python ω} {d : Fields ω} (hnodup : (Entries.keys d).Nodup) :
    (Value.dict d).encodes py = true ↔
      ∀ key value, d.lookup key = some value → value.encodes py = true := by
  rw [Value.encodes, encodesAll_iff]
  constructor
  · intro h key value hvalue
    exact h (key, value) (Entries.mem_of_lookup hvalue)
  · rintro h ⟨key, value⟩ hmem
    exact h key value (Entries.lookup_of_mem hnodup hmem)

/-- `d.get(key, default)` -/
def get (d : Fields ω) (key : String) (default : Value ω) : Value ω :=
  (d.lookup key).getD default

/-- The attributes that a `LogRecord` is made with. -/
def recordAttributes : List String :=
  ["name", "msg", "args", "levelname", "levelno", "pathname", "filename", "module", "exc_info",
    "exc_text", "stack_info", "lineno", "funcName", "created", "msecs", "relativeCreated", "thread",
    "threadName", "processName", "process", "taskName"]

/-- The keys for which `Logger.makeRecord` raises a `KeyError` when `extra` has them. -/
def reserved : List String := ["message", "asctime"] ++ recordAttributes

/-- The attributes of a record beyond its own: an `extra` that the logging module accepts. -/
structure Extra (ω : Type) where
  entries : Fields ω
  nodup : (Entries.keys entries).Nodup
  accepted : ∀ key ∈ Entries.keys entries, key ∉ reserved

/-- The exception of a record: the name of its type and its traceback as `formatException` prints it. -/
structure ExcInfo where
  typeName : String
  traceback : String

/-- A record; `msg` is its text with the arguments in it, which fit the text, and `message` what a
formatter has set last. -/
structure LogRecord (ω : Type) where
  name : String
  msg : String
  levelname : String
  filename : String
  lineno : ℤ
  funcName : String
  threadName : String
  asctime : String
  message : Value ω
  excInfo : Option ExcInfo
  stackInfo : Option String
  extra : Extra ω

/-- `record.key = value` -/
def Extra.setattr (extra : Extra ω) (key : String) (value : Value ω) (hkey : key ∉ reserved) :
    Extra ω where
  entries := Entries.set extra.entries key value
  nodup := Entries.nodup_set extra.nodup key value
  accepted := by
    intro k hk
    rw [Entries.keys_set] at hk
    split at hk
    · exact extra.accepted k hk
    · rcases List.mem_append.mp hk with hk | hk
      · exact extra.accepted k hk
      · rwa [List.mem_singleton.mp hk]

/-! ## 2. The context filter -/

structure RequestLogMetadata (ω : Type) where
  trace : Fields ω
  transaction : Fields ω
  http : Fields ω
  url : Fields ω

/-- The metadata as the dictionary that the request context holds. -/
def RequestLogMetadata.blocks (metadata : RequestLogMetadata ω) : Fields ω :=
  [("trace", .dict metadata.trace), ("transaction", .dict metadata.transaction),
    ("http", .dict metadata.http), ("url", .dict metadata.url)]

/-- `ECSContextFilter.filter`, with what `request_metadata_var` holds -/
def ECSContextFilter.filter (metadata : Option (RequestLogMetadata ω)) (record : LogRecord ω) :
    LogRecord ω :=
  match metadata with
  | none => record
  | some metadata => { record with
      extra := (((record.extra.setattr "trace" (.dict metadata.trace) (by decide)).setattr
        "transaction" (.dict metadata.transaction) (by decide)).setattr
        "http" (.dict metadata.http) (by decide)).setattr
        "url" (.dict metadata.url) (by decide) }

/-- What the filter leaves under a key: the request's block, or else what the caller gave. -/
theorem ECSContextFilter.lookup_filter (metadata : RequestLogMetadata ω) (record : LogRecord ω)
    (key : String) :
    (ECSContextFilter.filter (some metadata) record).extra.entries.lookup key
      = (metadata.blocks.lookup key).or (record.extra.entries.lookup key) := by
  simp only [ECSContextFilter.filter, Extra.setattr, Entries.lookup_set, RequestLogMetadata.blocks,
    Entries.lookup_cons_eq, List.lookup_nil]
  by_cases htrace : key = "trace"
  · simp [htrace]
  by_cases htransaction : key = "transaction"
  · simp [htransaction]
  by_cases hhttp : key = "http"
  · simp [hhttp]
  by_cases hurl : key = "url"
  · simp [hurl]
  · simp [htrace, htransaction, hhttp, hurl]

/-! ## 3. The queue handler -/

/-- `record.getMessage()`, which an attribute of the caller's may shadow -/
def getMessage (py : Python ω) (record : LogRecord ω) : Except Exn (Value ω) :=
  match record.extra.entries.lookup "getMessage" with
  | none => .ok (.str record.msg)
  | some (.object o) =>
      match py.call o with
      | some message => .ok message
      | none => .error (.notCallable "getMessage")
  | some _ => .error (.notCallable "getMessage")

/-- The record has a message, and the message a text in JSON. -/
def Speaks (py : Python ω) (record : LogRecord ω) : Prop :=
  ∃ message, getMessage py record = .ok message ∧ message.encodes py = true

/-- What a record says depends on what shadows its own method only. -/
theorem speaks_congr {py : Python ω} {record record' : LogRecord ω}
    (h : record'.extra.entries.lookup "getMessage" = record.extra.entries.lookup "getMessage") :
    Speaks py record' ↔ Speaks py record := by
  unfold Speaks getMessage
  rw [h]
  cases record.extra.entries.lookup "getMessage" with
  | none => exact iff_of_true ⟨_, rfl, by rw [Value.encodes]⟩ ⟨_, rfl, by rw [Value.encodes]⟩
  | some value => cases value <;> exact Iff.rfl

namespace QueueHandler

/-- `text` on lines of their own -/
def appendLines (s text : String) : String :=
  (if s.toList.getLast? = some '\n' then s else s ++ "\n") ++ text

/-- `Formatter.format` of the handler, which has no formatter of its own -/
def format (py : Python ω) (record : LogRecord ω) (message : Value ω) : String :=
  let s := message.text py
  let s := match record.excInfo with
    | some excInfo => appendLines s excInfo.traceback
    | none => s
  match record.stackInfo with
  | some stackInfo => appendLines s stackInfo
  | none => s

/-- The copy of the record that is enqueued. -/
def prepare (py : Python ω) (record : LogRecord ω) : Except Exn (LogRecord ω) := do
  let message ← getMessage py record
  let msg := format py record message
  return { record with msg, message := .str msg, excInfo := none, stackInfo := none }

/-- What is enqueued keeps the attributes, and has no exception any more. -/
theorem prepare_eq_ok {py : Python ω} {record prepared : LogRecord ω}
    (h : prepare py record = .ok prepared) :
    prepared.extra = record.extra ∧ prepared.excInfo = none ∧ prepared.stackInfo = none := by
  unfold prepare at h
  cases hmessage : getMessage py record with
  | error e =>
      rw [hmessage] at h
      cases h
  | ok message =>
      rw [hmessage] at h
      cases h
      exact ⟨rfl, rfl, rfl⟩

end QueueHandler

/-! ## 4. The formatter -/

def isLineBreak (c : Char) : Bool :=
  c.toNat ∈ [0x0a, 0x0b, 0x0c, 0x0d, 0x1c, 0x1d, 0x1e, 0x85, 0x2028, 0x2029]

/-- `str.splitlines` -/
def splitlines : List Char → List (List Char)
  | [] => []
  -- one line break
  | '\r' :: '\n' :: rest => [] :: splitlines rest
  | c :: rest =>
      if isLineBreak c then [] :: splitlines rest
      else match splitlines rest with
        | [] => [[c]]
        | line :: lines => (c :: line) :: lines

/-- `trace_string.splitlines()[-1].split(":")[0] if trace_string else "Exception"` -/
def errorType (traceString : String) : String :=
  if traceString = "" then "Exception"
  else String.ofList (((splitlines traceString.toList).getLastD []).takeWhile (· ≠ ':'))

namespace ECSDeepJsonFormatter

def ecsBlocks : List String := ["trace", "transaction", "http", "url", "error"]

def standardKeys : List String :=
  ["asctime", "message", "levelname", "name", "filename", "lineno", "funcName", "threadName",
    "exc_info", "taskName"]

/-- The `error` block of a record that still has its traceback. -/
def errorBlock (py : Python ω) (logRecord : Fields ω) : Except Exn (Fields ω) :=
  let excInfo := get logRecord "exc_info" .none
  if excInfo.truth py then
    match excInfo with
    | .str traceString => .ok [("error", .dict [
        ("type", .str (errorType traceString)),
        ("message", .str ((get logRecord "message" .none).text py)),
        ("stack_trace", .str traceString)])]
    | _ => .error (.noAttribute "splitlines")
  else .ok []

/-- One round of the loop over the blocks: `ecs_record[block] = log_record.pop(block)`. -/
def moveBlock (ecs : Fields ω × Fields ω) (block : String) : Fields ω × Fields ω :=
  match ecs.2.lookup block with
  -- an `error` of the caller replaces the block that was built
  | some value => (Entries.set ecs.1 block value, Entries.restrict (· ≠ block) ecs.2)
  | none => ecs

end ECSDeepJsonFormatter

structure ECSDeepJsonFormatter where
  serviceName : String
  serviceVersion : String
  environment : String
  hostName : String

namespace ECSDeepJsonFormatter

/-- The blocks that every line has. -/
def baseRecord (self : ECSDeepJsonFormatter) (level : Value ω) (logRecord : Fields ω) : Fields ω :=
  [("@timestamp", get logRecord "asctime" (.str "")),
    ("message", get logRecord "message" (.str "")),
    ("log", .dict [
      ("level", level),
      ("logger", get logRecord "name" (.str "")),
      ("origin", .dict [
        ("file", .dict [
          ("name", get logRecord "filename" (.str "")),
          ("line", get logRecord "lineno" (.int 0))]),
        ("function", get logRecord "funcName" (.str ""))])]),
    ("service", .dict [
      ("name", .str self.serviceName),
      ("version", .str self.serviceVersion),
      ("environment", .str self.environment)]),
    ("host", .dict [("name", .str self.hostName)]),
    ("thread", .dict [("name", get logRecord "threadName" (.str ""))])]

/-- `if custom_extra: ecs_record["extra"] = custom_extra` -/
def attachExtra (ecsRecord customExtra : Fields ω) : Fields ω :=
  if customExtra.isEmpty then ecsRecord else Entries.set ecsRecord "extra" (.dict customExtra)

/-- The loop over the blocks, and what is left under `extra`. -/
def collect (ecsRecord logRecord : Fields ω) : Fields ω :=
  let moved := ecsBlocks.foldl moveBlock (ecsRecord, logRecord)
  attachExtra moved.1 (Entries.restrict (· ∉ standardKeys) moved.2)

def processLogRecord (self : ECSDeepJsonFormatter) (py : Python ω) (logRecord : Fields ω) :
    Except Exn (Fields ω) := do
  -- `.lower()` is on whatever stands under `levelname`
  let level ← (get logRecord "levelname" (.str "INFO")).lower py
  let error ← errorBlock py logRecord
  return collect (self.baseRecord level logRecord ++ error) logRecord

/-! ## 5. What the formatter does with each key -/

theorem lookup_moveBlock_fst (ecs : Fields ω × Fields ω) (block key : String) :
    (moveBlock ecs block).1.lookup key
      = if key = block then (ecs.2.lookup key).or (ecs.1.lookup key) else ecs.1.lookup key := by
  unfold moveBlock
  cases hblock : ecs.2.lookup block with
  | none =>
      by_cases hkey : key = block
      · subst hkey
        simp [hblock]
      · simp [hkey]
  | some value =>
      dsimp only
      rw [Entries.lookup_set]
      by_cases hkey : key = block
      · subst hkey
        simp [hblock]
      · simp [hkey]

theorem lookup_moveBlock_snd (ecs : Fields ω × Fields ω) (block key : String) :
    (moveBlock ecs block).2.lookup key = if key = block then none else ecs.2.lookup key := by
  unfold moveBlock
  cases hblock : ecs.2.lookup block with
  | none =>
      by_cases hkey : key = block
      · rw [if_pos hkey, hkey, hblock]
      · rw [if_neg hkey]
  | some value =>
      dsimp only
      rw [Entries.lookup_restrict]
      by_cases hkey : key = block <;> simp [hkey]

theorem nodup_moveBlock {ecs : Fields ω × Fields ω} (hfst : (Entries.keys ecs.1).Nodup)
    (hsnd : (Entries.keys ecs.2).Nodup) (block : String) :
    (Entries.keys (moveBlock ecs block).1).Nodup ∧ (Entries.keys (moveBlock ecs block).2).Nodup := by
  unfold moveBlock
  cases ecs.2.lookup block with
  | none => exact ⟨hfst, hsnd⟩
  | some value =>
      have hset := Entries.nodup_set hfst block value
      have hrest := Entries.nodup_restrict (· ≠ block) hsnd
      exact ⟨hset, hrest⟩

/-- After the loop a moved block stands in the ECS record and what was there before is overwritten. -/
theorem lookup_moved_fst (blocks : List String) (ecs : Fields ω × Fields ω) (key : String) :
    (blocks.foldl moveBlock ecs).1.lookup key
      = if key ∈ blocks then (ecs.2.lookup key).or (ecs.1.lookup key) else ecs.1.lookup key := by
  induction blocks generalizing ecs with
  | nil => simp
  | cons block blocks ih =>
      -- a block that has been moved is not found again in the later rounds
      rw [List.foldl_cons, ih, lookup_moveBlock_fst, lookup_moveBlock_snd]
      by_cases hkey : key = block
      · simp [hkey]
      · simp [hkey]

theorem lookup_moved_snd (blocks : List String) (ecs : Fields ω × Fields ω) (key : String) :
    (blocks.foldl moveBlock ecs).2.lookup key = if key ∈ blocks then none else ecs.2.lookup key := by
  induction blocks generalizing ecs with
  | nil => simp
  | cons block blocks ih =>
      rw [List.foldl_cons, ih, lookup_moveBlock_snd]
      by_cases hkey : key = block
      · simp [hkey]
      · simp [hkey]

theorem nodup_moved (blocks : List String) (ecs : Fields ω × Fields ω)
    (hfst : (Entries.keys ecs.1).Nodup) (hsnd : (Entries.keys ecs.2).Nodup) :
    (Entries.keys (blocks.foldl moveBlock ecs).1).Nodup ∧
      (Entries.keys (blocks.foldl moveBlock ecs).2).Nodup := by
  induction blocks generalizing ecs with
  | nil => exact ⟨hfst, hsnd⟩
  | cons block blocks ih =>
      obtain ⟨hfst', hsnd'⟩ := nodup_moveBlock hfst hsnd block
      exact ih _ hfst' hsnd'

/-- The dictionary under `extra`, empty when the line has none. -/
def extraOf (json : Fields ω) : Fields ω :=
  match json.lookup "extra" with
  | some (.dict entries) => entries
  | _ => []

theorem extraOf_attachExtra {ecsRecord : Fields ω} (hnone : ecsRecord.lookup "extra" = none)
    (customExtra : Fields ω) : extraOf (attachExtra ecsRecord customExtra) = customExtra := by
  unfold extraOf attachExtra
  cases customExtra with
  | nil => simp [hnone]
  | cons entry customExtra => simp [Entries.lookup_set]

theorem lookup_attachExtra (ecsRecord customExtra : Fields ω) {key : String} (hkey : key ≠ "extra") :
    (attachExtra ecsRecord customExtra).lookup key = ecsRecord.lookup key := by
  unfold attachExtra
  split
  · rfl
  · rw [Entries.lookup_set, if_neg hkey]

theorem lookup_extra_attachExtra {ecsRecord : Fields ω} (hnone : ecsRecord.lookup "extra" = none)
    (customExtra : Fields ω) : (attachExtra ecsRecord customExtra).lookup "extra" = none ∨
      (attachExtra ecsRecord customExtra).lookup "extra" = some (.dict customExtra) := by
  unfold attachExtra
  split
  · exact .inl hnone
  · exact .inr (by rw [Entries.lookup_set, if_pos rfl])

theorem nodup_attachExtra {ecsRecord : Fields ω} (hnodup : (Entries.keys ecsRecord).Nodup)
    (customExtra : Fields ω) : (Entries.keys (attachExtra ecsRecord customExtra)).Nodup := by
  unfold attachExtra
  split
  · exact hnodup
  · exact Entries.nodup_set hnodup _ _

/-- The values with which a key of `extra` stands in a line: as its block or under `extra`. -/
def appearances (json : Fields ω) (key : String) : List (Value ω) :=
  (if key ∈ ecsBlocks then Entries.valuesAt key json else []) ++ Entries.valuesAt key (extraOf json)

/-- Where the line has what the flat record had, and what `ecsRecord` had before the loop. -/
structure Reshapes (logRecord ecsRecord json : Fields ω) : Prop where
  nodup : (Entries.keys json).Nodup
  block : ∀ key ∈ ecsBlocks, json.lookup key = (logRecord.lookup key).or (ecsRecord.lookup key)
  other : ∀ key ∉ "extra" :: ecsBlocks, json.lookup key = ecsRecord.lookup key
  whole : json.lookup "extra" = none ∨ json.lookup "extra" = some (.dict (extraOf json))
  nodupExtra : (Entries.keys (extraOf json)).Nodup
  extra : ∀ key, (extraOf json).lookup key
    = if key ∈ ecsBlocks ∨ key ∈ standardKeys then none else logRecord.lookup key

/-- The block of the exception is called `error`, whatever the traceback. -/
theorem keys_errorBlock {py : Python ω} {logRecord error : Fields ω}
    (h : errorBlock py logRecord = .ok error) :
    Entries.keys error = [] ∨ Entries.keys error = ["error"] := by
  unfold errorBlock at h
  dsimp only at h
  split at h
  · split at h
    · cases h
      exact .inr rfl
    · cases h
  · cases h
    exact .inl rfl

theorem collect_reshapes {ecsRecord logRecord : Fields ω} (hecs : (Entries.keys ecsRecord).Nodup)
    (hextra : ecsRecord.lookup "extra" = none) (hnodup : (Entries.keys logRecord).Nodup) :
    Reshapes logRecord ecsRecord (collect ecsRecord logRecord) := by
  obtain ⟨hfst, hsnd⟩ := nodup_moved ecsBlocks (ecsRecord, logRecord) hecs hnodup
  have hmoved (key : String) := lookup_moved_fst ecsBlocks (ecsRecord, logRecord) key
  have hnone : (ecsBlocks.foldl moveBlock (ecsRecord, logRecord)).1.lookup "extra" = none := by
    rw [hmoved, if_neg (by decide), hextra]
  have hcustom : extraOf (collect ecsRecord logRecord) = _ := extraOf_attachExtra hnone _
  constructor
  case nodup => exact nodup_attachExtra hfst _
  case block =>
    intro key hkey
    have hne : key ≠ "extra" := fun heq => absurd (heq ▸ hkey) (by decide)
    rw [collect, lookup_attachExtra _ _ hne, hmoved, if_pos hkey]
  case other =>
    intro key hkey
    have hne : key ≠ "extra" := fun heq => hkey (heq ▸ List.mem_cons_self)
    have hnot : key ∉ ecsBlocks := fun hmem => hkey (List.mem_cons_of_mem _ hmem)
    rw [collect, lookup_attachExtra _ _ hne, hmoved, if_neg hnot]
  case whole =>
    rw [hcustom]
    exact lookup_extra_attachExtra hnone _
  case nodupExtra =>
    rw [hcustom]
    exact Entries.nodup_restrict _ hsnd
  case extra =>
    intro key
    rw [hcustom, Entries.lookup_restrict, lookup_moved_snd]
    by_cases hblock : key ∈ ecsBlocks
    · simp [hblock]
    · by_cases hstandard : key ∈ standardKeys <;> simp [hblock, hstandard]

theorem keys_baseRecord (self : ECSDeepJsonFormatter) (level : Value ω) (logRecord : Fields ω) :
    Entries.keys (self.baseRecord level logRecord)
      = ["@timestamp", "message", "log", "service", "host", "thread"] := rfl

/-- The line that the formatter starts from has no block of the loop. -/
theorem lookup_baseRecord_eq_none (self : ECSDeepJsonFormatter) (level : Value ω)
    (logRecord : Fields ω) {key : String} (hkey : key ∈ "extra" :: ecsBlocks) :
    (self.baseRecord level logRecord).lookup key = none := by
  rw [Entries.lookup_eq_none_iff, keys_baseRecord]
  revert key
  decide

theorem processLogRecord_reshapes {self : ECSDeepJsonFormatter} {py : Python ω}
    {logRecord json : Fields ω} (hnodup : (Entries.keys logRecord).Nodup)
    (h : self.processLogRecord py logRecord = .ok json) :
    ∃ level error, (get logRecord "levelname" (.str "INFO")).lower py = .ok level ∧
      errorBlock py logRecord = .ok error ∧
      Reshapes logRecord (self.baseRecord level logRecord ++ error) json := by
  unfold processLogRecord at h
  cases hlevel : (get logRecord "levelname" (.str "INFO")).lower py with
  | error e =>
      rw [hlevel] at h
      cases h
  | ok level =>
      cases herror : errorBlock py logRecord with
      | error e =>
          rw [hlevel, herror] at h
          cases h
      | ok error =>
          rw [hlevel, herror] at h
          cases h
          have hkeys := keys_errorBlock herror
          -- `error` is none of the six keys that every line has
          have hecs : (Entries.keys (self.baseRecord level logRecord ++ error)).Nodup := by
            rw [Entries.keys_append, keys_baseRecord]
            rcases hkeys with hkeys | hkeys <;> rw [hkeys] <;> decide
          have hextra : (self.baseRecord level logRecord ++ error).lookup "extra" = none := by
            rw [List.lookup_append, self.lookup_baseRecord_eq_none level logRecord List.mem_cons_self,
              Option.none_or, Entries.lookup_eq_none_iff]
            rcases hkeys with hkeys | hkeys <;> rw [hkeys] <;> decide
          exact ⟨level, error, rfl, rfl, collect_reshapes hecs hextra hnodup⟩

/-- Without an error block a key of the flat record, if no standard one, has its value once. -/
theorem Reshapes.appearances_eq {logRecord ecsRecord json : Fields ω}
    (h : Reshapes logRecord ecsRecord json) (hnone : ∀ key ∈ ecsBlocks, ecsRecord.lookup key = none)
    {key : String} (hkey : key ∉ standardKeys) :
    appearances json key = (logRecord.lookup key).toList := by
  unfold appearances
  rw [Entries.valuesAt_eq h.nodup, Entries.valuesAt_eq h.nodupExtra, h.extra]
  by_cases hblock : key ∈ ecsBlocks
  · rw [if_pos hblock, if_pos (.inl hblock), h.block key hblock, hnone key hblock, Option.or_none,
      Option.toList_none, List.append_nil]
  · rw [if_neg hblock, if_neg (not_or.mpr ⟨hblock, hkey⟩), List.nil_append]

end ECSDeepJsonFormatter

end DjasktTrading.Extensions
