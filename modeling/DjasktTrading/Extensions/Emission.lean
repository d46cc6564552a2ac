import DjasktTrading.Extensions.Logger

/-!
# Emission — what of a record reaches its line

The whole pipeline that `configure_logging` installs.  `JsonFormatter.add_fields`, which flattens the
record for `process_log_record`, is the library's.
-/

open Reasoning

namespace DjasktTrading.Extensions

open ECSDeepJsonFormatter

variable {ω : Type}

/-! ## 1. What the library's formatter adds -/

/-- The fields that `log_format` names. -/
def formatFields (record : LogRecord ω) : Fields ω :=
  [("asctime", .str record.asctime), ("levelname", .str record.levelname),
    ("name", .str record.name), ("filename", .str record.filename), ("lineno", .int record.lineno),
    ("funcName", .str record.funcName), ("threadName", .str record.threadName),
    ("message", record.message)]

/-- A key that the library keeps out of its lines. -/
def isPrivate (key : String) : Bool := key.toList.head? = some '_'

/-- What `add_fields` is documented to put into the flat record. -/
structure AddsFields (addFields : LogRecord ω → Fields ω) : Prop where
  nodup : ∀ record, (Entries.keys (addFields record)).Nodup
  format : ∀ record, ∀ key ∈ Entries.keys (formatFields record),
    (addFields record).lookup key = (formatFields record).lookup key
  excInfo : ∀ record, (addFields record).lookup "exc_info"
    = record.excInfo.map fun excInfo => .str excInfo.traceback
  stackInfo : ∀ record, (addFields record).lookup "stack_info" = record.stackInfo.map .str
  /-- the other attributes of its own are left out -/
  own : ∀ record, ∀ key ∈ reserved,
    key ∉ Entries.keys (formatFields record) ++ ["exc_info", "stack_info"] →
      (addFields record).lookup key = none
  extra : ∀ record, ∀ key ∉ reserved,
    (addFields record).lookup key = if isPrivate key then none else record.extra.entries.lookup key

/-- The record's own fields, with its traceback and its stack when it has them. -/
def ownFields (record : LogRecord ω) : Fields ω :=
  formatFields record
    ++ (record.excInfo.map fun excInfo => ("exc_info", Value.str excInfo.traceback)).toList
    ++ (record.stackInfo.map fun stackInfo => ("stack_info", Value.str stackInfo)).toList

/-- `JsonFormatter.add_fields`, for the format of `configure_logging` -/
def mergeRecordExtra (record : LogRecord ω) : Fields ω :=
  ownFields record ++ Entries.restrict (fun key => !isPrivate key) record.extra.entries

theorem keys_formatFields (record : LogRecord ω) : Entries.keys (formatFields record)
    = ["asctime", "levelname", "name", "filename", "lineno", "funcName", "threadName", "message"] :=
  rfl

theorem keys_ownFields (record : LogRecord ω) : (Entries.keys (ownFields record)).Sublist
    (Entries.keys (formatFields record) ++ ["exc_info", "stack_info"]) := by
  unfold ownFields
  rw [Entries.keys_append, Entries.keys_append, List.append_assoc]
  apply List.Sublist.append_left
  cases record.excInfo with
  | none => cases record.stackInfo <;> simp [Entries.keys]
  | some excInfo => cases record.stackInfo <;> simp [Entries.keys]

theorem nodup_ownFields (record : LogRecord ω) : (Entries.keys (ownFields record)).Nodup := by
  refine (keys_ownFields record).nodup ?_
  rw [keys_formatFields]
  decide

theorem ownFields_reserved (record : LogRecord ω) :
    ∀ key ∈ Entries.keys (ownFields record), key ∈ reserved := by
  intro key hkey
  have hmem := (keys_ownFields record).subset hkey
  rw [keys_formatFields] at hmem
  clear hkey
  revert key
  decide

/-- What a record's own fields and its extra have under a key of `LogRecord`'s own. -/
theorem lookup_mergeRecordExtra (record : LogRecord ω) {key : String} (hkey : key ∈ reserved) :
    (mergeRecordExtra record).lookup key = (ownFields record).lookup key := by
  have hextra : record.extra.entries.lookup key = none :=
    Entries.lookup_eq_none_iff.mpr fun hmem => record.extra.accepted key hmem hkey
  rw [mergeRecordExtra, List.lookup_append, Entries.lookup_restrict, hextra, ite_self, Option.or_none]

theorem mergeRecordExtra_addsFields : AddsFields (mergeRecordExtra (ω := ω)) := by
  constructor
  case nodup =>
    intro record
    unfold mergeRecordExtra
    rw [Entries.keys_append, List.nodup_append]
    refine ⟨nodup_ownFields record, Entries.nodup_restrict _ record.extra.nodup, ?_⟩
    rintro own hown key hkey rfl
    exact record.extra.accepted own ((Entries.keys_restrict_sublist _ _).subset hkey)
      (ownFields_reserved record own hown)
  case format =>
    intro record key hkey
    obtain ⟨value, hformat⟩ := Entries.exists_lookup_of_mem_keys hkey
    unfold mergeRecordExtra ownFields
    simp only [List.lookup_append, hformat, Option.some_or]
  case excInfo =>
    intro record
    have hformat : (formatFields record).lookup "exc_info" = none := rfl
    rw [lookup_mergeRecordExtra record (by decide), ownFields]
    simp only [List.lookup_append, hformat, Option.none_or]
    cases record.excInfo <;> cases record.stackInfo <;> rfl
  case stackInfo =>
    intro record
    have hformat : (formatFields record).lookup "stack_info" = none := rfl
    rw [lookup_mergeRecordExtra record (by decide), ownFields]
    simp only [List.lookup_append, hformat, Option.none_or]
    cases record.excInfo <;> cases record.stackInfo <;> rfl
  case own =>
    intro record key hkey hnot
    rw [lookup_mergeRecordExtra record hkey, Entries.lookup_eq_none_iff]
    exact fun hmem => hnot ((keys_ownFields record).subset hmem)
  case extra =>
    intro record key hkey
    have hown : key ∉ Entries.keys (ownFields record) :=
      fun hmem => hkey (ownFields_reserved record key hmem)
    unfold mergeRecordExtra
    rw [List.lookup_append, Entries.lookup_eq_none_iff.mpr hown, Option.none_or,
      Entries.lookup_restrict]
    cases isPrivate key <;> rfl

/-! ## 2. The pipeline -/

/-- The flat record that the formatter gets; the listener's thread formats the message again. -/
def flatten (py : Python ω) (addFields : LogRecord ω → Fields ω)
    (metadata : Option (RequestLogMetadata ω)) (record : LogRecord ω) : Except Exn (Fields ω) := do
  let prepared ← QueueHandler.prepare py (ECSContextFilter.filter metadata record)
  let message ← getMessage py prepared
  return addFields { prepared with message }

/-- The line of a record, emitted while `request_metadata_var` holds `metadata`. -/
def emit (self : ECSDeepJsonFormatter) (py : Python ω) (addFields : LogRecord ω → Fields ω)
    (metadata : Option (RequestLogMetadata ω)) (record : LogRecord ω) : Except Exn (Fields ω) := do
  let logRecord ← flatten py addFields metadata record
  let json ← self.processLogRecord py logRecord
  if (Value.dict json).encodes py then return json else throw .notEncodable

/-- The block names the exception's type and has its traceback. -/
def Describes (block : Value ω) (excInfo : ExcInfo) : Prop :=
  ∃ entries, block = .dict entries ∧ entries.lookup "type" = some (.str excInfo.typeName) ∧
    entries.lookup "stack_trace" = some (.str excInfo.traceback)

/-- Nothing of the record is lost on its way into the line. -/
structure LosesNothing (metadata : Option (RequestLogMetadata ω)) (record : LogRecord ω)
    (json : Fields ω) : Prop where
  extra : ∀ key value, (key, value) ∈ record.extra.entries → appearances json key = [value]
  context : ∀ m, metadata = some m →
    ∀ block ∈ Entries.keys m.blocks, json.lookup block = m.blocks.lookup block
  exception : ∀ excInfo, record.excInfo = some excInfo →
    ∃ block, json.lookup "error" = some block ∧ Describes block excInfo

/-- No key of the caller's is private or keeps the record from speaking, a key that the request's
context also has says the same, all values have a text in JSON, and an exception is described by an
`error` of the caller's own. -/
structure KeepsClear (py : Python ω) (metadata : Option (RequestLogMetadata ω))
    (record : LogRecord ω) : Prop where
  noPrivate : ∀ key ∈ Entries.keys record.extra.entries, isPrivate key = false
  speaks : Speaks py record
  agrees : ∀ m, metadata = some m → ∀ key own request, (key, own) ∈ record.extra.entries →
    (key, request) ∈ m.blocks → own = request
  encodes : ∀ key value, (key, value) ∈ record.extra.entries → value.encodes py = true
  encodesContext : ∀ m, metadata = some m → ∀ key block, (key, block) ∈ m.blocks →
    block.encodes py = true
  ownError : ∀ excInfo, record.excInfo = some excInfo →
    ∃ block, ("error", block) ∈ record.extra.entries ∧ Describes block excInfo

section Pipeline

variable {self : ECSDeepJsonFormatter} {py : Python ω} {addFields : LogRecord ω → Fields ω}
  {metadata : Option (RequestLogMetadata ω)} {record : LogRecord ω} {json logRecord : Fields ω}

/-- A record as the formatter gets it: without its exception, with what the filter has set. -/
structure Queued (py : Python ω) (metadata : Option (RequestLogMetadata ω))
    (record last : LogRecord ω) : Prop where
  extra : last.extra = (ECSContextFilter.filter metadata record).extra
  excInfo : last.excInfo = none
  stackInfo : last.stackInfo = none
  message : last.message.encodes py = true ↔ Speaks py record

/-- The line that the formatter makes of such a record. -/
def LineOf (self : ECSDeepJsonFormatter) (py : Python ω) (addFields : LogRecord ω → Fields ω)
    (last : LogRecord ω) (json : Fields ω) : Prop :=
  Reshapes (addFields last)
    (self.baseRecord (.str (py.lower last.levelname)) (addFields last)) json

theorem nodup_blocks (m : RequestLogMetadata ω) : (Entries.keys m.blocks).Nodup := by
  show ["trace", "transaction", "http", "url"].Nodup
  decide

/-- The filter sets the four keys of the context only. -/
theorem lookup_filter_of_notMem (metadata : Option (RequestLogMetadata ω)) (record : LogRecord ω)
    {key : String} (hkey : key ∉ ["trace", "transaction", "http", "url"]) :
    (ECSContextFilter.filter metadata record).extra.entries.lookup key
      = record.extra.entries.lookup key := by
  cases metadata with
  | none => rfl
  | some m =>
      have hnone : m.blocks.lookup key = none := Entries.lookup_eq_none_iff.mpr hkey
      rw [ECSContextFilter.lookup_filter, hnone, Option.none_or]

theorem speaks_filter : Speaks py (ECSContextFilter.filter metadata record) ↔ Speaks py record :=
  speaks_congr (lookup_filter_of_notMem metadata record (by decide))

theorem flatten_eq_ok (h : flatten py addFields metadata record = .ok logRecord) :
    ∃ last, logRecord = addFields last ∧ Queued py metadata record last := by
  unfold flatten at h
  cases hprepare : QueueHandler.prepare py (ECSContextFilter.filter metadata record) with
  | error e =>
      rw [hprepare] at h
      cases h
  | ok prepared =>
      cases hmessage : getMessage py prepared with
      | error e =>
          simp only [hprepare, hmessage, bind, Except.bind] at h
          cases h
      | ok message =>
          simp only [hprepare, hmessage, bind, Except.bind] at h
          cases h
          obtain ⟨hextra, hexc, hstack⟩ := QueueHandler.prepare_eq_ok hprepare
          have hspeaks : Speaks py prepared ↔ Speaks py record :=
            (speaks_congr (by rw [hextra])).trans speaks_filter
          refine ⟨{ prepared with message }, rfl, ⟨hextra, hexc, hstack, ?_⟩⟩
          rw [← hspeaks]
          constructor
          · exact fun hencodes => ⟨message, hmessage, hencodes⟩
          · rintro ⟨message', hmessage', hencodes⟩
            cases hmessage.symm.trans hmessage'
            exact hencodes

theorem exists_flatten (addFields : LogRecord ω → Fields ω)
    (metadata : Option (RequestLogMetadata ω)) (hspeaks : Speaks py record) :
    ∃ logRecord, flatten py addFields metadata record = .ok logRecord := by
  obtain ⟨message, hmessage, -⟩ := speaks_filter.mpr hspeaks
  have hprepare : ∃ prepared,
      QueueHandler.prepare py (ECSContextFilter.filter metadata record) = .ok prepared := by
    unfold QueueHandler.prepare
    rw [hmessage]
    exact ⟨_, rfl⟩
  obtain ⟨prepared, hprepared⟩ := hprepare
  obtain ⟨hextra, -⟩ := QueueHandler.prepare_eq_ok hprepared
  -- the copy behind the queue speaks as well
  obtain ⟨message', hmessage', -⟩ :=
    (speaks_congr (by rw [hextra])).mpr (speaks_filter.mpr hspeaks)
  unfold flatten
  simp only [hprepared, hmessage', bind, Except.bind]
  exact ⟨_, rfl⟩

theorem get_format (hadd : AddsFields addFields) (record : LogRecord ω) {key : String}
    {value : Value ω} (hmem : (key, value) ∈ formatFields record) (default : Value ω) :
    get (addFields record) key default = value := by
  have hnodup : (Entries.keys (formatFields record)).Nodup := by
    rw [keys_formatFields]
    decide
  rw [get, hadd.format record key (Entries.mem_keys_iff.mpr ⟨value, hmem⟩),
    Entries.lookup_of_mem hnodup hmem]
  rfl

/-- Behind the queue the formatter raises nothing and builds no error block. -/
theorem exists_line (hadd : AddsFields addFields) (self : ECSDeepJsonFormatter) (py : Python ω)
    {last : LogRecord ω} (hexc : last.excInfo = none) :
    ∃ json, self.processLogRecord py (addFields last) = .ok json ∧
      LineOf self py addFields last json := by
  have hlevel : (get (addFields last) "levelname" (.str "INFO")).lower py =
      .ok (.str (py.lower last.levelname)) := by
    rw [get_format hadd last (List.mem_cons_of_mem _ List.mem_cons_self)]
    rfl
  -- the queue has cleared the exception
  have hnone : (addFields last).lookup "exc_info" = none := by
    rw [hadd.excInfo, hexc]
    rfl
  have herror : errorBlock py (addFields last) = .ok [] := by
    unfold errorBlock get
    rw [hnone]
    rfl
  have hok : ∃ json, self.processLogRecord py (addFields last) = .ok json := by
    unfold processLogRecord
    rw [hlevel, herror]
    exact ⟨_, rfl⟩
  obtain ⟨json, hjson⟩ := hok
  obtain ⟨level, error, hlevel', herror', hreshapes⟩ :=
    processLogRecord_reshapes (hadd.nodup last) hjson
  cases hlevel.symm.trans hlevel'
  cases herror.symm.trans herror'
  rw [List.append_nil] at hreshapes
  exact ⟨json, hjson, hreshapes⟩

theorem emit_eq_ok (hadd : AddsFields addFields)
    (h : emit self py addFields metadata record = .ok json) :
    ∃ last, Queued py metadata record last ∧ LineOf self py addFields last json ∧
      (Value.dict json).encodes py = true := by
  unfold emit at h
  cases hflat : flatten py addFields metadata record with
  | error e =>
      rw [hflat] at h
      cases h
  | ok logRecord =>
      obtain ⟨last, rfl, hqueued⟩ := flatten_eq_ok hflat
      obtain ⟨json', hjson', hline⟩ := exists_line hadd self py hqueued.excInfo
      simp only [hflat, hjson', bind, Except.bind] at h
      split at h
      · rename_i hencodes
        cases h
        exact ⟨last, hqueued, hline, hencodes⟩
      · cases h

theorem exists_emit (hadd : AddsFields addFields) (hspeaks : Speaks py record)
    (hencodes : ∀ last json, Queued py metadata record last → LineOf self py addFields last json →
      (Value.dict json).encodes py = true) :
    ∃ json, emit self py addFields metadata record = .ok json := by
  obtain ⟨logRecord, hflat⟩ := exists_flatten addFields metadata hspeaks
  obtain ⟨last, rfl, hqueued⟩ := flatten_eq_ok hflat
  obtain ⟨json, hjson, hline⟩ := exists_line hadd self py hqueued.excInfo
  unfold emit
  simp only [hflat, hjson, bind, Except.bind, hencodes last json hqueued hline, if_true]
  exact ⟨json, rfl⟩

/-! ## 3. What the stages claim of a caller's keys -/

theorem LineOf.appearances_eq (hadd : AddsFields addFields) {last : LogRecord ω}
    (h : LineOf self py addFields last json) {key : String} (hkey : key ∉ reserved) :
    appearances json key =
      if isPrivate key then [] else (last.extra.entries.lookup key).toList := by
  have hstandard : key ∉ standardKeys := by
    have hsubset : ∀ key ∈ standardKeys, key ∈ reserved := by decide
    exact fun hmem => hkey (hsubset key hmem)
  have hbase : ∀ key ∈ ecsBlocks,
      (self.baseRecord (.str (py.lower last.levelname)) (addFields last)).lookup key = none :=
    fun key hmem => lookup_baseRecord_eq_none self _ _ (List.mem_cons_of_mem _ hmem)
  rw [Reshapes.appearances_eq h hbase hstandard, hadd.extra _ key hkey]
  cases isPrivate key <;> rfl

theorem LineOf.lookup_block (hadd : AddsFields addFields) {last : LogRecord ω}
    (h : LineOf self py addFields last json) {block : String} (hblock : block ∈ ecsBlocks) :
    json.lookup block = last.extra.entries.lookup block := by
  have hown : ∀ block ∈ ecsBlocks, block ∉ reserved ∧ isPrivate block = false := by decide
  obtain ⟨hreserved, hprivate⟩ := hown block hblock
  rw [Reshapes.block h block hblock,
    lookup_baseRecord_eq_none self _ _ (List.mem_cons_of_mem _ hblock), Option.or_none,
    hadd.extra _ block hreserved, hprivate]
  rfl

/-- In a request the request's blocks are always in the line. -/
theorem LineOf.lookup_context (hadd : AddsFields addFields) {m : RequestLogMetadata ω}
    {last : LogRecord ω} (hqueued : Queued py (some m) record last)
    (h : LineOf self py addFields last json) {block : String}
    (hblock : block ∈ Entries.keys m.blocks) : json.lookup block = m.blocks.lookup block := by
  have hecs : ∀ block ∈ ["trace", "transaction", "http", "url"], block ∈ ecsBlocks := by decide
  obtain ⟨request, hrequest⟩ := Entries.exists_lookup_of_mem_keys hblock
  rw [h.lookup_block hadd (hecs block hblock), hqueued.extra, ECSContextFilter.lookup_filter,
    hrequest, Option.some_or]

/-- The blocks that every line has are texts and the number of a line of code. -/
theorem encodes_baseRecord (hadd : AddsFields addFields) {last : LogRecord ω}
    (hmessage : last.message.encodes py = true) (level : String) :
    (Value.dict (self.baseRecord (.str level) (addFields last))).encodes py = true := by
  have hget : ∀ key value, (key, value) ∈ formatFields last → ∀ default,
      get (addFields last) key default = value :=
    fun key value hmem => get_format hadd last hmem
  unfold baseRecord
  rw [hget "asctime" (.str last.asctime) (by simp [formatFields]),
    hget "message" last.message (by simp [formatFields]),
    hget "name" (.str last.name) (by simp [formatFields]),
    hget "filename" (.str last.filename) (by simp [formatFields]),
    hget "lineno" (.int last.lineno) (by simp [formatFields]),
    hget "funcName" (.str last.funcName) (by simp [formatFields]),
    hget "threadName" (.str last.threadName) (by simp [formatFields])]
  simp [Value.encodes, encodesAll, hmessage]

/-- What the filter leaves has a text if the caller's values and the context's have one. -/
theorem encodes_filter {key : String} {value : Value ω} (hclear : KeepsClear py metadata record)
    (h : (ECSContextFilter.filter metadata record).extra.entries.lookup key = some value) :
    value.encodes py = true := by
  cases metadata with
  | none => exact hclear.encodes key value (Entries.mem_of_lookup h)
  | some m =>
      rw [ECSContextFilter.lookup_filter] at h
      rcases Option.or_eq_some_iff.mp h with hrequest | ⟨-, hown⟩
      · exact hclear.encodesContext m rfl key value (Entries.mem_of_lookup hrequest)
      · exact hclear.encodes key value (Entries.mem_of_lookup hown)

/-- Under `extra` stand attributes that are none of the record's own. -/
theorem LineOf.lookup_extra (hadd : AddsFields addFields) {last : LogRecord ω}
    (hstack : last.stackInfo = none) (h : LineOf self py addFields last json) {key : String}
    {value : Value ω} (hvalue : (extraOf json).lookup key = some value) :
    last.extra.entries.lookup key = some value := by
  rw [Reshapes.extra h] at hvalue
  split at hvalue
  · cases hvalue
  · rename_i hkey
    obtain ⟨-, hstandard⟩ := not_or.mp hkey
    by_cases hreserved : key ∈ reserved
    · -- its own are standard keys, cleared, or left out by the library
      by_cases hstackInfo : key = "stack_info"
      · rw [hstackInfo, hadd.stackInfo, hstack] at hvalue
        cases hvalue
      · rw [hadd.own last key hreserved] at hvalue
        · cases hvalue
        · intro hown
          have hsubset : ∀ key ∈ ["asctime", "levelname", "name", "filename", "lineno", "funcName",
              "threadName", "message"], key ∈ standardKeys := by decide
          rcases List.mem_append.mp hown with hformat | hother
          · exact hstandard (hsubset key hformat)
          · rcases List.mem_pair.mp hother with rfl | heq
            · exact hstandard (by decide)
            · exact hstackInfo heq
    · rw [hadd.extra last key hreserved] at hvalue
      split at hvalue
      · cases hvalue
      · exact hvalue

theorem LineOf.encodes (hadd : AddsFields addFields) {last : LogRecord ω}
    (hqueued : Queued py metadata record last) (h : LineOf self py addFields last json)
    (hclear : KeepsClear py metadata record) : (Value.dict json).encodes py = true := by
  have hbase : (Value.dict (self.baseRecord (.str (py.lower last.levelname))
      (addFields last))).encodes py = true :=
    encodes_baseRecord hadd (hqueued.message.mpr hclear.speaks) _
  rw [encodes_dict_iff (by rw [keys_baseRecord]; decide)] at hbase
  rw [encodes_dict_iff h.nodup]
  intro key value hvalue
  by_cases hblock : key ∈ ecsBlocks
  · rw [h.lookup_block hadd hblock, hqueued.extra] at hvalue
    exact encodes_filter hclear hvalue
  by_cases hextra : key = "extra"
  · subst hextra
    rcases Reshapes.whole h with hnone | hwhole
    · rw [hnone] at hvalue
      cases hvalue
    · rw [hwhole] at hvalue
      cases hvalue
      rw [encodes_dict_iff h.nodupExtra]
      intro key value hentry
      have hattribute := h.lookup_extra hadd hqueued.stackInfo hentry
      rw [hqueued.extra] at hattribute
      exact encodes_filter hclear hattribute
  · have hother : key ∉ "extra" :: ecsBlocks := by simp [hextra, hblock]
    rw [Reshapes.other h key hother] at hvalue
    exact hbase key value hvalue

/-- What has a text as a line has texts for all that appears in it. -/
theorem encodes_of_appears {key : String} {value : Value ω} {ecsRecord : Fields ω}
    (h : Reshapes logRecord ecsRecord json) (hencodes : (Value.dict json).encodes py = true)
    (hmem : value ∈ appearances json key) : value.encodes py = true := by
  rw [encodes_dict_iff h.nodup] at hencodes
  unfold appearances at hmem
  rw [Entries.valuesAt_eq h.nodup, Entries.valuesAt_eq h.nodupExtra] at hmem
  rcases List.mem_append.mp hmem with hblock | hextra
  · split at hblock
    · exact hencodes key value (Option.mem_toList.mp hblock)
    · cases hblock
  · rcases h.whole with hnone | hwhole
    · have hempty : extraOf json = [] := by
        unfold extraOf
        rw [hnone]
      rw [hempty] at hextra
      cases hextra
    · have hdict := hencodes "extra" _ hwhole
      rw [encodes_dict_iff h.nodupExtra] at hdict
      exact hdict key value (Option.mem_toList.mp hextra)

theorem keepsClear_of_losesNothing (hadd : AddsFields addFields)
    (h : emit self py addFields metadata record = .ok json)
    (hlossless : LosesNothing metadata record json) : KeepsClear py metadata record := by
  obtain ⟨last, hqueued, hline, hencodes⟩ := emit_eq_ok hadd h
  constructor
  case noPrivate =>
    intro key hkey
    obtain ⟨value, hmem⟩ := Entries.mem_keys_iff.mp hkey
    have hone := hlossless.extra key value hmem
    rw [hline.appearances_eq hadd (record.extra.accepted key hkey)] at hone
    -- a private key is nowhere in the line
    by_contra hprivate
    rw [if_pos (eq_true_of_ne_false hprivate)] at hone
    cases hone
  case speaks =>
    -- the message stands in every line
    rw [encodes_dict_iff hline.nodup] at hencodes
    refine hqueued.message.mp (hencodes "message" _ ?_)
    rw [Reshapes.other hline "message" (by decide), baseRecord,
      get_format hadd last (by simp [formatFields] : ("message", last.message) ∈ formatFields last)]
    rfl
  case agrees =>
    rintro m rfl key own request hown hrequest
    have hone := hlossless.extra key own hown
    have haccepted := record.extra.accepted key (Entries.mem_keys_iff.mpr ⟨own, hown⟩)
    rw [hline.appearances_eq hadd haccepted, hqueued.extra, ECSContextFilter.lookup_filter,
      Entries.lookup_of_mem (nodup_blocks m) hrequest] at hone
    -- what stands in the line is the request's
    split at hone
    · cases hone
    · cases hone
      rfl
  case encodes =>
    intro key value hmem
    have happears : value ∈ appearances json key := by
      rw [hlossless.extra key value hmem]
      exact List.mem_singleton_self value
    exact encodes_of_appears hline hencodes happears
  case encodesContext =>
    rintro m rfl key block hmem
    have hblock := Entries.lookup_of_mem (nodup_blocks m) hmem
    have hcontext := hlossless.context m rfl key (Entries.mem_keys_iff.mpr ⟨block, hmem⟩)
    exact (encodes_dict_iff hline.nodup).mp hencodes key block (hcontext.trans hblock)
  case ownError =>
    intro excInfo hexc
    obtain ⟨block, hblock, hdescribes⟩ := hlossless.exception excInfo hexc
    rw [hline.lookup_block hadd (by decide), hqueued.extra,
      lookup_filter_of_notMem metadata record (by decide)] at hblock
    exact ⟨block, Entries.mem_of_lookup hblock, hdescribes⟩

theorem losesNothing_of_keepsClear (hadd : AddsFields addFields)
    (h : emit self py addFields metadata record = .ok json)
    (hclear : KeepsClear py metadata record) : LosesNothing metadata record json := by
  obtain ⟨last, hqueued, hline, -⟩ := emit_eq_ok hadd h
  constructor
  case extra =>
    intro key value hmem
    have hkey : key ∈ Entries.keys record.extra.entries := Entries.mem_keys_iff.mpr ⟨value, hmem⟩
    have hown := Entries.lookup_of_mem record.extra.nodup hmem
    have hleft : (ECSContextFilter.filter metadata record).extra.entries.lookup key = some value := by
      cases metadata with
      | none => exact hown
      | some m =>
          rw [ECSContextFilter.lookup_filter]
          -- the filter overwrites the value, if at all, with the same one
          cases hrequest : m.blocks.lookup key with
          | none => rw [Option.none_or, hown]
          | some request =>
              rw [Option.some_or,
                hclear.agrees m rfl key value request hmem (Entries.mem_of_lookup hrequest)]
    rw [hline.appearances_eq hadd (record.extra.accepted key hkey), hclear.noPrivate key hkey,
      hqueued.extra, hleft]
    rfl
  case context =>
    rintro m rfl block hblock
    exact hline.lookup_context hadd hqueued hblock
  case exception =>
    intro excInfo hexc
    obtain ⟨block, hmem, hdescribes⟩ := hclear.ownError excInfo hexc
    have hblock : json.lookup "error" = some block := by
      rw [hline.lookup_block hadd (by decide), hqueued.extra,
        lookup_filter_of_notMem metadata record (by decide)]
      exact Entries.lookup_of_mem record.extra.nodup hmem
    exact ⟨block, hblock, hdescribes⟩

end Pipeline

/-! ## 4. Records that reach their line whole -/

/-- **Structured logging loses nothing** exactly of the records whose extra keeps clear of what the
stages claim. -/
theorem losesNothing_iff_keepsClear {addFields : LogRecord ω → Fields ω}
    (hadd : AddsFields addFields) (self : ECSDeepJsonFormatter) (py : Python ω)
    (metadata : Option (RequestLogMetadata ω)) (record : LogRecord ω) :
    (∃ json, emit self py addFields metadata record = .ok json ∧ LosesNothing metadata record json) ↔
      KeepsClear py metadata record := by
  constructor
  · rintro ⟨json, hjson, hlossless⟩
    exact keepsClear_of_losesNothing hadd hjson hlossless
  · intro hclear
    obtain ⟨json, hjson⟩ := exists_emit hadd hclear.speaks fun last json hqueued hline =>
      LineOf.encodes hadd hqueued hline hclear
    exact ⟨json, hjson, losesNothing_of_keepsClear hadd hjson hclear⟩

/-- An interpreter for records without objects. -/
def plainPython : Python Empty where
  truth := nofun
  str
    | .str s => s
    | _ => ""
  lower := String.toLower
  call := nofun
  encodes := nofun

def ledgerFormatter : ECSDeepJsonFormatter where
  serviceName := "djaskt-ledger"
  serviceVersion := "1.0.0"
  environment := "development"
  hostName := "web"

def createTrade : RequestLogMetadata Empty where
  trace := [("id", .str "8c1f")]
  transaction := [("id", .str "8c1f")]
  http := [("request", .dict [("method", .str "POST"), ("id", .str "8c1f")])]
  url := [("path", .str "/api/trades")]

def boom : ExcInfo where
  typeName := "ValueError"
  traceback := "Traceback (most recent call last):\nValueError: boom"

/-- The record of `handle_unexpected_error`. -/
def unexpectedError (extra : Extra Empty) : LogRecord Empty where
  name := "django_app.urls"
  levelname := "ERROR"
  filename := "urls.py"
  lineno := 71
  funcName := "handle_unexpected_error"
  threadName := "MainThread"
  asctime := "2026-01-05 09:15:00,000"
  msg := "Unhandled exception in ledger API: boom"
  message := .none
  excInfo := some boom
  stackInfo := none
  extra := extra

def noExtra : Extra Empty where
  entries := []
  nodup := List.nodup_nil
  accepted := by decide

/-- The caller describes the exception himself, beside a key of his own. -/
def describedExtra : Extra Empty where
  entries := [("user_id", .int 4), ("error", .dict [("type", .str boom.typeName),
    ("stack_trace", .str boom.traceback)])]
  nodup := by
    show ["user_id", "error"].Nodup
    decide
  accepted := by
    show ∀ key ∈ ["user_id", "error"], key ∉ reserved
    decide

theorem losesNothing_iff_keepsClear_described :
    ∃ json, emit ledgerFormatter plainPython mergeRecordExtra (some createTrade)
        (unexpectedError describedExtra) = .ok json ∧
      LosesNothing (some createTrade) (unexpectedError describedExtra) json := by
  refine (losesNothing_iff_keepsClear mergeRecordExtra_addsFields ledgerFormatter plainPython
    (some createTrade) (unexpectedError describedExtra)).mpr ?_
  constructor
  case noPrivate =>
    show ∀ key ∈ ["user_id", "error"], isPrivate key = false
    decide
  case agrees =>
    rintro m ⟨⟩ key own request hown hrequest
    have hkey : key ∈ ["user_id", "error"] := Entries.mem_keys_iff.mpr ⟨own, hown⟩
    have hblock : key ∈ ["trace", "transaction", "http", "url"] :=
      Entries.mem_keys_iff.mpr ⟨request, hrequest⟩
    have hapart : ∀ key ∈ ["user_id", "error"], key ∉ ["trace", "transaction", "http", "url"] := by
      decide
    exact absurd hblock (hapart key hkey)
  case speaks => exact ⟨_, rfl, by rw [Value.encodes]⟩
  case encodes =>
    intro key value hmem
    rcases List.mem_pair.mp hmem with heq | heq <;> cases heq <;> simp [Value.encodes, encodesAll]
  case encodesContext =>
    rintro m ⟨⟩ key block hmem
    have hall : encodesAll plainPython createTrade.blocks = true := by
      simp [createTrade, RequestLogMetadata.blocks, Value.encodes, encodesAll]
    exact encodesAll_iff.mp hall (key, block) hmem
  case ownError =>
    rintro excInfo ⟨⟩
    exact ⟨_, List.mem_cons_of_mem _ List.mem_cons_self, _, rfl, rfl, rfl⟩

/-- The traceback of an unhandled exception ends in the text of the message, and no error block is
built. -/
theorem not_losesNothing_unexpectedError :
    ¬ ∃ json, emit ledgerFormatter plainPython mergeRecordExtra (some createTrade)
        (unexpectedError noExtra) = .ok json ∧
      LosesNothing (some createTrade) (unexpectedError noExtra) json := by
  rintro ⟨json, hjson, hlossless⟩
  obtain ⟨block, hblock, -⟩ := hlossless.exception boom rfl
  obtain ⟨last, hqueued, hline, -⟩ := emit_eq_ok mergeRecordExtra_addsFields hjson
  rw [hline.lookup_block mergeRecordExtra_addsFields (by decide), hqueued.extra,
    lookup_filter_of_notMem _ _ (by decide)] at hblock
  cases hblock

end DjasktTrading.Extensions
