import SecureMcp.Audit.Handing
import SecureMcp.Audit.Event
import SecureMcp.Collector.Sink
import SecureMcp.Lib.Calendar
import SecureMcp.Lib.JsonObject

set_option autoImplicit false

/-! # The log on standard error (`jsonAuditSink` of `src/audit.ts`, `main` of `src/cli.ts`)

Without a collector an event is one line of JSON on standard error. The command writes there as well:
where it listens, and that the protocol failed. The lines do not run into each other, and an event is
told from the other lines by its members, so the text says which events were recorded, in which
order, and each of them in full (`events_of_log`).

The octets leave in the order of the calls, whenever the stream takes them, and a callback without an
error comes after those of its line. Once a write has failed nothing is said of what follows: part of
its line may be there, and any other octets after it. -/

namespace SecureMcp

def EventKind.text : EventKind → String
  | .tool => "tool"
  | .http => "http"
  | .protocol => "protocol"

def Endpoint.text : Endpoint → String
  | .mcp => "mcp"
  | .metrics => "metrics"

def Method.text : Method → String
  | .GET => "GET"
  | .POST => "POST"
  | .DELETE => "DELETE"
  | .OPTIONS => "OPTIONS"
  | .other => "other"

/-! ## The texts of the labels -/

theorem EventKind.text_injective {a b : EventKind} (h : js a.text = js b.text) : a = b := by
  cases a <;> cases b <;> first | rfl | exact absurd h (by decide)

theorem Endpoint.text_injective {a b : Endpoint} (h : js a.text = js b.text) : a = b := by
  cases a <;> cases b <;> first | rfl | exact absurd h (by decide)

theorem Method.text_injective {a b : Method} (h : js a.text = js b.text) : a = b := by
  cases a <;> cases b <;> first | rfl | exact absurd h (by decide)

/-- Every failure code. -/
def FailureCode.all : List FailureCode :=
  [.denied, .invalid_input, .busy, .timeout, .cancelled, .shutting_down, .output_too_large, .not_found,
    .upstream_failed, .audit_unavailable, .internal]

/-- Every outcome. -/
def Outcome.all : List Outcome :=
  FailureCode.all.map .failure ++
    [.allowed, .success, .tool_error, .tool_rejected, .parse_error, .invalid_request, .unknown_method,
      .invalid_params, .protocol_error, .received, .response, .completed, .request_timeout,
      .disconnected]

theorem Outcome.mem_all (outcome : Outcome) : outcome ∈ Outcome.all := by
  cases outcome with
  | failure code => cases code <;> decide
  | _ => decide

theorem Outcome.text_injective {a b : Outcome} (h : js a.text = js b.text) : a = b := by
  have hnodup : (Outcome.all.map (fun outcome => js outcome.text)).Nodup := by decide
  exact List.inj_on_of_nodup_map hnodup a.mem_all b.mem_all h

namespace AuditEvent

/-! ## The object that is written -/

/-- The members, in the order in which the program sets them. -/
def fields (event : AuditEvent) : List (JsString × Option Json) :=
  [(js "schema", some (.number (.ofInt event.schema))),
    (js "time", some (.string (Calendar.toISOString event.time))),
    (js "requestId", some (.string event.requestId)),
    (js "tool", some (.string event.tool)),
    (js "actor", some (.string event.actor)),
    (js "kind", event.kind.map (fun kind => .string (js kind.text))),
    (js "endpoint", event.endpoint.map (fun endpoint => .string (js endpoint.text))),
    (js "method", event.method.map (fun method => .string (js method.text))),
    (js "outcome", some (.string (js event.outcome.text))),
    (js "durationMs", some (.number (.ofInt event.durationMs))),
    (js "status", event.status.map (fun status : Nat => .number (.ofInt status)))]

def toJson (event : AuditEvent) : Json := .ofFields event.fields

/-- `JSON.stringify(event) + '\n'`, in UTF-8. -/
def line (event : AuditEvent) : Bytes := event.toJson.line

/-- The names of the members. -/
def keys : List JsString :=
  [js "schema", js "time", js "requestId", js "tool", js "actor", js "kind", js "endpoint", js "method",
    js "outcome", js "durationMs", js "status"]

theorem nodup_keys : keys.Nodup := by decide

/-- A member of the object is the field of this name. -/
theorem property_toJson (event : AuditEvent) {key : JsString} {value : Option Json}
    (h : (key, value) ∈ event.fields) : event.toJson.property key = value := by
  have hkeys : event.fields.map Prod.fst = keys := rfl
  exact Json.property_ofFields (hkeys ▸ nodup_keys) h

/-! ## The object says which event it is -/

theorem toJson_injective {a b : AuditEvent} (h : a.toJson = b.toJson) : a = b := by
  have hread : ∀ (n : Nat) key value value', a.fields[n]? = some (key, value) →
      b.fields[n]? = some (key, value') → value = value' := by
    intro n key value value' hvalue hvalue'
    rw [← property_toJson a (List.mem_of_getElem? hvalue), h,
      property_toJson b (List.mem_of_getElem? hvalue')]
  have hschema := hread 0 _ _ _ rfl rfl
  have htime := hread 1 _ _ _ rfl rfl
  have hrequestId := hread 2 _ _ _ rfl rfl
  have htool := hread 3 _ _ _ rfl rfl
  have hactor := hread 4 _ _ _ rfl rfl
  have hkind := hread 5 _ _ _ rfl rfl
  have hendpoint := hread 6 _ _ _ rfl rfl
  have hmethod := hread 7 _ _ _ rfl rfl
  have houtcome := hread 8 _ _ _ rfl rfl
  have hdurationMs := hread 9 _ _ _ rfl rfl
  have hstatus := hread 10 _ _ _ rfl rfl
  cases a
  cases b
  simp only [Option.some.injEq, Json.string.injEq, Json.number.injEq] at *
  congr
  · exact Int.ofNat.inj (NumberLiteral.ofInt_injective hschema)
  · exact Calendar.toISOString_injective htime
  · exact Outcome.text_injective houtcome
  · exact NumberLiteral.ofInt_injective hdurationMs
  · exact Option.map_injective (fun _ _ heq => EventKind.text_injective (Json.string.inj heq)) hkind
  · exact Option.map_injective (fun _ _ heq => Endpoint.text_injective (Json.string.inj heq)) hendpoint
  · exact Option.map_injective (fun _ _ heq => Method.text_injective (Json.string.inj heq)) hmethod
  · exact Option.map_injective (fun _ _ heq => Int.ofNat.inj
      (NumberLiteral.ofInt_injective (Json.number.inj heq))) hstatus

end AuditEvent

/-! ## The lines -/

/-- One call of `process.stderr.write`. -/
inductive LogEntry
  /-- The event of write `i`. -/
  | audit (i : Nat) (event : AuditEvent)
  | listening (url : JsString)
  | protocol_error

namespace LogEntry

def toJson : LogEntry → Json
  | audit _ event => event.toJson
  | listening url => .ofFields
    [(js "event", some (.string (js "listening"))), (js "url", some (.string url))]
  | protocol_error => .ofFields [(js "event", some (.string (js "protocol_error")))]

def line (entry : LogEntry) : Bytes := entry.toJson.line

example : (protocol_error.toJson).stringify = js "\x7b\"event\":\"protocol_error\"\x7d" := by decide

/-- The event that is recorded. -/
def event : LogEntry → Option AuditEvent
  | audit _ event => some event
  | _ => none

/-- The write that it is of. -/
def number : LogEntry → Option Nat
  | audit i _ => some i
  | _ => none

theorem length_numbers (entries : List LogEntry) :
    (entries.filterMap number).length = (entries.filterMap event).length := by
  induction entries with
  | nil => rfl
  | cons entry rest ih =>
      cases entry with
      | audit i event => exact congrArg Nat.succ ih
      | listening url | protocol_error => exact ih

/-- A value that was read is an event: the other lines have no `schema`. -/
def isEvent (value : Json) : Bool := (value.property (js "schema")).isSome

theorem isEvent_toJson (entry : LogEntry) : isEvent entry.toJson = entry.event.isSome := by
  cases entry with
  | audit i event =>
      have hschema : event.toJson.property (js "schema") =
          some (.number (.ofInt event.schema)) := event.property_toJson List.mem_cons_self
      rw [isEvent, toJson, hschema]
      rfl
  | listening url =>
      have habsent : (listening url).toJson.property (js "schema") = none :=
        Json.property_ofFields_of_not_mem (show js "schema" ∉ [js "event", js "url"] by decide)
      rw [isEvent, habsent]
      rfl
  | protocol_error => rfl

end LogEntry

/-- What a reader of standard error takes for the events. -/
def readLog (text : Bytes) : List Json :=
  ((Lines.cut text).1.filterMap (fun line => Json.parse (JsString.ofUtf8 line))).filter LogEntry.isEvent

theorem cut_lines (entries : List LogEntry) :
    Lines.cut (entries.flatMap LogEntry.line) = (entries.map LogEntry.line, []) := by
  have hlines : ∀ line ∈ entries.map LogEntry.line, Lines.IsLine line := by
    intro line hline
    obtain ⟨entry, _, rfl⟩ := List.mem_map.mp hline
    exact Json.isLine_line entry.toJson
  have hcut := Lines.cut_append hlines []
  rw [List.append_nil, ← List.flatMap_def] at hcut
  rw [hcut]
  simp [Lines.cut]

theorem readLog_lines (entries : List LogEntry) :
    readLog (entries.flatMap LogEntry.line) =
      (entries.filterMap LogEntry.event).map AuditEvent.toJson := by
  have hparse : (entries.map LogEntry.line).filterMap (fun line => Json.parse (JsString.ofUtf8 line)) =
      entries.map LogEntry.toJson := by
    rw [List.filterMap_map, ← List.filterMap_eq_map]
    exact List.filterMap_congr (fun entry _ => Json.parse_line entry.toJson)
  rw [readLog, cut_lines, hparse]
  clear hparse
  induction entries with
  | nil => rfl
  | cons entry rest ih =>
      have hevent := entry.isEvent_toJson
      rw [List.map_cons]
      cases entry with
      | audit i event =>
          rw [List.filter_cons_of_pos (by rw [hevent]; rfl), ih]
          rfl
      | listening url | protocol_error =>
          rw [List.filter_cons_of_neg (by rw [hevent]; exact Bool.false_ne_true), ih]
          rfl

/-- What has been read stays, whatever octets follow. -/
theorem readLog_mono {text text' : Bytes} (h : text <+: text') : readLog text <+: readLog text' := by
  obtain ⟨more, rfl⟩ := h
  rw [readLog, readLog, Lines.cut_append_remainder]
  exact ((List.prefix_append _ _).filterMap _).filter _

/-- The octets up to the end of the line of write `i`. -/
def upTo (i : Nat) : List LogEntry → Option Bytes
  | [] => none
  | entry :: rest =>
    if entry.number = some i then some entry.line else (upTo i rest).map (entry.line ++ ·)

theorem upTo_append {i : Nat} {entries : List LogEntry} {octets : Bytes}
    (h : upTo i entries = some octets) (more : List LogEntry) :
    upTo i (entries ++ more) = some octets := by
  induction entries generalizing octets with
  | nil => exact absurd h (by simp [upTo])
  | cons entry rest ih =>
      rw [upTo] at h
      rw [List.cons_append, upTo]
      split at h
      · next hentry => rw [if_pos hentry, h]
      · next hentry =>
          obtain ⟨later, hlater, rfl⟩ := Option.map_eq_some_iff.mp h
          rw [if_neg hentry, ih hlater, Option.map_some]

/-- These are the lines of the first entries, of which the last one is that of write `i`. -/
theorem lines_of_upTo {i : Nat} {entries : List LogEntry} {octets : Bytes}
    (h : upTo i entries = some octets) : ∃ first entry rest, entries = first ++ entry :: rest ∧
      entry.number = some i ∧ octets = (first ++ [entry]).flatMap LogEntry.line := by
  induction entries generalizing octets with
  | nil => exact absurd h (by simp [upTo])
  | cons entry rest ih =>
      rw [upTo] at h
      split at h
      · next hentry =>
          obtain rfl := Option.some.inj h
          exact ⟨[], entry, rest, rfl, hentry, (List.flatMap_singleton _ _).symm⟩
      · obtain ⟨later, hlater, rfl⟩ := Option.map_eq_some_iff.mp h
        obtain ⟨first, last, others, rfl, hlast, rfl⟩ := ih hlater
        exact ⟨entry :: first, last, others, rfl, hlast, rfl⟩

/-! ## A dispatcher over standard error -/

structure LoggedDispatcher where
  audit : AuditDispatcher AuditEvent
  /-- The calls of `stream.write`, in this order. -/
  entries : List LogEntry := []
  /-- What has reached standard error. -/
  text : Bytes := []
  /-- A call of `stream.write` has failed. -/
  failed : Bool := false

namespace LoggedDispatcher

/-- What was handed to the stream. -/
def lines (s : LoggedDispatcher) : Bytes := s.entries.flatMap LogEntry.line

/-- The line of write `i` is out. -/
def isOut (s : LoggedDispatcher) (i : Nat) : Bool :=
  (upTo i s.entries).any (fun octets => octets.isPrefixOf s.text)

/-- The promise job that calls the sink: `stream.write(JSON.stringify(event) + '\n', …)`. -/
def callSink (s : LoggedDispatcher) (i : Nat) : Option LoggedDispatcher := do
  let w ← s.audit.writes[i]?
  let audit ← s.audit.callSink i .promise
  some { s with audit, entries := s.entries ++ [.audit i w.event] }

inductive Label
  /-- A step of the dispatcher in which the sink has no part. -/
  | audit (label : AuditDispatcher.Label AuditEvent)
  | callSink (i : Nat)
  /-- Octets reach standard error. -/
  | flush (octets : Bytes)
  /-- A write fails. -/
  | fail
  /-- The callback of `stream.write`. -/
  | settle (i : Nat) (ok : Bool)
  /-- `this.sink.close?.()`: this sink has no such hook. -/
  | callSinkClose
  | listening (url : JsString)
  | protocol_error

def step (s : LoggedDispatcher) : Label → Option LoggedDispatcher
  | .audit label =>
    if label.isSink then none else (s.audit.step label).map (fun audit => { s with audit })
  | .callSink i => s.callSink i
  | .flush octets =>
    if s.failed || (s.text ++ octets).isPrefixOf s.lines then some { s with text := s.text ++ octets }
    else none
  | .fail => some { s with failed := true }
  | .settle i ok =>
    if s.failed || (ok && s.isOut i) then (s.audit.settle i ok).map (fun audit => { s with audit })
    else none
  | .callSinkClose => (s.audit.callSinkClose .returned).map (fun audit => { s with audit })
  | .listening url => some { s with entries := s.entries ++ [.listening url] }
  | .protocol_error => some { s with entries := s.entries ++ [.protocol_error] }

def machine (capacity : Nat) : Machine LoggedDispatcher Label :=
  { init := { audit := { capacity } }, step }

variable {capacity capacity' : Nat} {s s' : LoggedDispatcher} {l : Label}

/-! ### What is out is the start of what has been handed over -/

/-- A step is at most one step of the dispatcher. -/
theorem step_audit (h : s.step l = some s') :
    s'.audit = s.audit ∨ ∃ label, s.audit.step label = some s'.audit := by
  cases l with
  | audit label =>
      simp only [step] at h
      split at h
      · exact absurd h (by simp)
      · obtain ⟨audit, hstep, rfl⟩ := Option.map_eq_some_iff.mp h
        exact Or.inr ⟨label, hstep⟩
  | callSink i =>
      obtain ⟨w, _, h⟩ := Option.bind_eq_some_iff.mp h
      obtain ⟨audit, hstep, h⟩ := Option.bind_eq_some_iff.mp h
      obtain rfl := Option.some.inj h
      exact Or.inr ⟨.callSink i .promise, hstep⟩
  | flush octets =>
      simp only [step] at h
      split at h
      · obtain rfl := Option.some.inj h
        exact Or.inl rfl
      · exact absurd h (by simp)
  | settle i ok =>
      simp only [step] at h
      split at h
      · obtain ⟨audit, hstep, rfl⟩ := Option.map_eq_some_iff.mp h
        exact Or.inr ⟨.settle i ok, hstep⟩
      · exact absurd h (by simp)
  | callSinkClose =>
      obtain ⟨audit, hstep, rfl⟩ := Option.map_eq_some_iff.mp h
      exact Or.inr ⟨.callSinkClose .returned, hstep⟩
  | fail | listening url | protocol_error =>
      obtain rfl := Option.some.inj h
      exact Or.inl rfl

theorem audit_reachable (h : (machine capacity).Reachable s) :
    (AuditDispatcher.machine AuditEvent capacity).Reachable s.audit := by
  refine h.invariant (I := fun s => (AuditDispatcher.machine AuditEvent capacity).Reachable s.audit)
    Machine.reachable_init ?_
  intro s l s' _ hs hstep
  rcases step_audit hstep with hsame | ⟨label, hlabel⟩
  · rw [hsame]
    exact hs
  · exact hs.snoc hlabel

/-- The entries are the writes handed to the sink. -/
structure Mirrored (s : LoggedDispatcher) : Prop where
  numbers : s.entries.filterMap LogEntry.number = s.audit.handed
  events : s.entries.filterMap LogEntry.event = s.audit.sunk

/-- While no write has failed, what is out is the start of the lines, and has in it those of the
    writes that were acknowledged. -/
structure Flushed (s : LoggedDispatcher) : Prop where
  start : s.text <+: s.lines
  out : ∀ (i : Nat) w, s.audit.writes[i]? = some w → w.work = .fulfilled → s.isOut i = true

/-- The events that were handed over stay. -/
theorem sunk_of_writes {d d' : AuditDispatcher AuditEvent} (hbooks : d.Accounting)
    (hkept : ∀ (j : Nat) b, d.writes[j]? = some b → ∃ b', d'.writes[j]? = some b' ∧ b.Evolves b')
    (handed : List Nat) (hhanded : d'.handed = d.handed ++ handed) :
    d'.sunk = d.sunk ++ handed.filterMap (fun i => (d'.writes[i]?).map Write.event) := by
  rw [AuditDispatcher.sunk, hhanded, List.filterMap_append]
  congr 1
  refine List.filterMap_congr (fun i hi => ?_)
  have hrow := List.getElem?_eq_getElem (hbooks.handed i hi)
  obtain ⟨b', hb', hev⟩ := hkept i _ hrow
  rw [hrow, hb', Option.map_some, Option.map_some, hev.event]

theorem Mirrored.step (h : Mirrored s) (hbooks : s.audit.Accounting) (hstep : s.step l = some s') :
    Mirrored s' := by
  have hquiet : ∀ {audit : AuditDispatcher AuditEvent} {label},
      s.audit.step label = some audit → audit.handed = s.audit.handed →
      Mirrored { s with audit } := by
    intro audit label hlabel hhanded
    have hsunk := sunk_of_writes hbooks
      (fun j b hb => (AuditDispatcher.step_effect hlabel).evolves hb) [] (by simpa using hhanded)
    rw [List.filterMap_nil, List.append_nil] at hsunk
    exact ⟨h.numbers.trans hhanded.symm, h.events.trans hsunk.symm⟩
  cases l with
  | audit label =>
      simp only [LoggedDispatcher.step] at hstep
      split at hstep
      · exact absurd hstep (by simp)
      · next hsink =>
          obtain ⟨audit, hlabel, rfl⟩ := Option.map_eq_some_iff.mp hstep
          have hrows := AuditDispatcher.step_quiet hlabel (by simpa using hsink)
          exact hquiet hlabel hrows.handed
  | callSink i =>
      obtain ⟨w, hw, hstep⟩ := Option.bind_eq_some_iff.mp hstep
      obtain ⟨audit, hcall, hstep⟩ := Option.bind_eq_some_iff.mp hstep
      obtain rfl := Option.some.inj hstep
      have hlabel : s.audit.step (.callSink i .promise) = some audit := hcall
      obtain ⟨w', hw', _, rfl⟩ := AuditDispatcher.callSink_promise hcall
      obtain rfl := Option.some.inj (hw.symm.trans hw')
      have hsunk := sunk_of_writes hbooks
        (fun j b hb => (AuditDispatcher.step_effect hlabel).evolves hb) [i] rfl
      have hrow : (s.audit.writes.set i { w with work := .called })[i]? =
          some { w with work := .called } := Table.getElem?_set_of_some hw
      rw [List.filterMap_cons_some (by rw [hrow]; rfl), List.filterMap_nil] at hsunk
      constructor
      case numbers =>
        show (s.entries ++ [LogEntry.audit i w.event]).filterMap LogEntry.number = _
        rw [List.filterMap_append, h.numbers]
        rfl
      case events =>
        show (s.entries ++ [LogEntry.audit i w.event]).filterMap LogEntry.event = _
        rw [List.filterMap_append, h.events, hsunk]
        rfl
  | flush octets =>
      simp only [LoggedDispatcher.step] at hstep
      split at hstep
      · obtain rfl := Option.some.inj hstep
        exact ⟨h.numbers, h.events⟩
      · exact absurd hstep (by simp)
  | fail =>
      obtain rfl := Option.some.inj hstep
      exact ⟨h.numbers, h.events⟩
  | settle i ok =>
      simp only [LoggedDispatcher.step] at hstep
      split at hstep
      · obtain ⟨audit, hsettle, rfl⟩ := Option.map_eq_some_iff.mp hstep
        have hlabel : s.audit.step (.settle i ok) = some audit := hsettle
        obtain ⟨w, _, _, rfl⟩ := AuditDispatcher.settle_called hsettle
        exact hquiet hlabel rfl
      · exact absurd hstep (by simp)
  | callSinkClose =>
      obtain ⟨audit, hclose, rfl⟩ := Option.map_eq_some_iff.mp hstep
      have hlabel : s.audit.step (.callSinkClose .returned) = some audit := hclose
      exact hquiet hlabel (AuditDispatcher.callSinkClose_writes hclose).1
  | listening url | protocol_error =>
      obtain rfl := Option.some.inj hstep
      constructor
      case numbers =>
        show (s.entries ++ [_]).filterMap LogEntry.number = s.audit.handed
        rw [List.filterMap_append, h.numbers]
        exact List.append_nil _
      case events =>
        show (s.entries ++ [_]).filterMap LogEntry.event = s.audit.sunk
        rw [List.filterMap_append, h.events]
        exact List.append_nil _

theorem mirrored_of_reachable (h : (machine capacity).Reachable s) : Mirrored s :=
  h.invariant ⟨rfl, rfl⟩ (fun _ _ _ hr hs hstep =>
    hs.step (AuditDispatcher.Accounting.of_reachable (audit_reachable hr)) hstep)

/-- A line that is out stays out. -/
theorem isOut_mono {i : Nat} {entries : List LogEntry} {octets : Bytes} (h : s.isOut i = true)
    (hentries : s'.entries = s.entries ++ entries) (htext : s'.text = s.text ++ octets) :
    s'.isOut i = true := by
  rw [isOut, Option.any_eq_true] at h ⊢
  obtain ⟨line, hline, hstart⟩ := h
  refine ⟨line, ?_, ?_⟩
  · rw [hentries]
    exact upTo_append hline entries
  · rw [List.isPrefixOf_iff_prefix] at hstart ⊢
    rw [htext]
    exact hstart.trans (List.prefix_append _ _)

/-- A step adds entries and octets, within the lines while no write has failed, and a write that it
    settles well is out. -/
theorem step_out (h : s.step l = some s') (hfailed : s'.failed = false) : s.failed = false ∧
    ∃ entries octets, s'.entries = s.entries ++ entries ∧ s'.text = s.text ++ octets ∧
      (s.text <+: s.lines → s'.text <+: s'.lines) ∧
      ∀ (i : Nat) w', s'.audit.writes[i]? = some w' → w'.work = .fulfilled →
        (∃ w, s.audit.writes[i]? = some w ∧ w.work = .fulfilled) ∨ s.isOut i = true := by
  have hsame : ∀ {audit : AuditDispatcher AuditEvent},
      (∀ (i : Nat) w', audit.writes[i]? = some w' → w'.work = .fulfilled →
        (∃ w, s.audit.writes[i]? = some w ∧ w.work = .fulfilled) ∨ s.isOut i = true) →
      s.failed = false → s.failed = false ∧ ∃ entries octets,
        s.entries = s.entries ++ entries ∧ s.text = s.text ++ octets ∧
        (s.text <+: s.lines → s.text <+: s.lines) ∧
        ∀ (i : Nat) w', audit.writes[i]? = some w' → w'.work = .fulfilled →
          (∃ w, s.audit.writes[i]? = some w ∧ w.work = .fulfilled) ∨ s.isOut i = true :=
    fun hrows hno => ⟨hno, [], [], by simp, by simp, id, hrows⟩
  have hset : ∀ {i : Nat} {w row : Write AuditEvent}, s.audit.writes[i]? = some w →
      (row.work = .fulfilled → s.isOut i = true) → ∀ (j : Nat) w',
      (s.audit.writes.set i row)[j]? = some w' → w'.work = .fulfilled →
        (∃ w, s.audit.writes[j]? = some w ∧ w.work = .fulfilled) ∨ s.isOut j = true := by
    intro i w row hw hrow j w' hw' hwork
    rcases Table.getElem?_set_cases hw' with ⟨rfl, rfl⟩ | ⟨_, hold⟩
    · exact Or.inr (hrow hwork)
    · exact Or.inl ⟨w', hold, hwork⟩
  have hkeep : ∀ (i : Nat) w', s.audit.writes[i]? = some w' → w'.work = .fulfilled →
      (∃ w, s.audit.writes[i]? = some w ∧ w.work = .fulfilled) ∨ s.isOut i = true :=
    fun i w' hw' hwork => Or.inl ⟨w', hw', hwork⟩
  have hgrow : ∀ entry : LogEntry, s.text <+: s.lines →
      s.text <+: (s.entries ++ [entry]).flatMap LogEntry.line := by
    intro entry hstart
    rw [List.flatMap_append]
    exact hstart.trans (List.prefix_append _ _)
  cases l with
  | audit label =>
      simp only [LoggedDispatcher.step] at h
      split at h
      · exact absurd h (by simp)
      · next hsink =>
          obtain ⟨audit, hlabel, rfl⟩ := Option.map_eq_some_iff.mp h
          refine hsame (fun i w' hw' hwork => ?_) hfailed
          rcases (AuditDispatcher.step_quiet hlabel (by simpa using hsink)).rows i w' hw' with
            ⟨w, hw, _, hwork'⟩ | ⟨_, hnew | hnew⟩
          · exact Or.inl ⟨w, hw, hwork'.symm.trans hwork⟩
          · exact absurd (hwork.symm.trans hnew) (by simp)
          · exact absurd (hwork.symm.trans hnew) (by simp)
  | callSink i =>
      obtain ⟨w, hw, h⟩ := Option.bind_eq_some_iff.mp h
      obtain ⟨audit, hcall, h⟩ := Option.bind_eq_some_iff.mp h
      obtain rfl := Option.some.inj h
      obtain ⟨w', hw', _, rfl⟩ := AuditDispatcher.callSink_promise hcall
      exact ⟨hfailed, [_], [], rfl, (List.append_nil _).symm, hgrow _, hset hw' (by simp)⟩
  | flush octets =>
      simp only [LoggedDispatcher.step] at h
      split at h
      · next hout =>
          obtain rfl := Option.some.inj h
          replace hfailed : s.failed = false := hfailed
          rw [hfailed, Bool.false_or, List.isPrefixOf_iff_prefix] at hout
          exact ⟨hfailed, [], octets, (List.append_nil _).symm, rfl, fun _ => hout, hkeep⟩
      · exact absurd h (by simp)
  | fail =>
      obtain rfl := Option.some.inj h
      exact absurd hfailed (by simp)
  | settle i ok =>
      simp only [LoggedDispatcher.step] at h
      split at h
      · next hout =>
          obtain ⟨audit, hsettle, rfl⟩ := Option.map_eq_some_iff.mp h
          obtain ⟨w, hw, _, rfl⟩ := AuditDispatcher.settle_called hsettle
          replace hfailed : s.failed = false := hfailed
          rw [hfailed, Bool.false_or, Bool.and_eq_true] at hout
          exact hsame (hset hw (fun _ => hout.2)) hfailed
      · exact absurd h (by simp)
  | callSinkClose =>
      obtain ⟨audit, hclose, rfl⟩ := Option.map_eq_some_iff.mp h
      exact hsame ((AuditDispatcher.callSinkClose_writes hclose).2 ▸ hkeep) hfailed
  | listening url | protocol_error =>
      obtain rfl := Option.some.inj h
      exact ⟨hfailed, [_], [], rfl, (List.append_nil _).symm, hgrow _, hkeep⟩

theorem flushed_of_reachable (h : (machine capacity).Reachable s) (hfailed : s.failed = false) :
    Flushed s := by
  have key : s.failed = false → Flushed s := by
    refine h.invariant (I := fun s => s.failed = false → Flushed s) ?_ ?_
    · exact fun _ => ⟨List.nil_prefix, fun i w hw => absurd hw (by simp [machine])⟩
    · intro s l s' _ hs hstep hfailed'
      obtain ⟨hno, entries, octets, hentries, htext, hstart, hrows⟩ := step_out hstep hfailed'
      have hflushed := hs hno
      refine ⟨hstart hflushed.start, fun i w' hw' hwork => isOut_mono ?_ hentries htext⟩
      rcases hrows i w' hw' hwork with ⟨w, hw, hold⟩ | hout
      · exact hflushed.out i w hw hold
      · exact hout
  exact key hfailed

/-- What has reached standard error stays there. -/
theorem text_of_leads (h : (machine capacity).Leads s s') : s.text <+: s'.text := by
  refine h.rel (R := fun s s' => s.text <+: s'.text) (fun _ => List.prefix_rfl)
    (fun _ _ _ => List.IsPrefix.trans) ?_
  intro s l s' hstep
  replace hstep : s.step l = some s' := hstep
  cases l with
  | audit label =>
      simp only [step] at hstep
      split at hstep
      · exact absurd hstep (by simp)
      · obtain ⟨audit, _, rfl⟩ := Option.map_eq_some_iff.mp hstep
        exact List.prefix_rfl
  | callSink i =>
      obtain ⟨w, _, hstep⟩ := Option.bind_eq_some_iff.mp hstep
      obtain ⟨audit, _, hstep⟩ := Option.bind_eq_some_iff.mp hstep
      obtain rfl := Option.some.inj hstep
      exact List.prefix_rfl
  | flush octets =>
      simp only [step] at hstep
      split at hstep
      · obtain rfl := Option.some.inj hstep
        exact List.prefix_append _ _
      · exact absurd hstep (by simp)
  | settle i ok =>
      simp only [step] at hstep
      split at hstep
      · obtain ⟨audit, _, rfl⟩ := Option.map_eq_some_iff.mp hstep
        exact List.prefix_rfl
      · exact absurd hstep (by simp)
  | callSinkClose =>
      obtain ⟨audit, _, rfl⟩ := Option.map_eq_some_iff.mp hstep
      exact List.prefix_rfl
  | fail | listening url | protocol_error =>
      obtain rfl := Option.some.inj hstep
      exact List.prefix_rfl

/-! ### Reading the log -/

structure Logged (s : LoggedDispatcher) : Prop where
  /-- What is there is the start of the lines, and what is read are the first of the events that were
      handed to the sink. -/
  start : s.text <+: s.lines
  events : readLog s.text <+: s.audit.sunk.map AuditEvent.toJson
  /-- Once everything is out, it is whole lines, and all the events are read, in this order. -/
  whole : s.text = s.lines → (Lines.cut s.text).2 = [] ∧
    readLog s.text = s.audit.sunk.map AuditEvent.toJson
  /-- A write that was acknowledged is among them. -/
  acknowledged : ∀ (i : Nat) w, s.audit.writes[i]? = some w → w.delivery = .fulfilled →
    ∃ p : Nat, s.audit.handed[p]? = some i ∧ (readLog s.text)[p]? = some w.event.toJson

theorem sunk_getElem? {d : AuditDispatcher AuditEvent} (hbooks : d.Accounting) (p : Nat) :
    d.sunk[p]? = (d.handed[p]?).bind (fun i => (d.writes[i]?).map Write.event) := by
  have hall : ∀ handed : List Nat, (∀ i ∈ handed, i < d.writes.length) → ∀ p : Nat,
      (handed.filterMap (fun i => (d.writes[i]?).map Write.event))[p]? =
        (handed[p]?).bind (fun i => (d.writes[i]?).map Write.event) := by
    intro handed hin
    induction handed with
    | nil =>
        intro p
        rfl
    | cons i rest ih =>
        intro p
        have hrow := List.getElem?_eq_getElem (hin i List.mem_cons_self)
        rw [List.filterMap_cons_some (by rw [hrow]; rfl)]
        cases p with
        | zero =>
            rw [List.getElem?_cons_zero, List.getElem?_cons_zero, Option.bind_some, hrow]
            rfl
        | succ p =>
            rw [List.getElem?_cons_succ, List.getElem?_cons_succ]
            exact ih (fun j hj => hin j (List.mem_cons_of_mem _ hj)) p
  exact hall d.handed hbooks.handed p

theorem readLog_lines_eq (h : Mirrored s) :
    readLog s.lines = s.audit.sunk.map AuditEvent.toJson := by
  rw [lines, readLog_lines, h.events]

/-- A write whose line is out is read, in its place. -/
theorem read_of_isOut (h : Mirrored s) {i : Nat} (hout : s.isOut i = true) :
    ∃ p : Nat, s.audit.handed[p]? = some i ∧ p < (readLog s.text).length := by
  rw [isOut, Option.any_eq_true] at hout
  obtain ⟨octets, hoctets, hstart⟩ := hout
  rw [List.isPrefixOf_iff_prefix] at hstart
  obtain ⟨first, entry, rest, hentries, hnumber, rfl⟩ := lines_of_upTo hoctets
  refine ⟨(first.filterMap LogEntry.number).length, ?_, ?_⟩
  · rw [← h.numbers, hentries, List.filterMap_append, List.filterMap_cons_some hnumber,
      List.getElem?_append_right (Nat.le_refl _), Nat.sub_self, List.getElem?_cons_zero]
  · have hle := (readLog_mono hstart).length_le
    rw [readLog_lines, List.length_map, ← LogEntry.length_numbers, List.filterMap_append,
      List.filterMap_cons_some hnumber, List.length_append] at hle
    exact hle

/-- Whatever else the command writes there, and however the octets go out: while no write to the
    stream has failed, standard error tells the events apart from the other lines and from each other;
    what is read there stays, also where a write fails later; and once everything is out the same text
    comes from the same events in the same order. -/
theorem events_of_log (h : (machine capacity).Reachable s) (hfailed : s.failed = false) :
    Logged s ∧
    (∀ s', (machine capacity).Leads s s' → readLog s.text <+: readLog s'.text) ∧
    ∀ s', (machine capacity').Reachable s' → s.text = s.lines → s'.text = s'.lines →
      s'.text = s.text → s'.audit.sunk = s.audit.sunk := by
  have hbooks := AuditDispatcher.Accounting.of_reachable (audit_reachable h)
  have hmirrored := mirrored_of_reachable h
  have hflushed := flushed_of_reachable h hfailed
  have hevents : readLog s.text <+: s.audit.sunk.map AuditEvent.toJson := by
    rw [← readLog_lines_eq hmirrored]
    exact readLog_mono hflushed.start
  refine ⟨⟨hflushed.start, hevents, fun hall => ?_, fun i w hi hdelivery => ?_⟩,
    fun s' hlead => readLog_mono (text_of_leads hlead), fun s' h' hall hall' htext => ?_⟩
  · rw [hall]
    exact ⟨by rw [lines, cut_lines], readLog_lines_eq hmirrored⟩
  · obtain ⟨p, hp, hlt⟩ := read_of_isOut hmirrored (hflushed.out i w hi (hbooks.fulfilled hi hdelivery))
    refine ⟨p, hp, ?_⟩
    have hget := List.getElem?_eq_getElem hlt
    have hsame := Table.getElem?_of_prefix hevents hget
    rw [List.getElem?_map, sunk_getElem? hbooks, hp, Option.bind_some, hi] at hsame
    rw [hget, ← hsame]
    rfl
  · have hsame : s'.audit.sunk.map AuditEvent.toJson = s.audit.sunk.map AuditEvent.toJson := by
      rw [← readLog_lines_eq (mirrored_of_reachable h'), ← readLog_lines_eq hmirrored, ← hall,
        ← hall', htext]
    exact List.map_injective_iff.mpr (fun _ _ => AuditEvent.toJson_injective) hsame

def noteEvent : AuditEvent where
  time := 1767225600000
  requestId := js "00000000-0000-4000-8000-000000000001"
  actor := js "actor"
  tool := js "policy_status"
  outcome := .allowed
  durationMs := 0
  kind := some .tool

/-- An event between two other lines, acknowledged. -/
def mixedLines : List Label :=
  [.listening (js "http://127.0.0.1:3000/mcp"), .audit (.write noteEvent none), .callSink 0,
    .flush (LogEntry.listening (js "http://127.0.0.1:3000/mcp")).line, .flush noteEvent.line,
    .protocol_error, .settle 0 true, .audit (.resume 0)]

theorem events_of_log_mixedLines : ∃ s : LoggedDispatcher,
    (machine 64).exec (machine 64).init mixedLines = some s ∧ s.entries.length = 3 ∧
      s.audit.writes.map Write.delivery = [.fulfilled] ∧ Logged s ∧
      ∀ s', (machine 64).Leads s s' → readLog s.text <+: readLog s'.text := by
  have hrun : ((machine 64).exec (machine 64).init mixedLines).map (fun s =>
      (s.entries.length, s.audit.writes.map Write.delivery, s.failed)) =
      some (3, [.fulfilled], false) := by
    decide +kernel
  obtain ⟨s, hexec, hstate⟩ := Option.map_eq_some_iff.mp hrun
  simp only [Prod.mk.injEq] at hstate
  obtain ⟨hlength, hdelivery, hfailed⟩ := hstate
  obtain ⟨hlogged, hstays, _⟩ := @events_of_log 64 1 s (Machine.leads_of_exec hexec) hfailed
  exact ⟨s, hexec, hlength, hdelivery, hlogged, hstays⟩

end LoggedDispatcher

end SecureMcp
