import SecureMcp.Config
import SecureMcp.Lib.Collections
import SecureMcp.Lib.SchemaIssues

set_option autoImplicit false

/-! # What a failing start says (`src/startup-diagnostics.ts`)

An issue of the configuration may quote any of its keys and values. What is printed of it is a field name
of the schema and one of a few reasons, and every field and every message of the schema has its entry
here. -/

namespace SecureMcp

/-- `parts.join(separator)`. -/
def joinWith (separator : JsString) (parts : List JsString) : JsString := separator.intercalate parts

namespace StartupDiagnostic

def fields : List JsString :=
  [js "transport", js "workspace", js "allowedTools", js "readOnly", js "localScopes", js "audit",
    js "audit.socketPath", js "audit.maxPending", js "audit.timeoutMs", js "limits",
    js "limits.maxConcurrent", js "limits.timeoutMs", js "limits.maxInputBytes",
    js "limits.maxInputElements", js "limits.maxOutputBytes", js "limits.shutdownMs", js "http",
    js "http.host", js "http.port", js "http.resource", js "http.issuer", js "http.jwksUrl",
    js "http.allowedOrigins", js "http.algorithms", js "http.maxTokenAgeSeconds", js "api",
    js "api.url", js "api.maxBytes"]

def customReasons : List (JsString × JsString) :=
  [(js "HTTP requires at least three pending audit records",
      js "must be at least 3 for HTTP admission"),
    (js "HTTP requires an external issuer, JWKS URL, and resource URL",
      js "requires an HTTP configuration block with resource, issuer and jwksUrl"),
    (js "Resource URL must end with /mcp", js "resource URL path must be /mcp"),
    (js "Use HTTPS, or HTTP on loopback for a local lab; no credentials, query, or fragment",
      js "use HTTPS (or loopback HTTP), without credentials, query or fragment")]

/-- `customReasons.get(message)`. -/
def customReason (message : JsString) : Option JsString :=
  (customReasons.find? (fun entry => entry.1 == message)).map Prod.snd

/-- `issue.path.filter((part) => typeof part !== 'number').join('.')`. -/
def pathText (path : List PathKey) : JsString := joinWith (js ".") (path.filterMap PathKey.text)

def field (issue : ZodIssue) : JsString :=
  if fields.contains (pathText issue.path) then pathText issue.path else js "config"

/-- The initial value of `reason`. -/
def unspecified : JsString := js "invalid setting; check the configuration reference"

def reason (issue : ZodIssue) : JsString :=
  match issue.code with
  | .unrecognized_keys => js "contains an unknown setting; check the supported field names"
  | .invalid_type => js "has the wrong type or is missing a required value"
  | .invalid_value => js "must use a documented supported option"
  | .too_small | .too_big => js "is outside the supported size or numeric range"
  | .invalid_format => js "has an invalid format; check the configuration reference"
  | .custom => (customReason issue.message).getD unspecified
  | .other => unspecified

/-- One element of `messages`. -/
def line (issue : ZodIssue) : JsString := field issue ++ js ": " ++ reason issue

/-- `messages`, in the order of insertion. -/
def messages (issues : List ZodIssue) : List JsString := ((issues.take 8).map line).eraseDups

def configurationDiagnostic (issues : List ZodIssue) : JsString :=
  if (joinWith (js "; ") (messages issues)).isEmpty then js "config: invalid configuration"
  else joinWith (js "; ") (messages issues)

inductive Area
  | config
  | workspace
deriving DecidableEq, Repr

def Area.text : Area → JsString
  | .config => js "config"
  | .workspace => js "workspace"

/-- `code` is that of the error, if it has one. -/
def filesystemDiagnostic (area : Area) (code : Option JsString) : JsString :=
  area.text ++ js ": " ++
    if code = some (js "ENOENT") then js "does not exist; check the selected path"
    else if code = some (js "EACCES") ∨ code = some (js "EPERM") then
      js "is not accessible; check directory and file permissions"
    else if code = some (js "ENOTDIR") then
      if area = .config then
        js "has a parent component that is not a directory; check the selected path"
      else js "requires a directory; check the selected path"
    else if code = some (js "EISDIR") then js "must be a readable JSON file, not a directory"
    else js "could not be opened; check the selected path and permissions"

example : configurationDiagnostic
    [⟨.unrecognized_keys, [.name (js "http")], js "Unrecognized key: \"password\""⟩,
      ⟨.invalid_type, [.name (js "secret")], js "Invalid input"⟩] =
    js ("http: contains an unknown setting; check the supported field names; " ++
      "config: has the wrong type or is missing a required value") := by decide +kernel

/-! ## The vocabulary -/

/-- The reasons there are. -/
def reasons : List JsString :=
  [js "contains an unknown setting; check the supported field names",
    js "has the wrong type or is missing a required value",
    js "must use a documented supported option", js "is outside the supported size or numeric range",
    js "has an invalid format; check the configuration reference", unspecified] ++
    customReasons.map Prod.snd

theorem field_mem (issue : ZodIssue) : field issue ∈ js "config" :: fields := by
  unfold field
  split
  · next hin => exact List.mem_cons_of_mem _ (List.contains_iff_mem.mp hin)
  · exact List.mem_cons_self

theorem customReason_mem {message text : JsString} (h : customReason message = some text) :
    text ∈ customReasons.map Prod.snd := by
  obtain ⟨entry, hentry, rfl⟩ := Option.map_eq_some_iff.mp h
  exact List.mem_map_of_mem (List.mem_of_find?_eq_some hentry)

theorem reason_mem (issue : ZodIssue) : reason issue ∈ reasons := by
  unfold reason
  cases issue.code with
  | custom =>
      show (customReason issue.message).getD unspecified ∈ reasons
      cases hcustom : customReason issue.message with
      | none => exact List.mem_append_left _ (by simp)
      | some text => exact List.mem_append_right _ (customReason_mem hcustom)
  | _ => exact List.mem_append_left _ (by simp)

/-- A line of `configurationDiagnostic`. -/
def IsLine (text : JsString) : Prop :=
  ∃ name ∈ js "config" :: fields, ∃ why ∈ reasons, text = name ++ js ": " ++ why

theorem isLine_line (issue : ZodIssue) : IsLine (line issue) :=
  ⟨field issue, field_mem issue, reason issue, reason_mem issue, rfl⟩

theorem IsLine.ne_nil {text : JsString} (h : IsLine text) : text ≠ [] := by
  obtain ⟨name, _, why, _, rfl⟩ := h
  have hcolon : js ": " ≠ [] := by decide
  simp [hcolon]

/-- What `configurationDiagnostic` can say: different lines, eight at most. -/
structure Says (text : JsString) (lines : List JsString) : Prop where
  text : text = joinWith (js "; ") lines
  some : lines ≠ []
  few : lines.length ≤ 8
  nodup : lines.Nodup
  isLine : ∀ line ∈ lines, IsLine line

theorem length_eraseDups_le (items : List JsString) : items.eraseDups.length ≤ items.length := by
  induction hn : items.length using Nat.strongRecOn generalizing items with
  | ind n ih =>
      cases items with
      | nil => simp
      | cons first rest =>
          rw [List.eraseDups_cons, List.length_cons]
          have hle := List.length_filter_le (fun item => !item == first) rest
          rw [List.length_cons] at hn
          have hrest := ih (rest.filter (fun item => !item == first)).length (by omega) _ rfl
          omega

theorem mem_messages {issues : List ZodIssue} {text : JsString} (h : text ∈ messages issues) :
    ∃ issue ∈ issues.take 8, line issue = text := by
  obtain ⟨issue, hissue, hline⟩ := List.mem_map.mp (List.mem_eraseDups.mp h)
  exact ⟨issue, hissue, hline⟩

theorem line_mem_messages {issues : List ZodIssue} {issue : ZodIssue} (h : issue ∈ issues.take 8) :
    line issue ∈ messages issues :=
  List.mem_eraseDups.mpr (List.mem_map_of_mem h)

theorem joinWith_ne_nil {separator first : JsString} {rest : List JsString} (h : first ≠ []) :
    joinWith separator (first :: rest) ≠ [] := by
  cases rest with
  | nil => simpa [joinWith, List.intercalate] using h
  | cons second later =>
      intro hnil
      rw [joinWith, List.intercalate, List.intersperse_cons_cons, List.flatten_cons] at hnil
      exact h (List.append_eq_nil_iff.mp hnil).1

/-- Whatever the issues are. -/
theorem says_of_issues {issues : List ZodIssue} (h : issues ≠ []) :
    Says (configurationDiagnostic issues) (messages issues) := by
  have hsome : messages issues ≠ [] := by
    obtain ⟨first, rest, rfl⟩ := List.exists_cons_of_ne_nil h
    have hfirst : first ∈ (first :: rest).take 8 := by simp
    exact List.ne_nil_of_mem (line_mem_messages hfirst)
  have hlines : ∀ text ∈ messages issues, IsLine text := by
    intro text htext
    obtain ⟨issue, _, rfl⟩ := mem_messages htext
    exact isLine_line issue
  refine ⟨?_, hsome, ?_, List.nodup_eraseDups _, hlines⟩
  · obtain ⟨first, rest, heq⟩ := List.exists_cons_of_ne_nil hsome
    have hne : joinWith (js "; ") (messages issues) ≠ [] := by
      rw [heq]
      exact joinWith_ne_nil (hlines first (by rw [heq]; exact List.mem_cons_self)).ne_nil
    rw [configurationDiagnostic, if_neg (by rw [List.isEmpty_iff]; exact hne)]
  · refine Nat.le_trans (length_eraseDups_le _) ?_
    rw [List.length_map, List.length_take]
    exact Nat.min_le_left _ _

/-! ## The schema has its entries -/

/-- A place of the schema: its root, or one of the fields. -/
def Known (names : List JsString) : Prop :=
  (names.isEmpty || fields.contains (joinWith (js ".") names)) = true

instance (names : List JsString) : Decidable (Known names) :=
  inferInstanceAs (Decidable (_ = true))

/-- A message of the schema. -/
def Explained (message : JsString) : Prop := (customReason message).isSome = true

instance (message : JsString) : Decidable (Explained message) := inferInstanceAs (Decidable (_ = true))

open Config

section Parts

variable (urls : Urls) {Q : List JsString → Prop} {M : JsString → Prop} (hroot : Q [])

include hroot

theorem name_reports : name.Reports Q M := (Schema.reports_plain hroot _).silent hroot _

theorem scope_reports : scope.Reports Q M := (Schema.reports_plain hroot _).silent hroot _

theorem anyUrl_reports : (anyUrl urls).Reports Q M :=
  ((Schema.reports_plain hroot _).silent hroot _).becomes _

theorem url_reports : (url urls).Reports Q Explained := by
  refine (anyUrl_reports urls hroot).check _ hroot ?_
  rintro text ⟨⟩
  decide +kernel

end Parts

theorem audit_reports : audit.Reports (fun names => Known (js "audit" :: names)) Explained := by
  refine Fields.Reports.strictObject ?_ (by decide +kernel)
  refine (((Fields.Reports.field ?_).map AuditConfig.mk).seq (.field ?_)).seq (.field ?_)
  · have hroot : Known [js "audit", js "socketPath"] := by decide +kernel
    exact (((Schema.reports_plain hroot _).silent hroot _).silent hroot _).optional
  · exact (Schema.reports_int (by decide +kernel) _ _).withDefault _
  · exact (Schema.reports_int (by decide +kernel) _ _).withDefault _

theorem limits_reports : limits.Reports (fun names => Known (js "limits" :: names)) Explained := by
  refine Fields.Reports.strictObject ?_ (by decide +kernel)
  refine ((((((Fields.Reports.field ?_).map LimitsConfig.mk).seq (.field ?_)).seq (.field ?_)).seq
    (.field ?_)).seq (.field ?_)).seq (.field ?_)
  all_goals exact (Schema.reports_int (by decide +kernel) _ _).withDefault _

theorem http_reports (urls : Urls) :
    (http urls).Reports (fun names => Known (js "http" :: names)) Explained := by
  refine Fields.Reports.strictObject ?_ (by decide +kernel)
  refine ((((((((Fields.Reports.field ?_).map HttpConfig.mk).seq (.field ?_)).seq (.field ?_)).seq
    (.field ?_)).seq (.field ?_)).seq (.field ?_)).seq (.field ?_)).seq (.field ?_)
  · exact (Schema.reports_plain (by decide +kernel) _).withDefault _
  · exact (Schema.reports_int (by decide +kernel) _ _).withDefault _
  · exact url_reports urls (by decide +kernel)
  · exact url_reports urls (by decide +kernel)
  · exact url_reports urls (by decide +kernel)
  · have hroot : Known [js "http", js "allowedOrigins"] := by decide +kernel
    exact ((((anyUrl_reports urls hroot).silent hroot _).array hroot).silent hroot _).withDefault _
  · have hroot : Known [js "http", js "algorithms"] := by decide +kernel
    exact ((((Schema.reports_plain hroot _).array hroot).silent hroot _).silent hroot _).withDefault _
  · exact (Schema.reports_int (by decide +kernel) _ _).withDefault _

theorem api_reports (urls : Urls) :
    (api urls).Reports (fun names => Known (js "api" :: names)) Explained := by
  refine Fields.Reports.strictObject ?_ (by decide +kernel)
  refine ((Fields.Reports.field ?_).map ApiConfig.mk).seq (.field ?_)
  · exact url_reports urls (by decide +kernel)
  · exact (Schema.reports_int (by decide +kernel) _ _).withDefault _

theorem shape_reports (urls : Urls) : (shape urls).Reports Known Explained := by
  refine Fields.Reports.strictObject ?_ (by decide +kernel)
  refine (((((((((Fields.Reports.field ?_).map ParsedConfig.mk).seq (.field ?_)).seq (.field ?_)).seq
    (.field ?_)).seq (.field ?_)).seq (.field ?_)).seq (.field ?_)).seq (.field ?_)).seq (.field ?_)
  · exact (Schema.reports_plain (by decide +kernel) _).withDefault _
  · have hroot : Known [js "workspace"] := by decide +kernel
    exact ((Schema.reports_plain hroot _).silent hroot _).withDefault _
  · have hroot : Known [js "allowedTools"] := by decide +kernel
    exact (((name_reports hroot).array hroot).silent hroot _).withDefault _
  · exact (Schema.reports_plain (by decide +kernel) _).withDefault _
  · exact audit_reports.prefault _
  · have hroot : Known [js "localScopes"] := by decide +kernel
    exact (((scope_reports hroot).array hroot).silent hroot _).withDefault _
  · exact limits_reports.prefault _
  · exact (http_reports urls).optional
  · exact (api_reports urls).optional

/-- An issue of a rule across fields. -/
theorem within_of_ite {p : Prop} [Decidable p] {issue other : Issue}
    (h : issue ∈ if p then [other] else []) (hother : other.Within Known Explained) :
    issue.Within Known Explained := by
  split at h
  · exact List.mem_singleton.mp h ▸ hother
  · exact absurd h (by simp)

theorem superRefine_reports (urls : Urls) (value : ParsedConfig) :
    ∀ issue ∈ superRefine urls value, issue.Within Known Explained := by
  have hknown : ∀ (path : List PathKey) (message : JsString),
      Known (path.filterMap PathKey.text) → Explained message →
      Issue.Within Known Explained ⟨path, some message⟩ := by
    intro path message hpath hmessage
    exact ⟨hpath, fun text htext => Option.some.inj htext ▸ hmessage⟩
  intro issue hissue
  rcases List.mem_append.mp hissue with hissue | hissue
  · rcases List.mem_append.mp hissue with hissue | hissue
    · exact within_of_ite hissue (hknown _ _ (by decide +kernel) (by decide +kernel))
    · exact within_of_ite hissue (hknown _ _ (by decide +kernel) (by decide +kernel))
  · exact within_of_ite hissue (hknown _ _ (by decide +kernel) (by decide +kernel))

theorem configSchema_reports (urls : Urls) : (configSchema urls).Reports Known Explained :=
  (shape_reports urls).refine (superRefine_reports urls)

/-! ## A configuration that is refused -/

/-- The place of an issue is named as the schema names it, and what its author said is not lost. -/
structure Told (issue : Issue) (zod : ZodIssue) : Prop where
  field : field zod = if issue.names.isEmpty then js "config" else joinWith (js ".") issue.names
  reason : ∀ text, issue.message = some text → customReason text = some (reason zod)

theorem told_of_within {issue : Issue} {zod : ZodIssue} (h : issue.Within Known Explained)
    (hrenders : Renders issue zod) : Told issue zod := by
  have hpath : pathText zod.path = joinWith (js ".") issue.names := by
    rw [hrenders.path]
    rfl
  refine ⟨?_, fun text htext => ?_⟩
  · rw [StartupDiagnostic.field, hpath]
    have hknown := h.names
    unfold Known at hknown
    cases hempty : issue.names.isEmpty with
    | true =>
        have hout : fields.contains (joinWith (js ".") []) = false := by decide +kernel
        rw [List.isEmpty_iff.mp hempty, hout]
        rfl
    | false =>
        rw [hempty, Bool.false_or] at hknown
        rw [hknown]
        rfl
  · obtain ⟨hcode, hmessage⟩ := hrenders.custom text htext
    obtain ⟨why, hwhy⟩ := Option.isSome_iff_exists.mp (h.message text htext)
    rw [StartupDiagnostic.reason, hcode, hmessage]
    show customReason text = some ((customReason text).getD unspecified)
    rw [hwhy]
    rfl

/-- An issue is one of the schema, and whichever of them it is, it is told as that. -/
structure Accounted (env : ConfigEnv) (zod : ZodIssue) : Prop where
  known : ∃ issue, (configSchema env.toUrls).reports issue ∧ Renders issue zod
  told : ∀ issue, (configSchema env.toUrls).reports issue → Renders issue zod → Told issue zod

/-- A configuration is refused for a reason, and every issue of it is accounted for. -/
theorem accounted_of_parseConfig {env : ConfigEnv} {raw : Raw} {issues : List ZodIssue}
    (hcontract : Contract env) (h : parseConfig env raw = .error issues) :
    issues ≠ [] ∧ ∀ zod ∈ issues, Accounted env zod := by
  unfold parseConfig at h
  split at h
  · cases h
  · next refused hrefused =>
      obtain rfl := Except.error.inj h
      refine ⟨hcontract.ne_nil raw refused hrefused, fun zod hzod => ?_⟩
      exact ⟨hcontract.reports raw refused hrefused zod hzod,
        fun issue hissue => told_of_within (configSchema_reports env.toUrls issue hissue)⟩

end StartupDiagnostic

end SecureMcp
