import Ironclaw.Events.RuntimeEvent

/-! # The stored form of a runtime event

Events cross the storage boundary redacted: the writer and the reader of
`ironclaw_event_log/src/runtime_event.rs` both bound the duration and replace texts that do not look
like a classification. The reader also validates every id again. A summary that is cut off on the
way out may be replaced on the way in, so what a replay returns is `stored`, the writer's form read
back, and not in general the event that was appended. -/

namespace Ironclaw

def isAsciiAlphanumeric (c : Char) : Bool :=
  isAsciiLowercase c || isAsciiDigit c || ('A' ≤ c && c ≤ 'Z')

/-! ### Labels and kinds -/

def unclassifiedErrorKind : String := "Unclassified"

def unclassifiedHookLabel : String := "unclassified"

def maxRuntimeEventDurationMs : ℕ := 24 * 60 * 60 * 1000

def isErrorKindChar (c : Char) : Bool := isAsciiLowercase c || isAsciiDigit c || c == '_'

def startsLowercase (segment : List Char) : Bool := segment.head?.any isAsciiLowercase

def isSafeErrorKind (value : String) : Bool :=
  value != "" && value.utf8ByteSize ≤ 64 && startsLowercase value.toList &&
    value.toList.all (fun c => isErrorKindChar c || c == '.' || c == ':') &&
    (value.toList.splitOnP fun c => c == '.' || c == ':').all fun segment =>
      !segment.isEmpty && (String.ofList segment).utf8ByteSize ≤ 24 && startsLowercase segment

def sanitizeErrorKind (errorKind : String) : String :=
  if isSafeErrorKind errorKind then errorKind else unclassifiedErrorKind

def isSafeTelemetryLabel (value : String) : Bool :=
  value != "" && value.utf8ByteSize ≤ 48 && startsLowercase value.toList &&
    value.toList.all isErrorKindChar

def sanitizeTelemetryLabel (label : String) : String :=
  if isSafeTelemetryLabel label then label else unclassifiedHookLabel

def sanitizeHookLabel (label : String) : String := sanitizeTelemetryLabel label

def isSafeHookId (value : String) : Bool :=
  value.utf8ByteSize == 64 && value.toList.all fun c => isAsciiDigit c || ('a' ≤ c && c ≤ 'f')

def sanitizeHookId (hookId : String) : String :=
  if isSafeHookId hookId then hookId else unclassifiedHookLabel

/-! ### Summaries -/

def inputEncodeHumanSummary : String := "the tool input could not be encoded"

def redactedErrorSummary : String := "the tool failure details were redacted"

def workspaceFileErrorSummary : String := "can't access your workspace file"

def containsInternalWorkspaceFilename (lower : String) : Bool :=
  [".system", "agents.md", "bootstrap.md", "heartbeat.md", "identity.md", "memory.md", "soul.md",
    "tools.md", "user.md"].any (Text.contains lower ·)

def isPhraseBoundary : Option Char → Bool
  | some c => !isAsciiAlphanumeric c && c != '_'
  | none => true

/-- An occurrence of the phrase with a boundary on either side; `before` is the character that
precedes the text. -/
def boundedPhraseFrom (phrase : List Char) (before : Option Char) : List Char → Bool
  | [] => phrase.isEmpty && isPhraseBoundary before
  | c :: rest =>
    (phrase.isPrefixOf (c :: rest) && isPhraseBoundary before &&
      isPhraseBoundary ((c :: rest).drop phrase.length).head?) ||
      boundedPhraseFrom phrase (some c) rest

-- none of the phrases overlaps itself, so the disjoint matches the source walks are all matches
def containsBoundedPhrase (value phrase : String) : Bool :=
  boundedPhraseFrom phrase.toList none value.toList

def mentionsWorkspaceFileContext (lower : String) : Bool :=
  ["workspace file", "workspace path", "filesystem", "file not found", "file failed", "read_file",
    "write_file", "list_dir", "path workspace"].any (containsBoundedPhrase lower ·)

def commonFilenameExtensions : List String :=
  ["bash", "css", "csv", "env", "html", "js", "json", "jsonl", "lock", "log", "md", "py", "rs",
    "sh", "toml", "ts", "txt", "yaml", "yml"]

/-- `rsplit_once`: what stands before and after the last `sep`. -/
def rsplitOnce (text : List Char) (sep : Char) : Option (List Char × List Char) :=
  match text.splitOn sep with
  | [] | [_] => none
  | first :: second :: more =>
    some ([sep].intercalate ((first :: second :: more).dropLast),
      (second :: more).getLast (List.cons_ne_nil _ _))

def isFilenameLikeToken (token : List Char) : Bool :=
  match rsplitOnce token '.' with
  | none => false
  | some (stem, extension) =>
    !stem.isEmpty && !extension.isEmpty && (String.ofList extension).utf8ByteSize ≤ 8 &&
      decide (String.ofList extension ∈ commonFilenameExtensions) &&
      stem.any isAsciiAlphanumeric && extension.all isAsciiAlphanumeric

def isTokenQuote (c : Char) : Bool :=
  decide (c ∈ ['\x22', '\x27', '(', ')', ',', ':', ';', '[', ']', '\x7b', '\x7d'])

def containsFilenameLikeToken (lower : String) : Bool :=
  (lower.toList.splitOnP Text.isWhitespace).any fun token =>
    isFilenameLikeToken ((token.dropWhile isTokenQuote).rdropWhile isTokenQuote)

def isWorkspaceFileErrorSummary (value lower : String) : Bool :=
  if value = workspaceFileErrorSummary then false
  else if containsInternalWorkspaceFilename lower then true
  else if mentionsWorkspaceFileContext lower && containsFilenameLikeToken lower then true
  else mentionsWorkspaceFileContext lower &&
    ["failed", "not found", "denied", "missing", "can't access", "cannot access"].any
      (Text.contains lower ·)

def isSecretLikeToken (token : String) : Bool :=
  ["sk-", "sk-ant-", "ghp_", "github_pat_", "gho_", "ghu_", "ghs_", "ghr_", "glpat-", "gcp-",
    "ya29.", "aiza"].any (Text.startsWith token ·) ||
    (16 ≤ token.utf8ByteSize && (Text.startsWith token "akia" || Text.startsWith token "asia"))

def containsSecretLikeToken (lower : String) : Bool :=
  (lower.toList.splitOnP fun c =>
    !isAsciiAlphanumeric c && !(c == '-' || c == '_' || c == '.')).any fun token =>
      isSecretLikeToken (String.ofList token)

def isForbiddenSummaryChar (c : Char) : Bool :=
  isControl c || 0x7F < c.val ||
    decide (c ∈ ['\x7b', '\x7d', '[', ']', '\x60', '<', '>', '/', '\\'])

def forbiddenSummaryPhrases : List String :=
  ["access token", "api key", "api_key", "apikey", "authorization:", "bearer ", "password",
    "passwd", "provider error", "raw runtime", "secret", "stack trace", "traceback"]

def isSafeErrorSummary (value lower : String) : Bool :=
  !value.toList.any isForbiddenSummaryChar &&
    !forbiddenSummaryPhrases.any (Text.contains lower ·) && !containsSecretLikeToken lower

/-- The longest beginning of at most `bytes` bytes that ends between characters. -/
def takeBytes (bytes : ℕ) : List Char → List Char
  | [] => []
  | c :: rest => if c.utf8Size ≤ bytes then c :: takeBytes (bytes - c.utf8Size) rest else []

def truncateErrorSummary (value : String) : String :=
  if value.utf8ByteSize ≤ 512 then value
  else String.ofList (takeBytes (512 - 3) value.toList) ++ "..."

def sanitizeErrorSummary (value : String) : Option String :=
  let trimmed := Text.trim value
  let lower := Text.toAsciiLowercase trimmed
  if trimmed = "" then none
  else if trimmed = inputEncodeHumanSummary then some inputEncodeHumanSummary
  else if isWorkspaceFileErrorSummary trimmed lower then some workspaceFileErrorSummary
  else if !isSafeErrorSummary trimmed lower then some redactedErrorSummary
  else some (truncateErrorSummary trimmed)

/-! ### Writing and reading -/

/-- The stored form has the fields of an event. -/
abbrev RuntimeEventWire := RuntimeEvent

namespace RuntimeEvent

/-- The guard that both directions apply. -/
def redact (event : RuntimeEvent) : RuntimeEvent where
  eventId := event.eventId
  timestamp := event.timestamp
  kind := event.kind
  scope := event.scope
  parentInvocationId := event.parentInvocationId
  capabilityId := event.capabilityId
  provider := event.provider
  runtime := event.runtime
  processId := event.processId
  outputBytes := event.outputBytes
  durationMs := event.durationMs.map (min · maxRuntimeEventDurationMs)
  errorKind := event.errorKind.map sanitizeErrorKind
  errorSummary := event.errorSummary.bind sanitizeErrorSummary
  hookId := event.hookId.map sanitizeHookId
  hookPoint := event.hookPoint.map sanitizeHookLabel
  hookTrustClass := event.hookTrustClass.map sanitizeHookLabel
  hookDecision := event.hookDecision.map sanitizeHookLabel
  hookFailureCategory := event.hookFailureCategory.map sanitizeHookLabel
  hookFailureDisposition := event.hookFailureDisposition.map sanitizeHookLabel
  recoveryStage := event.recoveryStage.map sanitizeTelemetryLabel
  recoveryClass := event.recoveryClass.map sanitizeTelemetryLabel
  recoveryDisposition := event.recoveryDisposition.map sanitizeTelemetryLabel

def serialize (event : RuntimeEvent) : RuntimeEventWire := event.redact

end RuntimeEvent

/-- An id that is absent, or that its constructor accepts. -/
def checkOptional {α β : Type} (new : String → Except HostApiError β) (text : α → String) :
    Option α → Except HostApiError Unit
  | none => .ok ()
  | some id => (new (text id)).map fun _ => ()

/-- Reading a scope constructs its ids again, in the order of the fields. -/
def ResourceScope.revalidate (scope : ResourceScope) : Except HostApiError Unit := do
  let _ ← TenantId.new scope.tenantId.asStr
  let _ ← UserId.new scope.userId.asStr
  checkOptional AgentId.new AgentId.asStr scope.agentId
  checkOptional ProjectId.new ProjectId.asStr scope.projectId
  checkOptional MissionId.new MissionId.asStr scope.missionId
  checkOptional ThreadId.new ThreadId.asStr scope.threadId

/-- Reading an event constructs its ids again. -/
def RuntimeEvent.revalidate (event : RuntimeEvent) : Except HostApiError Unit := do
  event.scope.revalidate
  let _ ← CapabilityId.new event.capabilityId.asStr
  checkOptional ExtensionId.new ExtensionId.asStr event.provider

def runtimeEventFromTrustedJson (payload : RuntimeEventWire) : Except HostApiError RuntimeEvent := do
  payload.revalidate
  return payload.redact

namespace RuntimeEvent

/-- Every id of the event is one its constructor accepts. -/
def Valid (event : RuntimeEvent) : Prop := event.revalidate = .ok ()

/-- The form in which a stored event is read back. -/
def stored (event : RuntimeEvent) : RuntimeEvent := event.redact.redact

variable {event : RuntimeEvent}

@[simp] theorem stored_scope : event.stored.scope = event.scope := rfl

end RuntimeEvent

theorem ResourceScope.revalidate_ids {scope : ResourceScope} (h : scope.revalidate = .ok ()) :
    ValidScopeId scope.tenantId.asStr ∧ ValidScopeId scope.userId.asStr ∧
      ∀ agent ∈ scope.agentId, ValidScopeId agent.asStr := by
  obtain ⟨tenant, htenant, h⟩ := bind_eq_ok.1 h
  obtain ⟨user, huser, h⟩ := bind_eq_ok.1 h
  obtain ⟨_, hagent, -⟩ := bind_eq_ok.1 h
  obtain ⟨_, htenant, -⟩ := bind_eq_ok.1 htenant
  obtain ⟨_, huser, -⟩ := bind_eq_ok.1 huser
  refine ⟨validateScopeId_eq_ok.1 htenant, validateScopeId_eq_ok.1 huser, ?_⟩
  intro agent hmem
  rw [Option.mem_def.1 hmem, checkOptional] at hagent
  cases hnew : AgentId.new agent.asStr with
  | error e => rw [hnew] at hagent; cases hagent
  | ok id =>
    obtain ⟨_, hvalid, -⟩ := bind_eq_ok.1 hnew
    exact validateScopeId_eq_ok.1 hvalid

end Ironclaw
