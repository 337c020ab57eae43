import DomainStatus.ErrorHandling.Causes
import DomainStatus.Lib.Lowercase

/-!
# The class of a failure

How a failed URL is classified, after `src/storage/failure`: `extract_error_type` and
`extract_http_status` look for known errors in the chain of an error, and fall back to the text of
its top layer. Read `extractErrorType_attach` first: the wrapping of `attach_failure_context` hides
the chain, so a class survives only where there is none to lose.
-/

namespace DomainStatus.Storage

open ErrorHandling Text

variable (properties : CaseProperties)

/-- The text is tested in lower case. -/
def lowerText (text : String) : List Char :=
  toLowercase properties text.toList

/-- The message has the word. -/
def mentions (msg : List Char) (word : String) : Bool :=
  contains msg word.toList

/-- The message names a record of name servers. -/
def mentionsNameserverRecord (msg : List Char) : Bool :=
  mentions msg "nameserver" || mentions msg " ns " || mentions msg " ns:" ||
    mentions msg ":ns " || "ns ".toList.isPrefixOf msg || " ns".toList.isSuffixOf msg

/-- The kind of record that the message names. Without one, the error counts as one of `NS`. -/
def dnsErrorTypeFromMessage (msg : List Char) : ErrorType :=
  if mentions msg "txt" then .dnsTxtLookupError
  else if mentions msg "mx" || mentions msg "mail" then .dnsMxLookupError
  else if mentionsNameserverRecord msg then .dnsNsLookupError
  else .dnsNsLookupError

/-- The message speaks of TLS. -/
def mentionsTls (msg : List Char) : Bool :=
  mentions msg "tls" || mentions msg "ssl" || mentions msg "certificate" ||
    mentions msg "handshake"

/-- The class of an error from the resolver. -/
def netErrorType (error : NetError) : ErrorType :=
  match categorizeResolveError error with
  | .timeout => .processUrlTimeout
  | .nxDomain | .noRecords | .other => dnsErrorTypeFromMessage (lowerText properties error.text)

/-- The class of an error from the HTTP client. -/
def reqwestErrorType (error : ReqwestError) : ErrorType :=
  let baseType := categorizeReqwestError error
  let msg := lowerText properties error.text
  if mentionsTls msg then .tlsCertificateError
  else if (baseType = .httpRequestRequestError ∨ baseType = .httpRequestConnectError) ∧
      mentions msg "timeout" then .httpRequestTimeoutError
  else baseType

/-- The class of an error by the text of its top layer. -/
def messageErrorType (msg : List Char) : ErrorType :=
  if mentions msg "request timeout" || mentions msg "http" && mentions msg "timeout" then
    .httpRequestTimeoutError
  else if mentions msg "timeout" then .processUrlTimeout
  else if mentions msg "connect" && (mentions msg "dns" || mentions msg "name resolution" ||
      mentions msg "failed to resolve") then .httpRequestConnectError
  else if mentions msg "dns" || mentions msg "resolve" || mentions msg "lookup failed" then
    dnsErrorTypeFromMessage msg
  else if mentionsTls msg then .tlsCertificateError
  else .httpRequestOtherError

/-- The resolver error that a cause may be. -/
def netError? : Cause → Option NetError
  | .net error => some error
  | _ => none

/-- The client error that a cause may be. -/
def reqwestError? : Cause → Option ReqwestError
  | .reqwest error => some error
  | _ => none

/-- The first error of the resolver decides, else the first one of the HTTP client, else the text of
the top layer. -/
def extractErrorType (error : Error) : ErrorType :=
  match error.chain.findSome? netError? with
  | some netError => netErrorType properties netError
  | none =>
      match error.chain.findSome? reqwestError? with
      | some reqwestError => reqwestErrorType properties reqwestError
      | none => messageErrorType (lowerText properties (error.toText Cause.toText))

/-- The status of an error from the HTTP client. -/
def causeStatus (cause : Cause) : Option ℕ :=
  ((reqwestError? cause).bind ReqwestError.status).map Fetch.StatusCode.code

/-- The status of the error itself, of the first cause in the chain that has one, or of the first
one in the chain of sources. -/
def extractHttpStatus (error : Error) : Option ℕ :=
  match error.bottom.bind causeStatus with
  | some status => some status
  | none =>
      match error.chain.findSome? causeStatus with
      | some status => some status
      | none => error.sources.findSome? causeStatus

/-- The context that `attach_failure_context` put at the bottom, else an empty one. -/
def extractFailureContext (error : Error) : FailureContext :=
  match error.bottom with
  | some (.failureContext context) => context
  | _ => { finalUrl := none, redirectChain := [], responseHeaders := [] }

/-- What `record_url_failure` stores about the class of a failure. -/
structure FailureClass where
  errorType : ErrorType
  httpStatus : Option ℕ
  deriving DecidableEq

/-- The kind of an error and the status that are recorded for it. -/
def recordedClass (error : Error) : FailureClass where
  errorType := extractErrorType properties error
  httpStatus := extractHttpStatus error

/-- An error as it is, and wrapped in each of the ways of the program. -/
def wrappings (error : Error) (context : FailureContext) : List Error :=
  let attached := attachFailureContext error context
  [error, error.context "Non-retriable error", attached, attached.context "Non-retriable error"]

/-- Wrapping changes neither the class of an error, nor what is recorded of it, nor hides the
context of its request. -/
structure ClassSurvives (error : Error) (context : FailureContext) : Prop where
  status_eq : ∀ wrapped ∈ wrappings error context,
    extractHttpStatus wrapped = extractHttpStatus error
  type_eq : ∀ wrapped ∈ wrappings error context,
    extractErrorType properties wrapped = extractErrorType properties error
  recorded_eq : ∀ wrapped ∈ wrappings error context,
    recordedClass properties wrapped = recordedClass properties error
  context_eq : ∀ values, extractFailureContext
    ((attachFailureContext error context).withContexts values) = context

/-- None of the predicates of the error holds. -/
structure NoKind (error : ReqwestError) : Prop where
  builder : error.isBuilder = false
  redirect : error.isRedirect = false
  status : error.isStatus = false
  timeout : error.isTimeout = false
  request : error.isRequest = false
  connect : error.isConnect = false
  body : error.isBody = false
  decode : error.isDecode = false

/-- The text has none of the words that a failure is known by. -/
def NamesNoFailure (msg : List Char) : Prop :=
  (∀ word ∈ ["timeout", "dns", "resolve", "lookup failed", "tls", "ssl", "certificate",
      "handshake"], mentions msg word = false) ∧
    (mentions msg "connect" = false ∨ mentions msg "name resolution" = false)

/-- The error has no status and no known kind, and its text names no failure. -/
structure NothingToLose (error : Error) : Prop where
  noNet : ∀ netError, Cause.net netError ∉ error.chain
  noStatus : ∀ reqwestError, Cause.reqwest reqwestError ∈ error.chain → reqwestError.status = none
  plainReqwest : ∀ reqwestError, error.chain.findSome? reqwestError? = some reqwestError →
    NoKind reqwestError ∧ mentionsTls (lowerText properties reqwestError.text) = false
  plainText : NamesNoFailure (lowerText properties (error.toText Cause.toText))

variable {properties} {error : Error} {context : FailureContext} {msg : List Char}

/-! ## The class by a text -/

/-- What mentions a word mentions its parts. -/
theorem mentions_of_infix (word part : String) (hpart : part.toList <:+: word.toList)
    (h : mentions msg part = false) : mentions msg word = false := by
  rw [mentions, ← Bool.not_eq_true, contains_iff] at h ⊢
  exact fun hword => h (hpart.trans hword)

/-- An error of the look-up has its own type. -/
theorem dnsErrorTypeFromMessage_ne_other :
    dnsErrorTypeFromMessage msg ≠ .httpRequestOtherError := by
  unfold dnsErrorTypeFromMessage
  repeat' split
  all_goals exact ErrorType.noConfusion

/-- The words for errors of TLS. -/
theorem mentionsTls_eq_false_iff :
    mentionsTls msg = false ↔ ∀ word ∈ ["tls", "ssl", "certificate", "handshake"],
      mentions msg word = false := by
  simp [mentionsTls, and_assoc]

/-- A message has no type of its own if it names no failure. -/
theorem messageErrorType_eq_other_iff :
    messageErrorType msg = .httpRequestOtherError ↔ NamesNoFailure msg := by
  have hrequest : mentions msg "timeout" = false → mentions msg "request timeout" = false :=
    mentions_of_infix "request timeout" "timeout" (by decide)
  have hfailed : mentions msg "resolve" = false → mentions msg "failed to resolve" = false :=
    mentions_of_infix "failed to resolve" "resolve" (by decide)
  constructor
  · intro h
    unfold messageErrorType at h
    split at h
    · cases h
    · split at h
      · cases h
      · split at h
        · cases h
        case isFalse htimeout hconnect =>
          split at h
          · exact absurd h dnsErrorTypeFromMessage_ne_other
          case isFalse hdns =>
            split at h
            · cases h
            case isFalse htls =>
              have htls' := mentionsTls_eq_false_iff.mp (Bool.eq_false_of_not_eq_true htls)
              simp only [Bool.or_eq_true, Bool.and_eq_true, not_or, not_and, Bool.not_eq_true,
                List.forall_mem_cons, List.not_mem_nil, false_implies, implies_true,
                and_true] at htimeout hconnect hdns htls'
              refine ⟨by simp [htimeout, hdns, htls'], ?_⟩
              cases hword : mentions msg "connect" with
              | false => exact Or.inl rfl
              | true => exact Or.inr (hconnect hword).1.2
  · intro h
    obtain ⟨hnames, hconnect⟩ := h
    have htls : mentionsTls msg = false := mentionsTls_eq_false_iff.mpr fun word hword =>
      hnames word (by revert hword; revert word; decide)
    simp only [List.forall_mem_cons] at hnames
    obtain ⟨htimeout, hdns, hresolve, hlookup, -⟩ := hnames
    unfold messageErrorType
    rw [htls, htimeout, hdns, hresolve, hlookup, hrequest htimeout, hfailed hresolve]
    rcases hconnect with hconnect | hconnect <;> simp [hconnect]

/-! ## The class by the chain -/

/-- A network error has its own type. -/
theorem netErrorType_ne_other (netError : NetError) :
    netErrorType properties netError ≠ .httpRequestOtherError := by
  unfold netErrorType
  split
  · exact ErrorType.noConfusion
  all_goals exact dnsErrorTypeFromMessage_ne_other

/-- When an error of the client has no type of its own. -/
theorem categorizeReqwestError_eq_other_iff {reqwestError : ReqwestError}
    (hstatus : reqwestError.status = none) :
    categorizeReqwestError reqwestError = .httpRequestOtherError ↔ NoKind reqwestError := by
  unfold categorizeReqwestError
  rw [hstatus]
  constructor
  · intro h
    dsimp only at h
    repeat' split at h
    all_goals cases h
    constructor <;> simp_all
  · intro h
    simp [h.builder, h.redirect, h.status, h.timeout, h.request, h.connect, h.body, h.decode]

/-- When the type of a client error stays unknown. -/
theorem reqwestErrorType_eq_other_iff {reqwestError : ReqwestError}
    (hstatus : reqwestError.status = none) :
    reqwestErrorType properties reqwestError = .httpRequestOtherError ↔
      NoKind reqwestError ∧ mentionsTls (lowerText properties reqwestError.text) = false := by
  rw [← categorizeReqwestError_eq_other_iff hstatus]
  unfold reqwestErrorType
  dsimp only
  by_cases htls : mentionsTls (lowerText properties reqwestError.text) = true
  · rw [if_pos htls, htls]
    exact iff_of_false ErrorType.noConfusion fun h => Bool.noConfusion h.2
  · rw [if_neg htls, and_iff_left (Bool.eq_false_of_not_eq_true htls)]
    split
    case isTrue htimeout =>
      refine iff_of_false ErrorType.noConfusion fun h => ?_
      rw [h] at htimeout
      rcases htimeout.1 with hbase | hbase <;> cases hbase
    case isFalse => exact Iff.rfl

/-- A cause has a status only if an error of the client has one. -/
theorem causeStatus_eq_none_iff {cause : Cause} :
    causeStatus cause = none ↔
      ∀ reqwestError, cause = .reqwest reqwestError → reqwestError.status = none := by
  cases cause <;> simp [causeStatus, reqwestError?]

/-- No status is found exactly if no error of the HTTP client in the chain has one. -/
theorem extractHttpStatus_eq_none_iff :
    extractHttpStatus error = none ↔
      ∀ reqwestError, Cause.reqwest reqwestError ∈ error.chain → reqwestError.status = none := by
  have hchain : error.chain.findSome? causeStatus = none ↔
      ∀ reqwestError, Cause.reqwest reqwestError ∈ error.chain → reqwestError.status = none := by
    rw [List.findSome?_eq_none_iff]
    constructor
    · intro h reqwestError hmem
      exact causeStatus_eq_none_iff.mp (h _ hmem) reqwestError rfl
    · intro h cause hmem
      refine causeStatus_eq_none_iff.mpr fun reqwestError heq => h reqwestError ?_
      exact heq ▸ hmem
  rw [← hchain]
  constructor
  · intro h
    unfold extractHttpStatus at h
    split at h
    · cases h
    · split at h
      · cases h
      · assumption
  · intro h
    have hall := List.findSome?_eq_none_iff.mp h
    have hbottom : error.bottom.bind causeStatus = none := by
      rw [Option.bind_eq_none_iff]
      exact fun cause hcause => hall cause (Anyhow.Error.mem_chain_of_bottom hcause)
    have hsources : error.sources.findSome? causeStatus = none := by
      rw [List.findSome?_eq_none_iff]
      exact fun cause hcause => hall cause (Anyhow.Error.sources_subset_chain error hcause)
    unfold extractHttpStatus
    rw [hbottom, h]
    exact hsources

/-! ## Wrapped errors -/

/-- The text of the retry loop names no failure. -/
theorem messageErrorType_nonRetriable :
    messageErrorType (lowerText properties "Non-retriable error") = .httpRequestOtherError := by
  rw [lowerText, toLowercase_of_ascii (by decide)]
  decide

/-- The type of an error is the last resort exactly if nothing about it is known. -/
theorem extractErrorType_eq_other_iff (hstatus : ∀ reqwestError,
      Cause.reqwest reqwestError ∈ error.chain → reqwestError.status = none) :
    extractErrorType properties error = .httpRequestOtherError ↔
      (∀ netError, Cause.net netError ∉ error.chain) ∧
      (∀ reqwestError, error.chain.findSome? reqwestError? = some reqwestError →
        NoKind reqwestError ∧ mentionsTls (lowerText properties reqwestError.text) = false) ∧
      (error.chain.findSome? reqwestError? = none →
        NamesNoFailure (lowerText properties (error.toText Cause.toText))) := by
  have hnet : error.chain.findSome? netError? = none ↔
      ∀ netError, Cause.net netError ∉ error.chain := by
    rw [List.findSome?_eq_none_iff]
    constructor
    · intro h netError hmem
      have := h _ hmem
      cases this
    · intro h cause hmem
      cases cause <;> first | rfl | exact absurd hmem (h _)
  unfold extractErrorType
  cases hfound : error.chain.findSome? netError? with
  | some netError =>
      refine iff_of_false (netErrorType_ne_other netError) fun h => ?_
      rw [hnet.mpr h.1] at hfound
      cases hfound
  | none =>
      rw [← hnet, hfound]
      cases hreqwest : error.chain.findSome? reqwestError? with
      | some reqwestError =>
          obtain ⟨cause, hmem, hcause⟩ := List.exists_of_findSome?_eq_some hreqwest
          have heq : cause = .reqwest reqwestError := by
            cases cause with
            | reqwest other => exact congrArg Cause.reqwest (Option.some.inj hcause)
            | _ => cases hcause
          subst heq
          show reqwestErrorType properties reqwestError = .httpRequestOtherError ↔ _
          rw [reqwestErrorType_eq_other_iff (hstatus reqwestError hmem)]
          simp
      | none => simp [messageErrorType_eq_other_iff]

/-- The ways in which the code wraps an error. -/
theorem mem_wrappings {wrapped : Error} :
    wrapped ∈ wrappings error context ↔
      wrapped = error ∨ wrapped = error.context "Non-retriable error" ∨
        wrapped = attachFailureContext error context ∨
        wrapped = (attachFailureContext error context).context "Non-retriable error" := by
  simp [wrappings]

/-- What is attached hides the chain of the error: its text is all that is left of it. -/
theorem extractErrorType_attach :
    extractErrorType properties (attachFailureContext error context) =
      messageErrorType (lowerText properties (error.toText Cause.toText)) := rfl

/-- A wrapped context has no type of its own. -/
theorem extractErrorType_attach_context :
    extractErrorType properties
        ((attachFailureContext error context).context "Non-retriable error") =
      .httpRequestOtherError :=
  messageErrorType_nonRetriable

/-- An attached context hides the status. -/
theorem extractHttpStatus_attach :
    extractHttpStatus (attachFailureContext error context) = none := rfl

/-- The attached context is found under later ones. -/
theorem extractFailureContext_withContexts (values : List (Anyhow.Error.ContextValue Cause)) :
    extractFailureContext ((attachFailureContext error context).withContexts values) = context := by
  unfold extractFailureContext
  rw [Anyhow.Error.bottom_withContexts]
  rfl

/-- The class of a failure survives the wrapping exactly if there is none to lose: no error of the
resolver and no status in the chain, no known kind of the first error of the HTTP client, and no
failure named by a text. The context of the request survives always. -/
theorem failure_class_survives_iff (properties : CaseProperties) (error : Error)
    (context : FailureContext) :
    ClassSurvives properties error context ↔ NothingToLose properties error := by
  constructor
  · intro h
    have hstatus := h.status_eq (attachFailureContext error context) (by simp [mem_wrappings])
    rw [extractHttpStatus_attach] at hstatus
    have hnoStatus := extractHttpStatus_eq_none_iff.mp hstatus.symm
    have htype := h.type_eq ((attachFailureContext error context).context "Non-retriable error")
      (by simp [mem_wrappings])
    rw [extractErrorType_attach_context] at htype
    obtain ⟨hnet, hreqwest, -⟩ := (extractErrorType_eq_other_iff hnoStatus).mp htype.symm
    have htext := h.type_eq (attachFailureContext error context) (by simp [mem_wrappings])
    rw [← htype, extractErrorType_attach] at htext
    exact ⟨hnet, hnoStatus, hreqwest, messageErrorType_eq_other_iff.mp htext⟩
  · intro h
    have hnone : extractHttpStatus error = none := extractHttpStatus_eq_none_iff.mpr h.noStatus
    have hother : extractErrorType properties error = .httpRequestOtherError :=
      (extractErrorType_eq_other_iff h.noStatus).mpr
        ⟨h.noNet, h.plainReqwest, fun _ => h.plainText⟩
    have hstatus : ∀ wrapped ∈ wrappings error context,
        extractHttpStatus wrapped = extractHttpStatus error := by
      intro wrapped hmem
      rw [hnone]
      rcases mem_wrappings.mp hmem with rfl | rfl | rfl | rfl
      · exact hnone
      · exact extractHttpStatus_eq_none_iff.mpr h.noStatus
      · rfl
      · rfl
    have htype : ∀ wrapped ∈ wrappings error context,
        extractErrorType properties wrapped = extractErrorType properties error := by
      intro wrapped hmem
      rw [hother]
      rcases mem_wrappings.mp hmem with rfl | rfl | rfl | rfl
      · exact hother
      · -- The chain is that of the error, and only the text is another one.
        refine Iff.mpr (extractErrorType_eq_other_iff h.noStatus)
          ⟨h.noNet, h.plainReqwest, fun _ => ?_⟩
        exact messageErrorType_eq_other_iff.mp messageErrorType_nonRetriable
      · exact messageErrorType_eq_other_iff.mpr h.plainText
      · exact extractErrorType_attach_context
    refine ⟨hstatus, htype, fun wrapped hmem => ?_, extractFailureContext_withContexts⟩
    unfold recordedClass
    rw [hstatus wrapped hmem, htype wrapped hmem]

/-- The status error that the HTTP client makes of a response with status 502. -/
def badGatewayError : ReqwestError where
  status := some ⟨502, by decide, by decide⟩
  isBuilder := false
  isRedirect := false
  isStatus := true
  isTimeout := false
  isRequest := false
  isConnect := false
  isBody := false
  isDecode := false
  text := "HTTP status server error (502 Bad Gateway) for url (https://a.test/)"

/-- The status of a 502 is lost when the context of its request is attached. -/
theorem failure_status_lost :
    ¬∃ properties : CaseProperties, ∀ (error : Error) (context : FailureContext),
      ClassSurvives properties error context := by
  rintro ⟨properties, h⟩
  have hsurvives := h ((Anyhow.Error.ofStd (.reqwest badGatewayError) []).context
    "HTTP request failed for https://a.test/") ⟨some "https://a.test/", ["https://a.test/"], []⟩
  have hstatus := hsurvives.status_eq _ (mem_wrappings.mpr (Or.inr (Or.inr (Or.inl rfl))))
  cases hstatus

end DomainStatus.Storage
