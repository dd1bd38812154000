import Ironclaw.Network.Policy

/-! # Egress

`PolicyNetworkHttpEgress::execute` of `ironclaw_network/src/egress.rs`, with the resolver and the URL
targets it uses. URLs are parsed and joined by the `url` crate, which is not part of the repository
(`UrlCrate`); the answers of the resolver and of the transport may be different at every hop
(`World`). -/

namespace Ironclaw.Network

open Resources (U64 U32)

/-- What the code takes from the `url` crate, and the `Debug` form of a text, which depends on tables
of printable characters. -/
structure UrlCrate where
  Url : Type
  parse : String → Except String Url
  username : Url → String
  password : Url → Option String
  scheme : Url → String
  hostStr : Url → Option String
  portOrKnownDefault : Url → Option (BitVec 16)
  join : Url → String → Option Url
  asStr : Url → String
  debugStr : String → String

/-! ### Requests and responses -/

/-- What a request has cost. -/
structure NetworkUsage where
  requestBytes : U64
  responseBytes : U64
  resolvedIp : Option IpAddr

/-- What a request returns. -/
structure NetworkHttpResponse where
  status : BitVec 16
  headers : List (String × String)
  body : List (BitVec 8)
  usage : NetworkUsage

/-- Why a request failed, with the bytes until then. -/
inductive NetworkHttpError where
  | invalidUrl (reason : String) (requestBytes responseBytes : U64)
  | policyDenied (reason : String) (requestBytes responseBytes : U64)
  | dns (reason : String) (requestBytes responseBytes : U64)
  | transport (reason : String) (requestBytes responseBytes : U64)
  | responseBodyLimit (limit requestBytes responseBytes : U64)
      (partialResponse : Option NetworkHttpResponse)

/-- A request, with the policy it is made under. -/
structure NetworkHttpRequest where
  scope : ResourceScope
  method : NetworkMethod
  url : String
  headers : List (String × String)
  body : List (BitVec 8)
  policy : NetworkPolicy
  responseBodyLimit : Option U64
  timeoutMs : Option U32

/-- What the transport is given: the addresses are resolved and pinned. -/
structure NetworkTransportRequest where
  method : NetworkMethod
  url : String
  headers : List (String × String)
  body : List (BitVec 8)
  resolvedIps : List IpAddr
  responseBodyLimit : Option U64
  timeoutMs : Option U32

/-- What the outside answers at each hop: whether the worker of the resolver fails, the resolver, the
transport. -/
structure World where
  workerError : ℕ → Option String
  resolveIps : ℕ → String → BitVec 16 → Except NetworkHttpError (List IpAddr)
  transport : ℕ → NetworkTransportRequest → Except NetworkHttpError NetworkHttpResponse

/-! ### Texts of errors -/

def NetworkPolicyError.display (crate : UrlCrate) : NetworkPolicyError → String
  | .targetDenied _ _ => "network target is not allowed by policy"
  | .privateTargetDenied _ _ =>
    "network target is private, loopback, link-local, documentation, or otherwise host-local"
  | .egressEstimateRequired _ limit =>
    "network egress estimate is required when limit " ++ toString limit.val ++ " is configured"
  | .egressLimitExceeded _ estimated limit =>
    "network egress estimate " ++ toString estimated.val ++ " exceeds limit " ++ toString limit.val
  | .wildcardPrivateNetworkTarget _ pattern =>
    "private-network exemption " ++ crate.debugStr pattern ++ " must name one host, not a wildcard"

def NetworkHttpError.display : NetworkHttpError → String
  | .invalidUrl reason _ _ => "invalid network URL: " ++ reason
  | .policyDenied reason _ _ => "network policy denied request: " ++ reason
  | .dns reason _ _ => "network DNS resolution failed: " ++ reason
  | .transport reason _ _ => "network transport failed: " ++ reason
  | .responseBodyLimit limit _ _ _ => "network response body exceeded limit " ++ toString limit.val

def NetworkHttpError.responseBytes : NetworkHttpError → U64
  | .invalidUrl _ _ responseBytes | .policyDenied _ _ responseBytes | .dns _ _ responseBytes
  | .transport _ _ responseBytes | .responseBodyLimit _ _ responseBytes _ => responseBytes

/-! ### URL targets -/

/-- Why a URL is no target. -/
inductive NetworkTargetUrlError where
  | parse (reason : String)
  | userinfoDenied
  | unsupportedScheme (scheme : String)
  | missingHost

def NetworkTargetUrlError.display : NetworkTargetUrlError → String
  | .parse reason => "invalid URL: " ++ reason
  | .userinfoDenied => "URL userinfo is not allowed"
  | .unsupportedScheme scheme => "unsupported URL scheme " ++ scheme
  | .missingHost => "URL host is required"

section Url

variable (crate : UrlCrate)

def supportedScheme (scheme : String) : Except NetworkTargetUrlError NetworkScheme :=
  match scheme with
  | "http" => .ok .http
  | "https" => .ok .https
  | other => .error (.unsupportedScheme other)

/-- The target of a URL. -/
def networkTargetForUrl (raw : String) : Except NetworkTargetUrlError NetworkTarget := do
  let url ← (crate.parse raw).mapError .parse
  rejectIf (crate.username url ≠ "" ∨ (crate.password url).isSome = true) .userinfoDenied
  let scheme ← supportedScheme (crate.scheme url)
  let host ← okOr ((crate.hostStr url).filter fun host => Text.trim host ≠ "") .missingHost
  return ⟨scheme, Text.toAsciiLowercase host, crate.portOrKnownDefault url⟩

def networkTargetForHttpUrl (raw : String) (requestBytes : U64) :
    Except NetworkHttpError NetworkTarget :=
  (networkTargetForUrl crate raw).mapError fun error =>
    .invalidUrl error.display requestBytes .zero

def defaultPort : NetworkScheme → BitVec 16
  | .http => 80
  | .https => 443

/-- The URL that a redirect leads to. -/
def resolveRedirectUrl (base location : String) : Option String := do
  let base ← (crate.parse base).toOption
  let resolved ← crate.join base location
  if crate.scheme resolved = "http" ∨ crate.scheme resolved = "https" then
    some (crate.asStr resolved)
  else none

end Url

/-! ### The size of a request -/

def methodLabel : NetworkMethod → String
  | .get => "GET"
  | .post => "POST"
  | .put => "PUT"
  | .patch => "PATCH"
  | .delete => "DELETE"
  | .head => "HEAD"

def addLen (total : U64) (len : ℕ) : U64 := total.add ⟨min len (2 ^ 64 - 1), Nat.min_le_right _ _⟩

/-- An estimate of what the request sends. -/
def estimateHttpRequestBytes (method : NetworkMethod) (url : String)
    (headers : List (String × String)) (body : List (BitVec 8)) : U64 :=
  let start := [(methodLabel method).utf8ByteSize, " ".utf8ByteSize, url.utf8ByteSize,
    " HTTP/1.1\r\n".utf8ByteSize]
  let lines := headers.flatMap fun (name, value) =>
    [name.utf8ByteSize, ": ".utf8ByteSize, value.utf8ByteSize, "\r\n".utf8ByteSize]
  (start ++ lines ++ ["\r\n".utf8ByteSize, body.length]).foldl addLen .zero

/-! ### Addresses -/

/-- The host header is not for the caller to set. -/
def rejectCallerHostHeader (headers : List (String × String)) : Except NetworkHttpError Unit :=
  rejectIf ((headers.any fun header => Text.eqIgnoreAsciiCase (Text.trim header.1) "host") = true)
    (.policyDenied "caller-provided Host header is not allowed" .zero .zero)

/-- The addresses of a target: those it is given as, or those it resolves to. -/
def resolveTarget (resolveIps : String → BitVec 16 → Except NetworkHttpError (List IpAddr))
    (target : NetworkTarget) (requestBytes : U64) : Except NetworkHttpError (List IpAddr) :=
  match IpAddr.parse target.host with
  | some ip => .ok [ip]
  | none =>
    (resolveIps target.host (target.port.getD (defaultPort target.scheme))).mapError fun error =>
      .dns error.display requestBytes error.responseBytes

/-- The addresses of the target, all of them allowed. -/
def resolvePublicIps (resolveIps : String → BitVec 16 → Except NetworkHttpError (List IpAddr))
    (target : NetworkTarget) (policy : NetworkPolicy) (requestBytes : U64) :
    Except NetworkHttpError (List IpAddr) := do
  let resolved ← resolveTarget resolveIps target requestBytes
  rejectIf (resolved = [])
    (.dns "network target did not resolve to any IP addresses" requestBytes .zero)
  rejectIf ((resolved.any fun ip => privateIpDenied policy target ip) = true)
    (.policyDenied "network target resolves to a private or host-local IP" requestBytes .zero)
  return resolved

/-! ### The loop -/

/-- How many redirects are followed. -/
def maxRedirects : ℕ := 3

def isRedirectStatus (status : BitVec 16) : Bool :=
  status = 301 || status = 302 || status = 303 || status = 307 || status = 308

/-- Only reading methods follow redirects. -/
def followsRedirects : NetworkMethod → Bool
  | .get | .head => true
  | _ => false

/-- The first header of the name. -/
def findHeader (headers : List (String × String)) (name : String) : Option String :=
  (headers.find? fun header => Text.eqIgnoreAsciiCase header.1 name).map Prod.snd

/-- The task that resolves the target may itself fail. -/
def resolveInWorker (world : World) (hop : ℕ) (target : NetworkTarget) (policy : NetworkPolicy)
    (requestBytes : U64) : Except NetworkHttpError (List IpAddr) :=
  match world.workerError hop with
  | some error =>
    .error (.transport ("network resolver worker failed: " ++ error) requestBytes .zero)
  | none => resolvePublicIps (world.resolveIps hop) target policy requestBytes

/-- What a request is made into before it is handed to the transport. -/
def prepare (crate : UrlCrate) (world : World) (hop : ℕ) (request : NetworkHttpRequest) :
    Except NetworkHttpError NetworkTransportRequest := do
  let estimated :=
    estimateHttpRequestBytes request.method request.url request.headers request.body
  rejectCallerHostHeader request.headers
  let target ← networkTargetForHttpUrl crate request.url estimated
  let permit ← (authorizeStaticPolicy request.policy
    ⟨request.scope, target, request.method, some estimated⟩).mapError fun error =>
      .policyDenied (error.display crate) estimated .zero
  let resolved ← resolveInWorker world hop target request.policy estimated
  return { method := permit.method
           url := request.url
           headers := request.headers
           body := request.body
           resolvedIps := resolved
           responseBodyLimit := request.responseBodyLimit
           timeoutMs := request.timeoutMs }

/-- Where the response leads to, if a redirect is to be followed. -/
def redirectUrl (crate : UrlCrate) (request : NetworkHttpRequest) (response : NetworkHttpResponse) :
    Except NetworkHttpError (Option String) :=
  if isRedirectStatus response.status = false ∨ followsRedirects request.method = false then .ok none
  else
    match findHeader response.headers "location" with
    | none => .ok none
    | some location =>
      match resolveRedirectUrl crate request.url location with
      | some url => .ok (some url)
      | none =>
        .error (.invalidUrl "redirect Location is not a valid URL"
          (estimateHttpRequestBytes request.method request.url request.headers request.body)
          .zero)

/-- A call of the transport, with its answer. -/
structure Hop where
  request : NetworkTransportRequest
  response : Except NetworkHttpError NetworkHttpResponse

/-- The loop from some hop on; headers and body have been moved out of the request by then. -/
def executeFrom (crate : UrlCrate) (world : World) :
    ℕ → ℕ → NetworkHttpRequest → Except NetworkHttpError NetworkHttpResponse × List Hop
  | redirectsRemaining, hop, request =>
    match prepare crate world hop request with
    | .error error => (.error error, [])
    | .ok sent =>
      match world.transport hop sent with
      | .error error => (.error error, [⟨sent, .error error⟩])
      | .ok response =>
        match redirectsRemaining with
        | 0 => (.ok response, [⟨sent, .ok response⟩])
        | redirectsRemaining + 1 =>
          match redirectUrl crate request response with
          | .error error => (.error error, [⟨sent, .ok response⟩])
          | .ok none => (.ok response, [⟨sent, .ok response⟩])
          | .ok (some url) =>
            let (result, hops) := executeFrom crate world redirectsRemaining (hop + 1)
              { request with
                url := url
                headers := []
                body := [] }
            (result, ⟨sent, .ok response⟩ :: hops)

/-- `PolicyNetworkHttpEgress::execute`, with the calls of the transport it makes. -/
def execute (crate : UrlCrate) (world : World) (request : NetworkHttpRequest) :
    Except NetworkHttpError NetworkHttpResponse × List Hop :=
  executeFrom crate world maxRedirects 0 request

end Ironclaw.Network
