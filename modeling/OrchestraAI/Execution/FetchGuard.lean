import OrchestraAI.Execution.Constraints
import OrchestraAI.Execution.IpRanges
import OrchestraAI.Library.AsyncProgram
import OrchestraAI.Library.LabelledSystem

/-! # Guarded fetches

`fetchUrlGuarded` and `fetchHop` of `execution/environment.js` against a network that answers what
it likes: any records for a host, any chain of redirects. The parsers of URLs and of addresses are
the platform's.
-/

namespace OrchestraAI.Execution

open AsyncProgram LabelledSystem TextReplace

structure Url where
  protocol : Text
  username : Text
  password : Text
  hostname : Text
  pathname : Text
  /-- `toString()`. -/
  href : Text
  deriving DecidableEq

structure Platform where
  /-- `new URL(raw)`. -/
  parseUrl : Text → Option Url
  /-- `new URL(location, base)`. -/
  resolveUrl : Text → Url → Option Url
  /-- `net.isIP`. -/
  isIP : Text → Nat
  toLowerCase : Text → Text
  /-- `toString('utf8')`. -/
  decode : List UInt8 → Text

structure FetchError where
  message : Text
  code : String
  deriving DecidableEq

structure NetworkPolicy where
  networkAccess : String
  networkAllowlist : List Text

variable (platform : Platform)

def stripDot (h : Text) : Text := if ['.'].isSuffixOf h then h.dropLast else h

/-- `replace(/^\[(.*)\]$/, '$1')`. -/
def stripBrackets (h : Text) : Text :=
  let inner := (h.drop 1).dropLast
  if 2 ≤ h.length ∧ ['['].isPrefixOf h ∧ [']'].isSuffixOf h ∧ inner.all (!isLineEnd ·) then inner
  else h

def normalizeHostname (raw : Text) : Text := stripBrackets (stripDot (platform.toLowerCase raw))

def blockedHostnames : List String :=
  ["localhost", "metadata.google.internal", "metadata.google", "instance-data",
    "instance-data-compute"]

def blockedSuffixes : List String :=
  [".local", ".internal", ".lan", ".localhost", ".localdomain", ".invalid", ".test"]

/-- `METADATA_HOST_RES`. -/
def isMetadataHost (h : Text) : Bool :=
  "metadata.".toList.isPrefixOf h || "instance-data".toList.isPrefixOf h ||
    h = "169.254.169.254".toList

def blockedHostnameReason (host : Text) : Option String :=
  let h := normalizeHostname platform host
  if h = [] then some "empty-host"
  else if includes h "..".toList then some "double-dot-hostname"
  else if h ∈ blockedHostnames.map String.toList then some "blocked-hostname"
  else if blockedSuffixes.any fun suffix =>
    h = suffix.toList.drop 1 || suffix.toList.isSuffixOf h then some "private-suffix"
  else if isMetadataHost h then some "metadata-host"
  else none

def traverses (text : Text) : Bool :=
  ["..", "%2e%2e", "%252e%252e"].any fun part => includes text part.toList

def denied (message : Text) : FetchError := ⟨message, "denied"⟩

def blockedTarget (reason : String) (host : Text) : FetchError :=
  denied ("blocked IP target (".toList ++ reason.toList ++ "): ".toList ++ host)

def refusesHost (host : Text) : Option FetchError :=
  if platform.isIP host ≠ 0 then
    (blockedIpReason platform.isIP host).map fun reason => blockedTarget reason host
  else
    (blockedHostnameReason platform host).map fun reason =>
      denied ("blocked host (".toList ++ reason.toList ++ "): ".toList ++ host)

def networkMode (policy : Option NetworkPolicy) : String :=
  match policy with
  | some policy => if policy.networkAccess = "" then "disabled" else policy.networkAccess
  | none => "disabled"

def inAllowlist (policy : Option NetworkPolicy) (host : Text) : Bool :=
  ((policy.map NetworkPolicy.networkAllowlist).getD []).any fun a =>
    host = normalizeHostname platform a || ('.' :: normalizeHostname platform a).isSuffixOf host

def refusesNetwork (policy : Option NetworkPolicy) (host : Text) : Option FetchError :=
  if networkMode policy = "disabled" then some (denied "network access disabled by policy".toList)
  else if networkMode policy = "allowlist" ∧ !inAllowlist platform policy host then
    some (denied ("host not in network allowlist: ".toList ++ host))
  else none

def parseAndGuardUrl (raw : Text) (policy : Option NetworkPolicy) : Except FetchError Url :=
  match platform.parseUrl raw with
  | none => .error ⟨"invalid URL".toList, "bad_params"⟩
  | some u =>
    let host := normalizeHostname platform u.hostname
    if u.protocol ≠ "http:".toList ∧ u.protocol ≠ "https:".toList then
      .error (denied ("protocol not allowed: ".toList ++ u.protocol))
    else if u.username ≠ [] ∨ u.password ≠ [] then
      .error (denied "URLs with embedded credentials are rejected".toList)
    else if host = [] then .error ⟨"URL has no hostname".toList, "bad_params"⟩
    else if traverses u.pathname || (traverses raw || includes raw "%2f".toList ||
        includes raw "@".toList) then
      .error (denied "blocked URL pathname traversal (..)".toList)
    else
      match refusesHost platform host with
      | some e => .error e
      | none =>
        match refusesNetwork platform policy host with
        | some e => .error e
        | none => .ok u

def schemeAllowedForPolicy (protocol : Text) (policy : Option NetworkPolicy) : Bool :=
  protocol = "https:".toList || (policy.map NetworkPolicy.networkAccess) = some "enabled"

inductive NetEvent
  /-- The resolver has answered for a host. -/
  | answered (host : Text) (records : List Text)
  /-- `doRequest`. -/
  | requested (url : Url)
  /-- The connection of the last request was made to an address: the platform resolves the name
  again for it. -/
  | connected (address : Text)
  deriving DecidableEq

inductive FetchWait
  | lookup (host : Text)
  | response
  | body

inductive NetResponse
  | failed (message : Text)
  | head (statusCode : Nat) (location : Text)

structure BodyEnd where
  chunks : List (List UInt8)
  /-- The message of the error of the stream. -/
  failure : Option Text

abbrev FetchWait.Answer : FetchWait → Type
  | .lookup _ => Option (List Text)
  | .response => Text × NetResponse
  | .body => BodyEnd

structure FetchResult where
  url : Text
  status : Nat
  body : Text
  bytes : Nat
  deriving DecidableEq

abbrev Fetch (α : Type) := Prog NetEvent (fun _ => Unit) FetchWait FetchWait.Answer FetchError α

def happens (e : NetEvent) : Fetch Unit := .op e fun _ => .done ()

def wait (w : FetchWait) : Fetch w.Answer := .await w .done

def ofExcept {α : Type} : Except FetchError α → Fetch α
  | .ok a => .done a
  | .error e => .throw e

def blockedRecord (host address : Text) (reason : String) : FetchError :=
  denied ("hostname ".toList ++ host ++ " resolves to blocked address ".toList ++ address ++
    " (".toList ++ reason.toList ++ ")".toList)

def guardRecords (host : Text) : List Text → Except FetchError Unit
  | [] => .ok ()
  | address :: records =>
    match blockedIpReason platform.isIP address with
    | some reason => .error (blockedRecord host address reason)
    | none => guardRecords host records

def resolveAndGuardHost (hostname : Text) : Fetch (List Text) :=
  let host := normalizeHostname platform hostname
  if platform.isIP host ≠ 0 then
    match blockedIpReason platform.isIP host with
    | some reason => .throw (blockedTarget reason host)
    | none => .done [host]
  else
    wait (.lookup host) >>= fun records =>
      match records with
      | none => .throw (denied ("DNS resolution failed for ".toList ++ host ++
          ": cannot verify target is public".toList))
      | some records =>
        happens (.answered host records) >>= fun _ =>
          if records = [] then .throw (denied ("no DNS records for ".toList ++ host))
          else ofExcept ((guardRecords platform host records).map fun _ => records)

/-- `consumeBounded`. -/
def consumeBounded (maxBytes : Nat) (body : BodyEnd) : Except FetchError (Text × Nat) :=
  let bytes := (body.chunks.map List.length).sum
  if maxBytes < bytes then
    .error ⟨"response exceeds ".toList ++ (toString maxBytes).toList ++ " byte limit".toList,
      "oversized"⟩
  else
    match body.failure with
    | some message => .error ⟨"fetch failed: ".toList ++ message, "fetch_failure"⟩
    | none => .ok (platform.decode body.chunks.flatten, bytes)

def isRedirect (statusCode : Nat) : Bool := statusCode ∈ [301, 302, 303, 307, 308]

/-- `/timed out/i`. -/
def saysTimedOut (message : Text) : Bool :=
  includes (message.map Char.toLower) "timed out".toList

variable (policy : Option NetworkPolicy) (maxBytes : Nat)

/-- The three gates of a target: its shape, its scheme and the addresses of its host. -/
def guardTarget (refusal : String) (raw : Text) : Fetch Url :=
  ofExcept (parseAndGuardUrl platform raw policy) >>= fun guarded =>
    if !schemeAllowedForPolicy guarded.protocol policy then .throw (denied refusal.toList)
    else resolveAndGuardHost platform guarded.hostname >>= fun _ => .done guarded

def doRequest (guarded : Url) : Fetch NetResponse :=
  happens (.requested guarded) >>= fun _ =>
    wait .response >>= fun answer =>
      happens (.connected answer.1) >>= fun _ => .done answer.2

def fetchHop (left : Nat) (target : Url) : Fetch FetchResult :=
  guardTarget platform policy
      "redirect to non-https URL is not allowed under restricted network policy" target.href >>=
    fun guarded => doRequest guarded >>= fun
      | .failed message => .throw ⟨"fetch failed: ".toList ++ message,
          if saysTimedOut message then "timeout" else "fetch_failure"⟩
      | .head statusCode location =>
        if isRedirect statusCode && location ≠ [] then
          match left with
          | 0 => .throw ⟨"too many redirects".toList, "redirect_limit"⟩
          | left + 1 =>
            match platform.resolveUrl location guarded with
            | none => .throw ⟨"Invalid URL".toList, "ERR_INVALID_URL"⟩
            | some next => fetchHop left next
        else
          wait .body >>= fun body =>
            ofExcept ((consumeBounded platform maxBytes body).map fun read =>
              ⟨guarded.href, statusCode, read.1, read.2⟩)

def fetchUrlGuarded (maxRedirects : Nat) (rawUrl : Text) : Fetch FetchResult :=
  guardTarget platform policy "only https URLs are allowed under restricted network policy" rawUrl >>=
    fun startUrl => fetchHop platform policy maxBytes maxRedirects startUrl

end OrchestraAI.Execution
