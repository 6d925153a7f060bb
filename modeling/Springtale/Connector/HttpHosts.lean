import Mathlib.Data.List.Basic
import Springtale.Lib.SplitText

/-! The HTTP connector's client: the host of a URL is looked up in the allow-list before the call,
and the library follows redirects within the call. -/
namespace Springtale.Connector.Http

structure HttpConfig where
  allowedHosts : List String
  defaultHeaders : List (String × String)
  timeoutSecs : Nat

def HttpConfig.isHostAllowed (config : HttpConfig) (host : String) : Bool :=
  config.allowedHosts.any (· == host)

inductive HttpError where
  | requestFailed (message : String)
  | parseError (message : String)
  | hostNotAllowed (host : String)
  | invalidUrl (message : String)
  | invalidConfig (message : String)
  | reqwest (message : String)

structure HttpResponse where
  status : Nat
  headers : List (String × String)
  body : String

inductive Method where
  | get
  | post
deriving DecidableEq

structure Request (Url : Type) where
  method : Method
  url : Url
  headers : List (String × String)
  body : Option String

/-- What a server answers to one request: a failure of the transport, or a response whose body is
read or fails to be. -/
inductive Answer where
  | failed (message : String)
  | response (status : Nat) (headers : List (String × String)) (body : Except String String)

/-- What the HTTP library makes of URLs and headers: a location is resolved against the URL that
answered, and only some headers are carried to another URL. -/
structure Reqwest (Url : Type) where
  parse : String → Except String Url
  hostStr : Url → Option String
  join : Url → String → Option Url
  headerName : String → Except String Unit
  headerValue : String → Except String Unit
  prepare : List (String × String) → List (String × String) → Except String (List (String × String))
  carried : Url → Url → List (String × String) → List (String × String)
  tooManyRedirects : String
  timedOut : String

/-- What a `ClientBuilder` sets. -/
structure ClientBuilder where
  timeout : Nat
  connectTimeout : Nat
  redirectLimit : Nat
  defaultHeaders : List (String × String)

/-- `safe_http::builder`. -/
def builder : ClientBuilder where
  timeout := 30
  connectTimeout := 5
  redirectLimit := 5
  defaultHeaders := []

structure HttpClient where
  inner : ClientBuilder
  config : HttpConfig

section Client

variable {Url : Type} (lib : Reqwest Url)

def checkDefaultHeaders : List (String × String) → Except HttpError Unit
  | [] => .ok ()
  | (key, value) :: headers =>
    match lib.headerName key with
    | .error e => .error (.invalidConfig ("invalid header name '" ++ key ++ "': " ++ e))
    | .ok () =>
      match lib.headerValue value with
      | .error e => .error (.invalidConfig ("invalid header value for '" ++ key ++ "': " ++ e))
      | .ok () => checkDefaultHeaders headers

/-- `HttpClient::new`; `built` is what building the library's client says. -/
def HttpClient.new (built : Except String Unit) (config : HttpConfig) :
    Except HttpError HttpClient :=
  match checkDefaultHeaders lib config.defaultHeaders with
  | .error e => .error e
  | .ok () =>
    match built with
    | .error e => .error (.requestFailed ("failed to build HTTP client: " ++ e))
    | .ok () =>
      .ok ⟨{ builder with
        timeout := config.timeoutSecs, defaultHeaders := config.defaultHeaders }, config⟩

def HttpClient.validateHost (client : HttpClient) (url : String) : Except HttpError Url :=
  match lib.parse url with
  | .error e => .error (.invalidUrl (url ++ ": " ++ e))
  | .ok parsed =>
    match lib.hostStr parsed with
    | none => .error (.invalidUrl ("no host in URL: " ++ url))
    | some host =>
      if client.config.isHostAllowed host then .ok parsed else .error (.hostNotAllowed host)

def isRedirect (status : Nat) : Bool :=
  status = 301 || status = 302 || status = 303 || status = 307 || status = 308

/-- Where an answer sends the client, if anywhere. -/
def redirectTarget (url : Url) : Answer → Option Url
  | .failed _ => none
  | .response status headers _ =>
    if isRedirect status then (headers.lookup "location").bind (lib.join url) else none

/-- The next request: 301, 302 and 303 make it a GET without a body. -/
def redirected (request : Request Url) (status : Nat) (url : Url) : Request Url :=
  let headers := lib.carried request.url url request.headers
  if status = 307 || status = 308 then { request with url, headers }
  else ⟨.get, url, headers, none⟩

def toHttpResponse (status : Nat) (headers : List (String × String)) :
    Except String String → Except HttpError HttpResponse
  | .ok body => .ok ⟨status, headers, body⟩
  | .error e => .error (.parseError ("failed to read response body: " ++ e))

/-- `send` under `Policy::limited`: the requests that go out as the answers come in, with so many
redirects left, and the outcome. -/
def send : Nat → Request Url → List Answer → List (Request Url) × Except HttpError HttpResponse
  | _, request, [] => ([request], .error (.reqwest lib.timedOut))
  | _, request, .failed e :: _ => ([request], .error (.reqwest e))
  | left, request, .response status headers body :: answers =>
    match redirectTarget lib request.url (.response status headers body) with
    | none => ([request], toHttpResponse status headers body)
    | some url =>
      match left with
      | 0 => ([request], .error (.reqwest lib.tooManyRedirects))
      | left + 1 =>
        let (sent, outcome) := send left (redirected lib request status url) answers
        (request :: sent, outcome)

/-- A call: the check of the host, then the request with all that it entails. -/
def HttpClient.request (client : HttpClient) (method : Method) (url : String)
    (headers : List (String × String)) (body : Option String) (answers : List Answer) :
    List (Request Url) × Except HttpError HttpResponse :=
  match client.validateHost lib url with
  | .error e => ([], .error e)
  | .ok parsed =>
    match lib.prepare client.inner.defaultHeaders headers with
    | .error e => ([], .error (.reqwest e))
    | .ok headers => send lib client.inner.redirectLimit ⟨method, parsed, headers, body⟩ answers

def HttpClient.doGet (client : HttpClient) (url : String) (headers : List (String × String))
    (answers : List Answer) : List (Request Url) × Except HttpError HttpResponse :=
  client.request lib .get url headers none answers

def HttpClient.doPost (client : HttpClient) (url : String) (headers : List (String × String))
    (body : String) (answers : List Answer) :
    List (Request Url) × Except HttpError HttpResponse :=
  client.request lib .post url headers (some body) answers

def HttpClient.Allowed (client : HttpClient) (url : Url) : Prop :=
  ∃ host, lib.hostStr url = some host ∧ client.config.isHostAllowed host = true

/-- Every request goes to an allowed host. -/
def HttpClient.Confined (client : HttpClient) (sent : List (Request Url)) : Prop :=
  ∀ request ∈ sent, client.Allowed lib request.url

/-- The URLs that one answer after the other names as its target. -/
def targets : Url → List Answer → List Url
  | _, [] => []
  | url, answer :: answers =>
    match redirectTarget lib url answer with
    | none => []
    | some next => next :: targets next answers

/-- When the call sends a request at all, the targets within the redirect limit are on allowed
hosts. -/
def HttpClient.TargetsAllowed (client : HttpClient) (url : String)
    (headers : List (String × String)) (answers : List Answer) : Prop :=
  ∀ parsed, lib.parse url = .ok parsed → client.Allowed lib parsed →
    (∃ prepared, lib.prepare client.inner.defaultHeaders headers = .ok prepared) →
    ∀ target ∈ (targets lib parsed answers).take client.inner.redirectLimit,
      client.Allowed lib target

variable {lib}

theorem redirected_url (request : Request Url) (status : Nat) (url : Url) :
    (redirected lib request status url).url = url := by
  rw [redirected]
  split <;> rfl

/-- The URLs of the requests: the first, then the targets within the limit. -/
theorem send_urls (left : Nat) (request : Request Url) (answers : List Answer) :
    (send lib left request answers).1.map (·.url) =
      request.url :: (targets lib request.url answers).take left := by
  induction answers generalizing left request with
  | nil => rw [send, targets, List.take_nil]; rfl
  | cons answer answers ih =>
    cases answer with
    | failed e => rw [send, targets, redirectTarget, List.take_nil]; rfl
    | response status headers body =>
      rw [send, targets]
      cases redirectTarget lib request.url (.response status headers body) with
      | none => rw [List.take_nil]; rfl
      | some next =>
        cases left with
        | zero => rfl
        | succ left =>
          have hnext := ih left (redirected lib request status next)
          rw [redirected_url] at hnext
          exact congrArg (List.cons request.url) hnext

theorem validateHost_eq_ok {client : HttpClient} {url : String} {parsed : Url} :
    client.validateHost lib url = .ok parsed ↔
      lib.parse url = .ok parsed ∧ client.Allowed lib parsed := by
  rw [HttpClient.validateHost]
  cases lib.parse url with
  | error e => simp
  | ok u =>
    dsimp only
    constructor
    · intro h
      split at h
      · cases h
      · rename_i host hhost
        split at h
        · rename_i hallowed
          cases h
          exact ⟨rfl, host, hhost, hallowed⟩
        · cases h
    · rintro ⟨heq, host, hhost, hallowed⟩
      cases heq
      rw [hhost]
      exact if_pos hallowed

theorem HttpClient.confined_iff_urls (client : HttpClient) (sent : List (Request Url)) :
    client.Confined lib sent ↔ ∀ url ∈ sent.map (·.url), client.Allowed lib url := by
  rw [Confined, List.forall_mem_map]

theorem HttpClient.request_confined_iff (client : HttpClient) (method : Method) (url : String)
    (headers : List (String × String)) (body : Option String) (answers : List Answer) :
    client.Confined lib (client.request lib method url headers body answers).1 ↔
      client.TargetsAllowed lib url headers answers := by
  rw [request]
  cases hvalid : client.validateHost lib url with
  | error e =>
    refine iff_of_true (fun r hr => (List.not_mem_nil hr).elim) ?_
    intro parsed hparse hallowed
    rw [validateHost_eq_ok.mpr ⟨hparse, hallowed⟩] at hvalid
    cases hvalid
  | ok parsed =>
    obtain ⟨hparse, hallowed⟩ := validateHost_eq_ok.mp hvalid
    dsimp only
    cases hprepare : lib.prepare client.inner.defaultHeaders headers with
    | error e =>
      refine iff_of_true (fun r hr => (List.not_mem_nil hr).elim) ?_
      rintro _ _ _ ⟨prepared, hprepared⟩
      rw [hprepare] at hprepared
      cases hprepared
    | ok prepared =>
      rw [confined_iff_urls]
      dsimp only
      rw [send_urls, List.forall_mem_cons]
      constructor
      · rintro ⟨-, htargets⟩ u hu _ _
        rw [hparse] at hu
        cases hu
        exact htargets
      · intro htargets
        exact ⟨hallowed, htargets parsed hparse hallowed ⟨prepared, hprepare⟩⟩

/-- The requests of a call stay on allowed hosts exactly when the redirects that the library follows
name allowed hosts. -/
theorem HttpClient.confined_iff (client : HttpClient) (url : String)
    (headers : List (String × String)) (body : String) (answers : List Answer) :
    (client.Confined lib (client.doGet lib url headers answers).1 ↔
      client.TargetsAllowed lib url headers answers) ∧
    (client.Confined lib (client.doPost lib url headers body answers).1 ↔
      client.TargetsAllowed lib url headers answers) :=
  ⟨client.request_confined_iff .get url headers none answers,
    client.request_confined_iff .post url headers (some body) answers⟩

/-- The client of the connector follows five redirects, whatever its configuration. -/
theorem HttpClient.new_inner {built : Except String Unit} {config : HttpConfig}
    {client : HttpClient} (h : HttpClient.new lib built config = .ok client) :
    client.config = config ∧ client.inner.redirectLimit = 5 := by
  rw [new.eq_def] at h
  split at h
  · cases h
  · split at h
    · cases h
    · cases h
      exact ⟨rfl, rfl⟩

end Client

/-- URLs as texts, with the host between the scheme and the next slash. -/
def plainUrls : Reqwest (List Char) where
  parse url := .ok url.toList
  hostStr url :=
    (Lib.splitOnce [':', '/', '/'] url).map fun parts =>
      String.ofList (parts.2.takeWhile (· ≠ '/'))
  join _ location := some location.toList
  headerName _ := .ok ()
  headerValue _ := .ok ()
  prepare defaults headers := .ok (headers ++ defaults)
  carried _ _ headers := headers
  tooManyRedirects := "too many redirects"
  timedOut := "operation timed out"

def apiClient : HttpClient where
  inner := { builder with timeout := 30 }
  config := ⟨["api.example.com"], [], 30⟩

/-- A server on an allowed host that names an address of the cloud's metadata service. -/
def namesMetadata : List Answer :=
  [.response 302 [("location", "http://169.254.169.254/latest")] (.ok ""),
    .response 200 [] (.ok "secret")]

/-- The client asks the metadata service. -/
theorem redirect_escapes :
    HttpClient.new plainUrls (.ok ()) apiClient.config = .ok apiClient ∧
      (apiClient.doGet plainUrls "https://api.example.com/v1" [] namesMetadata).1.map (·.url) =
        ["https://api.example.com/v1".toList, "http://169.254.169.254/latest".toList] ∧
      ¬ apiClient.Confined plainUrls
        (apiClient.doGet plainUrls "https://api.example.com/v1" [] namesMetadata).1 := by
  have hurls : (apiClient.doGet plainUrls "https://api.example.com/v1" [] namesMetadata).1.map
      (·.url) =
        ["https://api.example.com/v1".toList, "http://169.254.169.254/latest".toList] := by
    decide +kernel
  refine ⟨rfl, hurls, fun hconfined => ?_⟩
  rw [HttpClient.confined_iff_urls, hurls] at hconfined
  obtain ⟨host, hhost, hallowed⟩ := hconfined "http://169.254.169.254/latest".toList
    (List.mem_cons_of_mem _ List.mem_cons_self)
  have hmetadata : plainUrls.hostStr "http://169.254.169.254/latest".toList =
      some "169.254.169.254" := by decide +kernel
  rw [hmetadata] at hhost
  cases hhost
  revert hallowed
  decide

end Springtale.Connector.Http
