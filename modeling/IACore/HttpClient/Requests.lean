import IACore.FileOps
import IACore.HttpClient
import IACore.Machine
import Mathlib.Data.Finset.Erase
import Mathlib.Data.Finset.Insert

/-!
# The requests of `HttpClient`

A client keeps one easy handle of libcurl for all its requests, and options stay set from one
request to the next.  libcurl copies the URL; of the headers, of the body and of the string that the
response goes to it keeps a pointer to what is local to the call that has set them.  libcurl is a
parameter, as it is not part of the sources; what it does where its documentation does not say, as
with a pointer of an earlier call or a handle that has been cleaned up, stays open.

`ClientSpec` is what a client is for: it has a host, a response code and whether certificates are
verified, and each request consists of what its own call was given.
-/

namespace IACore

/-! ### libcurl -/

/-- A call of `curl_easy_setopt`, without its handle.  A pointer is the number of the call that what
it leads to is local to. -/
inductive CurlOption
  | tcpKeepAlive (value : ℤ)
  | acceptEncoding (value : Text)
  | sslVerifyPeer (value : ℤ)
  | sslVerifyHost (value : ℤ)
  | url (value : Text)
  | httpHeader (pointer : Option ℕ)
  /-- The function is `write_callback`. -/
  | writeFunction
  | writeData (pointer : ℕ)
  | httpGet (value : ℤ)
  | post (value : ℤ)
  | postFields (pointer : ℕ)
  | postFieldSize (value : ℤ)
  deriving DecidableEq, Repr

namespace CurlOption

def tcpKeepAliveOf : CurlOption → Option ℤ
  | .tcpKeepAlive value => some value
  | _ => none

def acceptEncodingOf : CurlOption → Option Text
  | .acceptEncoding value => some value
  | _ => none

def sslVerifyPeerOf : CurlOption → Option ℤ
  | .sslVerifyPeer value => some value
  | _ => none

def sslVerifyHostOf : CurlOption → Option ℤ
  | .sslVerifyHost value => some value
  | _ => none

def urlOf : CurlOption → Option Text
  | .url value => some value
  | _ => none

def httpHeaderOf : CurlOption → Option (Option ℕ)
  | .httpHeader pointer => some pointer
  | _ => none

def writeDataOf : CurlOption → Option ℕ
  | .writeData pointer => some pointer
  | _ => none

/-- Whether it makes the next request a `POST` or a `GET`; `CURLOPT_POSTFIELDS` implies
`CURLOPT_POST`. -/
def isPostOf : CurlOption → Option Bool
  | .httpGet value => if value = 1 then some false else none
  | .post value => if value = 1 then some true else none
  | .postFields _ => some true
  | _ => none

def postFieldsOf : CurlOption → Option ℕ
  | .postFields pointer => some pointer
  | _ => none

def postFieldSizeOf : CurlOption → Option ℤ
  | .postFieldSize value => some value
  | _ => none

/-- What the last of some options says. -/
def last {α : Type} (f : CurlOption → Option α) (options : List CurlOption) : Option α :=
  options.reverse.findSome? f

/-- libcurl takes strings up to a length, and a size of `-1` or more. -/
def Taken (maxLength : ℕ) : CurlOption → Prop
  | .acceptEncoding value => value.length ≤ maxLength
  | .url value => value.length ≤ maxLength
  | .postFieldSize value => -1 ≤ value
  | _ => True

end CurlOption

/-- What the pointers of a call lead to. -/
structure Frame where
  headers : List Text
  body : Text
  deriving DecidableEq, Repr

/-- What a pointer leads to while the call `call` is running. -/
def follow {α : Type} (call : ℕ) (value : α) (pointer : ℕ) : Option α :=
  if pointer = call then some value else none

/-- The settings of a request that do not come from its call. -/
structure CurlSettings where
  tcpKeepAlive : ℤ
  acceptEncoding : Text
  sslVerifyPeer : ℤ
  sslVerifyHost : ℤ
  deriving DecidableEq, Repr

/-- What is to go out; a `GET` has no body. -/
structure Request where
  url : Text
  headers : List Text
  body : Option Text
  settings : CurlSettings
  deriving DecidableEq, Repr

open CurlOption in
/-- The options of a handle ask for a request, while the call `call` with its `frame` is running:
the last value of each counts. -/
structure Asks (options : List CurlOption) (call : ℕ) (frame : Frame) (request : Request) :
    Prop where
  url : last urlOf options = some request.url
  /-- A null pointer is no list. -/
  headers : ∃ pointer, last httpHeaderOf options = some pointer ∧
    pointer.elim (some []) (follow call frame.headers) = some request.headers
  isPost : last isPostOf options = some request.body.isSome
  /-- A body has as many bytes as `CURLOPT_POSTFIELDSIZE` says. -/
  body : ∀ body, request.body = some body → ∃ pointer data, ∃ size : ℕ,
    last postFieldsOf options = some pointer ∧ follow call frame.body pointer = some data ∧
      last postFieldSizeOf options = some (size : ℤ) ∧ size ≤ data.length ∧ data.take size = body
  writeFunction : .writeFunction ∈ options
  writeData : last writeDataOf options = some call
  tcpKeepAlive : last tcpKeepAliveOf options = some request.settings.tcpKeepAlive
  acceptEncoding : last acceptEncodingOf options = some request.settings.acceptEncoding
  sslVerifyPeer : last sslVerifyPeerOf options = some request.settings.sslVerifyPeer
  sslVerifyHost : last sslVerifyHostOf options = some request.settings.sslVerifyHost

/-- libcurl; its state is a `K`, and a handle is a number.  What is undefined is `none`. -/
structure LibCurl (K : Type) where
  start : K
  /-- The length of the longest string that it takes. -/
  maxLength : ℕ
  /-- The handles that have been created and not cleaned up. -/
  handles : K → Finset ℕ
  /-- What has been set on a handle, in order. -/
  options : K → ℕ → List CurlOption
  /-- `curl_easy_init`, where it succeeds. -/
  easyInit : K → ℕ × K
  /-- `curl_easy_setopt`. -/
  easySetopt : Option ℕ → CurlOption → K → Option K
  /-- `curl_easy_perform` during the call with that number: the request that it makes. -/
  easyPerform : ℕ → ℕ → Frame → K → Option (Request × K)
  /-- `curl_easy_cleanup`. -/
  easyCleanup : ℕ → K → Option K

namespace LibCurl

variable {K : Type} (curl : LibCurl K)

/-- Some options have been set on one handle, and nothing else has happened. -/
structure Adds (k k' : K) (handle : ℕ) (added : List CurlOption) : Prop where
  handles : curl.handles k' = curl.handles k
  options_self : curl.options k' handle = curl.options k handle ++ added
  options_of_ne : ∀ other, other ≠ handle → curl.options k' other = curl.options k other

/-- What the documentation of libcurl says. -/
structure Documented : Prop where
  handles_start : curl.handles curl.start = ∅
  /-- A new handle has nothing set. -/
  easyInit_fresh : ∀ k, (curl.easyInit k).1 ∉ curl.handles k
  easyInit_handles : ∀ k,
    curl.handles (curl.easyInit k).2 = insert (curl.easyInit k).1 (curl.handles k)
  easyInit_options : ∀ k, curl.options (curl.easyInit k).2 =
    Function.update (curl.options k) (curl.easyInit k).1 []
  /-- Nothing is set on a null pointer. -/
  easySetopt_null : ∀ option k, curl.easySetopt none option k = some k
  /-- An option that is taken stays set. -/
  easySetopt : ∀ k, ∀ handle ∈ curl.handles k, ∀ option : CurlOption, option.Taken curl.maxLength →
    ∃ k', curl.easySetopt (some handle) option k = some k' ∧ curl.Adds k k' handle [option]
  /-- A transfer makes the request that it is asked for, and leaves the options as they are. -/
  easyPerform : ∀ k, ∀ handle ∈ curl.handles k, ∀ call frame request,
    Asks (curl.options k handle) call frame request →
      ∃ k', curl.easyPerform handle call frame k = some (request, k') ∧ curl.Adds k k' handle []
  easyCleanup : ∀ k, ∀ handle ∈ curl.handles k, ∃ k', curl.easyCleanup handle k = some k' ∧
    curl.handles k' = (curl.handles k).erase handle ∧
    ∀ other, other ≠ handle → curl.options k' other = curl.options k other

end LibCurl

/-- Handles with the options that have been set on them; `next` has not been one yet. -/
structure OptionLists where
  handles : Finset ℕ
  options : ℕ → List CurlOption
  next : ℕ
  lt_next : ∀ handle ∈ handles, handle < next

namespace OptionLists

variable (k : OptionLists)

/-- There is one more handle. -/
def init : OptionLists where
  handles := insert k.next k.handles
  options := Function.update k.options k.next []
  next := k.next + 1
  lt_next := by
    intro handle hmem
    rcases Finset.mem_insert.mp hmem with rfl | hmem
    · exact Nat.lt_succ_self _
    · exact Nat.lt_succ_of_lt (k.lt_next handle hmem)

/-- Some options are set on a handle. -/
def add (handle : ℕ) (added : List CurlOption) : OptionLists :=
  { k with options := Function.update k.options handle (k.options handle ++ added) }

/-- A handle is no more. -/
def cleanup (handle : ℕ) : OptionLists :=
  { k with
    handles := k.handles.erase handle
    lt_next := fun other hmem => k.lt_next other (Finset.mem_of_mem_erase hmem) }

end OptionLists

/-- How a transfer ends: with the message of an error, or with what comes, in the pieces that it
comes in, and the response code. -/
abbrev Transfer := Except Text (List Text × ℤ)

/-- The value of a `long` that is converted from a `usize`. -/
def Platform.long (platform : Platform) (n : ℕ) : ℤ :=
  (n + (platform.longMax + 1)) % (2 * (platform.longMax + 1)) - (platform.longMax + 1)

/-! ### Clients -/

/-- A client; a null pointer is `none`. -/
structure HttpClient where
  curl : Option ℕ
  host : Text
  lastResponseCode : ℤ
  deriving DecidableEq, Repr

namespace HttpClient

open HttpCommon

/-- The URL of `path`; `back` of an empty host is undefined. -/
def fullUrl (host path : Text) : Option Text :=
  if path ≠ [] ∧ path.head? ≠ some '/'.toUInt8 then
    match host.getLast? with
    | none => none
    | some c => some (if c ≠ '/'.toUInt8 then host ++ text "/" ++ path else host ++ path)
  else some (host ++ path)

/-- What `perform_request` makes of the end of a transfer: the pieces go through `write_callback`.
-/
def response (transfer : Transfer) : Except Text Text :=
  match transfer with
  | .error message => .error (text "Network Error: " ++ message)
  | .ok (pieces, code) =>
    if 200 ≤ code ∧ code < 300 then .ok pieces.flatten
    else .error (text "HTTP Error " ++ text (toString code) ++ text " : " ++ pieces.flatten)

/-- The response code after a transfer. -/
def responseCode (transfer : Transfer) (lastResponseCode : ℤ) : ℤ :=
  match transfer with
  | .error _ => lastResponseCode
  | .ok (_, code) => i32 code

variable {K L : Type} (curl : LibCurl K) (slist : CurlSlist L) (platform : Platform)

/-- The constructor; libcurl has a handle for it or has not. -/
def construct (host : Text) (initialized : Bool) (k : K) : Option (HttpClient × K) :=
  if initialized then do
    let (handle, k) := curl.easyInit k
    let k ← curl.easySetopt (some handle) (.tcpKeepAlive 1) k
    let k ← curl.easySetopt (some handle) (.acceptEncoding (text "")) k
    let k ← curl.easySetopt (some handle) (.sslVerifyPeer 1) k
    let k ← curl.easySetopt (some handle) (.sslVerifyHost 2) k
    return (⟨some handle, host, 500⟩, k)
  else some (⟨none, host, 500⟩, k)

/-- `if (m_curl) curl_easy_cleanup(m_curl)`. -/
def cleanup (client : HttpClient) (k : K) : Option K :=
  match client.curl with
  | some handle => curl.easyCleanup handle k
  | none => some k

/-- `enable_certificate_verification` and `disable_certificate_verification`. -/
def verify (client : HttpClient) (isEnabled : Bool) (k : K) : Option K :=
  match client.curl with
  | some handle => curl.easySetopt (some handle) (.sslVerifyPeer (if isEnabled then 1 else 0)) k
  | none => some k

/-- `perform_request` during the call `call`: what goes out and what is returned. -/
def performRequest (client : HttpClient) (fullUrl : Text) (call : ℕ) (frame : Frame)
    (headers : Option ℕ) (transfer : Transfer) (k : K) :
    Option ((Option Request × Except Text Text) × HttpClient × K) :=
  match client.curl with
  | none => some ((none, .error (text "CURL not initialized")), client, k)
  | some handle => do
    let k ← curl.easySetopt (some handle) (.url (cString fullUrl)) k
    let k ← curl.easySetopt (some handle) (.httpHeader headers) k
    let k ← curl.easySetopt (some handle) .writeFunction k
    let k ← curl.easySetopt (some handle) (.writeData call) k
    let (request, k) ← curl.easyPerform handle call frame k
    return ((some request, response transfer),
      { client with lastResponseCode := responseCode transfer client.lastResponseCode }, k)

/-- `raw_get`. -/
def rawGet (client : HttpClient) (path : Text) (headers : List Header)
    (defaultContentType : Option Text) (call : ℕ) (transfer : Transfer) (k : K) :
    Option ((Option Request × Except Text Text) × HttpClient × K) := do
  let url ← fullUrl client.host path
  let curlHeaders := buildHeadersList slist headers defaultContentType
  let k ← curl.easySetopt client.curl (.httpGet 1) k
  client.performRequest curl url call ⟨slist.strings curlHeaders.list, []⟩
    (curlHeaders.list.map fun _ => call) transfer k

/-- `raw_post`. -/
def rawPost (client : HttpClient) (path : Text) (headers : List Header) (body : Text)
    (defaultContentType : Option Text) (call : ℕ) (transfer : Transfer) (k : K) :
    Option ((Option Request × Except Text Text) × HttpClient × K) := do
  let url ← fullUrl client.host path
  let curlHeaders := buildHeadersList slist headers defaultContentType
  let k ← curl.easySetopt client.curl (.post 1) k
  let k ← curl.easySetopt client.curl (.postFields call) k
  let k ← curl.easySetopt client.curl (.postFieldSize (platform.long body.length)) k
  client.performRequest curl url call ⟨slist.strings curlHeaders.list, body⟩
    (curlHeaders.list.map fun _ => call) transfer k

end HttpClient

/-! ### Runs -/

open HttpCommon

/-- libcurl, the number of calls so far, the clients that exist, and for each call what went out and
what it returned. -/
structure HttpClients (K : Type) (ι : Type*) where
  curl : K
  calls : ℕ
  objects : ι → Option HttpClient
  log : List (Option Request × Except Text Text)

namespace HttpClients

inductive Event (ι : Type*)
  /-- `create`; libcurl has a handle for it or has not. -/
  | create (i : ι) (host : Text) (initialized : Bool)
  /-- The move constructor; `left` is the host that the other client is left with. -/
  | moveConstruct (i j : ι) (left : Text)
  /-- The move assignment. -/
  | assign (i j : ι) (left : Text)
  /-- The destructor. -/
  | destroy (i : ι)
  /-- `enable_certificate_verification` or `disable_certificate_verification`. -/
  | verify (i : ι) (isEnabled : Bool)
  | get (i : ι) (path : Text) (headers : List Header) (defaultContentType : Option Text)
      (transfer : Transfer)
  | post (i : ι) (path : Text) (headers : List Header) (body : Text)
      (defaultContentType : Option Text) (transfer : Transfer)

variable {ι : Type*} [DecidableEq ι] {K L : Type} (curl : LibCurl K) (slist : CurlSlist L)
  (platform : Platform)

/-- The client `i` has made a call. -/
def finish (σ : HttpClients K ι) (i : ι) :
    (Option Request × Except Text Text) × HttpClient × K → HttpClients K ι
  | (entry, client, k) =>
    { curl := k
      calls := σ.calls + 1
      objects := Function.update σ.objects i (some client)
      log := σ.log ++ [entry] }

/-- What an event does, where it may happen and is defined. -/
def step (σ : HttpClients K ι) : Event ι → Option (HttpClients K ι)
  | .create i host initialized =>
    match σ.objects i with
    | some _ => none
    | none =>
      (HttpClient.construct curl host initialized σ.curl).map fun (client, k) =>
        { σ with curl := k, objects := Function.update σ.objects i (some client) }
  | .moveConstruct i j left =>
    match σ.objects i, σ.objects j with
    | none, some other =>
      some { σ with
        objects := Function.update (Function.update σ.objects i (some other)) j
          (some { other with curl := none, host := left }) }
    | _, _ => none
  | .assign i j left =>
    match σ.objects i, σ.objects j with
    | some this, some other =>
      if i = j then some σ
      else
        (this.cleanup curl σ.curl).map fun k =>
          { σ with
            curl := k
            objects := Function.update (Function.update σ.objects i (some other)) j
              (some { other with curl := none, host := left }) }
    | _, _ => none
  | .destroy i =>
    match σ.objects i with
    | some client =>
      (client.cleanup curl σ.curl).map fun k =>
        { σ with curl := k, objects := Function.update σ.objects i none }
    | none => none
  | .verify i isEnabled =>
    match σ.objects i with
    | some client => (client.verify curl isEnabled σ.curl).map fun k => { σ with curl := k }
    | none => none
  | .get i path headers defaultContentType transfer =>
    match σ.objects i with
    | some client =>
      (client.rawGet curl slist path headers defaultContentType σ.calls transfer σ.curl).map
        (σ.finish i)
    | none => none
  | .post i path headers body defaultContentType transfer =>
    match σ.objects i with
    | some client =>
      (client.rawPost curl slist platform path headers body defaultContentType σ.calls transfer
        σ.curl).map (σ.finish i)
    | none => none

/-- No clients. -/
def start : HttpClients K ι where
  curl := curl.start
  calls := 0
  objects _ := none
  log := []

end HttpClients

/-! ### What a client is for -/

structure ClientSpec where
  initialized : Bool
  host : Text
  lastResponseCode : ℤ
  verifyPeer : Bool
  deriving DecidableEq, Repr

/-- The settings of its requests. -/
def ClientSpec.settings (client : ClientSpec) : CurlSettings :=
  ⟨1, text "", if client.verifyPeer then 1 else 0, 2⟩

/-- The clients and the log. -/
structure ClientSpecs (ι : Type*) where
  objects : ι → Option ClientSpec
  log : List (Option Request × Except Text Text)

namespace ClientSpecs

variable {ι : Type*} [DecidableEq ι] {L : Type} (slist : CurlSlist L)

/-- A request, which consists of what its call was given. -/
def call (σ : ClientSpecs ι) (i : ι) (path : Text) (headers : List Header) (body : Option Text)
    (defaultContentType : Option Text) (transfer : Transfer) : Option (ClientSpecs ι) :=
  match σ.objects i with
  | none => none
  | some client =>
    (HttpClient.fullUrl client.host path).map fun url =>
      if client.initialized then
        { objects := Function.update σ.objects i (some { client with
            lastResponseCode := HttpClient.responseCode transfer client.lastResponseCode })
          log := σ.log ++ [(some ⟨cString url,
            slist.strings (HttpClient.buildHeadersList slist headers defaultContentType).list, body,
            client.settings⟩, HttpClient.response transfer)] }
      else { σ with log := σ.log ++ [(none, .error (text "CURL not initialized"))] }

def step (σ : ClientSpecs ι) : HttpClients.Event ι → Option (ClientSpecs ι)
  | .create i host initialized =>
    match σ.objects i with
    | some _ => none
    | none => some { σ with
        objects := Function.update σ.objects i (some ⟨initialized, host, 500, true⟩) }
  | .moveConstruct i j left =>
    match σ.objects i, σ.objects j with
    | none, some other => some { σ with
        objects := Function.update (Function.update σ.objects i (some other)) j
          (some { other with initialized := false, host := left }) }
    | _, _ => none
  | .assign i j left =>
    match σ.objects i, σ.objects j with
    | some _, some other =>
      if i = j then some σ
      else some { σ with
        objects := Function.update (Function.update σ.objects i (some other)) j
          (some { other with initialized := false, host := left }) }
    | _, _ => none
  | .destroy i =>
    match σ.objects i with
    | some _ => some { σ with objects := Function.update σ.objects i none }
    | none => none
  | .verify i isEnabled =>
    match σ.objects i with
    | some client => some { σ with
        objects := Function.update σ.objects i (some { client with
          verifyPeer := if client.initialized then isEnabled else client.verifyPeer }) }
    | none => none
  | .get i path headers defaultContentType transfer =>
    σ.call slist i path headers none defaultContentType transfer
  | .post i path headers body defaultContentType transfer =>
    σ.call slist i path headers (some body) defaultContentType transfer

/-- No clients. -/
def start : ClientSpecs ι := ⟨fun _ => none, []⟩

end ClientSpecs

end IACore
