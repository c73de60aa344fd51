import IACore.HttpClient.Requests
import IACore.Library.EventRun
import IACore.Library.UniqueHandle

/-!
# A request consists of what its own call was given

The machine with easy handles, pointers and options that stay set makes the requests of the machine
that knows of none of these, in every run (`http_requests_refine`): no request contains anything of
an earlier one, of another client or of a call that is over, and no handle is used or cleaned up
after its end.  A URL is no longer than libcurl takes, and a body has its size as a `long`.
-/

namespace IACore

open HttpCommon UniqueHandle CurlOption

/-! ### Options -/

@[simp] theorem CurlOption.last_append {α : Type} (f : CurlOption → Option α)
    (options added : List CurlOption) :
    last f (options ++ added) = (last f added).or (last f options) := by
  unfold last
  rw [List.reverse_append, List.findSome?_append]

/-- The settings of a client are in effect. -/
structure SetUp (options : List CurlOption) (settings : CurlSettings) : Prop where
  tcpKeepAlive : last tcpKeepAliveOf options = some settings.tcpKeepAlive
  acceptEncoding : last acceptEncodingOf options = some settings.acceptEncoding
  sslVerifyPeer : last sslVerifyPeerOf options = some settings.sslVerifyPeer
  sslVerifyHost : last sslVerifyHostOf options = some settings.sslVerifyHost

/-- What says nothing of the settings leaves them. -/
theorem SetUp.append {options added : List CurlOption} {settings : CurlSettings}
    (h : SetUp options settings) (htcp : last tcpKeepAliveOf added = none)
    (hencoding : last acceptEncodingOf added = none) (hpeer : last sslVerifyPeerOf added = none)
    (hhost : last sslVerifyHostOf added = none) : SetUp (options ++ added) settings where
  tcpKeepAlive := by rw [last_append, htcp, Option.none_or, h.tcpKeepAlive]
  acceptEncoding := by rw [last_append, hencoding, Option.none_or, h.acceptEncoding]
  sslVerifyPeer := by rw [last_append, hpeer, Option.none_or, h.sslVerifyPeer]
  sslVerifyHost := by rw [last_append, hhost, Option.none_or, h.sslVerifyHost]

namespace LibCurl

variable {K : Type} {curl : LibCurl K} {k k' k'' : K} {handle : ℕ} {added added' : List CurlOption}

theorem Adds.trans (h : curl.Adds k k' handle added) (h' : curl.Adds k' k'' handle added') :
    curl.Adds k k'' handle (added ++ added') where
  handles := h'.handles.trans h.handles
  options_self := by rw [h'.options_self, h.options_self, List.append_assoc]
  options_of_ne other hne := (h'.options_of_ne other hne).trans (h.options_of_ne other hne)

theorem Adds.mem (h : curl.Adds k k' handle added) {other : ℕ} :
    other ∈ curl.handles k' ↔ other ∈ curl.handles k := by rw [h.handles]

/-- Some options are set on a handle, one after the other. -/
def Sets (curl : LibCurl K) (handle : ℕ) : List CurlOption → K → K → Prop
  | [], k, k' => k = k'
  | option :: options, k, k' => ∃ k₁, curl.easySetopt (some handle) option k = some k₁ ∧
      curl.Sets handle options k₁ k'

/-- Options that are taken stay set. -/
theorem Documented.sets (hcurl : curl.Documented) (hmem : handle ∈ curl.handles k)
    (options : List CurlOption) (htaken : ∀ option ∈ options, option.Taken curl.maxLength) :
    ∃ k', curl.Sets handle options k k' ∧ curl.Adds k k' handle options := by
  induction options generalizing k with
  | nil => exact ⟨k, rfl, rfl, (List.append_nil _).symm, fun _ _ => rfl⟩
  | cons option options ih =>
    obtain ⟨k₁, hset, hadds⟩ := hcurl.easySetopt k handle hmem option (htaken _ List.mem_cons_self)
    obtain ⟨k', hsets, hadds'⟩ := ih (hadds.mem.mpr hmem)
      fun other hother => htaken other (List.mem_cons_of_mem _ hother)
    exact ⟨k', ⟨k₁, hset, hsets⟩, hadds.trans hadds'⟩

end LibCurl

/-! ### One call -/

namespace HttpClient

variable {K L : Type} {curl : LibCurl K} {slist : CurlSlist L} {platform : Platform}
  {client : HttpClient} {handle call : ℕ} {k : K} {settings : CurlSettings}

section

variable (hcurl : curl.Documented)

include hcurl

/-- A client that has a handle sets it up. -/
theorem construct_eq (host : Text) (k : K) : ∃ k',
    construct curl host true k = some (⟨some (curl.easyInit k).1, host, 500⟩, k') ∧
      curl.handles k' = insert (curl.easyInit k).1 (curl.handles k) ∧
      SetUp (curl.options k' (curl.easyInit k).1) ⟨1, text "", 1, 2⟩ ∧
      ∀ other, other ≠ (curl.easyInit k).1 → curl.options k' other = curl.options k other := by
  have hmem : (curl.easyInit k).1 ∈ curl.handles (curl.easyInit k).2 := by
    rw [hcurl.easyInit_handles]
    exact Finset.mem_insert_self _ _
  obtain ⟨k', ⟨k₁, hset₁, k₂, hset₂, k₃, hset₃, k₄, hset₄, rfl⟩, hadds⟩ := hcurl.sets hmem
    [.tcpKeepAlive 1, .acceptEncoding (text ""), .sslVerifyPeer 1, .sslVerifyHost 2]
    (by simp [Taken, text])
  refine ⟨k₄, ?_, ?_, ?_, fun other hne => ?_⟩
  · unfold construct
    simp only [if_true, Option.bind_eq_bind, Option.bind_some, hset₁, hset₂, hset₃, hset₄]
    rfl
  · rw [hadds.handles, hcurl.easyInit_handles]
  · rw [hadds.options_self, hcurl.easyInit_options, Function.update_self]
    exact ⟨rfl, rfl, rfl, rfl⟩
  · rw [hadds.options_of_ne other hne, hcurl.easyInit_options, Function.update_of_ne hne]

/-- A request of a client that has a handle follows no pointer but those of its own call. -/
theorem performRequest_eq (hhandle : client.curl = some handle) (hmem : handle ∈ curl.handles k)
    (hsetUp : SetUp (curl.options k handle) settings) {url : Text}
    (hurl : (cString url).length ≤ curl.maxLength) (frame : Frame) {headers : Option ℕ}
    (hheaders : headers = some call ∨ headers = none ∧ frame.headers = []) (transfer : Transfer)
    (body : Option Text) (hpost : last isPostOf (curl.options k handle) = some body.isSome)
    (hbody : ∀ data, body = some data → frame.body = data ∧
      last postFieldsOf (curl.options k handle) = some call ∧
      last postFieldSizeOf (curl.options k handle) = some (data.length : ℤ)) :
    ∃ k' added, curl.Adds k k' handle added ∧ SetUp (curl.options k' handle) settings ∧
      client.performRequest curl url call frame headers transfer k =
        some ((some ⟨cString url, frame.headers, body, settings⟩, response transfer),
          { client with lastResponseCode := responseCode transfer client.lastResponseCode },
          k') := by
  obtain ⟨k', ⟨k₁, hset₁, k₂, hset₂, k₃, hset₃, k₄, hset₄, rfl⟩, hadds⟩ := hcurl.sets hmem
    [.url (cString url), .httpHeader headers, .writeFunction, .writeData call]
    (by simp [Taken, hurl])
  have hsetUp₄ : SetUp (curl.options k₄ handle) settings := by
    rw [hadds.options_self]
    exact hsetUp.append rfl rfl rfl rfl
  -- Whatever earlier requests have left set, the last of each option is from this call.
  have hasks : Asks (curl.options k₄ handle) call frame
      ⟨cString url, frame.headers, body, settings⟩ := by
    refine ⟨?_, ?_, ?_, ?_, ?_, ?_, hsetUp₄.tcpKeepAlive, hsetUp₄.acceptEncoding,
      hsetUp₄.sslVerifyPeer, hsetUp₄.sslVerifyHost⟩
    · rw [hadds.options_self, last_append]
      rfl
    · refine ⟨headers, ?_, ?_⟩
      · rw [hadds.options_self, last_append]
        rfl
      · rcases hheaders with rfl | ⟨rfl, hnil⟩
        · exact if_pos rfl
        · -- The pointer is null only if there is no header.
          rw [hnil]
          rfl
    · -- `perform_request` leaves the method to its caller.
      rw [hadds.options_self, last_append]
      exact hpost
    · intro data hdata
      obtain ⟨rfl, hfields, hsize⟩ := hbody data hdata
      refine ⟨call, frame.body, frame.body.length, ?_, if_pos rfl, ?_, le_rfl, List.take_length⟩
      · rw [hadds.options_self, last_append]
        exact hfields
      · rw [hadds.options_self, last_append]
        exact hsize
    · rw [hadds.options_self]
      simp
    · rw [hadds.options_self, last_append]
      rfl
  obtain ⟨k₅, hperform, hadds₅⟩ :=
    hcurl.easyPerform k₄ handle (hadds.mem.mpr hmem) call frame _ hasks
  refine ⟨k₅, _, hadds.trans hadds₅, ?_, ?_⟩
  · rw [hadds₅.options_self, List.append_nil]
    exact hsetUp₄
  · unfold performRequest
    simp only [hhandle, Option.bind_eq_bind, Option.bind_some, hset₁, hset₂, hset₃, hset₄,
      hperform]
    rfl

end

variable (hslist : slist.Documented)

include hslist

/-- The pointer to a list of strings, which is null if the list is. -/
theorem list_pointer (list : Option L) : (list.map fun _ => call) = some call ∨
    (list.map fun _ => call) = none ∧ slist.strings list = [] := by
  rcases list with _ | list
  · exact .inr ⟨rfl, hslist.strings_none⟩
  · exact .inl rfl

variable (hcurl : curl.Documented)

include hcurl

/-- What `raw_get` sends, and what it leaves of the handle. -/
theorem rawGet_eq (hhandle : client.curl = some handle) (hmem : handle ∈ curl.handles k)
    (hsetUp : SetUp (curl.options k handle) settings) {path url : Text}
    (hfull : fullUrl client.host path = some url) (hurl : (cString url).length ≤ curl.maxLength)
    (headers : List Header) (defaultContentType : Option Text) (transfer : Transfer) :
    ∃ k' added, curl.Adds k k' handle added ∧ SetUp (curl.options k' handle) settings ∧
      client.rawGet curl slist path headers defaultContentType call transfer k =
        some ((some ⟨cString url,
            slist.strings (buildHeadersList slist headers defaultContentType).list, none,
            settings⟩, response transfer),
          { client with lastResponseCode := responseCode transfer client.lastResponseCode },
          k') := by
  obtain ⟨k₁, hset, hadds⟩ := hcurl.easySetopt k handle hmem (.httpGet 1) trivial
  have hsetUp₁ : SetUp (curl.options k₁ handle) settings := by
    rw [hadds.options_self]
    exact hsetUp.append rfl rfl rfl rfl
  have hpost : last isPostOf (curl.options k₁ handle) = some false := by
    rw [hadds.options_self, last_append]
    rfl
  obtain ⟨k₂, added, hadds₂, hsetUp₂, hperform⟩ :=
    performRequest_eq hcurl hhandle (hadds.mem.mpr hmem) hsetUp₁ hurl
      ⟨slist.strings (buildHeadersList slist headers defaultContentType).list, []⟩
      (list_pointer hslist _) transfer none hpost fun data hdata => by cases hdata
  refine ⟨k₂, _, hadds.trans hadds₂, hsetUp₂, ?_⟩
  unfold rawGet
  rw [hhandle] at hperform
  simp only [hfull, hhandle, hset, Option.bind_eq_bind, Option.bind_some]
  exact hperform

/-- What `raw_post` sends, and what it leaves of the handle. -/
theorem rawPost_eq (hhandle : client.curl = some handle) (hmem : handle ∈ curl.handles k)
    (hsetUp : SetUp (curl.options k handle) settings) {path url : Text}
    (hfull : fullUrl client.host path = some url) (hurl : (cString url).length ≤ curl.maxLength)
    (headers : List Header) {body : Text} (hbody : body.length ≤ platform.longMax)
    (defaultContentType : Option Text) (transfer : Transfer) :
    ∃ k' added, curl.Adds k k' handle added ∧ SetUp (curl.options k' handle) settings ∧
      client.rawPost curl slist platform path headers body defaultContentType call transfer k =
        some ((some ⟨cString url,
            slist.strings (buildHeadersList slist headers defaultContentType).list, some body,
            settings⟩, response transfer),
          { client with lastResponseCode := responseCode transfer client.lastResponseCode },
          k') := by
  -- The size is a `long`, so the conversion keeps it.
  have hlong : platform.long body.length = body.length := by
    unfold Platform.long
    rw [Int.emod_eq_of_lt]
    · omega
    · omega
    · omega
  obtain ⟨k', ⟨k₁, hset₁, k₂, hset₂, k₃, hset₃, rfl⟩, hadds⟩ := hcurl.sets hmem
    [.post 1, .postFields call, .postFieldSize body.length] (by simp [Taken])
  have hsetUp₃ : SetUp (curl.options k₃ handle) settings := by
    rw [hadds.options_self]
    exact hsetUp.append rfl rfl rfl rfl
  have hpost : last isPostOf (curl.options k₃ handle) = some true := by
    rw [hadds.options_self, last_append]
    rfl
  have hfields : last postFieldsOf (curl.options k₃ handle) = some call := by
    rw [hadds.options_self, last_append]
    rfl
  have hsize : last postFieldSizeOf (curl.options k₃ handle) = some (body.length : ℤ) := by
    rw [hadds.options_self, last_append]
    rfl
  obtain ⟨k₄, added, hadds₄, hsetUp₄, hperform⟩ :=
    performRequest_eq hcurl hhandle (hadds.mem.mpr hmem) hsetUp₃ hurl
      ⟨slist.strings (buildHeadersList slist headers defaultContentType).list, body⟩
      (list_pointer hslist _) transfer (some body) hpost fun data hdata => by
        obtain rfl := Option.some.inj hdata
        exact ⟨rfl, hfields, hsize⟩
  refine ⟨k₄, _, hadds.trans hadds₄, hsetUp₄, ?_⟩
  unfold rawPost
  rw [hhandle] at hperform
  simp only [hfull, hhandle, hset₁, hset₂, hlong, hset₃, Option.bind_eq_bind, Option.bind_some]
  exact hperform

end HttpClient

/-! ### The relation -/

/-- A client with its handle, if it has one, and what it is for. -/
structure Matches {K : Type} (curl : LibCurl K) (k : K) (client : HttpClient) (spec : ClientSpec) :
    Prop where
  host : spec.host = client.host
  lastResponseCode : spec.lastResponseCode = client.lastResponseCode
  initialized : spec.initialized = client.curl.isSome
  handle : ∀ handle, client.curl = some handle →
    handle ∈ curl.handles k ∧ SetUp (curl.options k handle) spec.settings

namespace HttpClients

variable {ι : Type*} {K : Type} {curl : LibCurl K}

/-- The handles that the clients hold. -/
def handles (objects : ι → Option HttpClient) (i : ι) : Option ℕ :=
  (objects i).bind HttpClient.curl

/-- Every handle is held by one client, and every client is as it is meant to be. -/
structure Represents (curl : LibCurl K) (σ : HttpClients K ι) (τ : ClientSpecs ι) : Prop where
  owned : Owned (handles σ.objects) (curl.handles σ.curl).val
  client : ∀ i, Option.Rel (Matches curl σ.curl) (σ.objects i) (τ.objects i)
  log : σ.log = τ.log

variable {σ : HttpClients K ι} {τ : ClientSpecs ι}

theorem Represents.objects_eq_none (h : Represents curl σ τ) {i : ι} (hi : σ.objects i = none) :
    τ.objects i = none := by
  have hrel := h.client i
  rw [hi] at hrel
  cases hτ : τ.objects i with
  | none => rfl
  | some spec =>
    rw [hτ] at hrel
    cases hrel

theorem Represents.objects_eq_some (h : Represents curl σ τ) {i : ι} {client : HttpClient}
    (hi : σ.objects i = some client) :
    ∃ spec, τ.objects i = some spec ∧ Matches curl σ.curl client spec := by
  have hrel := h.client i
  rw [hi] at hrel
  cases hτ : τ.objects i with
  | none =>
    rw [hτ] at hrel
    cases hrel
  | some spec =>
    rw [hτ] at hrel
    cases hrel with
    | some hmatches => exact ⟨spec, rfl, hmatches⟩

/-- No two clients hold one handle. -/
theorem Represents.handle_unique (h : Represents curl σ τ) {i j : ι} {handle : ℕ}
    (hi : handles σ.objects i = some handle) (hj : handles σ.objects j = some handle) : i = j := by
  classical
  exact h.owned.unique (curl.handles σ.curl).nodup hi hj

/-- A client is still as it is meant to be when its handle has not changed. -/
theorem matches_congr {k k' : K} {client : HttpClient} {spec : ClientSpec}
    (h : Matches curl k client spec)
    (hk : ∀ handle, client.curl = some handle → handle ∈ curl.handles k →
      handle ∈ curl.handles k' ∧ curl.options k' handle = curl.options k handle) :
    Matches curl k' client spec := by
  refine ⟨h.host, h.lastResponseCode, h.initialized, fun handle hcurl => ?_⟩
  obtain ⟨hmem, hsetUp⟩ := h.handle handle hcurl
  obtain ⟨hmem', hoptions⟩ := hk handle hcurl hmem
  rw [hoptions]
  exact ⟨hmem', hsetUp⟩

/-- The others are as they were when the handle of one client has changed. -/
theorem Represents.others (h : Represents curl σ τ) {k : K} {i j : ι} (hj : j ≠ i)
    (hk : ∀ handle ∈ curl.handles σ.curl, handles σ.objects i ≠ some handle →
      handle ∈ curl.handles k ∧ curl.options k handle = curl.options σ.curl handle) :
    Option.Rel (Matches curl k) (σ.objects j) (τ.objects j) := by
  cases hσ : σ.objects j with
  | none =>
    rw [h.objects_eq_none hσ]
    exact .none
  | some other =>
    obtain ⟨spec, hτ, hspec⟩ := h.objects_eq_some hσ
    rw [hτ]
    refine .some (matches_congr hspec fun handle hhandle hmem => hk handle hmem fun hi => hj ?_)
    apply h.handle_unique _ hi
    rw [handles, hσ]
    exact hhandle

variable [DecidableEq ι]

theorem handles_update (objects : ι → Option HttpClient) (i : ι) (object : Option HttpClient) :
    handles (Function.update objects i object) =
      Function.update (handles objects) i (object.bind HttpClient.curl) := by
  funext j
  by_cases hj : j = i
  · subst hj
    simp [handles]
  · simp [handles, Function.update_of_ne hj]

/-- An object changes on both sides. -/
theorem rel_update {k : K} {objects : ι → Option HttpClient} {specs : ι → Option ClientSpec}
    {i : ι} {object : Option HttpClient} {spec : Option ClientSpec}
    (h : ∀ j, j ≠ i → Option.Rel (Matches curl k) (objects j) (specs j))
    (hobject : Option.Rel (Matches curl k) object spec) (j : ι) :
    Option.Rel (Matches curl k) (Function.update objects i object j)
      (Function.update specs i spec j) := by
  by_cases hj : j = i
  · subst hj
    simp only [Function.update_self]
    exact hobject
  · simp only [Function.update_of_ne hj]
    exact h j hj

/-- Options are set on one client's handle. -/
theorem Represents.setClient (h : Represents curl σ τ) {i : ι} {client client' : HttpClient}
    {spec' : ClientSpec} {k : K} {handle : ℕ} {added : List CurlOption}
    (hi : σ.objects i = some client) (hhandle : client.curl = some handle)
    (hsame : client'.curl = client.curl) (hadds : curl.Adds σ.curl k handle added)
    (hmatches : Matches curl k client' spec') (calls : ℕ)
    (log : List (Option Request × Except Text Text)) :
    Represents curl ⟨k, calls, Function.update σ.objects i (some client'), log⟩
      ⟨Function.update τ.objects i (some spec'), log⟩ := by
  have hslot : handles σ.objects i = some handle := by
    rw [handles, hi]
    exact hhandle
  have hhandles : handles (Function.update σ.objects i (some client')) = handles σ.objects := by
    rw [handles_update, Option.bind_some, hsame, hhandle, ← hslot, Function.update_eq_self]
  refine ⟨?_, rel_update (fun j hj => h.others hj fun other hmem hne => ?_) (.some hmatches), rfl⟩
  · show Owned (handles (Function.update σ.objects i (some client'))) (curl.handles k).val
    rw [hhandles, hadds.handles]
    exact h.owned
  · refine ⟨hadds.mem.mpr hmem, hadds.options_of_ne other ?_⟩
    rintro rfl
    exact hne hslot

section

variable (hcurl : curl.Documented)

include hcurl

/-- A client is created, with or without a handle. -/
theorem Represents.create (h : Represents curl σ τ) {i : ι} (hi : σ.objects i = none) (host : Text)
    (initialized : Bool) : ∃ client k,
    HttpClient.construct curl host initialized σ.curl = some (client, k) ∧
      Represents curl { σ with curl := k, objects := Function.update σ.objects i (some client) }
        { τ with
          objects := Function.update τ.objects i (some ⟨initialized, host, 500, true⟩) } := by
  have hslot : handles σ.objects i = none := by
    rw [handles, hi]
    rfl
  cases initialized with
  | false =>
    refine ⟨⟨none, host, 500⟩, σ.curl, rfl, ?_,
      rel_update (fun j _ => h.client j) (.some ⟨rfl, rfl, rfl, ?_⟩), h.log⟩
    · show Owned (handles (Function.update σ.objects i _)) (curl.handles σ.curl).val
      rw [handles_update, Option.bind_some, ← hslot, Function.update_eq_self]
      exact h.owned
    · rintro handle ⟨⟩
  | true =>
    obtain ⟨k, hconstruct, hhandles, hsetUp, hother⟩ :=
      HttpClient.construct_eq hcurl host σ.curl
    have hfresh := hcurl.easyInit_fresh σ.curl
    refine ⟨_, k, hconstruct, ?_, rel_update (fun j hj => ?_) (.some ⟨rfl, rfl, rfl, ?_⟩), h.log⟩
    · show Owned (handles (Function.update σ.objects i _)) (curl.handles k).val
      rw [handles_update, hhandles, Finset.insert_val_of_notMem hfresh]
      exact h.owned.acquire hslot _
    · apply h.others hj
      intro handle hmem _
      refine ⟨?_, hother handle ?_⟩
      · rw [hhandles]
        exact Finset.mem_insert_of_mem hmem
      · rintro rfl
        exact hfresh hmem
    · rintro handle heq
      obtain rfl := Option.some.inj heq
      refine ⟨?_, hsetUp⟩
      rw [hhandles]
      exact Finset.mem_insert_self _ _

/-- A client cleans up what it holds, and goes. -/
theorem Represents.destroy (h : Represents curl σ τ) {i : ι} {client : HttpClient}
    (hi : σ.objects i = some client) :
    ∃ k, client.cleanup curl σ.curl = some k ∧
      Represents curl { σ with curl := k, objects := Function.update σ.objects i none }
        { τ with objects := Function.update τ.objects i none } := by
  have hslot : handles σ.objects i = client.curl := by
    rw [handles, hi]
    rfl
  unfold HttpClient.cleanup
  cases hhandle : client.curl with
  | none =>
    rw [hhandle] at hslot
    refine ⟨σ.curl, rfl, ?_, rel_update (fun j _ => h.client j) .none, h.log⟩
    show Owned (handles (Function.update σ.objects i none)) (curl.handles σ.curl).val
    rw [handles_update, Option.bind_none, ← hslot, Function.update_eq_self]
    exact h.owned
  | some handle =>
    rw [hhandle] at hslot
    have hmem : handle ∈ curl.handles σ.curl := h.owned.mem hslot
    obtain ⟨k, hcleanup, hhandles, hother⟩ := hcurl.easyCleanup σ.curl handle hmem
    refine ⟨k, hcleanup, ?_, rel_update (fun j hj => h.others hj ?_) .none, h.log⟩
    · show Owned (handles (Function.update σ.objects i none)) (curl.handles k).val
      rw [handles_update, hhandles, Finset.erase_val]
      apply Owned.release
      rw [hslot, single_some, Multiset.singleton_add, Multiset.cons_erase hmem]
      exact h.owned
    · intro handle' hmem' hne
      have hne' : handle' ≠ handle := by
        rintro rfl
        exact hne hslot
      refine ⟨?_, hother handle' hne'⟩
      rw [hhandles]
      exact Finset.mem_erase.mpr ⟨hne', hmem'⟩

/-- The verification of certificates is turned on or off. -/
theorem Represents.verify (h : Represents curl σ τ) {i : ι} {client : HttpClient}
    {spec : ClientSpec} (hi : σ.objects i = some client) (hτ : τ.objects i = some spec)
    (hspec : Matches curl σ.curl client spec) (isEnabled : Bool) :
    ∃ k, client.verify curl isEnabled σ.curl = some k ∧
      Represents curl { σ with curl := k }
        { τ with objects := Function.update τ.objects i (some { spec with
          verifyPeer := if spec.initialized then isEnabled else spec.verifyPeer }) } := by
  unfold HttpClient.verify
  cases hhandle : client.curl with
  | none =>
    have hinitialized : ¬ spec.initialized = true := by
      rw [hspec.initialized, hhandle]
      exact Bool.false_ne_true
    refine ⟨σ.curl, rfl, ?_⟩
    rw [if_neg hinitialized]
    have hself : Function.update τ.objects i (some spec) = τ.objects := by
      rw [← hτ, Function.update_eq_self]
    rw [hself]
    exact h
  | some handle =>
    have hinitialized : spec.initialized = true := by
      rw [hspec.initialized, hhandle]
      rfl
    obtain ⟨hmem, hsetUp⟩ := hspec.handle handle hhandle
    obtain ⟨k, hset, hadds⟩ := hcurl.easySetopt σ.curl handle hmem
      (.sslVerifyPeer (if isEnabled then 1 else 0)) trivial
    refine ⟨k, hset, ?_⟩
    rw [if_pos hinitialized]
    have hself : Function.update σ.objects i (some client) = σ.objects := by
      rw [← hi, Function.update_eq_self]
    have hmatches : Matches curl k client { spec with verifyPeer := isEnabled } := by
      refine ⟨hspec.host, hspec.lastResponseCode, hspec.initialized, fun handle' hhandle' => ?_⟩
      obtain rfl := Option.some.inj (hhandle.symm.trans hhandle')
      refine ⟨hadds.mem.mpr hmem, ?_⟩
      rw [hadds.options_self]
      constructor
      · rw [last_append]
        exact hsetUp.tcpKeepAlive
      · rw [last_append]
        exact hsetUp.acceptEncoding
      · rw [last_append]
        rfl
      · rw [last_append]
        exact hsetUp.sslVerifyHost
    have hrepresents := h.setClient hi hhandle rfl hadds hmatches σ.calls σ.log
    rw [hself, h.log] at hrepresents
    exact ⟨hrepresents.owned, hrepresents.client, h.log⟩

end

/-- A client takes the handle of another over. -/
theorem Represents.move (h : Represents curl σ τ) {i j : ι} {other : HttpClient}
    {spec : ClientSpec} (hi : σ.objects i = none) (hj : σ.objects j = some other)
    (hτ : τ.objects j = some spec) (left : Text) :
    Represents curl { σ with
        objects := Function.update (Function.update σ.objects i (some other)) j
          (some { other with curl := none, host := left }) }
      { τ with
        objects := Function.update (Function.update τ.objects i (some spec)) j
          (some { spec with initialized := false, host := left }) } := by
  have hij : i ≠ j := by
    rintro rfl
    rw [hi] at hj
    cases hj
  obtain ⟨spec', hτ', hspec⟩ := h.objects_eq_some hj
  obtain rfl := Option.some.inj (hτ.symm.trans hτ')
  have hslot : handles σ.objects i = none := by
    rw [handles, hi]
    rfl
  have hother : handles σ.objects j = other.curl := by
    rw [handles, hj]
    rfl
  refine ⟨?_, ?_, h.log⟩
  · show Owned (handles (Function.update (Function.update σ.objects i _) j _))
      (curl.handles σ.curl).val
    rw [handles_update, handles_update, Option.bind_some, Option.bind_some, ← hother]
    exact h.owned.move hij hslot
  · refine rel_update (fun l _ => rel_update (fun l' _ => h.client l') (.some hspec) l)
      (.some ⟨rfl, hspec.lastResponseCode, rfl, ?_⟩)
    rintro handle ⟨⟩

/-- A request without a handle. -/
theorem Represents.refuse (h : Represents curl σ τ) {i : ι} {client : HttpClient}
    (hi : σ.objects i = some client) (calls : ℕ) (entry : Option Request × Except Text Text) :
    Represents curl ⟨σ.curl, calls, Function.update σ.objects i (some client), σ.log ++ [entry]⟩
      { τ with log := τ.log ++ [entry] } := by
  rw [← hi, Function.update_eq_self]
  refine ⟨h.owned, h.client, ?_⟩
  show σ.log ++ [entry] = τ.log ++ [entry]
  rw [h.log]

/-- A request that is made. -/
theorem Represents.request (h : Represents curl σ τ) {i : ι} {client : HttpClient}
    {spec : ClientSpec} (hi : σ.objects i = some client) (hspec : Matches curl σ.curl client spec)
    {handle : ℕ} (hhandle : client.curl = some handle) {k : K} {added : List CurlOption}
    (hadds : curl.Adds σ.curl k handle added) (hsetUp : SetUp (curl.options k handle) spec.settings)
    (transfer : Transfer) (entry : Option Request × Except Text Text) :
    Represents curl (σ.finish i (entry, { client with
        lastResponseCode := HttpClient.responseCode transfer client.lastResponseCode }, k))
      ⟨Function.update τ.objects i (some { spec with
        lastResponseCode := HttpClient.responseCode transfer spec.lastResponseCode }),
        τ.log ++ [entry]⟩ := by
  have hmem := (hspec.handle handle hhandle).1
  have hmatches : Matches curl k
      { client with
        lastResponseCode := HttpClient.responseCode transfer client.lastResponseCode }
      { spec with
        lastResponseCode := HttpClient.responseCode transfer spec.lastResponseCode } := by
    refine ⟨hspec.host, ?_, hspec.initialized, fun handle' hhandle' => ?_⟩
    · show HttpClient.responseCode transfer spec.lastResponseCode =
        HttpClient.responseCode transfer client.lastResponseCode
      rw [hspec.lastResponseCode]
    · obtain rfl := Option.some.inj (hhandle.symm.trans hhandle')
      exact ⟨hadds.mem.mpr hmem, hsetUp⟩
  rw [← h.log]
  exact h.setClient hi hhandle (by rfl) hadds hmatches (σ.calls + 1) (σ.log ++ [entry])

/-! ### Runs -/

variable {L : Type} {slist : CurlSlist L} {platform : Platform}

/-- A call that does what `rawGet_eq` and `rawPost_eq` say. -/
theorem Represents.call (h : Represents curl σ τ) {i : ι} {client : HttpClient} {spec : ClientSpec}
    (hi : σ.objects i = some client) (hτ : τ.objects i = some spec)
    (hspec : Matches curl σ.curl client spec) {path : Text} {headers : List Header}
    {body defaultContentType : Option Text} {transfer : Transfer}
    {result : Option ((Option Request × Except Text Text) × HttpClient × K)}
    (hundefined : HttpClient.fullUrl client.host path = none → result = none)
    (hnull : ∀ url, HttpClient.fullUrl client.host path = some url → client.curl = none →
      result = some ((none, .error (text "CURL not initialized")), client, σ.curl))
    (hrequest : ∀ url handle, HttpClient.fullUrl client.host path = some url →
      client.curl = some handle → ∃ k added, curl.Adds σ.curl k handle added ∧
        SetUp (curl.options k handle) spec.settings ∧
          result = some ((some ⟨cString url, slist.strings
            (HttpClient.buildHeadersList slist headers defaultContentType).list, body,
            spec.settings⟩, HttpClient.response transfer),
          { client with
            lastResponseCode := HttpClient.responseCode transfer client.lastResponseCode }, k)) :
    Option.Rel (Represents curl) (result.map (σ.finish i))
      (τ.call slist i path headers body defaultContentType transfer) := by
  have hfull : HttpClient.fullUrl spec.host path = HttpClient.fullUrl client.host path := by
    rw [hspec.host]
  unfold ClientSpecs.call
  rw [hτ]
  dsimp only
  rw [hfull]
  cases hurl : HttpClient.fullUrl client.host path with
  | none =>
    rw [hundefined hurl]
    exact .none
  | some url =>
    cases hhandle : client.curl with
    | none =>
      have hinitialized : ¬ spec.initialized = true := by
        rw [hspec.initialized, hhandle]
        exact Bool.false_ne_true
      rw [hnull url hurl hhandle, Option.map_some, Option.map_some, if_neg hinitialized]
      exact .some (h.refuse hi (σ.calls + 1) _)
    | some handle =>
      have hinitialized : spec.initialized = true := by
        rw [hspec.initialized, hhandle]
        rfl
      obtain ⟨k, added, hadds, hsetUp, hresult⟩ := hrequest url handle hurl hhandle
      rw [hresult, Option.map_some, Option.map_some, if_pos hinitialized]
      exact .some (h.request hi hspec hhandle hadds hsetUp transfer _)

/-- libcurl takes the URL of `path`. -/
def TakesUrl (curl : LibCurl K) (τ : ClientSpecs ι) (i : ι) (path : Text) : Prop :=
  ∀ spec ∈ τ.objects i, ∀ url ∈ HttpClient.fullUrl spec.host path,
    (cString url).length ≤ curl.maxLength

/-- A URL is no longer than libcurl takes, and the size of a body is a `long`. -/
def Fits (curl : LibCurl K) (platform : Platform) (τ : ClientSpecs ι) : Event ι → Prop
  | .get i path _ _ _ => TakesUrl curl τ i path
  | .post i path _ body _ _ => TakesUrl curl τ i path ∧ body.length ≤ platform.longMax
  | _ => True

/-- A step of the machine is a step of what it is for. -/
theorem Represents.step (hcurl : curl.Documented) (hslist : slist.Documented)
    (h : Represents curl σ τ) {event : Event ι} (hfits : Fits curl platform τ event) :
    Option.Rel (Represents curl) (σ.step curl slist platform event) (τ.step slist event) := by
  cases event with
  | create i host initialized =>
    cases hi : σ.objects i with
    | none =>
      have hτ := h.objects_eq_none hi
      obtain ⟨client, k, hconstruct, hcreated⟩ := h.create hcurl hi host initialized
      simp only [HttpClients.step, ClientSpecs.step, hi, hτ, hconstruct]
      exact .some hcreated
    | some client =>
      obtain ⟨spec, hτ, -⟩ := h.objects_eq_some hi
      simp only [HttpClients.step, ClientSpecs.step, hi, hτ]
      exact .none
  | moveConstruct i j left =>
    cases hi : σ.objects i with
    | none =>
      have hτ := h.objects_eq_none hi
      cases hj : σ.objects j with
      | none =>
        have hτ' := h.objects_eq_none hj
        simp only [HttpClients.step, ClientSpecs.step, hi, hτ, hj, hτ']
        exact .none
      | some other =>
        obtain ⟨spec, hτ', -⟩ := h.objects_eq_some hj
        simp only [HttpClients.step, ClientSpecs.step, hi, hτ, hj, hτ']
        exact .some (h.move hi hj hτ' left)
    | some client =>
      obtain ⟨spec, hτ, -⟩ := h.objects_eq_some hi
      simp only [HttpClients.step, ClientSpecs.step, hi, hτ]
      exact .none
  | assign i j left =>
    cases hi : σ.objects i with
    | none =>
      have hτ := h.objects_eq_none hi
      simp only [HttpClients.step, ClientSpecs.step, hi, hτ]
      exact .none
    | some this =>
      obtain ⟨spec, hτ, -⟩ := h.objects_eq_some hi
      cases hj : σ.objects j with
      | none =>
        have hτ' := h.objects_eq_none hj
        simp only [HttpClients.step, ClientSpecs.step, hi, hτ, hj, hτ']
        exact .none
      | some other =>
        obtain ⟨spec', hτ', -⟩ := h.objects_eq_some hj
        simp only [HttpClients.step, ClientSpecs.step, hi, hτ, hj, hτ']
        by_cases hij : i = j
        · rw [if_pos hij, if_pos hij]
          exact .some h
        · -- an assignment is the end of what was there and a move into its place
          obtain ⟨k, hcleanup, hgone⟩ := h.destroy hcurl hi
          rw [if_neg hij, if_neg hij, hcleanup]
          have hmoved := hgone.move (Function.update_self _ _ _)
            ((Function.update_of_ne (Ne.symm hij) _ _).trans hj)
            ((Function.update_of_ne (Ne.symm hij) _ _).trans hτ') left
          simp only [Function.update_idem] at hmoved
          exact .some hmoved
  | destroy i =>
    cases hi : σ.objects i with
    | none =>
      have hτ := h.objects_eq_none hi
      simp only [HttpClients.step, ClientSpecs.step, hi, hτ]
      exact .none
    | some client =>
      obtain ⟨spec, hτ, -⟩ := h.objects_eq_some hi
      obtain ⟨k, hcleanup, hgone⟩ := h.destroy hcurl hi
      simp only [HttpClients.step, ClientSpecs.step, hi, hτ, hcleanup]
      exact .some hgone
  | verify i isEnabled =>
    cases hi : σ.objects i with
    | none =>
      have hτ := h.objects_eq_none hi
      simp only [HttpClients.step, ClientSpecs.step, hi, hτ]
      exact .none
    | some client =>
      obtain ⟨spec, hτ, hspec⟩ := h.objects_eq_some hi
      obtain ⟨k, hset, hverified⟩ := h.verify hcurl hi hτ hspec isEnabled
      simp only [HttpClients.step, ClientSpecs.step, hi, hτ, hset]
      exact .some hverified
  | get i path headers defaultContentType transfer =>
    cases hi : σ.objects i with
    | none =>
      have hτ := h.objects_eq_none hi
      simp only [HttpClients.step, ClientSpecs.step, ClientSpecs.call, hi, hτ]
      exact .none
    | some client =>
      obtain ⟨spec, hτ, hspec⟩ := h.objects_eq_some hi
      simp only [HttpClients.step, ClientSpecs.step, hi]
      apply h.call hi hτ hspec
      · intro hurl
        rw [HttpClient.rawGet, hurl]
        rfl
      · intro url hurl hnull
        rw [HttpClient.rawGet, hurl, hnull]
        simp [hcurl.easySetopt_null, HttpClient.performRequest, hnull]
      · intro url handle hurl hhandle
        obtain ⟨hmem, hsetUp⟩ := hspec.handle handle hhandle
        have htaken : (cString url).length ≤ curl.maxLength := by
          apply hfits spec hτ
          rw [hspec.host]
          exact hurl
        exact HttpClient.rawGet_eq hslist hcurl hhandle hmem hsetUp hurl htaken headers
          defaultContentType transfer
  | post i path headers body defaultContentType transfer =>
    cases hi : σ.objects i with
    | none =>
      have hτ := h.objects_eq_none hi
      simp only [HttpClients.step, ClientSpecs.step, ClientSpecs.call, hi, hτ]
      exact .none
    | some client =>
      obtain ⟨spec, hτ, hspec⟩ := h.objects_eq_some hi
      simp only [HttpClients.step, ClientSpecs.step, hi]
      apply h.call hi hτ hspec
      · intro hurl
        rw [HttpClient.rawPost, hurl]
        rfl
      · intro url hurl hnull
        rw [HttpClient.rawPost, hurl, hnull]
        simp [hcurl.easySetopt_null, HttpClient.performRequest, hnull]
      · intro url handle hurl hhandle
        obtain ⟨hmem, hsetUp⟩ := hspec.handle handle hhandle
        have htaken : (cString url).length ≤ curl.maxLength := by
          apply hfits.1 spec hτ
          rw [hspec.host]
          exact hurl
        exact HttpClient.rawPost_eq hslist hcurl hhandle hmem hsetUp hurl htaken headers hfits.2
          defaultContentType transfer

/-- A `POST`, a `GET` with the same handle after a move, and a request without a handle. -/
def session : List (Event Bool) :=
  [.create false (text "h") true, .verify false false,
    .post false (text "a") [] (text "body") (some (text "t")) (.ok ([text "x", text "y"], 201)),
    .moveConstruct true false [],
    .get true (text "/b") [(text "K", text "v")] none (.ok ([], 404)),
    .get false (text "/c") [] none (.ok ([], 200))]

end HttpClients

end IACore
