import IACore.HttpCommon

/-!
# `build_headers_list`

The headers of a request as a list of strings of libcurl, one line for each.  That list is a
parameter, as libcurl is not part of the sources.
-/

namespace IACore

/-- `curl_slist`; the null pointer is `none`. -/
structure CurlSlist (L : Type) where
  /-- `curl_slist_append`. -/
  append : Option L → Text → Option L
  /-- The strings of a list, in order. -/
  strings : Option L → List Text

/-- The null pointer is the empty list, and a string is appended if there is memory for it. -/
structure CurlSlist.Documented {L : Type} (slist : CurlSlist L) : Prop where
  strings_none : slist.strings none = []
  strings_append : ∀ list s, slist.strings (slist.append list s) = slist.strings list ++ [s]

/-- A list of strings that there is always memory for. -/
def stringList : CurlSlist (List Text) where
  append := fun list s => some (list.getD [] ++ [s])
  strings := fun list => list.getD []

theorem stringList_documented : stringList.Documented := ⟨rfl, fun _ _ => rfl⟩

/-- `CurlHeaders`. -/
structure CurlHeaders (L : Type) where
  list : Option L

namespace HttpClient

open HttpCommon

variable {L : Type} (slist : CurlSlist L)

/-- The line of a header. -/
def headerLine (h : Header) : Text := h.1 ++ text ": " ++ h.2

/-- `CurlHeaders::add` of a key and a value. -/
def add (headers : CurlHeaders L) (key value : Text) : CurlHeaders L :=
  -- The line is passed by `c_str()`.
  ⟨slist.append headers.list (cString (headerLine (key, value)))⟩

/-- One turn of the loop of `build_headers_list`. -/
def headersTurn : CurlHeaders L × Bool → Header → CurlHeaders L × Bool
  | (out, hasContentType), h =>
    let out := add slist out h.1 h.2
    if h.1 = headerTypeToString .contentType then (out, true) else (out, hasContentType)

/-- `build_headers_list`, where `none` is the null pointer. -/
def buildHeadersList (headers : List Header) (defaultContentType : Option Text) : CurlHeaders L :=
  let (out, hasContentType) := headers.foldl (headersTurn slist) (⟨none⟩, false)
  match hasContentType, defaultContentType with
  | false, some contentType => add slist out (text "Content-Type") (cString contentType)
  | _, _ => out

/-! ### The lines of a request -/

/-- A header of the caller is named `Content-Type`, in some spelling. -/
def HasContentType (headers : List Header) : Prop :=
  ∃ h ∈ headers, SameName h.1 (text "Content-Type")

instance (headers : List Header) : Decidable (HasContentType headers) :=
  inferInstanceAs (Decidable (∃ h ∈ headers, SameName h.1 (text "Content-Type")))

/-- The lines of the caller's headers, and of the default unless one of them takes its place. -/
def requestLines (headers : List Header) (contentType : Text) : List Text :=
  headers.map headerLine ++
    if HasContentType headers then [] else [headerLine (text "Content-Type", contentType)]

end HttpClient

end IACore
