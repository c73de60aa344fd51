import IACore.HttpClient

/-!
# The default content type of a request

The loop of `build_headers_list` appends the line of each header as far as its first NUL, and looks
for the name `Content-Type` in this very spelling (`strings_foldl`).  So it builds the lines of the
request for headers without a NUL that have this name in no other spelling alone
(`buildHeadersList_eq_iff`), such as the headers of `create_header`
(`strings_createHeader`).
-/

namespace IACore

namespace HttpClient

open HttpCommon

/-- A line has a NUL just if the key or the value has one. -/
theorem zero_mem_headerLine {h : Header} : 0 ∈ headerLine h ↔ 0 ∈ h.1 ∨ 0 ∈ h.2 := by
  have hseparator : 0 ∉ text ": " := by decide
  rw [headerLine, List.mem_append, List.mem_append, or_iff_left hseparator]

theorem cString_headerLine_eq_iff {h : Header} :
    cString (headerLine h) = headerLine h ↔ 0 ∉ h.1 ∧ 0 ∉ h.2 := by
  rw [cString_eq_self_iff, zero_mem_headerLine, not_or]

/-- No other name of the enumeration is a spelling of `Content-Type`. -/
theorem headerTypeToString_sameName {key : EHeaderType}
    (h : SameName (headerTypeToString key) (text "Content-Type")) : key = .contentType := by
  revert h
  cases key <;> decide

theorem zero_notMem_headerTypeToString (key : EHeaderType) : 0 ∉ headerTypeToString key := by
  cases key <;> decide

theorem hasContentType_of_eq {headers : List Header}
    (h : ∃ h ∈ headers, h.1 = text "Content-Type") : HasContentType headers := by
  obtain ⟨h, hh, hname⟩ := h
  refine ⟨h, hh, ?_⟩
  rw [hname]
  rfl

section

variable {L : Type} {slist : CurlSlist L} (hslist : slist.Documented)
include hslist

/-- What the loop leaves in the list and in the flag. -/
theorem strings_foldl (headers : List Header) (out : CurlHeaders L) (hasContentType : Bool) :
    slist.strings (headers.foldl (headersTurn slist) (out, hasContentType)).1.list =
        slist.strings out.list ++ headers.map (fun h => cString (headerLine h)) ∧
      ((headers.foldl (headersTurn slist) (out, hasContentType)).2 = true ↔
        hasContentType = true ∨ ∃ h ∈ headers, h.1 = text "Content-Type") := by
  induction headers generalizing out hasContentType with
  | nil => simp
  | cons h headers ih =>
    rw [List.foldl_cons]
    have hadd : slist.strings (add slist out h.1 h.2).list =
        slist.strings out.list ++ [cString (headerLine h)] :=
      hslist.strings_append out.list _
    by_cases hname : h.1 = text "Content-Type"
    · have hturn : headersTurn slist (out, hasContentType) h = (add slist out h.1 h.2, true) :=
        if_pos hname
      rw [hturn, (ih _ _).1, (ih _ _).2, hadd]
      simp [hname]
    · have hturn : headersTurn slist (out, hasContentType) h =
          (add slist out h.1 h.2, hasContentType) :=
        if_neg hname
      rw [hturn, (ih _ _).1, (ih _ _).2, hadd]
      simp [hname]

/-- The strings that `build_headers_list` leaves in the list; a null pointer adds none. -/
theorem strings_buildHeadersList (headers : List Header) (defaultContentType : Option Text) :
    slist.strings (buildHeadersList slist headers defaultContentType).list =
      headers.map (fun h => cString (headerLine h)) ++
        if ∃ h ∈ headers, h.1 = text "Content-Type" then []
        else (defaultContentType.map fun contentType =>
          headerLine (text "Content-Type", cString contentType)).toList := by
  have hloop := strings_foldl hslist headers ⟨none⟩ false
  rw [hslist.strings_none, List.nil_append] at hloop
  unfold buildHeadersList
  generalize headers.foldl (headersTurn slist) (⟨none⟩, false) = result at hloop ⊢
  rcases result with ⟨out, hasContentType⟩
  obtain ⟨hout, hflag⟩ := hloop
  rw [← hout]
  cases hasContentType with
  | true =>
    have hexact : ∃ h ∈ headers, h.1 = text "Content-Type" := by simpa using hflag
    rw [if_pos hexact]
    exact (List.append_nil _).symm
  | false =>
    have hexact : ¬∃ h ∈ headers, h.1 = text "Content-Type" := by simpa using hflag
    rw [if_neg hexact]
    cases defaultContentType with
    | none => exact (List.append_nil _).symm
    | some contentType =>
      have hname : 0 ∉ text "Content-Type" := by decide
      have hline : cString (headerLine (text "Content-Type", cString contentType)) =
          headerLine (text "Content-Type", cString contentType) :=
        cString_headerLine_eq_iff.mpr ⟨hname, zero_notMem_cString contentType⟩
      rw [Option.map_some, Option.toList_some, ← hline]
      exact hslist.strings_append out.list _

theorem strings_eq_requestLines {headers : List Header}
    (hnul : ∀ h ∈ headers, 0 ∉ h.1 ∧ 0 ∉ h.2)
    (hspelling : HasContentType headers → ∃ h ∈ headers, h.1 = text "Content-Type")
    (contentType : Text) :
    slist.strings (buildHeadersList slist headers (some contentType)).list =
      requestLines headers (cString contentType) := by
  have hlines : headers.map (fun h => cString (headerLine h)) = headers.map headerLine := by
    rw [List.map_inj_left]
    intro h hh
    exact cString_headerLine_eq_iff.mpr (hnul h hh)
  have hany : (∃ h ∈ headers, h.1 = text "Content-Type") ↔ HasContentType headers :=
    ⟨hasContentType_of_eq, hspelling⟩
  rw [strings_buildHeadersList hslist, requestLines, hlines]
  simp only [hany]
  rfl

/-- The headers of `create_header` have their names in the spelling that is looked for. -/
theorem strings_createHeader {headers : List Header}
    (h : ∀ h ∈ headers, ∃ key value, h = createHeader key value ∧ 0 ∉ value)
    (contentType : Text) :
    slist.strings (buildHeadersList slist headers (some contentType)).list =
      requestLines headers (cString contentType) := by
  apply strings_eq_requestLines hslist
  · intro header hh
    obtain ⟨key, value, rfl, hvalue⟩ := h header hh
    exact ⟨zero_notMem_headerTypeToString key, hvalue⟩
  · rintro ⟨header, hh, hname⟩
    obtain ⟨key, value, rfl, -⟩ := h header hh
    have hkey : key = .contentType := headerTypeToString_sameName hname
    exact ⟨_, hh, by rw [hkey]; rfl⟩

/-- **The lines are those of the request** just if every line goes through as a C string in full,
and a content type of the caller is one in the spelling that is looked for. -/
theorem buildHeadersList_eq_iff (headers : List Header) (contentType : Text) :
    slist.strings (buildHeadersList slist headers (some contentType)).list =
        requestLines headers (cString contentType) ↔
      (∀ h ∈ headers, 0 ∉ h.1 ∧ 0 ∉ h.2) ∧
        (HasContentType headers → ∃ h ∈ headers, h.1 = text "Content-Type") := by
  constructor
  · intro h
    rw [strings_buildHeadersList hslist, requestLines] at h
    -- The headers have as many lines on either side, so what follows them is equal as well.
    obtain ⟨hlines, hdefault⟩ := List.append_inj h (by rw [List.length_map, List.length_map])
    constructor
    · intro h hh
      exact cString_headerLine_eq_iff.mp (List.map_inj_left.mp hlines h hh)
    · intro hany
      by_contra hexact
      rw [if_neg hexact, if_pos hany] at hdefault
      exact List.cons_ne_nil _ _ hdefault
  · rintro ⟨hnul, hspelling⟩
    exact strings_eq_requestLines hslist hnul hspelling contentType

end

/-- A content type of the caller takes the place of the default. -/
theorem buildHeadersList_caller :
    stringList.strings (buildHeadersList stringList
        [(text "Content-Type", text "application/json")]
        (some (text "application/x-www-form-urlencoded"))).list =
      requestLines [(text "Content-Type", text "application/json")]
        (cString (text "application/x-www-form-urlencoded")) := by
  rw [buildHeadersList_eq_iff stringList_documented]
  decide

/-- With its name in small letters it is not found, and the default is a second one. -/
theorem buildHeadersList_second :
    stringList.strings (buildHeadersList stringList
        [(text "content-type", text "application/json")]
        (some (text "application/x-www-form-urlencoded"))).list ≠
      requestLines [(text "content-type", text "application/json")]
        (cString (text "application/x-www-form-urlencoded")) := by
  decide +kernel

end HttpClient

end IACore
