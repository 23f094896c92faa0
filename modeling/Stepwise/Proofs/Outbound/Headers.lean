import Mathlib.Data.List.Nodup
import Mathlib.Tactic.Common
import Stepwise.Outbound.Call
import Stepwise.Proofs.Json.Received

/-!
# The headers that a call is sent with

The headers of a caller are merged over the content type of JSON by their exact names, and sent in
lower case. A content type of the caller takes the place of the default only if it is spelt as the
default is; spelt otherwise it is sent besides the default. Every other header is sent once.
-/

namespace Stepwise.Outbound

/-- Headers as they come from a caller: each name with its value. -/
abbrev Headers := List (String × String)

/-- Headers as fields. -/
def Headers.toFields (headers : Headers) : Fields :=
  headers.map fun header => (.text header.1, .text header.2)

/-- No character outside ASCII. -/
def IsAscii (s : String) : Prop := ∀ c ∈ s.toList, c.toNat ≤ 127

instance (s : String) : Decidable (IsAscii s) :=
  decidable_of_iff (s.toList.all (·.toNat ≤ 127) = true) (by simp [IsAscii])

/-- The name of the content type, in any case. -/
def isContentType (name : String) : Bool := name.toLower == "content-type"

/-- The content types among the headers of a caller. -/
def Headers.contentTypes (headers : Headers) : Headers := headers.filter (isContentType ·.1)

/-- The content type that a caller wants: its own, or else that of JSON. -/
def Headers.contentType (headers : Headers) : String :=
  (headers.contentTypes.head?.map (·.2)).getD "application/json"

/-- A content type is spelt in another case than that of the default. -/
def Headers.Respells (headers : Headers) : Prop :=
  ∃ header ∈ headers.contentTypes, header.1 ≠ "Content-Type"

instance (headers : Headers) : Decidable headers.Respells :=
  inferInstanceAs (Decidable (∃ header ∈ headers.contentTypes, header.1 ≠ "Content-Type"))

/-- A header with its name in lower case. -/
def lowered (header : String × String) : String × String := (header.1.toLower, header.2)

/-- The default content type, replaced by one of exactly its name, and the other headers. -/
def Headers.withDefault (headers : Headers) : Headers :=
  ("Content-Type", (headers.lookup "Content-Type").getD "application/json") ::
    headers.filter (·.1 != "Content-Type")

variable {headers before : Headers} {name value : String}

/-! ## Merging -/

theorem toFields_cons (header : String × String) (headers : Headers) :
    Headers.toFields (header :: headers) =
      (.text header.1, .text header.2) :: headers.toFields := rfl

theorem toFields_append (headers others : Headers) :
    Headers.toFields (headers ++ others) = headers.toFields ++ others.toFields := List.map_append

theorem set_toFields_first (new : String) :
    (Headers.toFields ((name, value) :: before)).set (.text name) (.text new) =
      Headers.toFields ((name, new) :: before) := by
  simp [toFields_cons, Fields.set]

theorem set_toFields_new (h : ∀ header ∈ headers, header.1 ≠ name) :
    headers.toFields.set (.text name) (.text value) =
      Headers.toFields (headers ++ [(name, value)]) := by
  rw [toFields_append]
  refine Fields.set_of_absent (fun field hfield => ?_) _
  obtain ⟨header, hheader, rfl⟩ := List.mem_map.mp hfield
  simpa using h header hheader

/-- Merged over a header, headers with other names come after it, and one of its name takes its
place. -/
theorem merge_toFields (hdistinct : (headers.map (·.1)).Nodup)
    (hapart : ∀ header ∈ headers, ∀ old ∈ before, old.1 ≠ header.1) :
    (Headers.toFields ((name, value) :: before)).merge headers.toFields =
      Headers.toFields ((name, (headers.lookup name).getD value) ::
        (before ++ headers.filter (·.1 != name))) := by
  induction headers generalizing value before with
  | nil => simp [Headers.toFields, Fields.merge]
  | cons header rest ih =>
    obtain ⟨other, new⟩ := header
    obtain ⟨hnew, hrest⟩ := List.nodup_cons.mp hdistinct
    obtain ⟨hfirst, hlater⟩ := List.forall_mem_cons.mp hapart
    show Fields.merge (Fields.set _ (.text other) (.text new)) (Headers.toFields rest) = _
    by_cases hname : other = name
    · subst hname
      have hnone : rest.lookup other = none := List.lookup_eq_none_iff.mpr fun later hlater => by
        simpa using fun heq => hnew (List.mem_map.mpr ⟨later, hlater, heq.symm⟩)
      rw [set_toFields_first, ih hrest hlater, hnone]
      simp
    · have hset : (Headers.toFields ((name, value) :: before)).set (.text other) (.text new) =
          Headers.toFields ((name, value) :: (before ++ [(other, new)])) := by
        refine set_toFields_new (List.forall_mem_cons.mpr ⟨Ne.symm hname, hfirst⟩)
      have hapart' : ∀ header ∈ rest, ∀ old ∈ before ++ [(other, new)], old.1 ≠ header.1 := by
        intro later hmem old hold
        obtain hold | hold := List.mem_append.mp hold
        · exact hlater later hmem old hold
        · rw [List.mem_singleton.mp hold]
          exact fun heq => hnew (List.mem_map.mpr ⟨later, hmem, heq.symm⟩)
      have hlookup : ((other, new) :: rest).lookup name = rest.lookup name := by
        rw [List.lookup_cons, beq_eq_false_iff_ne.mpr (Ne.symm hname)]
      rw [hset, ih hrest hapart', hlookup]
      simp [hname]

theorem merge_jsonHeaders (hdistinct : (headers.map (·.1)).Nodup) :
    jsonHeaders.merge headers.toFields = headers.withDefault.toFields :=
  merge_toFields hdistinct fun _ _ _ hold => absurd hold List.not_mem_nil

/-! ## Sending -/

theorem asciiText_eq_ok_iff {s sent : String} : asciiText s = .ok sent ↔ IsAscii s ∧ sent = s := by
  unfold asciiText
  have hwide : (s.toList.any fun c => decide (127 < c.toNat)) = true ↔ ¬ IsAscii s := by
    simp [IsAscii]
  by_cases hascii : IsAscii s
  · rw [if_neg (by rw [hwide]; exact not_not.mpr hascii)]
    simp [hascii, eq_comm]
  · rw [if_pos (hwide.mpr hascii)]
    simp [hascii]

theorem sendHeader_text (name value : String) : sendHeader (.text name, .text value) =
    asciiText name >>= fun name => asciiText value >>= fun value => .ok (name.toLower, value) := rfl

theorem sendHeader_eq_ok_iff {sent : String × String} :
    sendHeader (.text name, .text value) = .ok sent ↔
      (IsAscii name ∧ IsAscii value) ∧ lowered (name, value) = sent := by
  rw [sendHeader_text]
  constructor
  · intro h
    obtain ⟨name', hname, hrest⟩ := Except.ok_of_bind h
    obtain ⟨value', hvalue, hsent⟩ := Except.ok_of_bind hrest
    obtain ⟨hname, rfl⟩ := asciiText_eq_ok_iff.mp hname
    obtain ⟨hvalue, rfl⟩ := asciiText_eq_ok_iff.mp hvalue
    exact ⟨⟨hname, hvalue⟩, Except.ok.inj hsent⟩
  · rintro ⟨⟨hname, hvalue⟩, rfl⟩
    rw [asciiText_eq_ok_iff.mpr ⟨hname, rfl⟩, asciiText_eq_ok_iff.mpr ⟨hvalue, rfl⟩]
    rfl

/-- Headers are sent if they are ASCII, in their order and in lower case. -/
theorem mapM_sendHeader_eq_ok_iff {sent : List (String × String)} :
    headers.toFields.mapM sendHeader = .ok sent ↔
      (∀ header ∈ headers, IsAscii header.1 ∧ IsAscii header.2) ∧ headers.map lowered = sent := by
  rw [Except.mapM_eq_ok_iff, Headers.toFields, List.forall₂_map_left_iff]
  simp only [sendHeader_eq_ok_iff]
  rw [List.forall₂_and_left, ← List.forall₂_map_left_iff, List.forall₂_eq_eq_eq]

theorem isAscii_withDefault (h : ∀ header ∈ headers, IsAscii header.1 ∧ IsAscii header.2) :
    ∀ header ∈ headers.withDefault, IsAscii header.1 ∧ IsAscii header.2 := by
  have hname : IsAscii "Content-Type" := by decide
  have hdefault : IsAscii "application/json" := by decide
  refine List.forall_mem_cons.mpr ⟨⟨hname, ?_⟩, fun header hheader =>
    h header (List.mem_filter.mp hheader).1⟩
  cases hlookup : headers.lookup "Content-Type" with
  | none => exact hdefault
  | some value =>
    obtain ⟨before, after, hheaders, -⟩ := List.lookup_eq_some_iff.mp hlookup
    exact (h ("Content-Type", value) (by simp [hheaders])).2

/-- The parts of a call whose address, method and headers are texts. -/
theorem build_text (hdistinct : (headers.map (·.1)).Nodup) (url method : String) (body : Value) :
    Call.build (.text url) (.text method) (.object headers.toFields) body =
      headers.withDefault.toFields.mapM sendHeader >>= fun sent =>
        sendBody body >>= fun body => .ok ⟨method.toUpper, url, sent, body⟩ := by
  rw [← merge_jsonHeaders hdistinct]
  rfl

/-- A call is made of headers that are ASCII and a body without infinite numbers and NaN. -/
theorem exists_build (hdistinct : (headers.map (·.1)).Nodup)
    (hascii : ∀ header ∈ headers, IsAscii header.1 ∧ IsAscii header.2) {body : Value}
    (hbody : Json.isFinite body = true) (url method : String) :
    ∃ call, Call.build (.text url) (.text method) (.object headers.toFields) body = .ok call := by
  have hsent := mapM_sendHeader_eq_ok_iff.mpr ⟨isAscii_withDefault hascii, rfl⟩
  obtain ⟨text, htext⟩ : ∃ text, sendBody body = .ok text := by
    unfold sendBody
    split
    · exact ⟨_, rfl⟩
    · exact ⟨_, by rw [if_pos hbody]⟩
  rw [build_text hdistinct, hsent, htext]
  exact ⟨_, rfl⟩

theorem headers_of_build (hdistinct : (headers.map (·.1)).Nodup) {url method : String}
    {body : Value} {call : Call}
    (h : Call.build (.text url) (.text method) (.object headers.toFields) body = .ok call) :
    call.headers = headers.withDefault.map lowered := by
  rw [build_text hdistinct] at h
  obtain ⟨sent, hsent, h⟩ := Except.ok_of_bind h
  obtain ⟨text, -, h⟩ := Except.ok_of_bind h
  obtain rfl := Except.ok.inj h
  exact (mapM_sendHeader_eq_ok_iff.mp hsent).2.symm

/-! ## The content type -/

theorem isContentType_default : isContentType "Content-Type" = true := by decide +kernel

theorem lookup_contentTypes (headers : Headers) :
    headers.contentTypes.lookup "Content-Type" = headers.lookup "Content-Type" := by
  induction headers with
  | nil => rfl
  | cons header rest ih =>
    obtain ⟨name, value⟩ := header
    by_cases hname : name = "Content-Type"
    · simp [hname, Headers.contentTypes, isContentType_default]
    · have hother : ("Content-Type" == name) = false := beq_eq_false_iff_ne.mpr (Ne.symm hname)
      rw [List.lookup_cons, hother, ← ih, Headers.contentTypes, List.filter_cons]
      split_ifs
      · rw [List.lookup_cons, hother]
        rfl
      · rfl

theorem contentTypes_withDefault (headers : Headers) : headers.withDefault.contentTypes =
    ("Content-Type", (headers.contentTypes.lookup "Content-Type").getD "application/json") ::
      headers.contentTypes.filter (·.1 != "Content-Type") := by
  have hfirst (value : String) (rest : Headers) :
      Headers.contentTypes (("Content-Type", value) :: rest) =
        ("Content-Type", value) :: rest.contentTypes :=
    List.filter_cons_of_pos isContentType_default
  rw [Headers.withDefault, hfirst, lookup_contentTypes, Headers.contentTypes, Headers.contentTypes,
    List.filter_comm]

/-- The content types that are sent: the default or what replaces it, and those of another
spelling. -/
theorem sent_contentTypes (headers : Headers) :
    (headers.withDefault.map lowered).filter (·.1 == "content-type") =
      ("content-type", (headers.contentTypes.lookup "Content-Type").getD "application/json") ::
        (headers.contentTypes.filter (·.1 != "Content-Type")).map lowered := by
  have hname : "Content-Type".toLower = "content-type" := beq_iff_eq.mp isContentType_default
  have hlowered : (headers.withDefault.map lowered).filter (·.1 == "content-type") =
      headers.withDefault.contentTypes.map lowered := List.filter_map
  rw [hlowered, contentTypes_withDefault, List.map_cons, lowered, hname]

/-- All other headers are sent, once each and in their order. -/
theorem sent_others (headers : Headers) :
    (headers.withDefault.map lowered).filter (·.1 != "content-type") =
      (headers.filter (!isContentType ·.1)).map lowered := by
  have hlowered (headers : Headers) : (headers.map lowered).filter (·.1 != "content-type") =
      (headers.filter (!isContentType ·.1)).map lowered := List.filter_map
  rw [hlowered, Headers.withDefault, List.filter_cons_of_neg (by simp [isContentType_default]),
    List.filter_filter]
  congr 1
  refine List.filter_congr fun header _ => ?_
  by_cases hname : header.1 = "Content-Type"
  · simp [hname, isContentType_default]
  · simp [hname]

/-- The content types that are sent for at most one of the caller. -/
theorem sent_contentTypes_cases (hone : headers.contentTypes.length ≤ 1) :
    (¬ headers.Respells ∧ (headers.withDefault.map lowered).filter (·.1 == "content-type") =
      [("content-type", headers.contentType)]) ∨
    (headers.Respells ∧ (headers.withDefault.map lowered).filter (·.1 == "content-type") =
      [("content-type", "application/json"), ("content-type", headers.contentType)]) := by
  rw [sent_contentTypes, Headers.contentType, Headers.Respells]
  cases hown : headers.contentTypes with
  | nil => exact .inl ⟨by simp, rfl⟩
  | cons header rest =>
    obtain rfl : rest = [] := by simpa [hown] using hone
    obtain ⟨name, value⟩ := header
    by_cases hname : name = "Content-Type"
    · exact .inl ⟨by simp [hname], by simp [hname]⟩
    · have hother : ("Content-Type" == name) = false := beq_eq_false_iff_ne.mpr (Ne.symm hname)
      have hmem : (name, value) ∈ headers.contentTypes := hown ▸ List.mem_cons_self
      have htype : name.toLower = "content-type" := beq_iff_eq.mp (List.mem_filter.mp hmem).2
      exact .inr ⟨by simp [hname], by simp [hname, hother, List.lookup_cons, lowered, htype]⟩

/-- Of headers with distinct names and at most one content type, a call can be made if they are
ASCII. It carries one content type, the one that is wanted, if and only if the caller spells none
in another case than the default; if the caller does, the default is sent besides. Every other
header is sent once, with its value. -/
theorem content_type_sent_once_iff (hdistinct : (headers.map (·.1)).Nodup)
    (hone : headers.contentTypes.length ≤ 1) (url method : String) (body : Value) :
    ((∀ header ∈ headers, IsAscii header.1 ∧ IsAscii header.2) → Json.isFinite body = true →
      ∃ call, Call.build (.text url) (.text method) (.object headers.toFields) body = .ok call) ∧
    ∀ call, Call.build (.text url) (.text method) (.object headers.toFields) body = .ok call →
      (call.headers.filter (·.1 == "content-type") = [("content-type", headers.contentType)] ↔
        ¬ headers.Respells) ∧
      (headers.Respells → call.headers.filter (·.1 == "content-type") =
        [("content-type", "application/json"), ("content-type", headers.contentType)]) ∧
      call.headers.filter (·.1 != "content-type") =
        (headers.filter (!isContentType ·.1)).map fun header => (header.1.toLower, header.2) := by
  refine ⟨fun hascii hbody => exists_build hdistinct hascii hbody url method, ?_⟩
  intro call hcall
  rw [headers_of_build hdistinct hcall, sent_others]
  obtain ⟨hspelt, hsent⟩ | ⟨hspelt, hsent⟩ := sent_contentTypes_cases hone
  · exact ⟨iff_of_true hsent hspelt, fun h => absurd h hspelt, rfl⟩
  · refine ⟨iff_of_false ?_ (not_not.mpr hspelt), fun _ => hsent, rfl⟩
    rw [hsent]
    simp

/-- A content type spelt as the default is, beside another header in two spellings. -/
theorem custom_content_type_sent :
    let headers : Headers := [("X-Key", "1"), ("Content-Type", "text/plain"), ("x-key", "2")]
    ((headers.map (·.1)).Nodup ∧ headers.contentTypes.length ≤ 1) ∧
      ∃ call, Call.build (.text "https://api.example.com/hook") (.text "put")
          (.object headers.toFields) .null = .ok call ∧
        call.headers.filter (·.1 == "content-type") = [("content-type", "text/plain")] ∧
        call.headers.filter (·.1 != "content-type") = [("x-key", "1"), ("x-key", "2")] := by
  intro headers
  have hdistinct : (headers.map (·.1)).Nodup := by decide
  have hone : headers.contentTypes.length ≤ 1 := by decide +kernel
  have hall := content_type_sent_once_iff hdistinct hone "https://api.example.com/hook" "put" .null
  obtain ⟨call, hcall⟩ := hall.1 (by decide) rfl
  obtain ⟨honce, -, hothers⟩ := hall.2 call hcall
  have hspelt : ¬ headers.Respells := by decide +kernel
  have hwanted : headers.contentType = "text/plain" := by decide +kernel
  refine ⟨⟨hdistinct, hone⟩, call, hcall, hwanted ▸ honce.mpr hspelt, hothers.trans ?_⟩
  decide +kernel

/-- A content type in lower case is sent besides the default. -/
theorem lowercase_content_type_sent_twice :
    let headers : Headers := [("content-type", "text/plain")]
    ((headers.map (·.1)).Nodup ∧ headers.contentTypes.length ≤ 1) ∧
      ∃ call, Call.build (.text "https://api.example.com/hook") (.text "POST")
          (.object headers.toFields) .null = .ok call ∧
        call.headers = [("content-type", "application/json"), ("content-type", "text/plain")] := by
  intro headers
  have hdistinct : (headers.map (·.1)).Nodup := by decide
  have hone : headers.contentTypes.length ≤ 1 := by decide +kernel
  obtain ⟨call, hcall⟩ := @exists_build headers hdistinct (by decide) .null rfl
    "https://api.example.com/hook" "POST"
  refine ⟨⟨hdistinct, hone⟩, call, hcall, (headers_of_build hdistinct hcall).trans ?_⟩
  decide +kernel

end Stepwise.Outbound
