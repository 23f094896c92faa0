import Mathlib.Data.List.Nodup
import Mathlib.Tactic.Common
import Stepwise.Proofs.Signature.Decisive
import Stepwise.Store.Schema
import Stepwise.Trigger.Inbound

/-!
# Accepting calls, and the triggers that accept them

A call is accepted by the trigger at its address, if the trigger is active and admits the signature.
What is kept of its calls is their number and the time of the last one. An accepted call moves these
on, and a new trigger begins with none.
-/

namespace Stepwise

open Store

namespace Trigger

/-- The signature of a payload under the secret of a trigger; one that is not JSON has none. -/
def signed (row : TriggerRow) : Option Value → Except Fault String
  | some payload => Signature.sign (.ofValue payload) (Text.points row.secret)
  | none => .error (.unwritable false)

/-- The trigger is active, and the call is unsigned or signed as it should be. -/
def Welcomes (row : TriggerRow) (payload : Option Value) (signature : Option String) : Prop :=
  row.active = true ∧ (signature = none ∨ signature = some "" ∨
    ∃ s ∈ signature, (signed row payload).toOption = some s)

instance (row : TriggerRow) (payload : Option Value) (signature : Option String) :
    Decidable (Welcomes row payload signature) :=
  inferInstanceAs (Decidable (_ ∧ _))

theorem welcomes_iff {row : TriggerRow} {payload : Option Value} {signature : Option String} :
    Welcomes row payload signature ↔
      row.active = true ∧ admits row payload signature = .ok true := by
  unfold Welcomes admits
  refine and_congr_right fun _ => ?_
  cases signature with
  | none => simp
  | some s =>
    by_cases hempty : s = ""
    · simp [hempty]
    · cases payload with
      | none => simp [hempty, signed, Except.toOption]
      | some payload =>
        have hsigned : Signature.verify (.ofValue payload) (Text.points row.secret)
            (Text.points s) = .ok true ↔ signed row (some payload) = .ok s := by
          refine Signature.verifyWith_eq_ok_true_iff.trans ⟨?_, fun h => ⟨s, h, rfl⟩⟩
          rintro ⟨signature, hsign, hpoints⟩
          rw [Signature.points_injective hpoints]
          exact hsign
        have hoption : (signed row (some payload)).toOption = some s ↔
            signed row (some payload) = .ok s := by
          cases signed row (some payload) with
          | error fault => simp [Except.toOption]
          | ok signature => simp [Except.toOption]
        simp [hempty, hsigned, hoption]

/-- A call is neither admitted nor refused for its signature only if its payload has none. -/
theorem signed_of_admits {row : TriggerRow} {payload : Option Value} {signature : Option String}
    {fault : Fault} (h : admits row payload signature = .error fault) :
    signed row payload = .error fault := by
  unfold admits at h
  split at h
  next => cases h
  next s =>
    split_ifs at h
    cases payload with
    | none => exact congrArg _ (Except.error.inj h)
    | some payload =>
      change Signature.verify _ _ _ = _ at h
      unfold Signature.verify at h
      change (signed row (some payload) >>= _) = _ at h
      cases hsign : signed row (some payload) with
      | error fault' =>
        rw [hsign] at h
        exact congrArg _ (Except.error.inj h)
      | ok expected =>
        rw [hsign] at h
        change (Signature.encode (Text.points s) >>= _) = _ at h
        rw [Signature.encode_points] at h
        cases h

/-- What is kept of the calls of a trigger, and how it is found. -/
structure Book where
  id : String
  url : String
  count : Int
  last : Option Instant

/-- The book of a trigger. -/
def bookOf (row : TriggerRow) : Book := ⟨row.id, row.url, row.count, row.lastTriggered⟩

/-- No two triggers have one id or one address. -/
structure Distinct (rows : List TriggerRow) : Prop where
  ids : (rows.map (·.id)).Nodup
  urls : (rows.map (·.url)).Nodup

namespace Distinct

variable {rows rows' : List TriggerRow}

theorem sublist (h : Distinct rows) (hs : rows'.Sublist rows) : Distinct rows' :=
  ⟨h.ids.sublist (hs.map _), h.urls.sublist (hs.map _)⟩

theorem of_books (h : Distinct rows) (hb : rows'.map bookOf = rows.map bookOf) :
    Distinct rows' := by
  have hids := congrArg (List.map Book.id) hb
  have hurls := congrArg (List.map Book.url) hb
  rw [List.map_map, List.map_map] at hids hurls
  have hids' : rows'.map (·.id) = rows.map (·.id) := hids
  have hurls' : rows'.map (·.url) = rows.map (·.url) := hurls
  exact ⟨hids' ▸ h.ids, hurls' ▸ h.urls⟩

theorem map (h : Distinct rows) {f : TriggerRow → TriggerRow}
    (hf : ∀ row, (f row).id = row.id ∧ (f row).url = row.url) : Distinct (rows.map f) := by
  have hids : (rows.map f).map (·.id) = rows.map (·.id) := by
    rw [List.map_map]
    exact List.map_congr_left fun row _ => (hf row).1
  have hurls : (rows.map f).map (·.url) = rows.map (·.url) := by
    rw [List.map_map]
    exact List.map_congr_left fun row _ => (hf row).2
  exact ⟨hids ▸ h.ids, hurls ▸ h.urls⟩

theorem append (h : Distinct rows) {row : TriggerRow}
    (hr : ∀ old ∈ rows, old.id ≠ row.id ∧ old.url ≠ row.url) : Distinct (rows ++ [row]) := by
  constructor
  · rw [List.map_append, List.nodup_append']
    refine ⟨h.ids, List.nodup_singleton _, List.disjoint_singleton.mpr fun hmem => ?_⟩
    obtain ⟨old, hold, heq⟩ := List.mem_map.mp hmem
    exact (hr old hold).1 heq
  · rw [List.map_append, List.nodup_append']
    refine ⟨h.urls, List.nodup_singleton _, List.disjoint_singleton.mpr fun hmem => ?_⟩
    obtain ⟨old, hold, heq⟩ := List.mem_map.mp hmem
    exact (hr old hold).2 heq

theorem eq_of_id (h : Distinct rows) {a b : TriggerRow} (ha : a ∈ rows) (hb : b ∈ rows)
    (hid : a.id = b.id) : a = b := List.inj_on_of_nodup_map h.ids ha hb hid

theorem eq_of_url (h : Distinct rows) {a b : TriggerRow} (ha : a ∈ rows) (hb : b ∈ rows)
    (hurl : a.url = b.url) : a = b := List.inj_on_of_nodup_map h.urls ha hb hurl

end Distinct

/-! ## Calls -/

/-- The trigger of an id is at an address and welcomes a call. -/
def Accepts (rows : List TriggerRow) (id url : String) (payload : Option Value)
    (signature : Option String) : Prop :=
  ∃ row ∈ rows, row.id = id ∧ row.url = url ∧ Welcomes row payload signature

instance (rows : List TriggerRow) (id url : String) (payload : Option Value)
    (signature : Option String) : Decidable (Accepts rows id url payload signature) :=
  inferInstanceAs (Decidable (∃ row ∈ rows, _))

theorem find?_of_mem {tables : Tables} (h : Distinct tables.triggers) {row : TriggerRow}
    (hr : row ∈ tables.triggers) : find? tables row.url = some row := by
  unfold find?
  cases hfind : tables.triggers.find? (·.url == row.url) with
  | none => simpa using List.find?_eq_none.mp hfind row hr
  | some found =>
    have hurl : found.url = row.url := by simpa using List.find?_some hfind
    rw [h.eq_of_url (List.mem_of_find?_eq_some hfind) hr hurl]

/-- No other trigger accepts the call. -/
theorem Accepts.id_eq {rows : List TriggerRow} (h : Distinct rows) {row : TriggerRow}
    (hr : row ∈ rows) {id : String} {payload : Option Value} {signature : Option String}
    (ha : Accepts rows id row.url payload signature) : id = row.id := by
  obtain ⟨other, hother, hid, hurl, _⟩ := ha
  rw [← hid, h.eq_of_url hother hr hurl]

theorem accept_eq (now : Instant) (url : String) (payload : Option Value)
    (signature : Option String) (tables : Tables) (supply : Supply) :
    accept now url payload signature tables supply = (match find? tables url with
      | none => .error .triggerMissing
      | some row =>
        if row.active then
          match admits row payload signature with
          | .ok true => .ok (row.workflow, count now row.id tables)
          | .ok false => .error .wrongSignature
          | .error fault => .error fault
        else .error .triggerMissing, supply) := by
  show (match find? tables url with | none => _ | some row => _ : Transaction String) _ _ = _
  cases find? tables url with
  | none => rfl
  | some row =>
    dsimp only
    cases row.active with
    | false => rfl
    | true =>
      show (Transaction.ofExcept (admits row payload signature)).andThen _ tables supply = _
      cases admits row payload signature with
      | error fault => rfl
      | ok admitted =>
        cases admitted with
        | false => rfl
        | true => rfl

theorem transact_accept (db : Database) (now : Instant) {row : TriggerRow}
    {payload : Option Value} {signature : Option String} (h : Distinct db.tables.triggers)
    (hr : row ∈ db.tables.triggers) (hw : Welcomes row payload signature) :
    db.transact (accept now row.url payload signature) =
      (.ok row.workflow, { db with tables := count now row.id db.tables }) := by
  obtain ⟨hactive, hadmits⟩ := welcomes_iff.mp hw
  unfold Database.transact
  rw [accept_eq, find?_of_mem h hr]
  simp only [hactive, hadmits, if_true]

/-- What a call can be refused with: there is no active trigger at its address, its signature is not
the one expected, or its payload has none under the secret of the trigger. -/
def Refuses (rows : List TriggerRow) (url : String) (payload : Option Value) (fault : Fault) :
    Prop :=
  fault = .triggerMissing ∨ fault = .wrongSignature ∨
    ∃ row ∈ rows, row.url = url ∧ signed row payload = .error fault

/-- A call that no trigger accepts is refused, and nothing is stored. -/
theorem transact_accept_of_refused (db : Database) (now : Instant) {url : String}
    {payload : Option Value} {signature : Option String}
    (hn : ∀ id, ¬ Accepts db.tables.triggers id url payload signature) :
    ∃ fault, Refuses db.tables.triggers url payload fault ∧
      db.transact (accept now url payload signature) = (.error fault, db) := by
  unfold Database.transact
  rw [accept_eq]
  cases hfind : find? db.tables url with
  | none => exact ⟨_, .inl rfl, rfl⟩
  | some row =>
    have hmem : row ∈ db.tables.triggers := List.mem_of_find?_eq_some hfind
    have hurl : row.url = url := by simpa using List.find?_some hfind
    dsimp only
    by_cases hactive : row.active = true
    · rw [if_pos hactive]
      cases hadmits : admits row payload signature with
      | error fault =>
        exact ⟨fault, .inr (.inr ⟨row, hmem, hurl, signed_of_admits hadmits⟩), rfl⟩
      | ok admitted =>
        cases admitted with
        | false => exact ⟨_, .inr (.inl rfl), rfl⟩
        | true =>
          exact absurd ⟨row, hmem, rfl, hurl, welcomes_iff.mpr ⟨hactive, hadmits⟩⟩ (hn row.id)
    · exact ⟨.triggerMissing, .inl rfl, by simp [hactive]⟩

/-! ## New triggers -/

/-- The trigger that is made of what the supply gives. -/
def newRow (now : Instant) (workspace workflow name : String) (creator : Option String)
    (supply : Supply) : TriggerRow :=
  { id := "r-" ++ toString supply.row, workspace, workflow, creator, name
    url := Signature.address supply.token, secret := Signature.secret (supply.token + 1)
    active := true, lastTriggered := none, count := 0, created := now, updated := now }

theorem create_eq (now : Instant) (workspace workflow name : String) (creator : Option String)
    (tables : Tables) (supply : Supply) :
    create now (some workspace) (some workflow) (some name) creator tables supply =
      if (!tables.workflows.any (·.id == workflow)) = true then (.error .workflowMissing, supply)
      else
        let row := newRow now workspace workflow name creator supply
        let insertion := triggerTable.insertionOf row
        (if tables.triggers.any (·.id == "r-" ++ toString supply.row) = true then
          .error (.refused (.notUnique triggerTable.name "id") insertion)
        else if tables.triggers.any (·.url == Signature.address supply.token) = true then
          .error (.refused (.notUnique triggerTable.name "url") insertion)
        else .ok (row, { tables with triggers := tables.triggers ++ [row] }),
        { supply with row := supply.row + 1, token := supply.token + 2 }) := by
  show (if (!tables.workflows.any (·.id == workflow)) = true then _ else _ :
    Transaction TriggerRow) tables supply = _
  by_cases hmissing : (!tables.workflows.any (·.id == workflow)) = true
  · rw [if_pos hmissing, if_pos hmissing]
    rfl
  · rw [if_neg hmissing, if_neg hmissing]
    show (if tables.triggers.any (·.id == "r-" ++ toString supply.row) = true then _
      else if tables.triggers.any (·.url == Signature.address supply.token) = true then _
      else _ : Transaction TriggerRow) tables _ = _
    dsimp only
    by_cases hid : tables.triggers.any (·.id == "r-" ++ toString supply.row) = true
    · rw [if_pos hid, if_pos hid]
      rfl
    · rw [if_neg hid, if_neg hid]
      by_cases hurl : tables.triggers.any (·.url == Signature.address supply.token) = true
      · rw [if_pos hurl, if_pos hurl]
        rfl
      · rw [if_neg hurl, if_neg hurl]
        rfl

/-- A trigger is not created without a workflow, a workspace and a name. -/
theorem create_of_missing (now : Instant) {workspace workflow name : Option String}
    (creator : Option String) (h : workspace = none ∨ workflow = none ∨ name = none)
    (tables : Tables) (supply : Supply) :
    ∃ fault, (create now workspace workflow name creator tables supply).1 = .error fault := by
  cases workflow with
  | none => exact ⟨_, rfl⟩
  | some workflow =>
    show ∃ fault, ((if (!tables.workflows.any (·.id == workflow)) = true then _ else _ :
      Transaction TriggerRow) tables supply).1 = .error fault
    split_ifs
    · exact ⟨_, rfl⟩
    · cases workspace with
      | none => exact ⟨_, rfl⟩
      | some workspace =>
        cases name with
        | none => exact ⟨_, rfl⟩
        | some name => simp at h

/-- A trigger that is created has an id that was not drawn before, an address of its own, and no
calls. -/
theorem create_cases (now : Instant) (workspace workflow name creator : Option String)
    (tables : Tables) (supply : Supply) :
    (∃ fault, (create now workspace workflow name creator tables supply).1 = .error fault) ∨
      ∃ row supply', create now workspace workflow name creator tables supply =
          (.ok (row, { tables with triggers := tables.triggers ++ [row] }), supply') ∧
        row.id = "r-" ++ toString supply.row ∧ supply'.row = supply.row + 1 ∧
        (∀ old ∈ tables.triggers, old.id ≠ row.id ∧ old.url ≠ row.url) ∧
        row.count = 0 ∧ row.lastTriggered = none := by
  by_cases hmissing : workspace = none ∨ workflow = none ∨ name = none
  · exact .inl (create_of_missing now creator hmissing tables supply)
  · rw [not_or, not_or] at hmissing
    obtain ⟨workspace, rfl⟩ := Option.ne_none_iff_exists'.mp hmissing.1
    obtain ⟨workflow, rfl⟩ := Option.ne_none_iff_exists'.mp hmissing.2.1
    obtain ⟨name, rfl⟩ := Option.ne_none_iff_exists'.mp hmissing.2.2
    rw [create_eq]
    split_ifs with hworkflow hid hurl
    · exact .inl ⟨_, rfl⟩
    · exact .inl ⟨_, rfl⟩
    · exact .inl ⟨_, rfl⟩
    · refine .inr ⟨_, _, rfl, rfl, rfl, fun old hold => ⟨?_, ?_⟩, rfl, rfl⟩
      · exact fun heq => hid (List.any_eq_true.mpr ⟨old, hold, beq_iff_eq.mpr heq⟩)
      · exact fun heq => hurl (List.any_eq_true.mpr ⟨old, hold, beq_iff_eq.mpr heq⟩)

end Trigger

end Stepwise
