import Mathlib.Data.List.Nodup
import Mathlib.Tactic.Common
import Stepwise.Proofs.Workflow.Acceptance

/-!
# Which step sets are accepted

A set is refused as invalid if two of its steps have one name of their own, if a reference is the
name of none of its steps, or if a parent is neither a condition nor a loop; all other sets are
accepted. The steps that an accepted set is made into stand in its order, have what was submitted
for them, and refer to one another as the submitted steps do.
-/

namespace Stepwise

/-- A sequence that fails does so in one of its parts. -/
theorem Except.error_of_bind {ε α β : Type} {x : Except ε α} {f : α → Except ε β} {e : ε}
    (h : x >>= f = .error e) : x = .error e ∨ ∃ a, x = .ok a ∧ f a = .error e := by
  cases x with
  | error e' => exact .inl (by simpa [bind, Except.bind] using h)
  | ok a => exact .inr ⟨a, rfl, h⟩

theorem Except.exists_of_mapM_eq_error {ε α β : Type} {f : α → Except ε β} {items : List α} {e : ε}
    (h : items.mapM f = .error e) : ∃ a ∈ items, f a = .error e := by
  induction items with
  | nil => cases h
  | cons a rest ih =>
    rw [List.mapM_cons] at h
    obtain h | ⟨b, _, h⟩ := Except.error_of_bind h
    · exact ⟨a, List.mem_cons_self, h⟩
    · obtain h | ⟨out, _, h⟩ := Except.error_of_bind h
      · obtain ⟨a', hmem, ha'⟩ := ih h
        exact ⟨a', List.mem_cons_of_mem a hmem, ha'⟩
      · cases h

namespace StepSet

/-- All that is looked up of a step can be: its own name, its references and its type. -/
structure Legible (step : Fields) : Prop extends Complete step where
  hashable : ∀ type, step.get? (.text "type") = some type → type.toKey?.isSome = true
  parent : (step.field "parent_id").toKey?.isSome = true
  next : (step.field "next_step_id").toKey?.isSome = true

/-- The fields by which a step refers to others. -/
def references : List String := ["parent_id", "next_step_id"]

theorem parent_mem_references : "parent_id" ∈ references := by decide

theorem next_mem_references : "next_step_id" ∈ references := by decide

/-- A step that may be a parent. -/
def IsContainer (step : Fields) : Prop :=
  step.get? (.text "type") = some (.text "condition") ∨
    step.get? (.text "type") = some (.text "loop")

/-- What a set is refused for. -/
inductive Flawed (steps : List Fields) : Prop
  /-- Two steps have one name of their own. -/
  | shared {i j : Nat} {a b : Fields} {x y : Key} (hij : i < j) (ha : steps[i]? = some a)
      (hb : steps[j]? = some b) (hx : ownName? a = some x) (hy : ownName? b = some y)
      (hsame : x.same y = true)
  /-- A reference is the name of no step. -/
  | dangling {step : Fields} {field : String} (hstep : step ∈ steps) (hfield : field ∈ references)
      (hgiven : step.field field ≠ .null) (hnone : ∀ other ∈ steps, ¬ Names step field other)
  /-- A parent is neither a condition nor a loop. -/
  | misplaced {step other : Fields} (hstep : step ∈ steps) (hother : other ∈ steps)
      (hnames : Names step "parent_id" other) (hleaf : ¬ IsContainer other)

/-- The references of the accepted steps are those of the submitted ones. -/
structure Corresponds (steps : List Fields) (built : List NewStep) (field : String)
    (link : NewStep → Option String) : Prop where
  none_iff : ∀ (i : Nat) (step : Fields) (s : NewStep), steps[i]? = some step →
    built[i]? = some s → (link s = none ↔ step.field field = .null)
  some_iff : ∀ (i j : Nat) (step other : Fields) (s target : NewStep), steps[i]? = some step →
    built[i]? = some s → steps[j]? = some other → built[j]? = some target →
    (link s = some target.id ↔ Names step field other)

/-- Accepted steps are the submitted ones under new ids. -/
structure Represents (workflow : String) (steps : List Fields) (built : List NewStep) : Prop where
  length_eq : built.length = steps.length
  nodup_ids : (built.map (·.id)).Nodup
  step : ∀ (i : Nat) (step : Fields) (s : NewStep), steps[i]? = some step → built[i]? = some s →
    s.workflow = workflow ∧ s.position = i ∧ step.get? (.text "name") = some s.name ∧
      step.get? (.text "type") = some s.type ∧
      s.config = if (step.field "config").isTruthy then step.field "config" else .object []
  parent : Corresponds steps built "parent_id" (·.parent)
  next : Corresponds steps built "next_step_id" (·.next)

variable {workflow : String} {first : Nat} {steps : List Fields} {built : List NewStep}
variable {step other : Fields} {fault : Fault} {known : List Known}

/-! ## Containers -/

theorem isContainerType_eq_true_iff {type : Value} : isContainerType type = .ok true ↔
    type = .text "condition" ∨ type = .text "loop" := by
  constructor
  · intro h
    obtain ⟨s, kind, rfl, hkind, howns⟩ := exists_of_isContainerType h
    obtain rfl : kind.name = s := by simpa using List.find?_some hkind
    cases kind <;> simp_all [StepKind.isContainer, StepKind.name]
  · rintro (rfl | rfl) <;> rfl

/-- A null reference names no step. -/
theorem Names.ne_null {field : String} (h : Names step field other) : step.field field ≠ .null := by
  obtain ⟨key, own, hkey, hown, hsame⟩ := h
  intro hnull
  rw [hnull] at hkey
  obtain rfl : Key.null = key := by simpa [Value.toKey?] using hkey
  have hne := ownName?_ne_null hown
  cases own <;> simp_all [Key.same, Extent.coincide, Key.extent?]

/-- A reference that leads to a step leads to it among the steps that are noted. -/
theorem refers_of_names (h : Apart (entries first steps)) {field : String}
    (hother : other ∈ steps) (hs : Complete other) (hnames : Names step field other) :
    ∃ target, Refers (entries first steps) (step.field field) (some target) ∧
      other.get? (.text "type") = some target.type := by
  have hgiven := hnames.ne_null
  obtain ⟨key, own, hkey, hown, hsame⟩ := hnames
  obtain ⟨j, hj⟩ := List.mem_iff_getElem?.mp hother
  exact exists_refers h hkey hgiven hj hs hown hsame

/-! ## Sets without flaws -/

theorem apart_of_not_flawed (h : ¬ Flawed steps) : Apart (entries first steps) := by
  apply apart_entries
  rw [List.pairwise_iff_getElem]
  intro i j hi hj hij x y hx hy
  by_contra hsame
  exact h (.shared hij (List.getElem?_eq_getElem hi) (List.getElem?_eq_getElem hj) hx hy
    (by simpa using hsame))

theorem exists_refers_of_not_flawed (hs : ∀ step ∈ steps, Complete step) (h : ¬ Flawed steps)
    (hstep : step ∈ steps) {field : String} (hfield : field ∈ references) :
    ∃ target, Refers (entries first steps) (step.field field) target ∧
      ∀ found, target = some found → ∃ other ∈ steps, Names step field other ∧
        other.get? (.text "type") = some found.type := by
  by_cases hnull : step.field field = .null
  · exact ⟨none, .nothing hnull, nofun⟩
  · obtain ⟨other, hother, hnames⟩ : ∃ other ∈ steps, Names step field other := by
      by_contra hnone
      exact h (.dangling hstep hfield hnull fun other hother hnames =>
        hnone ⟨other, hother, hnames⟩)
    obtain ⟨target, hrefers, htype⟩ :=
      refers_of_names (apart_of_not_flawed h) hother (hs other hother) hnames
    refine ⟨some target, hrefers, fun found hfound => ?_⟩
    obtain rfl := Option.some.inj hfound
    exact ⟨other, hother, hnames, htype⟩

theorem resolves_of_not_flawed (hs : ∀ step ∈ steps, Complete step) (h : ¬ Flawed steps)
    (hstep : step ∈ steps) : Resolves (entries first steps) step where
  parent := by
    obtain ⟨target, hrefers, htarget⟩ :=
      exists_refers_of_not_flawed hs h hstep parent_mem_references
    refine ⟨target, hrefers, fun parent hparent => ?_⟩
    obtain ⟨other, hother, hnames, htype⟩ := htarget parent hparent
    have hcontainer : IsContainer other := by
      by_contra hleaf
      exact h (.misplaced hstep hother hnames hleaf)
    rw [isContainerType_eq_true_iff]
    simpa [IsContainer, htype] using hcontainer
  next := by
    obtain ⟨target, hrefers, _⟩ := exists_refers_of_not_flawed hs h hstep next_mem_references
    exact ⟨target, hrefers⟩

/-! ## Accepted sets -/

namespace Built

theorem exists_placed (h : Built workflow first steps built) {i : Nat}
    (hi : steps[i]? = some step) :
    ∃ s, built[i]? = some s ∧
      Placed (entries first steps) workflow (freshId (first + i)) i step s := by
  obtain ⟨hlt, _⟩ := List.getElem?_eq_some_iff.mp hi
  have hs := List.getElem?_eq_getElem (h.length_eq.symm ▸ hlt)
  exact ⟨_, hs, h.placed i step _ hi hs⟩

/-- The references of a step of an accepted set lead to steps of the set. -/
theorem exists_target (h : Built workflow first steps built) (hstep : step ∈ steps)
    {field : String} (hfield : field ∈ references) :
    ∃ target, Refers (entries first steps) (step.field field) target ∧
      (field = "parent_id" → ∀ found, target = some found →
        isContainerType found.type = .ok true) := by
  obtain ⟨i, hi⟩ := List.mem_iff_getElem?.mp hstep
  obtain ⟨s, _, hplaced⟩ := h.exists_placed hi
  obtain rfl | rfl : field = "parent_id" ∨ field = "next_step_id" := by
    simpa [references] using hfield
  · obtain ⟨target, hrefers, _, hcontainer⟩ := hplaced.parent_eq
    exact ⟨target, hrefers, fun _ => hcontainer⟩
  · obtain ⟨target, hrefers, _⟩ := hplaced.next_eq
    exact ⟨target, hrefers, by simp⟩

/-- A step with a name of its own is noted under it. -/
theorem noted_mem (h : Built workflow first steps built) {i : Nat} (hi : steps[i]? = some step)
    {own : Key} (hown : ownName? step = some own) :
    ∃ type, (⟨own, freshId (first + i), type⟩ : Known) ∈ entries first steps := by
  obtain ⟨s, _, hplaced⟩ := h.exists_placed hi
  exact ⟨s.type, mem_entries.mpr ⟨i, step, hi, noted?_eq_some.mpr ⟨hown, rfl, hplaced.type_eq⟩⟩⟩

theorem not_flawed (h : Built workflow first steps built) : ¬ Flawed steps := by
  rintro (⟨hij, ha, hb, hx, hy, hsame⟩ | ⟨hstep, hfield, hgiven, hnone⟩ |
    ⟨hstep, hother, hnames, hleaf⟩)
  · obtain ⟨_, hmem⟩ := h.noted_mem ha hx
    obtain ⟨_, hmem'⟩ := h.noted_mem hb hy
    have heq := congrArg Known.id (h.apart.eq_of_same hmem hmem' hsame)
    have := freshId_inj heq
    omega
  · obtain ⟨target, hrefers, _⟩ := h.exists_target hstep hfield
    cases target with
    | none => exact hgiven ((eq_none_iff hrefers).mp rfl)
    | some found =>
      obtain ⟨j, other, hother, _, hnames, _⟩ := exists_of_refers hrefers rfl
      exact hnone other (List.mem_of_getElem? hother) hnames
  · obtain ⟨target, hrefers, hcontainer⟩ := h.exists_target hstep parent_mem_references
    obtain ⟨j, hj⟩ := List.mem_iff_getElem?.mp hother
    obtain ⟨found, hfound, hid⟩ :=
      Option.map_eq_some_iff.mp ((h.eq_some_iff hrefers hj).mpr hnames)
    obtain ⟨k, parent, hparent, hid', _, htype⟩ := exists_of_refers hrefers hfound
    have hjk : j = k := by
      have := freshId_inj (hid.symm.trans hid')
      omega
    obtain rfl : parent = _ := Option.some.inj (hparent.symm.trans (hjk ▸ hj))
    apply hleaf
    have hkind := isContainerType_eq_true_iff.mp (hcontainer rfl found hfound)
    simpa [IsContainer, htype] using hkind

theorem corresponds (h : Built workflow first steps built) {field : String}
    {link : NewStep → Option String}
    (hlink : ∀ (i : Nat) (step : Fields) (s : NewStep), steps[i]? = some step →
      built[i]? = some s → ∃ target, Refers (entries first steps) (step.field field) target ∧
        link s = target.map (·.id)) : Corresponds steps built field link where
  none_iff i step s hstep hs := by
    obtain ⟨target, hrefers, hl⟩ := hlink i step s hstep hs
    rw [hl]
    exact eq_none_iff hrefers
  some_iff i j step other s target hstep hs hother htarget := by
    obtain ⟨found, hrefers, hl⟩ := hlink i step s hstep hs
    rw [hl, (h.placed j other target hother htarget).id_eq]
    exact h.eq_some_iff hrefers hother

theorem ids_eq (h : Built workflow first steps built) :
    built.map (·.id) = (List.range built.length).map fun i => freshId (first + i) := by
  apply List.ext_getElem (by simp)
  intro i hi hi'
  have hlt : i < steps.length := by simpa [h.length_eq] using hi
  obtain ⟨s, hs, hplaced⟩ := h.exists_placed (List.getElem?_eq_getElem hlt)
  obtain ⟨_, rfl⟩ := List.getElem?_eq_some_iff.mp hs
  simpa using hplaced.id_eq

theorem represents (h : Built workflow first steps built) : Represents workflow steps built where
  length_eq := h.length_eq
  nodup_ids := by
    rw [h.ids_eq]
    refine List.nodup_range.map fun i j hij => ?_
    have := freshId_inj hij
    omega
  step i step s hstep hs := by
    have hplaced := h.placed i step s hstep hs
    exact ⟨hplaced.workflow_eq, hplaced.position_eq, hplaced.name_eq, hplaced.type_eq,
      hplaced.config_eq⟩
  parent := h.corresponds fun i step s hstep hs => by
    obtain ⟨target, hrefers, hl, _⟩ := (h.placed i step s hstep hs).parent_eq
    exact ⟨target, hrefers, hl⟩
  next := h.corresponds fun i step s hstep hs => (h.placed i step s hstep hs).next_eq

end Built

/-! ## Refusals -/

theorem invalid_of_register {id : String} (hs : Legible step)
    (h : register known id step = .error fault) : fault.rejection? = some .invalid := by
  obtain ⟨type, htype⟩ := hs.type
  rw [register, required_eq_ok.mpr htype, Except.bind_ok] at h
  by_cases hname : (step.field "id").isTruthy = true
  · obtain ⟨key, hkey⟩ := hs.id hname
    simp only [hname, hkey, if_true] at h
    split_ifs at h
    · obtain rfl := Except.error.inj h
      rfl
    · cases h
  · simp only [hname] at h
    cases h

theorem invalid_of_registerAll {next next' : Nat} (hs : ∀ step ∈ steps, Legible step)
    (h : registerAll next known steps = (.error fault, next')) :
    fault.rejection? = some .invalid := by
  induction steps generalizing next known with
  | nil => cases h
  | cons step rest ih =>
    obtain ⟨hstep, hrest⟩ := List.forall_mem_cons.mp hs
    rw [registerAll] at h
    cases hone : register known (freshId next) step with
    | error fault' =>
      rw [hone] at h
      cases h
      exact invalid_of_register hstep hone
    | ok noted =>
      rw [hone] at h
      exact ih hrest h

theorem invalid_of_resolve {field : String} {name : Value}
    (hkey : (step.field field).toKey?.isSome = true)
    (h : resolve known step field name = .error fault) : fault.rejection? = some .invalid := by
  obtain ⟨key, hkey⟩ := Option.isSome_iff_exists.mp hkey
  unfold resolve at h
  split at h
  · cases h
  · simp only [hkey] at h
    split at h
    · cases h
    · obtain rfl := Except.error.inj h
      rfl

theorem exists_isContainerType {type : Value} (h : type.toKey?.isSome = true) :
    ∃ isContainer, isContainerType type = .ok isContainer := by
  cases type <;> simp_all [isContainerType, Value.toKey?]

theorem mem_of_resolve {field : String} {name : Value} {found : Known}
    (h : resolve known step field name = .ok (some found)) : found ∈ known := by
  cases refers_of_resolve h with
  | named _ _ hfound => exact List.mem_of_find?_eq_some hfound

theorem invalid_of_place {id : String} {position : Nat} (hs : Legible step)
    (hknown : ∀ found ∈ known, found.type.toKey?.isSome = true)
    (h : place known workflow id position step = .error fault) :
    fault.rejection? = some .invalid := by
  obtain ⟨name, hname⟩ := hs.name
  obtain ⟨type, htype⟩ := hs.type
  -- What is left to be done once the parent is known, whether there is one or not.
  have htail : ∀ make : Option Known → NewStep,
      (do return make (← resolve known step "next_step_id" name) : Except Fault NewStep) =
        .error fault → fault.rejection? = some .invalid := by
    intro make h
    obtain h | ⟨next, _, h⟩ := Except.error_of_bind h
    · exact invalid_of_resolve hs.next h
    · cases h
  simp only [place, required_eq_ok.mpr hname, required_eq_ok.mpr htype, Except.bind_ok] at h
  obtain h | ⟨parent, hparent, h⟩ := Except.error_of_bind h
  · exact invalid_of_resolve hs.parent h
  · cases parent with
    | none => exact htail _ h
    | some parent =>
      obtain ⟨isContainer, hcontainer⟩ :=
        exists_isContainerType (hknown parent (mem_of_resolve hparent))
      simp only [hcontainer, Except.bind_ok] at h
      cases isContainer with
      | false =>
        obtain rfl := Except.error.inj h
        rfl
      | true => exact htail _ h

/-- A set that can be looked through is refused for nothing but its flaws. -/
theorem invalid_of_build (hs : ∀ step ∈ steps, Legible step)
    (h : (build workflow first steps).1 = .error fault) : fault.rejection? = some .invalid := by
  unfold build at h
  cases hnoted : registerAll first [] steps with
  | mk noted next =>
    rw [hnoted] at h
    cases noted with
    | error fault' =>
      obtain rfl := Except.error.inj h
      exact invalid_of_registerAll hs hnoted
    | ok known =>
      obtain ⟨hknown, _⟩ := registerAll_eq_ok hnoted
      rw [List.nil_append] at hknown
      subst hknown
      obtain ⟨⟨step, i⟩, hmem, hplace⟩ := Except.exists_of_mapM_eq_error h
      refine invalid_of_place (hs step (List.fst_mem_of_mem_zipIdx hmem)) ?_ hplace
      intro found hfound
      obtain ⟨j, other, hother, hentry⟩ := mem_entries.mp hfound
      exact (hs other (List.mem_of_getElem? hother)).hashable _ (noted?_eq_some.mp hentry).2.2

/-! ## The decision -/

theorem not_flawed_of_build (h : (build workflow first steps).1 = .ok built) :
    ¬ Flawed steps ∧ Represents workflow steps built := by
  have hbuilt := (built_of_build (Prod.ext h rfl)).1
  exact ⟨hbuilt.not_flawed, hbuilt.represents⟩

theorem exists_build_of_not_flawed (hs : ∀ step ∈ steps, Complete step) (h : ¬ Flawed steps)
    (workflow : String) (first : Nat) : ∃ built, (build workflow first steps).1 = .ok built := by
  obtain ⟨built, hbuilt⟩ := exists_build hs (apart_of_not_flawed h)
    (fun step hstep => resolves_of_not_flawed hs h hstep) workflow
  exact ⟨built, congrArg Prod.fst hbuilt⟩

/-- A step set is refused as invalid if and only if it is flawed; any other set is accepted, and
the steps that it is made into represent it. -/
theorem refused_iff_flawed (hs : ∀ step ∈ steps, Legible step) (workflow : String) (first : Nat) :
    ((∃ fault, (build workflow first steps).1 = .error fault ∧
      fault.rejection? = some .invalid) ↔ Flawed steps) ∧
    (¬ Flawed steps → ∃ built, (build workflow first steps).1 = .ok built ∧
      Represents workflow steps built) := by
  have haccepted : ¬ Flawed steps → ∃ built, (build workflow first steps).1 = .ok built :=
    fun h => exists_build_of_not_flawed (fun step hstep => (hs step hstep).toComplete) h _ _
  refine ⟨⟨?_, fun hflawed => ?_⟩, fun hsound => ?_⟩
  · rintro ⟨fault, hfault, _⟩
    by_contra hsound
    obtain ⟨built, hbuilt⟩ := haccepted hsound
    simp [hbuilt] at hfault
  · cases hbuild : (build workflow first steps).1 with
    | ok built => exact absurd hflawed (not_flawed_of_build hbuild).1
    | error fault => exact ⟨fault, rfl, invalid_of_build hs hbuild⟩
  · obtain ⟨built, hbuilt⟩ := haccepted hsound
    exact ⟨built, hbuilt, (not_flawed_of_build hbuilt).2⟩

/-- An empty text is no name: a step that has it and refers to itself by it is refused, as one of
several steps that are otherwise accepted. -/
theorem blank_reference_refused :
    let check : Fields := [(.text "id", .text "c"), (.text "name", .text "Check"),
      (.text "type", .text "condition"), (.text "next_step_id", .text "e")]
    let each : Fields := [(.text "id", .text "e"), (.text "name", .text "Each"),
      (.text "type", .text "loop"), (.text "parent_id", .text "c")]
    let blank : Fields := [(.text "id", .text ""), (.text "name", .text "Blank"),
      (.text "type", .text "loop"), (.text "parent_id", .text "")]
    (∀ step ∈ [check, each, blank], Legible step) ∧
      (∃ fault, (build "w" 1 [check, each, blank]).1 = .error fault ∧
        fault.rejection? = some .invalid) ∧
      ∃ built, (build "w" 1 [check, each]).1 = .ok built ∧ Represents "w" [check, each] built := by
  intro check each blank
  have hlegible : ∀ step ∈ [check, each, blank], Legible step := by
    simp only [List.forall_mem_cons]
    refine ⟨⟨⟨⟨_, rfl⟩, ⟨_, rfl⟩, fun _ => ⟨_, rfl⟩⟩, ?_, rfl, rfl⟩,
      ⟨⟨⟨_, rfl⟩, ⟨_, rfl⟩, fun _ => ⟨_, rfl⟩⟩, ?_, rfl, rfl⟩,
      ⟨⟨⟨_, rfl⟩, ⟨_, rfl⟩, fun _ => ⟨_, rfl⟩⟩, ?_, rfl, rfl⟩, nofun⟩
    all_goals
      rintro _ ⟨⟩
      rfl
  have hshort : ∀ step ∈ [check, each], Legible step :=
    fun step hstep => hlegible step (List.mem_append_left [blank] hstep)
  have hunnamed : ∀ other ∈ [check, each, blank], ¬ Names blank "parent_id" other := by
    rintro other hother ⟨key, own, hkey, hown, hsame⟩
    obtain rfl : Key.text "" = key := Option.some.inj hkey
    simp only [List.mem_cons, List.not_mem_nil, or_false] at hother
    obtain rfl | rfl | rfl := hother
    · obtain rfl : Key.text "c" = own := Option.some.inj hown
      exact absurd hsame (by decide)
    · obtain rfl : Key.text "e" = own := Option.some.inj hown
      exact absurd hsame (by decide)
    · cases hown
  have hflawed : Flawed [check, each, blank] :=
    .dangling (List.mem_append_right [check, each] List.mem_cons_self) parent_mem_references nofun
      hunnamed
  have hsound : ¬ Flawed [check, each] := by
    have hbuild : (build "w" 1 [check, each]).1 = .ok _ := rfl
    exact (not_flawed_of_build hbuild).1
  exact ⟨hlegible, (refused_iff_flawed hlegible "w" 1).1.mpr hflawed,
    (refused_iff_flawed hshort "w" 1).2 hsound⟩

end StepSet

end Stepwise
