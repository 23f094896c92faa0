import Stepwise.Proofs.Run.Leaves
import Stepwise.Proofs.Run.Variables

/-!
# A run sets only the variables that its steps declare

Every step declares by its kind and its configuration at most one variable that it sets of itself.
However a run ends and whatever it is told, the variables that it leaves are those it began with, in
their places, with new values for declared ones only, and behind them new ones that are declared.
-/

namespace Stepwise

namespace Fields

variable {may : Key → Prop} {before between after : Fields} {key : Key}

/-- Fields that come of others: those in their places under their names, with new values where that
may be, and new fields behind them where these may be. -/
inductive Outgrows (may : Key → Prop) : Fields → Fields → Prop
  | nil {added : Fields} (h : ∀ field ∈ added, may field.1) : Outgrows may [] added
  | kept (field : Key × Value) {before after : Fields} (h : Outgrows may before after) :
      Outgrows may (field :: before) (field :: after)
  | changed {key : Key} (old new : Value) {before after : Fields} (hk : may key)
      (h : Outgrows may before after) : Outgrows may ((key, old) :: before) ((key, new) :: after)

theorem Outgrows.refl (may : Key → Prop) (fields : Fields) : Outgrows may fields fields := by
  induction fields with
  | nil => exact .nil nofun
  | cons field rest ih => exact .kept field ih

theorem Outgrows.forall_may (h : Outgrows may before after) (hb : ∀ field ∈ before, may field.1) :
    ∀ field ∈ after, may field.1 := by
  induction h with
  | nil h => exact h
  | kept field h ih =>
    obtain ⟨hfield, hrest⟩ := List.forall_mem_cons.mp hb
    exact List.forall_mem_cons.mpr ⟨hfield, ih hrest⟩
  | changed old new hk h ih =>
    exact List.forall_mem_cons.mpr ⟨hk, ih (List.forall_mem_cons.mp hb).2⟩

theorem Outgrows.trans (h : Outgrows may before between) (h' : Outgrows may between after) :
    Outgrows may before after := by
  induction h generalizing after with
  | nil h => exact .nil (h'.forall_may h)
  | kept field h ih =>
    cases h' with
    | kept _ h' => exact .kept field (ih h')
    | changed old new hk h' => exact .changed old new hk (ih h')
  | changed old new hk h ih =>
    cases h' with
    | kept _ h' => exact .changed old new hk (ih h')
    | changed _ new' hk' h' => exact .changed old new' hk (ih h')

/-- Setting a field changes it or adds it. -/
theorem outgrows_set (fields : Fields) (value : Value)
    (h : ∀ k : Key, k = key ∨ k.same key = true → may k) :
    Outgrows may fields (fields.set key value) := by
  induction fields with
  | nil => exact .nil (List.forall_mem_singleton.mpr (h key (.inl rfl)))
  | cons field rest ih =>
    obtain ⟨k, old⟩ := field
    unfold set
    split_ifs with hsame
    · exact .changed old value (h k (.inr hsame)) (.refl may rest)
    · exact .kept (k, old) ih

/-- No field is lost. -/
theorem Outgrows.isSome_get? (h : Outgrows may before after)
    (hsome : (before.get? key).isSome = true) : (after.get? key).isSome = true := by
  induction h with
  | nil h => cases hsome
  | kept field h ih =>
    obtain ⟨k, v⟩ := field
    unfold get? at hsome ⊢
    split_ifs at hsome ⊢
    · rfl
    · exact ih hsome
  | changed old new hk h ih =>
    unfold get? at hsome ⊢
    split_ifs at hsome ⊢
    · rfl
    · exact ih hsome

/-- What is found by a key that may not be set is found by it before. -/
theorem Outgrows.get?_eq (h : Outgrows may before after)
    (hkey : ∀ k : Key, k.same key = true → ¬ may k) : after.get? key = before.get? key := by
  induction h with
  | @nil added h =>
    cases hget : added.get? key with
    | none => rfl
    | some value =>
      obtain ⟨field, hfield, hsame⟩ := exists_same_of_get? hget
      exact absurd (h field hfield) (hkey _ hsame)
  | kept field h ih =>
    obtain ⟨k, v⟩ := field
    unfold get?
    rw [ih]
  | changed old new hk h ih =>
    unfold get?
    rw [if_neg fun hsame => hkey _ hsame hk, if_neg fun hsame => hkey _ hsame hk, ih]

end Fields

namespace Run

open Stage

variable {α β σ : Type} {may : Key → Prop}

/-- One of the steps declares the variable of the key, or of one that is the same. -/
def Declared (steps : List Step) (key : Key) : Prop :=
  ∃ step ∈ steps, ∃ k, target? step = some k ∧ (key = k ∨ key.same k = true)

/-- A later context of a run: the input is the same, and the variables have come of the earlier ones
by setting some that may be set. -/
structure Context.Outgrows (may : Key → Prop) (c c' : Context) : Prop where
  input : c'.input = c.input
  vars : Fields.Outgrows may c.vars c'.vars

theorem Context.Outgrows.refl (may : Key → Prop) (c : Context) : c.Outgrows may c :=
  ⟨rfl, .refl may c.vars⟩

theorem Context.Outgrows.trans {c c' c'' : Context} (h : c.Outgrows may c')
    (h' : c'.Outgrows may c'') : c.Outgrows may c'' :=
  ⟨h'.input.trans h.input, h.vars.trans h'.vars⟩

theorem Context.Outgrows.logged {c c' : Context} (h : c.Outgrows may c') (e : Entry) :
    c.Outgrows may (c'.logged e) := ⟨h.input, h.vars⟩

theorem Context.outgrows_assign {c : Context} {key : Key} (value : Value)
    (h : ∀ k : Key, k = key ∨ k.same key = true → may k) : c.Outgrows may (c.assign key value) :=
  ⟨rfl, Fields.outgrows_set c.vars value h⟩

namespace Stage

/-- However it is answered, the stage sets only variables that may be set. -/
def Writes (may : Key → Prop) (stage : Stage α) : Prop :=
  ∀ c, (stage c).Ends fun out => c.Outgrows may out.2

theorem Plain.writes {stage : Stage α} (h : Plain stage) : Writes may stage := by
  intro c
  obtain ⟨r, hr⟩ := h c
  rw [hr]
  exact .refl may c

theorem writes_fail (fault : Fault) : Writes may (fail fault : Stage α) := fun c => .refl may c

theorem Writes.andThen {stage : Stage α} {f : α → Stage β} (hs : Writes may stage)
    (hf : ∀ a, Writes may (f a)) : Writes may (stage.andThen f) := by
  intro c
  refine (Program.ends_bind _ _).mpr ((hs c).mono ?_)
  rintro ⟨fault | a, c'⟩ hc
  · exact hc
  · exact (hf a c').mono fun out hout => hc.trans hout

theorem writes_forEach {f : α → Stage Unit} {items : List α}
    (hf : ∀ a ∈ items, Writes may (f a)) : Writes may (forEach f items) := by
  induction items with
  | nil => exact (plain_result ()).writes
  | cons a rest ih =>
    obtain ⟨ha, hrest⟩ := List.forall_mem_cons.mp hf
    exact ha.andThen fun _ => ih hrest

/-- A stage that makes one request at most sets no variable but its own. -/
theorem IsSingle.writes {key? : Option Key} {stage : Stage Unit} (h : IsSingle key? stage)
    (hmay : ∀ key, key? = some key → ∀ k : Key, k = key ∨ k.same key = true → may k) :
    Writes may stage := by
  intro c
  have hsettled {out : Except Fault Unit × Context} (hout : Settled key? c out) :
      c.Outgrows may out.2 := by
    cases hout with
    | failed fault => exact .refl may c
    | kept => exact .refl may c
    | assigned hkey value => exact Context.outgrows_assign value (hmay _ hkey)
  generalize hp : stage c = program
  have hsingle := h c
  rw [hp] at hsingle
  cases hsingle with
  | done hout => exact hsettled hout
  | asked hout _ => exact (Program.ends_ask _ _).mpr fun answer => hsettled (hout answer)

end Stage

/-! ## The kinds of steps -/

variable {tree : StepTree} {inner : Runner} {step : Step}

/-- All that a step sets of itself may be set. -/
def MaySet (may : Key → Prop) (step : Step) : Prop :=
  ∀ key, target? step = some key → ∀ k : Key, k = key ∨ k.same key = true → may k

theorem writes_runCondition (hk : StepKind.ofName? step.type = some .condition)
    (hs : MaySet may step) (hi : ∀ child ∈ tree.steps, Writes may (inner child)) :
    Writes may (runCondition tree inner step) := by
  have htarget : target? step = some (outcomeKey step) := by rw [target?, hk]
  intro c
  rw [runCondition_eq]
  cases conditionOutcome step c.root with
  | error fault => exact .refl may c
  | ok outcome =>
    have hset := c.outgrows_assign (.bool outcome) (hs _ htarget)
    refine (writes_forEach (fun child hchild => ?_) _).mono fun out hout => hset.trans hout
    exact hi child (tree.childrenOf_subset _ (List.mem_of_mem_filter hchild))

theorem writes_runLoop (hk : StepKind.ofName? step.type = some .loop)
    (hs : MaySet may step) (hi : ∀ child ∈ tree.steps, Writes may (inner child)) :
    Writes may (runLoop tree inner step) := by
  intro c
  rw [runLoop_eq]
  split
  · split_ifs with htruthy
    · have htarget : target? step = (step.config.field "variableName").toKey? := by
        rw [target?, hk]
        exact if_pos htruthy
      refine writes_forEach (fun item _ => ?_) c
      have hassign := single_assign (fun _ hkey => htarget.trans hkey) item
      refine (hassign.writes hs).andThen fun _ => ?_
      exact writes_forEach fun child hchild => hi child (tree.childrenOf_subset _ hchild)
    · exact .refl may c
  · exact .refl may c
  · exact .refl may c

theorem writes_runBody (hs : MaySet may step)
    (hi : ∀ child ∈ tree.steps, Writes may (inner child)) :
    Writes may (runBody tree inner step) := by
  obtain ⟨stage, hl, heq⟩ | ⟨hk, heq⟩ | ⟨hk, heq⟩ | ⟨-, heq⟩ := runBody_cases tree inner step
  · exact heq ▸ (single_leafStage? hl).writes hs
  · exact heq ▸ writes_runCondition hk hs hi
  · exact heq ▸ writes_runLoop hk hs hi
  · exact heq ▸ writes_fail _

/-! ## Steps, chains and trees -/

theorem writes_runStep (hs : MaySet may step)
    (hi : ∀ child ∈ tree.steps, Writes may (inner child)) :
    Writes may (runStep tree inner step) := by
  intro c
  rw [runStep_eq]
  refine (Program.ends_ask _ _).mpr fun (told : Bool) => ?_
  cases told with
  | true => exact .refl may c
  | false =>
    refine (Program.ends_ask _ _).mpr fun time => (Program.ends_bind _ _).mpr ?_
    have hbegun := (Context.Outgrows.refl may c).logged (stepEntry step time .started none)
    refine (writes_runBody hs hi _).mono fun out hout => ?_
    have hbody := hbegun.trans hout
    obtain ⟨fault | ⟨⟩, c'⟩ := out
    · by_cases hf : fault = .cancelled
      · subst hf
        exact hbody
      · rw [finish_fault step hf]
        exact (Program.ends_ask _ _).mpr fun time' => hbody.logged _
    · exact (Program.ends_ask _ _).mpr fun time' => hbody.logged _

theorem writes_runChain (ht : ∀ step ∈ tree.steps, MaySet may step) (hs : step ∈ tree.steps)
    (hi : ∀ child ∈ tree.steps, Writes may (inner child)) :
    Writes may (runChain tree inner step) := by
  refine (writes_forEach fun link hlink => ?_).andThen fun _ => ?_
  · exact writes_runStep (ht link (StepTree.mem_of_mem_chain hs link hlink)) hi
  · split
    · exact writes_fail _
    · exact (plain_result ()).writes

/-- By induction on the levels that are left: what runs one level deeper sets only what may be set,
so what runs on this level does. -/
theorem writes_runNested (ht : ∀ step ∈ tree.steps, MaySet may step) (limit : Int)
    (levels : Nat) : ∀ step ∈ tree.steps, Writes may (runNested tree limit levels step) := by
  induction levels with
  | zero => exact fun _ _ => writes_fail _
  | succ levels ih => exact fun step hs => writes_runChain ht hs ih

theorem writes_runTree (ht : ∀ step ∈ tree.steps, MaySet may step) (limit : Int) :
    Writes may (runTree tree limit) :=
  writes_forEach fun step hs => writes_runNested ht limit _ step (tree.roots_subset hs)

theorem maySet_declared {steps : List Step} (hs : step ∈ steps) : MaySet (Declared steps) step :=
  fun key hkey _ hk => ⟨step, hs, key, hkey, hk⟩

/-- Keys that are the same are declared together. -/
theorem Declared.of_same {steps : List Step} {key k : Key} (h : Declared steps k)
    (hsame : k.same key = true) : Declared steps key := by
  obtain ⟨step, hs, target, htarget, hk⟩ := h
  rw [Key.same_comm] at hsame
  refine ⟨step, hs, target, htarget, .inr ?_⟩
  obtain rfl | hk := hk
  · exact hsame
  · exact Key.same_trans hsame hk

/-- However a run ends and whatever it is told, its input is as it was; the variables are those it
began with and new ones behind them, and none is lost; and what a key leads to has changed or is new
only if a step of the tree declares the key. -/
theorem only_declared_are_set (respond : σ → (r : Request) → r.Answer × σ) (tree : StepTree)
    (limit : Int) (c : Context) (s : σ) :
    let c' := (Program.run (I := surroundings) respond (runTree tree limit c) s).1.2
    c'.input = c.input ∧ Fields.Outgrows (Declared tree.steps) c.vars c'.vars ∧
      (∀ key, (c.vars.get? key).isSome = true → (c'.vars.get? key).isSome = true) ∧
      ∀ key, c'.vars.get? key ≠ c.vars.get? key → Declared tree.steps key := by
  intro c'
  have hrun : c.Outgrows (Declared tree.steps) c' :=
    (writes_runTree (fun _ hs => maySet_declared hs) limit c).run respond s
  refine ⟨hrun.input, hrun.vars, fun key => hrun.vars.isSome_get?, fun key hne => ?_⟩
  by_contra hundeclared
  exact hne (hrun.vars.get?_eq fun k hsame hk => hundeclared (hk.of_same hsame))

end Run

end Stepwise
