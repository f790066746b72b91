import CilSsa.Proofs.FixedEntries
import CilSsa.Proofs.GrowingBodies
import CilSsa.Proofs.NewObjects

/-!
What becomes of the methods of a program.

The metadata alone decide it.  A report follows the lists of the types: each entry of a list puts
one name into one of the lists of the report, except for abstract methods without a body.  The
static constructors are collected along the same lists, and the function that runs them calls those
that are compiled, one after the other.
-/

namespace CilSsa.Lowering

open CilSsa.Metadata CilSsa.Ssa

section Fates

/-- What becomes of a method. -/
inductive Fate where
  | compiled
  | external
  /-- Never called, so nothing is said about it. -/
  | unreported
  | skipped (reason : SkipReason)
deriving DecidableEq, Repr

/-- Why a method is skipped, if it is. -/
def Fate.reason? : Fate → Option SkipReason
  | .skipped reason => some reason
  | _ => none

/-- Whether there is an action for an operation. -/
def hasAction (opcode : Opcode) : Bool :=
  match dispatch opcode with
  | .action _ => true
  | .deferred | .unsupported => false

/-- The first operation that there is no action for. -/
def firstUnhandled? (instrs : List Instruction) : Option Opcode :=
  (instrs.map Instruction.opcode).find? fun opcode => !hasAction opcode

variable {asm : Assembly} {d : MethodDef}

instance : Decidable (DefaultConstructor asm d) :=
  inferInstanceAs (Decidable (_ ∧ _ ∧ _))

/-- The fate of a method of a program that is compiled. -/
def fateOf (asm : Assembly) (d : MethodDef) : Fate :=
  if DefaultConstructor asm d then .skipped .defaultConstructor
  else
    match d.body with
    | none => if d.isAbstract then .unreported else .external
    | some body =>
        match firstUnhandled? body.instructions with
        | none => .compiled
        | some opcode => .skipped (.notLowered opcode)

theorem fateOf_eq_unreported_iff :
    fateOf asm d = .unreported ↔
      d.isAbstract = true ∧ d.body = none ∧ ¬ DefaultConstructor asm d := by
  unfold fateOf
  split
  · rename_i hdefault
    simp [hdefault]
  · rename_i hdefault
    cases hbody : d.body with
    | none => cases habstract : d.isAbstract <;> simp [hdefault]
    | some body => cases hfirst : firstUnhandled? body.instructions <;> simp [hfirst]

theorem fateOf_eq_skipped_iff {reason : SkipReason} :
    fateOf asm d = .skipped reason ↔
      (DefaultConstructor asm d ∧ reason = .defaultConstructor) ∨
      (¬ DefaultConstructor asm d ∧ ∃ body opcode, d.body = some body ∧
        firstUnhandled? body.instructions = some opcode ∧ reason = .notLowered opcode) := by
  unfold fateOf
  split
  · rename_i hdefault
    simp [hdefault, eq_comm]
  · rename_i hdefault
    cases hbody : d.body with
    | none => cases d.isAbstract <;> simp [hdefault]
    | some body => cases hfirst : firstUnhandled? body.instructions <;>
      simp [hdefault, hfirst, eq_comm]

theorem bodySupport_eq_full {instrs : List Instruction} (h : bodySupport instrs = .full) :
    firstUnhandled? instrs = none := by
  induction instrs with
  | nil => rfl
  | cons instr rest ih =>
      unfold bodySupport at h
      split at h
      · rename_i action haction
        simpa [firstUnhandled?, hasAction, haction] using ih h
      · cases h
      · cases h

theorem bodySupport_eq_deferred {instrs : List Instruction} {opcode : Opcode}
    (h : bodySupport instrs = .deferred opcode) :
    firstUnhandled? instrs = some opcode ∧ dispatch opcode = .deferred := by
  induction instrs with
  | nil => cases h
  | cons instr rest ih =>
      unfold bodySupport at h
      split at h
      · rename_i action haction
        obtain ⟨hfirst, hdeferred⟩ := ih h
        exact ⟨by simpa [firstUnhandled?, hasAction, haction] using hfirst, hdeferred⟩
      · rename_i hdeferred
        cases h
        exact ⟨by simp [firstUnhandled?, hasAction, hdeferred], hdeferred⟩
      · cases h

end Fates

section Methods

variable {asm : Assembly} {settings : Settings} {m : MethodId} {s s' : Session}
  {outcome : MethodOutcome}

def MethodOutcome.fate : MethodOutcome → Fate
  | .compiled _ => .compiled
  | .external _ => .external
  | .abstract _ => .unreported
  | .skipped reason => .skipped reason

/-- The fate of a method was foreseen, and a method that is compiled has a function. -/
structure Foreseen (asm : Assembly) (m : MethodId) (d : MethodDef) (outcome : MethodOutcome)
    (s : Session) : Prop where
  fate : outcome.fate = fateOf asm d
  deferred : ∀ opcode, outcome = .skipped (.notLowered opcode) → dispatch opcode = .deferred
  function : ∀ f, outcome = .compiled f → s.FunctionOf asm m f

theorem foreseen_of_compileMethod (h : compileMethod asm settings m s = .ok outcome s') :
    ∃ d, asm.method m = .ok d ∧ Foreseen asm m d outcome s' := by
  obtain ⟨d, hd, hrun⟩ := compileMethod_eq_ok h
  refine ⟨d, hd, ?_⟩
  cases hrun with
  | skipped hdefault =>
      exact ⟨by simp [MethodOutcome.fate, fateOf, hdefault], by simp, by simp⟩
  | bodiless hneeded hbody =>
      cases habstract : d.isAbstract
      · exact ⟨by simp [MethodOutcome.fate, fateOf, hneeded, hbody, habstract], by simp, by simp⟩
      · exact ⟨by simp [MethodOutcome.fate, fateOf, hneeded, hbody, habstract], by simp, by simp⟩
  | deferred hneeded hbody hsupport =>
      obtain ⟨hfirst, hdeferred⟩ := bodySupport_eq_deferred hsupport
      refine ⟨by simp [MethodOutcome.fate, fateOf, hneeded, hbody, hfirst], ?_, by simp⟩
      rintro _ ⟨rfl⟩
      exact hdeferred
  | lowered hneeded hbody hsupport hdeclare hlink hemit hfinish =>
      have hlater : Session.Later asm _ _ := IsTrans.trans _ _ _ (Keeps.run hlink)
        (IsTrans.trans _ _ _ (Keeps.run hemit) (Keeps.run hfinish))
      have hfirst := bodySupport_eq_full hsupport
      refine ⟨by simp [MethodOutcome.fate, fateOf, hneeded, hbody, hfirst], by simp, ?_⟩
      rintro _ ⟨rfl⟩
      exact Session.FunctionOf.later hlater (declareFunction_registered hdeclare)

end Methods

section Entries

/-- A method in the list of a type. -/
structure Entry where
  id : MethodId
  method : MethodDef
  /-- How reports call it. -/
  name : String
deriving DecidableEq, Repr

variable (asm : Assembly)

/-- What becomes of the method. -/
def Entry.fate (e : Entry) : Fate := fateOf asm e.method

def entryOf (d : TypeDef) (m : MethodId) : Except Fault Entry := do
  let method ← asm.method m
  return { id := m, method, name := d.fullName ++ "::" ++ method.name }

def entriesOf (ty : TypeDefId) : Except Fault (List Entry) := do
  let d ← asm.typeDef ty
  d.methods.mapM (entryOf asm d)

/-- The lists of some types, one after the other. -/
def entriesOfAll (types : List TypeDefId) : Except Fault (List Entry) :=
  return (← types.mapM (entriesOf asm)).flatten

def entries : Except Fault (List Entry) := entriesOfAll asm asm.userTypes

variable {asm} {types : List TypeDefId} {ty : TypeDefId} {d : TypeDef} {m : MethodId}
  {es es' : List Entry}

theorem entriesOfAll_append (h : entriesOfAll asm types = .ok es)
    (h' : entriesOf asm ty = .ok es') :
    entriesOfAll asm (types ++ [ty]) = .ok (es ++ es') := by
  simp only [entriesOfAll, exceptBind_eq_ok_iff, exceptPure_eq_ok_iff] at h ⊢
  obtain ⟨lists, hlists, rfl⟩ := h
  refine ⟨lists ++ [es'], ?_, by simp⟩
  simp [hlists, h']

end Entries

section Reports

variable {asm : Assembly} {settings : Settings} {es es' : List Entry} {e : Entry} {p p' : Progress}
  {s s' : Session}

/-- Each entry of a list is in a report under its fate. -/
structure Progress.Accounts (asm : Assembly) (es : List Entry) (p : Progress) : Prop where
  compiled : p.report.compiled = (es.filter fun e => e.fate asm = .compiled).map Entry.name
  external : p.report.external = (es.filter fun e => e.fate asm = .external).map Entry.name
  skipped : p.report.skipped =
    es.filterMap fun e => (e.fate asm).reason?.map fun reason => (e.name, reason)
  ids : p.compiled = (es.filter fun e => e.fate asm = .compiled).map Entry.id

theorem Progress.Accounts.note {outcome : MethodOutcome} (h : p.Accounts asm es)
    (hfate : outcome.fate = e.fate asm) :
    (p.note e.id e.name outcome).Accounts asm (es ++ [e]) := by
  obtain ⟨hcompiled, hexternal, hskipped, hids⟩ := h
  cases outcome <;>
  · simp only [MethodOutcome.fate] at hfate
    constructor <;> simp [Progress.note, Report.note, ← hfate, Fate.reason?, hcompiled, hexternal,
      hskipped, hids]

/-- What is known once the methods in some lists are compiled. -/
structure Accounted (asm : Assembly) (es : List Entry) (p : Progress) (s : Session) : Prop where
  report : p.Accounts asm es
  found : ∀ e ∈ es, asm.method e.id = .ok e.method
  deferred : ∀ e ∈ es, ∀ opcode, e.fate asm = .skipped (.notLowered opcode) →
    dispatch opcode = .deferred
  registered : ∀ e ∈ es, e.fate asm = .compiled → ∃ f, s.FunctionOf asm e.id f

theorem Accounted.step {m : MethodId} {d : TypeDef} (hs : Accounted asm es p s)
    (h : compileListed asm settings d p m s = .ok p' s') :
    ∃ e, entryOf asm d m = .ok e ∧ Accounted asm (es ++ [e]) p' s' := by
  obtain ⟨method, outcome, hmethod, hcompile, rfl⟩ := compileListed_eq_ok h
  have hlater :=
    (inferInstance : Keeps (Session.Later asm) (compileMethod asm settings m)).run hcompile
  obtain ⟨method', hmethod', hforeseen⟩ := foreseen_of_compileMethod hcompile
  obtain rfl := Except.ok.inj (hmethod.symm.trans hmethod')
  let e : Entry := { id := m, method, name := d.fullName ++ "::" ++ method.name }
  have hfate : outcome.fate = e.fate asm := hforeseen.fate
  refine ⟨e, by simp [entryOf, hmethod, e], hs.report.note hfate, ?_, ?_, ?_⟩
  · simpa [or_imp, forall_and, e, hmethod] using hs.found
  · simp only [List.mem_append, List.mem_singleton]
    rintro e' (he' | rfl) opcode hskipped
    · exact hs.deferred e' he' opcode hskipped
    · rw [← hfate] at hskipped
      refine hforeseen.deferred opcode ?_
      cases outcome <;> simp_all [MethodOutcome.fate]
  · simp only [List.mem_append, List.mem_singleton]
    rintro e' (he' | rfl) hcompiled
    · obtain ⟨f, hf⟩ := hs.registered e' he' hcompiled
      exact ⟨f, hf.later hlater⟩
    · rw [← hfate] at hcompiled
      cases outcome with
      | compiled f => exact ⟨f, hforeseen.function f rfl⟩
      | _ => cases hcompiled

theorem Accounted.type {ty : TypeDefId} (hs : Accounted asm es p s)
    (h : compileMethodsOf asm settings p ty s = .ok p' s') :
    ∃ es', entriesOf asm ty = .ok es' ∧ Accounted asm (es ++ es') p' s' := by
  obtain ⟨d, hd, h⟩ := compileMethodsOf_eq_ok h
  have hrun : ∃ es', d.methods.mapM (entryOf asm d) = .ok es' ∧
      Accounted asm (es ++ es') p' s' := by
    refine motive_of_foldlM
      (motive := fun methods p s => ∃ es', methods.mapM (entryOf asm d) = .ok es' ∧
        Accounted asm (es ++ es') p s)
      (fun {done m p p' s s'} hs h => ?_) [] ⟨[], rfl, by simpa using hs⟩ h
    obtain ⟨es', hes', hs⟩ := hs
    obtain ⟨e, he, hs'⟩ := hs.step h
    exact ⟨es' ++ [e], by simp [hes', he], by simpa using hs'⟩
  simpa [entriesOf, hd] using hrun

theorem accounted_of_foldlM {types : List TypeDefId}
    (h : types.foldlM (compileMethodsOf asm settings) {} s = .ok p s') :
    ∃ es, entriesOfAll asm types = .ok es ∧ Accounted asm es p s' := by
  refine motive_of_foldlM
    (motive := fun types p s => ∃ es, entriesOfAll asm types = .ok es ∧ Accounted asm es p s)
    (fun {types ty p p' s s'} hs h => ?_) [] ⟨[], rfl, ⟨rfl, rfl, rfl, rfl⟩, ?_, ?_, ?_⟩ h
  · obtain ⟨es, hes, hs⟩ := hs
    obtain ⟨es', hes', hs'⟩ := hs.type h
    exact ⟨es ++ es', entriesOfAll_append hes hes', hs'⟩
  · simp
  · simp
  · simp

/-- Entries for the same method have the same fate. -/
theorem Accounted.mem_compiled_iff (hs : Accounted asm es p s) (he : e ∈ es) :
    e.id ∈ p.compiled ↔ e.fate asm = .compiled := by
  rw [hs.report.ids]
  simp only [List.mem_map, List.mem_filter, decide_eq_true_eq]
  constructor
  · rintro ⟨e', ⟨he', hfate⟩, hid⟩
    have hsame : e'.method = e.method :=
      Except.ok.inj ((hs.found e' he').symm.trans (hid ▸ hs.found e he))
    simpa [Entry.fate, hsame] using hfate
  · exact fun hfate => ⟨e, ⟨he, hfate⟩, rfl⟩

end Reports

section StaticConstructors

variable {asm : Assembly} {settings : Settings} {known : List MethodId} {s s' : Session}

/-- Which static constructors are known. -/
def Session.HasCctors (known : List MethodId) (s : Session) : Prop := s.registry.cctors = known

/-- Only their collection changes which static constructors are known. -/
theorem upholds_register_cctors {α : Type} {x : Registering α}
    (hx : ∀ {r a r'}, x r = .ok a r' → r'.cctors = r.cctors) :
    Upholds (Session.HasCctors known) (fun _ _ => True) (Lower.register x) :=
  Session.Shows.upholds_register hx

instance {α : Type} (x : Build α) :
    Upholds (Session.HasCctors known) (fun _ _ => True) (Lower.build x) :=
  inferInstanceAs (Upholds (Session.Shows Registry.cctors known) _ _)

instance : Requesting asm Change.Any (Session.HasCctors known) (fun _ _ => True) :=
  inferInstanceAs (Requesting asm Change.Any (Session.Shows Registry.cctors known) _)

instance {α : Type} (question : Registry → Except Stop α) :
    Upholds (Session.HasCctors known) (fun _ _ => True) (Lower.consult question) :=
  inferInstanceAs (Upholds (Session.Shows Registry.cctors known) _ _)

instance {α : Type} (x : Layouts α) :
    Upholds (Session.HasCctors known) (fun _ _ => True) (Lower.layout x) :=
  inferInstanceAs (Upholds (Session.Shows Registry.cctors known) _ _)

instance : Constructing asm Change.Any (Session.HasCctors known) (fun _ _ => True) where
  layout _ := inferInstance
  handle _ := inferInstance
  interfaceIndex _ _ := inferInstance
  addSlotTable owner id := upholds_register_cctors fun h => by
    obtain ⟨-, rfl⟩ := Registering.addSlotTable_eq_ok h
    rfl
  addVTable _ _ _ := upholds_register_cctors fun h => by
    obtain ⟨-, rfl⟩ := Registering.addVTable_eq_ok h
    rfl
  setInitializer _ _ := inferInstance
  setStructBody _ _ _ := inferInstance

instance (m : MethodId) :
    Upholds (Session.HasCctors known) (fun _ _ => True) (compileMethod asm settings m) :=
  inferInstanceAs (Upholds (Session.Shows Registry.cctors known) _ _)

/-- Methods are compiled without new static constructors. -/
instance (p : Progress) (ty : TypeDefId) : Upholds (Session.HasCctors known) (fun _ _ => True)
    (compileMethodsOf asm settings p ty) := by
  unfold compileMethodsOf
  infer_instance

/-- The static constructors among some methods. -/
def cctorsOf (es : List Entry) : List MethodId :=
  (es.filter fun e => e.method.isStaticConstructor).map Entry.id

theorem cctors_of_methods {d : TypeDef} {methods : List MethodId} {u : PUnit}
    (h : (methods.forM fun m => do
      if (← asm.method m).isStaticConstructor then Registering.addCctor m : Lower PUnit) s =
        .ok u s') :
    ∃ es, methods.mapM (entryOf asm d) = .ok es ∧
      s'.registry.cctors = s.registry.cctors ++ cctorsOf es := by
  induction methods generalizing s with
  | nil =>
      obtain ⟨-, rfl⟩ := pure_eq_ok_iff.mp h
      exact ⟨[], rfl, by simp [cctorsOf]⟩
  | cons m rest ih =>
      obtain ⟨_, t, hfirst, hrest⟩ := bind_eq_ok_iff.mp h
      simp only [bind_eq_ok_iff, Lower.liftM_ask, Lower.ask_eq_ok_iff] at hfirst
      obtain ⟨method, _, ⟨hmethod, rfl⟩, hfirst⟩ := hfirst
      obtain ⟨es, hes, hcctors⟩ := ih hrest
      refine ⟨{ id := m, method, name := d.fullName ++ "::" ++ method.name } :: es,
        by simp [entryOf, hmethod, hes], ?_⟩
      rw [hcctors]
      split at hfirst
      · rename_i hstatic
        obtain ⟨r, hregister, rfl⟩ := Lower.register_eq_ok_iff.mp hfirst
        obtain rfl := modify_eq_ok_iff.mp hregister
        simp [cctorsOf, hstatic]
      · rename_i hstatic
        obtain ⟨-, rfl⟩ := pure_eq_ok_iff.mp hfirst
        simp [cctorsOf, hstatic]

/-- The static constructors of one more type are collected. -/
theorem cctors_of_declareType {ty : TypeDefId} {u : Unit} (h : declareType asm ty s = .ok u s') :
    ∃ es, entriesOf asm ty = .ok es ∧ s'.registry.cctors = s.registry.cctors ++ cctorsOf es := by
  simp only [declareType, bind_eq_ok_iff, Lower.liftM_ask, Lower.ask_eq_ok_iff,
    Lower.liftM_register, Lower.register_eq_ok_iff] at h
  obtain ⟨d, t, ⟨hd, hsame⟩, handle, s₁, hhandle, _, _, ⟨r, hregister, rfl⟩, hcctors⟩ := h
  subst t
  obtain ⟨-, -, honly⟩ := declareHandle_cases hd hhandle
  obtain ⟨-, rfl⟩ := Registering.claimed_eq_ok (fun r => (r.types.lookup ty).isSome) hregister
  obtain ⟨es, hes, hcollected⟩ := cctors_of_methods hcctors
  refine ⟨es, by simpa [entriesOf, hd] using hes, ?_⟩
  rw [hcollected, honly]

/-- The static constructors of all types are collected. -/
theorem cctors_of_forM {done types : List TypeDefId} {es : List Entry} {u : PUnit}
    (hes : entriesOfAll asm done = .ok es) (hs : s.HasCctors (cctorsOf es))
    (h : types.forM (declareType asm) s = .ok u s') :
    ∃ es, entriesOfAll asm (done ++ types) = .ok es ∧ s'.HasCctors (cctorsOf es) := by
  induction types generalizing done es s with
  | nil =>
      obtain ⟨-, rfl⟩ := pure_eq_ok_iff.mp h
      exact ⟨es, by simpa using hes, hs⟩
  | cons ty rest ih =>
      obtain ⟨_, t, hfirst, hrest⟩ := bind_eq_ok_iff.mp h
      obtain ⟨es', hes', hcctors⟩ := cctors_of_declareType hfirst
      have ht : t.HasCctors (cctorsOf (es ++ es')) := by
        rw [Session.HasCctors, hcctors, hs]
        simp [cctorsOf]
      simpa using ih (entriesOfAll_append hes hes') ht hrest

theorem cctors_of_declareTypes {m : Module} {u : Unit}
    (h : declareTypes asm { module := m } = .ok u s) :
    ∃ es, entries asm = .ok es ∧ s.HasCctors (cctorsOf es) := by
  obtain ⟨_, t, htypes, hmarks⟩ := bind_eq_ok_iff.mp h
  have hnone : entriesOfAll asm [] = .ok [] := rfl
  have hstart : Session.HasCctors (cctorsOf []) { module := m } := rfl
  obtain ⟨es, hes, ht⟩ := cctors_of_forM hnone hstart htypes
  refine ⟨es, hes, ?_⟩
  rw [Session.HasCctors, (marked_of_forM (allInstructions asm) hmarks).1.1]
  exact ht

end StaticConstructors

section Initializer

variable {asm : Assembly} {settings : Settings} {f : FunctionId} {entry : BlockId}
  {methods : List MethodId} {m : MethodId} {s s' : Session}

/-- Whether a value is a call of the function of a method, without arguments. -/
def Session.Calls (asm : Assembly) (s : Session) (v : ValueId) (m : MethodId) : Prop :=
  ∃ callee, s.FunctionOf asm m callee ∧ s.module.Performs v (.call (.direct callee) [])

structure Session.CallsInTurn (asm : Assembly) (f : FunctionId) (entry : BlockId)
    (terminator : Option Terminator) (methods : List MethodId) (s : Session) : Prop where
  function : ∃ function, s.module.functions[f.index]? = some function ∧ function.blocks = [entry]
  block : ∃ block, s.module.blocks[entry.index]? = some block ∧ block.terminator = terminator ∧
    List.Forall₂ (s.Calls asm) block.insts methods

theorem declareFunction_of_functionOf (h : s.FunctionOf asm m f) :
    declareFunction asm m s = .ok f s := by
  obtain ⟨name, hname, hf⟩ := h
  have hask : Lower.ask (Names.method asm m) s = .ok name s := Lower.ask_eq_ok_iff.mpr ⟨hname, rfl⟩
  rw [declareFunction, Lower.liftM_ask, bind_eq_ok_iff]
  refine ⟨name, s, hask, ?_⟩
  rw [getBind_eq_ok_iff, hf]
  rfl

theorem callsInTurn_nil {function : Function} {name : String}
    (hfunction : s.module.functions[f.index]? = some function) (hblocks : function.blocks = []) :
    Session.CallsInTurn asm f ⟨s.module.blocks.size⟩ none [] { s with
      module := (s.module.apply (.addBlock f name)).apply (.moveTo ⟨s.module.blocks.size⟩) } where
  function := ⟨{ function with blocks := [⟨s.module.blocks.size⟩] },
    by simp [Module.apply, Array.getElem?_modify, hfunction, hblocks], rfl⟩
  block := ⟨{ name, function := f }, by simp [Module.apply], rfl, .nil⟩

theorem Session.CallsInTurn.call {callee : FunctionId} {result : Option ValueId} {module : Module}
    (hs : s.CallsInTurn asm f entry none methods) (hposition : s.module.position = some entry)
    (hcallee : s.FunctionOf asm m callee) (h : Build.call callee [] s.module = .ok result module) :
    Session.CallsInTurn asm f entry none (methods ++ [m]) { s with module } ∧
      module.position = some entry := by
  obtain ⟨⟨function, hfunction, hblocks⟩, block, hblock, hopen, hcalls⟩ := hs
  have hlasts := (inferInstance : Keeps Module.Lasts (Build.call callee [])).run h
  simp only [Build.call, bind_eq_ok_iff, Build.query_eq_ok_iff] at h
  obtain ⟨_, _, ⟨-, rfl⟩, h⟩ := h
  obtain ⟨v, hcode⟩ := Build.buildCall_emitted h
  have happends := hcode.appends hposition
  refine ⟨⟨⟨function, by rw [happends.functions, hfunction], hblocks⟩,
    block.append v, ?_, hopen, ?_⟩, happends.position.trans hposition⟩
  · rw [happends.blocks, Array.getElem?_modify, if_pos rfl, hblock]
    rfl
  · refine List.rel_append (hcalls.imp fun v m hcalled => ?_)
      (.cons ⟨callee, hcallee, hcode.performs⟩ .nil)
    obtain ⟨callee, hcallee, hcall⟩ := hcalled
    exact ⟨callee, hcallee, hcall.lasts rfl hlasts⟩

/-- The calls of the static constructors that are compiled. -/
theorem Session.CallsInTurn.run {compiled cctors : List MethodId} {u : PUnit}
    (hs : s.CallsInTurn asm f entry none methods) (hposition : s.module.position = some entry)
    (hcompiled : ∀ m ∈ compiled, ∃ callee, s.FunctionOf asm m callee)
    (h : (cctors.forM fun m => do
      if m ∈ compiled then
        let callee ← declareFunction asm m
        let _ ← Build.call callee [] : Lower PUnit) s = .ok u s') :
    s'.CallsInTurn asm f entry none (methods ++ cctors.filter (· ∈ compiled)) ∧
      s'.module.position = some entry := by
  induction cctors generalizing methods s with
  | nil =>
      obtain ⟨-, rfl⟩ := pure_eq_ok_iff.mp h
      simpa using ⟨hs, hposition⟩
  | cons m rest ih =>
      obtain ⟨_, t, hfirst, hrest⟩ := bind_eq_ok_iff.mp h
      dsimp only at hfirst
      split at hfirst
      · rename_i hm
        obtain ⟨callee, hcallee⟩ := hcompiled m hm
        simp only [bind_eq_ok_iff, declareFunction_of_functionOf hcallee, Lower.liftM_build,
          Lower.build_eq_ok_iff, pure_eq_ok_iff] at hfirst
        obtain ⟨_, _, ⟨⟩, _, _, ⟨module, hcall, rfl⟩, -, rfl⟩ := hfirst
        obtain ⟨hs', hposition'⟩ := hs.call hposition hcallee hcall
        simpa [hm] using ih hs' hposition' hcompiled hrest
      · rename_i hm
        obtain ⟨-, rfl⟩ := pure_eq_ok_iff.mp hfirst
        simpa [hm] using ih hs hposition hcompiled hrest

/-- The calls are followed by the return. -/
theorem Session.CallsInTurn.ret {module : Module} {u : Unit}
    (hs : s.CallsInTurn asm f entry none methods) (hposition : s.module.position = some entry)
    (h : Build.ret none s.module = .ok u module) :
    Session.CallsInTurn asm f entry (some (.ret none)) methods { s with module } := by
  obtain ⟨⟨function, hfunction, hblocks⟩, block, hblock, hopen, hcalls⟩ := hs
  have hlasts := (inferInstance : Keeps Module.Lasts (Build.ret none)).run h
  obtain ⟨hends, -, block', hblock', hterminator⟩ :=
    (inferInstance : Terminates (.ret none) (Build.ret none)).run h hposition hblock hopen
  have hinsts : block'.insts = block.insts := by
    have hsame : (module.blocks[entry.index]?.map Block.insts) = some block.insts := by
      refine hends.preserves (I := fun m => m.blocks[entry.index]?.map Block.insts =
        some block.insts)
        (fun m c hc _ hm => ?_) (by simp [hblock])
      cases c with
      | terminate b terminator =>
          rw [← hm]
          simp only [Module.apply, Array.getElem?_modify]
          split
          · cases m.blocks[entry.index]? <;> rfl
          · rfl
      | record => exact hm
      | _ => exact hc.elim
    simpa [hblock'] using hsame
  have hfunctions : module.functions = s.module.functions :=
    (hends.mono (Q := Change.Local) fun c hc => by
      cases c <;> first | exact trivial | exact hc.elim).functions_eq
  refine ⟨⟨function, by rw [hfunctions, hfunction], hblocks⟩, block', hblock', hterminator, ?_⟩
  rw [hinsts]
  exact hcalls.imp fun v m ⟨callee, hcallee, hcall⟩ => ⟨callee, hcallee, hcall.lasts rfl hlasts⟩

theorem finish_of_single {function : Function} {u : Unit}
    (hfunction : s.module.functions[f.index]? = some function) (hblocks : function.blocks = [entry])
    (h : Lower.finish settings f s = .ok u s') : s' = s := by
  obtain ⟨_, t, hverify, hoptimized⟩ := bind_eq_ok_iff.mp h
  have hsame : t = s := by
    unfold Lower.verify at hverify
    split at hverify
    · simp only [bind_eq_ok_iff, Lower.build_eq_ok_iff, Build.query_eq_ok_iff] at hverify
      obtain ⟨result, _, ⟨_, ⟨-, rfl⟩, rfl⟩, hresult⟩ := hverify
      cases result with
      | ok => exact (pure_eq_ok_iff.mp hresult).2
      | error error => simp at hresult
    · exact (pure_eq_ok_iff.mp hverify).2
  subst hsame
  obtain ⟨m, hoptimize, rfl⟩ := Lower.build_eq_ok_iff.mp hoptimized
  rw [Build.optimize] at hoptimize
  split at hoptimize
  · simp only [bind_eq_ok_iff, Build.query_eq_ok_iff, set_eq_ok_iff] at hoptimize
    obtain ⟨_, _, ⟨hremoved, rfl⟩, rfl⟩ := hoptimize
    simp only [Module.removeUnreachable, exceptBind_eq_ok_iff] at hremoved
    obtain ⟨found, hfound, hremoved⟩ := hremoved
    obtain rfl := Option.some.inj (hfunction.symm.trans (Arena.entry_eq_ok_iff.mp hfound))
    simp only [hblocks, exceptBind_eq_ok_iff, exceptPure_eq_ok_iff] at hremoved
    obtain ⟨kept, hkept, rfl⟩ := hremoved
    have hentry : entry ∈ kept := (Module.mem_reachable_iff hkept entry).mpr .refl
    simp [hentry]
  · obtain ⟨-, rfl⟩ := pure_eq_ok_iff.mp hoptimize
    rfl

theorem callsInTurn_of_emitInit {name : String} {compiled cctors : List MethodId}
    (hcompiled : ∀ m ∈ compiled, ∃ callee, s.FunctionOf asm m callee) (hcctors : s.HasCctors cctors)
    (h : emitInit asm name compiled s = .ok f s') :
    s'.registry.function? (Names.staticInit name) = some f ∧ ∃ entry,
      s'.CallsInTurn asm f entry (some (.ret none)) (cctors.filter (· ∈ compiled)) := by
  obtain ⟨declared, called, m, hdeclare, hcalls, hret, rfl⟩ := emitInit_eq_ok h
  have hdeclared : declared.HasCctors cctors ∧
      declared.registry.function? (Names.staticInit name) = some f ∧
      (∀ m ∈ compiled, ∃ callee, declared.FunctionOf asm m callee) ∧
      ∃ function, declared.module.functions[f.index]? = some function ∧ function.blocks = [] := by
    obtain ⟨void, type, m₁, m₃, r, -, ⟨m₂, -, hadd⟩, hregister, rfl⟩ := declareInit_eq_ok hdeclare
    obtain ⟨hnew, rfl⟩ := Registering.addFunction_eq_ok hregister
    obtain ⟨rfl, params, value, hfunctions⟩ := Build.addFunction_functions hadd
    refine ⟨hcctors, by simp [Registry.function?], fun m hm => ?_, _,
      hfunctions ▸ Array.getElem?_push_size, rfl⟩
    obtain ⟨callee, name', hname', hcallee⟩ := hcompiled m hm
    exact ⟨callee, name', hname',
      lookup_cons_of_new (by simpa [Registry.function?] using hnew) hcallee⟩
  obtain ⟨hcctors', hnamed, hcompiled', function, hfunction, hblocks⟩ := hdeclared
  obtain ⟨hrun, hposition⟩ := (callsInTurn_nil hfunction hblocks).run rfl hcompiled' hcalls
  have hcalling : Keeps (Session.Later asm) (callCctors asm compiled declared.registry.cctors) := by
    unfold callCctors
    infer_instance
  rw [← hcctors']
  exact ⟨(hcalling.run hcalls).registry.functions hnamed, _, hrun.ret hposition hret⟩

end Initializer

section Programs

variable {asm : Assembly} {settings : Settings} {s : Session} {report : Report}

/-- What is known at the end of a compilation. -/
theorem accounted_of_compileProgram
    (h : compileProgram asm settings { module := { name := settings.moduleName } } = .ok report s) :
    ∃ es p t f entry, entries asm = .ok es ∧ Accounted asm es p t ∧
      report = { p.report with staticInit := Names.staticInit settings.moduleName } ∧
      s.FunctionsSound ∧ s.registry.function? report.staticInit = some f ∧
      s.CallsInTurn asm f entry (some (.ret none)) ((cctorsOf es).filter (· ∈ p.compiled)) := by
  have hsound : s.FunctionsSound := by
    obtain ⟨declared, hdeclare, hlater⟩ := later_of_compileProgram h
    refine hlater.functions fun {name f} hf => ?_
    rw [Registry.function?, (declared_of_declareTypes hdeclare).rest.1] at hf
    cases hf
  obtain ⟨declared, defined, hdeclare, hdefine, hbodies⟩ := compileProgram_eq_ok h
  obtain ⟨p, t, name, htypes, hinit, rfl⟩ := compileBodies_eq_ok hbodies
  obtain ⟨es, hes, hcctors⟩ := cctors_of_declareTypes hdeclare
  have hdefines : Upholds (Session.HasCctors (cctorsOf es)) (fun _ _ => True) (compileTypes asm) :=
    inferInstance
  have hcompiles : Upholds (Session.HasCctors (cctorsOf es)) (fun _ _ => True)
      (asm.userTypes.foldlM (compileMethodsOf asm settings) {}) := inferInstance
  have hcctors' := hcompiles.ok (hdefines.ok hcctors hdefine) htypes
  obtain ⟨es', hes', haccounted⟩ := accounted_of_foldlM htypes
  obtain rfl := Except.ok.inj (hes.symm.trans hes')
  have hcompiled : ∀ m ∈ p.compiled, ∃ callee, t.FunctionOf asm m callee := by
    rw [haccounted.report.ids]
    simp only [List.mem_map, List.mem_filter, decide_eq_true_eq]
    rintro _ ⟨e, ⟨he, hfate⟩, rfl⟩
    exact haccounted.registered e he hfate
  rw [emitStaticInit_eq] at hinit
  obtain ⟨f, t', hemit, hinit⟩ := bind_eq_ok_iff.mp hinit
  obtain ⟨_, t'', hfinish, hinit⟩ := bind_eq_ok_iff.mp hinit
  obtain ⟨rfl, rfl⟩ := pure_eq_ok_iff.mp hinit
  obtain ⟨hnamed, entry, hcalls⟩ := callsInTurn_of_emitInit hcompiled hcctors' hemit
  obtain ⟨function, hfunction, hblocks⟩ := hcalls.function
  obtain rfl := finish_of_single hfunction hblocks hfinish
  exact ⟨es, p, t, f, entry, hes, haccounted, rfl, hsound, hnamed, hcalls⟩

/-- The report of a program accounts for every method that a type lists, in the order of the
lists: a method puts its name into the list for its fate, and into none only if it is abstract,
has no body and is not skipped as a constructor.  It is skipped if it is a constructor of a
struct without parameters, or if the first operation of its body without an action has no
lowering yet.  The function that runs the static constructors calls those that are compiled, once
for each entry of a list and in the same order, and returns.  The functions are those registered
under the names of the methods. -/
theorem compile_accounts {c : Compilation} (h : compile asm settings = .ok c) :
    ∃ es s, entries asm = .ok es ∧
      compileProgram asm settings { module := { name := settings.moduleName } } = .ok c.report s ∧
      s.module = c.module ∧ s.FunctionsSound ∧
      c.report.compiled = (es.filter fun e => e.fate asm = .compiled).map Entry.name ∧
      c.report.external = (es.filter fun e => e.fate asm = .external).map Entry.name ∧
      c.report.skipped =
        (es.filterMap fun e => (e.fate asm).reason?.map fun reason => (e.name, reason)) ∧
      (∀ e ∈ es, (e.fate asm = .unreported ↔ e.method.isAbstract = true ∧ e.method.body = none ∧
        ¬ DefaultConstructor asm e.method)) ∧
      (∀ e ∈ es, ((∃ reason, e.fate asm = .skipped reason) ↔ DefaultConstructor asm e.method ∨
        ∃ body opcode, e.method.body = some body ∧
          firstUnhandled? body.instructions = some opcode ∧ dispatch opcode = .deferred)) ∧
      ∃ f entry, s.registry.function? c.report.staticInit = some f ∧
        s.CallsInTurn asm f entry (some (.ret none))
          ((es.filter fun e => e.method.isStaticConstructor ∧ e.fate asm = .compiled).map
            Entry.id) := by
  unfold compile at h
  split at h
  · rename_i report s hrun
    obtain rfl := Except.ok.inj h
    obtain ⟨es, p, t, f, entry, hes, haccounted, rfl, hsound, hnamed, hcalls⟩ :=
      accounted_of_compileProgram hrun
    have hcctors : (cctorsOf es).filter (· ∈ p.compiled) =
        (es.filter fun e => e.method.isStaticConstructor ∧
          e.fate asm = .compiled).map Entry.id := by
      rw [cctorsOf, List.filter_map, List.filter_filter]
      refine congrArg _ (List.filter_congr fun e he => ?_)
      simp [haccounted.mem_compiled_iff he, and_comm]
    refine ⟨es, s, hes, hrun, rfl, hsound, haccounted.report.compiled, haccounted.report.external,
      haccounted.report.skipped, fun e _ => fateOf_eq_unreported_iff, fun e he =>
      ?_, f, entry, hnamed, hcctors ▸ hcalls⟩
    constructor
    · rintro ⟨reason, hskipped⟩
      rcases fateOf_eq_skipped_iff.mp hskipped with ⟨hdefault, -⟩ | ⟨-, body,
        opcode, hbody, hfirst, rfl⟩
      · exact .inl hdefault
      · exact .inr ⟨body, opcode, hbody, hfirst, haccounted.deferred e he opcode hskipped⟩
    · rintro (hdefault | ⟨body, opcode, hbody, hfirst, -⟩)
      · exact ⟨_, fateOf_eq_skipped_iff.mpr (.inl ⟨hdefault, rfl⟩)⟩
      · by_cases hdefault : DefaultConstructor asm e.method
        · exact ⟨_, fateOf_eq_skipped_iff.mpr (.inl ⟨hdefault, rfl⟩)⟩
        · exact ⟨_, fateOf_eq_skipped_iff.mpr (.inr ⟨hdefault, body, opcode, hbody, hfirst, rfl⟩)⟩
  · cases h

/-- A program with a method for each fate, and three static constructors, one
of which is skipped. -/
def medley : Assembly :=
  let roots := Assembly.ofName "medley"
  let done : MethodBody := { instructions := [{ opcode := .ret }] }
  let boxing : MethodBody := {
    instructions := [{ opcode := .ldcI41 }, { opcode := .box, operand := .type .i4 },
      { opcode := .ret }] }
  let throwing : MethodBody := { instructions := [{ opcode := .ldnull }, { opcode := .throw }] }
  let static : MethodFlags := ⟨MethodFlags.static⟩
  { roots with
    types := roots.types ++ #[
      { TypeDef.ofKind .classType "Demo" "App" with
        base := some ⟨0⟩, methods := [⟨0⟩, ⟨1⟩, ⟨2⟩, ⟨3⟩, ⟨4⟩] },
      { TypeDef.ofKind .structType "Demo" "Pair" with base := some ⟨1⟩, methods := [⟨5⟩] },
      { TypeDef.ofKind .classType "Demo" "Lazy" with base := some ⟨0⟩, methods := [⟨6⟩] },
      { TypeDef.ofKind .classType "Demo" "Late" with base := some ⟨0⟩, methods := [⟨7⟩] }]
    methods := #[
      ⟨"Main", ⟨3⟩, [], .void, static, .publicAccess, some done⟩,
      ⟨"Puts", ⟨3⟩, [], .void, static, .publicAccess, none⟩,
      ⟨"Boxed", ⟨3⟩, [], .object, static, .publicAccess, some boxing⟩,
      ⟨"Pending", ⟨3⟩, [], .void, ⟨MethodFlags.abstract⟩, .publicAccess, none⟩,
      ⟨".cctor", ⟨3⟩, [], .void, static, .internalAccess, some done⟩,
      ⟨".ctor", ⟨4⟩, [], .void, {}, .publicAccess, some done⟩,
      ⟨".cctor", ⟨5⟩, [], .void, static, .internalAccess, some throwing⟩,
      ⟨".cctor", ⟨6⟩, [], .void, static, .internalAccess, some done⟩] }

def medleyReport : Report where
  compiled := ["Demo.App::Main", "Demo.App::.cctor", "Demo.Late::.cctor"]
  external := ["Demo.App::Puts"]
  skipped := [("Demo.App::Boxed", .notLowered .box), ("Demo.Pair::.ctor", .defaultConstructor),
    ("Demo.Lazy::.cctor", .notLowered .throw)]
  staticInit := "module_static_init"

/-- The state once it is compiled. -/
def medleyCompiled : Session :=
  stateOf (compileProgram medley {} { module := { name := "module" } })

/-- Two of the three static constructors are called. -/
theorem medley_accounts :
    medley.validate = .ok () ∧
      compile medley {} = .ok { report := medleyReport, module := medleyCompiled.module } ∧
      ∃ (s : Session) (f : FunctionId) (entry : BlockId), s.module = medleyCompiled.module ∧
        s.registry.function? "module_static_init" = some f ∧
        s.CallsInTurn medley f entry (some (.ret none)) [⟨4⟩, ⟨7⟩] := by
  have hrun : compileProgram medley {} { module := { name := "module" } } =
      .ok medleyReport medleyCompiled := outcome?_eq_some_iff.mp (by decide +kernel)
  have hcompile : compile medley {} =
      .ok { report := medleyReport, module := medleyCompiled.module } := by
    unfold compile
    rw [hrun]
  obtain ⟨es, s, hes, -, hmodule, -, -, -, -, -, -, f, entry, hnamed, hcalls⟩ :=
    compile_accounts hcompile
  have hcctors : (entries medley).map (fun es =>
      (es.filter fun e => e.method.isStaticConstructor ∧ e.fate medley = .compiled).map Entry.id) =
        .ok [⟨4⟩, ⟨7⟩] := by decide +kernel
  simp only [hes, Except.map, Except.ok.injEq] at hcctors
  rw [hcctors] at hcalls
  -- The projections are reduced here, since unification would run the compilation instead.
  dsimp only at hmodule
  exact ⟨by decide +kernel, hcompile, s, f, entry, hmodule, hnamed, hcalls⟩

end Programs

end CilSsa.Lowering
