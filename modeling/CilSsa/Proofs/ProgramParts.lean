import CilSsa.Lowering.Program
import CilSsa.Proofs.Prologue

/-!
The parts of a program.

When its types are declared and defined, a program has only bodies left: those of its methods, and
then that of the function that runs the static constructors.  This function is declared, calls in
its one block the constructors that are compiled, and returns.
-/

namespace CilSsa.Lowering

open CilSsa.Metadata CilSsa.Ssa

variable {asm : Assembly} {settings : Settings} {s s' : Session}

section Programs

variable {report : Report}

/-- Compiles what is left of a program when its types are defined. -/
def compileBodies (asm : Assembly) (settings : Settings) : Lower Report := do
  let p ← asm.userTypes.foldlM (compileMethodsOf asm settings) {}
  return { p.report with staticInit := ← emitStaticInit asm settings p.compiled }

theorem compileProgram_eq (asm : Assembly) (settings : Settings) :
    compileProgram asm settings = (do
      declareTypes asm
      compileTypes asm
      compileBodies asm settings) := rfl

/-- A program is compiled in three phases. -/
theorem compileProgram_eq_ok (h : compileProgram asm settings s = .ok report s') :
    ∃ declared defined, declareTypes asm s = .ok () declared ∧
      compileTypes asm declared = .ok () defined ∧
      compileBodies asm settings defined = .ok report s' := by
  rw [compileProgram_eq] at h
  obtain ⟨_, declared, hdeclare, h⟩ := bind_eq_ok_iff.mp h
  obtain ⟨_, defined, hdefine, h⟩ := bind_eq_ok_iff.mp h
  exact ⟨declared, defined, hdeclare, hdefine, h⟩

/-- The methods come first, and then the function that runs the static constructors. -/
theorem compileBodies_eq_ok (h : compileBodies asm settings s = .ok report s') :
    ∃ p t name, asm.userTypes.foldlM (compileMethodsOf asm settings) {} s = .ok p t ∧
      emitStaticInit asm settings p.compiled t = .ok name s' ∧
      report = { p.report with staticInit := name } := by
  obtain ⟨p, t, hmethods, h⟩ := bind_eq_ok_iff.mp h
  obtain ⟨name, t', hinit, h⟩ := bind_eq_ok_iff.mp h
  obtain ⟨rfl, rfl⟩ := pure_eq_ok_iff.mp h
  exact ⟨p, t, name, hmethods, hinit, rfl⟩

end Programs

section Methods

/-- A constructor of a struct without parameters.  It is never compiled, since new values of a
struct are zero already. -/
def DefaultConstructor (asm : Assembly) (d : MethodDef) : Prop :=
  d.isConstructor = true ∧ d.params = [] ∧ asm.kindOf d.declaringType = .ok .structType

/-- The ways in which a method is compiled. -/
inductive MethodRun (asm : Assembly) (settings : Settings) (m : MethodId) (d : MethodDef)
    (s : Session) :
    MethodOutcome → Session → Prop where
  | skipped (hdefault : DefaultConstructor asm d) :
      MethodRun asm settings m d s (.skipped .defaultConstructor) s
  | bodiless {f : FunctionId} {s' : Session} (hneeded : ¬ DefaultConstructor asm d)
      (hbody : d.body = none) (hdeclare : declareFunction asm m s = .ok f s') :
      MethodRun asm settings m d s (if d.isAbstract then .abstract f else .external f) s'
  | deferred {body : MethodBody} {opcode : Opcode} {f : FunctionId} {declared s' : Session}
      (hneeded : ¬ DefaultConstructor asm d) (hbody : d.body = some body)
      (hsupport : bodySupport body.instructions = .deferred opcode)
      (hdeclare : declareFunction asm m s = .ok f declared)
      (hlink : Lower.build (Build.setLinkage f .external) declared = .ok () s') :
      MethodRun asm settings m d s (.skipped (.notLowered opcode)) s'
  | lowered {body : MethodBody} {name : String} {f : FunctionId}
    {declared linked emitted s' : Session}
      (hneeded : ¬ DefaultConstructor asm d) (hbody : d.body = some body)
      (hsupport : bodySupport body.instructions = .full)
      (hdeclare : declareFunction asm m s = .ok f declared)
      (hlink : Lower.build (Build.setLinkage f (linkageOf d)) declared = .ok () linked)
      (hemit : emitBody asm d name f body linked = .ok () emitted)
      (hfinish : Lower.finish settings f emitted = .ok () s') :
      MethodRun asm settings m d s (.compiled f) s'

variable {m : MethodId} {d : MethodDef} {outcome : MethodOutcome}

theorem compileMethod_eq_ok (h : compileMethod asm settings m s = .ok outcome s') :
    ∃ d, asm.method m = .ok d ∧ MethodRun asm settings m d s outcome s' := by
  simp only [compileMethod, bind_eq_ok_iff, Lower.liftM_ask, Lower.ask_eq_ok_iff] at h
  obtain ⟨d, _, ⟨hd, rfl⟩, kind, _, ⟨hkind, rfl⟩, name, _, ⟨-, rfl⟩, h⟩ := h
  have hskips : (d.isConstructor && d.params.isEmpty && kind = .structType) = true ↔
      DefaultConstructor asm d := by
    simp [DefaultConstructor, hkind, and_assoc]
  refine ⟨d, hd, ?_⟩
  split at h
  · rename_i hskip
    obtain ⟨rfl, rfl⟩ := pure_eq_ok_iff.mp h
    exact .skipped (hskips.mp hskip)
  · rename_i hskip
    have hneeded : ¬ DefaultConstructor asm d := fun hdefault => hskip (hskips.mpr hdefault)
    cases hbody : d.body with
    | none =>
        simp only [hbody, bind_eq_ok_iff, pure_eq_ok_iff] at h
        obtain ⟨f, _, hdeclare, rfl, rfl⟩ := h
        exact .bodiless hneeded hbody hdeclare
    | some body =>
        simp only [hbody, compileBody] at h
        cases hsupport : bodySupport body.instructions with
        | refused opcode =>
            simp only [hsupport] at h
            cases h
        | deferred opcode =>
            simp only [hsupport, bind_eq_ok_iff, pure_eq_ok_iff] at h
            obtain ⟨f, declared, hdeclare, _, _, hlink, rfl, rfl⟩ := h
            exact .deferred hneeded hbody hsupport hdeclare hlink
        | full =>
            simp only [hsupport, bind_eq_ok_iff, pure_eq_ok_iff] at h
            obtain ⟨f, declared, hdeclare, _, linked, hlink, _, emitted, hemit, _, _, hfinish, rfl,
              rfl⟩ := h
            exact .lowered hneeded hbody hsupport hdeclare hlink hemit hfinish

def compileListed (asm : Assembly) (settings : Settings) (owner : TypeDef) (p : Progress)
    (m : MethodId) :
    Lower Progress := do
  let name := owner.fullName ++ "::" ++ (← asm.method m).name
  return p.note m name (← compileMethod asm settings m)

variable {ty : TypeDefId} {owner : TypeDef} {p p' : Progress}

theorem compileMethodsOf_eq_ok (h : compileMethodsOf asm settings p ty s = .ok p' s') :
    ∃ owner, asm.typeDef ty = .ok owner ∧
      owner.methods.foldlM (compileListed asm settings owner) p s = .ok p' s' := by
  simp only [compileMethodsOf, bind_eq_ok_iff, Lower.liftM_ask, Lower.ask_eq_ok_iff] at h
  obtain ⟨owner, _, ⟨howner, rfl⟩, h⟩ := h
  exact ⟨owner, howner, h⟩

theorem compileListed_eq_ok (h : compileListed asm settings owner p m s = .ok p' s') :
    ∃ d outcome, asm.method m = .ok d ∧ compileMethod asm settings m s = .ok outcome s' ∧
      p' = p.note m (owner.fullName ++ "::" ++ d.name) outcome := by
  simp only [compileListed, bind_eq_ok_iff, Lower.liftM_ask, Lower.ask_eq_ok_iff,
    pure_eq_ok_iff] at h
  obtain ⟨d, _, ⟨hd, rfl⟩, outcome, _, hcompile, rfl, rfl⟩ := h
  exact ⟨d, outcome, hd, hcompile, rfl⟩

end Methods

section StaticInit

variable {name : String} {compiled : List MethodId} {f : FunctionId}

/-- The function that runs the static constructors, before it is verified and optimized. -/
def emitInit (asm : Assembly) (name : String) (compiled : List MethodId) : Lower FunctionId := do
  let type ← Build.functionType (← Build.voidType) []
  let f ← Build.addFunction (Names.staticInit name) type .external
  Registering.addFunction (Names.staticInit name) f
  let entry ← Build.appendBlock f "entry"
  Build.positionAtEnd entry
  (← get).registry.cctors.forM fun m => do
    if m ∈ compiled then
      let callee ← declareFunction asm m
      let _ ← Build.call callee []
  Build.ret none
  return f

theorem emitStaticInit_eq : emitStaticInit asm settings compiled = (do
    let f ← emitInit asm settings.moduleName compiled
    Lower.finish settings f
    return Names.staticInit settings.moduleName) := by
  simp only [emitStaticInit, emitInit, bind_assoc, pure_bind]

/-- The function that runs the static constructors, without its code. -/
def declareInit (name : String) : Lower FunctionId := do
  let type ← Build.functionType (← Build.voidType) []
  let f ← Build.addFunction (Names.staticInit name) type .external
  Registering.addFunction (Names.staticInit name) f
  return f

/-- The calls of the static constructors that are compiled. -/
def callCctors (asm : Assembly) (compiled cctors : List MethodId) : Lower PUnit :=
  cctors.forM fun m => do
    if m ∈ compiled then
      let callee ← declareFunction asm m
      let _ ← Build.call callee []

theorem emitInit_eq : emitInit asm name compiled = (do
    let f ← declareInit name
    let entry ← Build.appendBlock f "entry"
    Build.positionAtEnd entry
    callCctors asm compiled (← get).registry.cctors
    Build.ret none
    return f) := by
  simp only [emitInit, declareInit, callCctors, bind_assoc, pure_bind]

/-- The function that runs the static constructors is declared, and then it gets a block in
which they are called. -/
theorem emitInit_eq_ok (h : emitInit asm name compiled s = .ok f s') :
    ∃ declared called m, declareInit name s = .ok f declared ∧
      callCctors asm compiled declared.registry.cctors (opened f declared) = .ok ⟨⟩ called ∧
      Build.ret none called.module = .ok () m ∧ s' = { called with module := m } := by
  simp only [emitInit_eq, ↓getBind_eq_ok_iff, bind_eq_ok_iff, Lower.liftM_build,
    Lower.build_eq_ok_iff, pure_eq_ok_iff] at h
  obtain ⟨f', declared, hdeclare, entry, _, ⟨m₁, hentry, rfl⟩, _, _, ⟨m₂, hmove, rfl⟩, _, called,
    hcalls, _, _, ⟨m, hret, rfl⟩, rfl, rfl⟩ := h
  obtain ⟨rfl, rfl, -⟩ := Build.appendBlock_eq_ok hentry
  obtain rfl := Build.positionAtEnd_eq_ok hmove
  exact ⟨declared, called, m, hdeclare, hcalls, hret, rfl⟩

theorem declareInit_eq_ok (h : declareInit name s = .ok f s') :
    ∃ void type m m' r, Build.voidType s.module = .ok void m ∧
      (∃ t, Build.functionType void [] m = .ok type t ∧
        Build.addFunction (Names.staticInit name) type .external t = .ok f m') ∧
      Registering.addFunction (Names.staticInit name) f s.registry = .ok () r ∧
      s' = { s with module := m', registry := r } := by
  simp only [declareInit, bind_eq_ok_iff, Lower.liftM_build, Lower.build_eq_ok_iff,
    Lower.liftM_register, Lower.register_eq_ok_iff, pure_eq_ok_iff] at h
  obtain ⟨void, _, ⟨m, hvoid, rfl⟩, type, _, ⟨t, htype, rfl⟩, f', _, ⟨m', hadd, rfl⟩, _, _,
    ⟨r, hregister, rfl⟩, rfl, rfl⟩ := h
  exact ⟨void, type, m, m', r, hvoid, ⟨t, htype, hadd⟩, hregister, rfl⟩

end StaticInit

end CilSsa.Lowering
