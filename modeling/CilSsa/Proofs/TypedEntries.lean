import CilSsa.Proofs.Confinement
import CilSsa.Proofs.Handles
import CilSsa.Proofs.Linkage
import CilSsa.Proofs.Lookups

/-!
The types of registered entries.

The global of a static field points to the type of its signature, and the function of a method
has the types of its arguments and of its result.  The routines that allocate objects return
pointers and are functions of no method.  So it is in every state in which methods are compiled,
even after some that could not be.
-/

namespace CilSsa

open Ssa Metadata Lowering

namespace Ssa.Build

variable {m m' : Module}

theorem pushParams_typeOf {f : FunctionId} {index : Nat} {types : List TypeId}
    {params : List ValueId} (h : pushParams f index types m = .ok params m') :
    List.Forall₂ (fun type id => m'.typeOf id = .ok type) types params := by
  induction types generalizing index params m with
  | nil =>
      obtain ⟨rfl, -⟩ := pure_eq_ok_iff.mp h
      exact .nil
  | cons type rest ih =>
      simp only [pushParams, bind_eq_ok_iff, pure_eq_ok_iff] at h
      obtain ⟨id, m₁, hpush, others, m₂, hrest, rfl, rfl⟩ := h
      have hkeeps : Keeps (Module.Evolves Change.Any) (pushParams f (index + 1) rest) :=
        inferInstance
      exact .cons (Module.Evolves.typeOf (hkeeps.run hrest) (pushValue_typeOf hpush)) (ih hrest)

/-- A new function takes what its type says. -/
theorem addFunction_params {name : String} {type result : TypeId} {types : List TypeId}
    {linkage : Linkage} {f : FunctionId}
    (htype : m.types[type.index]? = some (.function result types))
    (h : addFunction name type linkage m = .ok f m') :
    ∃ params, m'.functions[f.index]?.map Function.params = some params ∧
      List.Forall₂ (fun type id => m'.typeOf id = .ok type) types params := by
  have hfound : m.signature? type = .ok (some (result, types)) := by
    rw [Module.signature?, Module.typeData, Arena.entry_eq_ok_iff.mpr htype]
    rfl
  obtain ⟨types', m₀, htypes, h⟩ := addFunction_eq_ok h
  rcases paramTypes_eq_ok htypes with ⟨rfl, result', hsignature⟩ | ⟨hnone, -⟩
  · obtain ⟨rfl, rfl⟩ : result = result' ∧ types = types' := by
      simpa using hfound.symm.trans hsignature
    obtain ⟨rfl, pointer, m₁, value, m₂, params, m₃, hpointer, hvalue, hparams, hlast⟩ :=
      appendFunction_eq_ok h
    have htyped := pushParams_typeOf hparams
    obtain ⟨_, rfl⟩ := intern_same hpointer
    cases hvalue
    obtain ⟨_, rfl⟩ := pushParams_same hparams
    refine ⟨params, ?_⟩
    rcases hlast with rfl | hrecord
    · exact ⟨by simp [Module.apply], htyped⟩
    · obtain ⟨function, -, rfl⟩ := record_eq_ok_iff.mp hrecord
      exact ⟨by simp [Module.apply], htyped⟩
  · cases hfound.symm.trans hnone

/-- A new global is the address of its content. -/
theorem addGlobal_pointsTo {name : String} {content : TypeId} {g : ValueId}
    (h : addGlobal name content m = .ok g m') : m'.PointsTo g content := by
  obtain ⟨zero, m₁, pointer, m₂, m₃, -, hpointer, hpush, hlast⟩ := addGlobal_eq_ok h
  have htype := intern_type hpointer
  have hvalue := pushValue_typeOf hpush
  cases hpush
  rcases hlast with rfl | hrecord
  · exact ⟨pointer, hvalue, htype⟩
  · obtain ⟨function, -, rfl⟩ := record_eq_ok_iff.mp hrecord
    exact ⟨pointer, hvalue, htype⟩

end Ssa.Build

theorem Ssa.Module.PointsTo.mono {P : Change → Prop} {m m' : Module} {pointer : ValueId}
    {type : TypeId} (h : m.PointsTo pointer type) (hevolves : m.Evolves P m') :
    m'.PointsTo pointer type := by
  obtain ⟨own, hown, htype⟩ := h
  exact ⟨own, hevolves.typeOf hown, hevolves.partsKept htype (by simp)⟩

namespace Lowering

variable {asm : Assembly} {m : MethodId} {f : FunctionId} {s s' : Session} {sig : TypeSig}
  {v : ValueId}

def Session.HasSig (asm : Assembly) (s : Session) (sig : TypeSig) (v : ValueId) : Prop :=
  ∃ type, irType asm sig s = .ok type s ∧ s.module.typeOf v = .ok type

/-- The value is a pointer to the type of the signature. -/
def Session.PointsTo (asm : Assembly) (s : Session) (sig : TypeSig) (v : ValueId) : Prop :=
  ∃ type, irType asm sig s = .ok type s ∧ s.module.PointsTo v type

/-- A type that was asked for is the type of the signature ever after. -/
theorem irType_extends {type : TypeId} (h : irType asm sig s = .ok type s') {t : Session}
    (hext : s'.Extends t) : irType asm sig t = .ok type t :=
  (inferInstance : Settles Session.Extends (irType asm sig)).run h hext

theorem Session.HasSig.mono (h : s.HasSig asm sig v) (hext : s.Extends s') :
    s'.HasSig asm sig v := by
  obtain ⟨type, htype, hv⟩ := h
  exact ⟨type, irType_extends htype hext, hext.module.typeOf hv⟩

theorem Session.PointsTo.mono (h : s.PointsTo asm sig v) (hext : s.Extends s') :
    s'.PointsTo asm sig v := by
  obtain ⟨type, htype, hv⟩ := h
  exact ⟨type, irType_extends htype hext, Module.PointsTo.mono hv hext.module⟩

def Session.Takes (asm : Assembly) (s : Session) (m : MethodId) (f : FunctionId) : Prop :=
  ∃ d sigs params, asm.method m = .ok d ∧ argSigs asm d = .ok sigs ∧
    s.module.functions[f.index]?.map Function.params = some params ∧
    List.Forall₂ (s.HasSig asm) sigs params

theorem Session.Takes.mono (h : s.Takes asm m f) (hext : s.Extends s') : s'.Takes asm m f := by
  obtain ⟨d, sigs, params, hd, hsigs, hparams, htyped⟩ := h
  exact ⟨d, sigs, params, hd, hsigs, hext.module.functionParams hparams,
    htyped.imp fun _ _ h => h.mono hext⟩

def Session.Returns (asm : Assembly) (s : Session) (d : MethodDef) (f : FunctionId) : Prop :=
  ∃ name type result types, s.module.functions[f.index]?.map Function.head = some (name, type) ∧
    s.module.types[type.index]? = some (.function result types) ∧
    irType asm d.returnType s = .ok result s

theorem Session.Returns.mono {d : MethodDef} (h : s.Returns asm d f) (hext : s.Extends s') :
    s'.Returns asm d f := by
  obtain ⟨name, type, result, types, hhead, htype, hresult⟩ := h
  exact ⟨name, type, result, types, hext.module.functionHead hhead,
    hext.module.partsKept htype (by simp), irType_extends hresult hext⟩

theorem functionType_params {d : MethodDef} {type : TypeId}
    (h : functionType asm d s = .ok type s') :
    ∃ result sigs types, argSigs asm d = .ok sigs ∧
      s'.module.types[type.index]? = some (.function result types) ∧
      irType asm d.returnType s' = .ok result s' ∧
      List.Forall₂ (fun sig type => irType asm sig s' = .ok type s') sigs types := by
  simp only [functionType, bind_eq_ok_iff, Lower.liftM_build, Lower.build_eq_ok_iff,
    Lower.liftM_ask, Lower.ask_eq_ok_iff] at h
  obtain ⟨result, s₁, hresult, sigs, _, ⟨hsigs, rfl⟩, types, s₂, htypes, m, hintern, rfl⟩ := h
  have hargs : Session.Extends _ s₂ :=
    (inferInstance : Keeps Session.Extends (sigs.mapM (irType asm))).run htypes
  have hmade := Keeps.forall₂_of_mapM (R := Session.Extends) (fun _ => inferInstance)
    (P := fun t sig type => irType asm sig t = .ok type t) (Std.Refl.refl _)
    (fun _ h => irType_extends h (Std.Refl.refl _)) (fun _ hext h => irType_extends h hext) htypes
  have hext : s₂.Extends { s₂ with module := m } :=
    (inferInstance : Keeps Session.Extends (Lower.build (Build.functionType result types))).run
      (Lower.build_eq_ok_iff.mpr ⟨m, hintern, rfl⟩)
  exact ⟨result, sigs, types, hsigs, Build.intern_type hintern,
    irType_extends hresult (IsTrans.trans _ _ _ hargs hext),
    hmade.imp fun _ _ h => irType_extends h hext⟩

theorem takes_of_addFunction {d : MethodDef} {name : String} {type : TypeId} {linkage : Linkage}
    {module : Module} {t : Session} (hd : asm.method m = .ok d)
    (htype : functionType asm d s = .ok type s')
    (hadd : Build.addFunction name type linkage s'.module = .ok f module)
    (hext : Session.Extends { s' with module } t) : t.Takes asm m f ∧ t.Returns asm d f := by
  obtain ⟨result, sigs, types, hsigs, hfunction, hresult, htypes⟩ := functionType_params htype
  obtain ⟨params, hparams, hvalues⟩ := Build.addFunction_params hfunction hadd
  obtain ⟨rfl, _, value, hfunctions⟩ := Build.addFunction_functions hadd
  have hmade : Session.Extends s' { s' with module } :=
    (inferInstance : Keeps Session.Extends (Lower.build (Build.addFunction name type linkage))).run
      (Lower.build_eq_ok_iff.mpr ⟨module, hadd, rfl⟩)
  have hall : List.Forall₂ (Session.HasSig asm { s' with module }) sigs params := by
    rw [List.forall₂_iff_get] at htypes hvalues ⊢
    refine ⟨htypes.1.trans hvalues.1, fun i hi hi' => ?_⟩
    have hi'' : i < types.length := htypes.1 ▸ hi
    exact ⟨types.get ⟨i, hi''⟩, irType_extends (htypes.2 i hi hi'') hmade, hvalues.2 i hi'' hi'⟩
  refine ⟨Session.Takes.mono ⟨d, sigs, params, hd, hsigs, hparams, hall⟩ hext,
    Session.Returns.mono ⟨name, type, result, types, ?_, ?_, irType_extends hresult hmade⟩ hext⟩
  · simp [hfunctions, Function.head]
  · exact hmade.module.partsKept hfunction (by simp)

/-- What is registered has the types of its signatures. -/
structure Session.Signed (asm : Assembly) (s : Session) : Prop where
  handles : s.HandlesSound asm
  named : s.FunctionsSound
  statics : ∀ {f : FieldId} {g : ValueId}, s.registry.staticField? f = some g →
    ∃ d, asm.field f = .ok d ∧ s.PointsTo asm d.sig g
  functions : NamesDistinct asm → ∀ {m : MethodId} {f : FunctionId}, s.FunctionOf asm m f →
    s.Takes asm m f ∧ ∃ d, asm.method m = .ok d ∧ s.Returns asm d f
  /-- Allocation routines return pointers, and are functions of no method. -/
  routines : ∀ {ty : TypeDefId} {f : FunctionId}, s.registry.newobjs.lookup ty = some f →
    s.module.ReturnsPointer f ∧ ∀ name, s.registry.function? name ≠ some f

namespace Session.Signed

theorem mono (hs : s.Signed asm) (hext : s.Extends s')
    (htypes : s'.registry.types = s.registry.types)
    (hfunctions : s'.registry.functions = s.registry.functions)
    (hstatics : s'.registry.staticFields = s.registry.staticFields)
    (hnewobjs : s'.registry.newobjs = s.registry.newobjs) : s'.Signed asm where
  handles := hs.handles.mono hext.module htypes
  named := FunctionsSound.mono hs.named hext hfunctions
  statics {f g} hg := by
    rw [Registry.staticField?, hstatics] at hg
    obtain ⟨d, hd, hpoints⟩ := hs.statics hg
    exact ⟨d, hd, hpoints.mono hext⟩
  functions hnames {m f} hf := by
    obtain ⟨name, hname, hf⟩ := hf
    rw [Registry.function?, hfunctions] at hf
    obtain ⟨htakes, d, hd, hreturns⟩ := hs.functions hnames ⟨name, hname, hf⟩
    exact ⟨htakes.mono hext, d, hd, hreturns.mono hext⟩
  routines {ty f} hf := by
    rw [hnewobjs] at hf
    obtain ⟨hpointer, hnone⟩ := hs.routines hf
    refine ⟨hpointer.mono hext.module, fun name => ?_⟩
    rw [Registry.function?, hfunctions]
    exact hnone name

theorem evolves {module : Module} (hs : s.Signed asm) (h : s.module.Evolves Change.Any module) :
    Session.Signed asm { s with module } :=
  hs.mono ⟨h, Std.Refl.refl _⟩ rfl rfl rfl rfl

end Session.Signed

section Actions

variable {α : Type}

/-- What is registered under a key that is taken changes nothing. -/
theorem Registering.claimed_eq_error {taken : Registry → Bool} {kind : EntryKind}
    {name : Except Fault String} {change : Registry → Registry} {r r' : Registry} {stop : Stop}
    (h : (do
      claim (taken (← get)) kind name
      modify change : Registering PUnit) r = .error stop r') : r' = r := by
  rcases bind_eq_error_iff.mp h with hget | ⟨_, _, hget, hrest⟩
  · cases hget
  · obtain ⟨rfl, rfl⟩ := get_eq_ok_iff.mp hget
    rcases bind_eq_error_iff.mp hrest with hclaim | ⟨_, _, -, hmodify⟩
    · unfold claim at hclaim
      split at hclaim
      · split at hclaim <;>
        · cases hclaim
          rfl
      · cases hclaim
    · cases hmodify

/-- The registration of an entry that can be refused. -/
theorem leads_claimed {I J : Session → Prop} {F : LoweringError → Session → Prop}
    {taken : Registry → Bool} {kind : EntryKind} {name : Except Fault String}
    {change : Registry → Registry} (hfails : ∀ {s : Session} {e : LoweringError}, I s → F e s)
    (hchange : ∀ {s : Session}, I s → taken s.registry = false →
      J { s with registry := change s.registry }) :
    Leads I (fun _ => J) F (Lower.register (do
      Registering.claim (taken (← get)) kind name
      modify change : Registering PUnit)) where
  ok hs h := by
    obtain ⟨r, hregister, rfl⟩ := Lower.register_eq_ok_iff.mp h
    obtain ⟨hnew, rfl⟩ := Registering.claimed_eq_ok taken hregister
    exact hchange hs hnew
  fails hs h := by
    unfold Lower.register at h
    split at h
    · cases h
    · rename_i hregister
      cases h
      obtain rfl := Registering.claimed_eq_error hregister
      exact hfails hs

namespace Session.Signed

/-- A state after a failure is as good as any other. -/
abbrev OrFailed (asm : Assembly) : LoweringError → Session → Prop := fun _ => Session.Signed asm

instance : Upholding Change.Any (Session.Signed asm) (OrFailed asm) where
  build hx _ _ _ hs h := hs.evolves (hx.run h)
  here hs _ := hs

instance (question : Registry → Except Stop α) :
    Upholds (Session.Signed asm) (OrFailed asm) (Lower.consult question) :=
  upholds_consult fun hs _ => hs

instance (x : Layouts α) : Upholds (Session.Signed asm) (OrFailed asm) (Lower.layout x) where
  ok hs h := by
    obtain ⟨c, -, rfl⟩ := Lower.layout_eq_ok_iff.mp h
    exact hs.mono ⟨Std.Refl.refl _, Std.Refl.refl _⟩ rfl rfl rfl rfl
  fails hs h := by
    unfold Lower.layout at h
    split at h
    · cases h
    · cases h
      exact hs.mono ⟨Std.Refl.refl _, Std.Refl.refl _⟩ rfl rfl rfl rfl

instance : Naming asm Change.Any (Session.Signed asm) (OrFailed asm) where
  namedType _ := upholds_namedType fun _ => inferInstance

theorem upholds_other {taken : Registry → Bool} {kind : EntryKind} {name : Except Fault String}
    {change : Registry → Registry}
    (hchange : ∀ {r}, taken r = false → r.Extends (change r) ∧ (change r).types = r.types ∧
      (change r).functions = r.functions ∧ (change r).staticFields = r.staticFields ∧
      (change r).newobjs = r.newobjs) :
    Upholds (Session.Signed asm) (OrFailed asm) (Lower.register (do
      Registering.claim (taken (← get)) kind name
      modify change : Registering PUnit)) :=
  (leads_claimed id fun hs hnew => by
    obtain ⟨hext, htypes, hfunctions, hstatics, hnewobjs⟩ := hchange hnew
    exact hs.mono ⟨Std.Refl.refl _, hext⟩ htypes hfunctions hstatics hnewobjs).upholds

section Functions

/-- A new function for a method, which is not registered yet. -/
structure Made (asm : Assembly) (m : MethodId) (name : String) (f : FunctionId) (s : Session) :
    Prop where
  signed : s.Signed asm
  named : s.module.functions[f.index]?.map Function.name = some name
  takes : s.Takes asm m f ∧ ∃ d, asm.method m = .ok d ∧ s.Returns asm d f
  routine : ∀ ty, s.registry.newobjs.lookup ty ≠ some f

theorem leads_made {d : MethodDef} (name : String) (linkage : Linkage) (hd : asm.method m = .ok d) :
    Leads (Session.Signed asm) (Made asm m name) (OrFailed asm) (do
      let type ← functionType asm d
      Build.addFunction name type linkage : Lower FunctionId) where
  ok {s f s'} hs h := by
    obtain ⟨type, s₁, htype, hbuild⟩ := bind_eq_ok_iff.mp h
    have hs₁ := (inferInstance : Upholds (Session.Signed asm) (OrFailed asm)
      (functionType asm d)).ok hs htype
    obtain ⟨module, hadd, rfl⟩ := Lower.build_eq_ok_iff.mp hbuild
    have hevolves : s₁.module.Evolves Change.Any module :=
      (inferInstance : Keeps (Module.Evolves Change.Any)
        (Build.addFunction name type linkage)).run hadd
    obtain ⟨htakes, hreturns⟩ := takes_of_addFunction hd htype hadd (Std.Refl.refl _)
    refine ⟨hs₁.evolves hevolves, ?_, ⟨htakes, d, hd, hreturns⟩, fun ty hf => ?_⟩
    · obtain ⟨rfl, params, value, hfunctions⟩ := Build.addFunction_functions hadd
      simp [hfunctions]
    · obtain ⟨rfl, -⟩ := Build.addFunction_functions hadd
      obtain ⟨_, _, _, _, _, hhead, -⟩ := (hs₁.routines hf).1
      simp at hhead
  fails {s e s'} hs h := by
    rcases bind_eq_error_iff.mp h with htype | ⟨type, s₁, -, hadd⟩
    · exact (inferInstance : Upholds (Session.Signed asm) (OrFailed asm)
        (functionType asm d)).fails hs htype
    · exact (build_ne_error hadd).elim

theorem leads_addFunction {name : String} (hname : Names.method asm m = .ok name) :
    Leads (Made asm m name f) (fun _ => Session.Signed asm) (OrFailed asm)
      (Lower.register (Registering.addFunction name f)) := by
  refine leads_claimed (fun hmade => hmade.signed) fun {s} hmade hnew => ?_
  have hext : s.Extends { s with
      registry := { s.registry with functions := (name, f) :: s.registry.functions } } :=
    ⟨Std.Refl.refl _, lookup_cons_of_new hnew, id, id, id, id, id, fun _ h => h, rfl, rfl⟩
  have hcases {name' : String} {f' : FunctionId}
      (hf' : ((name, f) :: s.registry.functions).lookup name' = some f') :
      (name' = name ∧ f' = f) ∨ s.registry.function? name' = some f' := lookup_cons_cases hf'
  obtain ⟨hs, hnamed, ⟨htakes, d, hd, hreturns⟩, hroutine⟩ := hmade
  refine ⟨hs.handles.mono (Std.Refl.refl _) rfl, fun {name' f'} hf' => ?_, fun hg => ?_,
    fun hnames {m' f'} hf' => ?_, fun {ty f'} hf' => ?_⟩
  · rcases hcases hf' with ⟨rfl, rfl⟩ | hold
    · exact hnamed
    · exact hs.named hold
  · obtain ⟨d', hd', hpoints⟩ := hs.statics hg
    exact ⟨d', hd', hpoints.mono hext⟩
  · obtain ⟨name', hname', hf'⟩ := hf'
    rcases hcases hf' with ⟨rfl, rfl⟩ | hold
    · obtain rfl := hnames hname hname'
      exact ⟨htakes.mono hext, d, hd, hreturns.mono hext⟩
    · obtain ⟨htakes', d', hd', hreturns'⟩ := hs.functions hnames ⟨name', hname', hold⟩
      exact ⟨htakes'.mono hext, d', hd', hreturns'.mono hext⟩
  · obtain ⟨hpointer, hnone⟩ := hs.routines hf'
    refine ⟨hpointer, fun name' hf => ?_⟩
    rcases hcases hf with ⟨-, rfl⟩ | hold
    · exact hroutine ty hf'
    · exact hnone name' hold

instance (m : MethodId) : Upholds (Session.Signed asm) (OrFailed asm) (declareFunction asm m) := by
  unfold declareFunction
  refine Upholds.seqOf inferInstance fun {s name s'} _ hname =>
    Upholds.seq inferInstance fun t => ?_
  split
  · infer_instance
  · refine Upholds.seqOf inferInstance fun {s d s'} _ hd => Leads.upholds ?_
    have hmade := leads_made name (linkageOf d) (Lower.ask_eq_ok_iff.mp hd).1
    have hregister (f : FunctionId) := leads_addFunction (f := f) (Lower.ask_eq_ok_iff.mp hname).1
    have hall := Leads.seq hmade fun f => Leads.seq (hregister f) fun _ =>
      Leads.pure (a := f) (J := fun _ => Session.Signed asm) id
    simpa only [bind_assoc, Lower.liftM_register] using hall

end Functions

section Statics

instance (f : FieldId) : Upholds (Session.Signed asm) (OrFailed asm) (staticField asm f) := by
  unfold staticField
  refine Upholds.seq inferInstance fun t => ?_
  split
  · infer_instance
  · refine Upholds.seqOf inferInstance fun {s d s'} _ hd => ?_
    have hd := (Lower.ask_eq_ok_iff.mp hd).1
    have htyped : Leads (Session.Signed asm)
        (fun type s => s.Signed asm ∧ irType asm d.sig s = .ok type s) (OrFailed asm)
        (irType asm d.sig) :=
      { ok := fun hs h => ⟨(inferInstance : Upholds (Session.Signed asm) (OrFailed asm)
          (irType asm d.sig)).ok hs h, irType_extends h (Std.Refl.refl _)⟩
        fails := fun hs h => (inferInstance : Upholds (Session.Signed asm) (OrFailed asm)
          (irType asm d.sig)).fails hs h }
    have hnamed (type : TypeId) : Upholds (fun s => s.Signed asm ∧ irType asm d.sig s = .ok type s)
        (OrFailed asm) (Lower.ask (Names.staticField asm f)) :=
      { ok := fun hs h => (Lower.ask_eq_ok_iff.mp h).2 ▸ hs
        fails := fun hs h => (inferInstance : Upholds (Session.Signed asm) (OrFailed asm)
          (Lower.ask (Names.staticField asm f))).fails hs.1 h }
    have hadded (name : String) (type : TypeId) :
        Leads (fun s => s.Signed asm ∧ irType asm d.sig s = .ok type s)
          (fun g s => s.Signed asm ∧ s.PointsTo asm d.sig g) (OrFailed asm)
          (Lower.build (Build.addGlobal name type)) :=
      { ok := fun {s g s'} hs h => by
          obtain ⟨module, hadd, rfl⟩ := Lower.build_eq_ok_iff.mp h
          have hevolves : s.module.Evolves Change.Any module :=
            (inferInstance : Keeps (Module.Evolves Change.Any) (Build.addGlobal name type)).run hadd
          exact ⟨hs.1.evolves hevolves, type, irType_extends hs.2 ⟨hevolves, Std.Refl.refl _⟩,
            Build.addGlobal_pointsTo hadd⟩
        fails := fun _ h => (build_ne_error h).elim }
    have hregistered (g : ValueId) : Leads (fun s => s.Signed asm ∧ s.PointsTo asm d.sig g)
        (fun _ => Session.Signed asm) (OrFailed asm)
        (Lower.register (Registering.addStaticField asm f g)) := by
      refine leads_claimed And.left fun {s} hs hnew => ?_
      have hext : s.Extends { s with
          registry := { s.registry with staticFields := (f, g) :: s.registry.staticFields } } :=
        ⟨Std.Refl.refl _, id, lookup_cons_of_new hnew, id, id, id, id, fun _ h => h, rfl, rfl⟩
      refine ⟨hs.1.handles.mono (Std.Refl.refl _) rfl, FunctionsSound.mono hs.1.named hext rfl,
        fun {f' g'} hg' => ?_, fun hnames {m f} hf => ?_, hs.1.routines⟩
      · rcases lookup_cons_cases hg' with ⟨rfl, rfl⟩ | hg'
        · exact ⟨d, hd, hs.2.mono hext⟩
        · obtain ⟨d', hd', hpoints⟩ := hs.1.statics hg'
          exact ⟨d', hd', hpoints.mono hext⟩
      · obtain ⟨htakes, d', hd', hreturns⟩ := hs.1.functions hnames hf
        exact ⟨htakes.mono hext, d', hd', hreturns.mono hext⟩
    exact Leads.upholds (Leads.seq htyped fun type => Leads.seq (hnamed type).leads fun name =>
      Leads.seq (hadded name type) fun g => Leads.seq (hregistered g) fun _ => Leads.pure id)

end Statics

section Routines

variable (ty : TypeDefId)

/-- A new routine, which is not registered yet. -/
structure Fresh (asm : Assembly) (f : FunctionId) (s : Session) : Prop where
  signed : s.Signed asm
  pointer : s.module.ReturnsPointer f
  nameless : ∀ name, s.registry.function? name ≠ some f

/-- A routine is made with a type that has a pointer as its result. -/
theorem leads_fresh (struct : TypeId) :
    Leads (Session.Signed asm) (Fresh asm) (OrFailed asm) (do
      let object ← Build.pointerType struct
      let type ← Build.functionType object []
      let name ← (liftM (Names.newobj asm ty) : Lower String)
      Build.addFunction name type .internal : Lower FunctionId) where
  ok {s f s'} hs h := by
    simp only [bind_eq_ok_iff, Lower.liftM_build, Lower.build_eq_ok_iff, Lower.liftM_ask,
      Lower.ask_eq_ok_iff] at h
    obtain ⟨object, _, ⟨m₁, hobject, rfl⟩, type, _, ⟨m₂, htype, rfl⟩, name, _, ⟨-, rfl⟩, m₃, hadd,
      rfl⟩ := h
    have hsecond : m₁.Evolves Change.Any m₂ :=
      (inferInstance : Keeps (Module.Evolves Change.Any) (Build.functionType object [])).run htype
    have hthird : m₂.Evolves Change.Any m₃ :=
      (inferInstance : Keeps (Module.Evolves Change.Any)
        (Build.addFunction name type .internal)).run hadd
    have hall : s.module.Evolves Change.Any m₃ :=
      ((inferInstance : Keeps (Module.Evolves Change.Any) (Build.pointerType struct)).run
        hobject).trans
        (hsecond.trans hthird)
    obtain ⟨rfl, params, value, hfunctions⟩ := Build.addFunction_functions hadd
    refine ⟨hs.evolves hall, ⟨name, type, object, [], struct, ?_, ?_, ?_⟩, fun name' hf => ?_⟩
    · simp [hfunctions, Function.head]
    · exact hthird.partsKept (Build.intern_type htype) (by simp)
    · exact Module.Evolves.partsKept (hsecond.trans hthird) (Build.intern_type hobject) (by simp)
    · have hnamed := hs.named hf
      obtain ⟨_, rfl⟩ := Build.intern_same hobject
      obtain ⟨_, rfl⟩ := Build.intern_same htype
      simp at hnamed
  fails hs h := by
    have hupholds : Upholds (Session.Signed asm) (OrFailed asm) (do
        let object ← Build.pointerType struct
        let type ← Build.functionType object []
        let name ← (liftM (Names.newobj asm ty) : Lower String)
        Build.addFunction name type .internal : Lower FunctionId) := inferInstance
    exact hupholds.fails hs h

theorem leads_addNewobj : Leads (Fresh asm f) (fun _ => Session.Signed asm) (OrFailed asm)
    (Lower.register (Registering.addNewobj asm ty f)) := by
  refine leads_claimed (fun hfresh => hfresh.signed) fun {s} hfresh hnew => ?_
  have hext : s.Extends { s with
      registry := { s.registry with newobjs := (ty, f) :: s.registry.newobjs } } :=
    ⟨Std.Refl.refl _, id, id, id, id, id, lookup_cons_of_new hnew, fun _ h => h, rfl, rfl⟩
  have hs := hfresh.signed
  refine ⟨hs.handles.mono (Std.Refl.refl _) rfl, FunctionsSound.mono hs.named hext rfl,
    fun hg => ?_, fun hnames {m f} hf => ?_, fun {ty' f'} hf' => ?_⟩
  · obtain ⟨d, hd, hpoints⟩ := hs.statics hg
    exact ⟨d, hd, hpoints.mono hext⟩
  · obtain ⟨htakes, d, hd, hreturns⟩ := hs.functions hnames hf
    exact ⟨htakes.mono hext, d, hd, hreturns.mono hext⟩
  · rcases lookup_cons_cases hf' with ⟨-, rfl⟩ | hf'
    · exact ⟨hfresh.pointer, hfresh.nameless⟩
    · exact hs.routines hf'

set_option synthInstance.maxSize 1024 in
instance (ty : TypeDefId) :
    Upholds (Session.Signed asm) (OrFailed asm) (newobjFunction asm ty) := by
  unfold newobjFunction
  dsimp only
  refine Upholds.seq inferInstance fun t => ?_
  split
  · infer_instance
  · refine Upholds.seq inferInstance fun struct => Leads.upholds ?_
    have hrest (f : FunctionId) : Upholds (Session.Signed asm) (OrFailed asm) (do
        let saved := (← get).module.position
        let entry ← Build.appendBlock f "entry"
        Build.positionAtEnd entry
        let object ← Build.heapAlloc struct none
        if (← get).registry.hasVTable ty then
          let stores ← tableStores asm (← Lower.consult (·.vtable asm ty))
          storeTables struct object stores
        Build.ret (some object)
        if let some block := saved then Build.positionAtEnd block
        return f : Lower FunctionId) := by
      refine Upholds.seq inferInstance fun saved => ?_
      cases saved.module.position <;> infer_instance
    have hall := Leads.seq (leads_fresh ty struct) fun f =>
      Leads.seq (leads_addNewobj ty) fun _ => (hrest f).leads
    simp only [bind_assoc] at hall
    exact hall

end Routines

instance answering : Answering asm Change.Any (Session.Signed asm) (OrFailed asm) where
  namedType := Naming.namedType
  declareFunction _ := inferInstance
  staticField _ := inferInstance
  foldStatic f := {
    ok := fun {s _ s'} hs h => by
      obtain ⟨r, hregister, rfl⟩ := Lower.register_eq_ok_iff.mp h
      rcases Registering.foldStatic_eq_ok hregister with ⟨-, -, rfl⟩ | ⟨-, -, rfl⟩
      · exact hs
      · exact hs.mono ⟨Std.Refl.refl _, id, id, id, id, id, id,
          fun _ h => List.mem_cons_of_mem _ h, rfl, rfl⟩ rfl rfl rfl rfl
    fails := fun hs h => by
      unfold Lower.register at h
      split at h
      · cases h
      · rename_i hregister
        rcases bind_eq_error_iff.mp hregister with hget | ⟨_, _, hget, hrest⟩
        · cases hget
        · split at hrest <;> cases hrest }
  setInitializer _ _ := inferInstance
  stop hs := hs
  layout _ := inferInstance
  newobjFunction _ := inferInstance

instance constructing : Constructing asm Change.Any (Session.Signed asm) (OrFailed asm) where
  namedType := Naming.namedType
  declareFunction _ := inferInstance
  staticField _ := inferInstance
  layout _ := inferInstance
  handle _ := inferInstance
  interfaceIndex _ _ := inferInstance
  addSlotTable _ _ := upholds_other fun hnew =>
    ⟨⟨id, id, id, id, lookup_cons_of_new hnew, id, fun _ h => h, rfl, rfl⟩, rfl, rfl, rfl, rfl⟩
  addVTable _ _ _ := upholds_other fun hnew =>
    ⟨⟨id, id, id, lookup_cons_of_new hnew, id, id, fun _ h => h, rfl, rfl⟩, rfl, rfl, rfl, rfl⟩
  setInitializer _ _ := inferInstance
  setStructBody _ _ _ := inferInstance

end Session.Signed

end Actions

namespace Session.Signed

section Programs

variable {settings : Settings} {u : Unit}

/-- Nothing but handles is registered before the types are defined. -/
theorem of_compileTypes {module : Module} {declared : Session}
    (hdeclare : declareTypes asm { module } = .ok u declared)
    (h : compileTypes asm declared = .ok u s) : s.Signed asm := by
  have hdeclared := declared_of_declareTypes hdeclare
  obtain ⟨hfunctions, hstatics, -, -, hnewobjs⟩ := hdeclared.rest
  have hstart : declared.Signed asm := by
    refine ⟨.of_declareTypes hdeclare, fun hf => ?_, fun hg => ?_, fun _ {m f} hf => ?_,
      fun hf => ?_⟩
    · simp [Registry.function?, hfunctions] at hf
    · simp [Registry.staticField?, hstatics] at hg
    · obtain ⟨name, -, hf⟩ := hf
      simp [Registry.function?, hfunctions] at hf
    · simp [hnewobjs] at hf
  exact (inferInstance : Upholds (Session.Signed asm) (OrFailed asm) (compileTypes asm)).ok hstart h

instance (d : MethodDef) (name : String) (f : FunctionId) (body : MethodBody) :
    Upholds (Session.Signed asm) (OrFailed asm) (emitBody asm d name f body) := by
  refine Leads.upholds (leads_emitBody_of_entry (Upholds.leads inferInstance)
    (fun _ => inferInstance) fun site hasm _ => ?_)
  subst hasm
  have hbranching : Emit.Branching site.toFrame (fun _ => True)
      (fun _ => Session.Signed site.asm) (fun _ _ => True) (OrFailed site.asm) :=
        branching_of_flowing
  exact Emit.upholds_instruction_of_answering

instance (f : FunctionId) :
    Upholds (Session.Signed asm) (OrFailed asm) (Lower.finish settings f) := by
  have hverify : Upholds (Session.Signed asm) (OrFailed asm) (Lower.verify settings f) := by
    unfold Lower.verify
    split
    · refine Upholds.seq inferInstance fun result => ?_
      cases result with
      | ok => infer_instance
      | error error => exact answering.fail _
    · infer_instance
  unfold Lower.finish
  infer_instance

instance (m : MethodId) :
    Upholds (Session.Signed asm) (OrFailed asm) (compileMethod asm settings m) := by
  have hbody (d : MethodDef) (name : String) (body : MethodBody) :
      Upholds (Session.Signed asm) (OrFailed asm) (compileBody asm settings m d name body) := by
    unfold compileBody
    split
    · exact answering.fail _
    · infer_instance
    · infer_instance
  unfold compileMethod
  refine Upholds.seq inferInstance fun d => Upholds.seq inferInstance fun kind =>
    Upholds.seq inferInstance fun name => ?_
  split
  · infer_instance
  · cases d.body <;> infer_instance

/-- Whenever methods are compiled, what is registered has the types of its signatures. -/
theorem of_reached (h : Reached asm settings s) : s.Signed asm := by
  induction h with
  | types declared defined => exact of_compileTypes declared defined
  | method m before compiled ih =>
      rcases compiled with ⟨outcome, h⟩ | ⟨e, h⟩
      · exact (inferInstance : Upholds (Session.Signed asm) (OrFailed asm)
          (compileMethod asm settings m)).ok ih h
      · exact (inferInstance : Upholds (Session.Signed asm) (OrFailed asm)
          (compileMethod asm settings m)).fails ih h

end Programs

end Session.Signed

end Lowering

end CilSsa
