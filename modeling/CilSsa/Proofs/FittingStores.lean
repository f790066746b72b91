import CilSsa.Proofs.FieldMembers
import CilSsa.Proofs.LoweredBodies
import CilSsa.Proofs.SoundBodies
import CilSsa.Proofs.SuitedElements

/-!
Stores fit where they are stored.

Every value is brought to the type of its destination before it is stored, but values of some
classes are not brought to others.  So a store of a verified body has a value of the class of its
destination, or of one that nothing is cast from or to.  Nobody records the latter as misuse.
-/

namespace CilSsa

open Ssa Metadata Lowering

namespace Ssa.Module

variable {P : Change → Prop} {m m' : Module} {pointer value : ValueId} {type own : TypeId}

/-- The types are alike: they are the same, or both are integers or both are numbers with a
fraction, of one width, or both are pointers. -/
def Alike (m : Module) (own type : TypeId) : Prop :=
  own = type ∨ ∃ cls, m.classify own = .ok cls ∧ m.classify type = .ok cls ∧
    (cls.isInt || cls.isFloat || cls.isPointer) = true

/-- There is no cast for values of the one type to the other. -/
def Inconvertible (m : Module) (own type : TypeId) : Prop :=
  ∃ source target, m.classify own = .ok source ∧ m.classify type = .ok target ∧
    (source.isInt && target.isInt) = false ∧ ∀ signed, coercion? signed source target = none

/-- What is left alone has the right width already, or there is no cast. -/
theorem Unconverted.alike (h : m.Unconverted own type) :
    m.Alike own type ∨ m.Inconvertible own type := by
  obtain ⟨source, target, hsource, htarget, hnone⟩ := h
  by_cases hints : (source.isInt && target.isInt) = true
  · rw [Bool.and_eq_true] at hints
    cases source <;> cases target <;> simp [TypeClass.isInt] at hints
    obtain rfl := conversion?_int_eq_none_iff.mp (hnone true)
    exact .inl (.inr ⟨_, hsource, htarget, rfl⟩)
  · rw [Bool.not_eq_true] at hints
    refine .inr ⟨source, target, hsource, htarget, hints, fun signed => ?_⟩
    have hnone := hnone signed
    cases source <;> cases target <;> first | exact hnone | simp [TypeClass.isInt] at hints

theorem Unconverted.mono (h : m.Unconverted own type) (hevolves : m.Evolves P m') :
    m'.Unconverted own type := by
  obtain ⟨source, target, hsource, htarget, hnone⟩ := h
  exact ⟨source, target, hevolves.classify hsource, hevolves.classify htarget, hnone⟩

theorem Suits.mono (h : m.Suits value type) (hevolves : m.Evolves P m') : m'.Suits value type := by
  obtain ⟨own, hown, hsuits⟩ := h
  exact ⟨own, hevolves.typeOf hown, hsuits.imp_right fun h => h.mono hevolves⟩

/-- The value was brought to the type that the address points to. -/
def StoreFits (m : Module) (pointer value : ValueId) : Prop :=
  ∃ type, m.PointsTo pointer type ∧ m.Suits value type

theorem StoreFits.mono (h : m.StoreFits pointer value) (hevolves : m.Evolves P m') :
    m'.StoreFits pointer value := by
  obtain ⟨type, hpointer, hvalue⟩ := h
  exact ⟨type, PointsTo.mono hpointer hevolves, hvalue.mono hevolves⟩

theorem AimsAt.pointsTo (h : m.AimsAt pointer type) (hclass : m.classOf pointer = .ok .pointer) :
    m.PointsTo pointer type := by
  obtain ⟨target, ⟨own, hown, hsuits⟩, htarget⟩ := h
  rcases hsuits with rfl | ⟨source, cls, hsource, hcls, hnone⟩
  · exact ⟨own, hown, htarget⟩
  · obtain ⟨own', hown', hpointer⟩ := classOf_eq_ok_iff.mp hclass
    obtain rfl := Except.ok.inj (hown.symm.trans hown')
    obtain rfl := Except.ok.inj (hsource.symm.trans hpointer)
    obtain ⟨data, hdata, rfl⟩ := classify_eq_ok_iff.mp hcls
    obtain rfl := Option.some.inj (htarget.symm.trans hdata)
    exact absurd (hnone true) (by simp [IrType.classify, conversion?, coercion?])

/-- No store is new. -/
def Storeless (m m' : Module) : Prop :=
  ∀ v b pointer value, m'.StoresAt v b pointer value → m.StoresAt v b pointer value

instance : IsPreorder Module Storeless where
  refl _ _ _ _ _ := id
  trans _ _ _ h h' v b pointer value := h v b pointer value ∘ h' v b pointer value

theorem Evolves.storeless (h : m.Evolves P m') (hP : ∀ c, P c →
    ∀ block type pointer value isVolatile, c ≠ .addInst block type
      (.store pointer value isVolatile)) : m.Storeless m' := by
  intro v b pointer value hstore
  exact (h.storesAt (K := fun _ _ => False) hP hstore).resolve_right id

end Ssa.Module

namespace Lowering

open Build Module

instance : Building (fun _ => True) (Session.On Module.Storeless) :=
  Session.On.building fun _ _ h => h.storeless fun c hc _ _ pointer value isVolatile heq => by
    subst heq
    exact hc pointer value isVolatile rfl trivial

instance : Arranging (Session.On Module.Storeless) where
  build hx := Session.On.keeps ⟨fun h => (hx.run h).storeless fun c hc _ _ _ _ _ heq => by
    subst heq
    cases hc⟩

instance (settings : Settings) (f : FunctionId) :
    Keeps (Session.On Module.Storeless) (Lower.finish settings f) :=
  keeps_finish inferInstance

section Outlooks

variable {asm : Assembly} {final : Session} {function : FunctionId}

theorem aimsAt_of_structGep {s : Session} {c : LayoutCache} {f : FieldId} {d : FieldDef}
    {index : Nat} {struct type : TypeId} {base address : ValueId} {m m' : Module}
    (hmade : final.FieldsMade asm) (hclean : final.module.Blameless function)
    (hlayouts : s.layouts.Sound asm) (hd : asm.field f = .ok d)
    (hindex : Layouts.fieldIndex asm f s.layouts = .ok index c)
    (hstruct : final.registry.types.lookup d.declaringType = some struct)
    (h : Build.structGep struct base index m = .ok address m') (hhere : m.Here function)
    (hend : m'.Evolves Change.Any final.module) (htype : irType asm d.sig final = .ok type final) :
    final.module.AimsAt address type := by
  obtain ⟨name, body, packed, member, hbody, hmember, hpoints⟩ :=
    structGep_pointsTo h hhere hend hclean
  obtain ⟨handle, data, hhandle, hdata, hmade⟩ := hmade (fieldIndex_spec hindex hlayouts) hd
  obtain rfl := Option.some.inj (hstruct.symm.trans hhandle)
  obtain rfl := Option.some.inj (hbody.symm.trans hdata)
  obtain ⟨rfl, -⟩ :=
    EStateM.Result.ok.inj (htype.symm.trans (hmade name body packed member rfl hmember))
  exact hpoints.aimsAt

/-- Values are brought to the types of their elements, and to those of the storage
that they are stored in. -/
def fittingOutlook (final : Session) (signed : final.Signed asm) (function : FunctionId)
    (hmade : final.FieldsMade asm) (hclean : final.module.Blameless function) : Outlook asm where
  final
  function
  signed
  sound := final.module.Fitted
  convertible _ := True
  constructible _ := True
  storable := final.module.StoreFits
  known s := s.layouts.Sound asm
  known_later h hs := h.layouts.sound hs
  fits _ _ := True
  aims := final.module.AimsAt
  typed htyped _ := .of_typeOf htyped
  replaced _ htyped := .of_typeOf htyped
  fits_of_hasSig _ := trivial
  fits_of_call _ _ _ _ := trivial
  loaded _ := fun m e m' h _ hend => toStack_fitted h hend
  float := fun h _ hend => Emit.floatBinary_fitted h hend
  shift hlhs := fun m e m' h _ hend => Emit.shift_fitted h hend hlhs
  integer _ _ hlhs hrhs := fun m e m' h hhere hend =>
    Emit.intBinary_fitted h hhere hend hclean hlhs hrhs
  unary he h hend := by
    obtain ⟨own, hown, hv⟩ := unary_typeOf h
    have hall : Evolves Change.Any _ final.module :=
      ((inferInstance : Keeps (Evolves Change.Any) (Build.unary _ _)).run h).trans hend
    obtain ⟨own', hown', hsuits⟩ := he
    obtain rfl := Except.ok.inj ((hall.typeOf hown).symm.trans hown')
    exact ⟨own, hend.typeOf hv, hsuits⟩
  converted _ _ _ := fun m e m' h _ hend => Emit.convertElement_fitted h hend
  constructed _ _ _ hv := .of_typeOf hv
  aims_of_aimsAt h := h
  aims_of_member hlayouts hd hindex hstruct h hhere hend htype :=
    aimsAt_of_structGep hmade hclean hlayouts hd hindex hstruct h hhere hend htype
  stored haims hvalue h hhere hend :=
    ⟨_, haims.pointsTo (store_classOf h hhere hend hclean), hvalue⟩
  spilled he hpoints := ⟨_, hpoints, he⟩

end Outlooks

section Methods

variable {asm : Assembly} {settings : Settings} {s s' final : Session} {m : MethodId}
  {f : FunctionId} {d : MethodDef} {u : Unit}

/-- Parameters have the types of their signatures. -/
theorem welcomes_of_takes {o : Outlook asm} {sigs : List TypeSig}
    (hstorable : o.storable = o.final.module.StoreFits) (htakes : o.final.Takes asm m f)
    (hd : asm.method m = .ok d) (hsigs : argSigs asm d = .ok sigs) : o.Welcomes f sigs := by
  intro index sig type pointer value before hsig hparam hend htype hpoints
  obtain ⟨d', sigs', params, hd', hsigs', hparams, hvalues⟩ := htakes
  obtain rfl := Except.ok.inj (hd.symm.trans hd')
  obtain rfl := Except.ok.inj (hsigs.symm.trans hsigs')
  simp only [Module.param, Module.function, exceptBind_eq_ok_iff, Arena.entry_eq_ok_iff,
    List.getElem?_toArray] at hparam
  obtain ⟨function, hfunction, hvalue⟩ := hparam
  have hsame : o.final.module.functions[f.index]?.map Function.params = some function.params :=
    hend.functionParams (by rw [hfunction]; rfl)
  obtain rfl := Option.some.inj (hsame.symm.trans hparams)
  obtain ⟨hlt, rfl⟩ := List.getElem?_eq_some_iff.mp hsig
  obtain ⟨hlt', rfl⟩ := List.getElem?_eq_some_iff.mp hvalue
  obtain ⟨type', htype', htyped⟩ := hvalues.get hlt hlt'
  obtain ⟨rfl, -⟩ := EStateM.Result.ok.inj (htype.symm.trans htype')
  rw [hstorable]
  exact ⟨type, hpoints, .of_typeOf htyped⟩

/-- The function of a verified body has nothing to answer for. -/
theorem blameless_of_finish (hverify : settings.verify = true)
    (h : Lower.finish settings f s = .ok u s') : s'.module.Blameless f := by
  simp only [Lower.finish, Lower.verify, hverify, if_true, bind_eq_ok_iff, Lower.build_eq_ok_iff,
    Build.query_eq_ok_iff] at h
  obtain ⟨_, t, ⟨result, _, ⟨m, ⟨hresult, rfl⟩, rfl⟩, hverified⟩, m', hoptimize, rfl⟩ := h
  cases result with
  | error error => simp at hverified
  | ok _ =>
      obtain ⟨-, rfl⟩ := pure_eq_ok_iff.mp hverified
      intro misuse hmem
      rw [Build.optimize_misuses hoptimize] at hmem
      exact absurd rfl (Module.ne_of_verify hresult _ hmem)

theorem typesKept_of_compileMethod {outcome : MethodOutcome} (hs : Reached asm settings s)
    (h : compileMethod asm settings m s = .ok outcome s') : s.module.TypesKept s'.module := by
  obtain ⟨hplaced, hseparate⟩ := hs.ordered
  obtain ⟨g, mine, hapart⟩ := aside_of_endsIn hseparate hplaced (.inl ⟨outcome, h⟩)
  exact fun i type htype => (hapart.evolves.outside hplaced).type (t := ⟨i⟩) htype

/-- The stores so far fit, apart from those of the routines of new objects. -/
structure Session.StoresFit (asm : Assembly) (s : Session) : Prop where
  layouts : s.layouts.Sound asm
  made : s.FieldsMade asm
  stores : ∀ {v : ValueId} {b : BlockId} {pointer value : ValueId},
    s.module.StoresAt v b pointer value → s.module.StoreFits pointer value ∨
      ∃ ty g, s.registry.newobjs.lookup ty = some g ∧ s.module.Owns g b

/-- Whatever stores nothing. -/
theorem Session.StoresFit.later (hs : s.StoresFit asm) (hlater : Session.Later asm s s')
    (htypes : s.module.TypesKept s'.module) (hstores : s.module.Storeless s'.module) :
    s'.StoresFit asm where
  layouts := hlater.layouts.sound hs.layouts
  made := FieldsMade.mono hs.made hlater htypes
  stores hstore := (hs.stores (hstores _ _ _ _ hstore)).imp (fun h => h.mono hlater.module)
    fun ⟨ty, g, hg, hb⟩ => ⟨ty, g, hlater.registry.newobjs hg, hlater.module.owns hb⟩

/-- A body is emitted, and then verified. -/
theorem Session.StoresFit.emitBody {name : String} {body : MethodBody} {s₁ s₂ : Session}
    (hs : s.StoresFit asm) (hnames : NamesDistinct asm) (hverify : settings.verify = true)
    (hsigned : s'.Signed asm) (hd : asm.method m = .ok d) (hf : s₁.FunctionOf asm m f)
    (hstart : Session.Later asm s s₁) (hstores : s.module.Storeless s₁.module)
    (hemit : emitBody asm d name f body s₁ = .ok () s₂)
    (hfinish : Lower.finish settings f s₂ = .ok () s')
    (htypes : s.module.TypesKept s'.module) : s'.StoresFit asm := by
  have hemitted : Session.Later asm s₁ s₂ := Keeps.run hemit
  have hfinished : Session.Later asm s₂ s' := Keeps.run hfinish
  have hrest := IsTrans.trans _ _ _ hemitted hfinished
  have hall := IsTrans.trans _ _ _ hstart hrest
  have hmade : s'.FieldsMade asm := FieldsMade.mono hs.made hall htypes
  let o : Outlook asm :=
    fittingOutlook s' hsigned f hmade (blameless_of_finish hverify hfinish)
  have hfine : o.Fine s₂ := by
    refine Outlook.fine_of_emitBody (o := o) hemit hfinished (hstart.layouts.sound hs.layouts)
      (fun hstore => ?_) (fun sigs hsigs => ?_) fun _ _ =>
        ⟨fun _ _ _ _ _ _ => trivial, fun _ _ _ => trivial⟩
    · exact (hs.stores (hstores _ _ _ _ hstore)).imp (fun h => h.mono hall.module)
        fun ⟨ty, g, hg, hb⟩ => ⟨ty, g, hall.registry.newobjs hg, hstart.module.owns hb⟩
    · exact welcomes_of_takes rfl (hsigned.functions hnames (hf.later hrest)).1 hd hsigs
  have hkept : s₂.module.Storeless s'.module :=
    (inferInstance : Keeps (Session.On Module.Storeless) (Lower.finish settings f)).run hfinish
  refine ⟨hall.layouts.sound hs.layouts, hmade, fun hstore => ?_⟩
  exact (hfine.code.stores (hkept _ _ _ _ hstore)).imp id
    fun ⟨ty, g, hg, hb⟩ => ⟨ty, g, hg, hfinished.module.owns hb⟩

theorem Session.StoresFit.compileMethod {outcome : MethodOutcome} (hs : s.StoresFit asm)
    (hreached : Reached asm settings s) (hnames : NamesDistinct asm)
    (hverify : settings.verify = true) (h : compileMethod asm settings m s = .ok outcome s') :
    s'.StoresFit asm := by
  have htypes := typesKept_of_compileMethod hreached h
  have hlater : Session.Later asm s s' := Keeps.run h
  have hsigned : s'.Signed asm := .of_reached (.method m hreached (.inl ⟨outcome, h⟩))
  have hdeclare : Keeps (Session.On Module.Storeless) (declareFunction asm m) :=
    declareFunction_on m
  have hlinks (f : FunctionId) (linkage : Linkage) :
      Keeps (Session.On Module.Storeless) (Lower.build (Build.setLinkage f linkage)) :=
    inferInstance
  obtain ⟨d, hd, hrun⟩ := compileMethod_eq_ok h
  cases hrun with
  | skipped => exact hs
  | bodiless _ _ hdeclared => exact hs.later hlater htypes (hdeclare.run hdeclared)
  | deferred _ _ _ hdeclared hlink =>
      exact hs.later hlater htypes
        (IsTrans.trans _ _ _ (hdeclare.run hdeclared) ((hlinks _ _).run hlink))
  | lowered _ _ _ hdeclared hlink hemit hfinish =>
      have hlinked : Session.Later asm _ _ := Keeps.run hlink
      exact hs.emitBody hnames hverify hsigned hd
        (Session.FunctionOf.later hlinked (declareFunction_registered hdeclared))
        (IsTrans.trans _ _ _ (Keeps.run hdeclared) hlinked)
        (IsTrans.trans _ _ _ (hdeclare.run hdeclared) ((hlinks _ _).run hlink)) hemit hfinish htypes

end Methods

section Programs

variable {asm : Assembly} {settings : Settings} {s s' : Session} {m : MethodId} {f : FunctionId}
  {body : MethodBody} {report : Report}

theorem functionOf_of_compileMethod {outcome : MethodOutcome} (hm : Lowers asm m body)
    (h : compileMethod asm settings m s = .ok outcome s') : ∃ f, s'.FunctionOf asm m f := by
  obtain ⟨d, name, f, s₁, s₂, s₃, hdeclare, hlink, hemit, hfinish⟩ := compileMethod_of_lowers hm h
  have hlinked : Session.Later asm s₁ s₂ := Keeps.run hlink
  have hemitted : Session.Later asm s₂ s₃ := Keeps.run hemit
  have hfinished : Session.Later asm s₃ s' := Keeps.run hfinish
  exact ⟨f, Session.FunctionOf.later
    (IsTrans.trans _ _ _ hlinked (IsTrans.trans _ _ _ hemitted hfinished))
    (declareFunction_registered hdeclare)⟩

/-- Methods have been compiled, these among them. -/
structure Session.Compiled (asm : Assembly) (settings : Settings) (compiled : MethodId → Prop)
    (s : Session) : Prop where
  reached : Reached asm settings s
  fit : s.StoresFit asm
  functions : ∀ {m : MethodId} {body : MethodBody}, compiled m → Lowers asm m body →
    ∃ f, s.FunctionOf asm m f

theorem Session.Compiled.method {compiled : MethodId → Prop} {outcome : MethodOutcome}
    (hs : s.Compiled asm settings compiled) (hnames : NamesDistinct asm)
    (hverify : settings.verify = true) (h : compileMethod asm settings m s = .ok outcome s') :
    s'.Compiled asm settings fun m' => compiled m' ∨ m' = m where
  reached := .method m hs.reached (.inl ⟨outcome, h⟩)
  fit := hs.fit.compileMethod hs.reached hnames hverify h
  functions {m' body} hm' hlowers := by
    rcases hm' with hm' | rfl
    · obtain ⟨f, hf⟩ := hs.functions hm' hlowers
      exact ⟨f, Session.FunctionOf.later (Keeps.run h) hf⟩
    · exact functionOf_of_compileMethod hlowers h

theorem Session.Compiled.methodsOf {compiled : MethodId → Prop} {p p' : Progress} {ty : TypeDefId}
    {d : TypeDef} (hs : s.Compiled asm settings compiled) (hnames : NamesDistinct asm)
    (hverify : settings.verify = true) (hd : asm.typeDef ty = .ok d)
    (h : compileMethodsOf asm settings p ty s = .ok p' s') :
    s'.Compiled asm settings fun m => compiled m ∨ m ∈ d.methods := by
  obtain ⟨d', hd', h⟩ := compileMethodsOf_eq_ok h
  obtain rfl := Except.ok.inj (hd.symm.trans hd')
  refine motive_of_foldlM
    (motive := fun done _ s => s.Compiled asm settings fun m => compiled m ∨ m ∈ done)
    (fun {done m p p' s s'} hs h => ?_) [] (by simpa using hs) h
  obtain ⟨_, outcome, -, hcompile, -⟩ := compileListed_eq_ok h
  simpa [or_assoc] using hs.method hnames hverify hcompile

/-- Nothing is stored before the types are defined. -/
theorem compiled_of_compileTypes {declared : Session} (hplain : EnumsPlain asm)
    (hdeclare : declareTypes asm { module := { name := settings.moduleName } } = .ok () declared)
    (hdefine : compileTypes asm declared = .ok () s) :
    s.Compiled asm settings (Listed asm []) := by
  have hreached : Reached asm settings s := .types hdeclare hdefine
  have hlater : Session.Later asm declared s := Keeps.run hdefine
  have hlayouts : s.layouts.Sound asm := by
    refine hlater.layouts.sound ?_
    rw [(declared_of_declareTypes hdeclare).layouts]
    intro ty layout hlookup
    simp at hlookup
  refine ⟨hreached, ⟨hlayouts, fieldsMade_of_compileTypes hplain hdeclare hdefine,
    fun hstore => ?_⟩, fun hm => ?_⟩
  · obtain ⟨type, isVolatile, hvalue⟩ := hstore
    obtain ⟨block, hblock, -⟩ := hreached.ordered.1.listed hvalue
    have hbodiless : Keeps (Session.On Module.Bodiless) (do
        declareTypes asm
        compileTypes asm : Lower Unit) := inferInstance
    have hsize : s.module.blocks.size = 0 := hbodiless.run
      (bind_eq_ok_iff (x := declareTypes asm) (f := fun _ => compileTypes asm) |>.mpr
        ⟨(), _, hdeclare, hdefine⟩)
    simp [hsize] at hblock
  · obtain ⟨ty, hty, -⟩ := hm
    cases hty

set_option synthInstance.maxSize 512 in
/-- All methods are compiled, and then the static constructors are called. -/
theorem compiled_of_compileProgram (hplain : EnumsPlain asm) (hnames : NamesDistinct asm)
    (hverify : settings.verify = true)
    (h : compileProgram asm settings { module := { name := settings.moduleName } } = .ok report s) :
    ∃ t, t.Compiled asm settings (Listed asm asm.userTypes) ∧ Session.Later asm t s ∧
      t.module.Storeless s.module := by
  obtain ⟨declared, defined, hdeclare, hdefine, hbodies⟩ := compileProgram_eq_ok h
  obtain ⟨p, t, init, htypes, hinit, -⟩ := compileBodies_eq_ok hbodies
  have hstoreless : Keeps (Session.On Module.Storeless)
      (emitStaticInit asm settings p.compiled) := by
    have hdeclare (m : MethodId) : Keeps (Session.On Module.Storeless) (declareFunction asm m) :=
      declareFunction_on m
    unfold emitStaticInit
    dsimp only
    refine Keeps.seq inferInstance fun void => Keeps.seq inferInstance fun type =>
      Keeps.seq inferInstance fun f => Keeps.seq inferInstance fun registered => ?_
    infer_instance
  refine ⟨t, ?_, Keeps.run hinit, hstoreless.run hinit⟩
  refine motive_of_foldlM (motive := fun types _ s => s.Compiled asm settings (Listed asm types))
    (fun {types ty p p' s s'} hs h => ?_) []
      (compiled_of_compileTypes hplain hdeclare hdefine) htypes
  obtain ⟨d, hd, -⟩ := compileMethodsOf_eq_ok h
  rw [listed_append hd]
  exact hs.methodsOf hnames hverify hd h

/-- In a program whose functions are verified, a value is stored by the function of a body only
where the address points to a type that is like its own, or to which there is no cast from its own.
No two methods have one name here, and no enum has a struct for its integer. -/
theorem stores_of_compileProgram (hplain : EnumsPlain asm) (hnames : NamesDistinct asm)
    (hverify : settings.verify = true)
    (h : compileProgram asm settings { module := { name := settings.moduleName } } = .ok report s)
    (hm : Lowers asm m body) (hf : s.FunctionOf asm m f) :
    ∀ v b pointer value, s.module.StoresAt v b pointer value → s.module.Owns f b →
      ∃ type own, s.module.PointsTo pointer type ∧ s.module.typeOf value = .ok own ∧
        (s.module.Alike own type ∨ s.module.Inconvertible own type) := by
  obtain ⟨t, ht, hlater, hstoreless⟩ := compiled_of_compileProgram hplain hnames hverify h
  intro v b pointer value hstore hb
  rcases ht.fit.stores (hstoreless _ _ _ _ hstore) with hfits | ⟨ty, g, hg, hgb⟩
  · obtain ⟨type, hpointer, own, hown, hsuits⟩ := hfits.mono hlater.module
    refine ⟨type, own, hpointer, hown, ?_⟩
    rcases hsuits with rfl | hsuits
    · exact .inl (.inl rfl)
    · exact hsuits.alike
  · obtain ⟨f', name, hname, hf'⟩ := ht.functions hm.listed hm
    obtain rfl := hf.unique (Session.FunctionOf.later hlater ⟨name, hname, hf'⟩)
    obtain ⟨block, hblock, rfl⟩ := hb
    obtain ⟨block', hblock', rfl⟩ := hlater.module.owns hgb
    obtain rfl := Option.some.inj (hblock.symm.trans hblock')
    exact absurd hf' ((Session.Signed.of_reached ht.reached).routines hg |>.2 name)

/-- A body that stores a parameter to a field. -/
def fillBody : MethodBody where
  instructions := [
    { opcode := .ldarg0 },
    { opcode := .ldarg1 },
    { opcode := .stfld, operand := .field ⟨0⟩ },
    { opcode := .ret }]

/-- A body that stores no object to a number. -/
def clearBody : MethodBody where
  locals := [.r4]
  instructions := [
    { opcode := .ldnull },
    { opcode := .stloc0 },
    { opcode := .ret }]

/-- A class with a small field, and methods with these bodies. -/
def voids : Assembly :=
  { Assembly.ofName "voids" with
    types := #[
      TypeDef.ofKind .classType "System" "Object",
      TypeDef.ofKind .classType "System" "ValueType",
      { TypeDef.ofKind .classType "System" "Enum" with base := some Assembly.valueType },
      { TypeDef.ofKind .classType "" "C" with
        base := some Assembly.objectType, fields := [⟨0⟩], methods := [⟨0⟩, ⟨1⟩] }]
    fields := #[⟨"count", ⟨3⟩, .i1, false⟩]
    methods := #[
      { name := "Fill", declaringType := ⟨3⟩, params := [⟨"count", .i8⟩], returnType := .void,
        body := some fillBody },
      { name := "Clear", declaringType := ⟨3⟩, returnType := .void, flags := ⟨MethodFlags.static⟩,
        body := some clearBody }] }

def voidsCompiled : Session := stateOf (compileProgram voids {} { module := { name := "module" } })

theorem voids_plain : EnumsPlain voids := by
  intro ty inner henum
  obtain ⟨d, hd, hkind⟩ := Assembly.kindOf_eq_ok_iff.mp henum
  exact absurd hkind
    (Assembly.forall_typeDef (P := fun _ d => d.kind ≠ .enumType) (by decide +kernel) hd)

theorem voids_compiled : compileProgram voids {} { module := { name := "module" } } =
    .ok { compiled := ["C::Fill", "C::Clear"], staticInit := "module_static_init" } voidsCompiled :=
  eq_ok_stateOf (by decide +kernel)

/-- The parameter is cut to the width of the field. -/
theorem voids_fills : voids.validate = .ok () ∧ voidsCompiled.FunctionOf voids ⟨0⟩ ⟨0⟩ ∧
    voidsCompiled.module.StoresAt ⟨11⟩ ⟨1⟩ ⟨9⟩ ⟨10⟩ ∧ voidsCompiled.module.Owns ⟨0⟩ ⟨1⟩ ∧
    voidsCompiled.module.classOf ⟨10⟩ = .ok (.int 8) ∧
    ∃ type own, voidsCompiled.module.PointsTo ⟨9⟩ type ∧
    voidsCompiled.module.typeOf ⟨10⟩ = .ok own ∧
      (voidsCompiled.module.Alike own type ∨ voidsCompiled.module.Inconvertible own type) := by
  have hlowers : Lowers voids ⟨0⟩ fillBody := by
    refine ⟨⟨⟨3⟩, by decide +kernel, _, rfl, by decide +kernel⟩,
      ⟨_, .classType, rfl, rfl, rfl, rfl⟩, ?_⟩
    decide +kernel
  have hfunction : voidsCompiled.FunctionOf voids ⟨0⟩ ⟨0⟩ := ⟨_, rfl, by decide +kernel⟩
  have hstore : voidsCompiled.module.StoresAt ⟨11⟩ ⟨1⟩ ⟨9⟩ ⟨10⟩ := ⟨⟨3⟩, false, by decide +kernel⟩
  have howns : voidsCompiled.module.Owns ⟨0⟩ ⟨1⟩ := Option.map_eq_some_iff.mp (by decide +kernel)
  exact ⟨by decide +kernel, hfunction, hstore, howns, by decide +kernel,
    stores_of_compileProgram voids_plain (namesDistinct_of_nodup (by decide +kernel))
      rfl voids_compiled
      hlowers hfunction _ _ _ _ hstore howns⟩

/-- No object is stored where a number with a fraction is expected, which is smaller. -/
theorem voids_clears : voids.validate = .ok () ∧ ({} : Settings).verify = true ∧
    (∃ report, compileProgram voids {} { module := { name := "module" } } =
      .ok report voidsCompiled) ∧
    Lowers voids ⟨1⟩ clearBody ∧ voidsCompiled.FunctionOf voids ⟨1⟩ ⟨1⟩ ∧
    voidsCompiled.module.StoresAt ⟨17⟩ ⟨3⟩ ⟨13⟩ ⟨16⟩ ∧ voidsCompiled.module.Owns ⟨1⟩ ⟨3⟩ ∧
    voidsCompiled.module.PointsTo ⟨13⟩ ⟨12⟩ ∧ voidsCompiled.module.classify ⟨12⟩ = .ok (.float 32) ∧
    voidsCompiled.module.classOf ⟨16⟩ = .ok .pointer := by
  have hlowers : Lowers voids ⟨1⟩ clearBody := by
    refine ⟨⟨⟨3⟩, by decide +kernel, _, rfl, by decide +kernel⟩,
      ⟨_, .classType, rfl, rfl, rfl, rfl⟩, ?_⟩
    decide +kernel
  refine ⟨by decide +kernel, rfl, ⟨_, voids_compiled⟩, hlowers, ⟨_, rfl, by decide +kernel⟩,
    ⟨⟨3⟩, false, by decide +kernel⟩, Option.map_eq_some_iff.mp (by decide +kernel),
    ⟨⟨13⟩, by decide +kernel, by decide +kernel⟩, by decide +kernel, by decide +kernel⟩

end Programs

end Lowering

end CilSsa
