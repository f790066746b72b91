import CilSsa.Metadata.Validation
import CilSsa.Proofs.Answers

/-!
Misuse that verification leaves.

Every body is verified when it is done, and so is the function that runs the static constructors.
What was recorded against either has stopped the compilation by then.  Between two bodies functions
are only declared, which is misuse if their names are taken.
-/

namespace CilSsa

open Ssa Metadata Lowering

namespace Ssa

variable {m m' : Module} {f : FunctionId}

theorem Build.addFunction_misuses {name : String} {type result : TypeId} {params : List TypeId}
    {linkage : Linkage} (htype : m.types[type.index]? = some (.function result params))
    (h : Build.addFunction name type linkage m = .ok f m') :
    ∀ x ∈ m'.misuses, x ∈ m.misuses ∨ x.2 = .functionTwice name := by
  rw [addFunction, getBind_eq_ok_iff] at h
  simp only [bind_eq_ok_iff, query_eq_ok_iff] at h
  obtain ⟨signature, t, ⟨hsignature, ht⟩, h⟩ := h
  subst t
  have hfound : m.signature? type = .ok (some (result, params)) := by
    rw [Module.signature?, Module.typeData, Arena.entry_eq_ok_iff.mpr htype]
    rfl
  obtain rfl := Except.ok.inj (hfound.symm.trans hsignature)
  simp only [bind_eq_ok_iff, pure_eq_ok_iff, get_eq_ok_iff, modify_eq_ok_iff] at h
  obtain ⟨_, _, ⟨rfl, rfl⟩, pointer, m₁, hpointer, value, m₂, hvalue, params', m₃, hparams, _, _,
    ⟨rfl, rfl⟩, _, _, rfl, hrecord⟩ := h
  obtain ⟨_, rfl⟩ := intern_same hpointer
  cases hvalue
  obtain ⟨_, rfl⟩ := pushParams_same hparams
  split at hrecord
  · simp only [bind_eq_ok_iff, record_eq_ok_iff, pure_eq_ok_iff] at hrecord
    obtain ⟨_, _, ⟨function, -, rfl⟩, -, rfl⟩ := hrecord
    intro x hx
    rcases Array.mem_push.mp hx with hold | rfl
    · exact .inl hold
    · exact .inr rfl
  · obtain ⟨-, rfl⟩ := pure_eq_ok_iff.mp hrecord
    exact fun x hx => .inl hx

/-- No misuse is recorded against a function that is well formed. -/
theorem Module.ne_of_verify (h : m.verify f = .ok (.ok ())) : ∀ x ∈ m.misuses, x.1 ≠ some f := by
  simp only [Module.verify, exceptBind_eq_ok_iff] at h
  obtain ⟨defect, hdefect, h⟩ := h
  cases defect with
  | some defect =>
      simp only [exceptBind_eq_ok_iff, exceptPure_eq_ok_iff] at h
      obtain ⟨function, -, h⟩ := h
      simp at h
  | none =>
      simp only [Module.defect?, exceptBind_eq_ok_iff] at hdefect
      obtain ⟨function, -, hdefect⟩ := hdefect
      split at hdefect
      · simp at hdefect
      · rename_i hnone
        simpa [Module.misuseOf?] using hnone

/-- Recorded misuse is never taken back. -/
theorem Module.Evolves.mem_misuses {P : Change → Prop} {x : Option FunctionId × Misuse}
    (h : m.Evolves P m') (hx : x ∈ m.misuses) : x ∈ m'.misuses := by
  refine h.preserves (I := fun m => x ∈ m.misuses) (fun m c _ _ hx => ?_) hx
  by_cases hrecord : ∃ misuse, c = .record misuse
  · obtain ⟨misuse, rfl⟩ := hrecord
    exact Array.mem_push.mpr (.inl hx)
  · rwa [misuses_apply fun misuse heq => hrecord ⟨misuse, heq⟩]

theorem Build.optimize_misuses {level : OptLevel} {u : Unit}
    (h : Build.optimize f level m = .ok u m') : m'.misuses = m.misuses := by
  rcases optimize_cases h with rfl | ⟨kept, rfl⟩
  · rfl
  · exact Module.misuses_apply fun _ => nofun

end Ssa

namespace Lowering

variable {asm : Assembly} {settings : Settings} {f : FunctionId}
  {before : Array (Option FunctionId × Misuse)} {s s' : Session} {u : Unit}

theorem functionType_type {d : MethodDef} {type : TypeId} (h : functionType asm d s = .ok type s') :
    ∃ result params, s'.module.types[type.index]? = some (.function result params) := by
  simp only [functionType, bind_eq_ok_iff, Lower.liftM_build, Lower.build_eq_ok_iff] at h
  obtain ⟨result, _, -, sigs, _, -, params, _, -, m, hintern, rfl⟩ := h
  exact ⟨result, params, Build.intern_type hintern⟩

section Between

/-- The misuse so far remains such that nobody has to answer for it. -/
def Session.Clears (before : Array (Option FunctionId × Misuse)) (s s' : Session) : Prop :=
  s.Acquitted before → s'.Acquitted before

instance : IsPreorder Session (Session.Clears before) where
  refl _ := id
  trans _ _ _ h h' := h' ∘ h

theorem clears_of_misuses {m : Module} (h : m.misuses = s.module.misuses) :
    Session.Clears before s { s with module := m } :=
  fun hs x hx => hs x (h ▸ hx)

instance : Typing (Session.Clears before) where
  type hx := ⟨fun {s _ _} h => by
    obtain ⟨m, hbuild, rfl⟩ := Lower.build_eq_ok_iff.mp h
    refine clears_of_misuses ((hx.run hbuild).preserves
      (I := fun m => m.misuses = s.module.misuses) (fun m c hc _ hm => ?_) rfl)
    rw [← hm]
    exact Module.misuses_apply fun _ heq => by
      subst heq
      exact hc⟩

/-- A new function is misuse at most of its name. -/
theorem clears_of_addFunction {name : String} {type : TypeId} {linkage : Linkage} {m : Module}
    {r : Registry}
    (htype : ∃ result params, s.module.types[type.index]? = some (.function result params))
    (hadd : Build.addFunction name type linkage s.module = .ok f m)
    (hregister : Registering.addFunction name f s.registry = .ok u r) :
    Session.Clears before s { s with module := m, registry := r } := by
  intro hs x hx
  obtain ⟨result, params, htype⟩ := htype
  obtain ⟨-, rfl⟩ := Registering.addFunction_eq_ok hregister
  rcases Build.addFunction_misuses htype hadd x hx with hold | htwice
  · exact hs x hold
  · exact .inr (.inr ⟨name, htwice⟩)

instance (m : MethodId) : Keeps (Session.Clears before) (declareFunction asm m) where
  run {s f s'} h := by
    rw [declareFunction, bind_eq_ok_iff] at h
    obtain ⟨name, t, hname, h⟩ := h
    obtain ⟨-, rfl⟩ := Lower.ask_eq_ok_iff.mp hname
    rw [getBind_eq_ok_iff] at h
    cases hfound : t.registry.function? name with
    | some function =>
        simp only [hfound] at h
        obtain ⟨-, rfl⟩ := pure_eq_ok_iff.mp h
        exact Std.Refl.refl _
    | none =>
        simp only [hfound, bind_eq_ok_iff, Lower.liftM_ask, Lower.ask_eq_ok_iff, Lower.liftM_build,
          Lower.build_eq_ok_iff, Lower.liftM_register, Lower.register_eq_ok_iff,
          pure_eq_ok_iff] at h
        obtain ⟨d, _, ⟨-, rfl⟩, type, s₁, htype, f', _, ⟨m₁, hadd, rfl⟩,
          _, _, ⟨r, hregister, rfl⟩, rfl, rfl⟩ := h
        have hfirst : Session.Clears before _ s₁ :=
          (inferInstance : Keeps (Session.Clears before) (functionType asm d)).run htype
        exact IsTrans.trans _ _ _ hfirst
          (clears_of_addFunction (functionType_type htype) hadd hregister)

instance (linkage : Linkage) :
    Keeps (Session.Clears before) (Lower.build (Build.setLinkage f linkage)) where
  run h := by
    obtain ⟨m, hset, rfl⟩ := Lower.build_eq_ok_iff.mp h
    obtain rfl := Build.setLinkage_eq_ok hset
    exact clears_of_misuses (Module.misuses_apply fun _ => nofun)

end Between

section Programs

/-- A verified function has nothing to answer for. -/
theorem acquitted_of_finish (hverify : settings.verify = true)
    (h : Lower.finish settings f s = .ok u s') (hs : s.Answers before f) : s'.Acquitted before := by
  simp only [Lower.finish, Lower.verify, hverify, if_true, bind_eq_ok_iff, Lower.build_eq_ok_iff,
    Build.query_eq_ok_iff] at h
  obtain ⟨_, t, ⟨result, _, ⟨m, ⟨hresult, rfl⟩, rfl⟩, hverified⟩, m', hoptimize, rfl⟩ := h
  cases result with
  | error error => simp at hverified
  | ok _ =>
      obtain ⟨-, rfl⟩ := pure_eq_ok_iff.mp hverified
      refine clears_of_misuses (Build.optimize_misuses hoptimize) fun x hx => ?_
      rcases hs.misuses x hx with hpardons | hown
      · exact hpardons
      · exact absurd hown (Module.ne_of_verify hresult x hx)

theorem compileMethod_clears (hverify : settings.verify = true) (m : MethodId) :
    Keeps (Session.Clears before) (compileMethod asm settings m) := by
  have hbody (d : MethodDef) (name : String) (body : MethodBody) :
      Keeps (Session.Clears before) (compileBody asm settings m d name body) := by
    unfold compileBody
    cases bodySupport body.instructions with
    | refused opcode => infer_instance
    | deferred opcode => infer_instance
    | full =>
        refine Keeps.seq inferInstance fun f => Keeps.seq inferInstance fun _ =>
          ⟨fun {s _ s'} h hs => ?_⟩
        simp only [bind_eq_ok_iff, pure_eq_ok_iff] at h
        obtain ⟨_, s₁, hemit, _, s₂, hfinish, -, rfl⟩ := h
        exact acquitted_of_finish hverify hfinish (answers_of_emitBody hemit hs)
  unfold compileMethod
  refine Keeps.seq inferInstance fun d => Keeps.seq inferInstance fun kind =>
    Keeps.seq inferInstance fun name => ?_
  split
  · infer_instance
  · split <;> infer_instance

/-- The function that runs the static constructors answers for its code. -/
theorem emitStaticInit_clears (hverify : settings.verify = true) (compiled : List MethodId) :
    Keeps (Session.Clears before) (emitStaticInit asm settings compiled) where
  run {s name s'} h := by
    rw [emitStaticInit_eq] at h
    obtain ⟨f, _, hemit, h⟩ := bind_eq_ok_iff.mp h
    obtain ⟨_, _, hfinish, h⟩ := bind_eq_ok_iff.mp h
    obtain ⟨-, rfl⟩ := pure_eq_ok_iff.mp h
    obtain ⟨declared, called, m, hdeclare, hcalls, hret, rfl⟩ := emitInit_eq_ok hemit
    have hdeclared : Session.Clears before s declared := by
      obtain ⟨void, type, m₁, m₃, r, hvoid, ⟨m₂, htype, hadd⟩, hregister, rfl⟩ :=
        declareInit_eq_ok hdeclare
      have htyping : Keeps (Session.Clears before) (do
          let void ← Build.voidType
          Build.functionType void [] : Lower TypeId) := inferInstance
      have htyped : Session.Clears before s { s with module := m₂ } := htyping.run (a := type) (by
        simp only [bind_eq_ok_iff, Lower.liftM_build, Lower.build_eq_ok_iff]
        exact ⟨void, _, ⟨m₁, hvoid, rfl⟩, m₂, htype, rfl⟩)
      exact IsTrans.trans _ _ _ htyped (clears_of_addFunction (s := { s with module := m₂ })
        ⟨void, [], Build.intern_type htype⟩ hadd hregister)
    have hcalling : Keeps (Session.GoesOn before f)
        (callCctors asm compiled declared.registry.cctors) := by
      unfold callCctors
      infer_instance
    have hend : Session.GoesOn before f called { called with module := m } :=
      (inferInstance : Keeps (Session.GoesOn before f) (Lower.build (Build.ret none))).run
        (Lower.build_eq_ok_iff.mpr ⟨m, hret, rfl⟩)
    exact fun hs => acquitted_of_finish hverify hfinish
      (hend.answers ((hcalling.run hcalls).answers (opened_answers (hdeclared hs))))

theorem compileProgram_cases {report : Report} (hverify : settings.verify = true)
    (h : compileProgram asm settings s = .ok report s') : ∃ declared defined,
      declareTypes asm s = .ok () declared ∧ compileTypes asm declared = .ok () defined ∧
      Session.Later asm defined s' ∧ ∀ before, Session.Clears before defined s' := by
  obtain ⟨declared, defined, hdeclare, hdefine, hbodies⟩ := compileProgram_eq_ok h
  refine ⟨declared, defined, hdeclare, hdefine, Keeps.run hbodies, fun before => ?_⟩
  have hmethod (m : MethodId) : Keeps (Session.Clears before) (compileMethod asm settings m) :=
    compileMethod_clears hverify m
  have hinit (compiled : List MethodId) :
      Keeps (Session.Clears before) (emitStaticInit asm settings compiled) :=
    emitStaticInit_clears hverify compiled
  have hmethods (p : Progress) (ty : TypeDefId) :
      Keeps (Session.Clears before) (compileMethodsOf asm settings p ty) := by
    unfold compileMethodsOf
    infer_instance
  have hclears : Keeps (Session.Clears before) (compileBodies asm settings) := by
    unfold compileBodies
    infer_instance
  exact hclears.run hbodies

/-- After a verified compilation the misuse of the types is still there, and what else is there is
that of routines of new objects, which nobody verifies, or a name that two functions claim. -/
theorem verified_misuses {report : Report} (hverify : settings.verify = true)
    (h : compileProgram asm settings s = .ok report s') : ∃ declared defined,
      declareTypes asm s = .ok () declared ∧ compileTypes asm declared = .ok () defined ∧
      (∀ x ∈ defined.module.misuses, x ∈ s'.module.misuses) ∧
      ∀ x ∈ s'.module.misuses, x ∈ defined.module.misuses ∨
        (∃ ty f, s'.registry.newobjs.lookup ty = some f ∧ x.1 = some f) ∨
        ∃ name, x.2 = .functionTwice name := by
  obtain ⟨declared, defined, hdeclare, hdefine, hlater, hclears⟩ := compileProgram_cases hverify h
  exact ⟨declared, defined, hdeclare, hdefine, fun _ => hlater.module.mem_misuses,
    hclears defined.module.misuses fun _ => .inl⟩

/-- A class with two static fields of one name. -/
def homonyms : Assembly :=
  let roots := Assembly.ofName "homonyms"
  { roots with
    types := roots.types ++ #[
      { TypeDef.ofKind .classType "" "C" with base := some ⟨0⟩, fields := [⟨0⟩, ⟨1⟩] }]
    fields := #[⟨"F", ⟨3⟩, .i4, true⟩, ⟨"F", ⟨3⟩, .i8, true⟩] }

/-- The state after its types, and after all of it. -/
def homonymsDefined : Session :=
  stateOf (compileTypes homonyms
    (stateOf (declareTypes homonyms { module := { name := "module" } })))

def homonymsCompiled : Session :=
  stateOf (compileProgram homonyms {} { module := { name := "module" } })

theorem homonyms_misuse_stays : homonyms.validate = .ok () ∧
    compileProgram homonyms {} { module := { name := "module" } } =
      .ok { staticInit := "module_static_init" } homonymsCompiled ∧
    (none, .globalTwice "C_F") ∈ homonymsCompiled.module.misuses := by
  have hcompile : compileProgram homonyms {} { module := { name := "module" } } =
      .ok { staticInit := "module_static_init" } homonymsCompiled :=
    outcome?_eq_some_iff.mp (by decide +kernel)
  obtain ⟨declared, defined, hdeclare, hdefine, hstays, -⟩ := verified_misuses rfl hcompile
  have hdefined : homonymsDefined = defined := by
    rw [homonymsDefined, hdeclare]
    exact congrArg stateOf hdefine
  refine ⟨by decide +kernel, hcompile, hstays _ ?_⟩
  rw [← hdefined]
  decide +kernel

end Programs

end Lowering

end CilSsa
