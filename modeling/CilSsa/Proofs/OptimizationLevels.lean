import CilSsa.Proofs.GrowingBodies
import CilSsa.Proofs.ThinVerification

/-!
Optimization levels.

A program is compiled twice, once with all blocks and once with the removal of the dead ones after
each function.  Both compilations go in lockstep: the second one has the state of the first one
without the dead blocks, and no step sees the difference.
-/

namespace CilSsa

variable {ε σ α β : Type}

section Lockstep

/-- The same error, or the same result in related states. -/
inductive Matches (R : σ → σ → Prop) :
    EStateM.Result ε σ α → EStateM.Result ε σ α → Prop
  | ok {a : α} {s t : σ} (h : R s t) : Matches R (.ok a s) (.ok a t)
  | error {e : ε} {s t : σ} : Matches R (.error e s) (.error e t)

/-- Two actions have the same outcome in related states. -/
structure Lockstep (R : σ → σ → Prop) (x y : EStateM ε σ α) : Prop where
  run : ∀ {s t : σ}, R s t → Matches R (x s) (y t)

variable {R : σ → σ → Prop}

theorem Matches.seq {x y : EStateM ε σ α} {f g : α → EStateM ε σ β} {s t : σ}
    (h : Matches R (x s) (y t)) (hf : ∀ a, Lockstep R (f a) (g a)) :
    Matches R ((x >>= f) s) ((y >>= g) t) := by
  change Matches R (EStateM.bind x f s) (EStateM.bind y g t)
  unfold EStateM.bind
  generalize x s = r at h
  generalize y t = r' at h
  cases h with
  | ok h' => exact (hf _).run h'
  | error => exact .error

namespace Lockstep

theorem pure (a : α) : Lockstep R (pure a : EStateM ε σ α) (pure a) where
  run h := .ok h

theorem throw (e : ε) : Lockstep R (throw e : EStateM ε σ α) (throw e) where
  run _ := .error

theorem seq {x y : EStateM ε σ α} {f g : α → EStateM ε σ β} (hx : Lockstep R x y)
    (hf : ∀ a, Lockstep R (f a) (g a)) : Lockstep R (x >>= f) (y >>= g) where
  run h := (hx.run h).seq hf

theorem foldlM {f g : β → α → EStateM ε σ β} (hf : ∀ b a, Lockstep R (f b a) (g b a))
    (items : List α) (start : β) : Lockstep R (items.foldlM f start) (items.foldlM g start) := by
  induction items generalizing start with
  | nil =>
      rw [List.foldlM_nil, List.foldlM_nil]
      exact pure start
  | cons item rest ih =>
      rw [List.foldlM_cons, List.foldlM_cons]
      exact seq (hf start item) fun b => ih b

end Lockstep

end Lockstep

open Ssa Metadata

namespace Lowering

/-- A state of a compilation, and the same state without the dead blocks. -/
structure Session.Trims (verify : Bool) (s t : Session) : Prop where
  placed : s.module.WellPlaced
  whole : s.module.flow.Whole
  checked : verify = true → s.module.flow.Checked
  trimmed : t = s.thin s.module.isLive

variable {asm : Assembly} {settings : Settings} {verify : Bool} {s t s' : Session}

section Steps

/-- The blocks to come may be kept as well. -/
theorem Session.Trims.eq_thin (h : s.Trims verify t) : t = s.thin s.module.isKept := by
  rw [h.trimmed, Session.thin, Session.thin, Module.thin_isKept h.whole]
  rfl

/-- An action that adds to blocks and does not see which of those before it are kept does the same
with and without the dead ones. -/
theorem lockstep_of_overlooks {x : Lower α} (hoverlooks : ∀ keep, Lower.Overlooks keep x)
    (hevolves : Keeps Session.Evolves x) (hdetours : Keeps (Session.On Module.Detours) x) :
    Lockstep (Session.Trims verify) x x where
  run {s t} h := by
    rw [h.eq_thin, (hoverlooks _).run Module.keeping_isKept]
    cases hx : x s with
    | error e s' => exact .error
    | ok a s' =>
        have hextends : s.module.flow.Extends s'.module.flow := (hdetours.run hx).flow
        have hplaced : s'.module.WellPlaced := Module.Evolves.wellPlaced (hevolves.run hx) h.placed
        have hgrowth :=
          (ControlFlow.Growth.refl s.module.flow ⟨s'.module.functions.size⟩).extends_ hextends
        have hwhole : s'.module.flow.Whole := Module.whole_of_growth hgrowth h.whole hplaced
        refine .ok ⟨hplaced, hwhole, fun hverify => (h.checked hverify).extends_ hextends, ?_⟩
        rw [Session.thin, Session.thin,
          Module.thin_eq_trim hgrowth h.whole hwhole (Module.isKept_iff h.whole)
            fun {b t} hb _ => ?_]
        · rfl
        · obtain ⟨blocks, hlist, -⟩ := hwhole.owned hb
          simp [Module.list_new] at hlist

theorem lockstep_ask (question : Except Fault α) :
    Lockstep (Session.Trims verify) (Lower.ask question) (Lower.ask question) :=
  lockstep_of_overlooks (fun _ => inferInstance) inferInstance inferInstance

end Steps

section Functions

variable {f : FunctionId} {mine : BlockId → Prop} {level : OptLevel}

/-- Verification leaves the state as it is. -/
theorem verify_eq (settings : Settings) (f : FunctionId) (s : Session) :
    Lower.verify settings f s = (match if settings.verify then s.module.verify f else
      .ok (.ok ()) with
    | .ok (.ok ()) => .ok () s
    | .ok (.error error) => .error (.error (.verification error)) s
    | .error fault => .error (.fault fault) s) := by
  unfold Lower.verify
  cases settings.verify with
  | false => rfl
  | true =>
      change EStateM.bind (Lower.build (Build.query (·.verify f))) _ s = _
      simp only [EStateM.bind, Lower.build, if_true, Build.query]
      cases s.module.verify f with
      | error fault => rfl
      | ok result => cases result <;> rfl

/-- At the lowest level a verified function stays as it is. -/
theorem finish_plain (h : Lower.verify settings f s = .ok () s) :
    Lower.finish { settings with optLevel := .o0 } f s = .ok () s :=
  bind_eq_ok_iff.mpr ⟨(), s, h, rfl⟩

/-- At all others the dead blocks are removed. -/
theorem finish_enabled {m : Module} (hlevel : level.isEnabled = true)
    (h : Lower.verify settings f s = .ok () s) (hremoved : s.module.removeUnreachable f = .ok m) :
    Lower.finish { settings with optLevel := level } f s = .ok () { s with module := m } := by
  refine bind_eq_ok_iff.mpr ⟨(), s, h, Lower.build_eq_ok_iff.mpr ⟨m, ?_, rfl⟩⟩
  rw [Build.optimize, if_pos hlevel]
  exact bind_eq_ok_iff.mpr ⟨m, s.module, Build.query_eq_ok_iff.mpr ⟨hremoved, rfl⟩, rfl⟩

/-- A function that is not verified is not optimized. -/
theorem finish_error {e : Stop} (h : Lower.verify settings f s = .error e s) :
    Lower.finish { settings with optLevel := level } f s = .error e s := by
  change EStateM.bind (Lower.verify settings f) _ s = _
  rw [EStateM.bind, h]

/-- Once the body of a function is emitted, it is found to have the same defect with and without the
dead blocks from before, and after the removal of its own there are none at all. -/
theorem matches_finish {b : BlockId} (h : s.Trims settings.verify t)
    (hgrowth : s.module.flow.Growth f mine s'.module.flow) (hb : mine b)
    (hplaced : s'.module.WellPlaced) (hlevel : level.isEnabled = true) :
    Matches (Session.Trims settings.verify)
      (Lower.finish { settings with optLevel := .o0 } f s')
      (Lower.finish { settings with optLevel := level } f (s'.thin s.module.isKept)) := by
  have hkeep := Module.isKept_iff h.whole
  obtain ⟨blocks, hlist⟩ := hgrowth.list_of_mine hb
  obtain ⟨function, hf, rfl⟩ := Module.list_eq_some_iff.mp hlist
  have hwhole : s'.module.flow.Whole := Module.whole_of_growth hgrowth h.whole hplaced
  have hthin : settings.verify = true →
      (s'.thin s.module.isKept).module.verify f = s'.module.verify f := fun hverify =>
    Module.verify_thin hf
      (Module.dispensable_of_growth hgrowth h.whole (h.checked hverify) hplaced hkeep hf)
  have hsame :
      (if settings.verify then (s'.thin s.module.isKept).module.verify f else .ok (.ok ())) =
        if settings.verify then s'.module.verify f else .ok (.ok ()) := by
    split
    · rename_i hverify
      exact hthin hverify
    · rfl
  have hverify := verify_eq settings f s'
  have hverify' := verify_eq settings f (s'.thin s.module.isKept)
  rw [hsame] at hverify'
  cases hresult : (if settings.verify then s'.module.verify f else .ok (.ok ())) with
  | error fault =>
      rw [hresult] at hverify hverify'
      rw [finish_error hverify, finish_error hverify']
      exact .error
  | ok result =>
      rw [hresult] at hverify hverify'
      cases result with
      | error error =>
          rw [finish_error hverify, finish_error hverify']
          exact .error
      | ok u =>
          have hremoved :
              (s'.thin s.module.isKept).module.removeUnreachable f = .ok s'.module.trim :=
            Module.removeUnreachable_thin hgrowth h.whole hkeep hplaced hf
          rw [finish_plain hverify, finish_enabled hlevel hverify' hremoved]
          refine .ok ⟨hplaced, hwhole, fun hverify => ?_, rfl⟩
          rw [if_pos hverify] at hresult
          obtain ⟨function', hformed⟩ := Module.verify_eq_ok_iff.mp hresult
          exact Module.checked_of_verify hgrowth (h.checked hverify) hplaced hformed

/-- The emission and the end of a function with a body. -/
theorem lockstep_finish (settings : Settings) {x : Lower FunctionId}
    (hoverlooks : ∀ keep, Lower.Overlooks keep x)
    (hevolves : Keeps Session.Evolves x)
    (hgrowth : ∀ {s f s'}, x s = .ok f s' →
      ∃ mine b, mine b ∧ s.module.flow.Growth f mine s'.module.flow)
    (hlevel : level.isEnabled = true) (result : FunctionId → α) :
    Lockstep (Session.Trims settings.verify)
      (do
        let f ← x
        Lower.finish { settings with optLevel := .o0 } f
        return result f)
      (do
        let f ← x
        Lower.finish { settings with optLevel := level } f
        return result f) where
  run {s t} h := by
    change Matches _ (EStateM.bind x _ s) (EStateM.bind x _ t)
    rw [EStateM.bind, EStateM.bind, h.eq_thin, (hoverlooks _).run Module.keeping_isKept]
    cases hx : x s with
    | error e s' => exact .error
    | ok f s' =>
        obtain ⟨mine, b, hb, hgrown⟩ := hgrowth hx
        have hplaced : s'.module.WellPlaced := Module.Evolves.wellPlaced (hevolves.run hx) h.placed
        exact (matches_finish h hgrown hb hplaced hlevel).seq fun _ => .pure (result f)

end Functions

section Methods

variable {level : OptLevel}

instance (f : FunctionId) (linkage : Linkage) :
    Keeps Module.Detours (Build.setLinkage f linkage) where
  run {m _ _} h := by
    obtain rfl := Build.setLinkage_eq_ok h
    refine ⟨id, ?_⟩
    rw [Module.flow_apply (c := .setLinkage f linkage) rfl trivial]
    exact .refl m.flow

instance (f : FunctionId) (linkage : Linkage) :
    Keeps (Session.On Module.Detours) (Lower.build (Build.setLinkage f linkage)) :=
  Session.On.keeps inferInstance

/-- Whatever leads to a later state evolves the module. -/
theorem evolves_of_later (asm : Assembly) {x : Lower α} (hx : Keeps (Session.Later asm) x) :
    Keeps Session.Evolves x where
  run h := (hx.run h).module

theorem lockstep_compileBody (hlevel : level.isEnabled = true) (m : MethodId) (d : MethodDef)
    (name : String) (body : MethodBody) : Lockstep (Session.Trims settings.verify)
      (compileBody asm { settings with optLevel := .o0 } m d name body)
      (compileBody asm { settings with optLevel := level } m d name body) := by
  have hdeclare (linkage : Linkage) : Keeps (Session.On Module.Detours) (do
      let f ← declareFunction asm m
      Build.setLinkage f linkage
      return f : Lower FunctionId) := inferInstance
  unfold compileBody
  cases bodySupport body.instructions with
  | refused opcode => exact .throw _
  | deferred opcode =>
      exact lockstep_of_overlooks (fun _ => inferInstance)
        (evolves_of_later asm inferInstance) inferInstance
  | full =>
      have hemit := lockstep_finish settings (x := do
          let f ← declareFunction asm m
          Build.setLinkage f (linkageOf d)
          emitBody asm d name f body
          return f) (fun _ => inferInstance) (evolves_of_later asm inferInstance)
        (fun {s f s'} h => ?_) hlevel MethodOutcome.compiled
      · simpa only [bind_assoc, pure_bind] using hemit
      · simp only [bind_eq_ok_iff, pure_eq_ok_iff] at h
        obtain ⟨f, s₁, hdeclared, _, s₂, hlinked, _, _, hbody, rfl, rfl⟩ := h
        have hdetours : s.module.Detours s₂.module := (hdeclare (linkageOf d)).run
          (bind_eq_ok_iff.mpr ⟨f, s₁, hdeclared, bind_eq_ok_iff.mpr ⟨_, s₂, hlinked, rfl⟩⟩)
        exact growth_of_emitBody ((ControlFlow.Growth.refl _ f).extends_ hdetours.flow) hbody

theorem lockstep_compileMethod (hlevel : level.isEnabled = true) (m : MethodId) :
    Lockstep (Session.Trims settings.verify)
      (compileMethod asm { settings with optLevel := .o0 } m)
      (compileMethod asm { settings with optLevel := level } m) := by
  unfold compileMethod
  refine (lockstep_ask _).seq fun d => (lockstep_ask _).seq fun kind => (lockstep_ask _).seq
    fun name => ?_
  split
  · exact .pure _
  · split
    · exact lockstep_compileBody hlevel m d name _
    · exact lockstep_of_overlooks (fun _ => inferInstance)
        (evolves_of_later asm inferInstance) inferInstance

theorem lockstep_compileMethodsOf (hlevel : level.isEnabled = true) (p : Progress)
    (ty : TypeDefId) : Lockstep (Session.Trims settings.verify)
      (compileMethodsOf asm { settings with optLevel := .o0 } p ty)
      (compileMethodsOf asm { settings with optLevel := level } p ty) := by
  unfold compileMethodsOf
  exact (lockstep_ask _).seq fun d => .foldlM (fun p m => (lockstep_ask _).seq fun callee =>
    (lockstep_compileMethod hlevel m).seq fun outcome => .pure _) _ _

set_option synthInstance.maxSize 4096 in
instance (name : String) (compiled : List MethodId) :
    Keeps (Session.Later asm) (emitInit asm name compiled) := by
  unfold emitInit
  infer_instance

instance (keep : BlockId → Bool) (name : String) (compiled : List MethodId) :
    Lower.Overlooks keep (emitInit asm name compiled) := by
  unfold emitInit
  refine Commutes.seq inferInstance fun void => Commutes.seq inferInstance fun type =>
    Commutes.seq inferInstance fun f => Commutes.seq inferInstance fun _ =>
    Commutes.seq inferInstance fun entry => Commutes.seq inferInstance fun _ =>
    Commutes.getBind (fun _ => rfl) fun s => inferInstance

theorem lockstep_emitStaticInit (hlevel : level.isEnabled = true) (compiled : List MethodId) :
    Lockstep (Session.Trims settings.verify)
      (emitStaticInit asm { settings with optLevel := .o0 } compiled)
      (emitStaticInit asm { settings with optLevel := level } compiled) := by
  rw [emitStaticInit_eq, emitStaticInit_eq]
  exact lockstep_finish settings (fun _ => inferInstance) (evolves_of_later asm inferInstance)
    growth_of_emitInit hlevel _

end Methods

end Lowering

section Types

namespace Ssa.Module

/-- Without a body: there are as many blocks as before. -/
def Bodiless (m m' : Module) : Prop := m'.blocks.size = m.blocks.size

instance : IsPreorder Module Bodiless where
  refl _ := rfl
  trans _ _ _ h h' := Eq.trans h' h

variable {m : Module}

theorem bodiless_apply {c : Change} (hc : ∀ f name, c ≠ .addBlock f name) :
    m.Bodiless (m.apply c) := by
  cases c with
  | addBlock f name => exact absurd rfl (hc f name)
  | addInst place type inst => cases place <;> simp [Bodiless, apply, pushValue]
  | addPhi b type => simp [Bodiless, apply, pushValue]
  | terminate b t => simp [Bodiless, apply]
  | _ => rfl

theorem Evolves.bodiless {spared : ValueId → Prop} {m' : Module}
    (h : m.Evolves (Change.Plain spared) m') : m.Bodiless m' :=
  h.preserves (I := fun m' => m.Bodiless m')
    (fun m₁ c hc _ hsame => IsTrans.trans _ m₁ _ hsame (bodiless_apply fun f name heq => by
      subst heq
      exact hc)) rfl

instance (global value : ValueId) : Keeps Bodiless (Build.setInitializer global value) where
  run h := by
    rcases Build.setInitializer_cases h with ⟨misuse, rfl, -⟩ | ⟨rfl, -⟩ <;>
      exact bodiless_apply (by simp)

instance (id : TypeId) (members : List TypeId) (packed : Bool) :
    Keeps Bodiless (Build.setStructBody id members packed) where
  run h := by
    rcases Build.setStructBody_cases h with ⟨misuse, rfl, -⟩ | ⟨type, rfl, -⟩ <;>
      exact bodiless_apply (by simp)

end Ssa.Module

namespace Lowering

variable {asm : Assembly}

instance : Building noAddress (Session.On Module.Bodiless) :=
  Session.On.building fun _ _ h => h.bodiless

instance (x : Build α) [Keeps Module.Bodiless x] :
    Keeps (Session.On Module.Bodiless) (Lower.build x) :=
  Session.On.keeps inferInstance

set_option synthInstance.maxSize 256 in
instance : Completing asm (Session.On Module.Bodiless) where
  layout _ := inferInstance
  declareFunction := declareFunction_on
  staticField _ := inferInstance
  slotTableType := slotTableType_keeps
  constant _ _ _ := inferInstance
  indirectionTable := indirectionTable_keeps inferInstance
  addVTable _ _ := inferInstance
  setStructBody _ _ _ := inferInstance

end Lowering

end Types

section Programs

namespace Ssa.Module

variable {m : Module}

theorem thin_true : m.thin (fun _ => true) = m := by
  have hfunction (f : Function) : f.thin (fun _ => true) = f := by simp [Function.thin]
  have hvalue (v : Value) : v.thin (fun _ => true) = v := by
    obtain ⟨type, kind⟩ := v
    cases kind with
    | inst place inst => cases place <;> cases inst <;> simp [Value.thin]
    | _ => rfl
  simp [thin, funext hfunction, funext hvalue]

end Ssa.Module

namespace Lowering

variable {asm : Assembly} {settings : Settings} {level : OptLevel}

/-- A state without blocks has no dead ones. -/
theorem trims_of_bodiless {verify : Bool} {s : Session} (hplaced : s.module.WellPlaced)
    (hsize : s.module.blocks.size = 0) : s.Trims verify s := by
  have hnone (b : BlockId) : s.module.flow.ending b = none :=
    Module.ending_eq_none_iff.mpr (by omega)
  have hphi {v : ValueId} {b : BlockId} {entries : List (ValueId × BlockId)} :
      s.module.flow.phi v ≠ some (b, entries) := by
    intro hv
    obtain ⟨type, hvalue⟩ := Module.phi_eq_some_iff.mp hv
    obtain ⟨block, hblock, -⟩ := hplaced.listed hvalue
    have hlt := (Array.getElem?_eq_some_iff.mp hblock).1
    omega
  have hwhole : s.module.flow.Whole := {
    listed := Module.listed_of_wellPlaced hplaced
    owned := fun hb => by simp [hnone] at hb
    edges := fun hb => by simp [hnone] at hb
    entries := fun hv => absurd hv hphi }
  refine ⟨hplaced, hwhole, fun _ => ⟨fun hb => by simp [hnone] at hb, fun hv => absurd hv hphi⟩, ?_⟩
  have hthin : s.module.thin s.module.isLive = s.module.thin fun _ => true :=
    Module.thin_congr hwhole fun hb => by simp [hnone] at hb
  rw [Session.thin, hthin, Module.thin_true]

theorem lockstep_compileProgram (asm : Assembly) (settings : Settings)
    (hlevel : level.isEnabled = true) (name : String) :
    Matches (Session.Trims settings.verify)
      (compileProgram asm { settings with optLevel := .o0 } { module := { name } })
      (compileProgram asm { settings with optLevel := level } { module := { name } }) := by
  have hmethods : Lockstep (Session.Trims settings.verify)
      (compileBodies asm { settings with optLevel := .o0 })
      (compileBodies asm { settings with optLevel := level }) :=
    (Lockstep.foldlM (fun p ty => lockstep_compileMethodsOf hlevel p ty) _ _).seq fun p =>
      (lockstep_emitStaticInit hlevel p.compiled).seq fun name => .pure _
  have htypes : Matches (Session.Trims settings.verify)
      ((do
        declareTypes asm
        compileTypes asm : Lower Unit) { module := { name } })
      ((do
        declareTypes asm
        compileTypes asm : Lower Unit) { module := { name } }) := by
    cases hrun : (do
        declareTypes asm
        compileTypes asm : Lower Unit) { module := { name } } with
    | error e s => exact .error
    | ok u s =>
        refine .ok (trims_of_bodiless ?_ ?_)
        · have hevolves : Keeps Session.Evolves (do
              declareTypes asm
              compileTypes asm : Lower Unit) :=
            Keeps.seq inferInstance fun _ => evolves_of_later asm inferInstance
          exact Module.Evolves.wellPlaced (hevolves.run hrun) (Module.wellPlaced_new name)
        · have hbodiless : Keeps (Session.On Module.Bodiless) (do
              declareTypes asm
              compileTypes asm : Lower Unit) := inferInstance
          exact hbodiless.run hrun
  have hprogram := htypes.seq fun _ => hmethods
  simpa only [compileProgram_eq, bind_assoc] using hprogram

/-- The compilation with the live blocks of its module only. -/
def Compilation.trim (c : Compilation) : Compilation := { c with module := c.module.trim }

/-- The optimization level changes nothing but dead blocks.  At each level above the lowest one, a
compilation stops with the error that it stops with at the lowest one, or it has the same report and
the same module without the dead blocks: every function has the blocks that control can reach from
its first one, in their order, and their phis have the entries from these. -/
theorem compile_at_level (asm : Assembly) (settings : Settings) (hlevel : level.isEnabled = true) :
    compile asm { settings with optLevel := level } =
        (compile asm { settings with optLevel := .o0 }).map Compilation.trim ∧
      ∀ c, compile asm { settings with optLevel := .o0 } = .ok c →
        ∀ (f : FunctionId) (function : Function), c.module.functions[f.index]? = some function →
          ∀ b ∈ function.blocks,
            (c.module.isLive b = true ↔ ∃ entry ∈ function.blocks.head?, c.module.Reaches entry b) ∧
            ∀ (v : ValueId) (type : TypeId) (entries : List (ValueId × BlockId)),
              c.module.values[v.index]? = some ⟨type, .inst (some b) (.phi entries)⟩ →
                ∀ e ∈ entries, e.2 ∈ function.blocks := by
  have hruns := lockstep_compileProgram asm settings hlevel settings.moduleName
  unfold compile
  generalize compileProgram asm { settings with optLevel := .o0 } _ = result at hruns ⊢
  generalize compileProgram asm { settings with optLevel := level } _ = result' at hruns ⊢
  cases hruns with
  | error => exact ⟨rfl, fun c hc => by cases hc⟩
  | @ok report s t h =>
      obtain rfl := h.trimmed
      refine ⟨rfl, fun c hc f function hf b hb => ?_⟩
      obtain rfl := Except.ok.inj hc
      have hlist : s.module.flow.list f = some function.blocks :=
        Module.list_eq_some_iff.mpr ⟨function, hf, rfl⟩
      obtain ⟨t, ht⟩ := h.whole.listed hlist hb
      refine ⟨?_, fun v type entries hv e he => ?_⟩
      · rw [Module.isLive_iff h.whole]
        exact Module.live_iff_of_head hlist ht
      · obtain ⟨t', hsource⟩ := h.whole.source (Module.phi_eq_some_iff.mpr ⟨type, hv⟩) he ht
        exact h.whole.mem_list hlist hsource

/-- A method with a loop that nothing leads to, and that the value it returns may come from. -/
def leap : Assembly :=
  let roots := Assembly.ofName "leap"
  let body : MethodBody := {
    instructions := [
      { opcode := .ldcI41 }, { opcode := .br, operand := .target 7 },
      { opcode := .ldcI42 }, { opcode := .ldcI40 }, { opcode := .brtrue, operand := .target 7 },
      { opcode := .pop }, { opcode := .br, operand := .target 2 },
      { opcode := .ret }] }
  { roots with
    types := roots.types ++ #[
      { TypeDef.ofKind .classType "" "C" with base := some ⟨0⟩, methods := [⟨0⟩] }]
    methods := #[⟨"Leap", ⟨3⟩, [], .i4, ⟨MethodFlags.static⟩, .publicAccess, some body⟩] }

def leapCompiled : Compilation where
  report := { compiled := ["C::Leap"], staticInit := "module_static_init" }
  module := (stateOf (compileProgram leap {} { module := { name := "module" } })).module

theorem leap_at_level : compile leap {} = .ok leapCompiled ∧
    compile leap { optLevel := .o2 } = .ok leapCompiled.trim ∧
      leapCompiled.module.functions[0]?.map Function.blocks = some [⟨0⟩, ⟨1⟩, ⟨2⟩, ⟨3⟩, ⟨4⟩] ∧
      leapCompiled.module.values[6]? =
        some ⟨⟨3⟩, .inst (some ⟨4⟩) (.phi [(⟨1⟩, ⟨1⟩), (⟨2⟩, ⟨2⟩)])⟩ ∧
      leapCompiled.trim.module.functions[0]?.map Function.blocks = some [⟨0⟩, ⟨1⟩, ⟨4⟩] ∧
      leapCompiled.trim.module.values[6]? = some ⟨⟨3⟩, .inst (some ⟨4⟩) (.phi [(⟨1⟩, ⟨1⟩)])⟩ := by
  have hcompile : compile leap {} = .ok leapCompiled := by decide +kernel
  refine ⟨hcompile, ?_, by decide +kernel, by decide +kernel, by decide +kernel, by decide +kernel⟩
  rw [(compile_at_level leap {} (by decide) : compile leap { optLevel := .o2 } = _ ∧ _).1]
  exact congrArg (Except.map Compilation.trim) hcompile

end Lowering

end Programs

end CilSsa
