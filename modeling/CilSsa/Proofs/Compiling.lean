import CilSsa.Proofs.FixedEntries
import CilSsa.Proofs.SoundBodies

/-!
Compilations under way.

The routine of a class may be asked for once the types are defined: between two methods, while the
body of a method is emitted, or after another routine.  In all of these states the dispatch tables
are those of the types, every block belongs to a function, code is added to one of the blocks, if at
all, and only functions with blocks have to answer for misuse.
-/

namespace CilSsa

open Ssa Metadata Lowering

namespace Ssa.Module

variable {m m' : Module} {P : Change → Prop}

/-- The place where code is added, if there is one, is a block. -/
def Located (m : Module) : Prop :=
  ∀ b, m.position = some b → ∃ block, m.blocks[b.index]? = some block

/-- Misuse is recorded against functions that have blocks, or against none. -/
def Blames (m : Module) : Prop :=
  ∀ x ∈ m.misuses, ∀ f, x.1 = some f → ∃ b, m.Owns f b

/-- Code is added where it was before. -/
def Stays (m m' : Module) : Prop := m'.position = m.position

instance : IsPreorder Module Stays where
  refl _ := rfl
  trans _ _ _ h h' := Eq.trans h' h

theorem Evolves.stays (h : m.Evolves P m') (hP : ∀ c, P c → c.isStaying = true) : m.Stays m' :=
  h.position fun c hc b heq => by
    subst heq
    exact Bool.noConfusion (hP _ hc)

theorem Located.stays (h : m.Located) (hevolves : m.Evolves P m') (hstays : m.Stays m') :
    m'.Located := by
  intro b hb
  obtain ⟨block, hblock⟩ := h b (hstays ▸ hb)
  obtain ⟨block', hblock', -⟩ := hevolves.grows hblock
  exact ⟨block', hblock'⟩

theorem Located.currentFunction (h : m.Located) : ∃ function, m.currentFunction = .ok function := by
  unfold Module.currentFunction
  cases hposition : m.position with
  | none => exact ⟨none, rfl⟩
  | some b =>
      obtain ⟨block, hblock⟩ := h b hposition
      have hfound : m.block b = .ok block := Arena.entry_eq_ok_iff.mpr hblock
      refine ⟨some block.function, ?_⟩
      simp only [exceptBind_eq_ok_iff, exceptPure_eq_ok_iff, Option.some.injEq]
      exact ⟨block, hfound, rfl⟩

/-- Misuse is recorded against some function, or none. -/
theorem Located.record (h : m.Located) (misuse : Misuse) :
    ∃ function, Build.record misuse m = .ok () (m.apply (.record (function, misuse))) := by
  obtain ⟨function, hfunction⟩ := h.currentFunction
  exact ⟨function, Build.record_eq_ok_iff.mpr ⟨function, hfunction, rfl⟩⟩

/-- Misuse is recorded where code is added. -/
theorem Evolves.blames (h : m.Evolves P m') (hm : m.Blames) : m'.Blames := by
  refine h.preserves (I := Blames) (fun m c _ hfits hm => ?_) hm
  have howns {f : FunctionId} (hf : ∃ b, m.Owns f b) : ∃ b, (m.apply c).Owns f b := by
    obtain ⟨b, hb⟩ := hf
    exact ⟨b, mine_apply hfits hb⟩
  intro x hx f hf
  by_cases hrecord : ∃ misuse, c = .record misuse
  · obtain ⟨misuse, rfl⟩ := hrecord
    rcases Array.mem_push.mp hx with hold | rfl
    · exact howns (hm x hold f hf)
    · have hcurrent := hfits.1
      rw [hf] at hcurrent
      refine howns ?_
      cases hposition : m.position with
      | none => simp [currentFunction, hposition] at hcurrent
      | some b =>
          simp only [currentFunction, hposition, exceptBind_eq_ok_iff, Module.block,
            Arena.entry_eq_ok_iff, exceptPure_eq_ok_iff, Option.some.injEq] at hcurrent
          obtain ⟨block, hblock, hfunction⟩ := hcurrent
          exact ⟨b, block, hblock, hfunction.symm⟩
  · rw [misuses_apply fun misuse heq => hrecord ⟨misuse, heq⟩] at hx
    exact howns (hm x hx f hf)

instance (global value : ValueId) : Keeps Stays (Build.setInitializer global value) where
  run h := by rcases Build.setInitializer_cases h with ⟨misuse, rfl, -⟩ | ⟨rfl, -⟩ <;> rfl

instance (id : TypeId) (members : List TypeId) (packed : Bool) :
    Keeps Stays (Build.setStructBody id members packed) where
  run h := by rcases Build.setStructBody_cases h with ⟨misuse, rfl, -⟩ | ⟨type, rfl, -⟩ <;> rfl

end Ssa.Module

namespace Lowering

variable {asm : Assembly} {settings : Settings} {s s' : Session} {α : Type}

section Places

instance : Building noAddress (Session.On Module.Stays) :=
  Session.On.building fun _ _ h => h.stays fun _ => isStaying_of_plain

instance (x : Build α) [Keeps Module.Stays x] : Keeps (Session.On Module.Stays) (Lower.build x) :=
  Session.On.keeps inferInstance

set_option synthInstance.maxSize 256 in
instance : Completing asm (Session.On Module.Stays) where
  layout _ := inferInstance
  declareFunction := declareFunction_on
  staticField _ := inferInstance
  slotTableType := slotTableType_keeps
  constant _ _ _ := inferInstance
  indirectionTable := indirectionTable_keeps inferInstance
  addVTable _ _ := inferInstance
  setStructBody _ _ _ := inferInstance

instance (f : FunctionId) : Keeps (Session.On Module.Stays) (Lower.finish settings f) := by
  refine keeps_finish (Session.On.keeps ?_)
  constructor
  intro m u m' h
  rcases Build.optimize_cases h with rfl | ⟨kept, rfl⟩ <;> rfl

/-- A method that is compiled leaves the place in one of the blocks. -/
theorem located_of_compileMethod {m : MethodId} {outcome : MethodOutcome}
    (h : compileMethod asm settings m s = .ok outcome s') (hs : s.module.Located) :
    s'.module.Located := by
  have hlater : Session.Later asm s s' := Keeps.run h
  have hdeclare (m : MethodId) : Keeps (Session.On Module.Stays) (declareFunction asm m) :=
    declareFunction_on m
  have hlink (f : FunctionId) (linkage : Linkage) :
      Keeps (Session.On Module.Stays) (Lower.build (Build.setLinkage f linkage)) :=
    Session.On.keeps ⟨fun h => by rw [Build.setLinkage_eq_ok h]; rfl⟩
  obtain ⟨d, -, hrun⟩ := compileMethod_eq_ok h
  cases hrun with
  | skipped => exact hs
  | bodiless _ _ hdeclared => exact hs.stays hlater.module ((hdeclare m).run hdeclared)
  | deferred _ _ _ hdeclared hlinked =>
      exact hs.stays hlater.module
        (IsTrans.trans _ _ _ ((hdeclare m).run hdeclared) ((hlink _ _).run hlinked))
  | @lowered body name f _ _ s₃ _ _ _ _ _ _ hemit hfinish =>
      obtain ⟨b, hposition, block, hblock, -⟩ :=
        (answers_of_emitBody hemit fun x hx => .inl hx).here
      have hfinished : Keeps (Session.On Module.Stays) (Lower.finish settings f) := inferInstance
      have hlater₃ : Session.Later asm s₃ s' := Keeps.run hfinish
      have hlocated : s₃.module.Located := by
        intro b' hb'
        obtain rfl := Option.some.inj (hposition.symm.trans hb')
        exact ⟨block, hblock⟩
      exact hlocated.stays hlater₃.module (hfinished.run hfinish)

end Places

section Routines

variable {ty : TypeDefId} {f : FunctionId}

/-- The function of a routine is declared without any code. -/
theorem Routine.declared_stays (h : Routine asm ty f s s') :
    s.module.Evolves Change.Declares h.declared.module ∧
      h.declared.module.position = s.module.position ∧
        h.declared.module.blocks = s.module.blocks := by
  have hdeclare := h.declare
  simp only [bind_eq_ok_iff, Lower.liftM_build, Lower.build_eq_ok_iff, Lower.liftM_ask,
    Lower.ask_eq_ok_iff, Lower.liftM_register, Lower.register_eq_ok_iff, pure_eq_ok_iff] at hdeclare
  obtain ⟨object, _, ⟨m₁, hobject, rfl⟩, type, _, ⟨m₂, htype, rfl⟩, name, _, ⟨-, rfl⟩, f', _,
    ⟨m₃, hadd, rfl⟩, _, _, ⟨r, -, rfl⟩, -, hdeclared⟩ := hdeclare
  have hdeclares : Keeps (Module.Evolves Change.Declares) (do
      let object ← Build.pointerType h.struct
      let type ← Build.functionType object []
      Build.addFunction name type .internal : Build FunctionId) := inferInstance
  have hevolves : s.module.Evolves Change.Declares h.declared.module := by
    rw [hdeclared]
    exact hdeclares.run (bind_eq_ok_iff.mpr ⟨object, m₁, hobject,
      bind_eq_ok_iff.mpr ⟨type, m₂, htype, hadd⟩⟩)
  refine ⟨hevolves, hevolves.stays fun c hc => ?_, ?_⟩
  · cases c <;> first | rfl | exact hc.elim
  · refine hevolves.preserves (I := fun m => m.blocks = s.module.blocks)
      (fun m c hc _ hm => Eq.trans ?_ hm) rfl
    cases c <;> first | rfl | exact hc.elim

/-- A routine is made apart from all functions that there are. -/
theorem Routine.apart (h : Routine asm ty f s s') (hseparate : s.module.Separate) :
    s.module.Apart (fun _ => False) f (fun _ => False) s'.module := by
  have hnew := h.functions_le
  obtain ⟨hdeclares, -⟩ := h.declared_stays
  have hdeclared : s.module.Apart (fun _ => False) f (fun _ => False) h.declared.module := by
    refine hdeclares.preserves (I := s.module.Apart (fun _ => False) f fun _ => False)
      (fun m c hc hfits hm => hm.apply ?_ hfits fun g name heq => ?_)
      ⟨.refl, False.elim, hseparate.owner⟩
    · cases c <;> first | exact trivial | exact hc.elim
    · subst heq
      exact hc.elim
  obtain ⟨function, hfunction, -⟩ := h.declared_function
  have hentered : s.module.Filling (fun _ => False) f (fun _ => False)
      ⟨h.declared.module.blocks.size⟩ ((h.declared.module.apply (.addBlock f "entry")).apply
        (.moveTo ⟨h.declared.module.blocks.size⟩)) := by
    refine (hdeclared.apply (c := .addBlock f "entry") (.inr hnew) trivial ?_).move
      hdeclared.evolves.blocks_le
    rintro g name heq
    obtain ⟨rfl, -⟩ := Change.addBlock.inj heq
    exact (Array.getElem?_eq_some_iff.mp hfunction).1
  have hcoding : Keeps (Module.Evolves (Change.Plain noAddress)) (do
      let object ← Build.heapAlloc h.struct none
      storeTables h.struct object h.stores) := inferInstance
  have hstored := hentered.plain
    (hcoding.run (bind_eq_ok_iff.mpr ⟨h.object, h.allocated, h.allocate, h.store⟩))
  have hreturns : Keeps (Module.Evolves (Change.EndsBy (.ret (some h.object))))
      (Build.ret (some h.object)) := inferInstance
  have hended := hstored.ended (by simp [Terminator.successors]) (hreturns.run h.ends)
  rw [h.result]
  cases h.declared.module.position with
  | none => exact hended.apart
  | some b => exact hended.apart.apply (c := .moveTo b) trivial trivial (by simp)

theorem Routine.located (h : Routine asm ty f s s') (hs : s.module.Located) :
    s'.module.Located := by
  obtain ⟨hdeclares, hstays, -⟩ := h.declared_stays
  have hended : h.ended.Located := by
    refine Module.Located.stays (fun b hb => ?_) h.evolves (h.evolves.stays fun _ => id)
    obtain rfl := Option.some.inj hb
    exact ⟨{ name := "entry", function := f }, by simp [Module.apply]⟩
  rw [h.result, hstays]
  cases hposition : s.module.position with
  | none => exact hended
  | some b =>
      intro b' hb'
      obtain rfl := Option.some.inj hb'
      obtain ⟨block, hblock⟩ := hs b hposition
      have hevolves : s.module.Evolves Change.Any h.ended :=
        (hdeclares.mono fun _ _ => trivial).trans
          ((Module.evolves_enter (P := Change.Any) _ f "entry").trans
            (h.evolves.mono fun _ _ => trivial))
      obtain ⟨block', hblock', -⟩ := hevolves.grows hblock
      exact ⟨block', hblock'⟩

/-- A routine is made in one more block, and then code is added again where it was before. -/
theorem Routine.position (h : Routine asm ty f s s') :
    s.module.position = none ∨ s'.module.position = s.module.position := by
  obtain ⟨-, hstays, -⟩ := h.declared_stays
  rw [h.result]
  cases hposition : s.module.position with
  | none => exact .inl rfl
  | some b =>
      refine .inr ?_
      rw [hposition] at hstays
      rw [hstays]
      rfl

end Routines

section States

variable {defined : Session} {ty : TypeDefId} {f : FunctionId}

/-- What holds of a compilation once its types are defined. -/
structure Session.Ordered (s : Session) (asm : Assembly) (defined : Session) : Prop where
  later : Session.Later asm defined s
  vtables : s.Shows Registry.vtables defined.registry.vtables
  placed : s.module.WellPlaced
  separate : s.module.Separate
  located : s.module.Located
  blames : s.module.Blames

/-- Nothing has been built when the types are defined. -/
theorem ordered_of_types {declared : Session} {name : String}
    (hdeclare : declareTypes asm { module := { name } } = .ok () declared)
    (hdefine : compileTypes asm declared = .ok () defined) : defined.Ordered asm defined := by
  have hrun := bind_eq_ok_iff (x := declareTypes asm) (f := fun _ => compileTypes asm)
    |>.mpr ⟨(), _, hdeclare, hdefine⟩
  have hevolves : Keeps Session.Evolves (do
      declareTypes asm
      compileTypes asm : Lower Unit) :=
    Keeps.seq inferInstance fun _ => evolves_of_later asm inferInstance
  have hstays : Keeps (Session.On Module.Stays) (do
      declareTypes asm
      compileTypes asm : Lower Unit) := inferInstance
  have hreached : Reached asm { moduleName := name } defined := .types hdeclare hdefine
  obtain ⟨hplaced, hseparate⟩ := hreached.ordered
  have hposition : defined.module.position = none := hstays.run hrun
  refine ⟨Std.Refl.refl _, rfl, hplaced, hseparate, fun b hb => ?_, ?_⟩
  · simp [hposition] at hb
  · have hstart : Module.Blames { name } := fun x hx => by simp at hx
    exact Module.Evolves.blames (hevolves.run hrun) hstart

namespace Session.Ordered

/-- The compilation of a method keeps things in order. -/
theorem method {m : MethodId} {outcome : MethodOutcome} (hs : s.Ordered asm defined)
    (h : compileMethod asm settings m s = .ok outcome s') : s'.Ordered asm defined := by
  have hlater : Session.Later asm s s' := Keeps.run h
  obtain ⟨f, mine, hapart⟩ := aside_of_endsIn hs.separate hs.placed (.inl ⟨outcome, h⟩)
  have hshows : Upholds (Session.Shows Registry.vtables defined.registry.vtables) (fun _ _ => True)
      (compileMethod asm settings m) := inferInstance
  exact {
    later := IsTrans.trans _ _ _ hs.later hlater
    vtables := hshows.ok hs.vtables h
    placed := hapart.evolves.wellPlaced hs.placed
    separate := hapart.separate hs.separate hs.placed
    located := located_of_compileMethod h hs.located
    blames := hlater.module.blames hs.blames }

/-- The making of a routine keeps things in order. -/
theorem routine (hs : s.Ordered asm defined) (h : newobjFunction asm ty s = .ok f s') :
    s'.Ordered asm defined := by
  rcases newobjFunction_cases h with ⟨-, -, rfl⟩ | ⟨-, ⟨routine⟩⟩
  · exact hs
  · have hlater : Session.Later asm s s' := Keeps.run h
    have hapart := routine.apart hs.separate
    have hshows : Upholds (Session.Shows Registry.vtables defined.registry.vtables)
        (fun _ _ => True) (newobjFunction asm ty) := inferInstance
    exact {
      later := IsTrans.trans _ _ _ hs.later hlater
      vtables := hshows.ok hs.vtables h
      placed := hapart.evolves.wellPlaced hs.placed
      separate := hapart.separate hs.separate hs.placed
      located := routine.located hs.located
      blames := hlater.module.blames hs.blames }

end Session.Ordered

section Visits

variable {frame : Frame} {instrs : List Instruction} {start e : EmitState} {n : Nat}

/-- The code of a body is added to its own blocks at every step of its emission. -/
theorem Session.Filling.of_visits {old : Module} {own : FunctionId → Prop} {mine : BlockId → Prop}
    (hmine : ∀ b, mine b → old.blocks.size ≤ b.index)
    (hstart : EmitState.Upheld (Session.Filling old own f mine) (Owned old.values.size mine) start)
    (h : Outlook.Visits frame instrs start n e) :
    EmitState.Upheld (Session.Filling old own f mine) (Owned old.values.size mine) e := by
  have hbranching : Emit.Branching frame mine (Session.Filling old own f mine)
      (Owned old.values.size mine) (fun _ => Session.Aside old own) := branching_of_new hmine
  refine Outlook.upheld_of_visits hbranching (fun site hframe => ?_) hstart h
  subst hframe
  exact Emit.upholds_instruction_of_answering

/-- The dispatch tables are the same at every step of an emission. -/
theorem Session.Shows.of_visits {known : List (TypeDefId × VTable)}
    (hstart : start.session.Shows Registry.vtables known)
    (h : Outlook.Visits frame instrs start n e) : e.session.Shows Registry.vtables known := by
  have hbranching : Emit.Branching frame (fun _ => True)
      (fun _ => Session.Shows Registry.vtables known) (fun _ _ => True) (fun _ _ => True) :=
    branching_of_flowing
  refine (Outlook.upheld_of_visits hbranching (fun site hframe => ?_) ⟨hstart, trivial⟩ h).session
  subst hframe
  exact Emit.upholds_instruction_of_answering

end Visits

namespace BodyStart

variable (b : BodyStart asm settings)

/-- The function of a body is registered for its method, or new. -/
theorem beside (hseparate : b.before.module.Separate) :
    b.declared.Beside b.before.module (b.before.FunctionOf asm b.method) ∧
      (b.before.FunctionOf asm b.method b.function ∨
        b.before.module.functions.size ≤ b.function.index) := by
  obtain ⟨f, s₁, hdeclare, hrest⟩ := bind_eq_ok_iff.mp b.declare
  simp only [bind_eq_ok_iff, pure_eq_ok_iff] at hrest
  obtain ⟨_, s₂, hlink, hf, hs⟩ := hrest
  have hstart : b.before.Beside b.before.module (b.before.FunctionOf asm b.method) :=
    fun f => ⟨.refl, False.elim, hseparate.owner⟩
  have hown : b.before.FunctionOf asm b.method f ∨ b.before.module.functions.size ≤ f.index := by
    obtain ⟨name, hname, hfound | hnew⟩ := declareFunction_cases hdeclare
    · exact .inl ⟨name, hname, hfound⟩
    · exact .inr hnew
  have hbeside : Upholds (Session.Beside b.before.module (b.before.FunctionOf asm b.method))
      (fun _ => Session.Aside b.before.module (b.before.FunctionOf asm b.method))
      (declareFunction asm b.method) := inferInstance
  rw [hf, hs]
  exact ⟨(upholds_setLinkage hown).ok (hbeside.ok hstart hdeclare) hlink, hown⟩

/-- The code of a body goes to blocks of its own, one of which is being built. -/
theorem filling {n : Nat} {e : EmitState} (h : b.Visits n e) : ∃ mine,
    EmitState.Upheld (Session.Filling b.before.module (b.before.FunctionOf asm b.method)
      b.function mine)
      (Owned b.before.module.values.size mine) e := by
  obtain ⟨hplaced, hseparate⟩ := b.reached.ordered
  obtain ⟨hbeside, hown⟩ := b.beside hseparate
  obtain ⟨mine, hmine, hstart⟩ := upheld_of_prologue hplaced hown hbeside b.prologue
  exact ⟨mine, Session.Filling.of_visits hmine hstart h⟩

/-- Code is added to a block all through the emission of a body. -/
theorem located {n : Nat} {e : EmitState} (h : b.Visits n e) : e.session.module.Located := by
  obtain ⟨mine, hfilling⟩ := b.filling h
  intro b' hb'
  obtain rfl := Option.some.inj (hfilling.session.position.symm.trans hb')
  obtain ⟨block, hblock, -⟩ := hfilling.session.apart.mine hfilling.blocks.current
  exact ⟨block, hblock⟩

set_option synthInstance.maxSize 256 in
/-- The emission of a body keeps things in order. -/
theorem ordered {n : Nat} {e : EmitState} (hs : b.before.Ordered asm defined) (h : b.Visits n e) :
    e.session.Ordered asm defined := by
  have hdeclared : Session.Later asm b.before b.declared := Keeps.run b.declare
  have hstarted : Session.Later asm b.declared b.session := Keeps.run b.prologue
  have hlater : Session.Later asm b.before e.session :=
    IsTrans.trans _ _ _ (IsTrans.trans _ _ _ hdeclared hstarted) (Outlook.later_of_visits h)
  obtain ⟨mine, hfilling⟩ := b.filling h
  have hapart := hfilling.session.apart
  have hdeclares : Upholds (Session.Shows Registry.vtables defined.registry.vtables)
      (fun _ _ => True) (do
        let f ← declareFunction asm b.method
        Build.setLinkage f (linkageOf b.d)
        return f : Lower FunctionId) := inferInstance
  have hprologue : Upholds (Session.Shows Registry.vtables defined.registry.vtables)
      (fun _ _ => True) (Lowering.prologue asm b.d b.name b.function b.body) := by
    unfold Lowering.prologue
    infer_instance
  have hvtables : b.session.Shows Registry.vtables defined.registry.vtables :=
    hprologue.ok (hdeclares.ok hs.vtables b.declare) b.prologue
  exact {
    later := IsTrans.trans _ _ _ hs.later hlater
    vtables := Session.Shows.of_visits hvtables h
    placed := hapart.evolves.wellPlaced hs.placed
    separate := hapart.separate hs.separate hs.placed
    located := b.located h
    blames := hlater.module.blames hs.blames }

end BodyStart

/-- The states of a compilation in which a routine may be asked for: the types are defined, some
methods are compiled, and the body of another one is emitted up to some instruction, or none is.
Routines may have been made on their own, too. -/
inductive Compiling (asm : Assembly) (settings : Settings) : Session → Prop
  | types {declared s : Session}
      (declare : declareTypes asm { module := { name := settings.moduleName } } = .ok () declared)
      (define : compileTypes asm declared = .ok () s) : Compiling asm settings s
  | method {s s' : Session} {m : MethodId} {outcome : MethodOutcome}
      (before : Compiling asm settings s)
      (compile : compileMethod asm settings m s = .ok outcome s') : Compiling asm settings s'
  | body {b : BodyStart asm settings} {n : Nat} {e : EmitState}
      (before : Compiling asm settings b.before) (visits : b.Visits n e) :
      Compiling asm settings e.session
  | routine {s s' : Session} {ty : TypeDefId} {f : FunctionId} (before : Compiling asm settings s)
      (make : newobjFunction asm ty s = .ok f s') : Compiling asm settings s'

/-- All compilations under way are in order. -/
theorem Compiling.ordered (h : Compiling asm settings s) : ∃ declared defined,
    declareTypes asm { module := { name := settings.moduleName } } = .ok () declared ∧
      compileTypes asm declared = .ok () defined ∧ s.Ordered asm defined := by
  induction h with
  | types declare define => exact ⟨_, _, declare, define, ordered_of_types declare define⟩
  | method before compile ih =>
      obtain ⟨declared, defined, hdeclare, hdefine, hs⟩ := ih
      exact ⟨declared, defined, hdeclare, hdefine, hs.method compile⟩
  | @body b n e before visits ih =>
      obtain ⟨declared, defined, hdeclare, hdefine, hs⟩ := ih
      exact ⟨declared, defined, hdeclare, hdefine, b.ordered hs visits⟩
  | routine before make ih =>
      obtain ⟨declared, defined, hdeclare, hdefine, hs⟩ := ih
      exact ⟨declared, defined, hdeclare, hdefine, hs.routine make⟩

end States

end Lowering

end CilSsa
