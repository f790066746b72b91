import CilSsa.Proofs.Methods
import CilSsa.Proofs.Prologue

/-!
Who answers for misuse.

Misuse is recorded against the function that the current block belongs to.  While a body is emitted
that is the function of the body, apart from the detours through the routines of new objects, and
before a function is done its misuse is looked at.  So a verified compilation keeps no other misuse
than that of the types, which belongs to no function, that of the routines, which are never looked
at, and names that are taken when the next function begins.
-/

namespace CilSsa

open Ssa Metadata Lowering

namespace Ssa.Module

variable {P : Change → Prop} {m m' : Module} {f : FunctionId} {b : BlockId}

def Owns (m : Module) (f : FunctionId) (b : BlockId) : Prop :=
  ∃ block, m.blocks[b.index]? = some block ∧ block.function = f

theorem Evolves.owns (h : m.Evolves P m') (hb : m.Owns f b) : m'.Owns f b := by
  obtain ⟨block, hblock, rfl⟩ := hb
  obtain ⟨block', hblock', hgrows⟩ := h.grows hblock
  exact ⟨block', hblock', hgrows.function⟩

theorem currentFunction_of_owns (hposition : m.position = some b) (hb : m.Owns f b) :
    m.currentFunction = .ok (some f) := by
  obtain ⟨block, hblock, rfl⟩ := hb
  simp only [currentFunction, hposition, exceptBind_eq_ok_iff, Module.block,
    Arena.entry_eq_ok_iff, exceptPure_eq_ok_iff]
  exact ⟨block, hblock, rfl⟩

theorem misuses_apply {c : Change} (hc : ∀ misuse, c ≠ .record misuse) :
    (m.apply c).misuses = m.misuses := by
  cases c with
  | record misuse => exact absurd rfl (hc misuse)
  | addInst place type inst => cases place <;> rfl
  | _ => rfl

/-- Code in a block is misuse of nothing but the function of the block. -/
theorem Evolves.misuses (h : m.Evolves P m') (hP : ∀ c, P c → c.isStaying = true)
    (hposition : m.position = some b) (hb : m.Owns f b) :
    ∀ x ∈ m'.misuses, x ∈ m.misuses ∨ x.1 = some f := by
  have hstays : ∀ c, P c → ∀ b, c ≠ .moveTo b := by
    rintro c hc b rfl
    exact Bool.noConfusion (hP _ hc)
  induction h with
  | refl => exact fun x hx => .inl hx
  | @tail m₁ m₂ hfirst hlast ih =>
      obtain ⟨c, hc, hfits, rfl⟩ := hlast
      intro x hx
      by_cases hrecord : ∃ misuse, c = .record misuse
      · obtain ⟨misuse, rfl⟩ := hrecord
        have hcurrent := currentFunction_of_owns
          ((Evolves.position hfirst hstays).trans hposition) (Evolves.owns hfirst hb)
        rcases Array.mem_push.mp hx with hold | rfl
        · exact ih x hold
        · exact .inr (Except.ok.inj (hfits.1.symm.trans hcurrent))
      · rw [misuses_apply fun misuse heq => hrecord ⟨misuse, heq⟩] at hx
        exact ih x hx

end Ssa.Module

namespace Lowering

variable {asm : Assembly} {f : FunctionId} {before : Array (Option FunctionId × Misuse)}
  {s s' : Session} {α : Type}

/-- Misuse that no function is asked about: what there was before, what a routine of new objects
does, and names of functions that are taken. -/
def Session.Pardons (before : Array (Option FunctionId × Misuse)) (s : Session)
    (x : Option FunctionId × Misuse) : Prop :=
  x ∈ before ∨ (∃ ty f, s.registry.newobjs.lookup ty = some f ∧ x.1 = some f) ∨
    ∃ name, x.2 = .functionTwice name

/-- Nobody has to answer for the misuse so far. -/
def Session.Acquitted (before : Array (Option FunctionId × Misuse)) (s : Session) : Prop :=
  ∀ x ∈ s.module.misuses, s.Pardons before x

/-- The state while code is added to a function, which answers for all other misuse. -/
structure Session.Answers (before : Array (Option FunctionId × Misuse)) (f : FunctionId)
    (s : Session) : Prop where
  here : ∃ b, s.module.position = some b ∧ s.module.Owns f b
  misuses : ∀ x ∈ s.module.misuses, s.Pardons before x ∨ x.1 = some f

structure Session.GoesOn (before : Array (Option FunctionId × Misuse)) (f : FunctionId)
    (s s' : Session) : Prop where
  evolves : s.module.Evolves Change.Any s'.module
  answers : s.Answers before f → s'.Answers before f

instance : IsPreorder Session (Session.GoesOn before f) where
  refl _ := ⟨Relation.ReflTransGen.refl, id⟩
  trans _ _ _ h h' := ⟨h.evolves.trans h'.evolves, h'.answers ∘ h.answers⟩

section Code

theorem Session.Pardons.mono {x : Option FunctionId × Misuse} (h : s.Pardons before x)
    (hnewobjs : ∀ {ty f}, s.registry.newobjs.lookup ty = some f →
      s'.registry.newobjs.lookup ty = some f) : s'.Pardons before x := by
  rcases h with hbefore | ⟨ty, f, hf, hx⟩ | hname
  · exact .inl hbefore
  · exact .inr (.inl ⟨ty, f, hnewobjs hf, hx⟩)
  · exact .inr (.inr hname)

theorem goesOn_of_evolves {P : Change → Prop} {m : Module} (h : s.module.Evolves P m)
    (hP : ∀ c, P c → c.isStaying = true) : Session.GoesOn before f s { s with module := m } where
  evolves := h.mono fun _ _ => trivial
  answers hs := by
    obtain ⟨b, hposition, hb⟩ := hs.here
    refine ⟨⟨b, (h.position fun c hc b heq => ?_).trans hposition, h.owns hb⟩, fun x hx => ?_⟩
    · exact Bool.noConfusion (heq ▸ hP c hc)
    · rcases h.misuses hP hposition hb x hx with hold | hnew
      · exact hs.misuses x hold
      · exact .inr hnew

theorem goesOn_of_registry {r : Registry} (h : ∀ {ty f}, s.registry.newobjs.lookup ty = some f →
    r.newobjs.lookup ty = some f) : Session.GoesOn before f s { s with registry := r } where
  evolves := Relation.ReflTransGen.refl
  answers hs := ⟨hs.here, fun x hx => (hs.misuses x hx).imp_left fun hpardons => hpardons.mono h⟩

instance : Building noAddress (Session.GoesOn before f) where
  build hx := ⟨fun h => by
    obtain ⟨m, hbuild, rfl⟩ := Lower.build_eq_ok_iff.mp h
    refine goesOn_of_evolves (hx.run hbuild) fun c hc => ?_
    cases c <;> first | rfl | exact hc.elim⟩

instance : Staying (Session.GoesOn before f) where
  build hx := ⟨fun h => by
    obtain ⟨m, hbuild, rfl⟩ := Lower.build_eq_ok_iff.mp h
    exact goesOn_of_evolves (hx.run hbuild) fun c hc => hc.2⟩

instance (x : Registering α) [hx : Keeps Registry.Settled x] :
    Keeps (Session.GoesOn before f) (Lower.register x) where
  run h := by
    obtain ⟨r, hregister, rfl⟩ := Lower.register_eq_ok_iff.mp h
    exact goesOn_of_registry (hx.run hregister).newobjs

instance (name : String) (g : FunctionId) :
    Keeps (Session.GoesOn before f) (Lower.register (Registering.addFunction name g)) where
  run h := by
    obtain ⟨r, hregister, rfl⟩ := Lower.register_eq_ok_iff.mp h
    obtain ⟨-, rfl⟩ := Registering.addFunction_eq_ok hregister
    exact goesOn_of_registry id

instance (g : FieldId) (global : ValueId) :
    Keeps (Session.GoesOn before f) (Lower.register (Registering.addStaticField asm g global)) where
  run h := by
    obtain ⟨r, hregister, rfl⟩ := Lower.register_eq_ok_iff.mp h
    obtain ⟨-, rfl⟩ := Registering.addStaticField_eq_ok hregister
    exact goesOn_of_registry id

instance (x : Layouts α) : Keeps (Session.GoesOn before f) (Lower.layout x) where
  run h := by
    obtain ⟨c, -, rfl⟩ := Lower.layout_eq_ok_iff.mp h
    exact ⟨Relation.ReflTransGen.refl, fun hs => ⟨hs.here, hs.misuses⟩⟩

/-- The routine of new objects is registered before it has any code. -/
theorem Routine.registered {ty : TypeDefId} {g : FunctionId} (h : Routine asm ty g s s') :
    h.declared.registry.newobjs.lookup ty = some g := by
  have hdeclare := h.declare
  simp only [bind_eq_ok_iff, Lower.liftM_register, Lower.register_eq_ok_iff,
    pure_eq_ok_iff] at hdeclare
  obtain ⟨_, _, -, _, _, -, _, _, -, _, _, -, _, _, ⟨r, hregister, rfl⟩, rfl, hsame⟩ := hdeclare
  obtain ⟨-, rfl⟩ := Registering.claimed_eq_ok (fun r => r.hasNewobj ty) hregister
  rw [hsame]
  simp

theorem isStaying_of_plain {spared : ValueId → Prop} {c : Change} (hc : Change.Plain spared c) :
    c.isStaying = true := by
  cases c <;> first | rfl | exact hc.elim

/-- A routine of new objects, once it has its block, adds code to it. -/
theorem Routine.evolves {ty : TypeDefId} {g : FunctionId} (h : Routine asm ty g s s') :
    ((h.declared.module.apply (.addBlock g "entry")).apply
      (.moveTo ⟨h.declared.module.blocks.size⟩)).Evolves (fun c => c.isStaying = true) h.ended := by
  have hcoding : Keeps (Module.Evolves (Change.Plain noAddress)) (do
      let object ← Build.heapAlloc h.struct none
      storeTables h.struct object h.stores) := by
    unfold storeTables
    infer_instance
  have hcode := hcoding.run (bind_eq_ok_iff.mpr ⟨h.object, h.allocated, h.allocate, h.store⟩)
  have hend := (inferInstance : Keeps (Module.Evolves Change.Resting) (Build.ret _)).run h.ends
  exact (hcode.mono fun _ => isStaying_of_plain).trans (hend.mono fun _ hc => hc.2)

instance (ty : TypeDefId) : Keeps (Session.GoesOn before f) (newobjFunction asm ty) where
  run {s g s'} h := by
    rcases newobjFunction_cases h with ⟨-, -, rfl⟩ | ⟨-, ⟨routine⟩⟩
    · exact Std.Refl.refl _
    · have hdeclare : Keeps (Session.GoesOn before f) (do
          let object ← Build.pointerType routine.struct
          let type ← Build.functionType object []
          let f ← Build.addFunction (← Names.newobj asm ty) type .internal
          Registering.addNewobj asm ty f
          return f : Lower FunctionId) := inferInstance
      have hdeclared := hdeclare.run routine.declare
      have hended : routine.declared.module.Evolves Change.Any routine.ended :=
        (Module.evolves_enter _ g "entry").trans (routine.evolves.mono fun _ _ => trivial)
      rw [routine.result]
      refine ⟨hdeclared.evolves.trans (hended.trans (Module.evolves_resume _ _)), fun hs => ?_⟩
      obtain ⟨⟨b, hposition, hb⟩, hmisuses⟩ := hdeclared.answers hs
      have hnew : Module.Owns ((routine.declared.module.apply (.addBlock g "entry")).apply
          (.moveTo ⟨routine.declared.module.blocks.size⟩)) g
          ⟨routine.declared.module.blocks.size⟩ :=
        ⟨{ name := "entry", function := g }, by simp [Module.apply], rfl⟩
      have hmade := routine.evolves.misuses (fun _ hc => hc) rfl hnew
      rw [hposition]
      refine ⟨⟨b, rfl, hended.owns hb⟩, fun x hx => ?_⟩
      rcases hmade x hx with hold | hroutine
      · exact hmisuses x hold
      · exact .inl (.inr (.inl ⟨ty, g, routine.registered, hroutine⟩))

instance : Emission asm noAddress (Session.GoesOn before f) where
  layout _ := inferInstance
  declareFunction m := by
    unfold declareFunction
    refine Keeps.seq inferInstance fun name => Keeps.seq inferInstance fun s => ?_
    split <;> infer_instance
  newobjFunction _ := inferInstance

instance : Storing asm (Session.GoesOn before f) where
  staticField g := by
    unfold staticField
    refine Keeps.seq inferInstance fun s => ?_
    split <;> infer_instance
  foldStatic _ := inferInstance
  setInitializer _ _ := ⟨fun h => by
    obtain ⟨m, hset, rfl⟩ := Lower.build_eq_ok_iff.mp h
    rcases Build.setInitializer_cases hset with ⟨misuse, rfl, hfits⟩ | ⟨rfl, hfits⟩
    · exact goesOn_of_evolves (Module.Evolves.one (P := fun c => c.isStaying = true) rfl hfits)
        fun _ hc => hc
    · exact goesOn_of_evolves (Module.Evolves.one (P := fun c => c.isStaying = true) rfl hfits)
        fun _ hc => hc⟩

end Code

section Bodies

/-- The emission goes on with leaders that have the same blocks. -/
structure EmitState.Keeping (R : Session → Session → Prop) (s s' : EmitState) : Prop where
  session : R s.session s'.session
  leaders : s'.leaders.map Leader.block = s.leaders.map Leader.block

instance {R : Session → Session → Prop} [h : IsPreorder Session R] :
    EmitState.Follows R (EmitState.Keeping R) where
  refl s := ⟨h.refl s.session, rfl⟩
  trans s s' s'' hs hs' :=
    ⟨h.trans s.session s'.session s''.session hs.session hs'.session, hs'.leaders.trans hs.leaders⟩
  lower hx := ⟨fun h => by
    obtain ⟨t, hrun, rfl⟩ := Emit.lower_eq_ok_iff.mp h
    exact ⟨hx.run hrun, rfl⟩⟩
  pop site := ⟨fun {s _ _} hrun => by
    obtain ⟨rest, -, rfl⟩ := Emit.pop_eq_ok_iff.mp hrun
    exact ⟨h.refl s.session, rfl⟩⟩
  setIncoming position incoming := ⟨fun {s _ _} hrun => by
    obtain rfl := modify_eq_ok_iff.mp hrun
    refine ⟨h.refl s.session, ?_⟩
    rw [List.map_map]
    refine List.map_congr_left fun l _ => ?_
    rw [Function.comp_apply]
    split <;> rfl⟩

instance {R : Session → Session → Prop} (site : Site) [Storing site.asm R] [Staying R]
    (action : Action) : Keeps (EmitState.Keeping R) (Emit.perform site action) := by
  cases hends : Emit.endsBlock action with
  | true => exact Emit.perform_arranging hends
  | false =>
      refine ⟨fun {s _ s'} h => ?_⟩
      have hsound : Emit.Sound .nothing site.toFrame s :=
        ⟨fun _ hv => hv.elim, fun _ _ => ⟨False.elim, id⟩, fun _ _ => ⟨False.elim, id⟩⟩
      have hstraight : Keeps (Emit.Straight R .nothing site.toFrame [])
          (Emit.perform site action) :=
        Emit.perform_coded hends
      obtain ⟨-, -, hcontinues⟩ := hstraight.run h hsound (by simp)
      exact ⟨hcontinues.session, congrArg (List.map Leader.block) hcontinues.leaders⟩

structure EmitState.Answers (before : Array (Option FunctionId × Misuse)) (f : FunctionId)
    (s : EmitState) : Prop where
  session : s.session.Answers before f
  leaders : ∀ b ∈ s.leaders.map Leader.block, s.session.module.Owns f b

def EmitState.GoesOn (before : Array (Option FunctionId × Misuse)) (f : FunctionId)
    (s s' : EmitState) : Prop :=
  s.Answers before f → s'.Answers before f

instance : IsPreorder EmitState (EmitState.GoesOn before f) where
  refl _ := id
  trans _ _ _ h h' := h' ∘ h

theorem EmitState.Keeping.goesOn {s s' : EmitState}
    (h : EmitState.Keeping (Session.GoesOn before f) s s') : EmitState.GoesOn before f s s' :=
  fun hs => ⟨h.session.answers hs.session, fun b hb =>
    h.session.evolves.owns (hs.leaders b (h.leaders ▸ hb))⟩

theorem emitGoesOn_of_keeping {x : Emit α}
    (hx : Keeps (EmitState.Keeping (Session.GoesOn before f)) x) :
    Keeps (EmitState.GoesOn before f) x where
  run h := (hx.run h).goesOn

instance (site : Site) : Keeps (EmitState.GoesOn before f) (Emit.instruction site) := by
  unfold Emit.instruction
  split
  · exact emitGoesOn_of_keeping inferInstance
  · exact ⟨fun h => absurd h (by simp)⟩
  · exact ⟨fun h => absurd h (by simp)⟩

/-- The blocks of leaders belong to the function. -/
instance (site : Site) : Keeps (EmitState.GoesOn before f) (Emit.enterBlock site) where
  run {s _ s'} h hs := by
    obtain ⟨s₁, l, hfirst, hleader, rfl⟩ := enterBlock_cases h
    have hs₁ : s₁.Answers before f := by
      rcases hfirst with ⟨-, rfl⟩ | ⟨-, b, s₀, hreconcile, hbr⟩
      · exact hs
      · have hreconciling : Keeps (EmitState.Keeping (Session.GoesOn before f))
            (Emit.reconcile site site.index) := inferInstance
        have hbranching : Keeps (EmitState.Keeping (Session.GoesOn before f))
            (Emit.lower (Lower.build (Build.br b))) := inferInstance
        exact (hbranching.run hbr).goesOn ((hreconciling.run hreconcile).goesOn hs)
    have hblock := hs₁.leaders l.block (List.mem_map_of_mem (List.mem_of_find?_eq_some hleader))
    exact ⟨⟨⟨l.block, rfl, hblock⟩, hs₁.session.misuses⟩, hs₁.leaders⟩

instance (frame : Frame) (index : Nat) (instrs : List Instruction) :
    Keeps (EmitState.GoesOn before f) (Emit.instructions frame index instrs) := by
  induction instrs generalizing index with
  | nil =>
      unfold Emit.instructions
      infer_instance
  | cons instr rest ih =>
      unfold Emit.instructions
      dsimp only
      infer_instance

instance (frame : Frame) (body : MethodBody) :
    Keeps (EmitState.GoesOn before f) (emission frame body) := by
  have hend : Keeps (EmitState.GoesOn before f) (do
      let current := (← get).current
      if !(← Emit.lower (Build.query (·.isTerminated current))) then Build.unreachable :
        Emit Unit) :=
    emitGoesOn_of_keeping (by
      dsimp only
      infer_instance)
  unfold emission
  infer_instance

/-- A new block of the function, which is the current one. -/
theorem opened_answers (hs : s.Acquitted before) : (opened f s).Answers before f where
  here := ⟨⟨s.module.blocks.size⟩, rfl, { name := "entry", function := f }, by
    simp [opened, Module.apply], rfl⟩
  misuses x hx := .inl (hs x hx)

/-- The leaders of a body get blocks of its function. -/
theorem owns_appendLeaders {pairs : List (Nat × Nat)} {leaders : List Leader}
    (h : (pairs.mapM fun (index, refers) => Lower.build (appendLeader f index refers)) s =
      .ok leaders s') : ∀ b ∈ leaders.map Leader.block, s'.module.Owns f b := by
  have hkeeps (pair : Nat × Nat) :
      Keeps Session.Evolves (Lower.build (appendLeader f pair.1 pair.2)) := inferInstance
  intro b hb
  obtain ⟨l, hl, rfl⟩ := List.mem_map.mp hb
  obtain ⟨pair, -, t, t', -, hrun, hlater⟩ := Keeps.mem_of_mapM hkeeps h hl
  obtain ⟨rfl, hmodule⟩ := appendLeader_eq_ok hrun
  refine Module.Evolves.owns hlater ?_
  rw [hmodule]
  exact ⟨{ name := blockName pair.1, function := f }, by simp [Module.apply], rfl⟩

/-- A body that begins without other misuse is answered for. -/
theorem answers_of_emitBody {d : MethodDef} {name : String} {body : MethodBody} {u : Unit}
    (h : emitBody asm d name f body s = .ok u s')
    (hs : s.Acquitted before) : s'.Answers before f := by
  obtain ⟨run⟩ := nonempty_bodyRun h
  obtain ⟨-, -, sigs, args, locals, s₄, s₅, -, hargs, hlocals, -, hleaders⟩ :=
    prologue_cases run.prologue
  have hvariables : Session.GoesOn before f (opened f s) s₅ := by
    have hargs' :=
      (inferInstance : Keeps (Session.GoesOn before f) (argVariables asm f 0 sigs)).run hargs
    exact IsTrans.trans _ _ _ hargs'
      ((inferInstance : Keeps (Session.GoesOn before f) (body.locals.mapM (localVariable asm))).run
        hlocals)
  have hblocks : Session.GoesOn before f s₅ _ := Keeps.run hleaders
  have hstart : run.start.Answers before f :=
    ⟨hblocks.answers (hvariables.answers (opened_answers hs)), owns_appendLeaders hleaders⟩
  have hrun : Keeps (EmitState.GoesOn before f) (emission run.frame body) := inferInstance
  rw [run.session]
  exact (hrun.run run.emission hstart).session

end Bodies

end Lowering

end CilSsa
