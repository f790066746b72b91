import CilSsa.Proofs.Placement
import CilSsa.Proofs.TypedEntries

/-!
Judgements about the values of a body.

What is asked of the values on the stacks differs from one property to another, and so does what is
known of the compilation.  It may depend on misuse that is recorded long after a value has been
made.  So a value is judged by the state that the compilation comes to: each step of a run that
leads there keeps what is known of the stores so far and of the stacks.
-/

namespace CilSsa

open Ssa Metadata Lowering

section Stores

namespace Ssa.Module

variable {P : Change → Prop} {m m' : Module} {v pointer value : ValueId} {b : BlockId}
  {type own : TypeId} {f : FunctionId}

def StoresAt (m : Module) (v : ValueId) (b : BlockId) (pointer value : ValueId) : Prop :=
  ∃ type isVolatile,
    m.values[v.index]? = some ⟨type, .inst (some b) (.store pointer value isVolatile)⟩

/-- A store was there before a change, or it is what the change adds at the current place. -/
theorem storesAt_of_apply {c : Change} (hfits : m.Fits c)
    (h : (m.apply c).StoresAt v b pointer value) :
    m.StoresAt v b pointer value ∨
      m.position = some b ∧ ∃ block type isVolatile,
        c = .addInst block type (.store pointer value isVolatile) := by
  obtain ⟨type, isVolatile, h⟩ := h
  rcases inst_of_apply hfits h with ⟨inst, hold⟩ | ⟨rfl, hadds⟩
  · obtain ⟨_, hnew, hlike⟩ := like_apply (c := c) hold
    obtain rfl := Option.some.inj (h.symm.trans hnew)
    obtain ⟨-, hkind⟩ := hlike
    cases hkind
    exact .inl ⟨type, isVolatile, hold⟩
  · have hadds := hadds b rfl
    cases c with
    | addInst place type' inst =>
        obtain rfl : place = some b := hadds
        have hpushed : (m.apply (.addInst (some b) type' inst)).values[m.values.size]? =
            some ⟨type', .inst (some b) inst⟩ := by
          simp [apply, pushValue]
        cases hpushed.symm.trans h
        exact .inr ⟨hfits.1, _, _, isVolatile, rfl⟩
    | addPhi b' type' =>
        have hpushed : (m.apply (.addPhi b' type')).values[m.values.size]? =
            some ⟨type', .inst (some b') (.phi [])⟩ := by
          simp [apply, pushValue]
        cases hpushed.symm.trans h
    | _ => exact hadds.elim

/-- New stores are those that are permitted. -/
theorem Evolves.storesAt {K : ValueId → ValueId → Prop} (h : m.Evolves P m')
    (hP : ∀ c, P c → ∀ block type pointer value isVolatile,
      c = .addInst block type (.store pointer value isVolatile) → K pointer value)
    (hstore : m'.StoresAt v b pointer value) :
    m.StoresAt v b pointer value ∨ K pointer value := by
  refine h.preserves (I := fun m' => m'.StoresAt v b pointer value →
    m.StoresAt v b pointer value ∨ K pointer value) ?_ .inl hstore
  intro m₁ c hc hfits ih hstore
  rcases storesAt_of_apply hfits hstore with hold | ⟨-, block, type, isVolatile, rfl⟩
  · exact ih hold
  · exact .inr (hP _ hc block type pointer value isVolatile rfl)

/-- The stores of code that stays in its block are in that block. -/
theorem Evolves.storesAt_here (h : m.Evolves P m') (hP : ∀ c, P c → c.isStaying = true)
    (hstore : m'.StoresAt v b pointer value) :
    m.StoresAt v b pointer value ∨ m.position = some b := by
  suffices m'.position = m.position ∧
      (m'.StoresAt v b pointer value → m.StoresAt v b pointer value ∨ m.position = some b) from
    this.2 hstore
  refine h.preserves (I := fun m' => m'.position = m.position ∧
    (m'.StoresAt v b pointer value → m.StoresAt v b pointer value ∨ m.position = some b)) ?_
    ⟨rfl, .inl⟩
  rintro m₁ c hc hfits ⟨hposition, ih⟩
  refine ⟨(Evolves.position (Evolves.one (P := P) hc hfits) fun c hc b heq =>
    Bool.noConfusion (heq ▸ hP c hc)).trans hposition, fun hstore => ?_⟩
  rcases storesAt_of_apply hfits hstore with hold | ⟨hhere, -⟩
  · exact ih hold
  · exact .inr (hposition.symm.trans hhere)

end Ssa.Module

end Stores

namespace Lowering

section Judgements

/-- How the values of a body are judged in the state that its compilation comes to. -/
structure Judgement (asm : Assembly) where
  final : Session
  /-- The function of the body. -/
  function : FunctionId
  /-- What is asked of the elements of stacks. -/
  sound : Element → Prop
  /-- Which elements are converted. -/
  convertible : Element → Prop
  /-- Which constructors make new values. -/
  constructible : MethodId → Prop
  /-- What is asked of an address and the value that is stored there. -/
  storable : ValueId → ValueId → Prop
  /-- What is known of each state of the compilation. -/
  known : Session → Prop
  known_later : ∀ {s s' : Session}, Session.Later asm s s' → known s → known s'

namespace Judgement

variable {asm : Assembly} {o : Judgement asm} {s s' : Session} {α : Type}

/-- Code is added to the function, and other stores are those of the routines of new objects. -/
structure Tended (o : Judgement asm) (m : Module) : Prop where
  here : m.Here o.function
  stores : ∀ {v : ValueId} {b : BlockId} {pointer value : ValueId}, m.StoresAt v b pointer value →
    o.storable pointer value ∨ ∃ ty g, o.final.registry.newobjs.lookup ty = some g ∧ m.Owns g b

/-- The state while code is added to the function. -/
structure Fine (o : Judgement asm) (s : Session) : Prop where
  known : o.known s
  code : o.Tended s.module

/-- A later state is fine if it leads to the last one. -/
structure Proceeds (o : Judgement asm) (s s' : Session) : Prop where
  later : Session.Later asm s s'
  code : Session.Later asm s' o.final → o.Tended s.module → o.Tended s'.module

theorem Proceeds.fine (h : o.Proceeds s s') (hend : Session.Later asm s' o.final) (hs : o.Fine s) :
    o.Fine s' where
  known := o.known_later h.later hs.known
  code := h.code hend hs.code

instance : IsPreorder Session o.Proceeds where
  refl _ := ⟨Std.Refl.refl _, fun _ => id⟩
  trans _ _ _ h h' := ⟨IsTrans.trans _ _ _ h.later h'.later, fun hfinal hm =>
    h'.code hfinal (h.code (IsTrans.trans _ _ _ h'.later hfinal) hm)⟩

section Code

variable {P : Change → Prop} {m m' : Module}

theorem Tended.evolves (hm : o.Tended m) (h : m.Evolves P m')
    (hstays : ∀ c, P c → c.isStaying = true)
    (hstores : ∀ c, P c → ∀ block type pointer value isVolatile,
      c = .addInst block type (.store pointer value isVolatile) → o.storable pointer value) :
    o.Tended m' where
  here := hm.here.evolves h hstays
  stores hstore := by
    rcases h.storesAt hstores hstore with hold | hnew
    · rcases hm.stores hold with hfits | ⟨ty, g, hg, hb⟩
      · exact .inl hfits
      · exact .inr ⟨ty, g, hg, h.owns hb⟩
    · exact .inl hnew

/-- Code that stays in its block and stores nothing. -/
theorem Tended.plain (hm : o.Tended m) (h : m.Evolves (Change.Plain fun _ => True) m') :
    o.Tended m' := by
  refine hm.evolves h (fun _ => isStaying_of_plain) fun c hc _ _ pointer value _ heq => ?_
  subst heq
  exact absurd trivial (hc pointer value _ rfl)

theorem Tended.resting (hm : o.Tended m) (h : m.Evolves Change.Resting m') : o.Tended m' := by
  refine hm.evolves h (fun _ hc => hc.2) fun c hc _ _ pointer value _ heq => ?_
  subst heq
  exact absurd hc.1 Bool.false_ne_true

end Code

instance : Building (fun _ => True) o.Proceeds where
  build {_ x} hx := ⟨fun h => by
    obtain ⟨m, hbuild, rfl⟩ := Lower.build_eq_ok_iff.mp h
    have hplain : Keeps (Module.Evolves (Change.Plain noAddress)) x :=
      ⟨fun h => (hx.run h).mono fun c hc => by
        cases c <;> first | exact hc | exact fun _ _ _ _ => id⟩
    exact ⟨(inferInstance : Keeps (Session.Later asm) (Lower.build x)).run h,
      fun _ hm => hm.plain (hx.run hbuild)⟩⟩

instance : Staying o.Proceeds where
  build {_ x} hx := ⟨fun h => by
    obtain ⟨m, hbuild, rfl⟩ := Lower.build_eq_ok_iff.mp h
    have hquiet : Keeps (Module.Evolves Change.Quiet) x :=
      ⟨fun h => (hx.run h).mono fun _ hc => hc.1⟩
    exact ⟨(inferInstance : Keeps (Session.Later asm) (Lower.build x)).run h,
      fun _ hm => hm.resting (hx.run hbuild)⟩⟩

/-- An action that registers something, too. -/
theorem proceeds_of_on {x : Lower α} [hlater : Keeps (Session.Later asm) x]
    (hx : Keeps (Session.On (Module.Evolves (Change.Plain fun _ => True))) x) :
    Keeps o.Proceeds x where
  run h := ⟨hlater.run h, fun _ hm => hm.plain (hx.run h)⟩

instance : Building (fun _ => True) (Session.On (Module.Evolves (Change.Plain fun _ => True))) :=
  Session.On.building fun _ _ h => h

instance (f : FieldId) : Keeps o.Proceeds (staticField asm f) := proceeds_of_on inferInstance

set_option synthInstance.maxSize 256 in
/-- The stores of a routine of new objects are in its own block. -/
instance (ty : TypeDefId) : Keeps o.Proceeds (newobjFunction asm ty) where
  run {s g s'} h := by
    have hlater : Session.Later asm s s' := Keeps.run h
    rcases newobjFunction_cases h with ⟨-, -, rfl⟩ | ⟨-, ⟨routine⟩⟩
    · exact Std.Refl.refl _
    · refine ⟨hlater, fun hfinal hm => ?_⟩
      have hdeclare : Keeps (Session.On (Module.Evolves (Change.Plain fun _ => True))) (do
          let object ← Build.pointerType routine.struct
          let type ← Build.functionType object []
          let f ← Build.addFunction (← Names.newobj asm ty) type .internal
          Registering.addNewobj asm ty f
          return f : Lower FunctionId) := inferInstance
      have hdeclared : o.Tended routine.declared.module := hm.plain (hdeclare.run routine.declare)
      have hended : routine.declared.module.Evolves Change.Any routine.ended :=
        (Module.evolves_enter _ g "entry").trans (routine.evolves.mono fun _ _ => trivial)
      obtain ⟨b, hposition, hb⟩ := hdeclared.here
      have hresult := routine.result
      rw [hposition] at hresult
      have hmodule : s'.module = routine.ended.apply (.moveTo b) := congrArg Session.module hresult
      have hregistered : s'.registry.newobjs.lookup ty = some g :=
        (congrArg (·.registry.newobjs.lookup ty) hresult).trans routine.registered
      rw [hmodule]
      refine ⟨⟨b, rfl, hended.owns hb⟩, fun {v b' pointer value} hstore => ?_⟩
      have hmade : routine.ended.Owns g ⟨routine.declared.module.blocks.size⟩ :=
        routine.evolves.owns ⟨{ name := "entry", function := g }, by simp [Module.apply], rfl⟩
      rcases routine.evolves.storesAt_here (fun _ => id) hstore with hold | hroutine
      · rcases hdeclared.stores hold with hfits | ⟨ty', g', hg', hb'⟩
        · exact .inl hfits
        · exact .inr ⟨ty', g', hg', hended.owns hb'⟩
      · obtain rfl : ⟨routine.declared.module.blocks.size⟩ = b' := Option.some.inj hroutine
        exact .inr ⟨ty, g, hfinal.registry.newobjs hregistered, hmade⟩

instance : Emission asm (fun _ => True) o.Proceeds where
  layout {_ x} hx := ⟨fun h => by
    have hlater := (later_layout hx).run h
    obtain ⟨c, -, rfl⟩ := Lower.layout_eq_ok_iff.mp h
    exact ⟨hlater, fun _ => id⟩⟩
  declareFunction _ := proceeds_of_on (declareFunction_on _)
  newobjFunction _ := inferInstance

end Judgement

end Judgements

end Lowering

end CilSsa
