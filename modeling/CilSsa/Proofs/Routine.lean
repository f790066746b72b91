import CilSsa.Proofs.Emission

/-!
Allocation routines, taken apart.

The routine of a class is made when an object of the class is first asked for.  Its making is a
detour: a function with a block of its own is added and filled, and then the emission goes back to
where it was.
-/

namespace CilSsa

open Ssa Metadata

/-- The module back at the place where a detour left it. -/
def Ssa.Module.resume (m : Module) : Option BlockId → Module
  | some b => m.apply (.moveTo b)
  | none => m

section Detours

variable {P : Change → Prop} [hP : Change.Arranging P]

/-- The way into a new block of a function. -/
theorem Ssa.Module.evolves_enter (m : Module) (f : FunctionId) (name : String) :
    m.Evolves P ((m.apply (.addBlock f name)).apply (.moveTo ⟨m.blocks.size⟩)) :=
  (Module.Evolves.one (c := .addBlock f name) (hP.permits _ rfl) trivial).trans
    (Module.Evolves.one (c := .moveTo _) (hP.permits _ rfl) trivial)

theorem Ssa.Module.evolves_resume (m : Module) (saved : Option BlockId) :
    m.Evolves P (m.resume saved) := by
  cases saved with
  | none => exact Relation.ReflTransGen.refl
  | some b => exact Module.Evolves.one (c := .moveTo b) (hP.permits _ rfl) trivial

end Detours

namespace Lowering

variable {asm : Assembly} {ty : TypeDefId} {f : FunctionId} {s s' : Session}

/-- The making of the routine of a class, step by step. -/
structure Routine (asm : Assembly) (ty : TypeDefId) (f : FunctionId) (s s' : Session) where
  struct : TypeId
  struct_eq : s.registry.type asm ty = .ok struct
  /-- The state with the function, which has no block yet. -/
  declared : Session
  declare : (do
    let object ← Build.pointerType struct
    let type ← Build.functionType object []
    let f ← Build.addFunction (← Names.newobj asm ty) type .internal
    Registering.addNewobj asm ty f
    return f : Lower FunctionId) s = .ok f declared
  /-- The new object, and the module once it is allocated. -/
  object : ValueId
  allocated : Module
  allocate : Build.heapAlloc struct none
    ((declared.module.apply (.addBlock f "entry")).apply (.moveTo ⟨declared.module.blocks.size⟩)) =
      .ok object allocated
  /-- The tables of the object with the members that point to them. -/
  stores : List (Nat × ValueId)
  layouts : LayoutCache
  tables : (if declared.registry.hasVTable ty then
      ∃ vtable, declared.registry.vtable asm ty = .ok vtable ∧
        tableStores asm vtable declared.layouts = .ok stores layouts
    else stores = [] ∧ layouts = declared.layouts)
  stored : Module
  store : storeTables struct object stores allocated = .ok () stored
  ended : Module
  ends : Build.ret (some object) stored = .ok () ended
  result : s' = { declared with
    layouts, module := ended.resume declared.module.position }

theorem Routine.functions_le (h : Routine asm ty f s s') : s.module.functions.size ≤ f.index := by
  have hdeclare := h.declare
  simp only [bind_eq_ok_iff, Lower.liftM_build, Lower.build_eq_ok_iff, pure_eq_ok_iff] at hdeclare
  obtain ⟨object, _, ⟨m₁, hobject, rfl⟩, type, _, ⟨m₂, htype, rfl⟩, name, t, hname, f', _,
    ⟨m₃, hadd, rfl⟩, _, _, -, rfl, -⟩ := hdeclare
  obtain ⟨-, rfl⟩ := Lower.ask_eq_ok_iff.mp hname
  obtain ⟨rfl, -⟩ := Build.addFunction_functions hadd
  obtain ⟨_, rfl⟩ := Build.intern_same hobject
  obtain ⟨_, rfl⟩ := Build.intern_same htype
  exact Nat.le_refl _

theorem resume_eq_ok {saved : Option BlockId} {f' : FunctionId}
    (h : (match saved with
      | some block => do
          Build.positionAtEnd block
          pure f'
      | _ => pure f' : Lower FunctionId) s = .ok f s') :
    f' = f ∧ s' = { s with module := s.module.resume saved } := by
  cases saved with
  | none =>
      obtain ⟨rfl, rfl⟩ := pure_eq_ok_iff.mp h
      exact ⟨rfl, rfl⟩
  | some block =>
      simp only [bind_eq_ok_iff, Lower.liftM_build, Lower.build_eq_ok_iff, pure_eq_ok_iff] at h
      obtain ⟨_, _, ⟨m, hmove, rfl⟩, rfl, rfl⟩ := h
      obtain rfl := Build.positionAtEnd_eq_ok hmove
      exact ⟨rfl, rfl⟩

theorem newobjFunction_cases (h : newobjFunction asm ty s = .ok f s') :
    (s.registry.hasNewobj ty = true ∧ s.registry.newobj asm ty = .ok f ∧ s' = s) ∨
      (s.registry.hasNewobj ty = false ∧ Nonempty (Routine asm ty f s s')) := by
  unfold newobjFunction at h
  rw [getBind_eq_ok_iff] at h
  split at h
  · rename_i hfound
    obtain ⟨hf, rfl⟩ := Lower.consult_eq_ok_iff.mp h
    exact .inl ⟨hfound, hf, rfl⟩
  · rename_i hmissing
    refine .inr ⟨by simpa using hmissing, ?_⟩
    simp only [↓getBind_eq_ok_iff, bind_eq_ok_iff, Lower.consult_eq_ok_iff, Lower.liftM_build,
      Lower.build_eq_ok_iff] at h
    obtain ⟨struct, t, ⟨hstruct, hsame⟩, pointer, _, ⟨m₁, hpointer, rfl⟩, type, _,
      ⟨m₂, htype, rfl⟩, name, s₃, hname, f', _, ⟨m₄, hadd, rfl⟩, _, declared, hregister, entry, _,
      ⟨m₅, hentry, rfl⟩, _, _, ⟨m₆, hmove, rfl⟩, object, _, ⟨allocated, hallocate, rfl⟩, h⟩ := h
    subst t
    obtain ⟨rfl, rfl, -⟩ := Build.appendBlock_eq_ok hentry
    obtain rfl := Build.positionAtEnd_eq_ok hmove
    have hdeclare : (do
        let object ← Build.pointerType struct
        let type ← Build.functionType object []
        let f ← Build.addFunction (← Names.newobj asm ty) type .internal
        Registering.addNewobj asm ty f
        return f : Lower FunctionId) s = .ok f' declared := by
      simp only [bind_eq_ok_iff, Lower.liftM_build, Lower.build_eq_ok_iff]
      exact ⟨pointer, _, ⟨m₁, hpointer, rfl⟩, type, _, ⟨m₂, htype, rfl⟩, name, s₃, hname, f', _,
        ⟨m₄, hadd, rfl⟩, (), declared, hregister, pure_eq_ok_iff.mpr ⟨rfl, rfl⟩⟩
    split at h
    · rename_i hvtable
      simp only [bind_eq_ok_iff, Lower.consult_eq_ok_iff, Lower.liftM_layout,
        Lower.layout_eq_ok_iff, Lower.build_eq_ok_iff] at h
      obtain ⟨vtable, _, ⟨hfound, rfl⟩, stores, _, ⟨layouts, htables, rfl⟩, _, _,
        ⟨stored, hstore, rfl⟩, _, _, ⟨ended, hends, rfl⟩, h⟩ := h
      obtain ⟨rfl, rfl⟩ := resume_eq_ok h
      exact ⟨{ struct, struct_eq := hstruct, declared, declare := hdeclare, object, allocated,
               allocate := hallocate, stores, layouts,
               tables := by rw [if_pos hvtable]; exact ⟨vtable, hfound, htables⟩,
               stored, store := hstore, ended, ends := hends, result := rfl }⟩
    · rename_i hvtable
      simp only [bind_eq_ok_iff, Lower.build_eq_ok_iff] at h
      obtain ⟨_, _, ⟨ended, hends, rfl⟩, h⟩ := h
      obtain ⟨rfl, rfl⟩ := resume_eq_ok h
      exact ⟨{ struct, struct_eq := hstruct, declared, declare := hdeclare, object, allocated,
               allocate := hallocate, stores := [], layouts := declared.layouts,
               tables := by rw [if_neg hvtable]; exact ⟨rfl, rfl⟩,
               stored := allocated, store := rfl, ended, ends := hends, result := rfl }⟩

end Lowering

end CilSsa
