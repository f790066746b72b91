import CilSsa.Proofs.InBlock
import CilSsa.Proofs.Receivers

/-!
The code of allocation routines.

The routine of a class has one block: it allocates an object, stores the pointers to its dispatch
tables member by member, and returns it.
-/

namespace CilSsa

open Ssa Metadata Lowering

namespace Ssa.Module

variable {m m' : Module} {struct : TypeId} {object : ValueId} {stores : List (Nat × ValueId)}
  {code : List ValueId}

/-- Code that stores pointers to members of an object. -/
inductive StoresIn (m : Module) (struct : TypeId) (object : ValueId) :
    List (Nat × ValueId) → List ValueId → Prop
  | nil : StoresIn m struct object [] []
  | cons {index : Nat} {table member store : ValueId} {stores : List (Nat × ValueId)}
      {code : List ValueId} (place : m.Performs member (.structGep struct object index))
      (put : m.Performs store (.store member table false))
      (rest : StoresIn m struct object stores code) :
      StoresIn m struct object ((index, table) :: stores) (member :: store :: code)

/-- A function that allocates an object, stores pointers to members of it, and returns it. -/
def Allocates (m : Module) (f : FunctionId) (struct : TypeId) (stores : List (Nat × ValueId)) :
    Prop :=
  ∃ function b block object code, m.functions[f.index]? = some function ∧ function.blocks = [b] ∧
    m.blocks[b.index]? = some block ∧ block.insts = object :: code ∧
    block.terminator = some (.ret (some object)) ∧ m.Performs object (.heapAlloc struct none) ∧
    m.StoresIn struct object stores code

theorem resume_blocks (saved : Option BlockId) : (m.resume saved).blocks = m.blocks := by
  cases saved <;> rfl

theorem resume_functions (saved : Option BlockId) : (m.resume saved).functions = m.functions := by
  cases saved <;> rfl

theorem Performs.lasts {v : ValueId} {inst : Inst} (h : m.Performs v inst)
    (hphi : inst.isPhi = false) (hlasts : m.Lasts m') : m'.Performs v inst := by
  obtain ⟨type, block, hv⟩ := h
  exact ⟨type, block, hlasts.values hv (by simp [Value.inst?, hphi])⟩

theorem StoresIn.lasts (h : m.StoresIn struct object stores code) (hlasts : m.Lasts m') :
    m'.StoresIn struct object stores code := by
  induction h with
  | nil => exact .nil
  | cons hplace hput _ ih => exact .cons (hplace.lasts rfl hlasts) (hput.lasts rfl hlasts) ih

end Ssa.Module

namespace Ssa.Build

variable {m m' : Module} {u : Unit}

/-- The end of an open block. -/
theorem ret_eq_ok {value : Option ValueId} {b : BlockId} {block : Block}
    (h : ret value m = .ok u m') (hposition : m.position = some b)
    (hblock : m.blocks[b.index]? = some block) (hopen : block.terminator = none) :
    m'.blocks[b.index]? = some { block with terminator := some (.ret value) } ∧
      m'.functions = m.functions := by
  have hend {m₁ : Module} (hsame : m.SameCode m₁) (h : terminate (.ret value) m₁ = .ok u m') :
      m'.blocks[b.index]? = some { block with terminator := some (.ret value) } ∧
        m'.functions = m.functions := by
    rw [← hsame.position] at hposition
    rw [← hsame.blocks] at hblock
    rw [terminate, getBind_eq_ok_iff] at h
    simp only [hposition, bind_eq_ok_iff, query_eq_ok_iff, Module.block,
      Arena.entry_eq_ok_iff, hblock, Option.some.injEq] at h
    obtain ⟨_, _, ⟨rfl, rfl⟩, h⟩ := h
    simp only [hopen, Option.isSome_none, Bool.false_eq_true, if_false] at h
    obtain rfl := modify_eq_ok_iff.mp h
    exact ⟨by simp [Array.getElem?_modify, hblock], hsame.functions⟩
  simp only [ret, bind_eq_ok_iff, query_eq_ok_iff] at h
  obtain ⟨function, _, ⟨-, rfl⟩, h⟩ := h
  cases function with
  | none => exact hend (Std.Refl.refl _) h
  | some function =>
      simp only [bind_eq_ok_iff, query_eq_ok_iff] at h
      obtain ⟨fits, _, ⟨-, rfl⟩, h⟩ := h
      split at h
      · obtain ⟨_, m₁, hrecord, h⟩ := bind_eq_ok_iff.mp h
        exact hend (Keeps.run hrecord) h
      · exact hend (Std.Refl.refl _) h

end Ssa.Build

namespace Lowering

variable {m m' : Module} {struct : TypeId} {object : ValueId} {stores : List (Nat × ValueId)}
  {b : BlockId} {block : Block}

/-- The stores to the members of a new object follow what the block has. -/
theorem storeTables_spec {u : Unit} (h : storeTables struct object stores m = .ok u m')
    (hposition : m.position = some b) (hblock : m.blocks[b.index]? = some block) :
    m'.position = some b ∧ m'.functions = m.functions ∧ ∃ code,
      m'.blocks[b.index]? = some { block with insts := block.insts ++ code } ∧
      m'.StoresIn struct object stores code := by
  induction stores generalizing m block with
  | nil =>
      obtain ⟨-, rfl⟩ := pure_eq_ok_iff.mp h
      exact ⟨hposition, rfl, [], by simpa using hblock, .nil⟩
  | cons first rest ih =>
      obtain ⟨_, m₂, hfirst, hrest⟩ := bind_eq_ok_iff.mp h
      obtain ⟨member, m₁, hmember, hstore⟩ := bind_eq_ok_iff.mp hfirst
      obtain ⟨store, hput⟩ := Build.store_emitted hstore
      have hplace := Build.Emits.run hmember
      obtain ⟨hblocks₁, hposition₁, hfunctions₁⟩ := hplace.appends hposition
      obtain ⟨hblocks₂, hposition₂, hfunctions₂⟩ := hput.appends (hposition₁.trans hposition)
      have hblock₂ : m₂.blocks[b.index]? = some ((block.append member).append store) := by
        simp [hblocks₂, hblocks₁, Array.getElem?_modify, hblock]
      obtain ⟨hposition', hfunctions', code, hblock', hcode⟩ :=
        ih hrest (hposition₂.trans (hposition₁.trans hposition)) hblock₂
      have hlasts₁ : m₁.Lasts m₂ := Keeps.run hstore
      have hlasts₂ : m₂.Lasts m' :=
        (inferInstance : Keeps Module.Lasts (storeTables struct object rest)).run hrest
      refine ⟨hposition', hfunctions'.trans (hfunctions₂.trans hfunctions₁),
        member :: store :: code, ?_, .cons ?_ (hput.performs.lasts rfl hlasts₂) hcode⟩
      · simpa [Block.append] using hblock'
      · exact (hplace.performs.lasts rfl hlasts₁).lasts rfl hlasts₂

variable {asm : Assembly} {ty : TypeDefId} {f : FunctionId} {s s' : Session}

theorem Routine.declared_function (h : Routine asm ty f s s') : ∃ function,
    h.declared.module.functions[f.index]? = some function ∧ function.blocks = [] := by
  have hdeclare := h.declare
  simp only [bind_eq_ok_iff, Lower.liftM_build, Lower.build_eq_ok_iff, Lower.liftM_register,
    Lower.register_eq_ok_iff, pure_eq_ok_iff] at hdeclare
  obtain ⟨object, _, ⟨m₁, -, rfl⟩, type, _, ⟨m₂, -, rfl⟩, name, t, -, f', _, ⟨m₃, hadd, rfl⟩, _, _,
    ⟨r, -, rfl⟩, rfl, hdeclared⟩ := hdeclare
  obtain ⟨rfl, params, value, hfunctions⟩ := Build.addFunction_functions hadd
  refine ⟨{ name, type, linkage := .internal, params, value }, ?_, rfl⟩
  simp [hdeclared, hfunctions]

/-- The routine of a class allocates an object of its struct and stores the tables. -/
theorem Routine.allocates (h : Routine asm ty f s s') :
    s'.module.Allocates f h.struct h.stores := by
  obtain ⟨function, hfunction, hnone⟩ := h.declared_function
  have hcode := Build.Emits.run h.allocate
  obtain ⟨hblocks, hposition, hfunctions⟩ := hcode.appends rfl
  have hblock : h.allocated.blocks[h.declared.module.blocks.size]? =
      some { name := "entry", function := f, insts := [h.object] } := by
    rw [hblocks, Array.getElem?_modify]
    simp [Module.apply, Block.append]
  obtain ⟨hposition', hfunctions', code, hblock', hstores⟩ :=
    storeTables_spec (b := ⟨h.declared.module.blocks.size⟩) h.store hposition hblock
  obtain ⟨hended, hfunctions''⟩ := Build.ret_eq_ok h.ends hposition' hblock' rfl
  have hmodule : s'.module = h.ended.resume h.declared.module.position :=
    congrArg Session.module h.result
  have hlasts : h.stored.Lasts s'.module := by
    rw [hmodule]
    exact IsTrans.trans _ _ _ ((inferInstance : Keeps Module.Lasts (Build.ret _)).run h.ends)
      (Module.evolves_resume _ _).lasts
  have hlasts' : h.allocated.Lasts h.stored :=
    (inferInstance : Keeps Module.Lasts (storeTables h.struct h.object h.stores)).run h.store
  refine ⟨{ function with blocks := [⟨h.declared.module.blocks.size⟩] }, _,
    { name := "entry", function := f, insts := h.object :: code,
      terminator := some (.ret (some h.object)) }, h.object, code, ?_, rfl, ?_, rfl, rfl,
    (hcode.performs.lasts rfl hlasts').lasts rfl hlasts, hstores.lasts hlasts⟩
  · rw [hmodule, Module.resume_functions, hfunctions'', hfunctions', hfunctions]
    simp [Module.apply, Array.getElem?_modify, hfunction, hnone]
  · rw [hmodule, Module.resume_blocks]
    exact hended

end Lowering

end CilSsa
