import CilSsa.Proofs.Flow
import CilSsa.Proofs.Methods
import CilSsa.Proofs.Prologue
import CilSsa.Proofs.ThinEmission

/-!
The flow of control while a body is emitted.

The emission of a body ends its own blocks with branches to its own blocks, and makes phis in them
for values from them.  Code that is added to a block may be interrupted by detours to the block of a
new function, which are over before it goes on.
-/

namespace CilSsa

open Ssa Metadata Lowering

section Ends

/-- Changes that end a block in a given way. -/
def Ssa.Change.EndsBy (t : Terminator) : Change → Prop
  | .terminate _ t' => t' = t
  | .record _ => True
  | _ => False

namespace Ssa.Build

variable {t : Terminator}

instance : Keeps (Module.Evolves (Change.EndsBy t)) (terminate t) where
  run h := by
    rcases terminate_cases h with ⟨misuse, rfl, hfits⟩ | ⟨b, rfl, hfits⟩
    · exact Module.Evolves.one trivial hfits
    · exact Module.Evolves.one rfl hfits

instance (misuse : Misuse) [hplaced : Misuse.Placed misuse.isMisplaced] :
    Keeps (Module.Evolves (Change.EndsBy t)) (record misuse) where
  run h := by
    obtain ⟨function, hfunction, rfl⟩ := record_eq_ok_iff.mp h
    exact Module.Evolves.one (c := .record (function, misuse)) trivial ⟨hfunction, hplaced.fits⟩

instance (target : BlockId) : Keeps (Module.Evolves (Change.EndsBy (.br target))) (br target) := by
  unfold br
  infer_instance

instance (cond : ValueId) (thenBlock elseBlock : BlockId) :
    Keeps (Module.Evolves (Change.EndsBy (.condBr cond thenBlock elseBlock)))
      (condBr cond thenBlock elseBlock) := by
  unfold condBr
  infer_instance

instance (value : ValueId) (default : BlockId) (cases : List (Int × BlockId)) :
    Keeps (Module.Evolves (Change.EndsBy (.switch value default cases)))
      (switch value default cases) := by
  unfold switch
  infer_instance

instance (value : Option ValueId) :
    Keeps (Module.Evolves (Change.EndsBy (.ret value))) (ret value) := by
  unfold ret
  refine Keeps.seq inferInstance fun function => ?_
  cases function <;> infer_instance

instance : Keeps (Module.Evolves (Change.EndsBy .unreachable)) unreachable := by
  unfold unreachable
  infer_instance

end Ssa.Build

namespace Ssa.Module

variable {m m' : Module} {b : BlockId} {t : Terminator}

/-- The current block is ended, or it stays as it is. -/
theorem flow_of_endsBy (h : m.Evolves (Change.EndsBy t) m') (hposition : m.position = some b) :
    m'.position = some b ∧ (m'.flow = m.flow ∨ m'.flow = m.flow.withEnd b t) := by
  refine h.preserves (I := fun m' => m'.position = some b ∧
    (m'.flow = m.flow ∨ m'.flow = m.flow.withEnd b t)) ?_ ⟨hposition, .inl rfl⟩
  rintro m₁ c hc hfits ⟨hposition₁, hflow⟩
  cases c with
  | terminate b' t' =>
      obtain rfl : t' = t := hc
      obtain rfl : b' = b := Option.some.inj (hfits.1.symm.trans hposition₁)
      refine ⟨hposition₁, .inr ?_⟩
      rw [flow_terminate]
      rcases hflow with hflow | hflow <;> rw [hflow]
      exact ControlFlow.withEnd_withEnd
  | record misuse => exact ⟨hposition₁, by rwa [flow_apply rfl hfits]⟩
  | _ => exact hc.elim

end Ssa.Module

end Ends

section Detours

namespace Ssa.Module

/-- Code in the current block, if there is one, with detours to the blocks of new functions. -/
structure Detours (m m' : Module) : Prop where
  position : ∀ {b}, m.position = some b → m'.position = some b
  flow : m.flow.Extends m'.flow

instance : IsPreorder Module Detours where
  refl m := ⟨id, .refl m.flow⟩
  trans _ _ _ h h' := ⟨h'.position ∘ h.position, h.flow.trans h'.flow⟩

theorem Evolves.detours {spared : ValueId → Prop} {m m' : Module}
    (h : m.Evolves (Change.Plain spared) m') : m.Detours m' where
  position hb := by
    refine (h.position fun c hc b heq => ?_).trans hb
    subst heq
    exact hc
  flow := h.preserves (I := fun m' => m.flow.Extends m'.flow)
    (fun _ _ hc hfits hflow => hflow.trans (extends_apply hc hfits)) (.refl m.flow)

end Ssa.Module

namespace Lowering

variable {asm : Assembly}

instance : Building noAddress (Session.On Module.Detours) :=
  Session.On.building fun _ _ h => h.detours

/-- A new function has no blocks. -/
theorem list_of_addFunction {name : String} {type : TypeId} {linkage : Linkage} {f : FunctionId}
    {m m' : Module} (h : Build.addFunction name type linkage m = .ok f m') :
    m.flow.list f = none ∧ m'.flow.list f = some [] := by
  obtain ⟨rfl, params, value, hfunctions⟩ := Build.addFunction_functions h
  refine ⟨Module.list_new, Module.list_eq_some_iff.mpr
    ⟨{ name, type, linkage, params, value }, ?_, rfl⟩⟩
  rw [hfunctions]
  exact Array.getElem?_push_size

/-- The function of a routine has no blocks before its own. -/
theorem Routine.list_declared {ty : TypeDefId} {f : FunctionId} {s s' : Session}
    (routine : Routine asm ty f s s') : routine.declared.module.flow.list f = some [] := by
  have hdeclare := routine.declare
  simp only [bind_eq_ok_iff, Lower.liftM_build, Lower.build_eq_ok_iff, Lower.liftM_register,
    Lower.register_eq_ok_iff, pure_eq_ok_iff] at hdeclare
  obtain ⟨object, _, ⟨m₁, hobject, rfl⟩, type, _, ⟨m₂, htype, rfl⟩, name, t, hname, f', _,
    ⟨m₃, hadd, rfl⟩, _, _, ⟨registry, -, rfl⟩, rfl, hdeclared⟩ := hdeclare
  rw [hdeclared]
  exact (list_of_addFunction hadd).2

set_option synthInstance.maxSize 256 in
theorem Routine.detours {ty : TypeDefId} {f : FunctionId} {s s' : Session}
    (routine : Routine asm ty f s s') : s.module.Detours s'.module := by
  have hdeclare : Keeps (Session.On Module.Detours) (do
      let object ← Build.pointerType routine.struct
      let type ← Build.functionType object []
      let f ← Build.addFunction (← Names.newobj asm ty) type .internal
      Registering.addNewobj asm ty f
      return f : Lower FunctionId) := inferInstance
  have hdeclared : s.module.Detours routine.declared.module := hdeclare.run routine.declare
  have hcoding : Keeps (Module.Evolves (Change.Plain noAddress))
      (Build.heapAlloc routine.struct none) := inferInstance
  have hstoring : Keeps (Module.Evolves (Change.Plain noAddress))
      (storeTables routine.struct routine.object routine.stores) := by
    unfold storeTables
    infer_instance
  have hevolves : Module.Evolves (Change.Plain noAddress) _ routine.stored :=
    (hcoding.run routine.allocate).trans (hstoring.run routine.store)
  have hcode := hevolves.coded adds_of_plain ⟨routine.declared.module.blocks.size⟩ rfl
  have hflow := hevolves.detours.flow
  rw [Module.flow_apply (c := .moveTo _) rfl trivial, Module.flow_addBlock] at hflow
  have hending : Keeps (Module.Evolves (Change.EndsBy (.ret (some routine.object))))
      (Build.ret (some routine.object)) := inferInstance
  have hterminates : Terminates (.ret (some routine.object)) (Build.ret (some routine.object)) :=
    inferInstance
  obtain ⟨block, hblock, hopen⟩ := hcode.openAt (openAt_new _ f "entry")
  obtain ⟨-, -, block', hblock', hend⟩ := hterminates.run routine.ends hcode.position hblock hopen
  have hended : routine.ended.flow = routine.stored.flow.withEnd
      ⟨routine.declared.module.blocks.size⟩ (.ret (some routine.object)) := by
    refine (Module.flow_of_endsBy (hending.run routine.ends) hcode.position).2.resolve_left
      fun hsame => ?_
    have hbefore := Module.ending_eq_some_iff.mpr ⟨block, hblock, rfl, hopen⟩
    have hafter := Module.ending_eq_some_iff.mpr ⟨block', hblock', rfl, hend⟩
    simp [hsame, hbefore] at hafter
  have hnone : s.module.flow.list f = none := Module.list_eq_none_iff.mpr routine.functions_le
  have hextends := hdeclared.flow.throughBlock hnone routine.list_declared Module.ending_new hflow
    (t := .ret (some routine.object)) rfl
  rw [routine.result]
  refine ⟨fun {b} hb => ?_, ?_⟩
  · rw [hdeclared.position hb]
    rfl
  · cases routine.declared.module.position with
    | none => rwa [Module.resume, hended]
    | some b => rwa [Module.resume, Module.flow_apply (c := .moveTo b) rfl trivial, hended]

instance : Emission asm noAddress (Session.On Module.Detours) :=
  Session.On.emission fun ty => ⟨fun {s f s'} h => by
    rcases newobjFunction_cases h with ⟨-, -, rfl⟩ | ⟨-, ⟨routine⟩⟩
    · exact Std.Refl.refl s'
    · exact routine.detours⟩

instance (global value : ValueId) : Keeps Module.Detours (Build.setInitializer global value) where
  run {m _ _} h := by
    rcases Build.setInitializer_cases h with ⟨misuse, rfl, hfits⟩ | ⟨rfl, hfits⟩
    · exact ⟨id, by rw [Module.flow_apply rfl hfits]; exact .refl m.flow⟩
    · exact ⟨id, by rw [Module.flow_apply rfl hfits]; exact .refl m.flow⟩

instance : Storing asm (Session.On Module.Detours) where
  staticField _ := inferInstance
  foldStatic _ := inferInstance
  setInitializer _ _ := Session.On.keeps inferInstance

end Lowering

end Detours

namespace Ssa.Module

variable {old : ControlFlow} {f : FunctionId} {mine : BlockId → Prop} {b : BlockId} {m m' : Module}

/-- The emission of a body of function `f` adds to block `b`, and so far the flow of control has
grown by blocks that are `mine`. -/
structure Working (old : ControlFlow) (f : FunctionId) (mine : BlockId → Prop) (b : BlockId)
    (m : Module) : Prop where
  position : m.position = some b
  growth : old.Growth f mine m.flow

theorem Working.detours (h : Working old f mine b m) (hm : m.Detours m') :
    Working old f mine b m' :=
  ⟨hm.position h.position, h.growth.extends_ hm.flow⟩

theorem Working.evolves (h : Working old f mine b m) (hm : m.Evolves (Change.GrowsIn old mine) m') :
    Working old f mine b m' where
  position := by
    refine (hm.position fun c hc b heq => ?_).trans h.position
    subst heq
    exact hc
  growth := hm.preserves (I := fun m => old.Growth f mine m.flow)
    (fun _ _ hc hfits hgrowth => growth_apply hgrowth hc hfits) h.growth

/-- The block of the body is ended with a branch to other blocks of the body. -/
theorem Working.ended {t : Terminator} (h : Working old f mine b m)
    (hm : m.Evolves (Change.EndsBy t) m') (hb : mine b) (ht : ∀ c ∈ t.successors, mine c) :
    Working old f mine b m' := by
  obtain ⟨hposition, hflow | hflow⟩ := flow_of_endsBy hm h.position
  · exact ⟨hposition, hflow ▸ h.growth⟩
  · exact ⟨hposition, hflow ▸ h.growth.withEnd hb ht⟩

end Ssa.Module

namespace Lowering

variable {asm : Assembly} {old : ControlFlow} {f : FunctionId} {mine : BlockId → Prop} {b : BlockId}
  {m m' : Module}

section Merging

open EvalStack

def PhisNew (old : ControlFlow) (slots : List Slot) : Prop :=
  ∀ slot ∈ slots, slot.state = .phi → old.phi slot.element.value = none

theorem phisNew_cons {slot : Slot} {slots : List Slot} : PhisNew old (slot :: slots) ↔
    (slot.state = .phi → old.phi slot.element.value = none) ∧ PhisNew old slots :=
  List.forall_mem_cons

/-- Slots that hold values of blocks hold no phis. -/
theorem phisNew_map (source : BlockId) (elements : List Element) :
    PhisNew old (elements.map (⟨·, .deferred source⟩)) := by
  intro slot hslot hstate
  obtain ⟨e, -, rfl⟩ := List.mem_map.mp hslot
  cases hstate

theorem evolves_addIncoming {phi value : ValueId} {source : BlockId} {u : Unit}
    (hphi : old.phi phi = none) (hsource : mine source)
    (h : Build.addIncoming phi value source m = .ok u m') :
    m.Evolves (Change.GrowsIn old mine) m' := by
  obtain ⟨m₁, hfirst, hlast⟩ := Build.addIncoming_cases h
  have hone : m.Evolves (Change.GrowsIn old mine) m₁ := by
    rcases hfirst with rfl | ⟨misuse, rfl, hfits⟩
    · exact .refl
    · exact Module.Evolves.one trivial hfits
  rcases hlast with ⟨misuse, rfl, hfits⟩ | ⟨rfl, hfits⟩
  · exact hone.trans (Module.Evolves.one trivial hfits)
  · exact hone.trans (Module.Evolves.one ⟨hphi, hsource⟩ hfits)

theorem detours_coerce {value result : ValueId} {type : TypeId} {signed : Bool}
    (h : coerce value type signed m = .ok result m') : m.Detours m' := by
  have hcoerce : Keeps (Module.Evolves (Change.Plain noAddress)) (coerce value type signed) :=
    inferInstance
  exact (hcoerce.run h).detours

theorem working_mergeSlot {source target : BlockId} {slot slot' : Slot} {e : Element}
    (hm : m.Working old f mine b) (hsource : mine source) (htarget : mine target)
    (hslot : slot.state = .phi → old.phi slot.element.value = none)
    (hdeferred : ∀ first, slot.state = .deferred first → mine first)
    (h : mergeSlot asm source target slot e m = .ok slot' m') :
    m'.Working old f mine b ∧ (slot'.state = .phi → old.phi slot'.element.value = none) := by
  obtain ⟨held, state⟩ := slot
  cases state with
  | unvisited =>
      obtain ⟨rfl, rfl⟩ := pure_eq_ok_iff.mp h
      exact ⟨hm, by simp⟩
  | deferred first =>
      obtain ⟨m₁, m₂, signed, value, hadd, -, hcoerce, hadd', rfl, block, hblock⟩ :=
        mergeSlot_deferred h
      have hnew : old.phi ⟨m.values.size⟩ = none := hm.growth.phi_eq_none Module.phi_new
      have hlt := (Array.getElem?_eq_some_iff.mp hblock).1
      have hphi := hm.evolves (Module.Evolves.one (c := .addPhi target held.type) htarget hlt)
      have hfirst := hphi.evolves (evolves_addIncoming hnew (hdeferred first rfl) hadd)
      have hlast := (hfirst.detours (detours_coerce hcoerce)).evolves
        (evolves_addIncoming hnew hsource hadd')
      exact ⟨hlast, fun _ => hnew⟩
  | phi =>
      obtain ⟨m₁, signed, value, -, hcoerce, hadd, rfl⟩ := mergeSlot_phi h
      exact ⟨(hm.detours (detours_coerce hcoerce)).evolves
        (evolves_addIncoming (hslot rfl) hsource hadd), hslot⟩

theorem working_mergeSlots {source target : BlockId} {slots slots' : List Slot}
    {elements : List Element} (hm : m.Working old f mine b) (hsource : mine source)
    (htarget : mine target) (hphis : PhisNew old slots) (hdeferred : Deferred mine slots)
    (h : mergeSlots asm source target slots elements m = .ok slots' m') :
    m'.Working old f mine b ∧ PhisNew old slots' := by
  induction slots generalizing elements slots' m with
  | nil =>
      obtain ⟨rfl, rfl⟩ := mergeSlots_nil h
      exact ⟨hm, phisNew_map source elements⟩
  | cons slot slots ih =>
      cases elements with
      | nil =>
          obtain ⟨rfl, rfl⟩ := pure_eq_ok_iff.mp h
          exact ⟨hm, hphis⟩
      | cons e rest =>
          obtain ⟨hslot, hphis'⟩ := phisNew_cons.mp hphis
          obtain ⟨hfirst, hdeferred'⟩ := deferred_cons.mp hdeferred
          obtain ⟨slot', m₁, others, hone, hrest, rfl⟩ := mergeSlots_cons h
          obtain ⟨hm₁, hslot'⟩ := working_mergeSlot hm hsource htarget hslot hfirst hone
          obtain ⟨hm', hothers⟩ := ih hm₁ hphis' hdeferred' hrest
          exact ⟨hm', phisNew_cons.mpr ⟨hslot', hothers⟩⟩

/-- A merge makes phis in a block of the body, for values from its blocks. -/
theorem working_merge {s stack s' : EvalStack} {source target : BlockId} {refers : Nat}
    (hm : m.Working old f mine b) (hsource : mine source) (htarget : mine target)
    (hphis : PhisNew old s.slots) (hdeferred : Deferred mine s.slots)
    (h : s.merge asm stack source target refers m = .ok s' m') :
    m'.Working old f mine b ∧ PhisNew old s'.slots := by
  rcases merge_cases h with ⟨-, rfl, rfl⟩ | ⟨-, merged, hmerged, rfl⟩
  · refine ⟨hm, List.forall_mem_append.mpr ⟨hphis, fun slot hslot hstate => ?_⟩⟩
    obtain ⟨e, -, rfl⟩ := List.mem_map.mp hslot
    cases hstate
  · obtain ⟨hm', hmerged'⟩ := working_mergeSlots hm hsource htarget hphis hdeferred hmerged
    exact ⟨hm', List.forall_mem_append.mpr ⟨phisNew_map source _, hmerged'⟩⟩

end Merging

namespace Emit

variable {site : Site} {s s' : EmitState} {α : Type}

/-- The emission of a body works in its blocks. -/
structure Working (old : ControlFlow) (f : FunctionId) (mine : BlockId → Prop) (s : EmitState) :
    Prop where
  module : s.session.module.Working old f mine s.current
  within : Within mine s
  phis : ∀ l ∈ s.leaders, PhisNew old l.incoming.slots

/-- The emission of a body goes on in its blocks. -/
def Sustains (old : ControlFlow) (f : FunctionId) (mine : BlockId → Prop) (s s' : EmitState) :
    Prop :=
  Working old f mine s → Working old f mine s'

instance : IsPreorder EmitState (Sustains old f mine) where
  refl _ h := h
  trans _ _ _ h h' hs := h' (h hs)

section Steps

theorem Working.lower (hs : Working old f mine s) {t : Session}
    (ht : t.module.Working old f mine s.current) :
    Working old f mine { s with session := t } :=
  ⟨ht, ⟨hs.within.current, hs.within.leaders⟩, hs.phis⟩

instance (x : Lower α) [hx : Keeps (Session.On Module.Detours) x] :
    Keeps (Sustains old f mine) (lower x) where
  run h hs := by
    obtain ⟨t, hrun, rfl⟩ := lower_eq_ok_iff.mp h
    exact hs.lower (hs.module.detours (hx.run hrun))

instance (x : Lower α) [h : Keeps (Sustains old f mine) (lower x)] :
    Keeps (Sustains old f mine) (liftM x : Emit α) :=
  h

instance (x : Build α) [h : Keeps (Sustains old f mine) (lower (Lower.build x))] :
    Keeps (Sustains old f mine) (liftM x : Emit α) :=
  h

instance : Keeps (Sustains old f mine) (pop site) where
  run h hs := by
    obtain ⟨rest, -, rfl⟩ := pop_eq_ok_iff.mp h
    exact ⟨hs.module, ⟨hs.within.current, hs.within.leaders⟩, hs.phis⟩

instance : Keeps (Sustains old f mine) (targetOperand site) := by
  unfold targetOperand
  split <;> infer_instance

/-- Straight-line code stays in its block. -/
theorem sustains_of_straight {frame : Frame} {x : Emit α}
    (hx : Keeps (Straight (Session.On Module.Detours) .nothing frame []) x) :
    Keeps (Sustains old f mine) x where
  run {s _ _} h hs := by
    have hsound : Sound .nothing frame s :=
      ⟨fun _ hv => hv.elim, fun _ _ => ⟨False.elim, id⟩, fun _ _ => ⟨False.elim, id⟩⟩
    obtain ⟨hleaders, hcurrent, hsession⟩ := (hx.run h hsound (by simp)).2.2
    refine ⟨?_, ⟨?_, ?_⟩, ?_⟩
    · rw [hcurrent]
      exact hs.module.detours hsession
    · rw [hcurrent]
      exact hs.within.current
    · rw [hleaders]
      exact hs.within.leaders
    · rw [hleaders]
      exact hs.phis

/-- The current block is ended with a branch to blocks of the body. -/
theorem sustains_end {t : Terminator} {x : Build Unit}
    [hx : Keeps (Module.Evolves (Change.EndsBy t)) x] (ht : ∀ c ∈ t.successors, mine c) :
    Keeps (Sustains old f mine) (lower (Lower.build x)) where
  run h hs := by
    obtain ⟨_, hrun, rfl⟩ := lower_eq_ok_iff.mp h
    obtain ⟨m, hbuild, rfl⟩ := Lower.build_eq_ok_iff.mp hrun
    exact hs.lower (hs.module.ended (hx.run hbuild) hs.within.current ht)

theorem sustains_br {target : BlockId} (htarget : mine target) :
    Keeps (Sustains old f mine) (lower (Lower.build (Build.br target))) :=
  sustains_end (t := .br target) (by simpa [Terminator.successors] using htarget)

theorem sustains_condBr {cond : ValueId} {thenBlock elseBlock : BlockId} (hthen : mine thenBlock)
    (helse : mine elseBlock) :
    Keeps (Sustains old f mine) (lower (Lower.build (Build.condBr cond thenBlock elseBlock))) :=
  sustains_end (t := .condBr cond thenBlock elseBlock)
    (by simpa [Terminator.successors] using ⟨hthen, helse⟩)

theorem sustains_switch {value : ValueId} {default : BlockId} {cases : List (Int × BlockId)}
    (hdefault : mine default) (hcases : ∀ x ∈ cases, mine x.2) :
    Keeps (Sustains old f mine) (lower (Lower.build (Build.switch value default cases))) :=
  sustains_end (t := .switch value default cases)
    (by simpa [Terminator.successors] using ⟨hdefault, fun c _ hc => hcases _ hc⟩)

instance (value : Option ValueId) :
    Keeps (Sustains old f mine) (lower (Lower.build (Build.ret value))) :=
  sustains_end (t := .ret value) (by simp [Terminator.successors])

instance : Keeps (Sustains old f mine) (lower (Lower.build Build.unreachable)) :=
  sustains_end (t := .unreachable) (by simp [Terminator.successors])

instance (error : LoweringError) : Keeps (Sustains old f mine) (fail error : Emit α) :=
  Keeps.throw _

/-- The stack is passed on to a block of the body. -/
theorem Working.reconcile {position : Nat} {target : BlockId} (hs : Working old f mine s)
    (h : reconcile site position s = .ok target s') : Working old f mine s' ∧ mine target := by
  obtain ⟨hwithin, htarget⟩ := within_reconcile hs.within h
  refine ⟨?_, htarget⟩
  obtain ⟨l, incoming, m, hl, rfl, hmerge, rfl⟩ := reconcile_cases h
  obtain ⟨hmem, -⟩ := mem_of_leader? hl
  obtain ⟨hm, hphis⟩ := working_merge hs.module hs.within.current htarget (hs.phis l hmem)
    (hs.within.leaders l hmem).2 hmerge
  refine ⟨hm, hwithin, fun l' hl' => ?_⟩
  obtain ⟨l₀, hl₀, rfl⟩ := mem_withIncoming.mp hl'
  split
  · exact hphis
  · exact hs.phis l₀ hl₀

end Steps

section Branches

/-- What comes after the stack is passed on may rely on the block to be one of the body. -/
theorem sustains_reconcile {position : Nat} {g : BlockId → Emit α}
    (hg : ∀ target, mine target → Keeps (Sustains old f mine) (g target)) :
    Keeps (Sustains old f mine) (reconcile site position >>= g) where
  run h hs := by
    obtain ⟨target, t, hfirst, hthen⟩ := bind_eq_ok_iff.mp h
    obtain ⟨ht, htarget⟩ := hs.reconcile hfirst
    exact (hg target htarget).run hthen ht

instance (cond : ValueId) (target : Nat) :
    Keeps (Sustains old f mine) (conditional site cond target) := by
  unfold conditional
  refine sustains_reconcile fun thenBlock hthen => ?_
  split
  · exact sustains_br hthen
  · exact sustains_reconcile fun elseBlock helse => sustains_condBr hthen helse

instance : Keeps (Sustains old f mine) (branch site) := by
  unfold branch
  exact Keeps.seq inferInstance fun target => sustains_reconcile fun block hblock =>
    sustains_br hblock

instance (onZero : Bool) : Keeps (Sustains old f mine) (branchIf site onZero) := by
  unfold branchIf
  infer_instance

instance (relation : Relation) (unsigned : Bool) :
    Keeps (Sustains old f mine) (compareBranch site relation unsigned) := by
  unfold compareBranch
  infer_instance

/-- An edge of a jump table leads to a block of the body. -/
theorem working_edge {known known' : List (Nat × BlockId)} {position : Nat} {target : BlockId}
    (hs : Working old f mine s) (hknown : ∀ x ∈ known, mine x.2)
    (h : edge site known position s = .ok (known', target) s') :
    Working old f mine s' ∧ (∀ x ∈ known', mine x.2) ∧ mine target := by
  unfold edge at h
  cases hlookup : known.lookup position with
  | some block =>
      simp only [hlookup, pure_eq_ok_iff, Prod.mk.injEq] at h
      obtain ⟨⟨rfl, rfl⟩, rfl⟩ := h
      obtain ⟨before, after, rfl, -⟩ := List.lookup_eq_some_iff.mp hlookup
      exact ⟨hs, hknown, hknown (position, target) (by simp)⟩
  | none =>
      simp only [hlookup, bind_eq_ok_iff, pure_eq_ok_iff, Prod.mk.injEq] at h
      obtain ⟨block, t, hreconcile, ⟨rfl, rfl⟩, rfl⟩ := h
      obtain ⟨hs', htarget⟩ := hs.reconcile hreconcile
      exact ⟨hs', List.forall_mem_append.mpr ⟨hknown, by simpa using htarget⟩, htarget⟩

theorem working_switchCases {known known' : List (Nat × BlockId)} {case : Nat}
    {positions : List Nat} {cases : List (Int × BlockId)} (hs : Working old f mine s)
    (hknown : ∀ x ∈ known, mine x.2)
    (h : switchCases site known case positions s = .ok (known', cases) s') :
    Working old f mine s' ∧ (∀ x ∈ known', mine x.2) ∧ ∀ x ∈ cases, mine x.2 := by
  induction positions generalizing known case s known' cases with
  | nil =>
      simp only [switchCases, pure_eq_ok_iff, Prod.mk.injEq] at h
      obtain ⟨⟨rfl, rfl⟩, rfl⟩ := h
      exact ⟨hs, hknown, by simp⟩
  | cons position rest ih =>
      simp only [switchCases, bind_eq_ok_iff, pure_eq_ok_iff, Prod.mk.injEq] at h
      obtain ⟨⟨known₁, target⟩, s₁, hedge, ⟨known₂, others⟩, s₂, hrest, ⟨rfl, rfl⟩, rfl⟩ := h
      obtain ⟨hs₁, hknown₁, htarget⟩ := working_edge hs hknown hedge
      obtain ⟨hs₂, hknown₂, hothers⟩ := ih hs₁ hknown₁ hrest
      exact ⟨hs₂, hknown₂, List.forall_mem_cons.mpr ⟨htarget, hothers⟩⟩

/-- A jump table leads to blocks of the body. -/
theorem sustains_table {positions : List Nat} {value : ValueId} :
    Keeps (Sustains old f mine) (do
      let (known, cases) ← switchCases site [] 0 positions
      let (_, default) ← edge site known (site.index + 1)
      Build.switch value default cases : Emit Unit) where
  run h hs := by
    simp only [bind_eq_ok_iff] at h
    obtain ⟨⟨known, cases⟩, s₁, hcases, ⟨known', default⟩, s₂, hdefault, hswitch⟩ := h
    obtain ⟨hs₁, hknown, htargets⟩ := working_switchCases hs (by simp) hcases
    obtain ⟨hs₂, -, htarget⟩ := working_edge hs₁ hknown hdefault
    exact (sustains_switch htarget htargets).run hswitch hs₂

instance : Keeps (Sustains old f mine) (switch site) := by
  have (value : ValueId) (positions : List Nat) : Keeps (Sustains old f mine) (do
      let (known, cases) ← switchCases site [] 0 positions
      let (_, default) ← edge site known (site.index + 1)
      Build.switch value default cases : Emit Unit) := sustains_table
  unfold switch
  split
  · infer_instance
  · infer_instance

instance : Keeps (Sustains old f mine) (ret site) := by
  unfold ret
  dsimp only
  infer_instance

end Branches

section Bodies

instance (action : Action) : Keeps (Sustains old f mine) (perform site action) := by
  cases hends : endsBlock action with
  | false => exact sustains_of_straight (perform_coded hends)
  | true =>
      cases action with
      | branch | branchIf | compareBranch | switch | ret =>
          unfold perform
          infer_instance
      | _ => simp [endsBlock] at hends

instance : Keeps (Sustains old f mine) (instruction site) := by
  unfold instruction
  split <;> infer_instance

/-- The emission goes on in the block of a leader. -/
theorem Working.enter {l : Leader} (hs : Working old f mine s) (hl : l ∈ s.leaders) :
    Working old f mine { s with
      current := l.block
      stack := l.incoming.snapshot
      session := { s.session with module := s.session.module.apply (.moveTo l.block) } } := by
  refine ⟨⟨rfl, ?_⟩, ⟨(hs.within.leaders l hl).1, hs.within.leaders⟩, hs.phis⟩
  rw [Module.flow_apply (c := .moveTo l.block) rfl trivial]
  exact hs.module.growth

instance : Keeps (Sustains old f mine) (enterBlock site) := by
  have hmove : Keeps (Sustains old f mine) (do
      match leader? (← get) site.index with
      | none => malformed site (.targetNotInstruction site.index)
      | some l => do
          modify fun s => { s with current := l.block, stack := l.incoming.snapshot }
          Build.positionAtEnd l.block : Emit Unit) := by
    refine ⟨fun {s u s'} h hs => ?_⟩
    rw [getBind_eq_ok_iff] at h
    cases hl : leader? s site.index with
    | none => simp [hl] at h
    | some l =>
        simp only [hl, bind_eq_ok_iff, modify_eq_ok_iff, liftM_build, lower_eq_ok_iff,
          Lower.build_eq_ok_iff] at h
        obtain ⟨_, _, rfl, _, ⟨m, hposition, rfl⟩, rfl⟩ := h
        obtain rfl := Build.positionAtEnd_eq_ok hposition
        exact hs.enter (mem_of_leader? hl).1
  unfold enterBlock
  refine Keeps.seq inferInstance fun s => Keeps.seq inferInstance fun ended => ?_
  split
  · exact sustains_reconcile fun block hblock => Keeps.seq (sustains_br hblock) fun _ => hmove
  · exact hmove

instance (frame : Frame) (index : Nat) (instrs : List Instruction) :
    Keeps (Sustains old f mine) (instructions frame index instrs) := by
  induction instrs generalizing index with
  | nil =>
      unfold instructions
      infer_instance
  | cons instr rest ih =>
      unfold instructions
      dsimp only
      infer_instance

end Bodies

end Emit

instance (frame : Frame) (body : MethodBody) :
    Keeps (Emit.Sustains old f mine) (emission frame body) := by
  unfold emission
  dsimp only
  infer_instance

section Prologue

variable {s s' : Session}

theorem working_appendLeaders {pairs : List (Nat × Nat)} {leaders : List Leader} (hb : mine b)
    (hs : s.module.Working old f mine b)
    (h : (pairs.mapM fun (index, refers) => Lower.build (appendLeader f index refers)) s =
      .ok leaders s') :
    ∃ mine' : BlockId → Prop, mine' b ∧ s'.module.Working old f mine' b ∧
      (∀ c, mine c → mine' c) ∧ ∀ l ∈ leaders, mine' l.block ∧ l.incoming = {} := by
  induction pairs generalizing s leaders mine with
  | nil =>
      rw [List.mapM_nil] at h
      obtain ⟨rfl, rfl⟩ := pure_eq_ok_iff.mp h
      exact ⟨mine, hb, hs, fun _ => id, by simp⟩
  | cons pair rest ih =>
      rw [List.mapM_cons] at h
      simp only [bind_eq_ok_iff, pure_eq_ok_iff] at h
      obtain ⟨l, s₁, hfirst, others, _, hrest, rfl, rfl⟩ := h
      obtain ⟨rfl, hmodule⟩ := appendLeader_eq_ok hfirst
      obtain ⟨blocks, hblocks⟩ := hs.growth.list_of_mine hb
      have hs₁ : s₁.module.Working old f (fun c => mine c ∨ c = ⟨s.module.blocks.size⟩) b := by
        rw [hmodule]
        refine ⟨hs.position, ?_⟩
        rw [Module.flow_addBlock]
        exact hs.growth.withBlock Module.ending_new hblocks
      obtain ⟨mine', hb', hs', hmore, hleaders⟩ := ih (.inl hb) hs₁ hrest
      exact ⟨mine', hb', hs', fun c hc => hmore c (.inl hc),
        List.forall_mem_cons.mpr ⟨⟨hmore _ (.inr rfl), rfl⟩, hleaders⟩⟩

/-- The emission of a body is a growth of the flow of control, by one block at least. -/
theorem growth_of_emitBody {d : MethodDef} {name : String} {body : MethodBody} {u : Unit}
    (hs : old.Growth f mine s.module.flow) (h : emitBody asm d name f body s = .ok u s') :
    ∃ mine' b, mine' b ∧ old.Growth f mine' s'.module.flow := by
  obtain ⟨run⟩ := nonempty_bodyRun h
  obtain ⟨⟨function, hfunction⟩, hentry, sigs, args, locals, s₄, s₅, -, hargs, hlocals, -,
    hleaders⟩ := prologue_cases run.prologue
  have hlist : s.module.flow.list f = some function.blocks :=
    Module.list_eq_some_iff.mpr ⟨function, hfunction, rfl⟩
  have hopened : (opened f s).module.Working old f (fun c => mine c ∨ c = run.entry) run.entry := by
    refine ⟨congrArg some hentry.symm, ?_⟩
    rw [opened, Module.flow_apply (c := .moveTo _) rfl trivial, Module.flow_addBlock, hentry]
    exact hs.withBlock Module.ending_new hlist
  have hargs' : (opened f s).module.Detours s₄.module :=
    (inferInstance : Keeps (Session.On Module.Detours) (argVariables asm f 0 sigs)).run hargs
  have hlocals' : s₄.module.Detours s₅.module :=
    (inferInstance : Keeps (Session.On Module.Detours) (body.locals.mapM (localVariable asm))).run
      hlocals
  obtain ⟨mine', hmine, hstart, -, hleaders'⟩ :=
    working_appendLeaders (.inr rfl) ((hopened.detours hargs').detours hlocals') hleaders
  have hworking : Emit.Working old f mine' run.start := by
    refine ⟨run.current ▸ hstart, ⟨run.current ▸ hmine, fun l hl => ⟨(hleaders' l hl).1, ?_⟩⟩,
      fun l hl => ?_⟩
    · simp [(hleaders' l hl).2, Deferred]
    · simp [(hleaders' l hl).2, PhisNew]
  have hemission : Keeps (Emit.Sustains old f mine') (emission run.frame body) := inferInstance
  rw [run.session]
  exact ⟨mine', run.entry, hmine, (hemission.run run.emission hworking).module.growth⟩

end Prologue

section StaticInit

variable {name : String} {compiled : List MethodId} {s s' : Session}

set_option synthInstance.maxSize 256 in
/-- The emission of the function that runs the static constructors is a growth of the flow of
control, by one block. -/
theorem growth_of_emitInit (h : emitInit asm name compiled s = .ok f s') :
    ∃ mine b, mine b ∧ s.module.flow.Growth f mine s'.module.flow := by
  obtain ⟨declared, called, m, hdeclare, hcalls, hret, rfl⟩ := emitInit_eq_ok h
  have hlist : declared.module.flow.list f = some [] := by
    obtain ⟨void, type, m₁, m₃, r, hvoid, ⟨m₂, htype, hadd⟩, hregister, rfl⟩ :=
      declareInit_eq_ok hdeclare
    exact (list_of_addFunction hadd).2
  have hadding : Keeps (Session.On Module.Detours) (declareInit name) := by
    unfold declareInit
    infer_instance
  have hworking : Module.Working s.module.flow f (fun c => False ∨
      c = ⟨declared.module.blocks.size⟩)
      ⟨declared.module.blocks.size⟩ (opened f declared).module := by
    refine ⟨rfl, ?_⟩
    rw [opened, Module.flow_apply (c := .moveTo _) rfl trivial, Module.flow_addBlock]
    exact ((ControlFlow.Growth.refl _ _).extends_ (hadding.run hdeclare).flow).withBlock
      Module.ending_new hlist
  have hcalling (cctors : List MethodId) : Keeps (Session.On Module.Detours)
      (callCctors asm compiled cctors) := by
    unfold callCctors
    infer_instance
  have hending : Keeps (Module.Evolves (Change.EndsBy (.ret none))) (Build.ret none) :=
    inferInstance
  have hended := (hworking.detours ((hcalling _).run hcalls)).ended (hending.run hret) (.inr rfl)
    (by simp [Terminator.successors])
  exact ⟨_, _, .inr rfl, hended.growth⟩

end StaticInit

end Lowering

end CilSsa
