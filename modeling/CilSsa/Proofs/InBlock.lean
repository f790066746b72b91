import CilSsa.Proofs.Routine
import CilSsa.Proofs.Straight

/-!
Code that stays in its block.

Between two branches an instruction only adds to the block it is in.  Allocation routines, which
are made on demand, have blocks of their own and are left behind when they are done.
-/

namespace CilSsa

open Ssa Metadata Lowering

def Ssa.Change.Ends : Change → Prop
  | .terminate .. | .record _ => True
  | _ => False

def Ssa.Change.Records : Change → Prop
  | .record _ => True
  | _ => False

/-- An action that ends the current block with a terminator, if it is still open. -/
class Ssa.Terminates (t : Terminator) (x : Build Unit) : Prop where
  run : ∀ {m m' : Module} {b : BlockId} {block : Block} {u : Unit}, x m = .ok u m' →
    m.position = some b → m.blocks[b.index]? = some block → block.terminator = none →
    m.Evolves Change.Ends m' ∧ m.Orderly m' ∧
      ∃ block', m'.blocks[b.index]? = some block' ∧ block'.terminator = some t


namespace Ssa.Build

instance (terminator : Terminator) : Keeps (Module.Evolves Change.Ends) (terminate terminator) where
  run h := by
    rcases terminate_cases h with ⟨misuse, rfl, hfits⟩ | ⟨b, rfl, hfits⟩
    · exact Module.Evolves.one trivial hfits
    · exact Module.Evolves.one trivial hfits

instance (t : Terminator) : Terminates t (terminate t) where
  run {m m' b block u} h hposition hblock hopen := by
    have hkeeps : Keeps (Module.Evolves Change.Ends) (terminate t) := inferInstance
    refine ⟨hkeeps.run h, ?_⟩
    rw [terminate, getBind_eq_ok_iff] at h
    simp only [hposition, bind_eq_ok_iff, query_eq_ok_iff] at h
    obtain ⟨found, _, ⟨hfound, rfl⟩, h⟩ := h
    obtain rfl : found = block := by
      simpa [hblock] using (Arena.entry_eq_ok_iff.mp hfound).symm
    simp only [hopen, Option.isSome_none, Bool.false_eq_true, if_false] at h
    obtain rfl := modify_eq_ok_iff.mp h
    exact ⟨⟨fun hf => ⟨_, hf, rfl⟩, rfl⟩, { found with terminator := some t },
      by simp [Array.getElem?_modify, hblock], rfl⟩

instance (misuse : Misuse) [hplaced : Misuse.Placed misuse.isMisplaced] :
    Keeps (Module.Evolves Change.Records) (record misuse) where
  run h := by
    obtain ⟨function, hfunction, rfl⟩ := record_eq_ok_iff.mp h
    exact Module.Evolves.one (c := .record (function, misuse)) trivial ⟨hfunction, hplaced.fits⟩

/-- A check before the end of a block does not matter to it. -/
theorem Terminates.after {α : Type} {t : Terminator} {x : Build α} {f : α → Build Unit}
    (hx : Keeps (Module.Evolves Change.Records) x) (hf : ∀ a, Terminates t (f a)) :
    Terminates t (x >>= f) where
  run {m m' b block u} h hposition hblock hopen := by
    obtain ⟨a, m₁, hfirst, hthen⟩ := bind_eq_ok_iff.mp h
    have hevolves := hx.run hfirst
    have hposition₁ : m₁.position = some b := by
      refine (hevolves.position fun c hc b heq => ?_).trans hposition
      subst heq
      exact hc
    have hblock₁ : m₁.blocks[b.index]? = some block := by
      refine hevolves.block (fun c hc => ?_) hblock
      cases c <;> first | exact trivial | exact hc.elim
    have horderly := hevolves.orderly (fun c hc => by cases c <;> first | rfl | exact hc.elim)
      hposition ⟨block, hblock, hopen⟩
    obtain ⟨hends, horderly', hblock'⟩ := (hf a).run hthen hposition₁ hblock₁ hopen
    refine ⟨(hevolves.mono fun c hc => ?_).trans hends, horderly.trans horderly', hblock'⟩
    cases c <;> first | exact trivial | exact hc.elim

instance {α : Type} (t : Terminator) (x : Build α) (f : α → Build Unit)
    [hx : Keeps (Module.Evolves Change.Records) x] [hf : ∀ a, Terminates t (f a)] :
    Terminates t (x >>= f) :=
  Terminates.after hx hf

instance (t : Terminator) (c : Prop) [Decidable c] (x y : Build Unit) [hx : Terminates t x]
    [hy : Terminates t y] : Terminates t (if c then x else y) := by
  split
  · exact hx
  · exact hy

instance (target : BlockId) : Terminates (.br target) (br target) := by
  unfold br
  infer_instance

instance (cond : ValueId) (thenBlock elseBlock : BlockId) :
    Terminates (.condBr cond thenBlock elseBlock) (condBr cond thenBlock elseBlock) := by
  unfold condBr
  infer_instance

instance (value : ValueId) (default : BlockId) (cases : List (Int × BlockId)) :
    Terminates (.switch value default cases) (switch value default cases) := by
  unfold switch
  infer_instance

instance (value : Option ValueId) : Terminates (.ret value) (ret value) := by
  unfold ret
  refine Terminates.after inferInstance fun function => ?_
  cases function <;> infer_instance

instance : Terminates .unreachable unreachable := by
  unfold unreachable
  infer_instance

end Ssa.Build

namespace Ssa.Module

/-- The module after straight-line code in a block: all other blocks and all instructions are as
they were, and the block has no end that it did not have.  In an open block nothing is
misplaced. -/
structure CodedIn (b : BlockId) (m m' : Module) : Prop where
  evolves : m.Evolves Change.Any m'
  position : m'.position = some b
  inst : ∀ {i : Nat} {v : Value}, m.values[i]? = some v → v.inst?.isSome → m'.values[i]? = some v
  other : ∀ {c : BlockId} {block : Block}, c ≠ b → m.blocks[c.index]? = some block →
    m'.blocks[c.index]? = some block
  terminator : ∀ {block : Block}, m.blocks[b.index]? = some block →
    ∃ block', m'.blocks[b.index]? = some block' ∧ block'.terminator = block.terminator
  orderly : m.OpenAt b → m.Orderly m'
  phis : ∀ {c : BlockId} {known : List ValueId}, m.PhisIn c known → m'.PhisIn c known

/-- Straight-line code in the current block, if there is one. -/
def Coded (m m' : Module) : Prop := ∀ b, m.position = some b → CodedIn b m m'

theorem CodedIn.refl {b : BlockId} {m : Module} (h : m.position = some b) : CodedIn b m m :=
  ⟨Relation.ReflTransGen.refl, h, fun hv _ => hv, fun _ hc => hc, fun hb => ⟨_, hb, rfl⟩,
    fun _ => .refl m, id⟩

theorem CodedIn.openAt {b : BlockId} {m m' : Module} (h : CodedIn b m m') (hopen : m.OpenAt b) :
    m'.OpenAt b := by
  obtain ⟨block, hblock, hnone⟩ := hopen
  obtain ⟨block', hblock', hsame⟩ := h.terminator hblock
  exact ⟨block', hblock', hsame.trans hnone⟩

theorem CodedIn.trans {b : BlockId} {m m' m'' : Module} (h : CodedIn b m m')
    (h' : CodedIn b m' m'') : CodedIn b m m'' where
  evolves := Relation.ReflTransGen.trans h.evolves h'.evolves
  position := h'.position
  inst hv hinst := h'.inst (h.inst hv hinst) hinst
  other hc hblock := h'.other hc (h.other hc hblock)
  terminator hblock := by
    obtain ⟨block', hblock', hsame⟩ := h.terminator hblock
    obtain ⟨block'', hblock'', hsame'⟩ := h'.terminator hblock'
    exact ⟨block'', hblock'', hsame'.trans hsame⟩
  orderly hopen := (h.orderly hopen).trans (h'.orderly (h.openAt hopen))
  phis hphis := h'.phis (h.phis hphis)

instance : IsPreorder Module Coded where
  refl _ _ hb := CodedIn.refl hb
  trans _ _ _ h h' b hb := (h b hb).trans (h' b (h b hb).position)

/-- Changes that only add code or initial values. -/
def Adds : Change → Prop
  | .addType _ | .addValue _ | .addFunction _ | .record _ | .listGlobal _ | .countString
  | .addInst .. | .setInitial .. => True
  | _ => False

theorem isOrderly_of_adds {c : Change} (hc : Adds c) : c.isOrderly = true := by
  cases c <;> first | rfl | exact hc.elim

theorem codedIn_apply {c : Change} {b : BlockId} {m : Module} (hc : Adds c) (hfits : m.Fits c)
    (hposition : m.position = some b) : CodedIn b m (m.apply c) where
  evolves := Evolves.one trivial hfits
  position := by
    cases c with
    | addInst place type inst => cases place <;> exact hposition
    | _ => first | exact hposition | exact hc.elim
  inst {i v} hv hinst := by
    refine value_apply ?_ hv
    cases c with
    | setInitial global value =>
        obtain ⟨type, name, content, initial, hglobal⟩ := hfits
        rintro rfl
        obtain rfl : v = ⟨type, .global name content initial⟩ := by simpa [hv] using hglobal
        simp [Value.inst?] at hinst
    | _ => first | exact trivial | exact hc.elim
  other {d block} hd hblock := by
    refine block_apply ?_ hblock
    cases c with
    | addInst place type inst =>
        rintro rfl
        exact hd (Option.some.inj (hfits.1.symm.trans hposition))
    | _ => first | exact trivial | exact hc.elim
  terminator hblock := terminator_apply (isOrderly_of_adds hc) hblock
  orderly hopen := orderly_apply (isOrderly_of_adds hc) hfits hposition hopen
  phis hphis := by
    refine phisIn_apply (fun type heq => ?_) hfits hphis
    subst heq
    exact hc

/-- Adding code and initial values is straight-line code. -/
theorem Evolves.coded {P : Change → Prop} (hP : ∀ c, P c → Adds c) {m m' : Module}
    (h : m.Evolves P m') : m.Coded m' := by
  intro b hb
  refine h.preserves (I := fun m' => CodedIn b m m') ?_ (CodedIn.refl hb)
  intro m₁ c hc hfits h₁
  exact h₁.trans (codedIn_apply (hP c hc) hfits h₁.position)

end Ssa.Module

namespace Lowering

/-- Straight-line code in the current block. -/
abbrev Session.Coded : Session → Session → Prop := Session.On Module.Coded

theorem adds_of_plain {spared : ValueId → Prop} (c : Change) (hc : Change.Plain spared c) :
    Module.Adds c := by
  cases c <;> first | exact trivial | exact hc.elim

instance : Building noAddress Session.Coded :=
  Session.On.building fun _ _ h => h.coded adds_of_plain

theorem openAt_new (m : Module) (f : FunctionId) (name : String) :
    ((m.apply (.addBlock f name)).apply (.moveTo ⟨m.blocks.size⟩)).OpenAt ⟨m.blocks.size⟩ :=
  ⟨{ name, function := f }, by simp [Module.apply], rfl⟩

/-- A detour through the block of a new function leaves everything before it as it was. -/
theorem codedIn_detour {b : BlockId} {f : FunctionId} {name : String} {m₀ m m₁ m₂ : Module}
    (hdeclared : Module.CodedIn b m₀ m) (hnew : m₀.functions.size ≤ f.index)
    (hcode : Module.CodedIn ⟨m.blocks.size⟩
      ((m.apply (.addBlock f name)).apply (.moveTo ⟨m.blocks.size⟩)) m₁)
    (hend : m₁.Evolves Change.Ends m₂) (horderly : m₁.Orderly m₂) :
    Module.CodedIn b m₀ (m₂.apply (.moveTo b)) := by
  have hsame {c : BlockId} {block : Block} (hblock : m.blocks[c.index]? = some block) :
      m₂.blocks[c.index]? = some block := by
    have hlt := (Array.getElem?_eq_some_iff.mp hblock).1
    have hne : c ≠ ⟨m.blocks.size⟩ := by
      rintro rfl
      exact Nat.lt_irrefl _ hlt
    have hadded := Module.block_apply (c := .addBlock f name) trivial hblock
    have hcoded := hcode.other hne hadded
    refine hend.other (fun c hc => ?_) (fun c hc => ?_) ?_ hcoded
    · cases c <;> first | exact .inl rfl | exact .inr trivial | exact hc.elim
    · rintro _ rfl
      exact hc
    · rw [hcode.position]
      rintro heq
      exact hne (Option.some.inj heq).symm
  refine ⟨?_, rfl, fun hv hinst => ?_, fun hne hblock => hsame (hdeclared.other hne hblock),
    fun hblock => ?_, fun hopen => ⟨fun {i function} hfunction => ?_, ?_⟩, fun hphis => ?_⟩
  · exact (((hdeclared.evolves.trans (m.evolves_enter f name)).trans hcode.evolves).trans
      (hend.mono fun _ _ => trivial)).trans (m₂.evolves_resume (some b))
  · refine hend.value (fun c hc => ?_) (hcode.inst (hdeclared.inst hv hinst) hinst)
    cases c <;> first | exact trivial | exact hc.elim
  · obtain ⟨block', hblock', hterminator⟩ := hdeclared.terminator hblock
    exact ⟨block', hsame hblock', hterminator⟩
  · have hlt := (Array.getElem?_eq_some_iff.mp hfunction).1
    obtain ⟨function', hfunction', hblocks⟩ := (hdeclared.orderly hopen).blocks hfunction
    have hne : f.index ≠ i := by omega
    have hkept : ((m.apply (.addBlock f name)).apply
        (.moveTo ⟨m.blocks.size⟩)).functions[i]? = some function' := by
      simp [Module.apply, Array.getElem?_modify, hne, hfunction']
    obtain ⟨function₂, hfunction₂, hblocks₂⟩ :=
      ((hcode.orderly (openAt_new m f name)).trans horderly).blocks hkept
    exact ⟨function₂, hfunction₂, hblocks₂.trans hblocks⟩
  · exact (((hcode.orderly (openAt_new m f name)).trans horderly).misplaced).trans
      (hdeclared.orderly hopen).misplaced
  · have hadded := Module.phisIn_apply (c := .addBlock f name) (by simp) trivial
      (hdeclared.phis hphis)
    refine Module.phisIn_apply (c := .moveTo b) (by simp) trivial (hend.phisIn (fun c hc => ?_)
      (hcode.phis (Module.phisIn_apply (by simp) trivial hadded)))
    rintro _ rfl
    exact hc

set_option synthInstance.maxSize 256 in
instance (asm : Assembly) : Emission asm noAddress Session.Coded := by
  refine Session.On.emission fun ty => ⟨fun {s f s'} h b hb => ?_⟩
  rcases newobjFunction_cases h with ⟨-, -, rfl⟩ | ⟨-, ⟨routine⟩⟩
  · exact Module.CodedIn.refl hb
  · have hdeclare : Keeps Session.Coded (do
        let object ← Build.pointerType routine.struct
        let type ← Build.functionType object []
        let f ← Build.addFunction (← Names.newobj asm ty) type .internal
        Registering.addNewobj asm ty f
        return f : Lower FunctionId) := inferInstance
    have hdeclared := hdeclare.run routine.declare b hb
    have hcoding : Keeps (Module.Evolves (Change.Plain noAddress))
        (Build.heapAlloc routine.struct none) := inferInstance
    have hstoring : Keeps (Module.Evolves (Change.Plain noAddress))
        (storeTables routine.struct routine.object routine.stores) := by
      unfold storeTables
      infer_instance
    have hevolves : Module.Evolves (Change.Plain noAddress) _ routine.stored :=
      (hcoding.run routine.allocate).trans (hstoring.run routine.store)
    have hcode := hevolves.coded adds_of_plain ⟨routine.declared.module.blocks.size⟩ rfl
    have hterminates : Terminates (.ret (some routine.object)) (Build.ret (some routine.object)) :=
      inferInstance
    obtain ⟨block, hblock, hopen⟩ := hcode.openAt (openAt_new _ f "entry")
    obtain ⟨hends, horderly, -⟩ := hterminates.run routine.ends hcode.position hblock hopen
    have hmodule : s'.module = routine.ended.apply (.moveTo b) := by
      have hresult := congrArg Session.module routine.result
      simpa only [hdeclared.position, Module.resume] using hresult
    rw [hmodule]
    exact codedIn_detour hdeclared routine.functions_le hcode hends horderly

/-- A relation between states of a compilation that everything in a block keeps, with the operations
on static fields. -/
class Storing (asm : Assembly) (R : Session → Session → Prop) : Prop extends
    Emission asm noAddress R where
  staticField : ∀ f, Keeps R (staticField asm f)
  foldStatic : ∀ f, Keeps R (Lower.register (Registering.foldStatic f))
  setInitializer : ∀ global value, Keeps R (Lower.build (Build.setInitializer global value))

instance (asm : Assembly) : Storing asm Session.Coded where
  staticField _ := inferInstance
  foldStatic _ := inferInstance
  setInitializer _ _ := Session.On.keeps ⟨fun h b hb => by
    rcases Build.setInitializer_cases h with ⟨misuse, rfl, hfits⟩ | ⟨rfl, hfits⟩
    · exact Module.codedIn_apply (c := .record misuse) trivial hfits hb
    · exact Module.codedIn_apply trivial hfits hb⟩

namespace Emit

variable {site : Site} {given : List ValueId} {R : Session → Session → Prop} {live : Prop}
  [hR : Storing site.asm R]

instance : Keeps (Straight R ⟨noAddress, live⟩ site.toFrame given) (loadStatic site) :=
  loadStatic_straight fun f _ => hR.staticField f

instance : Keeps (Straight R ⟨noAddress, live⟩ site.toFrame given) (loadStaticAddress site) where
  run h := loadStaticAddress_straight h fun _ hfind => ⟨(hR.staticField _).run hfind, id⟩

instance (sig : TypeSig) (type : TypeId) (value : ValueId) :
    Keeps (Straight R ⟨noAddress, live⟩ site.toFrame given)
      (initialConstant? site sig type value) := by
  unfold initialConstant?
  infer_instance

instance : Keeps (Straight R ⟨noAddress, live⟩ site.toFrame given) (storeStatic site) := by
  have := hR.staticField
  have := hR.foldStatic
  have := hR.setInitializer
  unfold storeStatic
  dsimp only
  refine Keeps.seq inferInstance fun f => Keeps.seq inferInstance fun value =>
    Keeps.seq inferInstance fun global => Keeps.seq inferInstance fun d =>
    Keeps.seq inferInstance fun type => Keeps.seq inferInstance fun constant => ?_
  cases constant with
  | none => infer_instance
  | some constant =>
      refine Keeps.seq inferInstance fun folded => ?_
      cases folded <;> infer_instance

theorem perform_coded {action : Action} (hends : endsBlock action = false) :
    Keeps (Straight R ⟨noAddress, live⟩ site.toFrame given) (perform site action) := by
  cases hstatic : usesStatic action with
  | false => exact perform_straight hends hstatic
  | true =>
      cases action with
      | loadStatic | loadStaticAddress | storeStatic =>
          unfold perform
          infer_instance
      | _ => simp [usesStatic] at hstatic

end Emit

end Lowering

end CilSsa
