import CilSsa.Proofs.Confinement
import CilSsa.Proofs.FailingTypes
import CilSsa.Proofs.LoweredBodies
import CilSsa.Proofs.Naming

/-!
The linkage of functions.

A function is made when its method is first asked for, by a call, a dispatch table or the
compilation of the method, with the linkage of the method.  The compilation gives it blocks, or
makes it external if its body has no lowering yet.  Without either are the functions of methods that
are never compiled: those that no type lists, and constructors of structs that have nothing to do.
-/

namespace CilSsa

open Ssa Metadata Lowering

/-- Changes that leave the functions alone. -/
def Ssa.Change.Local : Change → Prop
  | .addFunction _ | .setLinkage .. | .addBlock .. | .keepBlocks .. => False
  | _ => True

instance : Change.Flowing Change.Local where
  addType _ _ := trivial
  addArray _ _ := trivial
  addValue _ := trivial
  record _ := trivial
  listGlobal _ := trivial
  countString := trivial
  addInst _ _ _ _ := trivial
  addStore _ _ _ _ _ := trivial
  addPhi _ _ := trivial
  addEntry _ _ _ := trivial
  terminate _ _ := trivial
  moveTo _ := trivial

theorem Ssa.Module.Evolves.functions_eq {m m' : Module} (h : m.Evolves Change.Local m') :
    m'.functions = m.functions := by
  refine h.preserves (I := fun m' => m'.functions = m.functions) (fun m₁ c hc _ hsame => ?_) rfl
  rw [← hsame]
  cases c with
  | addFunction | setLinkage | addBlock | keepBlocks => exact hc.elim
  | addInst place type inst => cases place <;> rfl
  | _ => rfl

namespace Lowering

variable {asm : Assembly} {m m' : MethodId} {f f' : FunctionId} {s s' : Session}

/-- Methods never share a name. -/
def NamesDistinct (asm : Assembly) : Prop :=
  ∀ {m m' : MethodId} {name : String}, Names.method asm m = .ok name →
    Names.method asm m' = .ok name → m = m'

theorem Session.FunctionOf.unique (h : s.FunctionOf asm m f) (h' : s.FunctionOf asm m f') :
    f = f' := by
  obtain ⟨name, hname, hf⟩ := h
  obtain ⟨name', hname', hf'⟩ := h'
  obtain rfl := Except.ok.inj (hname.symm.trans hname')
  exact Option.some.inj (hf.symm.trans hf')

theorem Session.FunctionOf.method_eq (hnames : NamesDistinct asm) (hs : s.FunctionsSound)
    (h : s.FunctionOf asm m f) (h' : s.FunctionOf asm m' f) : m = m' := by
  obtain ⟨name, hname, hf⟩ := h
  obtain ⟨name', hname', hf'⟩ := h'
  obtain rfl := Option.some.inj ((hs hf).symm.trans (hs hf'))
  exact hnames hname hname'

/-- What is known of the functions of a compilation.  Functions of methods have the linkage that
`linkage` allows, functions without blocks belong to methods, and those that are `begun` have
blocks. What is said about functions for methods does not hold of the ones in `spare`. -/
structure Session.Ledger (asm : Assembly) (linkage : MethodId → MethodDef → Linkage → Prop)
    (begun spare : FunctionId → Prop) (s : Session) : Prop where
  named : s.FunctionsSound
  linked : ∀ {m d f function}, asm.method m = .ok d → s.FunctionOf asm m f → ¬ spare f →
    s.module.functions[f.index]? = some function → linkage m d function.linkage
  initial : ∀ {m d}, asm.method m = .ok d →
    linkage m d (linkageOf d) ∨ ∃ f, s.FunctionOf asm m f
  owner : ∀ {f function}, s.module.functions[f.index]? = some function → function.blocks = [] →
    ¬ spare f → ∃ m, s.FunctionOf asm m f
  filled : ∀ {f}, begun f → ∃ function, s.module.functions[f.index]? = some function ∧
    function.blocks ≠ []

namespace Session.Ledger

variable {linkage linkage' : MethodId → MethodDef → Linkage → Prop}
  {begun spare : FunctionId → Prop}

section Steps

/-- Functions that change keep their names and their blocks. -/
theorem adapt (hs : s.Ledger asm linkage begun spare)
    (hregistered : s'.registry.functions = s.registry.functions)
    (hforth : ∀ {f : FunctionId} {function}, s.module.functions[f.index]? = some function →
      ∃ function', s'.module.functions[f.index]? = some function' ∧
        function'.name = function.name ∧ (function'.blocks = [] → function.blocks = []))
    (hback : ∀ {f : FunctionId} {function'}, s'.module.functions[f.index]? = some function' →
      ∃ function, s.module.functions[f.index]? = some function)
    (hlinkage : ∀ {m d f function function'}, asm.method m = .ok d → s.FunctionOf asm m f →
      s.module.functions[f.index]? = some function →
      s'.module.functions[f.index]? = some function' → linkage m d function.linkage →
        linkage' m d function'.linkage)
    (hinitial : ∀ {m d}, asm.method m = .ok d → linkage m d (linkageOf d) →
      linkage' m d (linkageOf d) ∨ ∃ f, s.FunctionOf asm m f) :
    s'.Ledger asm linkage' begun spare := by
  have hof {m : MethodId} {f : FunctionId} : s'.FunctionOf asm m f ↔ s.FunctionOf asm m f := by
    simp [Session.FunctionOf, Registry.function?, hregistered]
  refine ⟨fun {name f} hf => ?_, fun {m d f function'} hd hf hspare hfunction' => ?_,
    fun {m d} hd => ?_, fun {f function'} hfunction' hempty hspare => ?_, fun {f} hf => ?_⟩
  · rw [Registry.function?, hregistered] at hf
    obtain ⟨function, hfunction, hname⟩ := Option.map_eq_some_iff.mp (hs.named hf)
    obtain ⟨function', hfunction', hsame, -⟩ := hforth hfunction
    simp [hfunction', hsame, hname]
  · rw [hof] at hf
    obtain ⟨function, hfunction⟩ := hback hfunction'
    exact hlinkage hd hf hfunction hfunction' (hs.linked hd hf hspare hfunction)
  · simp only [hof]
    rcases hs.initial hd with hinit | hregistered
    · exact hinitial hd hinit
    · exact .inr hregistered
  · obtain ⟨function, hfunction⟩ := hback hfunction'
    obtain ⟨_, hfound, -, hblocks⟩ := hforth hfunction
    obtain rfl := Option.some.inj (hfound.symm.trans hfunction')
    simpa only [hof] using hs.owner hfunction (hblocks hempty) hspare
  · obtain ⟨function, hfunction, hblocks⟩ := hs.filled hf
    obtain ⟨function', hfunction', -, hempty⟩ := hforth hfunction
    exact ⟨function', hfunction', fun h => hblocks (hempty h)⟩

theorem congr (hs : s.Ledger asm linkage begun spare)
    (hfunctions : s'.module.functions = s.module.functions)
    (hregistered : s'.registry.functions = s.registry.functions) :
    s'.Ledger asm linkage begun spare := by
  refine hs.adapt hregistered (fun {f function} hf => ?_) (fun {f function'} hf => ?_)
    (fun _ _ hfunction hfunction' hlinkage => ?_) fun _ => .inl
  · exact ⟨function, hfunctions ▸ hf, rfl, id⟩
  · exact ⟨function', hfunctions ▸ hf⟩
  · rw [hfunctions] at hfunction'
    obtain rfl := Option.some.inj (hfunction.symm.trans hfunction')
    exact hlinkage

theorem modify {g : FunctionId} {change : Function → Function}
    (hs : s.Ledger asm linkage begun spare)
    (hregistered : s'.registry.functions = s.registry.functions)
    (hfunctions : s'.module.functions = s.module.functions.modify g.index change)
    (hchange : ∀ {function}, s.module.functions[g.index]? = some function →
      (change function).name = function.name ∧
        ((change function).blocks = [] → function.blocks = []))
    (hlinkage : ∀ {m d f function}, asm.method m = .ok d → s.FunctionOf asm m f →
      linkage m d function.linkage →
        linkage' m d (if g = f then change function else function).linkage)
    (hinitial : ∀ {m d}, asm.method m = .ok d → linkage m d (linkageOf d) →
      linkage' m d (linkageOf d) ∨ ∃ f, s.FunctionOf asm m f) :
    s'.Ledger asm linkage' begun spare := by
  have hfound {f : FunctionId} : s'.module.functions[f.index]? =
      s.module.functions[f.index]?.map fun function => if g = f then change function else
      function := by
    rw [hfunctions, Array.getElem?_modify]
    by_cases heq : g = f
    · simp [heq]
    · have hne : g.index ≠ f.index := fun h => heq (FunctionId.eq_of_index h)
      simp [heq, hne]
  refine hs.adapt hregistered (fun {f function} hf => ?_) (fun {f function'} hf => ?_)
    (fun hd hf hfunction hfunction' h => ?_) hinitial
  · refine ⟨_, by rw [hfound, hf]; rfl, ?_⟩
    split
    · rename_i heq
      subst heq
      exact hchange hf
    · exact ⟨rfl, id⟩
  · rw [hfound, Option.map_eq_some_iff] at hf
    obtain ⟨function, hfunction, -⟩ := hf
    exact ⟨function, hfunction⟩
  · rw [hfound, hfunction] at hfunction'
    obtain rfl := Option.some.inj hfunction'
    exact hlinkage hd hf h

/-- A function that is there, or the new one. -/
theorem getElem?_push_cases {functions : Array Function} {function found : Function} {i : Nat}
    (h : (functions.push function)[i]? = some found) :
    functions[i]? = some found ∨ (i = functions.size ∧ found = function) := by
  rw [Array.getElem?_push] at h
  split at h
  · rename_i heq
    exact .inr ⟨heq, (Option.some.inj h).symm⟩
  · exact .inl h

theorem getElem?_push_of_some {functions : Array Function} {function found : Function} {i : Nat}
    (h : functions[i]? = some found) : (functions.push function)[i]? = some found := by
  have hlt := (Array.getElem?_eq_some_iff.mp h).1
  rw [Array.getElem?_push, if_neg (Nat.ne_of_lt hlt), h]

/-- A function with blocks is added for no method. -/
theorem push {function : Function} (hs : s.Ledger asm linkage begun spare)
    (hblocks : function.blocks ≠ [])
    (hfunctions : s'.module.functions = s.module.functions.push function)
    (hregistered : s'.registry.functions = s.registry.functions) :
    s'.Ledger asm linkage begun spare := by
  have hof {m : MethodId} {f : FunctionId} : s'.FunctionOf asm m f ↔ s.FunctionOf asm m f := by
    simp [Session.FunctionOf, Registry.function?, hregistered]
  refine ⟨fun {name f} hf => ?_, fun {m d f found} hd hf hspare hfound => ?_,
    fun {m d} hd => ?_, fun {f found} hfound hempty hspare => ?_, fun {f} hf => ?_⟩
  · rw [Registry.function?, hregistered] at hf
    obtain ⟨found, hfound, hname⟩ := Option.map_eq_some_iff.mp (hs.named hf)
    simp [hfunctions, getElem?_push_of_some hfound, hname]
  · rw [hof] at hf
    rw [hfunctions] at hfound
    rcases getElem?_push_cases hfound with hold | ⟨hnew, -⟩
    · exact hs.linked hd hf hspare hold
    · obtain ⟨name, -, hregistered⟩ := hf
      have hnamed := hs.named hregistered
      simp [hnew] at hnamed
  · simpa only [hof] using hs.initial hd
  · rw [hfunctions] at hfound
    rcases getElem?_push_cases hfound with hold | ⟨-, rfl⟩
    · simpa only [hof] using hs.owner hold hempty hspare
    · exact absurd hempty hblocks
  · obtain ⟨found, hfound, hnonempty⟩ := hs.filled hf
    exact ⟨found, by rw [hfunctions, getElem?_push_of_some hfound], hnonempty⟩

theorem register {function : Function} {spare' : FunctionId → Prop}
    (hs : s.Ledger asm linkage begun spare) (hnew : s.registry.function? function.name = none)
    (hfunctions : s'.module.functions = s.module.functions.push function)
    (hregistered : s'.registry.functions =
      (function.name, ⟨s.module.functions.size⟩) :: s.registry.functions)
    (hspare : ∀ f, spare f → spare' f)
    (hlinkage : ∀ {m d}, asm.method m = .ok d → Names.method asm m = .ok function.name →
      ¬ spare' ⟨s.module.functions.size⟩ → linkage m d function.linkage)
    (howner : ¬ spare' ⟨s.module.functions.size⟩ → ∃ m, Names.method asm m = .ok function.name) :
    s'.Ledger asm linkage begun spare' := by
  have hlookup {name : String} : s'.registry.function? name =
      if name = function.name then some ⟨s.module.functions.size⟩ else
      s.registry.function? name := by
    rw [Registry.function?, hregistered, List.lookup_cons]
    by_cases heq : name = function.name
    · simp [heq]
    · simp [heq, beq_eq_false_iff_ne.mpr heq, Registry.function?]
  have hkept {m : MethodId} {f : FunctionId} (hf : s.FunctionOf asm m f) :
      s'.FunctionOf asm m f := by
    obtain ⟨name, hname, hf⟩ := hf
    refine ⟨name, hname, ?_⟩
    rw [hlookup, if_neg, hf]
    rintro rfl
    rw [hnew] at hf
    cases hf
  refine ⟨fun {name f} hf => ?_, fun {m d f found} hd hf hspare' hfound => ?_,
    fun {m d} hd => ?_, fun {f found} hfound hempty hspare' => ?_, fun {f} hf => ?_⟩
  · rw [hlookup] at hf
    split at hf
    · rename_i heq
      obtain rfl := Option.some.inj hf
      simp [hfunctions, heq]
    · obtain ⟨found, hfound, hname⟩ := Option.map_eq_some_iff.mp (hs.named hf)
      simp [hfunctions, getElem?_push_of_some hfound, hname]
  · obtain ⟨name, hname, hf⟩ := hf
    rw [hlookup] at hf
    split at hf
    · rename_i heq
      obtain rfl := Option.some.inj hf
      obtain rfl : function = found := by simpa [hfunctions] using hfound
      exact hlinkage hd (heq ▸ hname) hspare'
    · rw [hfunctions] at hfound
      rcases getElem?_push_cases hfound with hold | ⟨hlast, -⟩
      · exact hs.linked hd ⟨name, hname, hf⟩ (fun h => hspare' (hspare f h)) hold
      · have hnamed := hs.named hf
        simp [hlast] at hnamed
  · rcases hs.initial hd with hinit | ⟨f, hf⟩
    · exact .inl hinit
    · exact .inr ⟨f, hkept hf⟩
  · rw [hfunctions] at hfound
    rcases getElem?_push_cases hfound with hold | ⟨hlast, rfl⟩
    · obtain ⟨m, hm⟩ := hs.owner hold hempty fun h => hspare' (hspare f h)
      exact ⟨m, hkept hm⟩
    · obtain rfl : f = ⟨s.module.functions.size⟩ := FunctionId.eq_of_index hlast
      obtain ⟨m, hm⟩ := howner hspare'
      exact ⟨m, _, hm, by rw [hlookup, if_pos rfl]⟩
  · obtain ⟨found, hfound, hnonempty⟩ := hs.filled hf
    exact ⟨found, by rw [hfunctions, getElem?_push_of_some hfound], hnonempty⟩

end Steps

section Actions

/-- No failure is provided for: the state after one does not matter. -/
theorem upholds_of_ok {I : Session → Prop} {α : Type} {x : Lower α}
    (h : ∀ {s a s'}, I s → x s = .ok a s' → I s') : Upholds I (fun _ _ => True) x where
  ok := h
  fails _ _ := trivial

variable {α : Type}

instance : Upholding Change.Local (Session.Ledger asm linkage begun spare) (fun _ _ => True) where
  build hx _ _ _ hs h := hs.congr (hx.run h).functions_eq rfl
  here _ _ := trivial

instance (question : Registry → Except Stop α) :
    Upholds (Session.Ledger asm linkage begun spare) (fun _ _ => True) (Lower.consult question) :=
  upholds_consult fun _ _ => trivial

instance (x : Layouts α) :
    Upholds (Session.Ledger asm linkage begun spare) (fun _ _ => True) (Lower.layout x) :=
  upholds_of_ok fun hs h => by
    obtain ⟨c, -, rfl⟩ := Lower.layout_eq_ok_iff.mp h
    exact hs.congr rfl rfl

theorem upholds_register {x : Registering α}
    (hx : ∀ {r a r'}, x r = .ok a r' → r'.functions = r.functions) :
    Upholds (Session.Ledger asm linkage begun spare) (fun _ _ => True) (Lower.register x) :=
  upholds_of_ok fun hs h => by
    obtain ⟨r, hregister, rfl⟩ := Lower.register_eq_ok_iff.mp h
    exact hs.congr rfl (hx hregister)

instance (x : Registering α) [hx : Keeps Registry.Settled x] :
    Upholds (Session.Ledger asm linkage begun spare) (fun _ _ => True) (Lower.register x) :=
  upholds_register fun h => (hx.run h).sameFunctions

instance : Naming asm Change.Local (Session.Ledger asm linkage begun spare) (fun _ _ => True) where
  namedType _ := upholds_namedType fun _ => inferInstance

/-- A function is made for a method when it is first asked for. -/
theorem declare (hnames : NamesDistinct asm) (hs : s.Ledger asm linkage begun spare)
    (h : declareFunction asm m s = .ok f s') :
    s'.Ledger asm linkage begun spare ∧ s'.FunctionOf asm m f := by
  refine ⟨?_, declareFunction_registered h⟩
  simp only [declareFunction, bind_eq_ok_iff, Lower.liftM_ask, Lower.ask_eq_ok_iff] at h
  obtain ⟨name, t, ⟨hname, rfl⟩, hthen⟩ := h
  have h := getBind_eq_ok_iff.mp (bind_eq_ok_iff.mpr hthen)
  cases hfound : t.registry.function? name with
  | some function =>
      simp only [hfound] at h
      obtain ⟨rfl, rfl⟩ := pure_eq_ok_iff.mp h
      exact hs
  | none =>
      simp only [hfound, bind_eq_ok_iff, Lower.ask_eq_ok_iff, Lower.liftM_build,
        Lower.build_eq_ok_iff, Lower.liftM_register, Lower.register_eq_ok_iff] at h
      obtain ⟨d, _, ⟨hd, rfl⟩, type, t₁, htype, g, _, ⟨m₁, hadd, rfl⟩, _, _, ⟨r, hregister, rfl⟩,
        hpure⟩ := h
      obtain ⟨rfl, rfl⟩ := pure_eq_ok_iff.mp hpure
      have htyped : Upholds (Session.Ledger asm linkage begun spare) (fun _ _ => True)
          (functionType asm d) := inferInstance
      have hs₁ := htyped.ok hs htype
      obtain ⟨rfl, params, value, hfunctions⟩ := Build.addFunction_functions hadd
      obtain ⟨hnew, rfl⟩ := Registering.addFunction_eq_ok hregister
      refine hs₁.register hnew hfunctions rfl (fun _ => id) (fun {m' d'} hd' hname' _ => ?_)
        fun _ => ⟨m, hname⟩
      obtain rfl := hnames hname hname'
      obtain rfl := Except.ok.inj (hd.symm.trans hd')
      rcases hs₁.initial hd with hinit | ⟨f, name', hname'', hf⟩
      · exact hinit
      · obtain rfl := Except.ok.inj (hname.symm.trans hname'')
        cases hnew.symm.trans hf

theorem setLinkage (hnames : NamesDistinct asm) (hs : s.Ledger asm linkage begun spare)
    (hf : s.FunctionOf asm m f) {new : Linkage} {u : Unit}
    (hnew : ∀ {d}, asm.method m = .ok d → linkage' m d new)
    (hother : ∀ {m' d l}, m' ≠ m → linkage m' d l → linkage' m' d l)
    (h : Lower.build (Build.setLinkage f new) s = .ok u s') :
    s'.Ledger asm linkage' begun spare := by
  obtain ⟨module, hset, rfl⟩ := Lower.build_eq_ok_iff.mp h
  obtain rfl := Build.setLinkage_eq_ok hset
  have hfunctions : (s.module.apply (.setLinkage f new)).functions =
      s.module.functions.modify f.index fun function => { function with linkage := new } := rfl
  refine hs.modify (g := f) rfl hfunctions (fun _ => ⟨rfl, id⟩)
    (fun {m' d f' function} hd hf' hold => ?_) fun {m' d} hd hold => ?_
  · split
    · rename_i heq
      subst heq
      obtain rfl := hf'.method_eq hnames hs.named hf
      exact hnew hd
    · rename_i hne
      exact hother (fun heq => hne (hf.unique (heq ▸ hf'))) hold
  · by_cases heq : m' = m
    · exact .inr ⟨f, heq ▸ hf⟩
    · exact .inl (hother heq hold)

/-- A function gets one more block. -/
theorem append {name : String} {b : BlockId} (hs : s.Ledger asm linkage begun spare)
    (h : Lower.build (Build.appendBlock f name) s = .ok b s') :
    s'.Ledger asm linkage (fun g => begun g ∨ g = f) spare := by
  obtain ⟨module, happend, rfl⟩ := Lower.build_eq_ok_iff.mp h
  obtain ⟨rfl, rfl, function, hfunction⟩ := Build.appendBlock_eq_ok happend
  have hfunctions : (s.module.apply (.addBlock f name)).functions =
      s.module.functions.modify f.index fun function =>
        { function with blocks := function.blocks ++ [⟨s.module.blocks.size⟩] } := rfl
  have hmodified : Session.Ledger asm linkage begun spare
      { s with module := s.module.apply (.addBlock f name) } :=
    hs.modify (g := f) rfl hfunctions (fun _ => ⟨rfl, by simp⟩)
      (fun _ _ h => by split <;> exact h) fun _ => .inl
  refine { hmodified with filled := ?_ }
  rintro g (hg | rfl)
  · exact hmodified.filled hg
  · exact ⟨_, by simp [Module.apply, Array.getElem?_modify, hfunction]; rfl, by simp⟩

theorem upholds_appendBlock {name : String} :
    Upholds (Session.Ledger asm linkage begun spare) (fun _ _ => True)
      (Lower.build (Build.appendBlock f name)) :=
  upholds_of_ok fun hs h => { hs.append h with filled := fun hf => (hs.append h).filled (.inl hf) }

/-- A function keeps its first block when it is optimized. -/
theorem upholds_finish {settings : Settings} :
    Upholds (Session.Ledger asm linkage begun spare) (fun _ _ => True)
      (Lower.finish settings f) := by
  have hquery : Upholds (Session.Ledger asm linkage begun spare) (fun _ _ => True)
      (Lower.build (Build.query (·.verify f))) :=
    upholds_build fun hs h => by
      obtain ⟨-, rfl⟩ := Build.query_eq_ok_iff.mp h
      exact hs
  have hverify : Upholds (Session.Ledger asm linkage begun spare) (fun _ _ => True)
      (Lower.verify settings f) := by
    unfold Lower.verify
    split
    · refine Upholds.seq hquery fun result => ?_
      cases result with
      | ok => exact Upholds.pure ()
      | error error => exact upholds_of_ok fun _ h => nomatch h
    · exact Upholds.pure ()
  refine Upholds.seq hverify fun _ => upholds_build fun {s _ module} hs h => ?_
  unfold Build.optimize at h
  split at h
  · simp only [bind_eq_ok_iff, Build.query_eq_ok_iff, set_eq_ok_iff] at h
    obtain ⟨_, _, ⟨hremoved, rfl⟩, rfl⟩ := h
    rcases Module.removeUnreachable_eq_ok hremoved with
      rfl | ⟨function, entry, kept, hfunction, hentry, hkept, rfl⟩
    · exact hs
    · have hfunctions : (s.module.apply (.keepBlocks f kept)).functions =
          s.module.functions.modify f.index fun function =>
            { function with blocks := function.blocks.filter (· ∈ kept) } := rfl
      refine hs.modify (g := f) rfl hfunctions (fun {found} hfound => ⟨rfl, fun hempty => ?_⟩)
        (fun _ _ h => by split <;> exact h) fun _ => .inl
      obtain rfl := Option.some.inj (hfunction.symm.trans hfound)
      rw [List.filter_eq_nil_iff] at hempty
      exact absurd (decide_eq_true ((hkept entry).mpr .refl)) (hempty entry hentry)
  · obtain ⟨-, rfl⟩ := pure_eq_ok_iff.mp h
    exact hs

end Actions

section Code

theorem functions_of_routine {ty : TypeDefId} (h : Routine asm ty f s s') :
    ∃ function, function.blocks ≠ [] ∧ s'.module.functions = s.module.functions.push function ∧
      s'.registry.functions = s.registry.functions := by
  obtain ⟨hlast, function, hdeclared, hregistered⟩ : f = ⟨s.module.functions.size⟩ ∧
      ∃ function, h.declared.module.functions = s.module.functions.push function ∧
        h.declared.registry.functions = s.registry.functions := by
    have hdeclare := h.declare
    simp only [bind_eq_ok_iff, Lower.liftM_build, Lower.build_eq_ok_iff, Lower.liftM_register,
      Lower.register_eq_ok_iff, Lower.liftM_ask, Lower.ask_eq_ok_iff, pure_eq_ok_iff] at hdeclare
    obtain ⟨object, _, ⟨m₁, hobject, rfl⟩, type, _, ⟨m₂, htype, rfl⟩, name, _, ⟨-, rfl⟩, f', _,
      ⟨m₃, hadd, rfl⟩, _, _, ⟨r, hregister, rfl⟩, rfl, hdeclared⟩ := hdeclare
    obtain ⟨hlast, params, value, hfunctions⟩ := Build.addFunction_functions hadd
    obtain ⟨_, rfl⟩ := Build.intern_same hobject
    obtain ⟨_, rfl⟩ := Build.intern_same htype
    have hsettled : Keeps Registry.Settled (Registering.addNewobj asm ty f) := inferInstance
    simp only [hdeclared]
    exact ⟨hlast, _, hfunctions, (hsettled.run hregister).sameFunctions⟩
  have hcode : Keeps (Module.Evolves Change.Local) (do
      let object ← Build.heapAlloc h.struct none
      storeTables h.struct object h.stores) := by
    unfold storeTables
    infer_instance
  have hstored := (hcode.run
    (bind_eq_ok_iff.mpr ⟨h.object, h.allocated, h.allocate, h.store⟩)).functions_eq
  have hends : Keeps (Module.Evolves (Change.EndsBy (.ret (some h.object))))
      (Build.ret (some h.object)) := inferInstance
  have hended := ((hends.run h.ends).mono (Q := Change.Local) fun c hc => by
    cases c <;> first | exact trivial | exact hc.elim).functions_eq
  have hresumed (module : Module) (saved : Option BlockId) :
      (module.resume saved).functions = module.functions := by
    cases saved <;> rfl
  have hentered : ((h.declared.module.apply (.addBlock f "entry")).apply
      (.moveTo ⟨h.declared.module.blocks.size⟩)).functions =
        (s.module.functions.push function).modify s.module.functions.size fun function =>
          { function with blocks := function.blocks ++ [⟨h.declared.module.blocks.size⟩] } := by
    have hindex : f.index = s.module.functions.size := congrArg FunctionId.index hlast
    rw [← hdeclared, ← hindex]
    rfl
  have hfunctions : s'.module.functions = h.ended.functions :=
    (congrArg (fun s : Session => s.module.functions) h.result).trans (hresumed _ _)
  refine ⟨{ function with blocks := function.blocks ++ [⟨h.declared.module.blocks.size⟩] },
    by simp, ?_, (congrArg (fun s : Session => s.registry.functions) h.result).trans hregistered⟩
  rw [hfunctions, hended, hstored, hentered]
  refine Array.ext_getElem? fun i => ?_
  rw [Array.getElem?_modify, Array.getElem?_push, Array.getElem?_push]
  by_cases heq : i = s.module.functions.size
  · simp [heq]
  · simp [heq, Ne.symm heq]

/-- Allocation routines are functions of no method. -/
instance (ty : TypeDefId) : Upholds (Session.Ledger asm linkage begun spare) (fun _ _ => True)
    (newobjFunction asm ty) :=
  upholds_of_ok fun {s g s'} hs h => by
    rcases newobjFunction_cases h with ⟨-, -, rfl⟩ | ⟨-, ⟨routine⟩⟩
    · exact hs
    · obtain ⟨function, hblocks, hfunctions, hregistered⟩ := functions_of_routine routine
      exact hs.push hblocks hfunctions hregistered

theorem requesting (hnames : NamesDistinct asm) :
    Requesting asm Change.Local (Session.Ledger asm linkage begun spare) (fun _ _ => True) where
  declareFunction m := upholds_of_ok fun hs h => (hs.declare hnames h).1
  staticField f := upholds_staticField f fun g => upholds_register fun h => by
    obtain ⟨-, rfl⟩ := Registering.addStaticField_eq_ok h
    rfl

theorem upholds_setInitializer (global value : ValueId) :
    Upholds (Session.Ledger asm linkage begun spare) (fun _ _ => True)
      (Lower.build (Build.setInitializer global value)) :=
  upholds_build fun {s _ module} hs h => by
    refine hs.congr ?_ rfl
    rcases Build.setInitializer_cases h with ⟨misuse, rfl, -⟩ | ⟨rfl, -⟩ <;> rfl

theorem answering (hnames : NamesDistinct asm) :
    Answering asm Change.Local (Session.Ledger asm linkage begun spare) (fun _ _ => True) :=
  { requesting hnames with
    foldStatic := fun _ => inferInstance
    setInitializer := upholds_setInitializer
    stop := fun _ => trivial
    layout := fun _ => inferInstance
    newobjFunction := fun _ => inferInstance }

theorem constructing (hnames : NamesDistinct asm) :
    Constructing asm Change.Local (Session.Ledger asm linkage begun spare) (fun _ _ => True) :=
  { requesting hnames with
    layout := fun _ => inferInstance
    handle := fun _ => inferInstance
    interfaceIndex := fun _ _ => inferInstance
    addSlotTable := fun _ _ => inferInstance
    addVTable := fun _ _ _ => inferInstance
    setInitializer := upholds_setInitializer
    setStructBody := fun id members packed => upholds_build fun {s _ module} hs h => by
      refine hs.congr ?_ rfl
      rcases Build.setStructBody_cases h with ⟨misuse, rfl, -⟩ | ⟨type, rfl, -⟩ <;> rfl }

instance : Introducing asm Change.Local (Session.Ledger asm linkage begun spare)
    (fun _ _ => True) where
  underlying _ _ := inferInstance
  addInterface _ := upholds_register fun h => by
    obtain ⟨-, -, rfl⟩ := Registering.addInterface_eq_ok h
    rfl
  addType {ty} _ _ := upholds_register fun h => by
    obtain ⟨-, rfl⟩ := Registering.claimed_eq_ok (fun r => (r.types.lookup ty).isSome) h
    rfl
  addCctor _ := upholds_register fun h => by
    obtain rfl := modify_eq_ok_iff.mp h
    rfl
  markVirtualCall _ := upholds_register fun h => by
    obtain rfl := modify_eq_ok_iff.mp h
    rfl

/-- A body is emitted into blocks of its function. -/
theorem emitBody {d : MethodDef} {name : String} {body : MethodBody} {u : Unit}
    (hnames : NamesDistinct asm) (hs : s.Ledger asm linkage begun spare)
    (h : Lowering.emitBody asm d name f body s = .ok u s') :
    s'.Ledger asm linkage (fun g => begun g ∨ g = f) spare := by
  have hanswering : Answering asm Change.Local
      (Session.Ledger asm linkage (fun g => begun g ∨ g = f) spare) (fun _ _ => True) :=
    answering hnames
  have hbody : Leads (Session.Ledger asm linkage begun spare)
      (fun _ => Session.Ledger asm linkage (fun g => begun g ∨ g = f) spare) (fun _ _ => True)
      (Lowering.emitBody asm d name f body) := by
    have hemitted := hanswering.toEmitted
    refine leads_emitBody_of_entry ⟨fun hs h => hs.append h, fun _ _ => trivial⟩
      (fun _ => upholds_appendBlock) fun site hsite _ => ?_
    subst hsite
    have hbranching : Emit.Branching site.toFrame (fun _ => True)
        (fun _ => Session.Ledger site.asm linkage (fun g => begun g ∨ g = f) spare)
        (fun _ _ => True) (fun _ _ => True) := branching_of_flowing
    have hall (_ : BlockId) := hanswering
    exact Emit.upholds_instruction_of_answering
  exact hbody.ok hs h

end Code

section Weakening

/-- More linkages may be allowed. -/
theorem mono (hs : s.Ledger asm linkage begun spare)
    (h : ∀ {m d l}, asm.method m = .ok d → linkage m d l → linkage' m d l) :
    s.Ledger asm linkage' begun spare :=
  { hs with
    linked := fun hd hf hspare hfunction => h hd (hs.linked hd hf hspare hfunction)
    initial := fun hd => (hs.initial hd).imp_left (h hd) }

end Weakening

end Session.Ledger

section Methods

/-- A method with a body that has no lowering yet. -/
def Postponed (asm : Assembly) (d : MethodDef) : Prop :=
  ¬ DefaultConstructor asm d ∧ ∃ body opcode, d.body = some body ∧
    bodySupport body.instructions = .deferred opcode

def LinkedAfter (asm : Assembly) (compiled : MethodId → Prop) (m : MethodId) (d : MethodDef)
    (linkage : Linkage) : Prop :=
  (compiled m ∧ Postponed asm d → linkage = .external) ∧
    (¬ (compiled m ∧ Postponed asm d) → linkage = linkageOf d)

variable {compiled : MethodId → Prop} {d : MethodDef} {linkage : Linkage}

theorem linkedAfter_of_not_postponed (hd : ¬ Postponed asm d) (h : linkage = linkageOf d) :
    LinkedAfter asm compiled m d linkage :=
  ⟨fun hdeferred => absurd hdeferred.2 hd, fun _ => h⟩

theorem LinkedAfter.other (h : LinkedAfter asm compiled m' d linkage) (hne : m' ≠ m) :
    LinkedAfter asm (fun m' => compiled m' ∨ m' = m) m' d linkage := by
  simpa [LinkedAfter, hne] using h

/-- The state once the methods in `compiled` are compiled. -/
structure Session.Booked (asm : Assembly) (compiled : MethodId → Prop) (begun : FunctionId → Prop)
    (s : Session) : Prop where
  ledger : s.Ledger asm (LinkedAfter asm compiled) begun fun _ => False
  bodies : ∀ {m body}, compiled m → Lowers asm m body → ∃ f, s.FunctionOf asm m f ∧ begun f
  support : ∀ {m d body opcode}, compiled m → asm.method m = .ok d → d.body = some body →
    ¬ DefaultConstructor asm d → bodySupport body.instructions ≠ .refused opcode

theorem Session.FunctionOf.later (hs : Session.Later asm s s') (h : s.FunctionOf asm m f) :
    s'.FunctionOf asm m f := by
  obtain ⟨name, hname, hf⟩ := h
  exact ⟨name, hname, hs.registry.functions hf⟩

variable {begun : FunctionId → Prop} {settings : Settings}

/-- What is to be shown of a method once it is compiled. -/
theorem Session.Booked.next {begun' : FunctionId → Prop} (hs : s.Booked asm compiled begun)
    (hlater : Session.Later asm s s') (hd : asm.method m = .ok d)
    (hledger : s'.Ledger asm (LinkedAfter asm fun m' => compiled m' ∨ m' = m) begun' fun _ => False)
    (hbegun : ∀ f, begun f → begun' f)
    (hbody : ∀ body, Lowers asm m body → ∃ f, s'.FunctionOf asm m f ∧ begun' f)
    (hsupport : ∀ body opcode, d.body = some body → ¬ DefaultConstructor asm d →
      bodySupport body.instructions ≠ .refused opcode) :
    s'.Booked asm (fun m' => compiled m' ∨ m' = m) begun' where
  ledger := hledger
  bodies {m' body} hm' hlowers := by
    rcases hm' with hm' | rfl
    · obtain ⟨f, hf, hfbegun⟩ := hs.bodies hm' hlowers
      exact ⟨f, hf.later hlater, hbegun f hfbegun⟩
    · exact hbody body hlowers
  support {m' d' body opcode} hm' hd' hbody' hdefault := by
    rcases hm' with hm' | rfl
    · exact hs.support hm' hd' hbody' hdefault
    · obtain rfl := Except.ok.inj (hd.symm.trans hd')
      exact hsupport body opcode hbody' hdefault

/-- The compilation of a method that is not postponed leaves the linkage of its function alone. -/
theorem Session.Ledger.after_of_not_postponed {begun : FunctionId → Prop}
    (hs : s.Ledger asm (LinkedAfter asm compiled) begun fun _ => False) (hd : asm.method m = .ok d)
    (hpostponed : ¬ Postponed asm d) :
    s.Ledger asm (LinkedAfter asm fun m' => compiled m' ∨ m' = m) begun fun _ => False := by
  refine hs.mono fun {m' d' l} hd' hl => ?_
  by_cases heq : m' = m
  · subst heq
    obtain rfl := Except.ok.inj (hd.symm.trans hd')
    exact linkedAfter_of_not_postponed hpostponed (hl.2 fun h => hpostponed h.2)
  · exact hl.other heq

theorem Session.Booked.compileMethod {outcome : MethodOutcome} (hnames : NamesDistinct asm)
    (hs : s.Booked asm compiled begun)
    (h : Lowering.compileMethod asm settings m s = .ok outcome s') :
    ∃ begun', s'.Booked asm (fun m' => compiled m' ∨ m' = m) begun' := by
  have hlater : Session.Later asm s s' := Keeps.run h
  obtain ⟨d, hd, hrun⟩ := compileMethod_eq_ok h
  cases hrun with
  | skipped hdefault =>
      exact ⟨begun, hs.next hlater hd (hs.ledger.after_of_not_postponed hd fun h => h.1 hdefault)
        (fun _ => id) (fun _ h => absurd hdefault (h.not_defaultConstructor hd).2)
        fun _ _ _ h => absurd hdefault h⟩
  | bodiless _ hbody hdeclare =>
      have hpostponed : ¬ Postponed asm d := by
        rintro ⟨-, body, _, h, -⟩
        cases hbody.symm.trans h
      have hdeclared := (hs.ledger.declare hnames hdeclare).1
      refine ⟨begun, hs.next hlater hd (hdeclared.after_of_not_postponed hd hpostponed)
        (fun _ => id) (fun _ h => ?_) fun _ _ h => ?_⟩
      · cases hbody.symm.trans (h.not_defaultConstructor hd).1
      · cases hbody.symm.trans h
  | deferred hneeded hbody hsupport hdeclare hlink =>
      obtain ⟨hdeclared, hf⟩ := hs.ledger.declare hnames hdeclare
      have hpostponed : Postponed asm d := ⟨hneeded, _, _, hbody, hsupport⟩
      refine ⟨begun, hs.next hlater hd (hdeclared.setLinkage hnames hf (fun {d'} hd' => ?_)
        (fun hne hl => hl.other hne) hlink) (fun _ => id) (fun body' hlowers => ?_)
        fun body' opcode' hbody' _ => ?_⟩
      · obtain rfl := Except.ok.inj (hd.symm.trans hd')
        exact ⟨fun _ => rfl, fun h => absurd ⟨.inr rfl, hpostponed⟩ h⟩
      · obtain rfl := Option.some.inj (hbody.symm.trans (hlowers.not_defaultConstructor hd).1)
        cases hsupport.symm.trans hlowers.support
      · obtain rfl := Option.some.inj (hbody.symm.trans hbody')
        simp [hsupport]
  | @lowered body name f declared linked emitted _ _ hbody hsupport hdeclare hlink hemit hfinish =>
      obtain ⟨hdeclared, hf⟩ := hs.ledger.declare hnames hdeclare
      have hpostponed : ¬ Postponed asm d := by
        rintro ⟨-, body', opcode, hbody', hsupport'⟩
        obtain rfl := Option.some.inj (hbody.symm.trans hbody')
        cases hsupport.symm.trans hsupport'
      have hlinked : linked.Ledger asm (LinkedAfter asm compiled) begun fun _ => False :=
        hdeclared.setLinkage hnames hf (fun {d'} hd' => by
          obtain rfl := Except.ok.inj (hd.symm.trans hd')
          exact linkedAfter_of_not_postponed hpostponed rfl) (fun _ hl => hl) hlink
      have hemitted := hlinked.emitBody hnames hemit
      have hfinished := Session.Ledger.upholds_finish.ok hemitted hfinish
      have hlast : Session.Later asm declared s' := IsTrans.trans _ _ _ (Keeps.run hlink)
        (IsTrans.trans _ _ _ (Keeps.run hemit) (Keeps.run hfinish))
      refine ⟨fun g => begun g ∨ g = f, hs.next hlater hd
        (hfinished.after_of_not_postponed hd hpostponed) (fun _ => .inl)
        (fun _ _ => ⟨f, hf.later hlast, .inr rfl⟩) fun body' opcode' hbody' _ => ?_⟩
      obtain rfl := Option.some.inj (hbody.symm.trans hbody')
      simp [hsupport]

end Methods

section Programs

variable {settings : Settings} {compiled : MethodId → Prop}

/-- What holds after each step of a loop holds after the loop. -/
theorem motive_of_foldlM {ε σ α β : Type} {f : β → α → EStateM ε σ β}
    {motive : List α → β → σ → Prop}
    (hstep : ∀ {done a b b' s s'}, motive done b s → f b a s = .ok b' s' →
      motive (done ++ [a]) b' s')
    {items : List α} (done : List α) {b b' : β} {s s' : σ} (hs : motive done b s)
    (h : items.foldlM f b s = .ok b' s') : motive (done ++ items) b' s' := by
  induction items generalizing done b s with
  | nil =>
      rw [List.foldlM_nil] at h
      obtain ⟨rfl, rfl⟩ := pure_eq_ok_iff.mp h
      simpa using hs
  | cons a rest ih =>
      rw [List.foldlM_cons] at h
      obtain ⟨b₁, s₁, hfirst, hrest⟩ := bind_eq_ok_iff.mp h
      simpa using ih _ (hstep hs hfirst) hrest

theorem booked_of_compileMethodsOf {p p' : Progress} {ty : TypeDefId} {d : TypeDef}
    (hnames : NamesDistinct asm) (hs : ∃ begun, s.Booked asm compiled begun)
    (hd : asm.typeDef ty = .ok d) (h : compileMethodsOf asm settings p ty s = .ok p' s') :
    ∃ begun, s'.Booked asm (fun m => compiled m ∨ m ∈ d.methods) begun := by
  obtain ⟨d', hd', h⟩ := compileMethodsOf_eq_ok h
  obtain rfl := Except.ok.inj (hd.symm.trans hd')
  refine motive_of_foldlM
    (motive := fun done _ s => ∃ begun, s.Booked asm (fun m => compiled m ∨ m ∈ done) begun)
    (fun {done m p p' s s'} hs h => ?_) [] (by simpa using hs) h
  obtain ⟨begun, hs⟩ := hs
  obtain ⟨_, outcome, -, hcompile, -⟩ := compileListed_eq_ok h
  simpa [or_assoc] using hs.compileMethod hnames hcompile

def Listed (asm : Assembly) (types : List TypeDefId) (m : MethodId) : Prop :=
  ∃ ty ∈ types, ∃ d, asm.typeDef ty = .ok d ∧ m ∈ d.methods

theorem listed_append {types : List TypeDefId} {ty : TypeDefId} {d : TypeDef}
    (hd : asm.typeDef ty = .ok d) :
    Listed asm (types ++ [ty]) = fun m => Listed asm types m ∨ m ∈ d.methods := by
  funext m
  simp only [Listed, List.mem_append, List.mem_singleton, or_and_right, exists_or,
    exists_eq_left, hd, Except.ok.injEq]
  simp

/-- When the types are defined, functions have the linkage of their methods and no blocks yet. -/
theorem booked_of_compileTypes (hnames : NamesDistinct asm) {module : Module}
    (hmodule : module.functions = #[]) {declared : Session}
    (hdeclare : declareTypes asm { module } = .ok () declared)
    (hdefine : compileTypes asm declared = .ok () s) :
    ∃ begun, s.Booked asm (Listed asm []) begun := by
  have hconstructing : Constructing asm Change.Local (Session.Ledger asm
      (LinkedAfter asm (Listed asm [])) (fun _ => False) fun _ => False) (fun _ _ => True) :=
    Session.Ledger.constructing hnames
  have hunlisted {m : MethodId} : ¬ Listed asm [] m := by simp [Listed]
  have hstart : Session.Ledger asm (LinkedAfter asm (Listed asm [])) (fun _ => False)
      (fun _ => False) { module } := by
    refine ⟨fun h => ?_, fun _ h => ?_, fun _ => .inl ⟨fun h => ?_, fun _ => rfl⟩, fun h => ?_, ?_⟩
    · cases h
    · obtain ⟨_, -, h⟩ := h
      cases h
    · exact (hunlisted h.1).elim
    · simp [hmodule] at h
    · exact False.elim
  have hdeclares : Upholds (Session.Ledger asm (LinkedAfter asm (Listed asm [])) (fun _ => False)
      fun _ => False) (fun _ _ => True) (declareTypes asm) := inferInstance
  have hdefines : Upholds (Session.Ledger asm (LinkedAfter asm (Listed asm [])) (fun _ => False)
      fun _ => False) (fun _ _ => True) (compileTypes asm) := inferInstance
  exact ⟨fun _ => False, hdefines.ok (hdeclares.ok hstart hdeclare) hdefine,
    fun h => (hunlisted h).elim, fun h => (hunlisted h).elim⟩

set_option synthInstance.maxSize 256 in
/-- The function that runs the static constructors has blocks, and is the function of no method that
was compiled. -/
theorem ledger_of_emitStaticInit {linkage : MethodId → MethodDef → Linkage → Prop}
    {begun : FunctionId → Prop} {methods : List MethodId} {name : String}
    (hnames : NamesDistinct asm) (hs : s.Ledger asm linkage begun fun _ => False)
    (h : emitStaticInit asm settings methods s = .ok name s') :
    ∃ f, s.module.functions.size ≤ f.index ∧
      s'.Ledger asm linkage (fun g => begun g ∨ g = f) (· = f) := by
  rw [emitStaticInit_eq, emitInit_eq] at h
  simp only [bind_assoc, pure_bind] at h
  obtain ⟨f, declared, hdeclare, h⟩ := bind_eq_ok_iff.mp h
  obtain ⟨entry, t, hentry, h⟩ := bind_eq_ok_iff.mp h
  obtain ⟨hle, hdeclared⟩ : s.module.functions.size ≤ f.index ∧
      declared.Ledger asm linkage begun (· = f) := by
    obtain ⟨void, type, m₁, m₃, r, hvoid, ⟨m₂, htype, hadd⟩, hregister, rfl⟩ :=
      declareInit_eq_ok hdeclare
    have htyping : Upholds (Session.Ledger asm linkage begun fun _ => False) (fun _ _ => True) (do
        let void ← Build.voidType
        Build.functionType void [] : Lower TypeId) := inferInstance
    have hlater : Keeps (Session.Later asm) (do
        let void ← Build.voidType
        Build.functionType void [] : Lower TypeId) := inferInstance
    have htyped : (do
        let void ← Build.voidType
        Build.functionType void [] : Lower TypeId) s = .ok type { s with module := m₂ } := by
      simp only [bind_eq_ok_iff, Lower.liftM_build, Lower.build_eq_ok_iff]
      exact ⟨void, _, ⟨m₁, hvoid, rfl⟩, m₂, htype, rfl⟩
    obtain ⟨rfl, params, value, hfunctions⟩ := Build.addFunction_functions hadd
    obtain ⟨hnew, rfl⟩ := Registering.addFunction_eq_ok hregister
    refine ⟨(hlater.run htyped).module.functions_le, ?_⟩
    exact Session.Ledger.register (htyping.ok hs htyped) hnew hfunctions rfl (fun _ => False.elim)
      (fun _ _ h => absurd rfl h) fun h => absurd rfl h
  have hanswering : Answering asm Change.Local
      (Session.Ledger asm linkage (fun g => begun g ∨ g = f) (· = f)) (fun _ _ => True) :=
    Session.Ledger.answering hnames
  have hreturning : Keeps (Module.Evolves Change.Local) (Build.ret none) := by
    have hends : Keeps (Module.Evolves (Change.EndsBy (.ret none))) (Build.ret none) :=
      inferInstance
    exact ⟨fun h => (hends.run h).mono fun c hc => by
      cases c <;> first | exact trivial | exact hc.elim⟩
  have hrest : Upholds (Session.Ledger asm linkage (fun g => begun g ∨ g = f) (· = f))
      (fun _ _ => True) (do
        Build.positionAtEnd entry
        callCctors asm methods (← get).registry.cctors
        Build.ret none
        Lower.finish settings f
        return Names.staticInit settings.moduleName : Lower String) := by
    have hfinish : Upholds (Session.Ledger asm linkage (fun g => begun g ∨ g = f) (· = f))
        (fun _ _ => True) (Lower.finish settings f) := Session.Ledger.upholds_finish
    unfold callCctors
    infer_instance
  exact ⟨f, hle, hrest.ok (hdeclared.append hentry) h⟩

theorem namesDistinct_of_nodup (h : (asm.methodIds.map (Names.method asm)).Nodup) :
    NamesDistinct asm := by
  intro m m' name hname hname'
  have hmem {m : MethodId} (hname : Names.method asm m = .ok name) : m ∈ asm.methodIds := by
    obtain ⟨d, -, -, -, hd, -⟩ := method_eq_ok hname
    have hlt := (Array.getElem?_eq_some_iff.mp (Arena.entry_eq_ok_iff.mp hd)).1
    exact List.mem_map.mpr ⟨m.index, List.mem_range.mpr hlt, rfl⟩
  exact List.inj_on_of_nodup_map h (hmem hname) (hmem hname') (hname.trans hname'.symm)

/-- A method with a body is in order if it is not left alone. -/
theorem lowers_of_listed {d : MethodDef} {body : MethodBody} {name : String}
    (hname : Names.method asm m = .ok name) (hd : asm.method m = .ok d) (hbody : d.body = some body)
    (hlisted : Listed asm asm.userTypes m) (hdefault : ¬ DefaultConstructor asm d)
    (hsupport : bodySupport body.instructions = .full) : Lowers asm m body := by
  obtain ⟨d', result, owner, params, hd', -, howner, -⟩ := method_eq_ok hname
  obtain rfl := Except.ok.inj (hd.symm.trans hd')
  obtain ⟨kind, hkind⟩ : ∃ kind, asm.kindOf d.declaringType = .ok kind := by
    simp only [Names.sig, Assembly.sigName, Assembly.typeName, exceptBind_eq_ok_iff,
      exceptPure_eq_ok_iff] at howner
    obtain ⟨_, ⟨t, ht, -⟩, -⟩ := howner
    exact ⟨t.kind, by simp [Assembly.kindOf, ht]⟩
  refine ⟨hlisted, ⟨d, kind, hd, hbody, hkind, ?_⟩, hsupport⟩
  rw [Bool.eq_false_iff]
  intro hneeded
  simp only [Bool.and_eq_true, List.isEmpty_iff, decide_eq_true_eq] at hneeded
  exact hdefault ⟨hneeded.1.1, hneeded.1.2, hneeded.2 ▸ hkind⟩

theorem linkageOf_eq_internal_iff {d : MethodDef} :
    linkageOf d = .internal ↔ d.body.isSome ∧ d.visibility ≠ .publicAccess := by
  unfold linkageOf
  cases d.body <;> simp

/-- A function without blocks is internal only if its method is never compiled. -/
theorem Session.Booked.internal_iff {begun begun' spare : FunctionId → Prop} {d : MethodDef}
    {function : Function} (hs : s.Booked asm (Listed asm asm.userTypes) begun)
    (hlater : Session.Later asm s s')
    (hs' : s'.Ledger asm (LinkedAfter asm (Listed asm asm.userTypes)) begun' spare)
    (hbegun : ∀ f, begun f → begun' f) (hspare : ¬ spare f) (hf : s'.FunctionOf asm m f)
    (hd : asm.method m = .ok d) (hfunction : s'.module.functions[f.index]? = some function)
    (hempty : function.blocks = []) :
    function.linkage = .internal ↔ d.body.isSome ∧ d.visibility ≠ .publicAccess ∧
      (DefaultConstructor asm d ∨ ¬ Listed asm asm.userTypes m) := by
  have hlinked := hs'.linked hd hf hspare hfunction
  by_cases hpostponed : Listed asm asm.userTypes m ∧ Postponed asm d
  · have hnever : ¬ (DefaultConstructor asm d ∨ ¬ Listed asm asm.userTypes m) := by
      rintro (hdefault | hunlisted)
      · exact hpostponed.2.1 hdefault
      · exact hunlisted hpostponed.1
    simp [hlinked.1 hpostponed, hnever]
  · rw [hlinked.2 hpostponed, linkageOf_eq_internal_iff, ← and_assoc]
    refine ⟨fun h => ⟨h, ?_⟩, And.left⟩
    by_contra hcompiled
    obtain ⟨hdefault, hlisted⟩ := not_or.mp hcompiled
    rw [not_not] at hlisted
    obtain ⟨body, hbody⟩ := Option.isSome_iff_exists.mp h.1
    cases hsupport : bodySupport body.instructions with
    | refused opcode => exact hs.support hlisted hd hbody hdefault hsupport
    | deferred opcode => exact hpostponed ⟨hlisted, hdefault, body, opcode, hbody, hsupport⟩
    | full =>
        obtain ⟨name, hname, -⟩ := id hf
        have hlowers := lowers_of_listed hname hd hbody hlisted hdefault hsupport
        obtain ⟨f', hf', hfilled⟩ := hs.bodies hlisted hlowers
        obtain rfl := hf.unique (hf'.later hlater)
        obtain ⟨found, hfound, hblocks⟩ := hs'.filled (hbegun _ hfilled)
        obtain rfl := Option.some.inj (hfunction.symm.trans hfound)
        exact hblocks hempty

/-- The linkage of the functions of a program whose methods have distinct names.  A method whose
body is emitted has a function with blocks, which is external if and only if the method is public.
A function without blocks belongs to a method, and it is external, except if the method has a body,
is not public, and is never compiled: since no type lists it, or since it is a constructor of a
struct without parameters. -/
theorem linkage_of_compileProgram {report : Report} (hnames : NamesDistinct asm)
    (h : compileProgram asm settings { module := { name := settings.moduleName } } = .ok report s) :
    (∀ m body d, Lowers asm m body → asm.method m = .ok d → ∃ f function, s.FunctionOf asm m f ∧
      s.module.functions[f.index]? = some function ∧ function.blocks ≠ [] ∧
        function.linkage = if d.visibility = .publicAccess then .external else .internal) ∧
    ∀ (f : FunctionId) function, s.module.functions[f.index]? = some function →
      function.blocks = [] → ∃ m d, s.FunctionOf asm m f ∧ asm.method m = .ok d ∧
        (function.linkage = .internal ↔ d.body.isSome ∧ d.visibility ≠ .publicAccess ∧
          (DefaultConstructor asm d ∨ ¬ Listed asm asm.userTypes m)) := by
  obtain ⟨declared, defined, hdeclare, hdefine, hbodies⟩ := compileProgram_eq_ok h
  obtain ⟨p, s₁, name, htypes, hinit, -⟩ := compileBodies_eq_ok hbodies
  obtain ⟨begun, hbooked⟩ : ∃ begun, s₁.Booked asm (Listed asm asm.userTypes) begun := by
    refine motive_of_foldlM
      (motive := fun types _ s => ∃ begun, s.Booked asm (Listed asm types) begun)
      (fun {types ty p p' s s'} hs h => ?_) []
      (booked_of_compileTypes hnames rfl hdeclare hdefine) htypes
    obtain ⟨d, hd, -⟩ := compileMethodsOf_eq_ok h
    rw [listed_append hd]
    exact booked_of_compileMethodsOf hnames hs hd h
  obtain ⟨init, hinitial, hledger⟩ := ledger_of_emitStaticInit hnames hbooked.ledger hinit
  have hlater : Session.Later asm s₁ s := Keeps.run hinit
  refine ⟨fun m body d hlowers hd => ?_, fun f function hfunction hempty => ?_⟩
  · obtain ⟨f, hf, hbegun⟩ := hbooked.bodies hlowers.listed hlowers
    obtain ⟨old, hold, -⟩ := hbooked.ledger.filled hbegun
    have hlt := (Array.getElem?_eq_some_iff.mp hold).1
    have hne : f ≠ init := by
      rintro rfl
      omega
    obtain ⟨function, hfunction, hblocks⟩ := hledger.filled (.inl hbegun)
    obtain ⟨hbody, -⟩ := hlowers.not_defaultConstructor hd
    have hpostponed : ¬ Postponed asm d := by
      rintro ⟨-, body', opcode, hbody', hsupport⟩
      obtain rfl := Option.some.inj (hbody.symm.trans hbody')
      cases hlowers.support.symm.trans hsupport
    have hlinked := hledger.linked hd (hf.later hlater) hne hfunction
    refine ⟨f, function, hf.later hlater, hfunction, hblocks, ?_⟩
    simp [hlinked.2 fun h => hpostponed h.2, linkageOf, hbody]
  · have hne : f ≠ init := by
      rintro rfl
      obtain ⟨found, hfound, hblocks⟩ := hledger.filled (.inr rfl)
      obtain rfl := Option.some.inj (hfunction.symm.trans hfound)
      exact hblocks hempty
    obtain ⟨m, hf⟩ := hledger.owner hfunction hempty hne
    obtain ⟨name', hname, -⟩ := id hf
    obtain ⟨d, -, -, -, hd, -⟩ := method_eq_ok hname
    exact ⟨m, d, hf, hd,
      hbooked.internal_iff hlater hledger (fun _ => .inl) hne hf hd hfunction hempty⟩

/-- A method that calls the constructor of a struct, which has a body and is not public. -/
def resetter : Assembly :=
  let roots := Assembly.ofName "resetter"
  let main : MethodBody := {
    locals := [.named ⟨4⟩]
    instructions := [{ opcode := .ldlocaS, operand := .loc 0 },
      { opcode := .call, operand := .method ⟨1⟩ }, { opcode := .ret }] }
  { roots with
    types := roots.types ++ #[
      { TypeDef.ofKind .classType "" "C" with base := some ⟨0⟩, methods := [⟨0⟩] },
      { TypeDef.ofKind .structType "" "S" with base := some ⟨1⟩, methods := [⟨1⟩] }]
    methods := #[⟨"Main", ⟨3⟩, [], .void, ⟨MethodFlags.static⟩, .publicAccess, some main⟩,
      ⟨".ctor", ⟨4⟩, [], .void, {}, .internalAccess,
        some { instructions := [{ opcode := .ret }] }⟩] }

/-- The state once it is compiled. -/
def resetterCompiled : Session :=
  stateOf (compileProgram resetter {} { module := { name := "module" } })

/-- The function of the constructor is internal, and it has no blocks. -/
theorem resetter_linkage :
    resetter.validate = .ok () ∧ NamesDistinct resetter ∧
      compileProgram resetter {} { module := { name := "module" } } =
        .ok { compiled := ["C::Main"], skipped := [("S::.ctor", .defaultConstructor)],
              staticInit := "module_static_init" } resetterCompiled ∧
      resetterCompiled.module.functions.toList.map
        (fun function => (function.name, function.linkage, function.blocks)) =
          [("System_Void_C_Main_", .external, [⟨0⟩, ⟨1⟩]), ("System_Void_S__ctor_", .internal, []),
            ("module_static_init", .external, [⟨2⟩])] ∧
      ∃ m d, resetterCompiled.FunctionOf resetter m ⟨1⟩ ∧ resetter.method m = .ok d ∧
        d.body.isSome ∧ d.visibility ≠ .publicAccess ∧
          (DefaultConstructor resetter d ∨ ¬ Listed resetter resetter.userTypes m) := by
  have hnames : NamesDistinct resetter := namesDistinct_of_nodup (by decide +kernel)
  have hcompile : compileProgram resetter {} { module := { name := "module" } } =
      .ok { compiled := ["C::Main"], skipped := [("S::.ctor", .defaultConstructor)],
            staticInit := "module_static_init" } resetterCompiled :=
    outcome?_eq_some_iff.mp (by decide +kernel)
  have hfunctions : resetterCompiled.module.functions.toList.map
      (fun function => (function.name, function.linkage, function.blocks)) =
        [("System_Void_C_Main_", .external, [⟨0⟩, ⟨1⟩]), ("System_Void_S__ctor_", .internal, []),
          ("module_static_init", .external, [⟨2⟩])] := by decide +kernel
  obtain ⟨function, hfunction⟩ : ∃ function, resetterCompiled.module.functions[1]? =
      some function :=
    Option.isSome_iff_exists.mp (by decide +kernel)
  have hstored : (resetterCompiled.module.functions[1]?.map fun function =>
      (function.linkage, function.blocks)) = some (.internal, []) := by decide +kernel
  rw [hfunction] at hstored
  obtain ⟨hlinkage, hblocks⟩ := Prod.mk.inj (Option.some.inj hstored)
  obtain ⟨m, d, hf, hd, hiff⟩ :=
    (linkage_of_compileProgram hnames hcompile).2 ⟨1⟩ function hfunction hblocks
  exact ⟨by decide +kernel, hnames, hcompile, hfunctions, m, d, hf, hd, hiff.mp hlinkage⟩

end Programs

end Lowering

end CilSsa
