import CilSsa.Lowering.Method
import CilSsa.Proofs.Builder

/-!
Modules with fewer blocks.

Some blocks of the functions of a module, and the entries of phis that come from them, can be left
out.  The builder does not see the difference: what it does to the thinner module, and whether it
stops, is what it does to the whole one.
-/

namespace CilSsa

def mapState {ε σ α : Type} (g : σ → σ) : EStateM.Result ε σ α → EStateM.Result ε σ α
  | .ok a s => .ok a (g s)
  | .error e s => .error e (g s)

/-- An action does not see a change of the state, as long as the state has some property: it makes
no difference whether the change comes before it or after it. -/
class Commutes {ε σ α : Type} (g : σ → σ) (I : σ → Prop) (x : EStateM ε σ α) : Prop where
  run : ∀ {s : σ}, I s → x (g s) = mapState g (x s)
  stays : ∀ {s : σ} {a : α} {s' : σ}, I s → x s = .ok a s' → I s'

namespace Commutes

variable {ε σ α β : Type} {g : σ → σ} {I : σ → Prop}

section Sequences

instance pure (a : α) : Commutes g I (pure a : EStateM ε σ α) where
  run _ := rfl
  stays hs h := by
    obtain ⟨-, rfl⟩ := pure_eq_ok_iff.mp h
    exact hs

/-- What comes second may rely on what is true of every result of what comes first. -/
theorem seqOf {P : α → Prop} {x : EStateM ε σ α} {f : α → EStateM ε σ β} (hx : Commutes g I x)
    (hP : ∀ {s : σ} {a : α} {s' : σ}, I s → x s = .ok a s' → P a)
    (hf : ∀ a, P a → Commutes g I (f a)) : Commutes g I (x >>= f) where
  run {s} hs := by
    change EStateM.bind x f (g s) = mapState g (EStateM.bind x f s)
    unfold EStateM.bind
    rw [hx.run hs]
    cases hfirst : x s with
    | ok a s' => exact (hf a (hP hs hfirst)).run (hx.stays hs hfirst)
    | error e s' => rfl
  stays hs h := by
    obtain ⟨a, t, hfirst, hthen⟩ := bind_eq_ok_iff.mp h
    exact (hf a (hP hs hfirst)).stays (hx.stays hs hfirst) hthen

theorem seq {x : EStateM ε σ α} {f : α → EStateM ε σ β} (hx : Commutes g I x)
    (hf : ∀ a, Commutes g I (f a)) : Commutes g I (x >>= f) :=
  seqOf (P := fun _ => True) hx (fun _ _ => trivial) fun a _ => hf a

instance bind (x : EStateM ε σ α) (f : α → EStateM ε σ β) [hx : Commutes g I x]
    [hf : ∀ a, Commutes g I (f a)] : Commutes g I (x >>= f) :=
  seq hx hf

instance map (h : α → β) (x : EStateM ε σ α) [hx : Commutes g I x] : Commutes g I (h <$> x) where
  run {s} hs := by
    change EStateM.map h x (g s) = mapState g (EStateM.map h x s)
    unfold EStateM.map
    rw [hx.run hs]
    cases x s <;> rfl
  stays hs h := by
    obtain ⟨a, h, -⟩ := map_eq_ok_iff.mp h
    exact hx.stays hs h

instance throw (e : ε) : Commutes g I (throw e : EStateM ε σ α) where
  run _ := rfl
  stays _ h := absurd h (by simp)

instance ite (c : Prop) [Decidable c] (x y : EStateM ε σ α) [hx : Commutes g I x]
    [hy : Commutes g I y] : Commutes g I (if c then x else y) :=
  iteInduction (fun _ => hx) fun _ => hy

/-- What depends on a part of the state that the change leaves alone. -/
theorem getBindOf {f : σ → EStateM ε σ β} (hsame : ∀ s, f (g s) = f s)
    (hf : ∀ s, I s → Commutes g I (f s)) : Commutes g I (get >>= f) where
  run {s} hs := by
    change f (g s) (g s) = mapState g (f s s)
    rw [hsame]
    exact (hf s hs).run hs
  stays {s _ _} hs h := (hf s hs).stays hs (getBind_eq_ok_iff.mp h)

theorem getBind {f : σ → EStateM ε σ β} (hsame : ∀ s, f (g s) = f s)
    (hf : ∀ s, Commutes g I (f s)) : Commutes g I (get >>= f) :=
  getBindOf hsame fun s _ => hf s

theorem modify {h : σ → σ} (hsame : ∀ s, I s → h (g s) = g (h s)) (hI : ∀ s, I s → I (h s)) :
    Commutes g I (modify h : EStateM ε σ PUnit) where
  run {s} hs := congrArg (EStateM.Result.ok PUnit.unit) (hsame s hs)
  stays {s} _ _ hs hrun := by
    obtain rfl := modify_eq_ok_iff.mp hrun
    exact hI s hs

end Sequences

section Loops

theorem composes : Composes fun (α : Type) (x : EStateM ε σ α) => Commutes g I x := ⟨pure, seq⟩

instance mapM (f : α → EStateM ε σ β) [hf : ∀ a, Commutes g I (f a)] (items : List α) :
    Commutes g I (items.mapM f) :=
  composes.mapM fun a _ => hf a

/-- Each result of a loop is one of a step. -/
theorem forall_of_mapM {f : α → EStateM ε σ β} {P : β → Prop} (hf : ∀ a, Commutes g I (f a))
    (hP : ∀ {a : α} {s : σ} {b : β} {s' : σ}, I s → f a s = .ok b s' → P b) {items : List α} {s : σ}
    {results : List β} {s' : σ} (hs : I s) (h : items.mapM f s = .ok results s') :
    ∀ b ∈ results, P b := by
  induction items generalizing s results s' with
  | nil =>
      rw [List.mapM_nil] at h
      obtain ⟨rfl, -⟩ := pure_eq_ok_iff.mp h
      simp
  | cons item rest ih =>
      rw [List.mapM_cons] at h
      simp only [bind_eq_ok_iff, pure_eq_ok_iff] at h
      obtain ⟨first, t, hfirst, others, t', hrest, rfl, -⟩ := h
      exact List.forall_mem_cons.mpr ⟨hP hs hfirst, ih ((hf item).stays hs hfirst) hrest⟩

instance forM (f : α → EStateM ε σ PUnit) [hf : ∀ a, Commutes g I (f a)] (items : List α) :
    Commutes g I (items.forM f) :=
  composes.forM fun a _ => hf a

end Loops

end Commutes

/-- A change of an entry, and then of all entries. -/
theorem modify_map_comm {α β : Type} {T : α → β} {f : α → α} {g : β → β} {entries : Array α}
    {i : Nat} (h : ∀ a, entries[i]? = some a → g (T a) = T (f a)) :
    (entries.map T).modify i g = (entries.modify i f).map T := by
  apply Array.ext_getElem?
  intro j
  simp only [Array.getElem?_modify, Array.getElem?_map]
  split
  · rename_i hij
    subst hij
    cases hentry : entries[i]? with
    | none => rfl
    | some a => simp [h a hentry]
  · rfl

namespace Ssa

/-- The phi of a block that is kept, without entries from blocks that are not; any other value as it
is. -/
def Value.thin (keep : BlockId → Bool) (v : Value) : Value :=
  match v.kind with
  | .inst (some b) (.phi incoming) =>
      { v with kind := .inst (some b) (.phi
          (if keep b then incoming.filter fun (_, source) => keep source else incoming)) }
  | _ => v

/-- The function without blocks that are not kept. -/
def Function.thin (keep : BlockId → Bool) (f : Function) : Function :=
  { f with blocks := f.blocks.filter keep }

namespace Module

variable {keep : BlockId → Bool}

/-- The module without blocks that are not kept, and without phi entries from them. -/
def thin (keep : BlockId → Bool) (m : Module) : Module :=
  { m with
    functions := m.functions.map (Function.thin keep)
    values := m.values.map (Value.thin keep) }

/-- All blocks to come are kept. -/
def Keeping (keep : BlockId → Bool) (m : Module) : Prop :=
  ∀ b : BlockId, m.blocks.size ≤ b.index → keep b = true

end Module

theorem Value.type_thin (keep : BlockId → Bool) (v : Value) : (v.thin keep).type = v.type := by
  unfold Value.thin
  split <;> rfl

theorem Value.thin_of_not_isPhi {keep : BlockId → Bool} {v : Value}
    (h : v.inst?.map Inst.isPhi ≠ some true) : v.thin keep = v := by
  unfold Value.thin
  split
  · rename_i hkind
    simp [Value.inst?, hkind, Inst.isPhi] at h
  · rfl

/-- A value is a phi, and stays one with other entries, or stays as it is. -/
theorem Value.thin_cases (keep : BlockId → Bool) (v : Value) :
    (∃ type place incoming incoming', v = ⟨type, .inst place (.phi incoming)⟩ ∧
      v.thin keep = ⟨type, .inst place (.phi incoming')⟩) ∨ v.thin keep = v := by
  obtain ⟨type, kind⟩ := v
  cases kind with
  | inst place inst =>
      cases inst with
      | phi incoming => cases place <;> exact .inl ⟨type, _, incoming, _, rfl, rfl⟩
      | _ => exact .inr (Value.thin_of_not_isPhi (by simp [Value.inst?, Inst.isPhi]))
  | _ => exact .inr rfl

theorem Value.isPhi_thin (keep : BlockId → Bool) (v : Value) :
    (v.thin keep).inst?.map Inst.isPhi = v.inst?.map Inst.isPhi := by
  unfold Value.thin
  split
  · rename_i hkind
    simp [Value.inst?, hkind, Inst.isPhi]
  · rfl

namespace Module

variable {keep : BlockId → Bool} {m : Module} {α β : Type}

/-- A question that does not concern the blocks of functions and the entries of phis. -/
class Blind (keep : BlockId → Bool) (ask : Module → Except Fault α) : Prop where
  same : ∀ m, ask (m.thin keep) = ask m

section Questions

theorem value_thin (id : ValueId) : (m.thin keep).value id = Value.thin keep <$> m.value id := by
  simp only [Module.value, Arena.entry, thin, Array.getElem?_map]
  cases m.values[id.index]? <;> rfl

theorem function_thin (id : FunctionId) :
    (m.thin keep).function id = Function.thin keep <$> m.function id := by
  simp only [Module.function, Arena.entry, thin, Array.getElem?_map]
  cases m.functions[id.index]? <;> rfl

theorem isPhi_thin (id : ValueId) : Build.isPhi (m.thin keep) id = Build.isPhi m id := by
  simp only [Build.isPhi, thin, Array.getElem?_map]
  cases m.values[id.index]? with
  | none => rfl
  | some v => simp [Value.isPhi_thin]

theorem functionNamed?_thin (name : String) :
    (m.thin keep).functionNamed? name = m.functionNamed? name := by
  simp only [functionNamed?, functionIds, thin, Array.size_map, Array.getElem?_map, Option.map_map]
  rfl

theorem globalName?_thin (id : ValueId) : (m.thin keep).globalName? id = m.globalName? id := by
  simp only [globalName?, thin, Array.getElem?_map]
  cases m.values[id.index]? with
  | none => rfl
  | some v =>
      obtain ⟨type, kind⟩ := v
      cases kind with
      | inst place inst => cases place <;> cases inst <;> rfl
      | _ => rfl

theorem globalNamed?_thin (name : String) :
    (m.thin keep).globalNamed? name = m.globalNamed? name := by
  simp only [globalNamed?, globalName?_thin]
  rfl

/-- What is asked of a value is the same if it does not concern the entries of a phi. -/
theorem Blind.of_value {id : ValueId} {f : Value → Except Fault α}
    (h : ∀ v, f (v.thin keep) = f v) : Blind keep fun m => m.value id >>= f where
  same m := by
    simp only [value_thin]
    cases m.value id with
    | error fault => rfl
    | ok v => exact h v

instance (id : ValueId) : Blind keep fun m => m.typeOf id :=
  Blind.of_value fun v => by rw [Value.type_thin]

instance (id : TypeId) : Blind keep fun m => m.classify id := ⟨fun _ => rfl⟩

instance (id : TypeId) : Blind keep fun m => m.pointee? id := ⟨fun _ => rfl⟩

instance (id : TypeId) : Blind keep fun m => m.signature? id := ⟨fun _ => rfl⟩

theorem extentWith_thin (fuel : Nat) : (m.thin keep).extentWith fuel = m.extentWith fuel := by
  induction fuel with
  | zero => rfl
  | succ fuel ih =>
      funext id
      simp only [extentWith, ih]
      rfl

instance (id : TypeId) : Blind keep fun m => m.sizeOf id where
  same m := by
    simp only [sizeOf, extentOf, extentWith_thin]
    rfl

instance (id : BlockId) : Blind keep fun m => m.block id := ⟨fun _ => rfl⟩

instance (id : BlockId) : Blind keep fun m => m.isTerminated id := ⟨fun _ => rfl⟩

instance : Blind keep currentFunction := ⟨fun _ => rfl⟩

instance (id : ValueId) : Blind keep fun m => m.classOf id where
  same m := by
    rw [classOf, classOf, (inferInstance : Blind keep fun m => m.typeOf id).same]
    rfl

/-- A question about values other than phis. -/
theorem Blind.of_kind {id : ValueId} {f : Value → Except Fault α} {a : Except Fault α}
    (h : ∀ type place incoming, f ⟨type, .inst place (.phi incoming)⟩ = a) :
    Blind keep fun m => m.value id >>= f := by
  refine Blind.of_value fun v => ?_
  obtain ⟨type, place, incoming, incoming', rfl, hthin⟩ | hthin := v.thin_cases keep
  · rw [hthin, h, h]
  · rw [hthin]

instance (id : ValueId) : Blind keep fun m => m.constInt? id := Blind.of_kind fun _ _ _ => rfl

instance (id : ValueId) : Blind keep fun m => m.constFloat? id := Blind.of_kind fun _ _ _ => rfl

instance (id : ValueId) : Blind keep fun m => m.isConstant id :=
  Blind.of_kind (a := .ok false) fun _ _ _ => rfl

/-- What is asked of a function is the same if it does not concern its blocks. -/
theorem Blind.of_function {id : FunctionId} {f : Function → Except Fault α}
    (h : ∀ function, f (function.thin keep) = f function) :
    Blind keep fun m => m.function id >>= f where
  same m := by
    simp only [function_thin]
    cases m.function id with
    | error fault => rfl
    | ok function => exact h function

instance (id : FunctionId) (index : Nat) : Blind keep fun m => m.param id index :=
  Blind.of_function fun _ => rfl

instance (type : TypeId) (index : Nat) : Blind keep (Build.member? type index) := ⟨fun _ => rfl⟩

instance (id : FunctionId) (value : Option ValueId) : Blind keep (Build.returnFits id value) where
  same m := by
    unfold Build.returnFits
    rw [function_thin]
    cases m.function id with
    | error fault => rfl
    | ok function =>
        cases value with
        | none => rfl
        | some value =>
            have htype := (inferInstance : Blind keep fun m => m.typeOf value).same m
            simp only [htype]
            rfl

end Questions

end Module

namespace Build

open Ssa.Module

variable {keep : BlockId → Bool} {α β : Type}

/-- An action of the builder that does not see which blocks are kept. -/
abbrev Overlooks (keep : BlockId → Bool) (x : Build α) : Prop :=
  Commutes (Module.thin keep) (Module.Keeping keep) x

section Questions

instance (ask : Module → Except Fault α) [hask : Blind keep ask] : Overlooks keep (query ask) where
  run {m} _ := by
    unfold query
    rw [hask.same]
    cases ask m <;> rfl
  stays hm h := by
    obtain ⟨-, rfl⟩ := query_eq_ok_iff.mp h
    exact hm

instance (question : Except Fault α) : Overlooks keep (ask question) :=
  have : Blind keep fun _ => question := ⟨fun _ => rfl⟩
  inferInstanceAs (Overlooks keep (query fun _ => question))

/-- An answer that is thinner makes no difference if the difference is not looked at. -/
theorem query_overlooks {ask : Module → Except Fault α} {T : α → α} {f : α → Build β}
    (hask : ∀ m, ask (m.thin keep) = T <$> ask m) (hsame : ∀ a, f (T a) = f a)
    (hf : ∀ a, Overlooks keep (f a)) : Overlooks keep (query ask >>= f) where
  run {m} hm := by
    change EStateM.bind (query ask) f (m.thin keep) = mapState _ (EStateM.bind (query ask) f m)
    unfold EStateM.bind query
    rw [hask]
    cases ask m with
    | error fault => rfl
    | ok a =>
        change f (T a) (m.thin keep) = mapState _ (f a m)
        rw [hsame]
        exact (hf a).run hm
  stays hm h := by
    obtain ⟨a, _, hquery, hthen⟩ := bind_eq_ok_iff.mp h
    obtain ⟨-, rfl⟩ := query_eq_ok_iff.mp hquery
    exact (hf a).stays hm hthen

end Questions

section Additions

/-- A change that touches neither the functions, nor the values, nor the blocks. -/
theorem modify_overlooks {h : Module → Module} (hsame : ∀ m, h (m.thin keep) = (h m).thin keep)
    (hblocks : ∀ m, m.blocks.size ≤ (h m).blocks.size) :
    Overlooks keep (modify h : Build PUnit) :=
  Commutes.modify (fun m _ => hsame m) fun m hm b hb => hm b (Nat.le_trans (hblocks m) hb)

instance (type : IrType) : Overlooks keep (intern type) where
  run {m} _ := by
    unfold intern
    change (match m.types.idxOf? type with
      | some index => _
      | none => _) = _
    cases m.types.idxOf? type <;> rfl
  stays hm h := by
    unfold intern at h
    split at h <;>
    · cases h
      exact hm

instance (bits : Nat) : Overlooks keep (intType bits) := by
  unfold intType
  infer_instance

instance (bits : Nat) : Overlooks keep (floatType bits) := by
  unfold floatType
  infer_instance

instance (pointee : TypeId) : Overlooks keep (pointerType pointee) := by
  unfold pointerType
  infer_instance

instance : Overlooks keep voidType := by
  unfold voidType
  infer_instance

instance (element : TypeId) (length : Nat) : Overlooks keep (arrayType element length) := by
  unfold arrayType
  infer_instance

instance (result : TypeId) (params : List TypeId) :
    Overlooks keep (functionType result params) := by
  unfold functionType
  infer_instance

instance : Overlooks keep genericPointer := by
  unfold genericPointer
  infer_instance

instance (misuse : Misuse) : Overlooks keep (record misuse) := by
  unfold record
  exact Commutes.seq inferInstance fun function =>
    modify_overlooks (fun _ => rfl) fun _ => Nat.le_refl _

/-- A value without phi entries is added. -/
theorem pushValue_overlooks {type : TypeId} {kind : ValueKind}
    (h : Value.thin keep ⟨type, kind⟩ = ⟨type, kind⟩) : Overlooks keep (pushValue type kind) where
  run {m} _ := by
    simp only [pushValue, mapState, thin, Array.size_map, Array.map_push, h]
  stays hm h := by
    cases h
    exact hm

instance (type : TypeId) (value : Int) : Overlooks keep (constInt type value) :=
  pushValue_overlooks rfl

instance (type : TypeId) (value : Numeric.Binary64) : Overlooks keep (constFloat type value) :=
  pushValue_overlooks rfl

instance (type : TypeId) : Overlooks keep (constNull type) := pushValue_overlooks rfl

instance (bits : Nat) (value : Int) : Overlooks keep (constIntOf bits value) := by
  unfold constIntOf
  infer_instance

instance (text : String) : Overlooks keep (constString text) := by
  unfold constString
  refine Commutes.seq inferInstance fun byte => Commutes.seq inferInstance fun content =>
    Commutes.seq (pushValue_overlooks rfl) fun bytes => Commutes.getBind (fun _ => rfl) fun s =>
    Commutes.seq (modify_overlooks (fun _ => rfl) fun _ => Nat.le_refl _) fun _ =>
    Commutes.seq inferInstance fun pointer => Commutes.seq (pushValue_overlooks rfl) fun global =>
    Commutes.seq (modify_overlooks (fun _ => rfl) fun _ => Nat.le_refl _) fun _ => inferInstance

instance (name : String) (content : TypeId) : Overlooks keep (addGlobal name content) := by
  unfold addGlobal
  refine Commutes.seq inferInstance fun zero => Commutes.seq inferInstance fun pointer =>
    Commutes.getBind (fun s => by simp only [globalNamed?_thin]) fun s =>
    Commutes.seq (pushValue_overlooks rfl) fun global =>
    Commutes.seq (modify_overlooks (fun _ => rfl) fun _ => Nat.le_refl _) fun _ => ?_
  infer_instance

instance (function : FunctionId) (index : Nat) (types : List TypeId) :
    Overlooks keep (pushParams function index types) :=
  Commutes.composes.pushParams (fun _ _ => pushValue_overlooks rfl) index types

/-- A function without blocks is added. -/
theorem pushFunction_overlooks {f : Function} (h : f.blocks = []) :
    Overlooks keep
      (modify fun m => { m with functions := m.functions.push f } : Build PUnit) := by
  have hsame : f.thin keep = f := by
    simp only [Function.thin, h, List.filter_nil]
    rw [← h]
  exact modify_overlooks (fun m => by simp only [thin, Array.map_push, hsame])
    fun _ => Nat.le_refl _

instance (name : String) (type : TypeId) : Overlooks keep (paramTypes name type) := by
  unfold paramTypes
  refine Commutes.seq inferInstance fun signature => ?_
  cases signature <;> infer_instance

instance (id : FunctionId) (name : String) (type : TypeId) (linkage : Linkage)
    (types : List TypeId) :
    Overlooks keep (appendFunction id name type linkage types) := by
  unfold appendFunction
  exact Commutes.seq inferInstance fun pointer => Commutes.seq (pushValue_overlooks rfl)
    fun value => Commutes.seq inferInstance fun params =>
    Commutes.getBind (fun s => by simp only [functionNamed?_thin]) fun s =>
    Commutes.seq (pushFunction_overlooks rfl) fun _ => inferInstance

instance (name : String) (type : TypeId) (linkage : Linkage) :
    Overlooks keep (addFunction name type linkage) := by
  rw [addFunction_eq]
  exact Commutes.getBind (fun s => by simp only [thin, Array.size_map]) fun s => inferInstance

instance (id : FunctionId) (linkage : Linkage) : Overlooks keep (setLinkage id linkage) := by
  unfold setLinkage
  refine query_overlooks (fun m => function_thin id) (fun _ => rfl) fun _ =>
    modify_overlooks (fun m => ?_) fun _ => Nat.le_refl _
  have hmap : (m.functions.map (Function.thin keep)).modify id.index (fun f => { f with linkage }) =
      (m.functions.modify id.index fun f => { f with linkage }).map (Function.thin keep) :=
    modify_map_comm fun _ _ => rfl
  exact congrArg (fun functions => { m.thin keep with functions }) hmap

theorem appendBlock_eq (function : FunctionId) (name : String) (m : Module) :
    appendBlock function name m = match m.function function with
      | .ok _ => .ok ⟨m.blocks.size⟩ (m.apply (.addBlock function name))
      | .error fault => .error fault { m with blocks := m.blocks.push { name, function } } := by
  change EStateM.bind (query fun m => m.function function) (fun _ => (do
      modifyFunction function fun f => { f with blocks := f.blocks ++ [⟨m.blocks.size⟩] }
      return ⟨m.blocks.size⟩ : Build BlockId))
        { m with blocks := m.blocks.push { name, function } } = _
  have hsame : Module.function { m with blocks := m.blocks.push { name, function } } function =
      m.function function := rfl
  unfold EStateM.bind query
  dsimp only
  rw [hsame]
  cases m.function function <;> rfl

/-- A block that is kept is added to its function. -/
instance (function : FunctionId) (name : String) : Overlooks keep (appendBlock function name) where
  run {m} hm := by
    have hnew : keep ⟨m.blocks.size⟩ = true := hm _ (Nat.le_refl _)
    have hadd : ((m.functions.map (Function.thin keep)).modify function.index
        fun f => { f with blocks := f.blocks ++ [⟨m.blocks.size⟩] }) =
        (m.functions.modify function.index
          fun f => { f with blocks := f.blocks ++ [⟨m.blocks.size⟩] }).map (Function.thin keep) :=
      modify_map_comm fun f _ => by simp [Function.thin, hnew]
    rw [appendBlock_eq, appendBlock_eq, function_thin]
    cases m.function function with
    | error fault => rfl
    | ok f =>
        exact congrArg (fun functions => (EStateM.Result.ok ⟨m.blocks.size⟩
          { m.thin keep with blocks := m.blocks.push { name, function }, functions } :
            EStateM.Result Fault Module BlockId)) hadd
  stays {m _ _} hm h := by
    obtain ⟨-, rfl, -⟩ := appendBlock_eq_ok h
    intro b hb
    refine hm b (Nat.le_trans (Nat.le_succ _) ?_)
    simpa [apply] using hb

end Additions

section Code

instance (id : BlockId) : Overlooks keep (positionAtEnd id) :=
  modify_overlooks (fun _ => rfl) fun _ => Nat.le_refl _

theorem modifyBlock_overlooks (id : BlockId) (change : Block → Block) :
    Overlooks keep (modifyBlock id change) :=
  modify_overlooks (fun _ => rfl) fun m => by simp

theorem pushInst_overlooks {type : TypeId} {inst : Inst} (h : inst.isPhi = false) :
    Overlooks keep (pushInst type inst) := by
  have hpush (place : Option BlockId) : Overlooks keep (pushValue type (.inst place inst)) :=
    pushValue_overlooks (Value.thin_of_not_isPhi (by simp [Value.inst?, h]))
  have := @modifyBlock_overlooks keep
  unfold pushInst
  refine Commutes.getBind (fun _ => rfl) fun s => ?_
  cases s.position with
  | none => exact Commutes.seq inferInstance fun _ => hpush none
  | some b =>
      dsimp only
      infer_instance

instance (terminator : Terminator) : Overlooks keep (terminate terminator) := by
  have := @modifyBlock_overlooks keep
  unfold terminate
  refine Commutes.getBind (fun _ => rfl) fun s => ?_
  cases s.position <;> infer_instance

instance (op : BinaryOp) (lhs rhs : ValueId) : Overlooks keep (binary op lhs rhs) := by
  have (type : TypeId) : Overlooks keep (pushInst type (.binary op lhs rhs)) :=
    pushInst_overlooks rfl
  unfold binary
  infer_instance

instance (op : UnaryOp) (operand : ValueId) : Overlooks keep (unary op operand) := by
  have (type : TypeId) : Overlooks keep (pushInst type (.unary op operand)) :=
    pushInst_overlooks rfl
  unfold unary
  infer_instance

instance (pred : IntPredicate) (lhs rhs : ValueId) : Overlooks keep (icmp pred lhs rhs) := by
  have (type : TypeId) : Overlooks keep (pushInst type (.icmp pred lhs rhs)) :=
    pushInst_overlooks rfl
  unfold icmp
  infer_instance

instance (pred : FloatPredicate) (lhs rhs : ValueId) : Overlooks keep (fcmp pred lhs rhs) := by
  have (type : TypeId) : Overlooks keep (pushInst type (.fcmp pred lhs rhs)) :=
    pushInst_overlooks rfl
  unfold fcmp
  dsimp only
  infer_instance

instance (op : CastOp) (value : ValueId) (target : TypeId) :
    Overlooks keep (cast op value target) := by
  have (type : TypeId) : Overlooks keep (pushInst type (.cast op value)) := pushInst_overlooks rfl
  unfold cast
  infer_instance

instance (value : ValueId) (target : TypeId) (signed : Bool) :
    Overlooks keep (intCast value target signed) :=
  intCast_of (Commutes.seq inferInstance) (fun _ => Commutes.seq inferInstance) (fun _ =>
    inferInstance)
    inferInstance

instance (type : TypeId) : Overlooks keep (alloca type) := by
  have (pointer : TypeId) : Overlooks keep (pushInst pointer (.alloca type)) :=
    pushInst_overlooks rfl
  unfold alloca
  infer_instance

instance (type : TypeId) (pointer : ValueId) : Overlooks keep (load type pointer) := by
  have (type : TypeId) : Overlooks keep (pushInst type (.load pointer)) := pushInst_overlooks rfl
  unfold load
  infer_instance

instance (pointer value : ValueId) (isVolatile : Bool) :
    Overlooks keep (store pointer value isVolatile) := by
  have (type : TypeId) : Overlooks keep (pushInst type (.store pointer value isVolatile)) :=
    pushInst_overlooks rfl
  unfold store
  infer_instance

instance (type : TypeId) (pointer : ValueId) (index : Nat) :
    Overlooks keep (structGep type pointer index) := by
  have (result : TypeId) : Overlooks keep (pushInst result (.structGep type pointer index)) :=
    pushInst_overlooks rfl
  unfold structGep
  refine Commutes.seq inferInstance fun member => ?_
  cases member <;> infer_instance

instance (element : TypeId) (pointer index : ValueId) :
    Overlooks keep (gep element pointer index) := by
  have (result : TypeId) : Overlooks keep (pushInst result (.gep element pointer index)) :=
    pushInst_overlooks rfl
  unfold gep
  infer_instance

instance (type : TypeId) (count : Option ValueId) : Overlooks keep (heapAlloc type count) := by
  have (result : TypeId) : Overlooks keep (pushInst result (.heapAlloc type count)) :=
    pushInst_overlooks rfl
  unfold heapAlloc
  infer_instance

instance (index : Nat) (args : List ValueId) (params : List TypeId) :
    Overlooks keep (checkArgs index args params) :=
  Commutes.composes.checkArgs (fun _ => inferInstance) (fun _ => inferInstance) index args params

instance (type : TypeId) (callee : Callee) (args : List ValueId) :
    Overlooks keep (buildCall type callee args) := by
  have (result : TypeId) : Overlooks keep (pushInst result (.call callee args)) :=
    pushInst_overlooks rfl
  unfold buildCall
  refine Commutes.seq inferInstance fun signature => ?_
  split
  · infer_instance
  · dsimp only
    infer_instance

instance (function : FunctionId) (args : List ValueId) : Overlooks keep (call function args) := by
  unfold call
  exact query_overlooks (fun _ => function_thin function) (fun _ => rfl) fun _ => inferInstance

instance (type : TypeId) (callee : ValueId) (args : List ValueId) :
    Overlooks keep (callIndirect type callee args) := by
  unfold callIndirect
  infer_instance

instance (target : BlockId) : Overlooks keep (br target) := by
  unfold br
  infer_instance

instance (cond : ValueId) (thenBlock elseBlock : BlockId) :
    Overlooks keep (condBr cond thenBlock elseBlock) := by
  unfold condBr
  infer_instance

instance (value : ValueId) (default : BlockId) (cases : List (Int × BlockId)) :
    Overlooks keep (switch value default cases) := by
  unfold switch
  infer_instance

instance (value : Option ValueId) : Overlooks keep (ret value) := by
  unfold ret
  refine Commutes.seq inferInstance fun function => ?_
  cases function <;> infer_instance

instance : Overlooks keep unreachable := by
  unfold unreachable
  infer_instance

end Code

section Kinds

theorem setKind_overlooks {id : ValueId} {kind : ValueKind}
    (h : ∀ type, Value.thin keep ⟨type, kind⟩ = ⟨type, kind⟩) : Overlooks keep (setKind id kind) :=
  modify_overlooks (fun m => by
    have hmap : (m.values.map (Value.thin keep)).modify id.index (fun v => { v with kind }) =
        (m.values.modify id.index fun v => { v with kind }).map (Value.thin keep) :=
      modify_map_comm fun v _ => by rw [Value.type_thin, h]
    exact congrArg (fun values => { m.thin keep with values }) hmap) fun _ => Nat.le_refl _

instance (global value : ValueId) : Overlooks keep (setInitializer global value) := by
  unfold setInitializer
  refine Commutes.seq inferInstance fun type => Commutes.seq inferInstance fun isConstant =>
    query_overlooks (fun _ => value_thin global) (fun v => ?_) fun v => ?_
  · obtain ⟨type, place, incoming, incoming', rfl, hthin⟩ | hthin :=
      v.thin_cases keep <;> rw [hthin]
  · split
    · have (name : String) (content : TypeId) :
        Overlooks keep (setKind global (.global name content value)) :=
      setKind_overlooks fun _ => rfl
      infer_instance
    · infer_instance

instance (b : BlockId) (type : TypeId) : Overlooks keep (phi b type) := by
  have := @modifyBlock_overlooks keep
  have hsame (m : Module) : isPhi (m.thin keep) = isPhi m := funext fun _ => isPhi_thin _
  have hpush : Overlooks keep (pushValue type (.inst (some b) (.phi []))) :=
    pushValue_overlooks (by simp [Value.thin])
  unfold phi
  exact Commutes.seq hpush fun id => Commutes.seq inferInstance fun block =>
    Commutes.getBind (fun m => by simp only [hsame]) fun m => inferInstance

/-- An entry is added to a phi from a block that is kept. -/
theorem setIncoming_run {phi : ValueId} {source : BlockId} (value : ValueId)
    (h : keep source = true) {m : Module}
    {type : TypeId} {place : Option BlockId} {incoming : List (ValueId × BlockId)}
    (hv : m.values[phi.index]? = some ⟨type, .inst place (.phi incoming)⟩) :
    ∃ incoming', Value.thin keep ⟨type, .inst place (.phi incoming)⟩ =
        ⟨type, .inst place (.phi incoming')⟩ ∧
      setKind phi (.inst place (.phi (incoming' ++ [(value, source)]))) (m.thin keep) =
        mapState (thin keep)
          (setKind phi (.inst place (.phi (incoming ++ [(value, source)]))) m) := by
  obtain ⟨incoming', hthin⟩ : ∃ incoming', ∀ added : List (ValueId × BlockId),
      (∀ e ∈ added, keep e.2 = true) →
        Value.thin keep ⟨type, .inst place (.phi (incoming ++ added))⟩ =
          ⟨type, .inst place (.phi (incoming' ++ added))⟩ := by
    cases place with
    | none => exact ⟨incoming, fun _ _ => rfl⟩
    | some b =>
        refine ⟨if keep b then incoming.filter fun (_, source) => keep source else incoming,
          fun added hadded => ?_⟩
        have hsame : (added.filter fun (_, source) => keep source) = added :=
          List.filter_eq_self.mpr hadded
        cases hb : keep b <;> simp [Value.thin, hb, hsame]
  refine ⟨incoming', by simpa using hthin [] (by simp), ?_⟩
  have hmap : (m.values.map (Value.thin keep)).modify phi.index
        (fun v => { v with kind := .inst place (.phi (incoming' ++ [(value, source)])) }) =
      (m.values.modify phi.index
        fun v => { v with kind := .inst place (.phi (incoming ++ [(value, source)])) }).map
          (Value.thin keep) := by
    refine modify_map_comm fun v hfound => ?_
    obtain rfl := Option.some.inj (hv.symm.trans hfound)
    rw [Value.type_thin, hthin _ (by simpa using h)]
  exact congrArg (fun values => EStateM.Result.ok PUnit.unit { m.thin keep with values }) hmap

/-- The entry of a phi, once the types have been compared. -/
def enterIncoming (phi value : ValueId) (source : BlockId) : Build Unit := do
  match (← query (·.value phi)).kind with
  | .inst block (.phi incoming) => setKind phi (.inst block (.phi (incoming ++ [(value, source)])))
  | _ => record .incomingOfNonPhi

theorem enterIncoming_overlooks {phi value : ValueId} {source : BlockId} (h : keep source = true) :
    Overlooks keep (enterIncoming phi value source) := by
  unfold enterIncoming
  refine ⟨fun {m} hm => ?_, fun {m _ m'} hm hrun => ?_⟩
  · have hthin : (m.thin keep).value phi = Value.thin keep <$> m.value phi := value_thin phi
    cases hfound : m.value phi with
    | error fault =>
        rw [hfound] at hthin
        change EStateM.bind _ _ _ = mapState _ (EStateM.bind _ _ _)
        simp only [EStateM.bind, query, hfound, hthin]
        rfl
    | ok v =>
        rw [hfound] at hthin
        rw [query_bind hthin, query_bind hfound]
        have hrecord (hphi : v.inst?.map Inst.isPhi ≠ some true) :
            record .incomingOfNonPhi (m.thin keep) =
              mapState (thin keep) (record .incomingOfNonPhi m) ∧ v.thin keep = v :=
          ⟨(inferInstance : Overlooks keep (record .incomingOfNonPhi)).run hm,
            Value.thin_of_not_isPhi hphi⟩
        obtain ⟨type, kind⟩ := v
        cases kind with
        | inst place inst =>
            cases inst with
            | phi incoming =>
                obtain ⟨_, hthin', hrun⟩ :=
                  setIncoming_run value h (Arena.entry_eq_ok_iff.mp hfound)
                rw [hthin']
                exact hrun
            | _ =>
                obtain ⟨hrun, hsame⟩ := hrecord (by simp [Value.inst?, Inst.isPhi])
                rw [hsame]
                exact hrun
        | _ => exact (hrecord (by simp [Value.inst?])).1
  · obtain ⟨v, t, hquery, hthen⟩ := bind_eq_ok_iff.mp hrun
    obtain ⟨-, hsame⟩ := query_eq_ok_iff.mp hquery
    subst t
    have hrecord {t : Module} (hrun : record .incomingOfNonPhi m = .ok () t) : Keeping keep t :=
      (inferInstance : Overlooks keep (record .incomingOfNonPhi)).stays hm hrun
    obtain ⟨type, kind⟩ := v
    cases kind with
    | inst place inst =>
        cases inst with
        | phi incoming =>
            obtain rfl := modify_eq_ok_iff.mp hthen
            exact hm
        | _ => exact hrecord hthen
    | _ => exact hrecord hthen

theorem addIncoming_overlooks {phi value : ValueId} {source : BlockId} (h : keep source = true) :
    Overlooks keep (addIncoming phi value source) := by
  have hentry : Overlooks keep (enterIncoming phi value source) := enterIncoming_overlooks h
  have hsteps : addIncoming phi value source = (do
      if (← query (·.typeOf phi)) ≠ (← query (·.typeOf value)) then record .incomingType
      enterIncoming phi value source) := rfl
  rw [hsteps]
  infer_instance

end Kinds

end Build

end Ssa

end CilSsa
