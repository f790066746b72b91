import CilSsa.Proofs.Keeps
import CilSsa.Proofs.Persistence

/-!
The builder as a source of changes: each of its actions evolves the module by the changes that the
action is made of.
-/

namespace CilSsa.Ssa

/-- Whether a type is no array and has no members. -/
def IrType.isBare : IrType → Bool
  | .array .. | .struct _ (some _) _ => false
  | _ => true

/-- Permission for types without values of other types in them. -/
class Change.Typing (P : Change → Prop) : Prop where
  addType : ∀ type, type.isBare = true → P (.addType type)

/-- Permission for such types and for values of them. -/
class Change.Valuing (P : Change → Prop) : Prop extends Change.Typing P where
  addValue : ∀ value, P (.addValue value)
  record : ∀ misuse, P (.record misuse)
  listGlobal : ∀ global, P (.listGlobal global)

/-- Permission for everything that adds to a module and concerns neither code nor functions. -/
class Change.Additive (P : Change → Prop) : Prop extends Change.Valuing P where
  addArray : ∀ element length, P (.addType (.array element length))
  countString : P .countString

/-- Permission for new functions. -/
class Change.Founding (P : Change → Prop) : Prop where
  addFunction : ∀ function, P (.addFunction function)

/-- Permission for code, apart from phis, that does not write to memory. -/
class Change.Computing (P : Change → Prop) : Prop extends Change.Additive P where
  addInst : ∀ block type inst, inst.destination? = none → P (.addInst block type inst)

/-- Permission for all code apart from phis. -/
class Change.Coding (P : Change → Prop) : Prop extends Change.Computing P where
  addStore : ∀ block type pointer value isVolatile,
    P (.addInst block type (.store pointer value isVolatile))

/-- Permission for phis and the code of their entries, without writes to memory. -/
class Change.Joining (P : Change → Prop) : Prop extends Change.Computing P where
  addPhi : ∀ block type, P (.addPhi block type)
  addEntry : ∀ phi value source, P (.addEntry phi value source)

/-- Whether a change leaves the initial values of globals alone. -/
def Change.isTame : Change → Bool
  | .setInitial .. => false
  | _ => true

/-- Whether a change writes neither to memory nor to the initial values of globals. -/
def Change.isQuiet : Change → Bool
  | .addInst _ _ inst => inst.destination?.isNone
  | c => c.isTame

/-- Whether a change goes on with the block that is the current one. -/
def Change.isStaying : Change → Bool
  | .moveTo _ => false
  | _ => true

/-- Permission for everything that writes nothing and goes on with the current block. -/
class Change.Staying (P : Change → Prop) : Prop where
  permits : ∀ c, c.isQuiet = true → c.isStaying = true → P c

instance {P : Change → Prop} [hP : Change.Staying P] : Change.Founding P where
  addFunction _ := hP.permits _ rfl rfl

instance {P : Change → Prop} [hP : Change.Staying P] : Change.Computing P where
  addType _ _ := hP.permits _ rfl rfl
  addArray _ _ := hP.permits _ rfl rfl
  addValue _ := hP.permits _ rfl rfl
  record _ := hP.permits _ rfl rfl
  listGlobal _ := hP.permits _ rfl rfl
  countString := hP.permits _ rfl rfl
  addInst _ _ _ h := hP.permits _ (Option.isNone_iff_eq_none.mpr h) rfl

instance {P : Change → Prop} [hP : Change.Staying P] : Change.Joining P where
  addPhi _ _ := hP.permits _ rfl rfl
  addEntry _ _ _ := hP.permits _ rfl rfl

/-- Permission for everything that writes nothing. -/
class Change.Arranging (P : Change → Prop) : Prop where
  permits : ∀ c, c.isQuiet = true → P c

instance {P : Change → Prop} [hP : Change.Arranging P] : Change.Staying P where
  permits c hc _ := hP.permits c hc

/-- Permission for everything but initial values. -/
class Change.Free (P : Change → Prop) : Prop where
  permits : ∀ c, c.isTame = true → P c

theorem Change.isTame_of_isQuiet {c : Change} (h : c.isQuiet = true) : c.isTame = true := by
  cases c with
  | addInst => rfl
  | _ => exact h

instance {P : Change → Prop} [hP : Change.Free P] : Change.Arranging P where
  permits c hc := hP.permits c (Change.isTame_of_isQuiet hc)

instance {P : Change → Prop} [hP : Change.Free P] : Change.Coding P where
  addStore _ _ _ _ _ := hP.permits _ rfl

def Change.Any (_ : Change) : Prop := True

instance : Change.Free Change.Any := ⟨fun _ _ => trivial⟩

/-- Any change but that of an initial value. -/
def Change.Tame (c : Change) : Prop := c.isTame = true

instance : Change.Free Change.Tame := ⟨fun _ h => h⟩

/-- Any change that writes nothing. -/
def Change.Quiet (c : Change) : Prop := c.isQuiet = true

instance : Change.Arranging Change.Quiet := ⟨fun _ h => h⟩

/-- Any change that writes nothing and goes on with the current block. -/
def Change.Resting (c : Change) : Prop := c.isQuiet = true ∧ c.isStaying = true

instance : Change.Staying Change.Resting := ⟨fun _ h h' => ⟨h, h'⟩⟩

/-- One more type without values of other types in it. -/
def Change.NewType : Change → Prop
  | .addType type => type.isBare = true
  | _ => False

instance : Change.Typing Change.NewType := ⟨fun _ h => h⟩

/-- A misuse that is not about the place of code, so that it can be recorded anywhere. -/
class Misuse.Placed (misplaced : Bool) : Prop where
  isPlaced : misplaced = false

instance : Misuse.Placed false := ⟨rfl⟩

theorem Misuse.Placed.fits {misplaced : Bool} {p : Prop} (h : Misuse.Placed misplaced)
    (hmisplaced : misplaced = true) : p :=
  absurd (h.isPlaced.symm.trans hmisplaced) Bool.false_ne_true

theorem modify_congr {α : Type} {entries : Array α} {i : Nat} {entry : α} {f g : α → α}
    (h : entries[i]? = some entry) (hfg : f entry = g entry) :
    entries.modify i f = entries.modify i g := by
  apply Array.ext_getElem?
  intro j
  simp only [Array.getElem?_modify]
  split
  · rename_i hij
    subst hij
    simp [h, hfg]
  · rfl

namespace Build

open Ssa.Module

variable {P : Change → Prop} {α : Type}

theorem record_eq_ok_iff {misuse : Misuse} {m m' : Module} {u : Unit} :
    record misuse m = .ok u m' ↔
      ∃ function, m.currentFunction = .ok function ∧ m' = m.apply (.record (function, misuse)) := by
  simp only [record, bind_eq_ok_iff, query_eq_ok_iff, modify_eq_ok_iff, apply]
  constructor
  · rintro ⟨function, _, ⟨hfunction, rfl⟩, rfl⟩
    exact ⟨function, hfunction, rfl⟩
  · rintro ⟨function, hfunction, rfl⟩
    exact ⟨function, m, ⟨hfunction, rfl⟩, rfl⟩

instance (ask : Module → Except Fault α) : Keeps (Evolves P) (query ask) where
  run h := by
    obtain ⟨-, rfl⟩ := query_eq_ok_iff.mp h
    exact Relation.ReflTransGen.refl

instance (question : Except Fault α) : Keeps (Evolves P) (ask question) :=
  inferInstanceAs (Keeps (Evolves P) (query fun _ => question))

section Types

theorem intern_cases {type : IrType} {id : TypeId} {m m' : Module} (h : intern type m = .ok id m') :
    m.types.idxOf? type = some id.index ∧ m' = m ∨
      m.types.idxOf? type = none ∧ id = ⟨m.types.size⟩ ∧ m' = m.apply (.addType type) := by
  unfold intern at h
  split at h
  · rename_i hfound
    cases h
    exact .inl ⟨hfound, rfl⟩
  · rename_i hnone
    cases h
    exact .inr ⟨hnone, rfl, rfl⟩

theorem intern_keeps {type : IrType} (h : P (.addType type)) : Keeps (Evolves P) (intern type) where
  run hrun := by
    rcases intern_cases hrun with ⟨-, rfl⟩ | ⟨-, -, rfl⟩
    · exact Relation.ReflTransGen.refl
    · exact Evolves.one h trivial

variable [hP : Change.Typing P]

instance (name : String) : Keeps (Evolves P) (namedStruct name) where
  run h := by
    cases h
    exact Evolves.one (c := .addType (.struct name none false)) (hP.addType _ rfl) trivial

instance (bits : Nat) : Keeps (Evolves P) (intType bits) := intern_keeps (hP.addType _ rfl)

instance (bits : Nat) : Keeps (Evolves P) (floatType bits) := intern_keeps (hP.addType _ rfl)

instance (pointee : TypeId) : Keeps (Evolves P) (pointerType pointee) :=
  intern_keeps (hP.addType _ rfl)

instance : Keeps (Evolves P) voidType := intern_keeps (hP.addType _ rfl)

instance (result : TypeId) (params : List TypeId) :
    Keeps (Evolves P) (functionType result params) :=
  intern_keeps (hP.addType _ rfl)

instance : Keeps (Evolves P) genericPointer := by
  unfold genericPointer
  infer_instance

end Types

section Additions

variable [hP : Change.Valuing P]

instance (misuse : Misuse) [hplaced : Misuse.Placed misuse.isMisplaced] :
    Keeps (Evolves P) (record misuse) where
  run h := by
    obtain ⟨function, hfunction, rfl⟩ := record_eq_ok_iff.mp h
    exact Evolves.one (c := .record (function, misuse)) (hP.record _) ⟨hfunction, hplaced.fits⟩

theorem pushValue_keeps {type : TypeId} {kind : ValueKind} (h : Value.inst? ⟨type, kind⟩ = none) :
    Keeps (Evolves P) (pushValue type kind) where
  run hrun := by
    cases hrun
    exact Evolves.one (c := .addValue ⟨type, kind⟩) (hP.addValue _) h

instance (type : TypeId) (value : Int) : Keeps (Evolves P) (constInt type value) :=
  pushValue_keeps rfl

instance (type : TypeId) (value : Numeric.Binary64) : Keeps (Evolves P) (constFloat type value) :=
  pushValue_keeps rfl

instance (type : TypeId) : Keeps (Evolves P) (constNull type) := pushValue_keeps rfl

instance (bits : Nat) (value : Int) : Keeps (Evolves P) (constIntOf bits value) := by
  unfold constIntOf
  infer_instance

theorem pushAggregate_keeps (type : TypeId) (items : List ValueId) :
    Keeps (Evolves P) (pushValue type (.constAggregate items)) :=
  pushValue_keeps rfl

instance (type : TypeId) (items : List ValueId) : Keeps (Evolves P) (constStruct type items) := by
  have := pushAggregate_keeps (P := P)
  unfold constStruct
  refine Keeps.seq inferInstance fun body => ?_
  split <;> infer_instance

theorem listGlobal_keeps (global : ValueId) :
    Keeps (Evolves P) (modify fun m => { m with globals := m.globals.push global } :
      Build PUnit) where
  run h := by
    obtain rfl := modify_eq_ok_iff.mp h
    exact Evolves.one (c := .listGlobal global) (hP.listGlobal _) trivial

theorem pushGlobal_keeps (type : TypeId) (name : String) (content : TypeId) (initial : ValueId) :
    Keeps (Evolves P) (pushValue type (.global name content initial)) :=
  pushValue_keeps rfl

set_option synthInstance.maxSize 256 in
instance (name : String) (content : TypeId) : Keeps (Evolves P) (addGlobal name content) := by
  have := listGlobal_keeps (P := P)
  have := pushGlobal_keeps (P := P)
  unfold addGlobal
  dsimp only
  infer_instance

omit hP in
theorem addGlobal_eq_ok {name : String} {content : TypeId} {g : ValueId} {m m' : Module}
    (h : addGlobal name content m = .ok g m') :
    ∃ zero m₁ pointer m₂ m₃, constNull content m = .ok zero m₁ ∧
      pointerType content m₁ = .ok pointer m₂ ∧
      pushValue pointer (.global name content zero) m₂ = .ok g m₃ ∧
      (m' = m₃.apply (.listGlobal g) ∨
        record (.globalTwice name) (m₃.apply (.listGlobal g)) = .ok () m') := by
  simp only [addGlobal, bind_eq_ok_iff, get_eq_ok_iff, modify_eq_ok_iff] at h
  obtain ⟨zero, m₁, hzero, pointer, m₂, hpointer, _, _, ⟨rfl, rfl⟩,
    global, m₃, hpush, _, _, rfl, h⟩ := h
  split at h
  · simp only [bind_eq_ok_iff, pure_eq_ok_iff] at h
    obtain ⟨_, _, hrecord, rfl, rfl⟩ := h
    exact ⟨zero, m₁, pointer, _, m₃, hzero, hpointer, hpush, .inr hrecord⟩
  · obtain ⟨rfl, rfl⟩ := pure_eq_ok_iff.mp h
    exact ⟨zero, m₁, pointer, _, m₃, hzero, hpointer, hpush, .inl rfl⟩

instance (function : FunctionId) (index : Nat) (types : List TypeId) :
    Keeps (Evolves P) (pushParams function index types) :=
  Keeps.composes.pushParams (fun _ _ => pushValue_keeps rfl) index types

omit hP in
/-- The parameters of a function are values and nothing else. -/
theorem pushParams_same {function : FunctionId} {index : Nat} {types : List TypeId}
    {params : List ValueId} {m m' : Module}
    (h : pushParams function index types m = .ok params m') :
    ∃ values, m' = { m with values } := by
  induction types generalizing index params m with
  | nil =>
      obtain ⟨-, rfl⟩ := pure_eq_ok_iff.mp h
      exact ⟨_, rfl⟩
  | cons type rest ih =>
      simp only [pushParams, bind_eq_ok_iff, pure_eq_ok_iff] at h
      obtain ⟨id, m₁, hpush, params, m₂, hrest, -, rfl⟩ := h
      cases hpush
      obtain ⟨values, rfl⟩ := ih hrest
      exact ⟨values, rfl⟩

omit hP in
theorem intern_same {type : IrType} {id : TypeId} {m m' : Module}
    (h : intern type m = .ok id m') : ∃ types, m' = { m with types } := by
  rcases intern_cases h with ⟨-, rfl⟩ | ⟨-, -, rfl⟩ <;> exact ⟨_, rfl⟩

/-- The types of the parameters of a new function; a type that is no function type has none. -/
def paramTypes (name : String) (type : TypeId) : Build (List TypeId) := do
  match ← query (·.signature? type) with
  | some (_, params) => pure params
  | none => do
      record (.functionOfNonFunctionType name)
      pure []

/-- Adds a function whose parameters have these types. -/
def appendFunction (id : FunctionId) (name : String) (type : TypeId) (linkage : Linkage)
    (types : List TypeId) : Build FunctionId := do
  let pointer ← pointerType type
  let value ← pushValue pointer (.function id)
  let params ← pushParams id 0 types
  let taken := ((← get).functionNamed? name).isSome
  modify fun m =>
    { m with functions := m.functions.push { name, type, linkage, params, value } }
  if taken then record (.functionTwice name)
  return id

section AddingFunctions

variable {name : String} {type : TypeId} {linkage : Linkage} {types : List TypeId}
  {f id : FunctionId} {m m' : Module}

omit hP in
theorem addFunction_eq (name : String) (type : TypeId) (linkage : Linkage) :
    addFunction name type linkage = (do
      let m ← get
      let types ← paramTypes name type
      appendFunction ⟨m.functions.size⟩ name type linkage types) := by
  simp only [addFunction, paramTypes, appendFunction, bind_assoc]
  refine bind_congr fun m => bind_congr fun signature => ?_
  cases signature <;> simp only [bind_assoc, pure_bind]

omit hP in
theorem addFunction_eq_ok (h : addFunction name type linkage m = .ok f m') :
    ∃ types m₁, paramTypes name type m = .ok types m₁ ∧
      appendFunction ⟨m.functions.size⟩ name type linkage types m₁ = .ok f m' := by
  rw [addFunction_eq, getBind_eq_ok_iff] at h
  exact bind_eq_ok_iff.mp h

omit hP in
/-- The parameters are those of the type, or a misuse is recorded. -/
theorem paramTypes_eq_ok (h : paramTypes name type m = .ok types m') :
    m' = m ∧ (∃ result, m.signature? type = .ok (some (result, types))) ∨
      m.signature? type = .ok none ∧ types = [] ∧
        record (.functionOfNonFunctionType name) m = .ok () m' := by
  simp only [paramTypes, bind_eq_ok_iff, query_eq_ok_iff] at h
  obtain ⟨signature, _, ⟨hsignature, rfl⟩, h⟩ := h
  rcases signature with _ | ⟨result, params⟩
  · simp only [bind_eq_ok_iff, pure_eq_ok_iff] at h
    obtain ⟨_, _, hrecord, rfl, rfl⟩ := h
    exact .inr ⟨hsignature, rfl, hrecord⟩
  · obtain ⟨rfl, rfl⟩ := pure_eq_ok_iff.mp h
    exact .inl ⟨rfl, result, hsignature⟩

omit hP in
/-- The function comes after its value and its parameters; its name may be taken. -/
theorem appendFunction_eq_ok (h : appendFunction id name type linkage types m = .ok f m') :
    f = id ∧ ∃ pointer m₁ value m₂ params m₃, pointerType type m = .ok pointer m₁ ∧
      pushValue pointer (.function id) m₁ = .ok value m₂ ∧
      pushParams id 0 types m₂ = .ok params m₃ ∧
      (m' = m₃.apply (.addFunction { name, type, linkage, params, value }) ∨
        record (.functionTwice name)
          (m₃.apply (.addFunction { name, type, linkage, params, value })) = .ok () m') := by
  simp only [appendFunction, bind_eq_ok_iff, get_eq_ok_iff, modify_eq_ok_iff] at h
  obtain ⟨pointer, m₁, hpointer, value, m₂, hvalue, params, _, hparams, _, _, ⟨rfl, rfl⟩, _, _, rfl,
    h⟩ := h
  split at h
  · simp only [bind_eq_ok_iff, pure_eq_ok_iff] at h
    obtain ⟨_, _, hrecord, rfl, rfl⟩ := h
    exact ⟨rfl, pointer, m₁, value, m₂, params, _, hpointer, hvalue, hparams, .inr hrecord⟩
  · obtain ⟨rfl, rfl⟩ := pure_eq_ok_iff.mp h
    exact ⟨rfl, pointer, m₁, value, m₂, params, _, hpointer, hvalue, hparams, .inl rfl⟩

instance (name : String) (type : TypeId) : Keeps (Evolves P) (paramTypes name type) := by
  unfold paramTypes
  refine Keeps.seq inferInstance fun signature => ?_
  cases signature <;> infer_instance

omit hP in
theorem paramTypes_functions (h : paramTypes name type m = .ok types m') :
    m'.functions = m.functions := by
  rcases paramTypes_eq_ok h with ⟨rfl, -⟩ | ⟨-, -, hrecord⟩
  · rfl
  · obtain ⟨function, -, rfl⟩ := record_eq_ok_iff.mp hrecord
    rfl

/-- A new function comes after all others, and is a value. -/
theorem addFunction_cases (h : addFunction name type linkage m = .ok f m') :
    f = ⟨m.functions.size⟩ ∧ ∃ m₁ params value, m.Evolves P m₁ ∧ m₁.functions = m.functions ∧
      m₁.Fits (.addFunction { name, type, linkage, params, value }) ∧
      (m' = m₁.apply (.addFunction { name, type, linkage, params, value }) ∨
        ∃ function, m₁.currentFunction = .ok function ∧
          m' = (m₁.apply (.addFunction { name, type, linkage, params, value })).apply
            (.record (function, .functionTwice name))) := by
  obtain ⟨types, m₀, htypes, h⟩ := addFunction_eq_ok h
  obtain ⟨rfl, pointer, m₁, value, m₂, params, m₃, hpointer, hvalue, hparams, hlast⟩ :=
    appendFunction_eq_ok h
  have hasked : m.Evolves P m₀ :=
    (inferInstance : Keeps (Evolves P) (paramTypes name type)).run htypes
  have hinterned : m₀.Evolves P m₁ :=
    (inferInstance : Keeps (Evolves P) (pointerType type)).run hpointer
  have hpushed : m₁.Evolves P m₂ := (pushValue_keeps rfl).run hvalue
  have hgiven : m₂.Evolves P m₃ :=
    (inferInstance : Keeps (Evolves P) (pushParams ⟨m.functions.size⟩ 0 types)).run hparams
  have hvalue' : m₂.functions = m₁.functions ∧
      m₂.values[value.index]? = some ⟨pointer, .function ⟨m.functions.size⟩⟩ := by
    cases hvalue
    exact ⟨rfl, by simp⟩
  have hsame : m₃.functions = m.functions := by
    rw [← paramTypes_functions htypes]
    obtain ⟨_, rfl⟩ := intern_same hpointer
    obtain ⟨_, rfl⟩ := pushParams_same hparams
    exact hvalue'.1
  have hfits : m₃.Fits (.addFunction { name, type, linkage, params, value }) := by
    obtain ⟨⟨type', kind⟩, hv, ⟨-, hkind⟩⟩ := hgiven.like hvalue'.2
    cases hkind
    exact ⟨rfl, type', by rw [hv, hsame]⟩
  refine ⟨rfl, m₃, params, value, ?_, hsame, hfits, hlast.imp_right fun hrecord => ?_⟩
  · exact (hasked.trans hinterned).trans (hpushed.trans hgiven)
  · obtain ⟨function, hfunction, rfl⟩ := record_eq_ok_iff.mp hrecord
    exact ⟨function, hfunction, rfl⟩

end AddingFunctions

instance [hfound : Change.Founding P] (name : String) (type : TypeId) (linkage : Linkage) :
    Keeps (Evolves P) (addFunction name type linkage) where
  run h := by
    obtain ⟨-, m₁, params, value, hevolves, -, hfits, hlast⟩ := addFunction_cases (P := P) h
    have hadded := hevolves.trans (Evolves.one (hfound.addFunction _) hfits)
    rcases hlast with rfl | ⟨function, hfunction, rfl⟩
    · exact hadded
    · exact hadded.trans (Evolves.one (hP.record _) ⟨hfunction, by simp⟩)

omit hP in
theorem addFunction_functions {name : String} {type : TypeId} {linkage : Linkage} {f : FunctionId}
    {m m' : Module} (h : addFunction name type linkage m = .ok f m') :
    f = ⟨m.functions.size⟩ ∧ ∃ params value,
      m'.functions = m.functions.push { name, type, linkage, params, value } := by
  obtain ⟨rfl, m₁, params, value, -, hsame, -, hlast⟩ := addFunction_cases (P := Change.Any) h
  refine ⟨rfl, params, value, ?_⟩
  rcases hlast with rfl | ⟨function, -, rfl⟩ <;> rw [← hsame] <;> rfl

instance (function : FunctionId) : Keeps (Evolves P) (functionValue function) := by
  unfold functionValue
  infer_instance

end Additions

section Arrays

variable [hP : Change.Additive P]

instance (element : TypeId) (length : Nat) : Keeps (Evolves P) (arrayType element length) :=
  intern_keeps (hP.addArray _ _)

instance (element : TypeId) (items : List ValueId) :
    Keeps (Evolves P) (constArray element items) := by
  have := pushAggregate_keeps (P := P)
  unfold constArray
  infer_instance

theorem countString_keeps :
    Keeps (Evolves P) (modify fun m => { m with stringCount := m.stringCount + 1 } :
      Build PUnit) where
  run h := by
    obtain rfl := modify_eq_ok_iff.mp h
    exact Evolves.one (c := .countString) hP.countString trivial

theorem pushBytes_keeps (type : TypeId) (text : String) :
    Keeps (Evolves P) (pushValue type (.constBytes text)) :=
  pushValue_keeps rfl

set_option synthInstance.maxSize 256 in
instance (text : String) : Keeps (Evolves P) (constString text) := by
  have := listGlobal_keeps (P := P)
  have := countString_keeps (P := P)
  have := pushGlobal_keeps (P := P)
  have := pushBytes_keeps (P := P)
  unfold constString
  dsimp only
  infer_instance

end Arrays

section Code

variable [hP : Change.Computing P]

theorem stuck_of_none {m : Module} (h : m.position = none) : m.Stuck := by
  intro b block hb
  rw [h] at hb
  exact absurd hb (by simp)

theorem stuck_of_ended {m : Module} {b : BlockId} {block : Block} (h : m.position = some b)
    (hblock : m.blocks[b.index]? = some block) (hended : block.terminator.isSome) : m.Stuck := by
  intro b' block' hb' hblock'
  obtain rfl : b = b' := Option.some.inj (h.symm.trans hb')
  obtain rfl : block = block' := Option.some.inj (hblock.symm.trans hblock')
  exact hended

/-- A successful addition of an instruction is a change at the current place, after the misuse of
a block that has its end. -/
theorem pushInst_cases {type : TypeId} {inst : Inst} {m m' : Module} {v : ValueId}
    (h : pushInst type inst m = .ok v m') :
    ∃ m₁, (m₁ = m ∨ ∃ misuse, m₁ = m.apply (.record misuse) ∧ m.Fits (.record misuse)) ∧
      v = ⟨m₁.values.size⟩ ∧ m' = m₁.apply (.addInst m.position type inst) ∧
      ∀ b, m.position = some b → b.index < m₁.blocks.size := by
  rw [pushInst] at h
  simp only [bind_eq_ok_iff, get_eq_ok_iff] at h
  obtain ⟨_, _, ⟨hget, hsame⟩, h⟩ := h
  rw [hget, hsame] at h
  cases hposition : m.position with
  | none =>
      simp only [hposition, bind_eq_ok_iff, record_eq_ok_iff] at h
      obtain ⟨_, _, ⟨function, hfunction, rfl⟩, hpush⟩ := h
      cases hpush
      exact ⟨_, .inr ⟨_, rfl, hfunction, fun _ => stuck_of_none hposition⟩, rfl, rfl,
        fun _ h => by cases h⟩
  | some b =>
      simp only [hposition, bind_eq_ok_iff, query_eq_ok_iff] at h
      obtain ⟨block, t, ⟨hblock, hsame'⟩, h⟩ := h
      subst t
      have hfound := Arena.entry_eq_ok_iff.mp hblock
      have hplace (b' : BlockId) (hb : some b = some b') : b'.index < m.blocks.size :=
        Option.some.inj hb ▸ (Array.getElem?_eq_some_iff.mp hfound).1
      split at h
      · rename_i hended
        simp only [bind_eq_ok_iff, record_eq_ok_iff] at h
        obtain ⟨_, _, ⟨function, hfunction, rfl⟩, _, _, hpush, _, _, hmodify, hpure⟩ := h
        cases hpush
        obtain rfl := modify_eq_ok_iff.mp hmodify
        obtain ⟨rfl, rfl⟩ := pure_eq_ok_iff.mp hpure
        have hstuck := stuck_of_ended hposition hfound hended
        exact ⟨_, .inr ⟨_, rfl, hfunction, fun _ => hstuck⟩, rfl, rfl, hplace⟩
      · simp only [bind_eq_ok_iff] at h
        obtain ⟨_, _, hpush, _, _, hmodify, hpure⟩ := h
        cases hpush
        obtain rfl := modify_eq_ok_iff.mp hmodify
        obtain ⟨rfl, rfl⟩ := pure_eq_ok_iff.mp hpure
        exact ⟨_, .inl rfl, rfl, rfl, hplace⟩

theorem pushInst_evolves {type : TypeId} {inst : Inst} {m m' : Module} {v : ValueId}
    (h : pushInst type inst m = .ok v m') (hphi : inst.isPhi = false)
    (hpermits : ∀ block, P (.addInst block type inst))
    (hexists : ∀ pointer, inst.destination? = some pointer → pointer.index < m.values.size) :
    m.Evolves P m' := by
  obtain ⟨m₁, hfirst, -, rfl, hplace⟩ := pushInst_cases h
  rcases hfirst with rfl | ⟨misuse, rfl, hfits⟩
  · exact Evolves.one (hpermits _) ⟨rfl, hphi, hexists, hplace⟩
  · exact Relation.ReflTransGen.trans (Evolves.one (c := .record misuse) (hP.record _) hfits)
      (Evolves.one (hpermits _) ⟨rfl, hphi, hexists, hplace⟩)

theorem pushInst_keeps {type : TypeId} {inst : Inst} (hphi : inst.isPhi = false)
    (hpermits : ∀ block, P (.addInst block type inst)) (hstore : inst.destination? = none) :
    Keeps (Evolves P) (pushInst type inst) where
  run h := by
    refine pushInst_evolves h hphi hpermits fun pointer hpointer => ?_
    simp [hstore] at hpointer

theorem compute_keeps {type : TypeId} {inst : Inst} (hphi : inst.isPhi = false)
    (hstore : inst.destination? = none) : Keeps (Evolves P) (pushInst type inst) :=
  pushInst_keeps hphi (fun block => hP.addInst block type inst hstore) hstore

instance (op : BinaryOp) (lhs rhs : ValueId) : Keeps (Evolves P) (binary op lhs rhs) := by
  have (type : TypeId) : Keeps (Evolves P) (pushInst type (.binary op lhs rhs)) :=
    compute_keeps rfl rfl
  unfold binary
  infer_instance

instance (op : UnaryOp) (operand : ValueId) : Keeps (Evolves P) (unary op operand) := by
  have (type : TypeId) : Keeps (Evolves P) (pushInst type (.unary op operand)) :=
    compute_keeps rfl rfl
  unfold unary
  infer_instance

instance (pred : IntPredicate) (lhs rhs : ValueId) : Keeps (Evolves P) (icmp pred lhs rhs) := by
  have (type : TypeId) : Keeps (Evolves P) (pushInst type (.icmp pred lhs rhs)) :=
    compute_keeps rfl rfl
  unfold icmp
  infer_instance

set_option synthInstance.maxSize 256 in
instance (pred : FloatPredicate) (lhs rhs : ValueId) : Keeps (Evolves P) (fcmp pred lhs rhs) := by
  have (type : TypeId) : Keeps (Evolves P) (pushInst type (.fcmp pred lhs rhs)) :=
    compute_keeps rfl rfl
  unfold fcmp
  dsimp only
  infer_instance

instance (op : CastOp) (value : ValueId) (target : TypeId) :
    Keeps (Evolves P) (cast op value target) := by
  have (type : TypeId) : Keeps (Evolves P) (pushInst type (.cast op value)) :=
    compute_keeps rfl rfl
  unfold cast
  infer_instance

instance (value : ValueId) (target : TypeId) (signed : Bool) :
    Keeps (Evolves P) (intCast value target signed) :=
  intCast_of (Keeps.seq inferInstance) (fun _ => Keeps.seq inferInstance) (fun _ => inferInstance)
    inferInstance

instance (type : TypeId) : Keeps (Evolves P) (alloca type) := by
  have (pointer : TypeId) : Keeps (Evolves P) (pushInst pointer (.alloca type)) :=
    compute_keeps rfl rfl
  unfold alloca
  infer_instance

instance (type : TypeId) (pointer : ValueId) : Keeps (Evolves P) (load type pointer) := by
  have (type : TypeId) : Keeps (Evolves P) (pushInst type (.load pointer)) := compute_keeps rfl rfl
  unfold load
  infer_instance

instance (type : TypeId) (pointer : ValueId) (index : Nat) :
    Keeps (Evolves P) (structGep type pointer index) := by
  have (result : TypeId) : Keeps (Evolves P) (pushInst result (.structGep type pointer index)) :=
    compute_keeps rfl rfl
  unfold structGep
  refine Keeps.seq inferInstance fun member => ?_
  cases member <;> infer_instance

instance (element : TypeId) (pointer index : ValueId) :
    Keeps (Evolves P) (gep element pointer index) := by
  have (result : TypeId) : Keeps (Evolves P) (pushInst result (.gep element pointer index)) :=
    compute_keeps rfl rfl
  unfold gep
  infer_instance

instance (type : TypeId) (count : Option ValueId) : Keeps (Evolves P) (heapAlloc type count) := by
  have (result : TypeId) : Keeps (Evolves P) (pushInst result (.heapAlloc type count)) :=
    compute_keeps rfl rfl
  unfold heapAlloc
  infer_instance

instance (index : Nat) (args : List ValueId) (params : List TypeId) :
    Keeps (Evolves P) (checkArgs index args params) :=
  Keeps.composes.checkArgs (fun _ => inferInstance) (fun _ => inferInstance) index args params

instance (type : TypeId) (callee : Callee) (args : List ValueId) :
    Keeps (Evolves P) (buildCall type callee args) := by
  have (result : TypeId) : Keeps (Evolves P) (pushInst result (.call callee args)) :=
    compute_keeps rfl rfl
  unfold buildCall
  refine Keeps.seq inferInstance fun signature => ?_
  split
  · infer_instance
  · dsimp only
    infer_instance

instance (function : FunctionId) (args : List ValueId) :
    Keeps (Evolves P) (call function args) := by
  unfold call
  infer_instance

instance (type : TypeId) (callee : ValueId) (args : List ValueId) :
    Keeps (Evolves P) (callIndirect type callee args) := by
  unfold callIndirect
  infer_instance

/-- A store is an instruction, after the misuse of an address that is no pointer. -/
theorem store_cases {pointer value : ValueId} {isVolatile : Bool} {m m' : Module} {u : Unit}
    (h : store pointer value isVolatile m = .ok u m') :
    pointer.index < m.values.size ∧ ∃ type v m₁, m.Evolves P m₁ ∧
      pushInst type (.store pointer value isVolatile) m₁ = .ok v m' := by
  rw [store, bind_eq_ok_iff] at h
  obtain ⟨cls, t, hquery, h⟩ := h
  obtain ⟨hcls, hsame⟩ := query_eq_ok_iff.mp hquery
  subst t
  constructor
  · simp only [Module.classOf, Module.typeOf, Module.value, exceptBind_eq_ok_iff,
      Arena.entry_eq_ok_iff] at hcls
    obtain ⟨_, ⟨v, hv, -⟩, -⟩ := hcls
    exact (Array.getElem?_eq_some_iff.mp hv).1
  · have hvoid : Keeps (Evolves P) voidType := inferInstance
    dsimp only at h
    split at h
    · simp only [bind_eq_ok_iff, pure_eq_ok_iff] at h
      obtain ⟨_, m₁, hmisuse, type, m₂, htype, v, m₃, hpush, -, rfl⟩ := h
      have hrecord := (inferInstance : Keeps (Evolves P) (record .storeToNonPointer)).run hmisuse
      exact ⟨type, v, m₂, Relation.ReflTransGen.trans hrecord (hvoid.run htype), hpush⟩
    · simp only [bind_eq_ok_iff, pure_eq_ok_iff] at h
      obtain ⟨type, m₂, htype, v, m₃, hpush, -, rfl⟩ := h
      exact ⟨type, v, m₂, hvoid.run htype, hpush⟩

theorem store_keeps {pointer value : ValueId} {isVolatile : Bool}
    (hpermits : ∀ block type, P (.addInst block type (.store pointer value isVolatile))) :
    Keeps (Evolves P) (store pointer value isVolatile) where
  run {m _ m'} h := by
    obtain ⟨hexists, type, v, m₁, hevolves, hpush⟩ := store_cases (P := P) h
    refine Relation.ReflTransGen.trans hevolves
      (pushInst_evolves hpush rfl (hpermits · type) fun p hp => ?_)
    obtain rfl := Option.some.inj hp
    exact Nat.lt_of_lt_of_le hexists hevolves.values_le

end Code

instance [hP : Change.Coding P] (pointer value : ValueId) (isVolatile : Bool) :
    Keeps (Evolves P) (store pointer value isVolatile) :=
  store_keeps fun block type => hP.addStore block type pointer value isVolatile

section Others

variable {m m' : Module} {u : Unit}

/-- Ending a block is a change of the current block, unless it is misuse. -/
theorem terminate_cases {terminator : Terminator} (h : terminate terminator m = .ok u m') :
    (∃ misuse, m' = m.apply (.record misuse) ∧ m.Fits (.record misuse)) ∨
      ∃ b, m' = m.apply (.terminate b terminator) ∧ m.Fits (.terminate b terminator) := by
  rw [terminate] at h
  simp only [bind_eq_ok_iff, get_eq_ok_iff] at h
  obtain ⟨_, _, ⟨hget, hsame⟩, h⟩ := h
  rw [hget, hsame] at h
  cases hposition : m.position with
  | none =>
      simp only [hposition, record_eq_ok_iff] at h
      obtain ⟨function, hfunction, rfl⟩ := h
      exact .inl ⟨_, rfl, hfunction, fun _ => stuck_of_none hposition⟩
  | some b =>
      simp only [hposition, bind_eq_ok_iff, query_eq_ok_iff] at h
      obtain ⟨block, _, ⟨hblock, rfl⟩, h⟩ := h
      split at h
      · rename_i hended
        obtain ⟨function, hfunction, rfl⟩ := record_eq_ok_iff.mp h
        have hstuck := stuck_of_ended hposition (Arena.entry_eq_ok_iff.mp hblock) hended
        exact .inl ⟨_, rfl, hfunction, fun _ => hstuck⟩
      · rename_i hopen
        obtain rfl := modify_eq_ok_iff.mp h
        refine .inr ⟨b, rfl, hposition, block, Arena.entry_eq_ok_iff.mp hblock, ?_⟩
        simpa using hopen

theorem appendBlock_eq_ok {function : FunctionId} {name : String} {id : BlockId}
    (h : appendBlock function name m = .ok id m') :
    id = ⟨m.blocks.size⟩ ∧ m' = m.apply (.addBlock function name) ∧
      ∃ f, m.functions[function.index]? = some f := by
  simp only [appendBlock, bind_eq_ok_iff, get_eq_ok_iff, modify_eq_ok_iff, query_eq_ok_iff,
    modifyFunction, pure_eq_ok_iff] at h
  obtain ⟨_, _, ⟨rfl, rfl⟩, _, _, rfl, f, _, ⟨hf, rfl⟩, _, _, rfl, rfl, rfl⟩ := h
  exact ⟨rfl, rfl, f, Arena.entry_eq_ok_iff.mp hf⟩

theorem positionAtEnd_eq_ok {b : BlockId} (h : positionAtEnd b m = .ok u m') :
    m' = m.apply (.moveTo b) :=
  modify_eq_ok_iff.mp h

theorem phi_eq_ok {b : BlockId} {type : TypeId} {id : ValueId} (h : phi b type m = .ok id m') :
    id = ⟨m.values.size⟩ ∧ m' = m.apply (.addPhi b type) ∧
      ∃ block, m.blocks[b.index]? = some block := by
  simp only [phi, bind_eq_ok_iff, query_eq_ok_iff, get_eq_ok_iff, modifyBlock, modify_eq_ok_iff,
    pure_eq_ok_iff] at h
  obtain ⟨_, _, hpush, block, _, ⟨hblock, rfl⟩, _, _, ⟨rfl, rfl⟩, _, _, rfl, rfl, rfl⟩ := h
  cases hpush
  have hb : m.blocks[b.index]? = some block := Arena.entry_eq_ok_iff.mp hblock
  refine ⟨rfl, ?_, block, hb⟩
  let pushed := m.pushValue ⟨type, .inst (some b) (.phi [])⟩
  have hmodify := modify_congr hb
    (f := fun block' =>
      { block' with insts := (block.insert (isPhi pushed) ⟨m.values.size⟩).insts })
    (g := Block.insert (isPhi pushed) ⟨m.values.size⟩) rfl
  exact congrArg (fun blocks => { pushed with blocks }) hmodify

theorem addEntry_cases {phi value : ValueId} {source : BlockId} {v : Value}
    (hv : m.values[phi.index]? = some v)
    (h : (∃ block incoming, v.kind = .inst block (.phi incoming) ∧
      setKind phi (.inst block (.phi (incoming ++ [(value, source)]))) m = .ok u m') ∨
      record .incomingOfNonPhi m = .ok u m') :
    (∃ misuse, m' = m.apply (.record misuse) ∧ m.Fits (.record misuse)) ∨
      (m' = m.apply (.addEntry phi value source) ∧ m.Fits (.addEntry phi value source)) := by
  rcases h with ⟨block, incoming, hkind, h⟩ | h
  · obtain ⟨type, kind⟩ := v
    obtain rfl : kind = .inst block (.phi incoming) := hkind
    obtain rfl := modify_eq_ok_iff.mp h
    refine .inr ⟨?_, type, block, incoming, hv⟩
    rw [apply]
    congr 1
    exact modify_congr hv rfl
  · obtain ⟨function, hfunction, rfl⟩ := record_eq_ok_iff.mp h
    exact .inl ⟨_, rfl, hfunction, fun h => Bool.noConfusion h⟩

theorem addIncoming_cases {phi value : ValueId} {source : BlockId}
    (h : addIncoming phi value source m = .ok u m') :
    ∃ m₁, (m₁ = m ∨ ∃ misuse, m₁ = m.apply (.record misuse) ∧ m.Fits (.record misuse)) ∧
      ((∃ misuse, m' = m₁.apply (.record misuse) ∧ m₁.Fits (.record misuse)) ∨
        (m' = m₁.apply (.addEntry phi value source) ∧ m₁.Fits (.addEntry phi value source))) := by
  rw [addIncoming] at h
  simp only [bind_eq_ok_iff, query_eq_ok_iff] at h
  obtain ⟨type, _, ⟨-, rfl⟩, type', _, ⟨-, rfl⟩, h⟩ := h
  split at h
  · simp only [bind_eq_ok_iff, record_eq_ok_iff, query_eq_ok_iff] at h
    obtain ⟨_, _, ⟨function, hfunction, rfl⟩, ⟨_, kind⟩, _, ⟨hv, rfl⟩, h⟩ := h
    refine ⟨_, .inr ⟨_, rfl, hfunction, fun h => Bool.noConfusion h⟩,
      addEntry_cases (u := u) (Arena.entry_eq_ok_iff.mp hv) ?_⟩
    dsimp only at h
    split at h
    · exact .inl ⟨_, _, rfl, h⟩
    · exact .inr h
  · simp only [bind_eq_ok_iff, query_eq_ok_iff] at h
    obtain ⟨⟨_, kind⟩, _, ⟨hv, rfl⟩, h⟩ := h
    refine ⟨_, .inl rfl, addEntry_cases (u := u) (Arena.entry_eq_ok_iff.mp hv) ?_⟩
    dsimp only at h
    split at h
    · exact .inl ⟨_, _, rfl, h⟩
    · exact .inr h

/-- Setting the initial value of a global is a change of the global, unless it is misuse. -/
theorem setInitializer_cases {global value : ValueId}
    (h : setInitializer global value m = .ok u m') :
    (∃ misuse, m' = m.apply (.record misuse) ∧ m.Fits (.record misuse)) ∨
      (m' = m.apply (.setInitial global value) ∧ m.Fits (.setInitial global value)) := by
  simp only [setInitializer, bind_eq_ok_iff, query_eq_ok_iff] at h
  obtain ⟨type, m₁, ⟨-, h₁⟩, isConstant, m₂, ⟨-, h₂⟩, ⟨type', kind⟩, m₃, ⟨hvalue, h₃⟩, h⟩ := h
  subst h₃ h₂ h₁
  have hv := Arena.entry_eq_ok_iff.mp hvalue
  dsimp only at h
  split at h
  · split at h
    · obtain ⟨function, hfunction, rfl⟩ := record_eq_ok_iff.mp h
      exact .inl ⟨_, rfl, hfunction, fun h => Bool.noConfusion h⟩
    · obtain rfl := modify_eq_ok_iff.mp h
      refine .inr ⟨?_, type', _, _, _, hv⟩
      rw [apply]
      congr 1
      exact modify_congr hv rfl
  · obtain ⟨function, hfunction, rfl⟩ := record_eq_ok_iff.mp h
    exact .inl ⟨_, rfl, hfunction, fun h => Bool.noConfusion h⟩

theorem setStructBody_cases {id : TypeId} {members : List TypeId} {packed : Bool}
    (h : setStructBody id members packed m = .ok u m') :
    (∃ misuse, m' = m.apply (.record misuse) ∧ m.Fits (.record misuse)) ∨
      ∃ type, m' = m.apply (.defineStruct id type) ∧ m.Fits (.defineStruct id type) := by
  simp only [setStructBody, bind_eq_ok_iff, query_eq_ok_iff] at h
  obtain ⟨type, _, ⟨htype, rfl⟩, h⟩ := h
  split at h
  · obtain rfl := modify_eq_ok_iff.mp h
    exact .inr ⟨_, rfl, _, _, _, _, Arena.entry_eq_ok_iff.mp htype, rfl⟩
  · obtain ⟨function, hfunction, rfl⟩ := record_eq_ok_iff.mp h
    exact .inl ⟨_, rfl, hfunction, fun h => Bool.noConfusion h⟩
  · obtain ⟨function, hfunction, rfl⟩ := record_eq_ok_iff.mp h
    exact .inl ⟨_, rfl, hfunction, fun h => Bool.noConfusion h⟩

/-- A struct without members gets them. -/
theorem setStructBody_of_blank {id : TypeId} {name : String} {members : List TypeId}
    {packed packed' : Bool} (hblank : m.types[id.index]? = some (.struct name none packed'))
    (h : setStructBody id members packed m = .ok u m') :
    m' = m.apply (.defineStruct id (.struct name (some members) packed)) := by
  simp only [setStructBody, bind_eq_ok_iff, query_eq_ok_iff, Module.typeData, Arena.entry_eq_ok_iff,
    hblank] at h
  obtain ⟨type, _, ⟨hsome, rfl⟩, hmodify⟩ := h
  obtain rfl := Option.some.inj hsome
  exact modify_eq_ok_iff.mp hmodify

/-- A cast is an instruction, also where it does not fit. -/
theorem cast_eq_ok {op : CastOp} {value v : ValueId} {target : TypeId}
    (h : cast op value target m = .ok v m') :
    ∃ m₁, (m₁ = m ∨ ∃ misuse, record misuse m = .ok () m₁) ∧
      pushInst target (.cast op value) m₁ = .ok v m' := by
  simp only [cast, bind_eq_ok_iff, query_eq_ok_iff] at h
  obtain ⟨_, _, ⟨-, rfl⟩, _, _, ⟨-, rfl⟩, h⟩ := h
  split at h
  · obtain ⟨_, m₁, hrecord, hpush⟩ := bind_eq_ok_iff.mp h
    exact ⟨m₁, .inr ⟨_, hrecord⟩, hpush⟩
  · exact ⟨_, .inl rfl, h⟩

theorem setLinkage_eq_ok {function : FunctionId} {linkage : Linkage}
    (h : setLinkage function linkage m = .ok u m') :
    m' = m.apply (.setLinkage function linkage) := by
  simp only [setLinkage, bind_eq_ok_iff, query_eq_ok_iff, modifyFunction, modify_eq_ok_iff] at h
  obtain ⟨_, _, ⟨-, rfl⟩, rfl⟩ := h
  rfl

/-- Optimizing a function at most takes blocks out of it. -/
theorem optimize_cases {function : FunctionId} {level : OptLevel}
    (h : optimize function level m = .ok u m') :
    m' = m ∨ ∃ kept, m' = m.apply (.keepBlocks function kept) := by
  rw [optimize] at h
  split at h
  · simp only [bind_eq_ok_iff, query_eq_ok_iff, set_eq_ok_iff] at h
    obtain ⟨_, _, ⟨hremoved, rfl⟩, rfl⟩ := h
    simp only [removeUnreachable, exceptBind_eq_ok_iff] at hremoved
    obtain ⟨f, -, hremoved⟩ := hremoved
    split at hremoved
    · exact .inl (exceptPure_eq_ok_iff.mp hremoved)
    · simp only [exceptBind_eq_ok_iff, exceptPure_eq_ok_iff] at hremoved
      obtain ⟨kept, -, rfl⟩ := hremoved
      split
      · exact .inl rfl
      · exact .inr ⟨kept, rfl⟩
  · exact .inl (pure_eq_ok_iff.mp h).2

end Others

theorem evolves_record [hP : Change.Valuing P] {m : Module} {misuse : Option FunctionId × Misuse}
    (h : m.Fits (.record misuse)) : m.Evolves P (m.apply (.record misuse)) :=
  Evolves.one (hP.record _) h

section Joining

variable [hP : Change.Joining P]

instance (b : BlockId) (type : TypeId) : Keeps (Evolves P) (phi b type) where
  run h := by
    obtain ⟨-, rfl, block, hblock⟩ := phi_eq_ok h
    exact Evolves.one (c := .addPhi b type) (hP.addPhi b type)
      (Array.getElem?_eq_some_iff.mp hblock).1

instance (phi value : ValueId) (source : BlockId) :
    Keeps (Evolves P) (addIncoming phi value source) where
  run {m _ m'} h := by
    obtain ⟨m₁, hfirst, hlast⟩ := addIncoming_cases h
    have h₁ : m.Evolves P m₁ := by
      rcases hfirst with rfl | ⟨misuse, rfl, hfits⟩
      · exact Relation.ReflTransGen.refl
      · exact evolves_record hfits
    have h₂ : m₁.Evolves P m' := by
      rcases hlast with ⟨misuse, rfl, hfits⟩ | ⟨rfl, hfits⟩
      · exact evolves_record hfits
      · exact Evolves.one (hP.addEntry phi value source) hfits
    exact Relation.ReflTransGen.trans h₁ h₂

end Joining

section Staying

variable [hP : Change.Staying P]

instance (terminator : Terminator) : Keeps (Evolves P) (terminate terminator) where
  run h := by
    rcases terminate_cases h with ⟨misuse, rfl, hfits⟩ | ⟨b, rfl, hfits⟩
    · exact evolves_record hfits
    · exact Evolves.one (hP.permits _ rfl rfl) hfits

instance (function : FunctionId) (name : String) :
    Keeps (Evolves P) (appendBlock function name) where
  run h := by
    obtain ⟨-, rfl, -⟩ := appendBlock_eq_ok h
    exact Evolves.one (c := .addBlock function name) (hP.permits _ rfl rfl) trivial

instance (id : TypeId) (members : List TypeId) (packed : Bool) :
    Keeps (Evolves P) (setStructBody id members packed) where
  run h := by
    rcases setStructBody_cases h with ⟨misuse, rfl, hfits⟩ | ⟨type, rfl, hfits⟩
    · exact evolves_record hfits
    · exact Evolves.one (hP.permits _ rfl rfl) hfits

instance (function : FunctionId) (linkage : Linkage) :
    Keeps (Evolves P) (setLinkage function linkage) where
  run h := by
    obtain rfl := setLinkage_eq_ok h
    exact Evolves.one (c := .setLinkage function linkage) (hP.permits _ rfl rfl) trivial

instance (function : FunctionId) (level : OptLevel) :
    Keeps (Evolves P) (optimize function level) where
  run h := by
    rcases optimize_cases h with rfl | ⟨kept, rfl⟩
    · exact Relation.ReflTransGen.refl
    · exact Evolves.one (c := .keepBlocks function kept) (hP.permits _ rfl rfl) trivial

instance (target : BlockId) : Keeps (Evolves P) (br target) := by
  unfold br
  infer_instance

instance (cond : ValueId) (thenBlock elseBlock : BlockId) :
    Keeps (Evolves P) (condBr cond thenBlock elseBlock) := by
  unfold condBr
  infer_instance

instance (value : ValueId) (default : BlockId) (cases : List (Int × BlockId)) :
    Keeps (Evolves P) (switch value default cases) := by
  unfold switch
  infer_instance

instance (value : Option ValueId) : Keeps (Evolves P) (ret value) := by
  unfold ret
  refine Keeps.seq inferInstance fun function => ?_
  cases function <;> infer_instance

instance : Keeps (Evolves P) unreachable := by
  unfold unreachable
  infer_instance

end Staying

instance [hP : Change.Arranging P] (b : BlockId) : Keeps (Evolves P) (positionAtEnd b) where
  run h := by
    obtain rfl := positionAtEnd_eq_ok h
    exact Evolves.one (c := .moveTo b) (hP.permits _ rfl) trivial

instance (global value : ValueId) : Keeps (Evolves Change.Any) (setInitializer global value) where
  run h := by
    rcases setInitializer_cases h with ⟨misuse, rfl, hfits⟩ | ⟨rfl, hfits⟩
    · exact evolves_record hfits
    · exact Evolves.one trivial hfits

end Build

end CilSsa.Ssa
