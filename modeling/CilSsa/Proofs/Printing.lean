import CilSsa.Proofs.ClosedRequests
import CilSsa.Proofs.Faults
import CilSsa.Ssa.Printer

/-!
The printer comes to an end.

The text of a type is made of the texts of its parts, and the text of a constant of those of its
items.  Structs are printed by their names, and so are globals, so circles through members and
initial values are not followed.  In a closed module what is followed is older each time, and it is
there, so the fuel of the printer is enough, and more of it changes nothing.
-/

namespace CilSsa.Ssa

abbrev Answered {α : Type} (x : Except Fault α) : Prop := Faults (fun _ => False) x

theorem Answered.exists_ok {α : Type} {x : Except Fault α} (h : Answered x) : ∃ a, x = .ok a := by
  cases x with
  | ok a => exact ⟨a, rfl⟩
  | error fault => exact (Faults.fault h rfl).elim

theorem Answered.of_ok {α : Type} {x : Except Fault α} {a : α} (h : x = .ok a) : Answered x := by
  subst h
  exact Faults.pure a

theorem exceptMapM_eq_ok {ε α β : Type} {f : α → Except ε β} {g : α → β} {items : List α}
    (h : ∀ a ∈ items, f a = .ok (g a)) : items.mapM f = .ok (items.map g) :=
  (exceptMapM_congr h).trans List.mapM_pure

/-- A text with one unit of fuel on top of what is enough for its parts. -/
theorem exists_text_of_succ {n : Nat} {textWith : Nat → Except Fault String}
    (h : ∃ text, ∀ fuel, n ≤ fuel → textWith (fuel + 1) = .ok text) :
    ∃ text, ∀ fuel, n < fuel → textWith fuel = .ok text := by
  obtain ⟨text, htext⟩ := h
  refine ⟨text, fun fuel hfuel => ?_⟩
  cases fuel with
  | zero => cases hfuel
  | succ fuel => exact htext fuel (Nat.le_of_lt_succ hfuel)

namespace Module

variable {m : Module}

section Access

theorem answered_typeData {id : TypeId} (h : m.Has (.type id)) : Answered (m.typeData id) :=
  .of_ok (Arena.entry_eq_ok_iff.mpr (Array.getElem?_eq_getElem h))

theorem answered_value {id : ValueId} (h : m.Has (.value id)) : Answered (m.value id) :=
  .of_ok (Arena.entry_eq_ok_iff.mpr (Array.getElem?_eq_getElem h))

theorem answered_block {id : BlockId} (h : m.Has (.block id)) : Answered (m.block id) :=
  .of_ok (Arena.entry_eq_ok_iff.mpr (Array.getElem?_eq_getElem h))

theorem answered_function {id : FunctionId} (h : m.Has (.function id)) : Answered (m.function id) :=
  .of_ok (Arena.entry_eq_ok_iff.mpr (Array.getElem?_eq_getElem h))

theorem answered_typeOf {id : ValueId} (h : m.Has (.value id)) : Answered (m.typeOf id) :=
  Faults.seq (answered_value h) fun _ _ => Faults.pure _

theorem answered_label {id : BlockId} (h : m.Has (.block id)) : Answered (m.label id) :=
  Faults.seq (answered_block h) fun _ _ => Faults.pure _

end Access

section Recursions

variable (hclosed : m.Closed)

include hclosed

theorem exists_typeText {id : TypeId} (h : m.Has (.type id)) :
    ∃ text, ∀ fuel, id.index < fuel → m.typeTextWith fuel id = .ok text := by
  induction id using hclosed.wellFounded_partOf.induction with
  | _ id ih =>
  obtain ⟨type, htype⟩ := (answered_typeData h).exists_ok
  obtain ⟨hknown, holder⟩ := hclosed.typeAt htype
  -- The parts are older, so one unit less of fuel is enough for them.
  have hparts : ∀ part ∈ type.parts, ∃ text, ∀ fuel, id.index ≤ fuel →
      m.typeTextWith fuel part = .ok text := by
    intro part hpart
    have hhas := hknown _ (List.mem_map_of_mem (List.mem_append_left _ hpart))
    obtain ⟨text, htext⟩ := ih part ⟨type, Arena.entry_eq_ok_iff.mp htype, hpart⟩ hhas
    exact ⟨text, fun fuel hfuel => htext fuel (Nat.lt_of_lt_of_le (holder part hpart) hfuel)⟩
  choose! text htext using hparts
  apply exists_text_of_succ
  simp only [typeTextWith, htype]
  cases type with
  | void | int | float | struct => exact ⟨_, fun _ _ => rfl⟩
  | pointer pointee =>
      refine ⟨text pointee ++ "*", fun fuel hfuel => ?_⟩
      simp [htext pointee (by simp [IrType.parts]) fuel hfuel]
  | array element length =>
      refine ⟨s!"[{length} x {text element}]", fun fuel hfuel => ?_⟩
      simp [htext element (by simp [IrType.parts]) fuel hfuel]
  | function result params =>
      refine ⟨s!"{text result} ({commas (params.map text)})", fun fuel hfuel => ?_⟩
      have hparams : params.mapM (m.typeTextWith fuel) = .ok (params.map text) :=
        exceptMapM_eq_ok fun param hparam => htext param (by simp [IrType.parts, hparam]) fuel hfuel
      simp [hparams, htext result (by simp [IrType.parts]) fuel hfuel]

theorem answered_typeText {id : TypeId} (h : m.Has (.type id)) : Answered (m.typeText id) := by
  obtain ⟨text, htext⟩ := exists_typeText hclosed h
  exact .of_ok (htext _ (Nat.lt_succ_of_lt h))

theorem exists_operand {id : ValueId} (h : m.Has (.value id)) :
    ∃ text, ∀ fuel, id.index < fuel → m.operandWith fuel id = .ok text := by
  induction id using hclosed.wellFounded_itemOf.induction with
  | _ id ih =>
  obtain ⟨⟨type, kind⟩, hvalue⟩ := (answered_value h).exists_ok
  obtain ⟨hknown, holder⟩ := hclosed.valueAt hvalue
  have hitems : ∀ item ∈ kind.items, ∃ text, ∀ fuel, id.index ≤ fuel → (do
      let type ← m.typeText (← m.typeOf item)
      return s!"{type} {← m.operandWith fuel item}") = .ok text := by
    intro item hitem
    have hhas := hknown _ (List.mem_cons_of_mem _ (ValueKind.handles_of_mem_items hitem))
    obtain ⟨text, htext⟩ := ih item ⟨_, Arena.entry_eq_ok_iff.mp hvalue, hitem⟩ hhas
    obtain ⟨type, htype⟩ := (answered_typeOf hhas).exists_ok
    obtain ⟨typeText, htypeText⟩ := (answered_typeText hclosed (hclosed.typeOf htype)).exists_ok
    refine ⟨s!"{typeText} {text}", fun fuel hfuel => ?_⟩
    simp [htype, htypeText, htext fuel (Nat.lt_of_lt_of_le (holder item hitem) hfuel)]
  choose! text htext using hitems
  apply exists_text_of_succ
  simp only [operandWith, hvalue]
  cases kind with
  | constNull =>
      obtain ⟨data, hdata⟩ := (answered_typeData (hknown _ List.mem_cons_self)).exists_ok
      refine ⟨zeroText data, fun _ _ => ?_⟩
      simp [hdata]
  | constAggregate items =>
      refine ⟨"\x7b " ++ commas (items.map text) ++ " \x7d", fun fuel hfuel => ?_⟩
      have hall := exceptMapM_eq_ok fun item hitem => htext item hitem fuel hfuel
      exact exceptBind_eq_ok_iff.mpr ⟨_, rfl, exceptBind_eq_ok_iff.mpr ⟨_, hall, rfl⟩⟩
  | function f =>
      have hhas := hknown (.function f) (by simp [Value.handles, ValueKind.handles])
      obtain ⟨function, hfunction⟩ := (answered_function hhas).exists_ok
      refine ⟨"@" ++ function.name, fun _ _ => ?_⟩
      simp [hfunction]
  | _ => exact ⟨_, fun _ _ => rfl⟩

theorem answered_operand {id : ValueId} (h : m.Has (.value id)) : Answered (m.operand id) := by
  obtain ⟨text, htext⟩ := exists_operand hclosed h
  exact .of_ok (htext _ (Nat.lt_succ_of_lt h))

theorem answered_typed {id : ValueId} (h : m.Has (.value id)) : Answered (m.typed id) := by
  have := answered_operand hclosed h
  unfold typed
  refine Faults.seq (answered_typeOf h) fun _ htype => ?_
  have := answered_typeText hclosed (hclosed.typeOf htype)
  infer_instance

end Recursions

section Code

variable (hclosed : m.Closed)

include hclosed

theorem answered_instBody {type : TypeId} {inst : Inst} (htype : m.Has (.type type))
    (h : m.HasAll inst.handles) : Answered (m.instBody type inst) := by
  have hresult := answered_typeText hclosed htype
  have htext (id : TypeId) (hid : .type id ∈ inst.handles) := answered_typeText hclosed (h _ hid)
  have hoperand (id : ValueId) (hid : .value id ∈ inst.handles) :=
    answered_operand hclosed (h _ hid)
  have htyped (id : ValueId) (hid : .value id ∈ inst.handles) := answered_typed hclosed (h _ hid)
  unfold instBody
  cases inst with
  | binary _ lhs rhs | icmp _ lhs rhs | fcmp _ lhs rhs =>
      have := htyped lhs (by simp [Inst.handles])
      have := hoperand rhs (by simp [Inst.handles])
      infer_instance
  | unary _ value | cast _ value | load value =>
      have := htyped value (by simp [Inst.handles])
      infer_instance
  | alloca content =>
      have := htext content (by simp [Inst.handles])
      infer_instance
  | store pointer value _ =>
      have := htyped pointer (by simp [Inst.handles])
      have := htyped value (by simp [Inst.handles])
      infer_instance
  | structGep struct pointer _ =>
      have := htext struct (by simp [Inst.handles])
      have := htyped pointer (by simp [Inst.handles])
      infer_instance
  | gep element pointer index =>
      have := htext element (by simp [Inst.handles])
      have := htyped pointer (by simp [Inst.handles])
      have := htyped index (by simp [Inst.handles])
      infer_instance
  | heapAlloc content count =>
      have := htext content (by simp [Inst.handles])
      refine Faults.seq inferInstance fun _ _ => ?_
      cases count with
      | none => exact Faults.pure _
      | some count =>
          have := htyped count (by simp [Inst.handles])
          infer_instance
  | phi incoming =>
      refine Faults.seq (Faults.composes.mapM fun (value, source) hentry => ?_) fun _ _ =>
        inferInstance
      have := hoperand value (List.mem_flatMap_of_mem hentry (by simp))
      have := answered_label (h (.block source) (List.mem_flatMap_of_mem hentry (by simp)))
      infer_instance
  | call callee args =>
      refine Faults.seq (Faults.composes.mapM fun arg harg => ?_) fun _ _ => ?_
      · exact htyped arg (by simp [Inst.handles, harg])
      · cases callee with
        | direct f =>
            have := answered_function (h (.function f) (by simp [Inst.handles, Callee.handles]))
            infer_instance
        | indirect _ pointer =>
            have := hoperand pointer (by simp [Inst.handles, Callee.handles])
            infer_instance

theorem answered_instText {id : ValueId} {inst : Inst} (hid : m.Has (.value id))
    (h : m.HasAll inst.handles) : Answered (m.instText id inst) := by
  unfold instText
  refine Faults.seq (answered_typeOf hid) fun type htype => ?_
  have hhas := hclosed.typeOf htype
  have := answered_instBody hclosed hhas h
  have : Answered (m.namesResult type inst) := by
    have := answered_typeData hhas
    unfold namesResult
    split <;> infer_instance
  infer_instance

theorem answered_terminatorText {terminator : Terminator} (h : m.HasAll terminator.handles) :
    Answered (m.terminatorText terminator) := by
  unfold terminatorText
  cases terminator with
  | br target =>
      have := answered_label (h (.block target) (by simp [Terminator.handles]))
      infer_instance
  | condBr cond thenBlock elseBlock =>
      have := answered_typed hclosed (h (.value cond) (by simp [Terminator.handles]))
      have := answered_label (h (.block thenBlock) (by simp [Terminator.handles]))
      have := answered_label (h (.block elseBlock) (by simp [Terminator.handles]))
      infer_instance
  | switch value default cases =>
      have hvalue := h (.value value) (by simp [Terminator.handles])
      have := answered_typed hclosed hvalue
      have := answered_label (h (.block default) (by simp [Terminator.handles]))
      refine Faults.seq (answered_typeOf hvalue) fun _ htype => ?_
      have := answered_typeText hclosed (hclosed.typeOf htype)
      refine Faults.seq inferInstance fun _ _ => ?_
      refine Faults.seq (Faults.composes.mapM fun (case, target) hcase => ?_) fun _ _ =>
        inferInstance
      have htarget : .block target ∈ (Terminator.switch value default cases).handles :=
        List.mem_cons_of_mem _ (List.mem_cons_of_mem _ (List.mem_map_of_mem hcase))
      have := answered_label (h _ htarget)
      infer_instance
  | ret value =>
      cases value with
      | none => exact Faults.pure _
      | some value =>
          have := answered_typed hclosed (h (.value value) (by simp [Terminator.handles]))
          infer_instance
  | unreachable => exact Faults.pure _

theorem answered_blockLines {id : BlockId} (h : m.Has (.block id)) :
    Answered (m.blockLines id) := by
  unfold blockLines
  refine Faults.seq (answered_block h) fun block hblock => ?_
  have hknown := hclosed.block hblock
  refine Faults.seq (Faults.composes.filterMapM fun v hv => ?_) fun insts _ => ?_
  · have hhas := hknown (.value v) (by simp [Block.handles, hv])
    have hasked : Answered (m.inst? v) := Faults.seq (answered_value hhas) fun _ _ => Faults.pure _
    refine Faults.seq hasked fun found hfound => ?_
    cases found with
    | none => exact Faults.pure none
    | some inst =>
        have := answered_instText hclosed hhas (hclosed.inst hfound)
        infer_instance
  · cases hterminator : block.terminator with
    | none => infer_instance
    | some terminator =>
        have hhas : m.HasAll terminator.handles := fun handle hmem =>
          hknown handle (by simp [Block.handles, hterminator, hmem])
        have := answered_terminatorText hclosed hhas
        infer_instance

theorem answered_paramTexts (index : Nat) {params : List TypeId}
    (h : ∀ param ∈ params, m.Has (.type param)) : Answered (m.paramTexts index params) := by
  induction params generalizing index with
  | nil => exact Faults.pure _
  | cons param rest ih =>
      have := answered_typeText hclosed (h param List.mem_cons_self)
      have := ih (index + 1) fun other hmem => h other (List.mem_cons_of_mem _ hmem)
      unfold paramTexts
      infer_instance

theorem answered_functionLines {f : Function} (h : m.HasAll f.handles) :
    Answered (m.functionLines f) := by
  have hblocks : Answered (f.blocks.mapM m.blockLines) :=
    Faults.composes.mapM fun b hb =>
      answered_blockLines hclosed (h _ (by simp [Function.handles, hb]))
  have htype := answered_typeData (h (.type f.type) (by simp [Function.handles]))
  unfold functionLines
  refine Faults.seq (Faults.seq htype fun type _ => ?_) fun signature hsignature => ?_
  · cases type <;> exact Faults.pure _
  generalize f.blocks = blocks at hblocks ⊢
  rcases signature with _ | ⟨result, params⟩
  · have hnone : ∀ param ∈ ([] : List TypeId), m.Has (.type param) := fun _ h => nomatch h
    have := answered_paramTexts hclosed 0 hnone
    simp only [pure_bind]
    cases blocks <;> infer_instance
  · have hknown := hclosed.signature hsignature
    have := answered_typeText hclosed (hknown (.type result) List.mem_cons_self)
    have hparams : ∀ param ∈ params, m.Has (.type param) := fun param hparam =>
      hknown _ (List.mem_cons_of_mem _ (List.mem_map_of_mem hparam))
    have := answered_paramTexts hclosed 0 hparams
    simp only [pure_bind]
    cases blocks <;> infer_instance

theorem answered_structLine {type : IrType} (h : m.HasAll type.handles) :
    Answered (m.structLine? type) := by
  unfold structLine?
  split
  · exact Faults.pure _
  · rename_i name body packed
    refine Faults.seq (Faults.composes.mapM fun member hmember => ?_) fun _ _ => Faults.pure _
    exact answered_typeText hclosed (h _ (by simp [IrType.handles, IrType.members, hmember]))
  · exact Faults.pure _

theorem answered_globalLine {id : ValueId} (h : m.Has (.value id)) :
    Answered (m.globalLine? id) := by
  unfold globalLine?
  refine Faults.seq (answered_value h) fun value hvalue => ?_
  have hknown := (hclosed.valueAt hvalue).known
  split
  · rename_i name content initial hkind
    have := answered_typeText hclosed
      (hknown (.type content) (by simp [Value.handles, hkind, ValueKind.handles]))
    have := answered_operand hclosed
      (hknown (.value initial) (by simp [Value.handles, hkind, ValueKind.handles]))
    infer_instance
  · exact Faults.pure _

/-- A closed module has a text. -/
theorem answered_render : Answered m.render := by
  have hstructs : Answered (m.types.toList.filterMapM m.structLine?) := by
    refine Faults.composes.filterMapM fun type htype => ?_
    obtain ⟨i, hat⟩ := hclosed.types.of_mem htype
    exact answered_structLine hclosed hat.known
  have hglobals : Answered (m.globals.toList.filterMapM m.globalLine?) :=
    Faults.composes.filterMapM fun global hglobal =>
      answered_globalLine hclosed (hclosed.globals global (by simpa using hglobal))
  have hfunctions :
      Answered (m.functions.toList.mapM fun f => return "" :: (← m.functionLines f)) := by
    refine Faults.composes.mapM fun f hf => ?_
    obtain ⟨i, hat⟩ := hclosed.functions.of_mem hf
    have := answered_functionLines hclosed hat
    infer_instance
  unfold render lines
  infer_instance

end Code

end Module

namespace Command

/-- Printing comes to an end.  Whatever the builder is asked for with handles of what is
there, types are made of their parts, and constants of their items, in finitely many steps.
Every type and every value has a text, which is the same with all fuel above its index, and
so the module has one. -/
theorem printing_ends {name : String} {commands : List Command} {m : Module}
    (hrange : InRange commands { name }) (h : runAll commands { name } = .ok () m) :
    WellFounded m.PartOf ∧ WellFounded m.ItemOf ∧
      (∀ id, m.Has (.type id) → ∃ text, m.typeText id = .ok text ∧
        ∀ fuel, id.index < fuel → m.typeTextWith fuel id = .ok text) ∧
      (∀ v, m.Has (.value v) → ∃ text, m.operand v = .ok text ∧
        ∀ fuel, v.index < fuel → m.operandWith fuel v = .ok text) ∧
      (∀ v, m.Has (.value v) → ∃ text, m.typed v = .ok text) ∧
      ∃ text, m.render = .ok text := by
  have hclosed := closed_of_inRange hrange h
  refine ⟨hclosed.wellFounded_partOf, hclosed.wellFounded_itemOf, fun id hid => ?_, fun v hv => ?_,
    fun v hv => ?_, ?_⟩
  · obtain ⟨text, htext⟩ := Module.exists_typeText hclosed hid
    exact ⟨text, htext _ (Nat.lt_succ_of_lt hid), htext⟩
  · obtain ⟨text, htext⟩ := Module.exists_operand hclosed hv
    exact ⟨text, htext _ (Nat.lt_succ_of_lt hv), htext⟩
  · exact (Module.answered_typed hclosed hv).exists_ok
  · exact (Module.answered_render hclosed).exists_ok

/-- A struct with a pointer to itself, two structs with pointers to each other, a table that holds
its own address, two globals that start with the addresses of each other, and code. -/
def circles : List Command :=
  [.namedStruct "Node", .pointerType ⟨0⟩, .intType 32, .setStructBody ⟨0⟩ [⟨2⟩, ⟨1⟩] false,
    .namedStruct "Even", .namedStruct "Odd", .pointerType ⟨3⟩, .pointerType ⟨4⟩,
    .setStructBody ⟨3⟩ [⟨6⟩] false, .setStructBody ⟨4⟩ [⟨5⟩] true,
    .namedStruct "Table", .pointerType ⟨7⟩, .setStructBody ⟨7⟩ [⟨8⟩] false,
    .addGlobal "table" ⟨7⟩, .constStruct ⟨7⟩ [⟨1⟩], .setInitializer ⟨1⟩ ⟨2⟩,
    .addGlobal "even" ⟨3⟩, .addGlobal "odd" ⟨4⟩, .constStruct ⟨3⟩ [⟨6⟩], .constStruct ⟨4⟩ [⟨4⟩],
    .setInitializer ⟨4⟩ ⟨7⟩, .setInitializer ⟨6⟩ ⟨8⟩,
    .voidType, .functionType ⟨9⟩ [⟨1⟩], .addFunction "main" ⟨10⟩ .external,
    .appendBlock ⟨0⟩ "entry", .positionAtEnd ⟨0⟩, .structGep ⟨0⟩ ⟨10⟩ 1, .ret none]

/-- What the builder makes of it. -/
def circled : Module := stateOf (runAll circles { name := "circles" })

theorem circled_printed :
    InRange circles { name := "circles" } ∧
      runAll circles { name := "circles" } = .ok () circled ∧ circled.misuses.size = 0 ∧
      circled.initializer? ⟨1⟩ = .ok (some ⟨2⟩) ∧ circled.ItemOf ⟨1⟩ ⟨2⟩ ∧
      WellFounded circled.PartOf ∧ WellFounded circled.ItemOf ∧
      circled.typeText ⟨1⟩ = .ok "%Node*" ∧ circled.operand ⟨2⟩ = .ok "\x7b %Table* @table \x7d" ∧
      ∃ text, circled.render = .ok text := by
  have hrange : InRange circles { name := "circles" } := by decide +kernel
  have h : runAll circles { name := "circles" } = .ok () circled :=
    eq_ok_stateOf (by decide +kernel)
  have hitem : circled.values[2]? = some ⟨⟨7⟩, .constAggregate [⟨1⟩]⟩ := by decide +kernel
  obtain ⟨htypes, hvalues, -, -, -, htext⟩ := printing_ends hrange h
  exact ⟨hrange, h, by decide +kernel, by decide +kernel, ⟨_, hitem, List.mem_singleton_self _⟩,
    htypes, hvalues, by decide +kernel, by decide +kernel, htext⟩

end Command

end CilSsa.Ssa
