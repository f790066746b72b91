import CilSsa.Metadata.Validation
import CilSsa.Proofs.SlotResolution
import CilSsa.Proofs.Unanswered

/-!
Programs and what they look up.

Once the types of a well-formed program are defined, its bodies are emitted one after the other, and
everything that was prepared for them stays.  So a compilation fails for lack of an entry exactly
where an instruction has no answer.
-/

namespace CilSsa

open Ssa Metadata Lowering

namespace Lowering

variable {asm : Assembly} {served : Instruction → Prop} {reason : LoweringError → Prop}

section Bodies

variable {settings : Settings} {m : MethodId} {d : MethodDef} {name : String} {body : MethodBody}

/-- The error of an instruction in a body that gets a function. -/
def Excuses (asm : Assembly) (e : LoweringError) : Prop :=
  ∃ m body, Lowers asm m body ∧ ∃ instr ∈ body.instructions, Unanswered asm instr e

theorem mem_allInstructions (hm : Lowers asm m body) {instr : Instruction}
    (hinstr : instr ∈ body.instructions) : instr ∈ allInstructions asm := by
  obtain ⟨d, _, hd, hbody, -⟩ := hm.method
  have hmem : d ∈ asm.methods.toList :=
    Array.mem_toList_iff.mpr (Array.mem_of_getElem? (Arena.entry_eq_ok_iff.mp hd))
  exact List.mem_flatMap.mpr ⟨body, List.mem_filterMap.mpr ⟨d, hmem, hbody⟩, hinstr⟩

instance (f : FunctionId) : Upholds (Session.Equipped asm served) (Excused reason)
    (Lower.finish settings f) := by
  have hverify : Upholds (Session.Equipped asm served) (Excused reason)
      (Lower.verify settings f) := by
    unfold Lower.verify
    split
    · refine Upholds.seq inferInstance fun result => ?_
      cases result with
      | ok => infer_instance
      | error error => exact upholds_fail rfl
    · infer_instance
  unfold Lower.finish
  infer_instance

/-- A body fails for lack of an entry only where an instruction has no answer. -/
theorem upholds_compileBody [WellFormed asm]
    (hm : bodySupport body.instructions = .full → Lowers asm m body) :
    Upholds (Session.Equipped asm (· ∈ allInstructions asm)) (Excused (Excuses asm))
      (compileBody asm settings m d name body) := by
  unfold compileBody
  split
  · exact upholds_fail rfl
  · infer_instance
  · rename_i hsupport
    have hlowers := hm hsupport
    have hemit (f : FunctionId) :
        Upholds (Session.Equipped asm (· ∈ allInstructions asm)) (Excused (Excuses asm))
          (emitBody asm d name f body) := by
      refine Leads.upholds (leads_emitBody_of_entry (Upholds.leads inferInstance)
        (fun _ => inferInstance) fun site hasm hmem => ?_)
      subst hasm
      exact upholds_instruction_of_equipped (mem_allInstructions hlowers hmem)
        fun e hnone => ⟨m, body, hlowers, site.instr, hmem, hnone⟩
    infer_instance

theorem upholds_compileMethod [WellFormed asm] {ty : TypeDefId} {t : TypeDef}
    (hty : ty ∈ asm.userTypes) (ht : asm.typeDef ty = .ok t) (hm : m ∈ t.methods) :
    Upholds (Session.Equipped asm (· ∈ allInstructions asm)) (Excused (Excuses asm))
      (compileMethod asm settings m) := by
  unfold compileMethod
  refine Upholds.seqOf inferInstance fun {s d s'} _ hd =>
    Upholds.seqOf inferInstance fun {s kind s'} _ hkind =>
    Upholds.seq inferInstance fun name => ?_
  have hd := (Lower.ask_eq_ok_iff.mp hd).1
  have hkind := (Lower.ask_eq_ok_iff.mp hkind).1
  split
  · infer_instance
  · rename_i hneeded
    cases hbody : d.body with
    | none => infer_instance
    | some body =>
        exact upholds_compileBody fun hsupport =>
          ⟨⟨ty, hty, t, ht, hm⟩, ⟨d, kind, hd, hbody, hkind, by simpa using hneeded⟩, hsupport⟩

theorem upholds_compileMethodsOf [WellFormed asm] {p : Progress} {ty : TypeDefId}
    (hty : ty ∈ asm.userTypes) :
    Upholds (Session.Equipped asm (· ∈ allInstructions asm)) (Excused (Excuses asm))
      (compileMethodsOf asm settings p ty) := by
  unfold compileMethodsOf
  refine Upholds.seqOf inferInstance fun {s t s'} _ ht =>
    Upholds.composes.foldlM (fun p m hm => ?_) _
  have : Upholds (Session.Equipped asm (· ∈ allInstructions asm)) (Excused (Excuses asm))
      (compileMethod asm settings m) := upholds_compileMethod hty (Lower.ask_eq_ok_iff.mp ht).1 hm
  infer_instance

set_option synthInstance.maxSize 4096 in
instance (compiled : List MethodId) : Upholds (Session.Equipped asm served) (Excused reason)
    (emitStaticInit asm settings compiled) := by
  unfold emitStaticInit
  infer_instance

end Bodies

section Slots

variable {slot : MethodId} {d : MethodDef} {s declared : Session}

theorem introducesSlot_of_callsSlot {instr : Instruction} (hcalls : CallsSlot asm instr slot) :
    asm.introducesSlot slot = .ok true := by
  obtain ⟨-, target, -, hslot⟩ := hcalls
  have hstep := Assembly.slotStep_of_slotAfter hslot
  simp [Assembly.introducesSlot, Assembly.slotMethod, Assembly.slotAfter, hstep,
    exceptBind_eq_ok_iff]

theorem mem_introducedSlots [hasm : WellFormed asm] {instr : Instruction} {slots : List MethodId}
    (hcalls : CallsSlot asm instr slot) (hd : asm.method slot = .ok d)
    (hslots : asm.introducedSlots d.declaringType = .ok slots) : slot ∈ slots := by
  simp only [Assembly.introducedSlots, exceptBind_eq_ok_iff] at hslots
  obtain ⟨t, ht, hslots⟩ := hslots
  obtain rfl := (exceptFilterM_eq_ok_iff.mp hslots).2
  exact List.mem_filter.mpr ⟨hasm.mem_methods hd ht,
    decide_eq_true (introducesSlot_of_callsSlot hcalls)⟩

/-- When the types are defined, the slots of classes and interfaces that are called have places. -/
theorem slotAt_of_callsSlot [hasm : WellFormed asm] (hdeclared : Declared asm declared)
    (htidy : declared.Tidy asm) (hdefine : compileTypes asm declared = .ok () s)
    {instr : Instruction} (hinstr : instr ∈ allInstructions asm) (hcalls : CallsSlot asm instr slot)
    (hd : asm.method slot = .ok d) (hroot : Assembly.isRoot d.declaringType = false)
    (hkind : asm.kindOf d.declaringType = .ok .classType ∨
      asm.kindOf d.declaringType = .ok .interfaceType) :
    ∃ position, SlotAt s d.declaringType slot position := by
  rcases hkind with hkind | hkind
  · obtain ⟨t, ht, hclass⟩ := Assembly.kindOf_eq_ok_iff.mp hkind
    obtain ⟨_, _, _, layout, _, -, -, -, hlayout, -⟩ :=
      class_struct hdeclared hdefine ht hclass hroot
    obtain ⟨base, hbase, -⟩ := hasm.classes ht hroot hclass
    obtain ⟨_, own, -, hown, -⟩ := hlayout.split ht hbase hroot
    obtain ⟨_, _, -, -, -, hslots, -⟩ := own_eq_ok hown
    obtain ⟨slots, hslots, -⟩ := hslots hclass
    obtain ⟨chain, hchain, hself⟩ := exists_selfAndAncestors ht
    have hmarked := hdeclared.marked instr hinstr _ (hcalls.virtualOwner hd hkind)
    obtain ⟨table, htable, htables⟩ := class_tables hdeclared htidy hdefine ht hclass hroot
      (.inl ⟨chain, _, hchain, hself, hmarked⟩)
    obtain ⟨position, hposition, -⟩ :=
      htables.slotAt htable hroot hslots (mem_introducedSlots hcalls hd hslots)
    exact ⟨position, hposition⟩
  · obtain ⟨t, ht, hinterface⟩ := Assembly.kindOf_eq_ok_iff.mp hkind
    obtain ⟨table, type, slots, htable, hslots, htables⟩ :=
      interface_table hdeclared hdefine ht hinterface hroot
    obtain ⟨position, hposition⟩ := Option.isSome_iff_exists.mp
      (List.isSome_idxOf?.mpr (mem_introducedSlots hcalls hd hslots))
    refine ⟨position, table, ⟨d.declaringType, type, slots, none⟩, htable, ?_, hposition⟩
    simp [VTable.table?, htables]

/-- Once the types are declared, everything can be looked up but slots. -/
theorem equipped_of_declared (h : Declared asm s) (husers : s.UsersOnly) :
    s.Equipped asm fun _ => False where
  types hd hroot := by
    obtain ⟨id, hid⟩ := h.known _ (mem_userTypes hd hroot)
    simp [hid]
  users := husers
  interfaces hroot hkind := by
    obtain ⟨d, hd, -⟩ := Assembly.kindOf_eq_ok_iff.mp hkind
    rw [h.interfaces]
    exact List.mem_filter.mpr ⟨mem_userTypes hd hroot, isInterface_iff.mpr hkind⟩
  tables htable := by simp [h.rest.2.2.1] at htable
  routines hf := by simp [h.rest.2.2.2.2] at hf
  layouts := by
    rw [h.layouts]
    intro ty layout hlookup
    simp at hlookup
  slots hserved := hserved.elim

end Slots

section Programs

variable {settings : Settings} {report : Report} {s : Session} {name : String}

theorem upholds_declareTypes [WellFormed asm] :
    Upholds Session.UsersOnly (Excused (Excuses asm)) (declareTypes asm) :=
  inferInstance

theorem upholds_compileTypes [WellFormed asm] :
    Upholds (Session.Equipped asm fun _ => False) (Excused (Excuses asm)) (compileTypes asm) :=
  inferInstance

/-- What comes after the definition of the types. -/
theorem upholds_methods [WellFormed asm] :
    Upholds (Session.Equipped asm (· ∈ allInstructions asm)) (Excused (Excuses asm))
      (compileBodies asm settings) := by
  unfold compileBodies
  refine Upholds.seq (Upholds.composes.foldlM (fun p ty hty => upholds_compileMethodsOf hty) _)
    fun p => ?_
  infer_instance

/-- When the types of a program are declared, everything can be looked up but slots. -/
theorem equipped_of_declareTypes [WellFormed asm]
    (h : declareTypes asm { module := { name } } = .ok () s) : s.Equipped asm fun _ => False := by
  have hstart : Session.UsersOnly { module := { name } } := fun hlookup => by simp at hlookup
  have husers : s.UsersOnly := upholds_declareTypes.ok hstart h
  exact equipped_of_declared (declared_of_declareTypes h) husers

/-- When the types of a program are defined, its instructions have what they look up. -/
theorem equipped_of_compileTypes [WellFormed asm] {declared : Session}
    (hdeclare : declareTypes asm { module := { name } } = .ok () declared)
    (hdefine : compileTypes asm declared = .ok () s) :
    s.Equipped asm (· ∈ allInstructions asm) := by
  have hequipped := upholds_compileTypes.ok (equipped_of_declareTypes hdeclare) hdefine
  exact { hequipped with
    slots := slotAt_of_callsSlot (declared_of_declareTypes hdeclare) (tidy_of_declareTypes hdeclare)
      hdefine }

variable [WellFormed asm]

/-- A compilation fails for lack of an entry only where an instruction has no answer. -/
theorem excuses_of_compileProgram {e : LoweringError} (hlookup : e.isLookup = true)
    (h : compileProgram asm settings { module := { name } } = .error (.error e) s) :
    Excuses asm e := by
  rw [compileProgram_eq] at h
  rcases bind_eq_error_iff.mp h with hfails | ⟨_, declared, hdeclare, hrest⟩
  · exact upholds_declareTypes.fails (fun hlookup => by simp at hlookup) hfails hlookup
  · rcases bind_eq_error_iff.mp hrest with hfails | ⟨_, defined, hdefine, hmethods⟩
    · exact upholds_compileTypes.fails (equipped_of_declareTypes hdeclare) hfails hlookup
    · exact upholds_methods.fails (equipped_of_compileTypes hdeclare hdefine) hmethods hlookup

/-- In the end everything is there that was looked up. -/
theorem equipped_of_compileProgram
    (h : compileProgram asm settings { module := { name } } = .ok report s) :
    s.Equipped asm (· ∈ allInstructions asm) := by
  obtain ⟨declared, defined, hdeclare, hdefine, hmethods⟩ := compileProgram_eq_ok h
  exact upholds_methods.ok (equipped_of_compileTypes hdeclare hdefine) hmethods

/-- A compilation succeeds only if every instruction has an answer. -/
theorem not_excuses_of_compileProgram {e : LoweringError}
    (h : compileProgram asm settings { module := { name } } = .ok report s) : ¬ Excuses asm e := by
  rintro ⟨m, body, hm, instr, hmem, hnone⟩
  obtain ⟨declared, defined, hdeclare, hdefine, -⟩ := compileProgram_phases h
  obtain ⟨n, hn⟩ := List.mem_iff_getElem?.mp hmem
  obtain ⟨site, t, t', hemitted⟩ := emittedIn_of_compileProgram hm h hdeclare hdefine hn
  obtain rfl := hemitted.asm_eq
  obtain rfl := hemitted.instr
  have hran : Session.Later site.asm t.session t'.session :=
    (Emit.instruction_later site).run hemitted.run
  have hrootless := (equipped_of_compileProgram h).rootless.earlier
    (IsTrans.trans _ _ _ hran hemitted.after)
  exact not_unanswered_of_instruction hrootless hemitted.run hnone

/-- The entries that the bodies of a well-formed program look up are there, for all instructions but
those of three kinds: virtual calls through slots of a root or of a value type, new objects of a
root, and fields of a root.  A compilation fails for lack of an entry only at one of these, and it
succeeds only if there are none. -/
theorem lookups_of_compile :
    (∀ e, compile asm settings = .error (.error e) → e.isLookup = true → Excuses asm e) ∧
      ∀ compilation, compile asm settings = .ok compilation → ∀ e, ¬ Excuses asm e := by
  unfold compile
  cases hrun : compileProgram asm settings { module := { name := settings.moduleName } } with
  | ok report s =>
      exact ⟨fun _ h => (nomatch h), fun _ _ e => not_excuses_of_compileProgram hrun⟩
  | error stop s =>
      refine ⟨fun e h hlookup => ?_, fun _ h => (nomatch h)⟩
      obtain rfl := Except.error.inj h
      exact excuses_of_compileProgram hlookup hrun

def objectText : MethodDef where
  name := "ToString"
  declaringType := ⟨0⟩
  returnType := .string
  flags := ⟨MethodFlags.virtual ||| MethodFlags.newSlot⟩
  visibility := .publicAccess
  body := some { instructions := [{ opcode := .ldnull }, { opcode := .ret }] }

/-- A method that asks for the text of an object, with an operation for the call. -/
def askText (opcode : Opcode) : MethodDef where
  name := "Main"
  declaringType := ⟨3⟩
  returnType := .void
  flags := ⟨MethodFlags.static⟩
  visibility := .publicAccess
  body := some {
    instructions := [{ opcode := .ldnull }, { opcode, operand := .method ⟨0⟩ }, { opcode := .pop },
      { opcode := .ret }] }

/-- A program with a virtual method of the root, and a call of it. -/
def greeter (opcode : Opcode) : Assembly :=
  { Assembly.ofName "greeter" with
    types := #[
      { TypeDef.ofKind .classType "System" "Object" with methods := [⟨0⟩] },
      TypeDef.ofKind .classType "System" "ValueType",
      { TypeDef.ofKind .classType "System" "Enum" with base := some ⟨1⟩ },
      { TypeDef.ofKind .classType "" "C" with base := some ⟨0⟩, methods := [⟨1⟩] }]
    methods := #[objectText, askText opcode] }

theorem greeter_built (opcode : Opcode) : (greeter opcode).Built :=
  have hrooted := @Assembly.Built.addMethod _ _ ⟨0⟩ objectText ⟨0⟩ (.roots "greeter") rfl
  have htyped := hrooted.addType (d := TypeDef.ofKind .classType "" "C") rfl rfl
  @Assembly.Built.addMethod _ _ ⟨3⟩ (askText opcode) ⟨1⟩ htyped rfl

theorem greeter_wellFormed (opcode : Opcode) : WellFormed (greeter opcode) := by
  have htypes {ty : TypeDefId} {d : TypeDef} (hd : (greeter .call).typeDef ty = .ok d) :
      d.kind = .classType ∧ d.interfaces = [] ∧ (Assembly.isRoot ty = false → d.base = some ⟨0⟩) :=
    Assembly.forall_typeDef (P := fun ty d => d.kind = .classType ∧ d.interfaces = [] ∧
      (Assembly.isRoot ty = false → d.base = some ⟨0⟩)) (by decide) hd
  refine ⟨greeter_built opcode, fun hd hroot _ => ⟨⟨0⟩, (htypes hd).2.2 hroot, .inl rfl⟩,
    fun hd hmem => ?_, fun hkind => ?_⟩
  · simp [(htypes hd).2.1] at hmem
  · obtain ⟨d, hd, henum⟩ := Assembly.kindOf_eq_ok_iff.mp hkind
    cases (htypes hd).1.symm.trans henum

/-- The tables of the root are looked up for a virtual call, and they are missing.  Any other call
of the method is compiled. -/
theorem greeter_lookups :
    (greeter .callvirt).validate = .ok () ∧ WellFormed (greeter .callvirt) ∧
      compile (greeter .callvirt) {} = .error (.error (.vtableNotFound "System.Object")) ∧
      Excuses (greeter .callvirt) (.vtableNotFound "System.Object") ∧
      WellFormed (greeter .call) ∧ (∃ compilation, compile (greeter .call) {} = .ok compilation) ∧
      ¬ Excuses (greeter .call) (.vtableNotFound "System.Object") := by
  have hvirtual : WellFormed (greeter .callvirt) := greeter_wellFormed _
  have hdirect : WellFormed (greeter .call) := greeter_wellFormed _
  have hfails : compile (greeter .callvirt) {} =
      .error (.error (.vtableNotFound "System.Object")) := by decide +kernel
  have hok : (compile (greeter .call) {}).isOk = true := by decide +kernel
  obtain ⟨compilation, hcompiles⟩ : ∃ compilation, compile (greeter .call) {} =
      .ok compilation := by
    cases h : compile (greeter .call) {} with
    | ok compilation => exact ⟨compilation, rfl⟩
    | error stop => cases h ▸ hok
  exact ⟨by decide +kernel, hvirtual, hfails, lookups_of_compile.1 _ hfails rfl, hdirect,
    ⟨compilation, hcompiles⟩, lookups_of_compile.2 compilation hcompiles _⟩

end Programs

end Lowering

end CilSsa
