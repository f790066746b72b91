import CilSsa.Proofs.LoweredBodies
import CilSsa.Proofs.ObjectTables
import CilSsa.Proofs.SlotCalls

/-!
Virtual calls.

Four computations meet in a virtual call: which classes get tables, where an object has its pointers
to them, what stands in a table, and what is emitted for the call.  A call through a slot of a class
loads the member of that class's struct and takes an entry by the position in that class's table; a
call through a slot of an interface goes through the first member of any object.  Both ways end at
the function of the method that implements the slot for the class of the object.
-/

namespace CilSsa

open Ssa Metadata Lowering

namespace Lowering

section Receivers

variable {m : Module} {image : Image} {receiver table call g : ValueId} {position : Nat}
  {args items : List ValueId} {value : ValueId}

/-- The code for a slot of a class finds the table that the object holds where the struct of the
class has its member. -/
theorem LoadsClassTable.leads {struct : TypeId} {member offset : Nat}
    (h : LoadsClassTable m receiver struct member table)
    (hoffset : m.offset? struct member = some offset) (hholds : image.Holds offset g) :
    m.Leads image receiver table (.table g 0) := by
  obtain ⟨pointer, place, hpointer, hplace, htable⟩ := h
  have hmember : m.Leads image receiver place (.object (0 + offset)) :=
    .member (.recast .receiver hpointer) hplace hoffset
  rw [Nat.zero_add] at hmember
  exact .held hmember htable hholds

/-- The code for a slot of an interface finds the table that stands at the index of the interface in
the table which the object begins with. -/
theorem LoadsInterfaceTable.leads {index : Nat} {inst : ValueId} {entries : List ValueId}
    (h : LoadsInterfaceTable m receiver index table) (hholds : image.Holds 0 g)
    (hentries : m.table? g = some entries) (hentry : entries[index]? = some inst) :
    m.Leads image receiver table (.table inst 0) := by
  obtain ⟨header, tables, start, number, type, type', place, found, hheader,
    htables, hstart, hnumber, hplace, hfound, htable⟩ := h
  have hfirst : m.Leads image receiver tables (.table g 0) :=
    .held (.recast .receiver hheader) htables hholds
  have helement : m.Leads image receiver place (.table g index) :=
    .element (.recast hfirst hstart) hplace hnumber
  exact .recast (.entry helement hfound hentries hentry) htable

end Receivers

theorem getElem?_of_idxOf? {α : Type} [BEq α] [LawfulBEq α] {items : List α} {a : α} {i : Nat}
    (h : items.idxOf? a = some i) : items[i]? = some a := by
  obtain ⟨hlt, heq, -⟩ := List.findIdx?_eq_some_iff_getElem.mp h
  rw [List.getElem?_eq_getElem hlt, eq_of_beq heq]

section Slots

variable {asm : Assembly} {owner : TypeDefId} {slot : MethodId} {slots : List MethodId}
  {instr : Instruction}

/-- Whether types list only methods that they declare. -/
def MethodsListed (asm : Assembly) : Prop :=
  ∀ ty d m md, asm.typeDef ty = .ok d → m ∈ d.methods → asm.method m = .ok md →
    md.declaringType = ty

/-- A run over the types decides whether they list only methods that they declare. -/
theorem methodsListed_of_forall (h : ∀ i < asm.types.size, ∀ d ∈ asm.types[i]?, ∀ m ∈ d.methods,
    ∀ md ∈ asm.methods[m.index]?, md.declaringType = ⟨i⟩) : MethodsListed asm := by
  intro ty d m md hd hmem hmd
  exact Assembly.forall_typeDef (P := fun ty d => ∀ m ∈ d.methods,
    ∀ md ∈ asm.methods[m.index]?, md.declaringType = ty) h hd m hmem md
      (Arena.entry_eq_ok_iff.mp hmd)

def CallsSlot (asm : Assembly) (instr : Instruction) (slot : MethodId) : Prop :=
  instr.opcode = .callvirt ∧
    ∃ target, instr.operand = .method target ∧ asm.slotMethod target = .ok (some slot)

theorem CallsSlot.virtualOwner {d : MethodDef} (h : CallsSlot asm instr slot)
    (hd : asm.method slot = .ok d) (hkind : asm.kindOf d.declaringType = .ok .classType) :
    virtualOwner? asm instr = .ok (some d.declaringType) := by
  obtain ⟨hopcode, target, htarget, hslot⟩ := h
  simp [virtualOwner?, hopcode, htarget, hslot, hd, hkind, exceptBind_eq_ok_iff]

variable {site : Site} {s s' : EmitState} {u : Unit}

/-- What is emitted for a call through a slot. -/
theorem callSlot_of_instruction (h : CallsSlot site.asm site.instr slot)
    (hrun : Emit.instruction site s = .ok u s') : Emit.callSlot site slot s = .ok u s' := by
  obtain ⟨hopcode, target, htarget, hslot⟩ := h
  have hdispatch : dispatch site.instr.opcode = .action .callVirtual := by
    rw [hopcode]
    rfl
  simp only [Emit.instruction, hdispatch, Emit.perform, Emit.callVirtual,
    Emit.methodOperand, htarget, bind_eq_ok_iff, pure_eq_ok_iff, Emit.lower_eq_ok_iff,
    Lower.liftM_ask, Lower.ask_eq_ok_iff] at hrun
  obtain ⟨_, _, ⟨rfl, rfl⟩, _, _, ⟨_, ⟨hslot', rfl⟩, rfl⟩, hrun⟩ := hrun
  obtain rfl := Except.ok.inj (hslot.symm.trans hslot')
  exact hrun

end Slots

section Programs

variable {asm : Assembly} {settings : Settings} {report : Report} {s declared defined : Session}

/-- The types of a new module are declared in good order. -/
theorem tidy_of_declareTypes {name : String} {u : Unit}
    (h : declareTypes asm { module := { name } } = .ok u s) : s.Tidy asm := by
  have hkeeps : Keeps Session.Evolves (declareTypes asm) := inferInstance
  have hstatics : s.registry.staticFields = [] := (declared_of_declareTypes h).rest.2.1
  refine ⟨(hkeeps.run h).callable fun i f hf => by simp at hf, ⟨fun hg => ?_, fun hf => ?_⟩⟩
  · simp [Registry.staticField?, hstatics] at hg
  · simp [Registry.staticField?, hstatics] at hf

/-- The compilation of a program: the states when its types are declared, when they are defined, and
in the end. -/
structure ProgramRun (asm : Assembly) (declared defined s : Session) : Prop where
  declare : Declared asm declared
  tidy : declared.Tidy asm
  define : compileTypes asm declared = .ok () defined
  later : Session.Later asm defined s
  /-- Every instruction of a body that gets a function is emitted once the types are defined. -/
  emitted : ∀ {m : MethodId} {body : MethodBody} {n : Nat} {instr : Instruction},
      Lowers asm m body →
    body.instructions[n]? = some instr → ∃ site t t', EmittedIn asm instr n defined s site t t'

theorem programRun {name : String}
    (h : compileProgram asm settings { module := { name } } = .ok report s)
    (hdeclare : declareTypes asm { module := { name } } = .ok () declared)
    (hdefine : compileTypes asm declared = .ok () defined) (hlater : Session.Later asm defined s) :
    ProgramRun asm declared defined s :=
  ⟨declared_of_declareTypes hdeclare, tidy_of_declareTypes hdeclare, hdefine, hlater,
    fun hm hn => emittedIn_of_compileProgram hm h hdeclare hdefine hn⟩

namespace ProgramRun

theorem toDefined (h : ProgramRun asm declared defined s) : Session.Later asm declared defined :=
  Keeps.run h.define

theorem statics (h : ProgramRun asm declared defined s) : defined.StaticsSound asm :=
  h.toDefined.statics h.tidy.statics

theorem layouts (h : ProgramRun asm declared defined s) : defined.layouts.Sound asm := by
  refine h.toDefined.layouts.sound ?_
  rw [h.declare.layouts]
  intro ty layout hlookup
  simp at hlookup

end ProgramRun

section Classes

variable {cls owner : TypeDefId} {slot : MethodId} {slots : List MethodId} {struct : TypeId}
  {table : VTable} {stores : List (Nat × ValueId)} {member position : Nat} {g v : ValueId}

/-- Where calls look for a slot: in the table that its owner has for the slots it introduces. -/
def SlotAt (s : Session) (owner : TypeDefId) (slot : MethodId) (position : Nat) : Prop :=
  ∃ vtable own, s.registry.vtables.lookup owner = some vtable ∧ vtable.table? owner = some own ∧
    own.slotIndex? slot = some position

theorem SlotAt.unique {position' : Nat} (h : SlotAt s owner slot position)
    (h' : SlotAt s owner slot position') : position = position' := by
  obtain ⟨vtable, own, hvtable, hown, hindex⟩ := h
  obtain ⟨vtable', own', hvtable', hown', hindex'⟩ := h'
  obtain rfl := Option.some.inj (hvtable.symm.trans hvtable')
  obtain rfl := Option.some.inj (hown.symm.trans hown')
  exact Option.some.inj (hindex.symm.trans hindex')

theorem ClassTables.slotAt (h : ClassTables asm s owner table)
    (hvtable : s.registry.vtables.lookup owner = some table)
    (hroot : Assembly.isRoot owner = false) (hslots : asm.introducedSlots owner = .ok slots)
    (hslot : slot ∈ slots) : ∃ position, SlotAt s owner slot position ∧
      slots[position]? = some slot := by
  obtain ⟨owners, howners, htables⟩ := h.tables
  obtain ⟨chain, hchain, -, hiff⟩ := slotOwners_spec howners
  obtain ⟨d, -, htypes⟩ := Assembly.selfAndAncestors_eq_ok hchain
  have howned : owner ∈ owners :=
    (hiff owner).mpr ⟨by simp [htypes], hroot, slots, hslots, List.ne_nil_of_mem hslot⟩
  obtain ⟨t, ht, hrel⟩ := exists_mem_of_forall₂ htables howned
  have hsome : (table.table? owner).isSome :=
    List.find?_isSome.mpr ⟨t, ht, by simp [hrel.owner_eq]⟩
  obtain ⟨own, hown⟩ := Option.isSome_iff_exists.mp hsome
  obtain ⟨owner', -, hrel'⟩ := exists_mem_of_forall₂ htables.flip (List.mem_of_find?_eq_some hown)
  obtain rfl : own.owner = owner := by simpa using List.find?_some hown
  obtain rfl := hrel'.owner_eq
  obtain rfl := Except.ok.inj (hslots.symm.trans hrel'.slots)
  obtain ⟨position, hposition⟩ : ∃ position, own.slots.idxOf? slot = some position := by
    rw [← Option.isSome_iff_exists, List.isSome_idxOf?]
    exact hslot
  exact ⟨position, ⟨table, own, hvtable, hown, hposition⟩, getElem?_of_idxOf? hposition⟩

/-- A type stands at the start of its bases. -/
theorem exists_selfAndAncestors {d : TypeDef} (hd : asm.typeDef owner = .ok d) :
    ∃ chain, asm.selfAndAncestors owner = .ok chain ∧ owner ∈ chain.types := by
  refine ⟨(asm.chainFrom (asm.types.size + 1) [owner] d.base).below owner, ?_, List.mem_cons_self⟩
  rw [Assembly.selfAndAncestors, Assembly.ancestors, hd]
  rfl

/-- An interface with a class behind it, a class derived from that, and calls through both. -/
def shapes : Assembly :=
  let roots := Assembly.ofName "shapes"
  let slot : MethodFlags := ⟨MethodFlags.virtual ||| MethodFlags.newSlot⟩
  let one : MethodBody := { instructions := [{ opcode := .ldcI41 }, { opcode := .ret }] }
  let callOf (m : MethodId) : MethodBody :=
    { instructions := [{ opcode := .ldarg0 }, { opcode := .callvirt, operand := .method m },
        { opcode := .ret }] }
  { roots with
    types := roots.types ++ #[
      { TypeDef.ofKind .interfaceType "" "IShape" with methods := [⟨0⟩] },
      { TypeDef.ofKind .classType "" "Square" with
        base := some ⟨0⟩, interfaces := [⟨3⟩], methods := [⟨1⟩, ⟨2⟩] },
      { TypeDef.ofKind .classType "" "Tile" with base := some ⟨4⟩, methods := [⟨3⟩] },
      { TypeDef.ofKind .classType "" "Client" with base := some ⟨0⟩, methods := [⟨4⟩, ⟨5⟩] }]
    methods := #[
      ⟨"Area", ⟨3⟩, [], .i4, slot, .publicAccess, none⟩,
      ⟨"Area", ⟨4⟩, [], .i4, slot, .publicAccess, some one⟩,
      ⟨"Sides", ⟨4⟩, [], .i4, slot, .publicAccess, some one⟩,
      ⟨"Sides", ⟨5⟩, [], .i4, ⟨MethodFlags.virtual⟩, .publicAccess, some one⟩,
      ⟨"Ask", ⟨6⟩, [⟨"shape", .named ⟨3⟩⟩], .i4, ⟨MethodFlags.static⟩, .publicAccess,
        some (callOf ⟨0⟩)⟩,
      ⟨"Count", ⟨6⟩, [⟨"square", .named ⟨4⟩⟩], .i4, ⟨MethodFlags.static⟩, .publicAccess,
        some (callOf ⟨2⟩)⟩] }

def shapesCompiled : Session :=
  stateOf (compileProgram shapes {} { module := { name := "module" } })

set_option synthInstance.maxSize 256 in
theorem shapes_rooted : shapes.Rooted := Assembly.rooted_of_forall (by decide)

theorem shapes_behind : shapes.NoSlotsBehindRoots := by
  refine Assembly.noSlotsBehindRoots_of_roots fun root base hroot hbase => ?_
  obtain ⟨d, hd, hbase⟩ := hbase
  exact Assembly.forall_typeDef (P := fun ty d =>
    Assembly.isRoot ty = true → ∀ base ∈ d.base, Assembly.isRoot base = true) (by decide) hd hroot
    base hbase

theorem shapes_compile : compileProgram shapes {} { module := { name := "module" } } =
    .ok { compiled :=
            ["Square::Area", "Square::Sides", "Tile::Sides", "Client::Ask", "Client::Count"]
          external := ["IShape::Area"], staticInit := "module_static_init" } shapesCompiled :=
  eq_ok_stateOf (by decide +kernel)

end Classes

section Interfaces

variable {cls iface : TypeDefId} {slot : MethodId} {slots : List MethodId} {struct : TypeId}
  {table : VTable} {stores : List (Nat × ValueId)} {position index : Nat} {g v : ValueId}
  {ifaces : List TypeDefId} {items : List ValueId}

theorem isInterface_iff : isInterface asm iface = true ↔ asm.kindOf iface = .ok .interfaceType := by
  unfold isInterface
  split <;> simp_all

end Interfaces

end Programs

end Lowering

end CilSsa
