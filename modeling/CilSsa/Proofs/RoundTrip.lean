import CilSsa.Metadata.Codec
import CilSsa.Proofs.Decimals
import CilSsa.Proofs.Documents
import CilSsa.Proofs.FlagTexts

/-!
Definitions read back from their documents.

The values of a definition have machine types: ids and sizes are words, and numbers in operands are
numbers of their format.  A definition with such values, and with finite numbers only, is read back
from the document that it is encoded as.
-/

namespace CilSsa.Metadata

open CilSsa.Json CilSsa.Numeric Json.Decoder

section Words

theorem reads_word {n : Nat} (h : n < wordBound) : Reads decodeWord (.nat n) n := reads_natBelow h

theorem TypeDefId.reads {id : TypeDefId} (h : id.index < wordBound) :
    Reads decode (.nat id.index) id := (reads_word h).map TypeDefId.mk

theorem FieldId.reads {id : FieldId} (h : id.index < wordBound) :
    Reads decode (.nat id.index) id := (reads_word h).map FieldId.mk

theorem MethodId.reads {id : MethodId} (h : id.index < wordBound) :
    Reads decode (.nat id.index) id := (reads_word h).map MethodId.mk

end Words

namespace TypeSig

def Fits (sig : TypeSig) : Prop := ∀ id ∈ sig.mentions, id.index < wordBound

theorem reads_wrapper {name : String} {doc : Document} {wrapped : TypeSig}
    (h : ∀ levels, decode (levels + 2) (.record [(name, doc)])
      = if doc.depth < levels + 1 then some wrapped else none)
    (deep : decode 1 (.record [(name, doc)]) = none) :
    Reads decode (.record [(name, doc)]) wrapped := by
  intro levels
  cases levels with
  | zero =>
    have inside : ¬ (Document.record [(name, doc)]).depth < 0 + 1 := by
      rw [Document.record, Document.depth]
      omega
    rw [if_neg inside]
    exact deep
  | succ levels =>
    rw [h]
    refine if_congr ?_ rfl rfl
    rw [Document.depth_record_lt_iff]
    simp

theorem reads {sig : TypeSig} (h : sig.Fits) : Reads decode sig.encode sig := by
  induction sig with
  | named id =>
    refine reads_wrapper (fun levels => ?_) rfl
    exact TypeDefId.reads (h id List.mem_cons_self) |>.map named levels
  | pointer inner ih => exact reads_wrapper (fun levels => (ih h).map pointer levels) rfl
  | byRef inner ih => exact reads_wrapper (fun levels => (ih h).map byRef levels) rfl
  | array inner ih => exact reads_wrapper (fun levels => (ih h).map array levels) rfl
  | _ => exact reads_of_scalar rfl fun levels => by rcases levels with _ | _ | levels <;> rfl

end TypeSig

section Names

/-- A small number for a text.  Texts with different numbers differ. -/
def digest (text : String) : Nat :=
  text.toByteArray.data.toList.foldl (fun n byte => (n * 256 + byte.toNat) % 65537) 0

/-- Whether numbers are distinct and differ from those whose bits are set in `seen`. -/
def allNew (seen : Nat) : List Nat → Bool
  | [] => true
  | n :: rest => !seen.testBit n && allNew (seen ||| 2 ^ n) rest

theorem nodup_of_allNew {seen : Nat} {numbers : List Nat} (h : allNew seen numbers = true) :
    numbers.Nodup ∧ ∀ n ∈ numbers, seen.testBit n = false := by
  induction numbers generalizing seen with
  | nil => simp
  | cons n rest ih =>
    rw [allNew, Bool.and_eq_true, Bool.not_eq_true'] at h
    obtain ⟨distinct, unseen⟩ := ih h.2
    have apart : ∀ k ∈ rest, seen.testBit k = false ∧ n ≠ k := by
      intro k hk
      simpa [Nat.testBit_or, Nat.testBit_two_pow] using unseen k hk
    refine ⟨List.nodup_cons.mpr ⟨fun hn => (apart n hn).2 rfl, distinct⟩, ?_⟩
    exact List.forall_mem_cons.mpr ⟨h.1, fun k hk => (apart k hk).1⟩

theorem Opcode.nodup_digests : (all.map fun op => digest op.name).Nodup := by
  -- Every name is looked at once here; comparing them in pairs takes far longer.
  have h : allNew 0 (all.map fun op => digest op.name) = true := by decide +kernel
  exact (nodup_of_allNew h).1

theorem Opcode.find_name :
    ∀ op ∈ all, all.find? (fun other => other.name = op.name) = some op := by
  intro op hop
  cases hfound : all.find? fun other => other.name = op.name with
  | none => simpa using List.find?_eq_none.mp hfound op hop
  | some found =>
    have same : found.name = op.name := by simpa using List.find?_some hfound
    have digests : digest found.name = digest op.name := congrArg digest same
    rw [List.inj_on_of_nodup_map nodup_digests (List.mem_of_find?_eq_some hfound) hop digests]

theorem Opcode.reads (op : Opcode) : Reads decode (.text op.name) op :=
  reads_named (find_name op op.mem_all)

theorem Visibility.reads (v : Visibility) : Reads decode (.text v.name) v :=
  reads_named (by cases v <;> rfl)

end Names

namespace Operand

/-- Every value is one of its machine type. -/
def Fits : Operand → Prop
  | int32 value => -2 ^ 31 ≤ value ∧ value < 2 ^ 31
  | int64 value => -2 ^ 63 ≤ value ∧ value < 2 ^ 63
  | float32 value => value.toSingle = value
  | float64 value => value.IsCanonical
  | type sig => sig.Fits
  | field id => id.index < wordBound
  | method id => id.index < wordBound
  | target position => position < targetBound
  | switch positions => ∀ position ∈ positions, position < targetBound
  | arg position => position < positionBound
  | loc position => position < positionBound
  | none | string _ => True

/-- No infinity and no error value. -/
def IsFinite : Operand → Prop
  | float32 value => value.isFinite
  | float64 value => value.isFinite
  | _ => True

theorem reads {operand : Operand} (h : operand.Fits) (finite : operand.IsFinite) :
    Reads decode operand.encode operand := by
  have content {α : Type} {dec : Decoder α} {doc : Document} {a : α} (read : Reads dec doc a)
      (wrap : α → Operand) (levels : Nat) :
      (Decoder.content dec (some (levels + 1, doc))).map wrap
        = if doc.depth < levels + 1 then some (wrap a) else Option.none := read.map wrap levels
  unfold decode
  cases operand with
  | none => exact reads_name rfl
  | int32 value => exact reads_variant (content (reads_intOfBits h.1 h.2) int32)
  | int64 value => exact reads_variant (content (reads_intOfBits h.1 h.2) int64)
  | float32 value =>
    have read : Reads single (Document.float value) value :=
      reads_of_scalar (Document.isScalar_float _) fun levels => single_float levels finite h
    exact reads_variant (content read float32)
  | float64 value =>
    have read : Reads double (Document.float value) value :=
      reads_of_scalar (Document.isScalar_float _) fun levels => double_float levels finite h
    exact reads_variant (content read float64)
  | string s => exact reads_variant (content (reads_text s) string)
  | type sig => exact reads_variant (content (TypeSig.reads h) type)
  | field id => exact reads_variant (content (FieldId.reads h) field)
  | method id => exact reads_variant (content (MethodId.reads h) method)
  | target position => exact reads_variant (content (reads_natBelow h) target)
  | switch positions =>
    exact reads_variant (content (Reads.list fun p hp => reads_natBelow (h p hp)) switch)
  | arg position => exact reads_variant (content (reads_natBelow h) arg)
  | loc position => exact reads_variant (content (reads_natBelow h) loc)

end Operand

theorem TypeFlags.reads (flags : TypeFlags) : Reads decode (.text flags.render) flags :=
  (reads_text _).bind (by rw [render, readable_names.parse_render]; rfl)

theorem MethodFlags.reads (flags : MethodFlags) : Reads decode (.text flags.render) flags :=
  (reads_text _).bind (by rw [render, readable_names.parse_render]; rfl)

theorem Instruction.reads {instr : Instruction} (fits : instr.operand.Fits)
    (finite : instr.operand.IsFinite) : Reads decode instr.encode instr := by
  unfold decode
  refine reads_record ?_ ?_ fun levels => ?_
  · rfl
  · decide
  · simp only [List.map_cons, List.map_nil, Decoder.required, Decoder.orElse,
      Opcode.reads _ levels, Operand.reads fits finite levels, reads_bool _ levels, bind_ite,
      List.forall_mem_cons, ite_and]
    rfl

/-- Every id and every size is a word. -/
structure TypeDef.Fits (d : TypeDef) : Prop where
  base : ∀ id ∈ d.base, id.index < wordBound
  interfaces : ∀ id ∈ d.interfaces, id.index < wordBound
  packing : ∀ n ∈ d.packing, n < wordBound
  classSize : ∀ n ∈ d.classSize, n < wordBound
  fields : ∀ id ∈ d.fields, id.index < wordBound
  methods : ∀ id ∈ d.methods, id.index < wordBound

theorem TypeDef.reads {d : TypeDef} (fits : d.Fits) : Reads decode d.encode d := by
  have base : Reads (Decoder.opt TypeDefId.decode) (.opt (fun id => .nat id.index) d.base) d.base :=
    Reads.opt (fun _ => nofun) fun id h => TypeDefId.reads (fits.base id h)
  have interfaces : Reads (Decoder.list TypeDefId.decode)
      (.list (fun id => .nat id.index) d.interfaces) d.interfaces :=
    Reads.list fun id h => TypeDefId.reads (fits.interfaces id h)
  have packing : Reads (Decoder.opt decodeWord) (.opt .nat d.packing) d.packing :=
    Reads.opt (fun _ => nofun) fun n h => reads_word (fits.packing n h)
  have classSize : Reads (Decoder.opt decodeWord) (.opt .nat d.classSize) d.classSize :=
    Reads.opt (fun _ => nofun) fun n h => reads_word (fits.classSize n h)
  have fields : Reads (Decoder.list FieldId.decode)
      (.list (fun id => .nat id.index) d.fields) d.fields :=
    Reads.list fun id h => FieldId.reads (fits.fields id h)
  have methods : Reads (Decoder.list MethodId.decode)
      (.list (fun id => .nat id.index) d.methods) d.methods :=
    Reads.list fun id h => MethodId.reads (fits.methods id h)
  unfold decode
  refine reads_record ?_ ?_ fun levels => ?_
  · rfl
  · decide
  · simp only [List.map_cons, List.map_nil, Decoder.required, Decoder.orElse, reads_text _ levels,
      TypeFlags.reads _ levels, base levels, interfaces levels, packing levels, classSize levels,
      fields levels, methods levels, bind_ite, List.forall_mem_cons, ite_and]
    rfl

/-- Every id is a word. -/
structure FieldDef.Fits (d : FieldDef) : Prop where
  declaringType : d.declaringType.index < wordBound
  sig : d.sig.Fits

theorem FieldDef.reads {d : FieldDef} (fits : d.Fits) : Reads decode d.encode d := by
  unfold decode
  refine reads_record ?_ ?_ fun levels => ?_
  · rfl
  · decide
  · simp only [List.map_cons, List.map_nil, Decoder.required, reads_text _ levels,
      TypeDefId.reads fits.declaringType levels, TypeSig.reads fits.sig levels, reads_bool _ levels,
      bind_ite, List.forall_mem_cons, ite_and]
    rfl

theorem Param.reads {p : Param} (fits : p.sig.Fits) : Reads decode p.encode p := by
  unfold decode
  refine reads_record ?_ ?_ fun levels => ?_
  · rfl
  · decide
  · simp only [List.map_cons, List.map_nil, Decoder.required, reads_text _ levels,
      TypeSig.reads fits levels, bind_ite, List.forall_mem_cons, ite_and]
    rfl

namespace MethodBody

/-- The values of locals and operands are of their machine types. -/
structure Fits (body : MethodBody) : Prop where
  locals : ∀ sig ∈ body.locals, sig.Fits
  operands : ∀ instr ∈ body.instructions, instr.operand.Fits

/-- No operand is infinite or an error value. -/
def IsFinite (body : MethodBody) : Prop := ∀ instr ∈ body.instructions, instr.operand.IsFinite

theorem reads {body : MethodBody} (fits : body.Fits) (finite : body.IsFinite) :
    Reads decode body.encode body := by
  have locals : Reads (Decoder.list TypeSig.decode)
      (.list TypeSig.encode body.locals) body.locals :=
    Reads.list fun sig h => TypeSig.reads (fits.locals sig h)
  have instructions : Reads (Decoder.list Instruction.decode)
      (.list Instruction.encode body.instructions) body.instructions :=
    Reads.list fun instr h => Instruction.reads (fits.operands instr h) (finite instr h)
  unfold decode
  refine reads_record ?_ ?_ fun levels => ?_
  · rfl
  · decide
  · simp only [List.map_cons, List.map_nil, Decoder.required, Decoder.orElse, locals levels,
      instructions levels, bind_ite, List.forall_mem_cons, ite_and]
    rfl

end MethodBody

namespace MethodDef

/-- Ids are words, and the values in the body are of their machine types. -/
structure Fits (d : MethodDef) : Prop where
  declaringType : d.declaringType.index < wordBound
  params : ∀ p ∈ d.params, p.sig.Fits
  returnType : d.returnType.Fits
  body : ∀ body ∈ d.body, body.Fits

/-- No operand of the body is infinite or an error value. -/
def IsFinite (d : MethodDef) : Prop := ∀ body ∈ d.body, body.IsFinite

theorem reads {d : MethodDef} (fits : d.Fits) (finite : d.IsFinite) :
    Reads decode d.encode d := by
  have params : Reads (Decoder.list Param.decode) (.list Param.encode d.params) d.params :=
    Reads.list fun p h => Param.reads (fits.params p h)
  have body : Reads (Decoder.opt MethodBody.decode) (.opt MethodBody.encode d.body) d.body :=
    Reads.opt (fun _ => nofun) fun body h => MethodBody.reads (fits.body body h) (finite body h)
  unfold decode
  refine reads_record ?_ ?_ fun levels => ?_
  · rfl
  · decide
  · simp only [List.map_cons, List.map_nil, Decoder.required, Decoder.orElse, reads_text _ levels,
      TypeDefId.reads fits.declaringType levels, params levels,
      TypeSig.reads fits.returnType levels, MethodFlags.reads _ levels,
      Visibility.reads _ levels, body levels, bind_ite, List.forall_mem_cons, ite_and]
    rfl

end MethodDef

namespace Assembly

/-- Ids and sizes are words, and the values in bodies are of their machine types. -/
structure Fits (asm : Assembly) : Prop where
  types : ∀ d ∈ asm.types, d.Fits
  fields : ∀ d ∈ asm.fields, d.Fits
  methods : ∀ d ∈ asm.methods, d.Fits

/-- No floating-point operand is infinite or an error value. -/
def FloatsFinite (asm : Assembly) : Prop := ∀ d ∈ asm.methods, d.IsFinite

theorem reads {asm : Assembly} (fits : asm.Fits) (finite : asm.FloatsFinite) :
    Reads decode asm.encode asm := by
  have types : Reads (Decoder.list TypeDef.decode) (.list TypeDef.encode asm.types.toList)
      asm.types.toList :=
    Reads.list fun d h => TypeDef.reads (fits.types d (Array.mem_toList_iff.1 h))
  have fields : Reads (Decoder.list FieldDef.decode) (.list FieldDef.encode asm.fields.toList)
      asm.fields.toList :=
    Reads.list fun d h => FieldDef.reads (fits.fields d (Array.mem_toList_iff.1 h))
  have methods : Reads (Decoder.list MethodDef.decode) (.list MethodDef.encode asm.methods.toList)
      asm.methods.toList :=
    Reads.list fun d h => MethodDef.reads (fits.methods d (Array.mem_toList_iff.1 h))
      (finite d (Array.mem_toList_iff.1 h))
  unfold decode
  refine reads_record ?_ ?_ fun levels => ?_
  · rfl
  · decide
  · simp only [List.map_cons, List.map_nil, Decoder.required, reads_text _ levels, types levels,
      fields levels, methods levels, bind_ite, List.forall_mem_cons, ite_and]
    rfl

end Assembly

end CilSsa.Metadata
