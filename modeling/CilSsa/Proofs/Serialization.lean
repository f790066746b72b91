import CilSsa.Proofs.RoundTrip
import CilSsa.Proofs.Success

/-!
Assemblies that are built or loaded are written and read back.

What is decoded from a document has values of machine types only, and adding definitions with such
values to an assembly keeps it so.  An assembly that was made in these ways is therefore read back
from its own document, provided that its floating-point operands are finite: as many levels as the
document nests are needed for it, and they are enough.
-/

namespace CilSsa

namespace Json.Decoder

variable {α β : Type} {P : α → Prop} {decode : Decoder α}

/-- Everything that is decoded has the property. -/
def Gives (decode : Decoder α) (P : α → Prop) : Prop :=
  ∀ ⦃levels doc a⦄, decode levels doc = some a → P a

theorem gives_natBelow (bound : Nat) : Gives (natBelow bound) (· < bound) := by
  intro levels doc n h
  unfold natBelow at h
  split at h
  · split at h
    · cases h
      assumption
    · cases h
  · cases h

theorem gives_intOfBits (bits : Nat) :
    Gives (intOfBits bits) fun value => -2 ^ (bits - 1) ≤ value ∧ value < 2 ^ (bits - 1) := by
  intro levels doc value h
  have power : ((2 ^ (bits - 1) : Nat) : Int) = 2 ^ (bits - 1) := by push_cast; rfl
  have positive : 0 < 2 ^ (bits - 1) := Nat.two_pow_pos _
  unfold intOfBits at h
  simp only [Nat.pow_eq] at h
  split at h
  · split at h
    · cases h
      constructor <;> omega
    · cases h
  · split at h
    · cases h
      constructor <;> omega
    · cases h
  · cases h

theorem Gives.list (h : Gives decode P) :
    Gives (Decoder.list decode) fun items => ∀ a ∈ items, P a := by
  have each (inner : Nat) (docs : List Document) :
      ∀ {items}, docs.mapM (decode inner) = some items → ∀ a ∈ items, P a := by
    induction docs with
    | nil =>
      intro items read
      cases read
      simp
    | cons doc rest ih =>
      intro items read
      simp only [List.mapM_cons, Option.bind_eq_bind, Option.bind_eq_some_iff] at read
      obtain ⟨a, first, as, others, eq⟩ := read
      cases eq
      exact List.forall_mem_cons.2 ⟨h first, ih others⟩
  intro levels doc items read
  unfold Decoder.list at read
  split at read
  · obtain ⟨inner, -, read⟩ := Option.bind_eq_some_iff.1 read
    exact each inner _ read
  · cases read

theorem Gives.opt (h : Gives decode P) :
    Gives (Decoder.opt decode) fun value => ∀ a ∈ value, P a := by
  intro levels doc value read
  unfold Decoder.opt at read
  split at read
  · cases read
    simp
  · obtain ⟨a, ok, rfl⟩ := Option.map_eq_some_iff.1 read
    rintro b ⟨⟩
    exact h ok

theorem Gives.map {Q : β → Prop} {f : α → β} (h : Gives decode fun a => Q (f a)) :
    Gives (fun levels doc => (decode levels doc).map f) Q := by
  intro levels doc b read
  obtain ⟨a, ok, rfl⟩ := Option.map_eq_some_iff.1 read
  exact h ok

section Slots

variable {levels : Nat} {slot : Option Document} {a : α}

theorem Gives.required (h : Gives decode P) (read : Decoder.required decode levels slot = some a) :
    P a := by
  cases slot with
  | none => cases read
  | some doc => exact h read

theorem Gives.orElse {absent : α} (h : Gives decode P) (default : P absent)
    (read : Decoder.orElse decode absent levels slot = some a) : P a := by
  cases slot with
  | none =>
    cases read
    exact default
  | some doc => exact h read

theorem Gives.orNone {value : Option α} (h : Gives decode P)
    (read : Decoder.orElse (Decoder.opt decode) none levels slot = some value) :
    ∀ a ∈ value, P a := by
  have absent : ∀ a ∈ (none : Option α), P a := nofun
  exact h.opt.orElse absent read

theorem Gives.orNil {items : List α} (h : Gives decode P)
    (read : Decoder.orElse (Decoder.list decode) [] levels slot = some items) :
    ∀ a ∈ items, P a := by
  have absent : ∀ a ∈ ([] : List α), P a := nofun
  exact h.list.orElse absent read

theorem Gives.content {Q : β → Prop} {f : α → β} {b : β} {inside : Option (Nat × Document)}
    (h : Gives decode fun a => Q (f a)) (read : (Decoder.content decode inside).map f = some b) :
    Q b := by
  obtain ⟨a, ok, rfl⟩ := Option.map_eq_some_iff.1 read
  cases inside with
  | none => cases ok
  | some inside => exact h ok

end Slots

theorem gives_record {keys : List String} {build : Nat × List (Option Document) → Option α}
    (h : ∀ ⦃inner slots a⦄, build (inner, slots) = some a → P a) :
    Gives (fun levels doc => record keys levels doc >>= build) P := by
  intro levels doc a read
  obtain ⟨⟨inner, slots⟩, -, built⟩ := Option.bind_eq_some_iff.1 read
  exact h built

end Json.Decoder

namespace Metadata

open Json Json.Decoder Numeric

theorem gives_word : Gives decodeWord (· < wordBound) := gives_natBelow _

theorem TypeDefId.gives : Gives decode fun id => id.index < wordBound :=
  Gives.map (f := TypeDefId.mk) gives_word

theorem FieldId.gives : Gives decode fun id => id.index < wordBound :=
  Gives.map (f := FieldId.mk) gives_word

theorem MethodId.gives : Gives decode fun id => id.index < wordBound :=
  Gives.map (f := MethodId.mk) gives_word

theorem TypeSig.fits_of_lookup {name : String} {sig : TypeSig} (h : simple.lookup name = some sig) :
    sig.Fits := by
  obtain ⟨before, after, eq, -⟩ := List.lookup_eq_some_iff.1 h
  have plain : ∀ entry ∈ simple, entry.2.mentions = [] := by decide
  have member : (name, sig) ∈ simple := by simp [eq]
  intro id mentioned
  rw [plain _ member] at mentioned
  cases mentioned

theorem TypeSig.gives : Gives decode Fits := by
  intro levels doc sig read
  fun_induction TypeSig.decode levels doc generalizing sig with
  | case1 => exact fits_of_lookup read
  | case2 levels content =>
    obtain ⟨id, ok, rfl⟩ := Option.map_eq_some_iff.1 read
    intro mentioned h
    rw [List.mem_singleton.1 h]
    exact TypeDefId.gives ok
  | case3 levels content ih | case4 levels content ih | case5 levels content ih =>
    obtain ⟨inner, ok, rfl⟩ := Option.map_eq_some_iff.1 read
    have inside : inner.Fits := ih ok
    exact inside
  | case6 => exact fits_of_lookup read
  | case7 | case8 => cases read

theorem Operand.gives : Gives decode Fits := by
  intro levels doc operand read
  unfold decode at read
  obtain ⟨⟨name, content⟩, -, read⟩ := Option.bind_eq_some_iff.1 read
  dsimp only at read
  split at read
  · split at read
    · cases read
      trivial
    · cases read
  · exact Gives.content (gives_intOfBits 32) read
  · exact Gives.content (gives_intOfBits 64) read
  · have narrow : Gives single fun x => (float32 x).Fits := fun _ _ _ h => toSingle_of_single h
    exact narrow.content read
  · have wide : Gives double fun x => (float64 x).Fits :=
      fun _ _ _ h => (isCanonical_of_double h).2
    exact wide.content read
  · have any : Gives text fun s => (string s).Fits := fun _ _ _ _ => trivial
    exact any.content read
  · exact Gives.content TypeSig.gives read
  · exact Gives.content FieldId.gives read
  · exact Gives.content MethodId.gives read
  · exact Gives.content (gives_natBelow _) read
  · exact Gives.content (gives_natBelow _).list read
  · exact Gives.content (gives_natBelow _) read
  · exact Gives.content (gives_natBelow _) read
  · cases read

theorem Instruction.gives : Gives decode fun instr => instr.operand.Fits := by
  unfold decode
  refine gives_record fun inner slots instr built => ?_
  dsimp only at built
  split at built
  · simp only [Option.bind_eq_bind, Option.bind_eq_some_iff] at built
    obtain ⟨opcode, -, operand, hoperand, isVolatile, -, eq⟩ := built
    cases eq
    have absent : Operand.none.Fits := trivial
    exact Operand.gives.orElse absent hoperand
  · cases built

theorem TypeDef.gives : Gives decode Fits := by
  unfold decode
  refine gives_record fun inner slots d built => ?_
  dsimp only at built
  split at built
  · simp only [Option.bind_eq_bind, Option.bind_eq_some_iff] at built
    obtain ⟨space, -, name, -, flags, -, base, hbase, interfaces, hinterfaces, packing, hpacking,
      classSize, hclassSize, fields, hfields, methods, hmethods, eq⟩ := built
    cases eq
    exact {
      base := TypeDefId.gives.orNone hbase
      interfaces := TypeDefId.gives.orNil hinterfaces
      packing := gives_word.orNone hpacking
      classSize := gives_word.orNone hclassSize
      fields := FieldId.gives.orNil hfields
      methods := MethodId.gives.orNil hmethods }
  · cases built

theorem FieldDef.gives : Gives decode Fits := by
  unfold decode
  refine gives_record fun inner slots d built => ?_
  dsimp only at built
  split at built
  · simp only [Option.bind_eq_bind, Option.bind_eq_some_iff] at built
    obtain ⟨name, -, declaringType, htype, sig, hsig, isStatic, -, eq⟩ := built
    cases eq
    exact ⟨TypeDefId.gives.required htype, TypeSig.gives.required hsig⟩
  · cases built

theorem Param.gives : Gives decode fun p => p.sig.Fits := by
  unfold decode
  refine gives_record fun inner slots p built => ?_
  dsimp only at built
  split at built
  · simp only [Option.bind_eq_bind, Option.bind_eq_some_iff] at built
    obtain ⟨name, -, sig, hsig, eq⟩ := built
    cases eq
    exact TypeSig.gives.required hsig
  · cases built

theorem MethodBody.gives : Gives decode Fits := by
  unfold decode
  refine gives_record fun inner slots body built => ?_
  dsimp only at built
  split at built
  · simp only [Option.bind_eq_bind, Option.bind_eq_some_iff] at built
    obtain ⟨locals, hlocals, instructions, hinstructions, eq⟩ := built
    cases eq
    exact ⟨TypeSig.gives.orNil hlocals, Instruction.gives.list.required hinstructions⟩
  · cases built

theorem MethodDef.gives : Gives decode Fits := by
  unfold decode
  refine gives_record fun inner slots d built => ?_
  dsimp only at built
  split at built
  · simp only [Option.bind_eq_bind, Option.bind_eq_some_iff] at built
    obtain ⟨name, -, declaringType, htype, params, hparams, returnType, hreturn, flags, -,
      visibility, -, body, hbody, eq⟩ := built
    cases eq
    exact {
      declaringType := TypeDefId.gives.required htype
      params := Param.gives.orNil hparams
      returnType := TypeSig.gives.required hreturn
      body := MethodBody.gives.orNone hbody }
  · cases built

namespace Assembly

/-- What is loaded from a document has values of machine types. -/
theorem gives : Gives decode Fits := by
  unfold decode
  refine gives_record fun inner slots asm built => ?_
  dsimp only at built
  split at built
  · simp only [Option.bind_eq_bind, Option.bind_eq_some_iff] at built
    obtain ⟨name, -, types, htypes, fields, hfields, methods, hmethods, eq⟩ := built
    cases eq
    exact {
      types := fun d h => TypeDef.gives.list.required htypes d (List.mem_toArray.1 h)
      fields := fun d h => FieldDef.gives.list.required hfields d (List.mem_toArray.1 h)
      methods := fun d h => MethodDef.gives.list.required hmethods d (List.mem_toArray.1 h) }
  · cases built

/-- Loaded from a document, or made of the roots, and changed by additions since.  What is added has
values of machine types, and so have the ids that are given out: an arena has no more entries than
there are words. -/
inductive Constructible : Assembly → Prop
  | loaded {levels : Nat} {doc : Document} {asm : Assembly}
      (read : decode levels doc = some asm) : Constructible asm
  | roots (name : String) : Constructible (ofName name)
  | addType {asm : Assembly} {d : TypeDef} (built : Constructible asm) (fits : d.Fits) :
      Constructible (asm.addType d).1
  | addField {asm asm' : Assembly} {ty : TypeDefId} {d : FieldDef} {f : FieldId}
      (built : Constructible asm) (fits : d.Fits) (owner : ty.index < wordBound)
      (room : asm.fields.size < wordBound) (added : asm.addField ty d = .ok (asm', f)) :
      Constructible asm'
  | addMethod {asm asm' : Assembly} {ty : TypeDefId} {d : MethodDef} {m : MethodId}
      (built : Constructible asm) (fits : d.Fits) (owner : ty.index < wordBound)
      (room : asm.methods.size < wordBound) (added : asm.addMethod ty d = .ok (asm', m)) :
      Constructible asm'
  /-- A method can be changed in any way after it was added. -/
  | changeMethod {asm : Assembly} {d : MethodDef} (built : Constructible asm) (m : MethodId)
      (fits : d.Fits) :
      Constructible { asm with methods := asm.methods.setIfInBounds m.index d }

variable {asm asm' : Assembly}

theorem fits_ofName (name : String) : (ofName name).Fits := by
  refine ⟨fun d h => ?_, nofun, nofun⟩
  simp only [ofName, List.mem_toArray, List.mem_cons, List.not_mem_nil, or_false] at h
  rcases h with rfl | rfl | rfl
  · exact ⟨nofun, nofun, nofun, nofun, nofun, nofun⟩
  · exact ⟨nofun, nofun, nofun, nofun, nofun, nofun⟩
  · refine ⟨?_, nofun, nofun, nofun, nofun, nofun⟩
    rintro id ⟨⟩
    decide

theorem Fits.addType (h : asm.Fits) {d : TypeDef} (fits : d.Fits) : (asm.addType d).1.Fits := by
  refine ⟨fun d' member => ?_, h.fields, h.methods⟩
  rcases Array.mem_push.1 member with old | rfl
  · exact h.types d' old
  · refine { fits with base := fun id given => ?_ }
    rcases Option.or_eq_some_iff.1 given with own | ⟨-, default⟩
    · exact fits.base id own
    · revert default
      cases d.kind <;> rintro ⟨⟩ <;> decide

theorem Fits.addField (h : asm.Fits) {ty : TypeDefId} {d : FieldDef} {f : FieldId} (fits : d.Fits)
    (owner : ty.index < wordBound) (room : asm.fields.size < wordBound)
    (added : asm.addField ty d = .ok (asm', f)) : asm'.Fits := by
  simp only [Assembly.addField, exceptBind_eq_ok_iff, exceptPure_eq_ok_iff, typeDef,
    Arena.entry_eq_ok_iff, Prod.mk.injEq] at added
  obtain ⟨declaring, found, rfl, -⟩ := added
  refine ⟨fun d' member => ?_, fun d' member => ?_, h.methods⟩
  · rcases Array.mem_or_eq_of_mem_setIfInBounds member with old | rfl
    · exact h.types d' old
    · have before := h.types declaring (Array.mem_of_getElem? found)
      refine { before with fields := fun id listed => ?_ }
      rcases List.mem_append.1 listed with old | new
      · exact before.fields id old
      · rw [List.mem_singleton.1 new]
        exact room
  · rcases Array.mem_push.1 member with old | rfl
    · exact h.fields d' old
    · exact ⟨owner, fits.sig⟩

theorem Fits.addMethod (h : asm.Fits) {ty : TypeDefId} {d : MethodDef} {m : MethodId}
    (fits : d.Fits) (owner : ty.index < wordBound) (room : asm.methods.size < wordBound)
    (added : asm.addMethod ty d = .ok (asm', m)) : asm'.Fits := by
  simp only [Assembly.addMethod, exceptBind_eq_ok_iff, exceptPure_eq_ok_iff, typeDef,
    Arena.entry_eq_ok_iff, Prod.mk.injEq] at added
  obtain ⟨declaring, found, rfl, -⟩ := added
  refine ⟨fun d' member => ?_, h.fields, fun d' member => ?_⟩
  · rcases Array.mem_or_eq_of_mem_setIfInBounds member with old | rfl
    · exact h.types d' old
    · have before := h.types declaring (Array.mem_of_getElem? found)
      refine { before with methods := fun id listed => ?_ }
      rcases List.mem_append.1 listed with old | new
      · exact before.methods id old
      · rw [List.mem_singleton.1 new]
        exact room
  · rcases Array.mem_push.1 member with old | rfl
    · exact h.methods d' old
    · exact ⟨owner, fits.params, fits.returnType, fits.body⟩

theorem Constructible.fits (built : Constructible asm) : asm.Fits := by
  induction built with
  | loaded read => exact gives read
  | roots name => exact fits_ofName name
  | addType _ fits ih => exact ih.addType fits
  | addField _ fits owner room added ih => exact ih.addField fits owner room added
  | addMethod _ fits owner room added ih => exact ih.addMethod fits owner room added
  | changeMethod _ m fits ih =>
    refine ⟨ih.types, ih.fields, fun d member => ?_⟩
    rcases Array.mem_or_eq_of_mem_setIfInBounds member with old | rfl
    · exact ih.methods d old
    · exact fits

/-- An assembly with finite numbers is read back from its own document, however deep it nests: all
it takes is as many levels.  Everything is as it was: names, attributes with bits that have no name,
bases, interfaces, sizes, members, signatures and bodies.  The shapes of types are not written, they
follow from the attributes. -/
theorem decode_encode (built : Constructible asm) (finite : asm.FloatsFinite) (levels : Nat) :
    decode levels asm.encode = if asm.encode.depth < levels then some asm else none := by
  cases levels with
  | zero => exact (if_neg (Nat.not_lt_zero _)).symm
  | succ levels => exact Assembly.reads built.fits finite levels

/-- A sealed type with a size of its own and with a bit that has no name. -/
def gauge : TypeDef where
  namespaceName := "Lab"
  name := "Gauge"
  flags := ⟨0x80000010⟩
  packing := some 8

/-- A method with a half in the 32-bit format and a tenth in the 64-bit format. -/
def reading : MethodDef where
  name := "Read"
  declaringType := ⟨3⟩
  params := [⟨"scale", .array (.pointer .r8)⟩]
  returnType := .void
  body := some {
    locals := [.byRef (.named ⟨3⟩)]
    instructions := [
      { opcode := .ldcR4, operand := .float32 (.finite false 4503599627370496 (-53)) },
      { opcode := .ldcR8, operand := .float64 (.finite true 7205759403792794 (-56)) },
      { opcode := .ldindR8, isVolatile := true },
      { opcode := .switch, operand := .switch [0, 4] },
      { opcode := .ret }] }

/-- An assembly with one type that has one method. -/
def sampler : Assembly where
  name := "Sampler"
  types := (ofName "Sampler").types.push
    { gauge with base := some objectType, methods := [⟨0⟩] }
  fields := #[]
  methods := #[reading]

theorem fits_reading : reading.Fits where
  declaringType := by decide
  params := by
    intro p member
    rw [List.mem_singleton.1 member]
    nofun
  returnType := nofun
  body := by
    rintro body ⟨⟩
    refine ⟨fun sig member => ?_, fun instr member => ?_⟩
    · rw [List.mem_singleton.1 member]
      intro id mentioned
      rw [List.mem_singleton.1 mentioned]
      decide
    · simp only [List.mem_cons, List.not_mem_nil, or_false] at member
      rcases member with rfl | rfl | rfl | rfl | rfl
      · change Binary64.toSingle _ = _
        decide +kernel
      · exact ⟨by decide, by decide, by decide, .inl (by decide)⟩
      · trivial
      · exact (by decide : ∀ position ∈ [0, 4], position < targetBound)
      · trivial

theorem constructible_sampler : Constructible sampler := by
  have typed : Constructible ((ofName "Sampler").addType gauge).1 :=
    (Constructible.roots "Sampler").addType ⟨nofun, nofun, by decide, nofun, nofun, nofun⟩
  have added : ((ofName "Sampler").addType gauge).1.addMethod ⟨3⟩ reading
      = .ok (sampler, ⟨0⟩) := rfl
  exact typed.addMethod fits_reading (by decide) (by decide) added

theorem floatsFinite_sampler : sampler.FloatsFinite := by
  intro d member body given instr listed
  rw [List.mem_singleton.1 (Array.mem_toList_iff.2 member)] at given
  cases given
  simp only [List.mem_cons, List.not_mem_nil, or_false] at listed
  rcases listed with rfl | rfl | rfl | rfl | rfl
  · rfl
  · rfl
  · trivial
  · trivial
  · trivial

/-- The numbers, the unnamed bit and the rest of the sample are read back. -/
theorem sampler_read_back : Constructible sampler ∧ sampler.FloatsFinite
    ∧ decode nestingLevels sampler.encode = some sampler := by
  have read := decode_encode constructible_sampler floatsFinite_sampler nestingLevels
  rw [if_pos (by decide +kernel)] at read
  exact ⟨constructible_sampler, floatsFinite_sampler, read⟩

end Assembly

end Metadata

end CilSsa
