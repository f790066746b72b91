import Mathlib.Algebra.Order.BigOperators.Group.List
import CilSsa.Proofs.SoundLayouts

/-!
Structs of declared size.

A struct is filled up with as many bytes as its fields leave of the declared size, behind the last
of its members.  What the members take besides the sizes of the fields, which are gaps in front of
aligned members and pointers to tables, is not counted and comes on top.
-/

namespace CilSsa

open Ssa Metadata Lowering

namespace Ssa.Extent

section Bytes

variable {offset n k align : Nat} {members : List Extent} {packed : Bool}

/-- Multiples of the alignment are left alone. -/
theorem roundUp_add (hdvd : align ∣ k) : roundUp (k + n) align = k + roundUp n align := by
  obtain ⟨q, rfl⟩ := hdvd
  rcases Nat.eq_zero_or_pos align with rfl | hpos
  · simp [roundUp]
  · have hdiv : (align * q + n + align - 1) / align = q + (n + align - 1) / align := by
      rw [show align * q + n + align - 1 = align * q + (n + align - 1) by omega,
        Nat.mul_add_div hpos]
    rw [roundUp, hdiv, Nat.add_mul, Nat.mul_comm q]
    rfl

theorem roundUp_eq_zero_iff (hpos : 0 < align) : roundUp n align = 0 ↔ n = 0 := by
  constructor
  · intro h
    have hle := le_roundUp n hpos
    omega
  · rintro rfl
    exact roundUp_eq_self_iff.mpr (Nat.dvd_zero align)

theorem add_sum_le_endFrom (offset : Nat) (hpos : ∀ e ∈ members, 0 < e.align) :
    offset + (members.map size).sum ≤ endFrom offset members := by
  induction members generalizing offset with
  | nil => exact Nat.le_refl _
  | cons e rest ih =>
      obtain ⟨he, hrest⟩ := List.forall_mem_cons.mp hpos
      calc offset + (e.size + (rest.map size).sum)
          ≤ e.place offset + e.size + (rest.map size).sum := by
            have hplace : offset ≤ e.place offset := le_roundUp offset he
            omega
        _ ≤ endFrom (e.place offset + e.size) rest := ih _ hrest

/-- Members end where their sizes say exactly if there are no gaps. -/
theorem endFrom_eq_iff (offset : Nat) (hpos : ∀ e ∈ members, 0 < e.align) :
    endFrom offset members = offset + (members.map size).sum ↔ Tight offset members := by
  induction members generalizing offset with
  | nil => exact iff_of_true rfl trivial
  | cons e rest ih =>
      obtain ⟨he, hrest⟩ := List.forall_mem_cons.mp hpos
      have hplace : offset ≤ e.place offset := le_roundUp offset he
      have hle := add_sum_le_endFrom (e.place offset + e.size) hrest
      simp only [endFrom, Tight, List.map_cons, List.sum_cons]
      constructor
      · intro h
        have hsame : e.place offset = offset := by omega
        rw [hsame] at h
        exact ⟨roundUp_eq_self_iff.mp hsame, (ih _ hrest).mp (by omega)⟩
      · rintro ⟨hdvd, htight⟩
        have hsame : e.place offset = offset := roundUp_eq_self_iff.mpr hdvd
        rw [hsame, (ih _ hrest).mpr htight]
        omega

theorem sum_le_endFrom_inStruct (packed : Bool) (hpos : ∀ e ∈ members, 0 < e.align) :
    (members.map size).sum ≤ endFrom 0 (inStruct packed members) := by
  cases packed with
  | false => simpa [inStruct] using add_sum_le_endFrom 0 hpos
  | true => exact (endFrom_map_unaligned.trans (Nat.zero_add _)).ge

theorem endFrom_inStruct_eq_iff (hpos : ∀ e ∈ members, 0 < e.align) :
    endFrom 0 (inStruct packed members) = (members.map size).sum ↔
      packed = true ∨ Tight 0 members := by
  cases packed with
  | false => simpa [inStruct] using endFrom_eq_iff 0 hpos
  | true => exact iff_of_true (endFrom_map_unaligned.trans (Nat.zero_add _)) (.inl rfl)

def byte : Extent := ⟨1, 1⟩

theorem endFrom_bytes : endFrom offset (List.replicate n byte) = offset + n := by
  induction n generalizing offset with
  | zero => rfl
  | succ n ih =>
      have hplace : byte.place offset = offset := roundUp_eq_self_iff.mpr (Nat.one_dvd offset)
      rw [List.replicate_succ, endFrom, hplace, ih]
      exact Nat.add_right_comm offset 1 n

theorem maxAlign_bytes : maxAlign (members ++ List.replicate n byte) = maxAlign members := by
  induction n with
  | zero => simp
  | succ n ih =>
      rw [List.replicate_succ', ← List.append_assoc, maxAlign_append, ih]
      exact Nat.max_eq_left (one_le_maxAlign members)

theorem inStruct_bytes : inStruct packed (List.replicate n byte) = List.replicate n byte := by
  cases packed with
  | false => rfl
  | true => exact List.map_replicate

theorem size_filled {declared fields : Nat}
    (hdvd : (ofMembers (inStruct packed members)).align ∣ declared)
    (hle : endFrom 0 (inStruct packed members) ≤ declared)
    (hfields : fields ≤ endFrom 0 (inStruct packed members)) :
    (ofMembers (inStruct packed (members ++ List.replicate (declared - fields) byte))).size =
      declared + roundUp (endFrom 0 (inStruct packed members) - fields)
        (ofMembers (inStruct packed members)).align := by
  rw [inStruct_append, inStruct_bytes]
  simp only [ofMembers] at hdvd ⊢
  rw [maxAlign_bytes, endFrom_append, endFrom_bytes, ← roundUp_add hdvd]
  congr 1
  omega

end Bytes

end Ssa.Extent

namespace Ssa.Module

section Extents

variable {m m' : Module} {id inner outer : TypeId}

theorem Within.mono (h : m.Within inner outer) (hkept : m.PartsKept m') :
    m'.Within inner outer := by
  cases h with
  | member hstruct hmem => exact .member (hkept hstruct (by simp)) hmem
  | element harray => exact .element (hkept harray (by simp))

theorem extentWith_congr {fuel : Nat} (hsame : ∀ part, Relation.ReflTransGen m.Within part id →
    m'.types[part.index]? = m.types[part.index]?) :
    m'.extentWith fuel id = m.extentWith fuel id := by
  induction fuel generalizing id with
  | zero => rfl
  | succ fuel ih =>
      have hinner (part : TypeId) (hpart : m.Within part id) :
          m'.extentWith fuel part = m.extentWith fuel part :=
        ih fun inner hinner => hsame inner (hinner.tail hpart)
      have hdata : m'.typeData id = m.typeData id := by
        simp only [Module.typeData, Arena.entry, hsame id .refl]
      rw [extentWith, extentWith, hdata]
      cases htype : m.typeData id with
      | error fault => rfl
      | ok type =>
          have hfound := Arena.entry_eq_ok_iff.mp htype
          cases type with
          | array element length =>
              change (m'.extentWith fuel element >>= _) = (m.extentWith fuel element >>= _)
              rw [hinner element (.element hfound)]
          | struct name body packed =>
              cases body with
              | none => rfl
              | some body =>
                  change (body.mapM (m'.extentWith fuel) >>= _) =
                    (body.mapM (m.extentWith fuel) >>= _)
                  rw [exceptMapM_congr fun member hmember => hinner member (.member hfound hmember)]
          | _ => rfl

/-- The sizes of the members of a struct are the same before it gets them, unless values of the
struct have values of the struct in them. -/
theorem sizeOf_before {name : String} {packed : Bool} {size : Nat}
    (hblank : m.types[outer.index]? = some (.struct name none packed))
    (hkept : ∀ i type, m.types[i]? = some type → i ≠ outer.index → m'.types[i]? = some type)
    (hle : m.types.size ≤ m'.types.size) (hgrounded : m'.Grounded outer)
    (hwithin : m'.Within inner outer) (hsize : m.sizeOf inner = .ok size) :
    m'.sizeOf inner = .ok size := by
  simp only [Module.sizeOf, exceptBind_eq_ok_iff, exceptPure_eq_ok_iff] at hsize ⊢
  obtain ⟨e, he, rfl⟩ := hsize
  have hfuel : m.types.size + 1 ≤ m'.types.size + 1 := Nat.add_le_add_right hle 1
  refine ⟨e, extentWith_le ?_ hfuel, rfl⟩
  have hparts : m.PartsKept m' := by
    intro i type htype hsome
    refine hkept i type htype ?_
    rintro rfl
    obtain rfl := Option.some.inj (hblank.symm.trans htype)
    exact hsome name packed rfl
  refine (extentWith_congr fun part hpart => ?_).trans he
  have hother : part.index ≠ outer.index := by
    intro heq
    obtain rfl : part = outer := congrArg TypeId.mk heq
    have hpath : Relation.ReflTransGen m'.Within part inner :=
      hpart.lift id fun _ _ h => h.mono hparts
    exact hgrounded.not_within_self (.tail' hpath hwithin)
  have hlt := (grounded_iff.mp (grounded_of_extentWith he)).2 part hpart
  have htype := Array.getElem?_eq_getElem hlt
  rw [htype]
  exact hkept _ _ htype hother

theorem extentOf_byte (htype : m.types[id.index]? = some (.int 8)) :
    m.extentOf id = .ok Extent.byte := by
  rw [extentOf, extentWith, exceptBind_eq_ok_iff]
  exact ⟨_, Arena.entry_eq_ok_iff.mpr htype, rfl⟩

theorem extentOf_of_members {name : String} {body : List TypeId} {packed : Bool}
    {members : List Extent} (htype : m.types[id.index]? = some (.struct name (some body) packed))
    (hmembers : body.mapM m.extentOf = .ok members) :
    m.Grounded id ∧
      m.extentOf id = .ok (Extent.ofMembers (Extent.inStruct packed members)) := by
  have hgrounded : m.Grounded id := by
    refine .of_parts (Array.getElem?_eq_some_iff.mp htype).1 fun inner hwithin => ?_
    cases hwithin with
    | member hstruct hmem =>
        cases htype.symm.trans hstruct
        obtain ⟨e, -, he⟩ := exists_mem_of_forall₂ (exceptMapM_eq_ok_iff.mp hmembers) hmem
        exact grounded_of_extentWith he
    | element harray => cases htype.symm.trans harray
  obtain ⟨e, he⟩ := hgrounded.exists_extentOf
  obtain ⟨members', hmembers', rfl⟩ := extentOf_struct htype he
  obtain rfl := Except.ok.inj (hmembers.symm.trans hmembers')
  exact ⟨hgrounded, he⟩

end Extents

end Ssa.Module

namespace Lowering

variable {asm : Assembly} {s s' : Session} {ty : TypeDefId} {d : TypeDef} {packed : Bool}

section Structs

theorem StructRun.tabled_eq (run : StructRun asm ty d packed s s') (hkind : d.kind = .structType) :
    run.dispatch = false ∧ run.tabled = s := by
  have hrequires := run.requires
  simp only [requiresVTable, hkind] at hrequires
  obtain ⟨hdispatch, hasked⟩ := pure_eq_ok_iff.mp hrequires
  rcases run.tables with ⟨-, htabled⟩ | ⟨htrue, -⟩
  · exact ⟨hdispatch, htabled.trans hasked⟩
  · cases hdispatch.symm.trans htrue

/-- What the fields of a layout take of the sizes of its members. -/
theorem exists_fieldExtents {entries : List StructEntry} {members : List (Option TypeId)}
    {extents : List Extent} (hall : List.Forall₂ (Becomes asm s) entries members)
    (hextents : List.Forall₂ (fun type e => s.module.extentOf type = .ok e)
      (members.filterMap id) extents) :
    ∃ parts, List.Forall₂ (fun (p : FieldId × TypeId) e => s.module.extentOf p.2 = .ok e)
        ((entries.zip members).filterMap fieldMember?) parts ∧
      (parts.map Extent.size).sum ≤ (extents.map Extent.size).sum ∧
      ((parts.map Extent.size).sum = (extents.map Extent.size).sum ↔
        ∀ entry ∈ entries, isStored asm entry = true → ∃ f, entry = .field f) := by
  induction hall generalizing extents with
  | nil =>
      cases hextents
      exact ⟨[], .nil, Nat.le_refl _, by simp⟩
  | @cons entry member entries members hfirst _ ih =>
      have hstored := hfirst.isStored
      cases member with
      | none =>
          obtain ⟨parts, hparts, hle, hiff⟩ := ih hextents
          have hmember : fieldMember? (entry, none) = none := by cases entry <;> rfl
          refine ⟨parts, by simpa [hmember] using hparts, hle, hiff.trans ?_⟩
          simp [hstored]
      | some type =>
          obtain ⟨e, extents, he, hrest, rfl⟩ := List.forall₂_cons_left_iff.mp hextents
          obtain ⟨parts, hparts, hle, hiff⟩ := ih hrest
          have hpointer {pointee : TypeId}
              (htype : s.module.types[type.index]? = some (.pointer pointee)) : e.size = 8 := by
            obtain rfl := Except.ok.inj (he.symm.trans (Module.extentOf_pointer htype))
            rfl
          have hnever (hsize : e.size = 8) : ¬ (parts.map Extent.size).sum =
              e.size + (extents.map Extent.size).sum := by omega
          cases hfirst with
          | field =>
              refine ⟨e :: parts, .cons he hparts, by simpa using hle, ?_⟩
              simpa using hiff
          | classVTable htype | indirection htype =>
              refine ⟨parts, hparts, hle.trans (by simp), ?_⟩
              simpa [Option.isSome] using iff_of_false (hnever (hpointer htype)) (by simp [hstored])

/-- Sizes of fields are as they were when the struct was filled up. -/
theorem StructRun.sizes_kept (run : StructRun asm ty d packed s s') (hkind : d.kind = .structType)
    {name : String} {packed' : Bool}
    (hblank : s.module.types[run.handle.index]? = some (.struct name none packed'))
    (hgrounded : s'.module.Grounded run.handle) {id : TypeId} {size : Nat}
    (hwithin : s'.module.Within id run.handle)
    (hsize : run.membered.module.sizeOf id = .ok size) : s'.module.sizeOf id = .ok size := by
  have hkept : run.membered.module.TypesKept run.filled.module :=
    run.membered_filled (R := Session.On Module.TypesKept)
  have hbefore : s.module.TypesKept run.membered.module := by
    have := run.tabled_membered (R := Session.On Module.TypesKept)
    rwa [(run.tabled_eq hkind).2] at this
  have hlater : Session.Later asm run.membered s' :=
    IsTrans.trans _ _ _ run.membered_filled run.later_final
  refine Module.sizeOf_before (hbefore _ _ hblank) (fun i type htype hi => ?_)
    hlater.module.types_le hgrounded hwithin hsize
  rw [run.module_eq hblank]
  simpa [Module.apply, Ne.symm hi] using hkept _ _ htype

/-- The struct as it is defined. -/
theorem StructRun.type_eq (run : StructRun asm ty d packed s s') {name : String} {packed' : Bool}
    (hblank : s.module.types[run.handle.index]? = some (.struct name none packed')) :
    s'.module.types[run.handle.index]? =
      some (.struct name (some (run.body ++ run.fill)) packed) := by
  have hlt := (Array.getElem?_eq_some_iff.mp (run.typesKept _ _ hblank)).1
  rw [run.module_eq hblank]
  simp [Module.apply, hlt]

/-- Whether a struct with such a layout is filled up to the whole of its declared size: it is not
made of exactly one character. -/
def CountsWhole (asm : Assembly) (layout : List StructEntry) : Prop :=
  ∀ f fd, storedFields asm layout = [f] → asm.field f = .ok fd → fd.sig ≠ .char

theorem fillTarget_eq {layout : List StructEntry} {declared : Nat} (h : CountsWhole asm layout) :
    fillTarget asm declared (storedFields asm layout) = declared := by
  unfold fillTarget
  split
  · rename_i f hone
    refine if_neg fun hchar => ?_
    cases hfd : asm.field f with
    | error fault => simp [hfd, Except.map] at hchar
    | ok fd => exact h f fd hone hfd (by simpa [hfd, Except.map] using hchar)
  · rfl

/-- The bytes that fill a struct are as many as its fields leave. -/
theorem StructRun.fill_eq (run : StructRun asm ty d packed s s') (hkind : d.kind = .structType)
    {name : String} {packed' : Bool} {declared : Nat}
    (hblank : s.module.types[run.handle.index]? = some (.struct name none packed'))
    (hgrounded : s'.module.Grounded run.handle) (hdeclared : d.classSize = some declared)
    (hwhole : CountsWhole asm run.layout) {parts : List Extent}
    (hparts : List.Forall₂ (fun (p : FieldId × TypeId) e => s'.module.extentOf p.2 = .ok e)
      run.fields parts) (hlt : (parts.map Extent.size).sum < 2 ^ 64) :
    run.fill.length = declared - (parts.map Extent.size).sum := by
  rcases run.filling with ⟨hnone, -⟩ | ⟨size, count, t, byte, m, hsize, hcount, -, hfill, -⟩
  · cases hnone.symm.trans hdeclared
  obtain rfl : size = declared := Option.some.inj (hsize.symm.trans hdeclared)
  obtain ⟨members, hall, hbody, hfields⟩ := structMembers_becomes run.members
  obtain ⟨hnames, hmembers⟩ := fieldMembers_spec hall hfields
  obtain ⟨sizes, hsizes, rfl⟩ := padding_spec hcount
  have htype := run.type_eq hblank
  have hkept : run.fields.mapM (fun p => s'.module.sizeOf p.2) = .ok sizes := by
    rw [exceptMapM_eq_ok_iff, List.forall₂_iff_get] at hsizes ⊢
    refine ⟨hsizes.1, fun i hi hi' => ?_⟩
    have hmem := (hmembers _ (List.get_mem run.fields ⟨i, hi⟩)).1
    exact run.sizes_kept hkind hblank hgrounded
      (.member htype (List.mem_append_left _ (hbody ▸ hmem))) (hsizes.2 i hi hi')
  have hwords : run.fields.mapM (fun p => s'.module.sizeOf p.2) =
      .ok (parts.map fun e => e.size % Nat.pow 2 Module.sizeBits) := by
    refine exceptMapM_eq_ok_iff.mpr (List.forall₂_map_right_iff.mpr (hparts.imp fun p e he => ?_))
    rw [Module.sizeOf, exceptBind_eq_ok_iff]
    exact ⟨e, he, rfl⟩
  have hsmall : (parts.map fun e => e.size % Nat.pow 2 Module.sizeBits) =
      parts.map Extent.size := by
    refine List.map_congr_left fun e he => Nat.mod_eq_of_lt ?_
    exact (List.le_sum_of_mem (List.mem_map_of_mem he)).trans_lt hlt
  obtain rfl : sizes = parts.map Extent.size :=
    (Except.ok.inj (hkept.symm.trans hwords)).trans hsmall
  rw [hfill, List.length_replicate, hnames, fillTarget_eq hwhole]
  exact congrArg (size - ·) (Nat.mod_eq_of_lt hlt)

variable {handle : TypeId} {name : String} {packed' : Bool} {declared : Nat}

theorem StructRun.extent_eq (run : StructRun asm ty d packed s s')
    (hblank : s.module.types[run.handle.index]? = some (.struct name none packed'))
    {extents : List Extent} (hextents : run.body.mapM s'.module.extentOf = .ok extents) :
    s'.module.Grounded run.handle ∧ s'.module.extentOf run.handle = .ok (Extent.ofMembers
      (Extent.inStruct packed (extents ++ List.replicate run.fill.length Extent.byte))) := by
  have hbyte (id : TypeId) (hid : id ∈ run.fill) : s'.module.extentOf id = .ok Extent.byte :=
    Module.extentOf_byte (run.later_final.module.partsKept (run.fill_byte hid) (by simp))
  have hfill : List.Forall₂ (fun id e => s'.module.extentOf id = .ok e) run.fill
      (List.replicate run.fill.length Extent.byte) := by
    rw [← List.map_const', List.forall₂_map_right_iff, List.forall₂_same]
    exact hbyte
  exact Module.extentOf_of_members (run.type_eq hblank)
    (exceptMapM_eq_ok_iff.mpr (List.rel_append (exceptMapM_eq_ok_iff.mp hextents) hfill))

theorem StructRun.sizeOf_eq (run : StructRun asm ty d packed s s') (hkind : d.kind = .structType)
    (hblank : s.module.types[run.handle.index]? = some (.struct name none packed'))
    (hdeclared : d.classSize = some declared) (hwhole : CountsWhole asm run.layout)
    {extents : List Extent} (hextents : run.body.mapM s'.module.extentOf = .ok extents)
    (hle : (Extent.ofMembers (Extent.inStruct packed extents)).size ≤ declared)
    (hdvd : (Extent.ofMembers (Extent.inStruct packed extents)).align ∣ declared)
    (hlt : declared < 2 ^ 64) :
    ∃ excess ≤ declared, s'.module.sizeOf run.handle = .ok ((declared + excess) % 2 ^ 64) ∧
      (excess = 0 ↔ (packed = true ∨ Extent.Tight 0 extents) ∧
        ∀ entry ∈ run.layout, isStored asm entry = true → ∃ f, entry = .field f) := by
  obtain ⟨hgrounded, hextent⟩ := run.extent_eq hblank hextents
  obtain ⟨members, hall, hbody, hfields⟩ := structMembers_becomes run.members
  have hlater : Session.Later asm run.membered s' :=
    IsTrans.trans _ _ _ run.membered_filled run.later_final
  obtain ⟨parts, hparts, hcounted, hcounted_iff⟩ := exists_fieldExtents
    (hall.imp fun _ _ h => h.mono hlater.toExtends) (exceptMapM_eq_ok_iff.mp (hbody ▸ hextents))
  rw [← hfields] at hparts
  have hpos : ∀ e ∈ extents, 0 < e.align := by
    intro e he
    obtain ⟨id, -, hid⟩ := exists_mem_of_forall₂ (exceptMapM_eq_ok_iff.mp hextents).flip he
    exact Module.align_pos hid
  have hsum := Extent.sum_le_endFrom_inStruct packed hpos
  have hend : Extent.endFrom 0 (Extent.inStruct packed extents) ≤ declared :=
    (le_roundUp _ (Extent.one_le_maxAlign _)).trans hle
  have hfill := run.fill_eq hkind hblank hgrounded hdeclared hwhole hparts (by omega)
  rw [hfill] at hextent
  have halign : 0 < (Extent.ofMembers (Extent.inStruct packed extents)).align :=
    Extent.one_le_maxAlign _
  refine ⟨roundUp (Extent.endFrom 0 (Extent.inStruct packed extents) -
    (parts.map Extent.size).sum) (Extent.ofMembers (Extent.inStruct packed extents)).align,
    Extent.roundUp_le_of_dvd halign ((Nat.sub_le _ _).trans hend) hdvd, ?_, ?_⟩
  · rw [← Extent.size_filled hdvd hend (hcounted.trans hsum), Module.sizeOf, exceptBind_eq_ok_iff]
    exact ⟨_, hextent, rfl⟩
  · rw [Extent.roundUp_eq_zero_iff halign, ← Extent.endFrom_inStruct_eq_iff hpos, ← hcounted_iff]
    omega

/-- A struct is declared with a size that is a multiple of its alignment, is not made of exactly one
character, and would fit into that size unfilled.  It has the declared size in the end exactly if
its members leave no gaps and are all fields.  Otherwise it is larger, by what was not counted,
rounded up. -/
theorem fixed_size_iff (hd : asm.typeDef ty = .ok d) (hkind : d.kind = .structType)
    (hdeclared : d.classSize = some declared) (hhandle : s.registry.types.lookup ty = some handle)
    (hblank : s.module.types[handle.index]? = some (.struct name none packed'))
    (h : defineType asm ty s = .ok () s') :
    ∃ packed layout cache members fill, packedOf d = .ok packed ∧
      Layouts.structLayout asm ty s.layouts = .ok layout cache ∧
      s'.module.structBody? handle = .ok (some (members ++ fill, packed)) ∧
      List.Forall₂ (fun entry type => Becomes asm s' entry (some type))
        (layout.filter (isStored asm)) members ∧
      ∀ extents, members.mapM s'.module.extentOf = .ok extents → CountsWhole asm layout →
        (Extent.ofMembers (Extent.inStruct packed extents)).size ≤ declared →
        (Extent.ofMembers (Extent.inStruct packed extents)).align ∣ declared → declared < 2 ^ 64 →
        (s'.module.sizeOf handle = .ok declared ↔
          (packed = true ∨ Extent.Tight 0 extents) ∧
            ∀ entry ∈ layout, isStored asm entry = true → ∃ f, entry = .field f) ∧
        ∃ excess ≤ declared, s'.module.sizeOf handle = .ok ((declared + excess) % 2 ^ 64) := by
  obtain ⟨packed, hpacked, -, hstruct⟩ := defineType_struct hd (.inr hkind) h
  obtain ⟨run⟩ := nonempty_structRun hstruct
  obtain rfl := run.handle_eq (Std.Refl.refl s) hhandle
  obtain ⟨members, hall, hbody, -⟩ := structMembers_becomes run.members
  have hlater : Session.Later asm run.membered s' :=
    IsTrans.trans _ _ _ run.membered_filled run.later_final
  have hlaid := run.laidOut
  rw [(run.tabled_eq hkind).2] at hlaid
  refine ⟨packed, run.layout, run.cache, run.body, run.fill, hpacked, hlaid, ?_, ?_, ?_⟩
  · rw [Module.structBody?, exceptBind_eq_ok_iff]
    exact ⟨_, Arena.entry_eq_ok_iff.mpr (run.type_eq hblank), rfl⟩
  · exact hbody ▸ stored_becomes (hall.imp fun _ _ h => h.mono hlater.toExtends)
  · intro extents hextents hwhole hle hdvd hlt
    obtain ⟨excess, hexcess, hsize, hiff⟩ :=
      run.sizeOf_eq hkind hblank hdeclared hwhole hextents hle hdvd hlt
    refine ⟨?_, excess, hexcess, hsize⟩
    rw [hsize, ← hiff, Except.ok.injEq]
    omega

end Structs

section Parcels

/-- Structs of declared sizes, one with another struct in it, and one with a gap. -/
def parcels : Assembly :=
  let roots := Assembly.ofName "parcels"
  let struct (name : String) : TypeDef :=
    { TypeDef.ofKind .structType "" name with base := some Assembly.valueType }
  { roots with
    types := roots.types ++ #[
      { struct "Goods" with fields := [⟨0⟩] },
      { struct "Parcel" with fields := [⟨1⟩, ⟨2⟩], classSize := some 16 },
      { struct "Pair" with fields := [⟨3⟩, ⟨4⟩], classSize := some 8 }]
    fields := #[⟨"count", ⟨3⟩, .i4, false⟩, ⟨"goods", ⟨4⟩, .named ⟨3⟩, false⟩,
      ⟨"sealed", ⟨4⟩, .i1, false⟩, ⟨"flag", ⟨5⟩, .i1, false⟩, ⟨"value", ⟨5⟩, .i4, false⟩] }

/-- The state when the types are declared, when the goods are defined, and when the struct around
them is. -/
def parcelsDeclared : Session := stateOf (declareTypes parcels { module := { name := "module" } })

def goodsDefined : Session := stateOf (defineType parcels ⟨3⟩ parcelsDeclared)

def parcelDefined : Session := stateOf (defineType parcels ⟨4⟩ goodsDefined)

/-- A parcel has the size that is declared. -/
theorem parcel_fits :
    goodsDefined.registry.types.lookup ⟨4⟩ = some ⟨1⟩ ∧
      defineType parcels ⟨4⟩ goodsDefined = .ok () parcelDefined ∧
      parcelDefined.module.sizeOf ⟨1⟩ = .ok 16 := by
  have hhandle : goodsDefined.registry.types.lookup ⟨4⟩ = some ⟨1⟩ := by decide +kernel
  have hblank : goodsDefined.module.types[1]? = some (.struct "Parcel" none false) := by
    decide +kernel
  have hdefine : defineType parcels ⟨4⟩ goodsDefined = .ok () parcelDefined :=
    outcome?_eq_some_iff.mp (by decide +kernel)
  obtain ⟨packed, layout, cache, members, fill, hpacked, hlayout, hbody, hmembers, hsize⟩ :=
    fixed_size_iff rfl rfl rfl hhandle hblank hdefine
  have hlaid : Layouts.structLayout parcels ⟨4⟩ goodsDefined.layouts = .ok
      [.field ⟨1⟩, .field ⟨2⟩, .barrier ⟨4⟩]
      (stateOf (Layouts.structLayout parcels ⟨4⟩ goodsDefined.layouts)) :=
    eq_ok_stateOf (by decide +kernel)
  cases hlayout.symm.trans hlaid
  have hstruct : parcelDefined.module.structBody? ⟨1⟩ =
      .ok (some (⟨0⟩ :: ⟨4⟩ :: List.replicate 11 ⟨4⟩, false)) := by decide +kernel
  obtain ⟨hsplit, rfl⟩ := Prod.mk.inj (Option.some.inj (Except.ok.inj (hbody.symm.trans hstruct)))
  have htwo : members.length = 2 := hmembers.length_eq.symm.trans (by decide +kernel)
  obtain rfl : members = [⟨0⟩, ⟨4⟩] := by
    have htake : (members ++ fill).take members.length = members := List.take_left
    rw [← htake, hsplit, htwo]
    rfl
  have hextents : [TypeId.mk 0, ⟨4⟩].mapM parcelDefined.module.extentOf =
      .ok [⟨4, 4⟩, ⟨1, 1⟩] := by decide +kernel
  have hwhole : CountsWhole parcels [.field ⟨1⟩, .field ⟨2⟩, .barrier ⟨4⟩] := by
    intro f fd hone
    have hstored : storedFields parcels [.field ⟨1⟩, .field ⟨2⟩, .barrier ⟨4⟩] = [⟨1⟩, ⟨2⟩] := by
      decide +kernel
    cases hstored.symm.trans hone
  refine ⟨hhandle, hdefine, (hsize _ hextents hwhole (by decide +kernel) (by decide +kernel)
    (by decide)).1.mpr ⟨.inr (by decide +kernel), ?_⟩⟩
  simp [isStored, StructEntry.occupiesStorage]

/-- The state when the struct with a gap is defined. -/
def pairDefined : Session := stateOf (defineType parcels ⟨5⟩ parcelsDeclared)

/-- Its members would take eight bytes, which are declared, but the gap comes on top of them. -/
theorem pair_exceeds :
    (parcels.typeDef ⟨5⟩).map TypeDef.classSize = .ok (some 8) ∧
      parcelsDeclared.registry.types.lookup ⟨5⟩ = some ⟨2⟩ ∧
      defineType parcels ⟨5⟩ parcelsDeclared = .ok () pairDefined ∧
      pairDefined.module.structBody? ⟨2⟩ =
        .ok (some ([⟨3⟩, ⟨4⟩] ++ List.replicate 3 ⟨3⟩, false)) ∧
      [TypeId.mk 3, ⟨4⟩].mapM pairDefined.module.extentOf = .ok [⟨1, 1⟩, ⟨4, 4⟩] ∧
      Extent.ofMembers (Extent.inStruct false [⟨1, 1⟩, ⟨4, 4⟩]) = ⟨8, 4⟩ ∧
      pairDefined.module.sizeOf ⟨2⟩ = .ok 12 := by
  refine ⟨rfl, by decide +kernel, outcome?_eq_some_iff.mp (by decide +kernel), by decide +kernel,
    by decide +kernel, by decide +kernel, by decide +kernel⟩

end Parcels

end Lowering

end CilSsa
