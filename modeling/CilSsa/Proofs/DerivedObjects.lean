import Mathlib.Data.List.Forall2
import CilSsa.Proofs.Definitions

/-!
Objects of a derived class as objects of the base.

The struct of a class begins with members of the same extents as those of its base.  Whether they
stand at the same offsets depends on the packing of the two: if both are packed or neither is they
do, and otherwise only if the members of the base leave no gaps anyway.
-/

namespace CilSsa

open Ssa Metadata Lowering

namespace Ssa.Extent

theorem roundUp_eq_self_iff {n align : Nat} : roundUp n align = n ↔ align ∣ n := by
  constructor
  · intro h
    rw [← h]
    exact dvd_roundUp n align
  · rintro ⟨k, rfl⟩
    by_cases h : align = 0
    · simp [h, roundUp]
    · have hpos : 0 < align := Nat.pos_of_ne_zero h
      have hdiv : (align * k + align - 1) / align = k := by
        rw [show align * k + align - 1 = (align - 1) + align * k by omega,
          Nat.add_mul_div_left _ _ hpos, Nat.div_eq_of_lt (by omega), Nat.zero_add]
      rw [roundUp, hdiv, Nat.mul_comm]

/-- Whether each member is aligned where the last one ends. -/
def Tight : Nat → List Extent → Prop
  | _, [] => True
  | offset, e :: rest => e.align ∣ offset ∧ Tight (offset + e.size) rest

instance decidableTight :
    (offset : Nat) → (members : List Extent) → Decidable (Tight offset members)
  | _, [] => .isTrue trivial
  | offset, e :: rest =>
      have := decidableTight (offset + e.size) rest
      inferInstanceAs (Decidable (e.align ∣ offset ∧ Tight (offset + e.size) rest))

variable {offset : Nat} {members more : List Extent}

theorem length_offsetsFrom : (offsetsFrom offset members).length = members.length := by
  induction members generalizing offset with
  | nil => rfl
  | cons e rest ih => simp [offsetsFrom, ih]

theorem offsetsFrom_append :
    offsetsFrom offset (members ++ more) =
      offsetsFrom offset members ++ offsetsFrom (endFrom offset members) more := by
  induction members generalizing offset with
  | nil => rfl
  | cons e rest ih => simp [offsetsFrom, endFrom, ih]

theorem endFrom_append :
    endFrom offset (members ++ more) = endFrom (endFrom offset members) more := by
  induction members generalizing offset with
  | nil => rfl
  | cons e rest ih => simp [endFrom, ih]

theorem le_endFrom (h : ∀ e ∈ members, 0 < e.align) : offset ≤ endFrom offset members := by
  induction members generalizing offset with
  | nil => exact Nat.le_refl _
  | cons e rest ih =>
      have hplace : offset ≤ e.place offset := le_roundUp offset (h e List.mem_cons_self)
      calc offset ≤ e.place offset + e.size := Nat.le_add_right_of_le hplace
        _ ≤ endFrom (e.place offset + e.size) rest := ih fun e he => h e (List.mem_cons_of_mem _ he)

theorem place_unaligned (offset : Nat) (e : Extent) : e.unaligned.place offset = offset :=
  roundUp_eq_self_iff.mpr (Nat.one_dvd _)

/-- Without alignment members stand where they do with it exactly if there are no gaps. -/
theorem offsetsFrom_unaligned_iff :
    offsetsFrom offset (members.map unaligned) = offsetsFrom offset members ↔
      Tight offset members := by
  induction members generalizing offset with
  | nil => simp [offsetsFrom, Tight]
  | cons e rest ih =>
      simp only [List.map_cons, offsetsFrom, place_unaligned, List.cons.injEq, Tight]
      constructor
      · rintro ⟨hplace, hrest⟩
        rw [← hplace] at hrest
        exact ⟨roundUp_eq_self_iff.mp hplace.symm, ih.mp hrest⟩
      · rintro ⟨hdvd, hrest⟩
        have hplace : e.place offset = offset := roundUp_eq_self_iff.mpr hdvd
        rw [hplace]
        exact ⟨rfl, ih.mpr hrest⟩

theorem endFrom_unaligned (h : Tight offset members) :
    endFrom offset (members.map unaligned) = endFrom offset members := by
  induction members generalizing offset with
  | nil => rfl
  | cons e rest ih =>
      have hplace : e.place offset = offset := roundUp_eq_self_iff.mpr h.1
      simp only [List.map_cons, endFrom, place_unaligned, hplace]
      exact ih h.2

theorem inStruct_append {packed : Bool} :
    inStruct packed (members ++ more) = inStruct packed members ++ inStruct packed more := by
  cases packed <;> simp [inStruct]

theorem length_inStruct {packed : Bool} : (inStruct packed members).length = members.length := by
  cases packed <;> simp [inStruct]

/-- Members stand at the same offsets with either packing exactly if there are no gaps. -/
theorem offsetsFrom_inStruct_iff {packed packed' : Bool} :
    offsetsFrom 0 (inStruct packed members) = offsetsFrom 0 (inStruct packed' members) ↔
      packed = packed' ∨ Tight 0 members := by
  cases packed <;> cases packed' <;>
    simp [inStruct, eq_comm, ← offsetsFrom_unaligned_iff]

theorem endFrom_inStruct {packed packed' : Bool} (h : packed = packed' ∨ Tight 0 members) :
    endFrom 0 (inStruct packed members) = endFrom 0 (inStruct packed' members) := by
  rcases h with rfl | h
  · rfl
  · cases packed <;> cases packed' <;> simp [inStruct, endFrom_unaligned h]

theorem one_le_maxAlign (members : List Extent) : 1 ≤ maxAlign members := by
  have hfold (aligns : List Nat) (start : Nat) : start ≤ aligns.foldl max start := by
    induction aligns generalizing start with
    | nil => exact Nat.le_refl _
    | cons align rest ih => exact Nat.le_trans (Nat.le_max_left _ _) (ih _)
  exact hfold _ _

/-- Members at the head of a struct stand where they do in a struct of their own exactly if the two
are packed alike or there are no gaps. -/
theorem head_offsets_iff {packed packed' : Bool} :
    (∀ i < members.length, (offsetsFrom 0 (inStruct packed (members ++ more)))[i]? =
      (offsetsFrom 0 (inStruct packed' members))[i]?) ↔ packed = packed' ∨ Tight 0 members := by
  have hlength (packed : Bool) : (offsetsFrom 0 (inStruct packed members)).length =
      members.length := by
    rw [length_offsetsFrom, length_inStruct]
  rw [← offsetsFrom_inStruct_iff, inStruct_append, offsetsFrom_append]
  constructor
  · intro h
    apply List.ext_getElem?
    intro i
    by_cases hi : i < members.length
    · rw [← h i hi, List.getElem?_append_left (by rw [hlength]; exact hi)]
    · rw [List.getElem?_eq_none (by rw [hlength]; omega),
        List.getElem?_eq_none (by rw [hlength]; omega)]
  · intro h i hi
    rw [List.getElem?_append_left (by rw [hlength]; exact hi), h]

theorem head_end_le {packed packed' : Bool} (hpos : ∀ e ∈ more, 0 < e.align)
    (h : packed = packed' ∨ Tight 0 members) :
    endFrom 0 (inStruct packed' members) ≤
      (ofMembers (inStruct packed (members ++ more))).size := by
  have hpos' : ∀ e ∈ inStruct packed more, 0 < e.align := by
    intro e he
    cases packed with
    | false => exact hpos e he
    | true =>
        obtain ⟨e', -, rfl⟩ := List.mem_map.mp he
        exact Nat.one_pos
  calc endFrom 0 (inStruct packed' members)
      = endFrom 0 (inStruct packed members) := (endFrom_inStruct h).symm
    _ ≤ endFrom (endFrom 0 (inStruct packed members)) (inStruct packed more) := le_endFrom hpos'
    _ = endFrom 0 (inStruct packed (members ++ more)) := by rw [inStruct_append, endFrom_append]
    _ ≤ (ofMembers (inStruct packed (members ++ more))).size :=
        le_roundUp _ (one_le_maxAlign _)

end Ssa.Extent

namespace Ssa.Module

variable {m : Module}

theorem extentWith_succ {fuel : Nat} {id : TypeId} {e : Extent} (h : m.extentWith fuel id = .ok e) :
    m.extentWith (fuel + 1) id = .ok e := by
  induction fuel generalizing id e with
  | zero => simp [extentWith] at h
  | succ fuel ih =>
      rw [extentWith, exceptBind_eq_ok_iff] at h ⊢
      obtain ⟨type, htype, h⟩ := h
      refine ⟨type, htype, ?_⟩
      cases type with
      | array element length =>
          simp only [exceptBind_eq_ok_iff] at h ⊢
          obtain ⟨e', he', h⟩ := h
          exact ⟨e', ih he', h⟩
      | struct name body packed =>
          cases body with
          | none => exact h
          | some body =>
              simp only [exceptBind_eq_ok_iff] at h ⊢
              obtain ⟨members, hmembers, h⟩ := h
              rw [exceptMapM_eq_ok_iff] at hmembers
              exact ⟨members, exceptMapM_eq_ok_iff.mpr (hmembers.imp fun _ _ => ih), h⟩
      | _ => exact h

theorem extentOf_struct {id : TypeId} {name : String} {body : List TypeId} {packed : Bool}
    {e : Extent} (htype : m.types[id.index]? = some (.struct name (some body) packed))
    (h : m.extentOf id = .ok e) : ∃ members, body.mapM m.extentOf = .ok members ∧
      e = Extent.ofMembers (Extent.inStruct packed members) := by
  have hdata : m.typeData id = .ok (.struct name (some body) packed) :=
    Arena.entry_eq_ok_iff.mpr htype
  simp only [extentOf, extentWith, hdata, exceptBind_eq_ok_iff] at h
  obtain ⟨type, hsame, h⟩ := h
  obtain rfl := Except.ok.inj hsame
  simp only [exceptBind_eq_ok_iff, exceptPure_eq_ok_iff] at h
  obtain ⟨members, hmembers, rfl⟩ := h
  rw [exceptMapM_eq_ok_iff] at hmembers
  exact ⟨members, exceptMapM_eq_ok_iff.mpr (hmembers.imp fun _ _ => extentWith_succ), rfl⟩

theorem structBody?_eq_ok {id : TypeId} {name : String} {body : List TypeId} {packed : Bool}
    (htype : m.types[id.index]? = some (.struct name (some body) packed)) :
    m.structBody? id = .ok (some (body, packed)) := by
  have hdata : m.typeData id = .ok (.struct name (some body) packed) :=
    Arena.entry_eq_ok_iff.mpr htype
  rw [structBody?, hdata]
  rfl

theorem memberOffsets_eq {id : TypeId} {name : String} {body : List TypeId} {packed : Bool}
    {members : List Extent} (htype : m.types[id.index]? = some (.struct name (some body) packed))
    (hmembers : body.mapM m.extentOf = .ok members) :
    m.memberOffsets? id = .ok (some (Extent.offsetsFrom 0 (Extent.inStruct packed members))) := by
  rw [memberOffsets?, structBody?_eq_ok htype, exceptBind_eq_ok_iff]
  exact ⟨_, rfl, exceptBind_eq_ok_iff.mpr ⟨members, hmembers, rfl⟩⟩

theorem extentOf_pointer {id pointee : TypeId}
    (htype : m.types[id.index]? = some (.pointer pointee)) :
    m.extentOf id = .ok (Extent.scalar pointerSize) := by
  have hdata : m.typeData id = .ok (.pointer pointee) := Arena.entry_eq_ok_iff.mpr htype
  rw [extentOf, extentWith, hdata]
  rfl

theorem align_pos {fuel : Nat} {id : TypeId} {e : Extent} (h : m.extentWith fuel id = .ok e) :
    0 < e.align := by
  have hscalar (size : Nat) : 0 < (Extent.scalar size).align := by
    simp only [Extent.scalar]
    omega
  induction fuel generalizing id e with
  | zero => simp [extentWith] at h
  | succ fuel ih =>
      rw [extentWith, exceptBind_eq_ok_iff] at h
      obtain ⟨type, -, h⟩ := h
      cases type with
      | int bits | float bits | pointer pointee =>
          obtain rfl := exceptPure_eq_ok_iff.mp h
          exact hscalar _
      | array element length =>
          simp only [exceptBind_eq_ok_iff, exceptPure_eq_ok_iff] at h
          obtain ⟨e', he', rfl⟩ := h
          have hpos : 0 < e'.align := ih he'
          exact hpos
      | struct name body packed =>
          cases body with
          | none =>
              obtain rfl := exceptPure_eq_ok_iff.mp h
              exact Nat.one_pos
          | some body =>
              simp only [exceptBind_eq_ok_iff, exceptPure_eq_ok_iff] at h
              obtain ⟨members, -, rfl⟩ := h
              exact Extent.one_le_maxAlign _
      | void | function result params =>
          obtain rfl := exceptPure_eq_ok_iff.mp h
          exact Nat.one_pos

end Ssa.Module

namespace Lowering

variable {asm : Assembly} {s s' t : Session}

section Members

/-- What an entry of a layout becomes as a member of a struct, seen from a later state. -/
inductive Becomes (asm : Assembly) (t : Session) : StructEntry → Option TypeId → Prop
  | classVTable {owner : TypeDefId} {id pointee : TypeId} :
      t.module.types[id.index]? = some (.pointer pointee) →
      Becomes asm t (.classVTable owner) (some id)
  | indirection {id pointee : TypeId} :
      t.module.types[id.index]? = some (.pointer pointee) → Becomes asm t .indirection (some id)
  | field {f : FieldId} {d : FieldDef} {id : TypeId} :
      asm.field f = .ok d → d.isStatic = false → irType asm d.sig t = .ok id t →
      Becomes asm t (.field f) (some id)
  | static {f : FieldId} {d : FieldDef} :
      asm.field f = .ok d → d.isStatic = true → Becomes asm t (.field f) none
  | barrier {owner : TypeDefId} : Becomes asm t (.barrier owner) none

variable {entry : StructEntry} {member member' : Option TypeId}

theorem pointer_of_extends {id pointee : TypeId} (hext : s.Extends t)
    (h : s.module.types[id.index]? = some (.pointer pointee)) :
    t.module.types[id.index]? = some (.pointer pointee) := by
  obtain ⟨type, htype, rfl | ⟨_, _, _, _, hstruct, -⟩⟩ := hext.module.type h
  · exact htype
  · simp at hstruct

theorem Becomes.mono (h : Becomes asm s entry member) (hext : s.Extends t) :
    Becomes asm t entry member := by
  cases h with
  | classVTable htype => exact .classVTable (pointer_of_extends hext htype)
  | indirection htype => exact .indirection (pointer_of_extends hext htype)
  | field hd hstatic htype =>
      exact .field hd hstatic ((inferInstance : Settles Session.Extends _).run htype hext)
  | static hd hstatic => exact .static hd hstatic
  | barrier => exact .barrier

theorem Becomes.extent (h : Becomes asm t entry member) (h' : Becomes asm t entry member') :
    member.map t.module.extentOf = member'.map t.module.extentOf := by
  cases h with
  | classVTable htype =>
      cases h' with
      | classVTable htype' =>
          simp [Module.extentOf_pointer htype, Module.extentOf_pointer htype']
  | indirection htype =>
      cases h' with
      | indirection htype' =>
          simp [Module.extentOf_pointer htype, Module.extentOf_pointer htype']
  | field hd hstatic htype =>
      cases h' with
      | field hd' _ htype' =>
          obtain rfl := Except.ok.inj (hd.symm.trans hd')
          rw [htype] at htype'
          cases htype'
          rfl
      | static hd' hstatic' =>
          obtain rfl := Except.ok.inj (hd.symm.trans hd')
          simp [hstatic] at hstatic'
  | static hd hstatic =>
      cases h' with
      | field hd' hstatic' =>
          obtain rfl := Except.ok.inj (hd.symm.trans hd')
          simp [hstatic] at hstatic'
      | static => rfl
  | barrier =>
      cases h' with
      | barrier => rfl

theorem extents_eq {entries : List StructEntry} {members members' : List (Option TypeId)}
    (h : List.Forall₂ (Becomes asm t) entries members)
    (h' : List.Forall₂ (Becomes asm t) entries members') :
    (members.filterMap id).map t.module.extentOf =
      (members'.filterMap id).map t.module.extentOf := by
  induction h generalizing members' with
  | nil =>
      cases h'
      rfl
  | @cons entry member entries members hfirst _ ih =>
      cases h' with
      | @cons _ member' _ members' hfirst' hrest' =>
          have hextent := hfirst.extent hfirst'
          have hrest := ih hrest'
          cases member <;> cases member' <;> simp_all

def fieldMember? : StructEntry × Option TypeId → Option (FieldId × TypeId)
  | (.field f, some type) => some (f, type)
  | _ => none

theorem genericPointer_type {id : TypeId}
    (h : Lower.build Build.genericPointer s = .ok id s') :
    ∃ pointee, s'.module.types[id.index]? = some (.pointer pointee) := by
  obtain ⟨m, hbuild, rfl⟩ := Lower.build_eq_ok_iff.mp h
  obtain ⟨byte, m₁, -, hpointer⟩ := bind_eq_ok_iff.mp hbuild
  exact ⟨byte, Build.intern_type hpointer⟩

theorem memberType?_becomes {dispatch : Bool}
    (h : memberType? asm dispatch entry s = .ok member s') :
    Becomes asm s' entry member := by
  cases entry with
  | classVTable owner =>
      cases dispatch with
      | true =>
          simp only [memberType?, if_true, bind_eq_ok_iff, map_eq_ok_iff] at h
          obtain ⟨table, s₁, -, id, hpointer, rfl⟩ := h
          obtain ⟨m, hbuild, rfl⟩ := Lower.build_eq_ok_iff.mp hpointer
          exact .classVTable (Build.intern_type hbuild)
      | false =>
          obtain ⟨id, hpointer, rfl⟩ := map_eq_ok_iff.mp h
          obtain ⟨pointee, htype⟩ := genericPointer_type hpointer
          exact .classVTable htype
  | indirection =>
      obtain ⟨id, hpointer, rfl⟩ := map_eq_ok_iff.mp h
      obtain ⟨pointee, htype⟩ := genericPointer_type hpointer
      exact .indirection htype
  | field f =>
      simp only [memberType?, bind_eq_ok_iff, Lower.liftM_ask, Lower.ask_eq_ok_iff] at h
      obtain ⟨d, _, ⟨hd, rfl⟩, h⟩ := h
      cases hstatic : d.isStatic with
      | true =>
          simp only [hstatic, if_true, bind_eq_ok_iff, pure_eq_ok_iff] at h
          obtain ⟨global, _, -, rfl, rfl⟩ := h
          exact .static hd hstatic
      | false =>
          rw [hstatic] at h
          obtain ⟨id, htype, rfl⟩ := map_eq_ok_iff.mp h
          exact .field hd hstatic
            ((inferInstance : Settles Session.Extends _).run htype (Std.Refl.refl _))
  | barrier owner =>
      obtain ⟨rfl, rfl⟩ := pure_eq_ok_iff.mp h
      exact .barrier

/-- The members of a struct are what the entries of the layout become, and of each field that is one
the type is known. -/
theorem structMembers_becomes {dispatch : Bool} {entries : List StructEntry} {body : List TypeId}
    {fields : List (FieldId × TypeId)}
    (h : structMembers asm dispatch entries s = .ok (body, fields) s') :
    ∃ members, List.Forall₂ (Becomes asm s') entries members ∧ body = members.filterMap id ∧
      fields = (entries.zip members).filterMap fieldMember? := by
  induction entries generalizing s s' body fields with
  | nil =>
      obtain ⟨hbody, -⟩ := pure_eq_ok_iff.mp h
      obtain ⟨rfl, rfl⟩ := Prod.mk.inj hbody
      exact ⟨[], .nil, rfl, rfl⟩
  | cons entry rest ih =>
      simp only [structMembers, bind_eq_ok_iff] at h
      obtain ⟨member, s₁, hmember, ⟨body', fields'⟩, s₂, hrest, h⟩ := h
      obtain ⟨members, hall, rfl, rfl⟩ := ih hrest
      have hlater : Session.Later asm s₁ s₂ :=
        (inferInstance : Keeps _ (structMembers asm dispatch rest)).run hrest
      have hfirst := (memberType?_becomes hmember).mono hlater.toExtends
      obtain ⟨hpair, rfl⟩ : (body, fields) = ((member :: members).filterMap id,
          ((entry :: rest).zip (member :: members)).filterMap fieldMember?) ∧ s' = s₂ := by
        cases member <;> cases entry <;> exact pure_eq_ok_iff.mp h
      obtain ⟨rfl, rfl⟩ := Prod.mk.inj hpair
      exact ⟨member :: members, .cons hfirst hall, rfl, rfl⟩

end Members

section Classes

variable {u u' : Unit} {ty : TypeDefId} {d : TypeDef}

/-- What a struct is after it was defined. -/
theorem StructRun.outcome {start : Session} {packed : Bool} (run : StructRun asm ty d packed s s')
    (hstart : Declared asm start) (hd : asm.typeDef ty = .ok d)
    (hkind : d.kind = .classType ∨ d.kind = .structType) (hroot : Assembly.isRoot ty = false)
    (hbefore : Session.Later asm start s) (hblank : Blank asm start s ty)
    (hafter : Session.Later asm s' t) :
    LayoutOf asm ty run.layout ∧ t.registry.types.lookup ty = some run.handle ∧ ∃ name,
      t.module.types[run.handle.index]? =
        some (.struct name (some (run.body ++ run.fill)) packed) := by
  obtain ⟨handle, hhandle⟩ := hstart.known ty (mem_userTypes hd hroot)
  obtain rfl := run.handle_eq hbefore hhandle
  obtain ⟨name, packed', hblank⟩ := hblank (hasStruct_of_kind hd hkind) _ hhandle
  have hlayouts : run.tabled.layouts.Sound asm := by
    refine (IsTrans.trans _ _ _ hbefore run.later_tabled).layouts.sound ?_
    intro ty layout hfound
    simp [hstart.layouts] at hfound
  refine ⟨(Layouts.structLayout_sound run.laidOut hlayouts).1,
    (IsTrans.trans _ _ _ run.later_final hafter).registry.types run.found, name, ?_⟩
  have hlt := (Array.getElem?_eq_some_iff.mp (run.typesKept _ _ hblank)).1
  have hdefined : s'.module.types[run.handle.index]? =
      some (.struct name (some (run.body ++ run.fill)) packed) := by
    rw [run.module_eq hblank]
    simp [Module.apply, hlt]
  obtain ⟨type, htype, rfl | ⟨_, _, _, _, hnone, -⟩⟩ := hafter.module.type hdefined
  · exact htype
  · simp at hnone

theorem class_struct (hstart : Declared asm s) (hcompile : compileTypes asm s = .ok u s')
    (hd : asm.typeDef ty = .ok d) (hkind : d.kind = .classType)
    (hroot : Assembly.isRoot ty = false) :
    ∃ handle name packed layout members, s'.registry.types.lookup ty = some handle ∧
      s'.module.types[handle.index]? = some (.struct name (some (members.filterMap id)) packed) ∧
      packedOf d = .ok packed ∧ LayoutOf asm ty layout ∧
      List.Forall₂ (Becomes asm s') layout members := by
  obtain ⟨t, t', hbefore, hblank, hdefine, hafter⟩ :=
    defined_of_compileTypes hstart hcompile (mem_userTypes hd hroot)
  obtain ⟨packed, hpacked, hsize, hstruct⟩ := defineType_struct hd (.inl hkind) hdefine
  obtain ⟨run⟩ := nonempty_structRun hstruct
  obtain ⟨hlayout, hhandle, name, htype⟩ :=
    run.outcome hstart hd (.inl hkind) hroot hbefore hblank hafter
  obtain ⟨hfill, hfilled⟩ : run.fill = [] ∧ run.filled = run.membered := by
    rcases run.filling with ⟨-, hfill, hfilled⟩ | ⟨size, _, _, _, _, hsome, -⟩
    · exact ⟨hfill, hfilled⟩
    · simp [hsize hkind] at hsome
  obtain ⟨members, hmembers, hbody, -⟩ := structMembers_becomes run.members
  have hlast : Session.Later asm run.membered s' :=
    hfilled ▸ IsTrans.trans _ _ _ run.later_final hafter
  rw [hfill, hbody, List.append_nil] at htype
  exact ⟨run.handle, name, packed, run.layout, members, hhandle, htype, hpacked, hlayout,
    hmembers.imp fun _ _ h => h.mono hlast.toExtends⟩

/-- The struct of a derived class begins with members of the extents that the members of the base
have.  They stand at the same offsets if and only if the two structs are packed alike or the members
of the base leave no gaps, and then objects of the derived class reach to the end of the base. -/
theorem base_offsets_iff {m : Module} (hdeclare : declareTypes asm { module := m } = .ok u s)
    (hcompile : compileTypes asm s = .ok u' s') {base : TypeDefId} {b : TypeDef}
    (hd : asm.typeDef ty = .ok d) (hkind : d.kind = .classType) (hroot : Assembly.isRoot ty = false)
    (hbase : d.base = some base) (hb : asm.typeDef base = .ok b) (hkindb : b.kind = .classType)
    (hrootb : Assembly.isRoot base = false) :
    ∃ handle handleb body bodyb packed packedb,
      s'.registry.type asm ty = .ok handle ∧ s'.registry.type asm base = .ok handleb ∧
      s'.module.structBody? handle = .ok (some (body, packed)) ∧
      s'.module.structBody? handleb = .ok (some (bodyb, packedb)) ∧
      packedOf d = .ok packed ∧ packedOf b = .ok packedb ∧ bodyb.length ≤ body.length ∧
      ∀ extent, s'.module.extentOf handle = .ok extent → ∃ members offsets offsetsb,
        bodyb.mapM s'.module.extentOf = .ok members ∧
        s'.module.memberOffsets? handle = .ok (some offsets) ∧
        s'.module.memberOffsets? handleb = .ok (some offsetsb) ∧
        ((∀ i < bodyb.length, offsets[i]? = offsetsb[i]?) ↔
          packed = packedb ∨ Extent.Tight 0 members) ∧
        (packed = packedb ∨ Extent.Tight 0 members →
          Extent.endFrom 0 (Extent.inStruct packedb members) ≤ extent.size) := by
  have hstart := declared_of_declareTypes hdeclare
  obtain ⟨handle, name, packed, layout, members, hfound, htype, hpacked, hlayout, hmembers⟩ :=
    class_struct hstart hcompile hd hkind hroot
  obtain ⟨handleb, nameb, packedb, layoutb, membersb, hfoundb, htypeb, hpackedb,
    hlayoutb, hmembersb⟩ :=
    class_struct hstart hcompile hb hkindb hrootb
  obtain ⟨inherited, own, hinherited, -, rfl⟩ := hlayout.split hd hbase hroot
  obtain rfl := hinherited.unique hlayoutb
  have hhead : List.Forall₂ (Becomes asm s') inherited (members.take inherited.length) := by
    simpa using List.forall₂_take inherited.length hmembers
  have hsplit : members.filterMap id =
      (members.take inherited.length).filterMap id ++
      (members.drop inherited.length).filterMap id := by
    rw [← List.filterMap_append, List.take_append_drop]
  have hextents := extents_eq hhead hmembersb
  have hlength : (membersb.filterMap id).length =
      ((members.take inherited.length).filterMap id).length := by
    simpa using (congrArg List.length hextents).symm
  have hmapM : ((members.take inherited.length).filterMap id).mapM s'.module.extentOf =
      (membersb.filterMap id).mapM s'.module.extentOf := by
    have hmap (types : List TypeId) :
        types.mapM s'.module.extentOf = (types.map s'.module.extentOf).mapM id := by
      rw [List.mapM_map]
      rfl
    rw [hmap, hextents, hmap]
  refine ⟨handle, handleb, _, _, packed, packedb, Registry.found_eq_ok_iff.mpr hfound,
    Registry.found_eq_ok_iff.mpr hfoundb, Module.structBody?_eq_ok htype,
    Module.structBody?_eq_ok htypeb, hpacked, hpackedb, ?_, ?_⟩
  · rw [hlength, hsplit, List.length_append]
    exact Nat.le_add_right _ _
  · intro extent hextent
    obtain ⟨extents, hall, rfl⟩ := Module.extentOf_struct htype hextent
    have hall' := hall
    rw [hsplit, List.mapM_append] at hall'
    simp only [exceptBind_eq_ok_iff, exceptPure_eq_ok_iff] at hall'
    obtain ⟨first, hfirst, more, hmore, rfl⟩ := hall'
    rw [hmapM] at hfirst
    have hcount : first.length = (membersb.filterMap id).length :=
      (exceptMapM_eq_ok_iff.mp hfirst).length_eq.symm
    refine ⟨first, _, _, hfirst, Module.memberOffsets_eq htype hall,
      Module.memberOffsets_eq htypeb hfirst, ?_, fun h => ?_⟩
    · rw [← hcount]
      exact Extent.head_offsets_iff
    · refine Extent.head_end_le (fun e he => ?_) h
      obtain ⟨type, -, htype⟩ := exists_mem_of_forall₂ (exceptMapM_eq_ok_iff.mp hmore).flip he
      exact Module.align_pos htype

/-- A class with a gap between its fields, and a packed class derived from it. -/
def squeezed : Assembly :=
  let roots := Assembly.ofName "squeezed"
  { roots with
    types := roots.types ++ #[
      { TypeDef.ofKind .classType "" "Base" with base := some ⟨0⟩, fields := [⟨0⟩, ⟨1⟩] },
      { TypeDef.ofKind .classType "" "Derived" with base := some ⟨3⟩, packing := some 1 }]
    fields := #[⟨"flag", ⟨3⟩, .i1, false⟩, ⟨"count", ⟨3⟩, .i4, false⟩] }

def squeezedDeclared : Session := stateOf (declareTypes squeezed { module := { name := "module" } })

def squeezedDefined : Session := stateOf (compileTypes squeezed squeezedDeclared)

theorem squeezed_offsets_differ :
    declareTypes squeezed { module := { name := "module" } } = .ok () squeezedDeclared ∧
      compileTypes squeezed squeezedDeclared = .ok () squeezedDefined ∧
      ∃ handle handleb offsets offsetsb, squeezedDefined.registry.type squeezed ⟨4⟩ = .ok handle ∧
        squeezedDefined.registry.type squeezed ⟨3⟩ = .ok handleb ∧
        squeezedDefined.module.memberOffsets? handle = .ok (some offsets) ∧
        squeezedDefined.module.memberOffsets? handleb = .ok (some offsetsb) ∧
        ¬ ∀ i < 3, offsets[i]? = offsetsb[i]? := by
  have hdeclare : declareTypes squeezed { module := { name := "module" } } =
      .ok () squeezedDeclared :=
    outcome?_eq_some_iff.mp (by decide +kernel)
  have hcompile : compileTypes squeezed squeezedDeclared = .ok () squeezedDefined :=
    outcome?_eq_some_iff.mp (by decide +kernel)
  have hd : squeezed.typeDef ⟨4⟩ = .ok _ := rfl
  have hb : squeezed.typeDef ⟨3⟩ = .ok _ := rfl
  obtain ⟨handle, handleb, body, bodyb, packed, packedb, hhandle, hhandleb, -, hbodyb, hpacked,
    hpackedb, -, hoffsets⟩ := base_offsets_iff hdeclare hcompile hd rfl rfl rfl hb rfl rfl
  have htype : squeezedDefined.registry.type squeezed ⟨4⟩ = .ok ⟨1⟩ := by decide +kernel
  have htypeb : squeezedDefined.registry.type squeezed ⟨3⟩ = .ok ⟨0⟩ := by decide +kernel
  obtain rfl := Except.ok.inj (htype.symm.trans hhandle)
  obtain rfl := Except.ok.inj (htypeb.symm.trans hhandleb)
  have hextent : squeezedDefined.module.extentOf ⟨1⟩ = .ok ⟨13, 1⟩ := by decide +kernel
  obtain ⟨members, offsets, offsetsb, hmembers, hat, hatb, hiff, -⟩ := hoffsets _ hextent
  have hstruct : squeezedDefined.module.structBody? ⟨0⟩ = .ok (some ([⟨3⟩, ⟨2⟩, ⟨4⟩], false)) := by
    decide +kernel
  obtain ⟨rfl, rfl⟩ := Prod.mk.inj (Option.some.inj (Except.ok.inj (hstruct.symm.trans hbodyb)))
  have hextents : [⟨3⟩, ⟨2⟩, ⟨4⟩].mapM squeezedDefined.module.extentOf =
      .ok [⟨8, 8⟩, ⟨1, 1⟩, ⟨4, 4⟩] := by decide +kernel
  obtain rfl := Except.ok.inj (hextents.symm.trans hmembers)
  obtain rfl : true = packed := Except.ok.inj hpacked
  exact ⟨hdeclare, hcompile, ⟨1⟩, ⟨0⟩, offsets, offsetsb, htype, htypeb, hat, hatb,
    fun hsame => absurd (hiff.mp hsame) (by decide)⟩

end Classes

end Lowering

end CilSsa
