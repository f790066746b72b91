import CilSsa.Proofs.StructBodies
import CilSsa.Proofs.TypedEntries

/-!
Fields as members of structs.

An instruction finds the member of a field by its number in the layout of the declaring type.  If
the struct of that type has such a member, it has the type of the field.  The handle of an interface
never gets members, and that of an enum is no struct if its integer is none.
-/

namespace CilSsa

open Ssa Metadata Lowering

namespace Lowering

variable {asm : Assembly} {f : FieldId} {index : Nat}

section Numbers

open StructEntry

/-- The number of a field among the members of its declaring type. -/
def FieldMember (asm : Assembly) (f : FieldId) (index : Nat) : Prop :=
  ∃ d layout, asm.field f = .ok d ∧ LayoutOf asm d.declaringType layout ∧
    StructEntry.member? asm layout (.field f) = .ok (some index)

theorem fieldIndex_spec {c c' : LayoutCache} (h : Layouts.fieldIndex asm f c = .ok index c')
    (hc : c.Sound asm) : FieldMember asm f index := by
  simp only [Layouts.fieldIndex, bind_eq_ok_iff, Layouts.ask_eq_ok_iff] at h
  obtain ⟨d, _, ⟨hd, rfl⟩, layout, c₁, hlayout, member, t, ⟨hmember, hsame⟩, h⟩ := h
  subst t
  obtain ⟨hspec, -⟩ := Layouts.structLayout_sound hlayout hc
  cases member with
  | none =>
      obtain ⟨name, c₂, -, hthrow⟩ := bind_eq_ok_iff.mp h
      simp at hthrow
  | some member =>
      obtain ⟨rfl, -⟩ := pure_eq_ok_iff.mp h
      exact ⟨d, layout, hd, hspec, hmember⟩

theorem FieldMember.declaringType {d : FieldDef} (h : FieldMember asm f index)
    (hd : asm.field f = .ok d) : ∃ t, asm.typeDef d.declaringType = .ok t ∧
      d.declaringType ∈ asm.userTypes ∧ Assembly.isRoot d.declaringType = false := by
  obtain ⟨d', layout, hd', hlayout, hmember⟩ := h
  obtain rfl := Except.ok.inj (hd.symm.trans hd')
  have hroot : Assembly.isRoot d.declaringType = false := by
    rw [Bool.eq_false_iff]
    intro hroot
    rw [hlayout.of_root hroot] at hmember
    cases hmember
  have hdef : ∃ t, asm.typeDef d.declaringType = .ok t := by
    cases hlayout with
    | baseless ht | root ht | derived ht => exact ⟨_, ht⟩
  obtain ⟨t, ht⟩ := hdef
  exact ⟨t, ht, mem_userTypes ht hroot, hroot⟩

/-- The member that an entry is numbered as is what the entry became. -/
theorem becomes_of_memberFrom {t : Session} {wanted : StructEntry} {entries : List StructEntry}
    {members : List (Option TypeId)} {n : Nat} (hall : List.Forall₂ (Becomes asm t) entries members)
    (h : memberFrom asm wanted index entries = .ok (some n)) :
    ∃ i type, n = index + i ∧ (members.filterMap id)[i]? = some type ∧
      Becomes asm t wanted (some type) := by
  induction hall generalizing index with
  | nil => cases h
  | @cons entry member entries members hfirst _ ih =>
      rw [memberFrom, hfirst.occupies, exceptBind_eq_ok_iff] at h
      obtain ⟨_, hoccupies, h⟩ := h
      obtain rfl := Except.ok.inj hoccupies
      cases member with
      | none =>
          split at h
          · cases h
          · simpa using ih h
      | some type =>
          split at h
          · rename_i heq
            obtain rfl := Option.some.inj (exceptPure_eq_ok_iff.mp h)
            exact ⟨0, type, rfl, rfl, heq ▸ hfirst⟩
          · obtain ⟨i, type', rfl, htype, hbecomes⟩ := ih h
            refine ⟨i + 1, type', ?_, htype, hbecomes⟩
            rw [Option.isSome_some, if_pos rfl]
            omega

end Numbers

section Handles

variable {s s' : Session} {ty : TypeDefId} {u u' : Unit}

/-- The struct of a class or struct has what its layout became, and then bytes. -/
theorem struct_of_compileTypes {d : TypeDef} (hstart : Declared asm s)
    (hcompile : compileTypes asm s = .ok u s') (hd : asm.typeDef ty = .ok d)
    (hkind : d.kind = .classType ∨ d.kind = .structType) (hroot : Assembly.isRoot ty = false) :
    ∃ handle name packed layout members fill, s'.registry.types.lookup ty = some handle ∧
      s'.module.types[handle.index]? =
        some (.struct name (some (members.filterMap id ++ fill)) packed) ∧
      LayoutOf asm ty layout ∧ List.Forall₂ (Becomes asm s') layout members := by
  obtain ⟨t, t', hbefore, hblank, hdefine, hafter⟩ :=
    defined_of_compileTypes hstart hcompile (mem_userTypes hd hroot)
  obtain ⟨packed, -, -, hstruct⟩ := defineType_struct hd hkind hdefine
  obtain ⟨run⟩ := nonempty_structRun hstruct
  obtain ⟨hlayout, hhandle, name, htype⟩ := run.outcome hstart hd hkind hroot hbefore hblank hafter
  obtain ⟨members, hmembers, hbody, -⟩ := structMembers_becomes run.members
  have hfilled : Session.Later asm run.membered run.filled := run.membered_filled
  have hlast : Session.Later asm run.membered s' :=
    IsTrans.trans _ _ _ hfilled (IsTrans.trans _ _ _ run.later_final hafter)
  rw [hbody] at htype
  exact ⟨run.handle, name, packed, run.layout, members, run.fill, hhandle, htype, hlayout,
    hmembers.imp fun _ _ h => h.mono hlast.toExtends⟩

/-- The definition of a type leaves the handles of interfaces alone. -/
theorem Blank.of_interface {start : Session} {iface : TypeDefId} (hstart : Declared asm start)
    (hkind : asm.kindOf iface = .ok .interfaceType) (hlater : Session.Later asm start s)
    (hty : ty ∈ asm.userTypes) (h : defineType asm ty s = .ok u s')
    (hblank : Blank asm start s iface) : Blank asm start s' iface := by
  by_cases heq : iface = ty
  · subst heq
    obtain ⟨d, hd, hinterface⟩ := Assembly.kindOf_eq_ok_iff.mp hkind
    refine hblank.mono ?_
    simp only [defineType, bind_eq_ok_iff, Lower.liftM_ask, Lower.ask_eq_ok_iff, hd,
      Except.ok.injEq] at h
    obtain ⟨_, t, ⟨rfl, hsame⟩, h⟩ := h
    subst t
    cases hpacked : packedOf d with
    | error error => simp [hpacked] at h
    | ok packed =>
        simp only [hpacked] at h
        split at h
        · cases h
        · simp only [hinterface] at h
          obtain ⟨table, s₁, htable, hregister⟩ := bind_eq_ok_iff.mp h
          obtain ⟨r, -, rfl⟩ := Lower.register_eq_ok_iff.mp hregister
          have hkept : Session.On Module.TypesKept s s₁ :=
            (inferInstance : Keeps _ (interfaceVTable asm iface)).run htable
          exact hkept
  · exact Blank.of_defineType hstart hlater hty h heq hblank

/-- The handle of an interface has no members when all types are defined. -/
theorem Blank.of_compileTypes {iface : TypeDefId} (hstart : Declared asm s)
    (hkind : asm.kindOf iface = .ok .interfaceType) (h : compileTypes asm s = .ok u s') :
    Blank asm s s' iface := by
  let I (t : Session) : Prop := Session.Later asm s t ∧ Blank asm s t iface
  have hask {α : Type} (question : Except Fault α) :
      Upholds I (fun _ _ => True) (Lower.ask question) := inferInstance
  have hfail {α : Type} (error : LoweringError) :
      Upholds I (fun _ _ => True) (Lower.fail error : Lower α) :=
    { ok := fun _ h => (nomatch h), fails := fun _ _ => trivial }
  have hdefine {ty : TypeDefId} (hty : ty ∈ asm.userTypes) :
      Upholds I (fun _ _ => True) (defineType asm ty) :=
    { ok := fun {t u t'} ht h => ⟨IsTrans.trans _ _ _ ht.1 (Keeps.run h),
        ht.2.of_interface hstart hkind ht.1 hty h⟩
      fails := fun _ _ => trivial }
  have horder (fuel : Nat) (visiting done : List TypeDefId) (ty : TypeDefId) :
      Upholds I (fun _ _ => True) (defineInOrder asm fuel visiting done ty) := by
    induction fuel generalizing visiting done ty with
    | zero => exact { ok := fun _ h => (nomatch h), fails := fun _ _ => trivial }
    | succ fuel ih =>
        unfold defineInOrder
        split
        · infer_instance
        · rename_i hvisit
          have hroot : Assembly.isRoot ty = false := by
            simp only [Bool.or_eq_true, not_or] at hvisit
            exact Bool.eq_false_iff.mpr hvisit.1
          split
          · infer_instance
          · refine Upholds.seqOf (hask _) fun _ hd => ?_
            have := hdefine (mem_userTypes (Lower.ask_eq_ok_iff.mp hd).1 hroot)
            infer_instance
  have hall : Upholds I (fun _ _ => True) (compileTypes asm) := by
    unfold compileTypes
    infer_instance
  refine (hall.ok ⟨Std.Refl.refl _, fun hstruct id hid => ?_⟩ h).2
  exact hstart.blank hid hstruct

/-- Whether the members that fields are numbered as have the types of the fields. -/
def Session.FieldsMade (asm : Assembly) (s : Session) : Prop :=
  ∀ {f : FieldId} {d : FieldDef} {index : Nat}, FieldMember asm f index → asm.field f = .ok d →
    ∃ handle type, s.registry.types.lookup d.declaringType = some handle ∧
      s.module.types[handle.index]? = some type ∧
      ∀ name body packed member, type = .struct name (some body) packed →
        body[index]? = some member → irType asm d.sig s = .ok member s

theorem Session.FieldsMade.mono (h : s.FieldsMade asm) (hlater : Session.Later asm s s')
    (hkept : s.module.TypesKept s'.module) : s'.FieldsMade asm := by
  intro f d index hmember hd
  obtain ⟨handle, type, hhandle, htype, hmade⟩ := h hmember hd
  refine ⟨handle, type, hlater.registry.types hhandle, hkept _ _ htype,
    fun name body packed member hstruct hbody => ?_⟩
  exact irType_extends (hmade name body packed member hstruct hbody) hlater.toExtends

theorem fieldMade_of_compileTypes {fd : FieldDef} {d : TypeDef} (hstart : Declared asm s)
    (hcompile : compileTypes asm s = .ok u s') (hmember : FieldMember asm f index)
    (hfd : asm.field f = .ok fd) (hd : asm.typeDef fd.declaringType = .ok d)
    (hkind : d.kind = .classType ∨ d.kind = .structType) :
    ∃ handle name body packed member, s'.registry.types.lookup fd.declaringType = some handle ∧
      s'.module.types[handle.index]? = some (.struct name (some body) packed) ∧
      body[index]? = some member ∧ irType asm fd.sig s' = .ok member s' := by
  obtain ⟨-, -, -, hroot⟩ := hmember.declaringType hfd
  obtain ⟨handle, name, packed, layout, members, fill, hhandle, htype, hlayout, hbecome⟩ :=
    struct_of_compileTypes hstart hcompile hd hkind hroot
  obtain ⟨fd', layout', hfd', hlayout', hnumber⟩ := hmember
  obtain rfl := Except.ok.inj (hfd.symm.trans hfd')
  obtain rfl := hlayout.unique hlayout'
  obtain ⟨i, member, rfl, hi, hfield⟩ := becomes_of_memberFrom hbecome hnumber
  refine ⟨handle, name, _, packed, member, hhandle, htype, ?_, ?_⟩
  · rw [Nat.zero_add, List.getElem?_append_left (List.getElem?_eq_some_iff.mp hi).1]
    exact hi
  · cases hfield with
    | field hfd' _ hsig =>
        obtain rfl := Except.ok.inj (hfd.symm.trans hfd')
        exact hsig

theorem fieldsMade_of_compileTypes {m : Module} (hplain : EnumsPlain asm)
    (hdeclare : declareTypes asm { module := m } = .ok u s)
    (hcompile : compileTypes asm s = .ok u' s') : s'.FieldsMade asm := by
  have hstart := declared_of_declareTypes hdeclare
  have hlater : Session.Later asm s s' := Keeps.run hcompile
  intro f fd index hmember hfd
  obtain ⟨d, hd, huser, hroot⟩ := hmember.declaringType hfd
  obtain ⟨handle, hhandle⟩ := hstart.known _ huser
  have hkindOf : asm.kindOf fd.declaringType = .ok d.kind :=
    Assembly.kindOf_eq_ok_iff.mpr ⟨d, hd, rfl⟩
  have hstruct (hkind : d.kind = .classType ∨ d.kind = .structType) :
      ∃ handle type, s'.registry.types.lookup fd.declaringType = some handle ∧
        s'.module.types[handle.index]? = some type ∧
        ∀ name body packed member, type = .struct name (some body) packed →
          body[index]? = some member → irType asm fd.sig s' = .ok member s' := by
    obtain ⟨handle, name, body, packed, member, hhandle, htype, hbody, hsig⟩ :=
      fieldMade_of_compileTypes hstart hcompile hmember hfd hd hkind
    refine ⟨handle, _, hhandle, htype, fun _ _ _ member' heq hbody' => ?_⟩
    cases heq
    obtain rfl := Option.some.inj (hbody.symm.trans hbody')
    exact hsig
  cases hkind : d.kind with
  | classType => exact hstruct (.inl hkind)
  | structType => exact hstruct (.inr hkind)
  | interfaceType =>
      rw [hkind] at hkindOf
      obtain ⟨name, packed, hblank⟩ := Blank.of_compileTypes hstart hkindOf hcompile
        (by simp [hasStruct, hkindOf]) handle hhandle
      refine ⟨handle, _, hlater.registry.types hhandle, hblank, fun _ _ _ _ heq => ?_⟩
      cases heq
  | enumType =>
      rw [hkind] at hkindOf
      obtain ⟨type, htype, hflat⟩ :=
        enumsFlat_of_declareTypes hplain hdeclare _ handle hkindOf hhandle
      have hparts (name : String) (body : Option (List TypeId)) (packed : Bool) :
          type ≠ .struct name body packed := by
        rintro rfl
        cases hflat
      exact ⟨handle, type, hlater.registry.types hhandle,
        hlater.module.partsKept htype fun name packed => hparts name none packed,
        fun name body packed _ heq => absurd heq (hparts name (some body) packed)⟩

end Handles

end Lowering

end CilSsa
