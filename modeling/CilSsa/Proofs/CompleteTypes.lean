import CilSsa.Proofs.DerivedObjects
import CilSsa.Proofs.ObjectMembers

/-!
Types whose sizes are final.

A type is complete if no struct within it still waits for its members; its size never changes then.
Structs are defined after the structs that their fields embed, so their members are complete when
they get them.  The definition does not wait for the integers of enums, which are complete only if
they are no structs.
-/

namespace CilSsa

open Ssa Metadata Lowering

section Sizes

/-- Whether the values of a type have no other values in them. -/
def Ssa.IrType.isFlat : IrType → Bool
  | .array .. | .struct .. => false
  | _ => true

namespace Ssa.Module

/-- Whether no struct within a type still waits for its members. -/
inductive Complete (m : Module) : TypeId → Prop
  | flat {id : TypeId} {type : IrType} :
      m.types[id.index]? = some type → type.isFlat = true → Complete m id
  | array {id element : TypeId} {length : Nat} :
      m.types[id.index]? = some (.array element length) → Complete m element → Complete m id
  | struct {id : TypeId} {name : String} {body : List TypeId} {packed : Bool} :
      m.types[id.index]? = some (.struct name (some body) packed) →
      (∀ member ∈ body, Complete m member) → Complete m id

/-- Whether the types that have all their parts are as they were. -/
def PartsKept (m m' : Module) : Prop :=
  ∀ {i : Nat} {type : IrType}, m.types[i]? = some type →
    (∀ name packed, type ≠ .struct name none packed) → m'.types[i]? = some type

variable {P : Change → Prop} {m m' : Module} {id : TypeId}

theorem Evolves.partsKept (h : m.Evolves P m') : m.PartsKept m' := by
  intro i type htype hparts
  obtain ⟨type', htype', rfl | ⟨name, packed, _, _, rfl, -⟩⟩ := h.type htype
  · exact htype'
  · exact absurd rfl (hparts name packed)

theorem TypesKept.partsKept (h : m.TypesKept m') : m.PartsKept m' :=
  fun htype _ => h _ _ htype

theorem Complete.mono (h : m.Complete id) (hkept : m.PartsKept m') : m'.Complete id := by
  induction h with
  | flat htype hflat =>
      refine .flat (hkept htype ?_) hflat
      rintro name packed rfl
      simp [IrType.isFlat] at hflat
  | array htype _ ih => exact .array (hkept htype (by simp)) ih
  | struct htype _ ih => exact .struct (hkept htype (by simp)) ih

/-- The extent of a complete type is final. -/
theorem Complete.extentWith_eq (h : m.Complete id) (hkept : m.PartsKept m') (fuel : Nat) :
    m'.extentWith fuel id = m.extentWith fuel id := by
  have hdata {id : TypeId} {type : IrType} (htype : m.types[id.index]? = some type)
      (hparts : ∀ name packed, type ≠ .struct name none packed) :
      m.typeData id = .ok type ∧ m'.typeData id = .ok type :=
    ⟨Arena.entry_eq_ok_iff.mpr htype, Arena.entry_eq_ok_iff.mpr (hkept htype hparts)⟩
  induction h generalizing fuel with
  | @flat id type htype hflat =>
      cases fuel with
      | zero => rfl
      | succ fuel =>
          have hparts : ∀ name packed, type ≠ .struct name none packed := by
            rintro name packed rfl
            simp [IrType.isFlat] at hflat
          obtain ⟨hold, hnew⟩ := hdata htype hparts
          rw [extentWith, extentWith, hold, hnew]
          cases type <;> first | rfl | simp [IrType.isFlat] at hflat
  | @array id element length htype _ ih =>
      cases fuel with
      | zero => rfl
      | succ fuel =>
          obtain ⟨hold, hnew⟩ := hdata htype (by simp)
          rw [extentWith, extentWith, hold, hnew]
          change (m'.extentWith fuel element >>= _) = _
          rw [ih fuel]
          rfl
  | @struct id name body packed htype _ ih =>
      cases fuel with
      | zero => rfl
      | succ fuel =>
          obtain ⟨hold, hnew⟩ := hdata htype (by simp)
          have hmembers : body.mapM (m'.extentWith fuel) = body.mapM (m.extentWith fuel) :=
            exceptMapM_congr fun member hmember => ih member hmember fuel
          rw [extentWith, extentWith, hold, hnew]
          change (body.mapM (m'.extentWith fuel) >>= _) = _
          rw [hmembers]
          rfl

theorem extentWith_le {fuel fuel' : Nat} {e : Extent} (h : m.extentWith fuel id = .ok e)
    (hle : fuel ≤ fuel') : m.extentWith fuel' id = .ok e := by
  induction hle with
  | refl => exact h
  | step _ ih => exact extentWith_succ ih

theorem Evolves.types_le (h : m.Evolves P m') : m.types.size ≤ m'.types.size := by
  cases hsize : m.types.size with
  | zero => exact Nat.zero_le _
  | succ last =>
      have hlast : m.types[last]? = some m.types[last] := Array.getElem?_eq_getElem (by omega)
      obtain ⟨_, hlast', -⟩ := h.type hlast
      exact (Array.getElem?_eq_some_iff.mp hlast').1

theorem Complete.sizeOf {size : Nat} (h : m.Complete id) (hlater : m.Evolves P m')
    (hsize : m.sizeOf id = .ok size) : m'.sizeOf id = .ok size := by
  simp only [Module.sizeOf, exceptBind_eq_ok_iff, exceptPure_eq_ok_iff] at hsize ⊢
  obtain ⟨e, he, rfl⟩ := hsize
  refine ⟨e, ?_, rfl⟩
  have hsame := h.extentWith_eq hlater.partsKept (m.types.size + 1)
  exact extentWith_le (hsame.trans he) (Nat.add_le_add_right hlater.types_le 1)

end Ssa.Module

end Sizes

namespace Lowering

variable {asm : Assembly} {start s s' t u : Session} {ty : TypeDefId} {id : TypeId}

section Signatures

/-- Whether no enum has a struct for its integer. -/
def EnumsPlain (asm : Assembly) : Prop :=
  ∀ ty inner, asm.kindOf ty = .ok .enumType → enumUnderlying asm ty = .ok (.named inner) →
    Assembly.isRoot inner = false → asm.kindOf inner ≠ .ok .structType

/-- The type of a signature has no other values in it, or it is the handle of a struct or enum. -/
theorem irType_cases {sig : TypeSig} (h : irType asm sig s = .ok id s') :
    (∃ type, s'.module.types[id.index]? = some type ∧ type.isFlat = true) ∨
      ∃ inner, sig = .named inner ∧ Assembly.isRoot inner = false ∧
        (asm.kindOf inner = .ok .structType ∨ asm.kindOf inner = .ok .enumType) ∧
        s.registry.types.lookup inner = some id ∧ s' = s := by
  have hflat {type : IrType} {t t' : Session} {id : TypeId} (hflat : type.isFlat = true)
      (h : Lower.build (Build.intern type) t = .ok id t') :
      ∃ type, t'.module.types[id.index]? = some type ∧ type.isFlat = true := by
    obtain ⟨m, hintern, rfl⟩ := Lower.build_eq_ok_iff.mp h
    exact ⟨type, Build.intern_type hintern, hflat⟩
  have hpointer {t t' : Session} {id : TypeId} (h : Lower.build Build.genericPointer t =
      .ok id t') : ∃ type, t'.module.types[id.index]? = some type ∧ type.isFlat = true := by
    obtain ⟨pointee, htype⟩ := genericPointer_type h
    exact ⟨_, htype, rfl⟩
  cases sig with
  | void | boolean | i1 | u1 | char | i2 | u2 | i4 | u4 | i8 | u8 | intPtr | uintPtr | r4 | r8 =>
      exact .inl (hflat rfl h)
  | string | object => exact .inl (hpointer h)
  | pointer inner | byRef inner | array inner =>
      rw [irType] at h
      split at h
      · obtain ⟨pointee, _, -, h⟩ := bind_eq_ok_iff.mp h
        exact .inl (hflat rfl h)
      · obtain ⟨pointee, _, -, h⟩ := bind_eq_ok_iff.mp h
        exact .inl (hflat rfl h)
  | named inner =>
      simp only [irType, namedType] at h
      split at h
      · exact .inl (hpointer h)
      · rename_i hroot
        simp only [bind_eq_ok_iff, Lower.consult_eq_ok_iff, Lower.liftM_ask,
          Lower.ask_eq_ok_iff] at h
        obtain ⟨handle, t, ⟨hhandle, hsame⟩, kind, t', ⟨hkind, hsame'⟩, h⟩ := h
        subst t t'
        have hlookup := Registry.found_eq_ok_iff.mp hhandle
        cases kind with
        | classType => exact .inl (hflat rfl h)
        | interfaceType => exact .inl (hpointer h)
        | structType =>
            obtain ⟨rfl, rfl⟩ := pure_eq_ok_iff.mp h
            exact .inr ⟨inner, rfl, Bool.eq_false_iff.mpr hroot, .inl hkind, hlookup, rfl⟩
        | enumType =>
            obtain ⟨rfl, rfl⟩ := pure_eq_ok_iff.mp h
            exact .inr ⟨inner, rfl, Bool.eq_false_iff.mpr hroot, .inr hkind, hlookup, rfl⟩

theorem complete_irType {sig : TypeSig} (h : irType asm sig s = .ok id s')
    (hnamed : ∀ inner handle, sig = .named inner → Assembly.isRoot inner = false →
      (asm.kindOf inner = .ok .structType ∨ asm.kindOf inner = .ok .enumType) →
      s.registry.types.lookup inner = some handle → s.module.Complete handle) :
    s'.module.Complete id := by
  rcases irType_cases h with ⟨type, htype, hflat⟩ | ⟨inner, hsig, hroot, hkind, hlookup, rfl⟩
  · exact .flat htype hflat
  · exact hnamed inner id hsig hroot hkind hlookup

/-- Whether the enums that have handles have no other types in them. -/
def EnumsFlat (asm : Assembly) (s : Session) : Prop :=
  ∀ ty handle, asm.kindOf ty = .ok .enumType → s.registry.types.lookup ty = some handle →
    ∃ type, s.module.types[handle.index]? = some type ∧ type.isFlat = true

theorem EnumsFlat.step {u : Unit} (hs : EnumsFlat asm s) (hplain : EnumsPlain asm)
    (h : declareType asm ty s = .ok u s') : EnumsFlat asm s' := by
  obtain ⟨d, handle, s₁, hd, hhandle, -, hafter⟩ := declareType_cases h
  obtain ⟨hkept, -, honly⟩ := declareHandle_cases hd hhandle
  have hmodule : s'.module = s₁.module := by rw [hafter]
  have htypes : s'.registry.types = (ty, handle) :: s.registry.types := by rw [hafter, honly]
  intro ty' handle' hkind hlookup
  rw [hmodule]
  have hkeep {ty : TypeDefId} {handle : TypeId} (hkind : asm.kindOf ty = .ok .enumType)
      (hlookup : s.registry.types.lookup ty = some handle) :
      ∃ type, s₁.module.types[handle.index]? = some type ∧ type.isFlat = true := by
    obtain ⟨type, htype, hflat⟩ := hs ty handle hkind hlookup
    exact ⟨type, hkept _ _ htype, hflat⟩
  rcases lookup_cons_cases (htypes ▸ hlookup) with ⟨rfl, rfl⟩ | hlookup
  · obtain ⟨d', hd', henum⟩ := Assembly.kindOf_eq_ok_iff.mp hkind
    obtain rfl := Except.ok.inj (hd.symm.trans hd')
    obtain ⟨sig, hsig, htype⟩ := declareHandle_enum henum hhandle
    rcases irType_cases htype with hflat | ⟨inner, rfl, hroot, hkind', hlookup, rfl⟩
    · exact hflat
    · exact hkeep (hkind'.resolve_left (hplain _ inner hkind hsig hroot)) hlookup
  · exact hkeep hkind hlookup

theorem enumsFlat_of_declareTypes {m : Module} {u : Unit} (hplain : EnumsPlain asm)
    (h : declareTypes asm { module := m } = .ok u s) : EnumsFlat asm s := by
  obtain ⟨s₁, hs₁, honly, -⟩ := declareTypes_induction (I := EnumsFlat asm)
    (fun _ _ _ hlookup => by simp at hlookup) (fun hs h => hs.step hplain h) h
  intro ty handle hkind hlookup
  rw [honly] at hlookup ⊢
  exact hs₁ ty handle hkind hlookup

/-- Whether the integers of the enums that have handles are complete. -/
def EnumsComplete (asm : Assembly) (s : Session) : Prop :=
  ∀ ty handle, asm.kindOf ty = .ok .enumType → s.registry.types.lookup ty = some handle →
    s.module.Complete handle

theorem enumsComplete_of_declareTypes {m : Module} {u : Unit} (hplain : EnumsPlain asm)
    (h : declareTypes asm { module := m } = .ok u s) : EnumsComplete asm s := by
  intro ty handle hkind hlookup
  obtain ⟨type, htype, hflat⟩ := enumsFlat_of_declareTypes hplain h ty handle hkind hlookup
  exact .flat htype hflat

end Signatures

section Embedded

/-- Whether objects of a type have a field that is a struct. -/
def Embeds (asm : Assembly) (ty inner : TypeDefId) : Prop :=
  ∃ layout f fd, LayoutOf asm ty layout ∧ .field f ∈ layout ∧ asm.field f = .ok fd ∧
    fd.isStatic = false ∧ fd.sig = .named inner ∧ asm.kindOf inner = .ok .structType

theorem mem_filterMapM {ε α β : Type} {question : α → Except ε (Option β)} {items : List α}
    {found : List β} {a : α} {b : β} (h : items.filterMapM question = .ok found) (ha : a ∈ items)
    (hb : question a = .ok (some b)) : b ∈ found := by
  induction items generalizing found with
  | nil => simp at ha
  | cons first rest ih =>
      rw [List.filterMapM_cons, exceptBind_eq_ok_iff] at h
      obtain ⟨answer, hanswer, h⟩ := h
      rcases List.mem_cons.mp ha with rfl | ha
      · obtain rfl := Except.ok.inj (hb.symm.trans hanswer)
        simp only [exceptBind_eq_ok_iff, exceptPure_eq_ok_iff] at h
        obtain ⟨others, -, rfl⟩ := h
        exact List.mem_cons_self
      · cases answer with
        | none => exact ih h ha
        | some other =>
            simp only [exceptBind_eq_ok_iff, exceptPure_eq_ok_iff] at h
            obtain ⟨others, hothers, rfl⟩ := h
            exact List.mem_cons_of_mem _ (ih hothers ha)

/-- A type depends on its base and on the structs that its own fields embed. -/
theorem dependencies_spec {d : TypeDef} {types : List TypeDefId}
    (h : dependencies asm d = .ok types) : (∀ base, d.base = some base → base ∈ types) ∧
      ∀ f ∈ d.fields, ∀ fd inner, asm.field f = .ok fd → fd.isStatic = false →
        fd.sig = .named inner → asm.kindOf inner = .ok .structType → inner ∈ types := by
  simp only [dependencies, exceptBind_eq_ok_iff, exceptPure_eq_ok_iff] at h
  obtain ⟨embedded, hembedded, rfl⟩ := h
  refine ⟨fun base hbase => by simp [hbase], fun f hf fd inner hfd hstatic hsig hkind => ?_⟩
  refine List.mem_append_right _ (mem_filterMapM hembedded hf ?_)
  simp [hfd, hsig, hstatic, hkind, bind, Except.bind, pure, Except.pure]

/-- What a type embeds is embedded by its base or by a field of its own. -/
theorem Embeds.cases {inner : TypeDefId} {d : TypeDef} {types : List TypeDefId}
    (h : Embeds asm ty inner) (hd : asm.typeDef ty = .ok d)
    (htypes : dependencies asm d = .ok types) :
    (∃ base ∈ types, Embeds asm base inner) ∨ inner ∈ types := by
  obtain ⟨layout, f, fd, hlayout, hmem, hfd, hstatic, hsig, hkind⟩ := h
  obtain ⟨hbases, hfields⟩ := dependencies_spec htypes
  cases hlayout with
  | baseless => simp at hmem
  | root => simp at hmem
  | @derived _ base _ inherited own hd' hbase hroot hinherited hown =>
      obtain rfl := Except.ok.inj (hd.symm.trans hd')
      rcases List.mem_append.mp hmem with hmem | hmem
      · exact .inl ⟨base, hbases base hbase,
          inherited, f, fd, hinherited, hmem, hfd, hstatic, hsig, hkind⟩
      · obtain ⟨slots, fields, rfl, hsub, -, hclass, hother⟩ := own_eq_ok hown
        have hf : f ∈ d.fields := by
          by_cases hkind : d.kind = .classType
          · obtain ⟨introduced, -, rfl⟩ := hclass hkind
            refine hsub.subset ?_
            cases Assembly.isRoot base <;> cases introduced <;> simpa using hmem
          · obtain rfl := hother hkind
            exact hsub.subset (by simpa using hmem)
        exact .inr (hfields f hf fd inner hfd hstatic hsig hkind)

/-- Whether the structs that a type embeds are complete. -/
def EmbeddedComplete (asm : Assembly) (start s : Session) (ty : TypeDefId) : Prop :=
  ∀ inner handle, Embeds asm ty inner → Assembly.isRoot inner = false →
    start.registry.types.lookup inner = some handle → s.module.Complete handle

theorem EmbeddedComplete.mono (h : EmbeddedComplete asm start s ty)
    (hlater : Session.Later asm s s') : EmbeddedComplete asm start s' ty :=
  fun inner handle hembeds hroot hlookup =>
    (h inner handle hembeds hroot hlookup).mono hlater.module.partsKept

theorem EmbeddedComplete.member {layout : List StructEntry} {entry : StructEntry}
    (h : EmbeddedComplete asm start t ty) (hstart : Declared asm start)
    (henums : EnumsComplete asm start) (hlater : Session.Later asm start t)
    (hlayout : LayoutOf asm ty layout) (hentry : entry ∈ layout)
    (hbecomes : Becomes asm t entry (some id)) : t.module.Complete id := by
  cases hbecomes with
  | classVTable htype => exact .flat htype rfl
  | indirection htype => exact .flat htype rfl
  | @field f fd _ hfd hstatic htype =>
      refine complete_irType htype fun inner handle hsig hroot hkind hlookup => ?_
      have hknown : inner ∈ asm.userTypes := by
        rcases hkind with hkind | hkind <;>
        · obtain ⟨d, hd, -⟩ := Assembly.kindOf_eq_ok_iff.mp hkind
          exact mem_userTypes hd hroot
      obtain ⟨handle', hhandle⟩ := hstart.known inner hknown
      obtain rfl := Option.some.inj (hlookup.symm.trans (hlater.registry.types hhandle))
      rcases hkind with hkind | hkind
      · exact h inner handle ⟨layout, f, fd, hlayout, hentry, hfd, hstatic,
          hsig, hkind⟩ hroot hhandle
      · exact (henums inner handle hkind hhandle).mono hlater.module.partsKept

variable {d : TypeDef} {packed : Bool}

theorem StructRun.complete_body (run : StructRun asm ty d packed s s') (hstart : Declared asm start)
    (henums : EnumsComplete asm start) (hbefore : Session.Later asm start s)
    (hembedded : EmbeddedComplete asm start s ty) (hlayout : LayoutOf asm ty run.layout) :
    ∀ member ∈ run.body, run.membered.module.Complete member := by
  intro member hmember
  obtain ⟨members, hbecomes, hbody, -⟩ := structMembers_becomes run.members
  obtain ⟨x, hx, hsome⟩ := List.mem_filterMap.mp (hbody ▸ hmember)
  obtain rfl : x = some member := hsome
  obtain ⟨entry, hentry, hrel⟩ := exists_mem_of_forall₂ hbecomes.flip hx
  have hmembered : Session.Later asm s run.membered :=
    IsTrans.trans _ _ _ run.later_tabled run.tabled_membered
  exact (hembedded.mono hmembered).member hstart henums (IsTrans.trans _ _ _ hbefore hmembered)
    hlayout hentry hrel

def StructComplete (asm : Assembly) (start s : Session) (ty : TypeDefId) : Prop :=
  ∀ handle, Assembly.isRoot ty = false → asm.kindOf ty = .ok .structType →
    start.registry.types.lookup ty = some handle → s.module.Complete handle

theorem EmbeddedComplete.of_dependencies {types : List TypeDefId} (hd : asm.typeDef ty = .ok d)
    (htypes : dependencies asm d = .ok types)
    (h : ∀ ty' ∈ types, EmbeddedComplete asm start s ty' ∧ StructComplete asm start s ty') :
    EmbeddedComplete asm start s ty := by
  intro inner handle hembeds hroot hlookup
  rcases hembeds.cases hd htypes with ⟨base, hbase, hembeds⟩ | hinner
  · exact (h base hbase).1 inner handle hembeds hroot hlookup
  · obtain ⟨_, _, _, _, _, _, _, _, hkind⟩ := hembeds
    exact (h inner hinner).2 handle hroot hkind hlookup

theorem DefinedBy.complete (h : DefinedBy asm start u ty) (hstart : Declared asm start)
    (henums : EnumsComplete asm start) :
    EmbeddedComplete asm start u ty ∧ StructComplete asm start u ty := by
  induction h with
  | @root u ty hroot =>
      refine ⟨fun inner handle hembeds => ?_, fun handle hroot' => ?_⟩
      · obtain ⟨layout, f, fd, hlayout, hmem, -⟩ := hembeds
        obtain rfl := hlayout.of_root hroot
        simp at hmem
      · simp [hroot] at hroot'
  | @defined s s' u ty d types hd htypes hbefore _ hblank hdefine hafter ih =>
      have hembedded := EmbeddedComplete.of_dependencies hd htypes ih
      have hlater : Session.Later asm s u :=
        IsTrans.trans _ _ _ ((inferInstance : Keeps _ (defineType asm ty)).run hdefine) hafter
      refine ⟨hembedded.mono hlater, fun handle hroot hkind hlookup => ?_⟩
      obtain ⟨d', hd', hstruct⟩ := Assembly.kindOf_eq_ok_iff.mp hkind
      obtain rfl := Except.ok.inj (hd.symm.trans hd')
      obtain ⟨packed, -, -, hdefine⟩ := defineType_struct hd (.inr hstruct) hdefine
      obtain ⟨run⟩ := nonempty_structRun hdefine
      obtain ⟨hlayout, hfound, name, htype⟩ :=
        run.outcome hstart hd (.inr hstruct) hroot hbefore hblank hafter
      have hlast : Session.Later asm run.filled u :=
        IsTrans.trans _ _ _ run.later_final hafter
      obtain rfl := Option.some.inj
        (hfound.symm.trans ((IsTrans.trans _ _ _ hbefore hlater).registry.types hlookup))
      refine .struct htype fun member hmember => ?_
      rcases List.mem_append.mp hmember with hmember | hmember
      · exact (run.complete_body hstart henums hbefore hembedded hlayout member hmember).mono
          (IsTrans.trans _ _ _ run.membered_filled hlast).module.partsKept
      · exact (Module.Complete.flat (run.fill_byte hmember) rfl).mono hlast.module.partsKept

end Embedded

end Lowering

end CilSsa
