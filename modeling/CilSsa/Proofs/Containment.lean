import Mathlib.Data.List.Perm.Subperm
import Mathlib.Data.List.Nodup
import CilSsa.Proofs.StructBodies

/-!
Values within values.

A value of a struct has values of its members in it, and a value of an array has its elements.  The
members of the structs of classes and structs come from fields, and an enum is replaced by the type
of its integer, which may be a struct.  A struct that has a field of itself is refused; one that
reaches itself through an enum is not.
-/

namespace CilSsa

open Ssa Metadata Lowering

/-- Different ids with entries in an arena are at most as many as it has entries. -/
theorem length_le_of_nodup {α : Type} {index : α → Nat} (hinj : Function.Injective index)
    {ids : List α} {size : Nat} (hnodup : ids.Nodup) (hlt : ∀ id ∈ ids, index id < size) :
    ids.length ≤ size := by
  have hsub : ids.map index ⊆ List.range size := by
    intro i hi
    obtain ⟨id, hid, rfl⟩ := List.mem_map.mp hi
    exact List.mem_range.mpr (hlt id hid)
  simpa using ((hnodup.map hinj).subperm hsub).length_le

theorem TypeId.index_injective : Function.Injective TypeId.index := fun _ _ => congrArg TypeId.mk

theorem TypeDefId.index_injective : Function.Injective TypeDefId.index :=
  fun _ _ => congrArg TypeDefId.mk

/-- A search has passed different ids with entries in an arena, and may take a step for each of the
others and one more. -/
structure Trail {α : Type} (index : α → Nat) (size fuel : Nat) (passed : List α) : Prop where
  nodup : passed.Nodup
  exist : ∀ id ∈ passed, index id < size
  enough : size < fuel + passed.length

namespace Trail

variable {α : Type} {index : α → Nat} {size fuel : Nat} {passed : List α} {id : α}

theorem start (hfuel : size < fuel) : Trail index size fuel [] where
  nodup := List.nodup_nil
  exist := by simp
  enough := hfuel

theorem next (h : Trail index size (fuel + 1) passed) (hnew : id ∉ passed) (hid : index id < size) :
    Trail index size fuel (id :: passed) where
  nodup := h.nodup.cons hnew
  exist := List.forall_mem_cons.mpr ⟨hid, h.exist⟩
  enough := by
    have henough := h.enough
    rw [List.length_cons]
    omega

/-- There is a step left. -/
theorem not_zero (hinj : Function.Injective index) : ¬ Trail index size 0 passed := by
  intro h
  have hle := length_le_of_nodup hinj h.nodup h.exist
  have henough := h.enough
  omega

end Trail

/-- In a circle nothing is without something below it. -/
theorem not_acc_of_circle {α : Type} {r : α → α → Prop} {a : α} (h : Relation.TransGen r a a) :
    ¬ Acc r a := by
  intro hacc
  induction hacc with
  | intro a _ ih =>
      obtain ⟨b, hpath, hlast⟩ := Relation.TransGen.tail'_iff.mp h
      exact ih b hlast (.head' hlast hpath)

/-- What comes to an end does so from every place on the way. -/
theorem acc_of_path {α : Type} {r : α → α → Prop} {a b : α} (h : Acc r a)
    (hpath : Relation.ReflTransGen (Function.swap r) a b) : Acc r b := by
  induction hpath with
  | refl => exact h
  | tail _ hlast ih => exact ih.inv hlast

section Extents

namespace Ssa.Module

/-- Whether values of the second type have values of the first in them. -/
inductive Within (m : Module) : TypeId → TypeId → Prop
  | member {inner outer : TypeId} {name : String} {body : List TypeId} {packed : Bool} :
      m.types[outer.index]? = some (.struct name (some body) packed) → inner ∈ body →
      Within m inner outer
  | element {inner outer : TypeId} {length : Nat} :
      m.types[outer.index]? = some (.array inner length) → Within m inner outer

/-- Whether a type exists and its values are made of finitely many parts, which all have types. -/
inductive Grounded (m : Module) : TypeId → Prop
  | of_parts {id : TypeId} : id.index < m.types.size →
      (∀ inner, m.Within inner id → Grounded m inner) → Grounded m id

variable {m : Module} {id inner : TypeId} {type : IrType}

theorem Within.not_bare (h : m.Within inner id) (htype : m.types[id.index]? = some type) :
    type.isBare = false := by
  cases h with
  | member hstruct => cases htype.symm.trans hstruct; rfl
  | element harray => cases htype.symm.trans harray; rfl

theorem Complete.grounded (h : m.Complete id) : m.Grounded id := by
  induction h with
  | flat htype hflat =>
      refine .of_parts (Array.getElem?_eq_some_iff.mp htype).1 fun inner hwithin => ?_
      cases hwithin with
      | member hstruct => cases htype.symm.trans hstruct; cases hflat
      | element harray => cases htype.symm.trans harray; cases hflat
  | array htype _ ih =>
      refine .of_parts (Array.getElem?_eq_some_iff.mp htype).1 fun inner hwithin => ?_
      cases hwithin with
      | member hstruct => cases htype.symm.trans hstruct
      | element harray => cases htype.symm.trans harray; exact ih
  | struct htype _ ih =>
      refine .of_parts (Array.getElem?_eq_some_iff.mp htype).1 fun inner hwithin => ?_
      cases hwithin with
      | member hstruct hmem => cases htype.symm.trans hstruct; exact ih inner hmem
      | element harray => cases htype.symm.trans harray

theorem grounded_iff : m.Grounded id ↔ Acc m.Within id ∧
    ∀ outer, Relation.ReflTransGen m.Within outer id → outer.index < m.types.size := by
  constructor
  · intro h
    induction h with
    | @of_parts id hlt _ ih =>
        refine ⟨⟨id, fun inner hwithin => (ih inner hwithin).1⟩, fun outer hpath => ?_⟩
        rcases Relation.ReflTransGen.cases_tail hpath with rfl | ⟨inner, hpath, hwithin⟩
        · exact hlt
        · exact (ih inner hwithin).2 outer hpath
  · rintro ⟨hacc, hlt⟩
    induction hacc with
    | intro id _ ih =>
        exact .of_parts (hlt id .refl) fun inner hwithin =>
          ih inner hwithin fun outer hpath => hlt outer (hpath.tail hwithin)

/-- No value has a value of its own type in it. -/
theorem Grounded.not_within_self (h : m.Grounded id) : ¬ Relation.TransGen m.Within id id :=
  fun hcircle => not_acc_of_circle hcircle (grounded_iff.mp h).1

/-- The extent of a type with finitely many parts is found before as many types have been entered as
there are.  Here `above` are the types that have been entered. -/
theorem Grounded.exists_extentWith (h : m.Grounded id) {above : List TypeId} {fuel : Nat}
    (htrail : Trail TypeId.index m.types.size fuel above)
    (habove : ∀ outer ∈ above, Relation.TransGen m.Within id outer) :
    ∃ e, m.extentWith fuel id = .ok e := by
  induction h generalizing above fuel with
  | @of_parts id hid hparts ih =>
      have hself : id ∉ above := fun hmem =>
        (Grounded.of_parts hid hparts).not_within_self (habove id hmem)
      cases fuel with
      | zero => exact absurd htrail (Trail.not_zero TypeId.index_injective)
      | succ fuel =>
          have hinner (inner : TypeId) (hwithin : m.Within inner id) :
              ∃ e, m.extentWith fuel inner = .ok e := by
            refine ih inner hwithin (htrail.next hself hid) ?_
            exact List.forall_mem_cons.mpr ⟨.single hwithin, fun outer houter =>
              Relation.TransGen.head hwithin (habove outer houter)⟩
          have htype : m.types[id.index]? = some m.types[id.index] := Array.getElem?_eq_getElem hid
          have hdata : m.typeData id = .ok m.types[id.index] := Arena.entry_eq_ok_iff.mpr htype
          rw [extentWith, hdata]
          generalize m.types[id.index] = type at htype
          cases type with
          | array element length =>
              obtain ⟨e, he⟩ := hinner element (.element htype)
              exact ⟨_, exceptBind_eq_ok_iff.mpr ⟨_, rfl, exceptBind_eq_ok_iff.mpr ⟨e, he, rfl⟩⟩⟩
          | struct name body packed =>
              cases body with
              | none => exact ⟨_, rfl⟩
              | some body =>
                  have hmembers : ∀ member ∈ body, ∃ e, m.extentWith fuel member = .ok e :=
                    fun member hmember => hinner member (.member htype hmember)
                  obtain ⟨members, hmembers⟩ := exists_forall₂ hmembers
                  exact ⟨_, exceptBind_eq_ok_iff.mpr ⟨_, rfl, exceptBind_eq_ok_iff.mpr
                    ⟨members, exceptMapM_eq_ok_iff.mpr hmembers, rfl⟩⟩⟩
          | _ => exact ⟨_, rfl⟩

theorem Grounded.exists_extentOf (h : m.Grounded id) : ∃ e, m.extentOf id = .ok e :=
  h.exists_extentWith (.start (Nat.lt_succ_self _)) (by simp)

/-- Only the extents of such types are found. -/
theorem grounded_of_extentWith {fuel : Nat} {e : Extent} (h : m.extentWith fuel id = .ok e) :
    m.Grounded id := by
  induction fuel generalizing id e with
  | zero => cases h
  | succ fuel ih =>
      simp only [extentWith, exceptBind_eq_ok_iff, Module.typeData, Arena.entry_eq_ok_iff] at h
      obtain ⟨type, htype, h⟩ := h
      refine .of_parts (Array.getElem?_eq_some_iff.mp htype).1 fun inner hwithin => ?_
      cases hwithin with
      | element harray =>
          cases htype.symm.trans harray
          obtain ⟨e, he, -⟩ := exceptBind_eq_ok_iff.mp h
          exact ih he
      | member hstruct hmem =>
          cases htype.symm.trans hstruct
          obtain ⟨members, hmembers, -⟩ := exceptBind_eq_ok_iff.mp h
          obtain ⟨e, -, he⟩ := exists_mem_of_forall₂ (exceptMapM_eq_ok_iff.mp hmembers) hmem
          exact ih he

end Ssa.Module

end Extents

section Parts

namespace Ssa.Module

variable {m m' : Module} {id inner outer : TypeId} {type : IrType}

/-- Whether the values of a type have no other values in them. -/
def FlatAt (m : Module) (id : TypeId) : Prop :=
  ∃ type, m.types[id.index]? = some type ∧ type.isFlat = true

theorem FlatAt.mono (h : m.FlatAt id) (hkept : m.PartsKept m') : m'.FlatAt id := by
  obtain ⟨type, htype, hflat⟩ := h
  refine ⟨type, hkept htype ?_, hflat⟩
  rintro name packed rfl
  cases hflat

theorem FlatAt.grounded (h : m.FlatAt id) : m.Grounded id := by
  obtain ⟨type, htype, hflat⟩ := h
  exact (Complete.flat htype hflat).grounded

/-- What is within a type stays so while the type is the same. -/
theorem Within.congr (h : m.Within inner outer)
    (hsame : m'.types[outer.index]? = m.types[outer.index]?) : m'.Within inner outer := by
  cases h with
  | member hstruct hmem => exact .member (hsame.trans hstruct) hmem
  | element harray => exact .element (hsame.trans harray)

/-- Whether no type has got other types within it. -/
def BareKept (m m' : Module) : Prop :=
  ∀ (i : Nat) (type : IrType), m'.types[i]? = some type → type.isBare = false →
    m.types[i]? = some type

/-- Whether the types that have got other types within them have got flat ones. -/
structure AddsFlat (m m' : Module) : Prop where
  kept : m.PartsKept m'
  parts : ∀ {outer : TypeId} {type : IrType}, m'.types[outer.index]? = some type →
    type.isBare = false → m.types[outer.index]? = some type ∨
      ∀ inner, m'.Within inner outer → m'.FlatAt inner

instance : IsPreorder Module BareKept where
  refl _ := fun _ _ htype _ => htype
  trans _ _ _ h h' := fun i type htype hbare => h i type (h' i type htype hbare) hbare

instance : IsPreorder Module AddsFlat where
  refl _ := ⟨fun htype _ => htype, fun htype _ => .inl htype⟩
  trans m m' m'' h h' := by
    refine ⟨fun htype hparts => h'.kept (h.kept htype hparts) hparts,
      fun {outer type} htype hbare => ?_⟩
    rcases h'.parts htype hbare with hold | hflat
    · refine (h.parts hold hbare).imp_right fun hflat inner hwithin => ?_
      exact (hflat inner (hwithin.congr (hold.trans htype.symm))).mono h'.kept
    · exact .inr hflat

theorem Evolves.bareKept (h : m.Evolves Change.Listing m') : m.BareKept m' := by
  refine h.preserves (I := fun m' => m.BareKept m') (fun m' c hc _ hkept => ?_) (Std.Refl.refl m)
  intro i type htype hbare
  cases c with
  | addType type' =>
      simp only [apply, Array.getElem?_push] at htype
      split at htype
      · obtain rfl := Option.some.inj htype
        exact absurd hc (by simp [Change.Listing, hbare])
      · exact hkept _ _ htype hbare
  | addValue | addFunction | record | listGlobal => exact hkept _ _ htype hbare
  | _ => exact hc.elim

theorem BareKept.addsFlat (h : m.BareKept m') (hkept : m.PartsKept m') : m.AddsFlat m' :=
  ⟨hkept, fun htype hbare => .inl (h _ _ htype hbare)⟩

theorem Evolves.addsFlat (h : m.Evolves Change.Listing m') : m.AddsFlat m' :=
  h.bareKept.addsFlat h.partsKept

theorem addsFlat_of_types (h : m'.types = m.types) : m.AddsFlat m' :=
  BareKept.addsFlat (fun _ _ htype _ => h ▸ htype) (fun htype _ => h ▸ htype)

/-- A new type with flat parts. -/
theorem addsFlat_intern (h : Build.intern type m = .ok id m')
    (hparts : ∀ inner, Within { m with types := m.types.push type } inner ⟨m.types.size⟩ →
      m.FlatAt inner) : m.AddsFlat m' := by
  unfold Build.intern at h
  split at h
  · cases h
    exact Std.Refl.refl _
  · cases h
    have hkept : m.PartsKept { m with types := m.types.push type } := by
      intro i type' htype _
      have hlt := (Array.getElem?_eq_some_iff.mp htype).1
      simp [Array.getElem?_push, hlt.ne, htype]
    refine ⟨hkept, fun {outer type'} htype _ => ?_⟩
    by_cases hlast : outer.index = m.types.size
    · obtain rfl : outer = ⟨m.types.size⟩ := congrArg TypeId.mk hlast
      exact .inr fun inner hwithin => (hparts inner hwithin).mono hkept
    · exact .inl (by simpa [Array.getElem?_push, hlast] using htype)

theorem addsFlat_arrayType {element : TypeId} {length : Nat} (hflat : m.FlatAt element)
    (h : Build.arrayType element length m = .ok id m') : m.AddsFlat m' := by
  refine addsFlat_intern h fun inner hwithin => ?_
  cases hwithin with
  | member hstruct => simp at hstruct
  | element harray =>
      obtain ⟨rfl, rfl⟩ : element = inner ∧ length = _ := by simpa using harray
      exact hflat

theorem addsFlat_defineStruct {name : String} {packed packed' : Bool} {members : List TypeId}
    (hblank : m.types[id.index]? = some (.struct name none packed))
    (hflat : ∀ member ∈ members, m.FlatAt member) :
    m.AddsFlat (m.apply (.defineStruct id (.struct name (some members) packed'))) := by
  have hkept : m.PartsKept (m.apply (.defineStruct id (.struct name (some members) packed'))) :=
    (Evolves.one (c := .defineStruct id (.struct name (some members) packed'))
      (show Change.Any _ from trivial) ⟨name, packed, members, packed', hblank, rfl⟩).partsKept
  refine ⟨hkept, fun {outer type} htype _ => ?_⟩
  by_cases hself : id.index = outer.index
  · obtain rfl : id = outer := congrArg TypeId.mk hself
    have hlt := (Array.getElem?_eq_some_iff.mp hblank).1
    refine .inr fun inner hwithin => ?_
    cases hwithin with
    | member hstruct hmem =>
        obtain ⟨rfl, rfl, rfl⟩ : name = _ ∧ members = _ ∧ packed' = _ := by
          simpa [apply, hlt] using hstruct
        exact (hflat inner hmem).mono hkept
    | element harray => simp [apply, hlt] at harray
  · exact .inl (by simpa [apply, hself] using htype)

end Ssa.Module

namespace Lowering

open Ssa.Module

variable {asm : Assembly} {s s' : Session}

instance : Listing (Session.On BareKept) := Session.On.listing fun _ _ h => h.bareKept

instance : Listing (Session.On AddsFlat) := Session.On.listing fun _ _ h => h.addsFlat

instance (global initial : ValueId) :
    Keeps (Session.On AddsFlat) (Lower.build (Build.setInitializer global initial)) :=
  Session.On.keeps ⟨fun h => by
    rcases Build.setInitializer_cases h with ⟨misuse, rfl, -⟩ | ⟨rfl, -⟩ <;>
      exact addsFlat_of_types rfl⟩

/-- The slots of a table are pointers. -/
theorem slotType_flat {slot : MethodId} {id : TypeId} (h : slotType asm slot s = .ok id s') :
    s'.module.FlatAt id := by
  simp only [slotType, bind_eq_ok_iff, Lower.liftM_build, Lower.build_eq_ok_iff] at h
  obtain ⟨d, _, -, type, _, -, m, hpointer, rfl⟩ := h
  exact ⟨_, Build.intern_type hpointer, rfl⟩

theorem slotTableType_addsFlat {owner : TypeDefId} {id : TypeId}
    (h : slotTableType asm owner s = .ok id s') : s.module.AddsFlat s'.module := by
  rcases slotTableType_cases h with ⟨-, rfl⟩ | ⟨rfl, name, slots, members,
    t, m, hmembers, hset, rfl⟩
  · exact Std.Refl.refl _
  · have hslots : Keeps (Session.On AddsFlat) (slots.mapM (slotType asm)) := inferInstance
    have hblank : t.module.types[s.module.types.size]? = some (.struct name none false) :=
      (inferInstance : Keeps (Session.On TypesKept) (slots.mapM (slotType asm))).run hmembers _ _
        (by simp [Module.apply])
    have hflat : ∀ member ∈ members, t.module.FlatAt member := by
      intro member hmember
      obtain ⟨slot, -, u, u', -, hslot, hkept⟩ :=
        Keeps.mem_of_mapM (fun slot =>
          (inferInstance : Keeps (Session.On TypesKept) (slotType asm slot)))
          hmembers hmember
      exact (slotType_flat hslot).mono (TypesKept.partsKept hkept)
    have hmade : s.module.AddsFlat t.module := by
      refine IsTrans.trans _ _ _ ?_ (hslots.run hmembers)
      exact Evolves.addsFlat (Evolves.one (c := .addType (.struct name none false)) rfl trivial)
    obtain rfl : m = t.module.apply (.defineStruct ⟨s.module.types.size⟩
        (.struct name (some members) false)) := Build.setStructBody_of_blank hblank hset
    exact IsTrans.trans _ _ _ hmade (addsFlat_defineStruct hblank hflat)

theorem indirectionTable_addsFlat {cls : TypeDefId} {tables : List InterfaceTable} {v : ValueId}
    (h : indirectionTable asm cls tables s = .ok v s') : s.module.AddsFlat s'.module := by
  simp only [indirectionTable, bind_eq_ok_iff, get_eq_ok_iff] at h
  obtain ⟨pointer, s₁, hpointer, t, t', ⟨hget, hsame⟩, items, s₂, hitems, h⟩ := h
  subst t t'
  obtain ⟨type, s₃, harray, initial, s₄, hinitial, h⟩ := h
  obtain ⟨pointee, hpointee⟩ := genericPointer_type hpointer
  have hflat : s₁.module.FlatAt pointer := ⟨_, hpointee, rfl⟩
  have hpointers : Session.On AddsFlat s s₁ :=
    (inferInstance : Keeps _ (Lower.build Build.genericPointer)).run hpointer
  have hentries : Session.On AddsFlat s₁ s₂ :=
    (inferInstance : Keeps _ ((List.range s₁.registry.interfaceCount).mapM fun index =>
      Lower.build (indirectionEntry pointer tables index))).run hitems
  obtain ⟨m₃, hintern, rfl⟩ := Lower.build_eq_ok_iff.mp harray
  obtain ⟨m₄, hitems', rfl⟩ := Lower.build_eq_ok_iff.mp hinitial
  have hflat₂ : s₂.module.FlatAt pointer := hflat.mono hentries.kept
  have htype : s₂.module.AddsFlat m₃ := addsFlat_arrayType hflat₂ hintern
  have hconstant : m₃.AddsFlat m₄ := by
    obtain ⟨type', m, hintern', hpush⟩ := bind_eq_ok_iff.mp hitems'
    cases hpush
    exact IsTrans.trans _ _ _ (addsFlat_arrayType (hflat₂.mono htype.kept) hintern')
      (addsFlat_of_types rfl)
  have hglobal : Keeps (Session.On AddsFlat) (do
      let global ← Build.addGlobal (← Names.indirectionTable asm cls) type
      Build.setInitializer global initial
      return global : Lower ValueId) := inferInstance
  have hlast := hglobal.run (by simpa only [bind_eq_ok_iff] using h)
  exact IsTrans.trans _ _ _ hpointers (IsTrans.trans _ _ _ hentries
    (IsTrans.trans _ _ _ htype (IsTrans.trans _ _ _ hconstant hlast)))

instance : Defining asm (Session.On AddsFlat) where
  layout _ := inferInstance
  declareFunction := declareFunction_on
  staticField _ := inferInstance
  slotTableType _ := ⟨slotTableType_addsFlat⟩
  constant _ _ _ := inferInstance
  indirectionTable _ _ := ⟨indirectionTable_addsFlat⟩

end Lowering

end Parts

section Nesting

namespace Lowering

variable {asm : Assembly} {start s s' t : Session} {ty : TypeDefId} {d : TypeDef} {packed : Bool}

/-- Whether a type is a class or struct, and no root. -/
def HasMembers (asm : Assembly) (ty : TypeDefId) : Prop :=
  Assembly.isRoot ty = false ∧
    (asm.kindOf ty = .ok .classType ∨ asm.kindOf ty = .ok .structType)

theorem HasMembers.definition (h : HasMembers asm ty) :
    ∃ d, asm.typeDef ty = .ok d ∧ (d.kind = .classType ∨ d.kind = .structType) := by
  rcases h.2 with hkind | hkind <;>
  · obtain ⟨d, hd, hkind⟩ := Assembly.kindOf_eq_ok_iff.mp hkind
    exact ⟨d, hd, by simp [hkind]⟩

/-- Whether the types that have got other types within them have got flat ones, or are the structs
of classes and structs. -/
structure Session.Nests (asm : Assembly) (s s' : Session) : Prop extends
    Session.Later asm s s' where
  parts : ∀ {outer : TypeId} {type : IrType}, s'.module.types[outer.index]? = some type →
    type.isBare = false → s.module.types[outer.index]? = some type ∨
      (∀ inner, s'.module.Within inner outer → s'.module.FlatAt inner) ∨
      ∃ ty, HasMembers asm ty ∧ s'.registry.types.lookup ty = some outer

instance : IsPreorder Session (Session.Nests asm) where
  refl _ := ⟨Std.Refl.refl _, fun htype _ => .inl htype⟩
  trans s s' s'' h h' := by
    refine ⟨IsTrans.trans _ _ _ h.toLater h'.toLater, fun {outer type} htype hbare => ?_⟩
    rcases h'.parts htype hbare with hold | hnested
    · rcases h.parts hold hbare with hold' | hflat | ⟨ty, hty, hlookup⟩
      · exact .inl hold'
      · exact .inr (.inl fun inner hwithin =>
          (hflat inner (hwithin.congr (hold.trans htype.symm))).mono h'.module.partsKept)
      · exact .inr (.inr ⟨ty, hty, h'.registry.types hlookup⟩)
    · exact .inr hnested

theorem Session.Later.nests (h : Session.Later asm s s') (hflat : s.module.AddsFlat s'.module) :
    Session.Nests asm s s' :=
  ⟨h, fun htype hbare => (hflat.parts htype hbare).imp_right .inl⟩

/-- The definition of a class or struct. -/
theorem StructRun.nests (run : StructRun asm ty d packed s s') (hty : HasMembers asm ty) :
    Session.Nests asm s s' := by
  have hfilled : s.module.AddsFlat run.filled.module := run.on_filled
  refine IsTrans.trans _ _ _ (run.later_filled.nests hfilled) ⟨run.later_final, ?_⟩
  intro outer type htype _
  have hmodule : s'.module = run.module := congrArg Session.module run.final
  rcases Build.setStructBody_cases run.defined with ⟨misuse, happly, -⟩ | ⟨struct, happly, -⟩
  · exact .inl (by rwa [hmodule, happly] at htype)
  · rw [hmodule, happly] at htype
    by_cases hself : run.handle.index = outer.index
    · obtain rfl : run.handle = outer := congrArg TypeId.mk hself
      exact .inr (.inr ⟨ty, hty,
        (congrArg (·.registry.types.lookup ty) run.final).trans run.found⟩)
    · exact .inl (by simpa [Module.apply, hself] using htype)

theorem defineType_nests (hroot : Assembly.isRoot ty = false) :
    Keeps (Session.Nests asm) (defineType asm ty) where
  run {s u s'} h := by
    have hlater : Session.Later asm s s' := (inferInstance : Keeps _ (defineType asm ty)).run h
    obtain ⟨d, hd, ⟨-, rfl⟩ | ⟨-, table, t, r, htable, -, rfl⟩ | ⟨hkind, packed, -, -, hdefine⟩⟩ :=
      defineType_cases h
    · exact Std.Refl.refl _
    · have hflat : Session.On Module.AddsFlat s t :=
        (inferInstance : Keeps _ (interfaceVTable asm ty)).run htable
      exact hlater.nests hflat
    · obtain ⟨run⟩ := nonempty_structRun hdefine
      refine run.nests ⟨hroot, hkind.imp (fun h => ?_) fun h => ?_⟩ <;>
        exact Assembly.kindOf_eq_ok_iff.mpr ⟨d, hd, h⟩

/-- The definition of all types. -/
theorem compileTypes_nests : Keeps (Session.Nests asm) (compileTypes asm) :=
  compileTypes_keeps fun _ hroot => defineType_nests hroot

/-- No type that exists when all types are declared has others within it. -/
theorem bare_of_declareTypes {name : String} {u : Unit}
    (h : declareTypes asm { module := { name } } = .ok u s) {i : Nat} {type : IrType}
    (htype : s.module.types[i]? = some type) : type.isBare = true := by
  have hkept : Session.On Module.BareKept { module := { name } } s :=
    (inferInstance : Keeps _ (declareTypes asm)).run h
  cases hbare : type.isBare with
  | true => rfl
  | false =>
      have hnone : (#[] : Array IrType)[i]? = some type := hkept i type htype hbare
      simp at hnone

theorem flat_or_struct {name : String} {u u' : Unit} {inner outer : TypeId}
    (hdeclare : declareTypes asm { module := { name } } = .ok u s)
    (hcompile : compileTypes asm s = .ok u' s') (hwithin : s'.module.Within inner outer) :
    s'.module.FlatAt inner ∨ ∃ ty, HasMembers asm ty ∧
      s'.registry.types.lookup ty = some outer := by
  have hnests : Session.Nests asm s s' := compileTypes_nests.run hcompile
  obtain ⟨type, htype⟩ : ∃ type, s'.module.types[outer.index]? = some type := by
    cases hwithin with
    | member hstruct => exact ⟨_, hstruct⟩
    | element harray => exact ⟨_, harray⟩
  rcases hnests.parts htype (hwithin.not_bare htype) with hold | hflat | hstruct
  · exact absurd (bare_of_declareTypes hdeclare hold) (by simp [hwithin.not_bare htype])
  · exact .inl (hflat inner hwithin)
  · exact .inr hstruct

end Lowering

end Nesting

section Forms

namespace Lowering

variable {asm : Assembly} {s s' : Session} {ty inner : TypeDefId} {handle : TypeId}

/-- Whether the values of a type have the form of a struct: the type is the struct, or an enum whose
integer has that form. -/
inductive StandsFor (asm : Assembly) : TypeDefId → TypeDefId → Prop
  | struct {ty : TypeDefId} : asm.kindOf ty = .ok .structType → StandsFor asm ty ty
  | enum {ty integer inner : TypeDefId} : asm.kindOf ty = .ok .enumType →
      enumUnderlying asm ty = .ok (.named integer) → Assembly.isRoot integer = false →
      StandsFor asm integer inner → StandsFor asm ty inner

theorem StandsFor.kind (h : StandsFor asm ty inner) :
    asm.kindOf ty = .ok .structType ∨ asm.kindOf ty = .ok .enumType := by
  cases h with
  | struct hkind => exact .inl hkind
  | enum hkind => exact .inr hkind

theorem StandsFor.kind_inner (h : StandsFor asm ty inner) : asm.kindOf inner = .ok .structType := by
  induction h with
  | struct hkind => exact hkind
  | enum _ _ _ _ ih => exact ih

theorem StandsFor.root_inner (h : StandsFor asm ty inner) (hroot : Assembly.isRoot ty = false) :
    Assembly.isRoot inner = false := by
  induction h with
  | struct => exact hroot
  | enum _ _ hroot' _ ih => exact ih hroot'

theorem EnumsPlain.standsFor (hplain : EnumsPlain asm) (h : StandsFor asm ty inner) :
    ty = inner := by
  induction h with
  | struct => rfl
  | @enum ty integer inner hkind hunderlying hroot hstands ih =>
      obtain rfl := ih
      exact absurd hstands.kind_inner (hplain ty integer hkind hunderlying hroot)

/-- Whether a type is the handle of an enum: the one of its integer if that has one, and with other
values in it only if the enum stands for a struct. -/
structure EnumHandle (asm : Assembly) (s : Session) (ty : TypeDefId) (handle : TypeId) : Prop where
  shared : ∀ integer, enumUnderlying asm ty = .ok (.named integer) →
    Assembly.isRoot integer = false →
    (asm.kindOf integer = .ok .structType ∨ asm.kindOf integer = .ok .enumType) →
    s.registry.types.lookup integer = some handle
  form : s.module.FlatAt handle ∨
    ∃ inner, StandsFor asm ty inner ∧ s.registry.types.lookup inner = some handle

theorem EnumHandle.mono (h : EnumHandle asm s ty handle) (hkept : s.module.PartsKept s'.module)
    (htypes : ∀ {ty id}, s.registry.types.lookup ty = some id →
      s'.registry.types.lookup ty = some id) : EnumHandle asm s' ty handle where
  shared integer hunderlying hroot hkind := htypes (h.shared integer hunderlying hroot hkind)
  form := h.form.imp (·.mono hkept) fun ⟨inner, hstands, hlookup⟩ =>
    ⟨inner, hstands, htypes hlookup⟩

/-- Whether the enums that have handles have such ones. -/
def EnumHandles (asm : Assembly) (s : Session) : Prop :=
  ∀ ty handle, asm.kindOf ty = .ok .enumType → s.registry.types.lookup ty = some handle →
    EnumHandle asm s ty handle

theorem lookup_of_irType (hroot : Assembly.isRoot ty = false)
    (hkind : asm.kindOf ty = .ok .structType ∨ asm.kindOf ty = .ok .enumType)
    (h : irType asm (.named ty) s = .ok handle s') : s.registry.types.lookup ty = some handle := by
  simp only [irType, namedType, hroot, Bool.false_eq_true, if_false, bind_eq_ok_iff,
    Lower.consult_eq_ok_iff, Lower.liftM_ask, Lower.ask_eq_ok_iff] at h
  obtain ⟨id, t, ⟨hid, hsame⟩, kind, t', ⟨hkind', hsame'⟩, h⟩ := h
  subst t t'
  rcases hkind with hkind | hkind <;>
  · cases hkind.symm.trans hkind'
    obtain ⟨rfl, -⟩ := pure_eq_ok_iff.mp h
    exact Registry.found_eq_ok_iff.mp hid

theorem EnumHandles.step {u : Unit} (hs : EnumHandles asm s) (h : declareType asm ty s = .ok u s') :
    EnumHandles asm s' := by
  obtain ⟨d, handle, s₁, hd, hhandle, hnew, hafter⟩ := declareType_cases h
  obtain ⟨hkept, -, honly⟩ := declareHandle_cases hd hhandle
  have hmodule : s'.module = s₁.module := by rw [hafter]
  have htypes : s'.registry.types = (ty, handle) :: s.registry.types := by rw [hafter, honly]
  have hnew' : s.registry.types.lookup ty = none := by rwa [honly] at hnew
  have hmono {ty' : TypeDefId} {id : TypeId} (hlookup : s.registry.types.lookup ty' = some id) :
      s'.registry.types.lookup ty' = some id := by
    rw [htypes]
    refine lookup_cons_of_new ?_ hlookup
    simp [hnew']
  intro ty' handle' hkind hlookup
  rcases lookup_cons_cases (htypes ▸ hlookup) with ⟨rfl, rfl⟩ | hlookup
  · obtain ⟨d', hd', henum⟩ := Assembly.kindOf_eq_ok_iff.mp hkind
    obtain rfl := Except.ok.inj (hd.symm.trans hd')
    obtain ⟨sig, hsig, htype⟩ := declareHandle_enum henum hhandle
    refine ⟨fun integer hunderlying hroot hkind' => ?_, ?_⟩
    · obtain rfl := Except.ok.inj (hsig.symm.trans hunderlying)
      exact hmono (lookup_of_irType hroot hkind' htype)
    · rcases irType_cases htype with hflat | ⟨integer, rfl, hroot, hkind', hlookup', -⟩
      · exact .inl (hmodule ▸ hflat)
      · rcases hkind' with hstruct | henum'
        · exact .inr ⟨integer, .enum hkind hsig hroot (.struct hstruct), hmono hlookup'⟩
        · rcases (hs integer handle' henum' hlookup').form with hflat | ⟨inner, hstands, hinner⟩
          · exact .inl (hflat.mono fun hold _ => hmodule ▸ hkept _ _ hold)
          · exact .inr ⟨inner, .enum hkind hsig hroot hstands, hmono hinner⟩
  · exact (hs ty' handle' hkind hlookup).mono (fun hold _ => hmodule ▸ hkept _ _ hold) hmono

theorem enumHandles_of_declareTypes {m : Module} {u : Unit}
    (h : declareTypes asm { module := m } = .ok u s) : EnumHandles asm s := by
  obtain ⟨s₁, hs₁, honly, -⟩ := declareTypes_induction (I := EnumHandles asm)
    (fun _ _ _ hlookup => by simp at hlookup) (fun hs h => hs.step h) h
  intro ty handle hkind hlookup
  rw [honly] at hlookup ⊢
  exact (hs₁ ty handle hkind hlookup).mono (fun htype _ => htype) id

theorem EnumHandles.mono {start : Session} (h : EnumHandles asm start) (hstart : Declared asm start)
    (hlater : Session.Later asm start s) {ty : TypeDefId} {handle : TypeId}
    (hroot : Assembly.isRoot ty = false) (hkind : asm.kindOf ty = .ok .enumType)
    (hlookup : s.registry.types.lookup ty = some handle) : EnumHandle asm s ty handle := by
  obtain ⟨d, hd, -⟩ := Assembly.kindOf_eq_ok_iff.mp hkind
  obtain ⟨handle', hhandle⟩ := hstart.known ty (mem_userTypes hd hroot)
  obtain rfl := Option.some.inj (hlookup.symm.trans (hlater.registry.types hhandle))
  exact (h ty _ hkind hhandle).mono hlater.module.partsKept hlater.registry.types

end Lowering

end Forms

section Members

namespace Lowering

variable {asm : Assembly} {start s' : Session} {ty inner outer : TypeDefId} {part whole : TypeId}

/-- Whether the values of a class or struct have, in a field, a value of the form of a struct. -/
def PartOf (asm : Assembly) (inner outer : TypeDefId) : Prop :=
  HasMembers asm outer ∧ ∃ layout f fd named, LayoutOf asm outer layout ∧ .field f ∈ layout ∧
    asm.field f = .ok fd ∧ fd.isStatic = false ∧ fd.sig = .named named ∧
    Assembly.isRoot named = false ∧ StandsFor asm named inner

theorem PartOf.user (h : PartOf asm inner outer) :
    Assembly.isRoot inner = false ∧ asm.kindOf inner = .ok .structType := by
  obtain ⟨-, _, _, _, _, -, -, -, -, -, hroot, hstands⟩ := h
  exact ⟨hstands.root_inner hroot, hstands.kind_inner⟩

/-- If no enum has a struct for its integer, the parts are the structs that are embedded. -/
theorem PartOf.embeds (h : PartOf asm inner outer) (hplain : EnumsPlain asm) :
    Embeds asm outer inner := by
  obtain ⟨-, layout, f, fd, named, hlayout, hentry, hfd, hstatic, hsig, -, hstands⟩ := h
  obtain rfl := hplain.standsFor hstands
  exact ⟨layout, f, fd, hlayout, hentry, hfd, hstatic, hsig, hstands.kind_inner⟩

/-- No type that is defined, and no struct that it embeds, has a value of itself in it. -/
theorem DefinedBy.acc {u : Session} (h : DefinedBy asm start u ty) (hplain : EnumsPlain asm) :
    (∀ inner, Embeds asm ty inner → Acc (PartOf asm) inner) ∧ Acc (PartOf asm) ty := by
  induction h with
  | @root u ty hroot =>
      refine ⟨fun inner hembeds => ?_, ty, fun inner hpart => ?_⟩
      · obtain ⟨layout, f, fd, hlayout, hentry, -⟩ := hembeds
        obtain rfl := hlayout.of_root hroot
        simp at hentry
      · simp [hpart.1.1] at hroot
  | @defined s s' u ty d types hd htypes _ _ _ _ _ ih =>
      have hembedded (inner : TypeDefId) (hembeds : Embeds asm ty inner) :
          Acc (PartOf asm) inner := by
        rcases hembeds.cases hd htypes with ⟨base, hbase, hembeds⟩ | hinner
        · exact (ih base hbase).1 inner hembeds
        · exact (ih inner hinner).2
      exact ⟨hembedded, ty, fun inner hpart => hembedded inner (hpart.embeds hplain)⟩

section Handles

variable {u : Unit}

theorem struct_members (hstart : Declared asm start) (hcompile : compileTypes asm start = .ok u s')
    (hty : HasMembers asm ty) :
    ∃ whole name packed layout members fill, s'.registry.types.lookup ty = some whole ∧
      s'.module.types[whole.index]? =
        some (.struct name (some (members.filterMap id ++ fill)) packed) ∧
      LayoutOf asm ty layout ∧ List.Forall₂ (Becomes asm s') layout members ∧
      ∀ part ∈ fill, s'.module.FlatAt part := by
  obtain ⟨d, hd, hkind⟩ := hty.definition
  obtain ⟨t, t', hbefore, hblank, hdefine, hafter⟩ :=
    defined_of_compileTypes hstart hcompile (mem_userTypes hd hty.1)
  obtain ⟨packed, -, -, hstruct⟩ := defineType_struct hd hkind hdefine
  obtain ⟨run⟩ := nonempty_structRun hstruct
  obtain ⟨hlayout, hhandle, name, htype⟩ := run.outcome hstart hd hkind hty.1 hbefore hblank hafter
  obtain ⟨members, hall, hbody, -⟩ := structMembers_becomes run.members
  have hfilled : Session.Later asm run.filled s' := IsTrans.trans _ _ _ run.later_final hafter
  have hmembered : Session.Later asm run.membered s' :=
    IsTrans.trans _ _ _ run.membered_filled hfilled
  refine ⟨run.handle, name, packed, run.layout, members, run.fill, hhandle, hbody ▸ htype, hlayout,
    hall.imp fun _ _ h => h.mono hmembered.toExtends, fun id hid => ?_⟩
  exact ⟨_, hfilled.module.partsKept (run.fill_byte hid) (by simp), rfl⟩

/-- The type of a field is flat, or the struct that its values have the form of. -/
theorem flat_or_form (henums : EnumHandles asm start) (hstart : Declared asm start)
    (hlater : Session.Later asm start s') {sig : TypeSig}
    (htype : irType asm sig s' = .ok part s') :
    s'.module.FlatAt part ∨ ∃ named inner, sig = .named named ∧ Assembly.isRoot named = false ∧
      StandsFor asm named inner ∧ s'.registry.types.lookup inner = some part := by
  rcases irType_cases htype with hflat | ⟨named, hsig, hroot, hkind, hlookup, -⟩
  · exact .inl hflat
  · rcases hkind with hstruct | henum
    · exact .inr ⟨named, named, hsig, hroot, .struct hstruct, hlookup⟩
    · refine (henums.mono hstart hlater hroot henum hlookup).form.imp_right ?_
      rintro ⟨inner, hstands, hinner⟩
      exact ⟨named, inner, hsig, hroot, hstands, hinner⟩

theorem StandsFor.lookup (h : StandsFor asm ty inner) (henums : EnumHandles asm start)
    (hstart : Declared asm start) (hlater : Session.Later asm start s')
    (hroot : Assembly.isRoot ty = false) (hlookup : s'.registry.types.lookup ty = some part) :
    s'.registry.types.lookup inner = some part := by
  induction h with
  | struct => exact hlookup
  | @enum ty integer inner hkind hunderlying hroot' hstands ih =>
      have hhandle := henums.mono hstart hlater hroot hkind hlookup
      exact ih hroot' (hhandle.shared integer hunderlying hroot' hstands.kind)

theorem flat_or_part (hstart : Declared asm start) (hcompile : compileTypes asm start = .ok u s')
    (henums : EnumHandles asm start) (hty : HasMembers asm ty)
    (hlookup : s'.registry.types.lookup ty = some whole) (hwithin : s'.module.Within part whole) :
    s'.module.FlatAt part ∨
      ∃ inner, PartOf asm inner ty ∧ s'.registry.types.lookup inner = some part := by
  have hlater : Session.Later asm start s' :=
    (inferInstance : Keeps _ (compileTypes asm)).run hcompile
  obtain ⟨whole', name, packed, layout, members, fill, hhandle, htype, hlayout, hall, hfill⟩ :=
    struct_members hstart hcompile hty
  obtain rfl := Option.some.inj (hlookup.symm.trans hhandle)
  cases hwithin with
  | element harray => cases htype.symm.trans harray
  | member hstruct hmember =>
      cases htype.symm.trans hstruct
      rcases List.mem_append.mp hmember with hmember | hmember
      · obtain ⟨x, hx, hsome⟩ := List.mem_filterMap.mp hmember
        obtain rfl : x = some part := hsome
        obtain ⟨entry, hentry, hbecomes⟩ := exists_mem_of_forall₂ hall.flip hx
        cases hbecomes with
        | classVTable hpointer => exact .inl ⟨_, hpointer, rfl⟩
        | indirection hpointer => exact .inl ⟨_, hpointer, rfl⟩
        | @field f fd _ hfd hstatic htype =>
            refine (flat_or_form henums hstart hlater htype).imp_right ?_
            rintro ⟨named, inner, hsig, hroot, hstands, hinner⟩
            exact ⟨inner, ⟨hty, layout, f, fd, named, hlayout, hentry, hfd, hstatic, hsig, hroot,
              hstands⟩, hinner⟩
      · exact .inl (hfill part hmember)

/-- All of these structs are. -/
theorem PartOf.within (h : PartOf asm inner outer) (hstart : Declared asm start)
    (hcompile : compileTypes asm start = .ok u s') (henums : EnumHandles asm start) :
    ∃ part whole, s'.registry.types.lookup inner = some part ∧
      s'.registry.types.lookup outer = some whole ∧ s'.module.Within part whole := by
  have hlater : Session.Later asm start s' :=
    (inferInstance : Keeps _ (compileTypes asm)).run hcompile
  obtain ⟨hty, layout, f, fd, named, hlayout, hentry, hfd, hstatic, hsig, hroot, hstands⟩ := h
  obtain ⟨whole, name, packed, layout', members, fill, hhandle, htype, hlayout', hall, -⟩ :=
    struct_members hstart hcompile hty
  obtain rfl := hlayout.unique hlayout'
  obtain ⟨member, hmember, hbecomes⟩ := exists_mem_of_forall₂ hall hentry
  cases hbecomes with
  | static hfd' hstatic' =>
      obtain rfl := Except.ok.inj (hfd.symm.trans hfd')
      simp [hstatic] at hstatic'
  | @field _ _ part hfd' _ htype' =>
      obtain rfl := Except.ok.inj (hfd.symm.trans hfd')
      have hlookup := lookup_of_irType hroot hstands.kind (hsig ▸ htype')
      refine ⟨part, whole, hstands.lookup henums hstart hlater hroot hlookup, hhandle,
        .member htype (List.mem_append_left _ ?_)⟩
      exact List.mem_filterMap.mpr ⟨_, hmember, rfl⟩

end Handles

end Lowering

end Members

section Sizes

namespace Ssa.Module

variable {m : Module}

/-- Types with extents are made of finitely many parts. -/
theorem wellFounded_of_extents
    (h : ∀ id : TypeId, id.index < m.types.size → ∃ e, m.extentOf id = .ok e) :
    WellFounded m.Within := by
  refine ⟨fun id => ?_⟩
  by_cases hid : id.index < m.types.size
  · obtain ⟨e, he⟩ := h id hid
    exact (grounded_iff.mp (grounded_of_extentWith he)).1
  · refine ⟨id, fun inner hwithin => absurd ?_ hid⟩
    cases hwithin with
    | member hstruct => exact (Array.getElem?_eq_some_iff.mp hstruct).1
    | element harray => exact (Array.getElem?_eq_some_iff.mp harray).1

end Ssa.Module

namespace Lowering

variable {asm : Assembly} {start s s' : Session} {name : String} {u u' : Unit}

/-- The struct of a type is made of finitely many parts if the values of the type are. -/
theorem grounded_of_acc (hstart : Declared asm start) (hcompile : compileTypes asm start = .ok u s')
    (henums : EnumHandles asm start) {ty : TypeDefId} (hacc : Acc (PartOf asm) ty)
    (hty : HasMembers asm ty) {whole : TypeId}
    (hlookup : s'.registry.types.lookup ty = some whole) :
    s'.module.Grounded whole := by
  induction hacc generalizing whole with
  | intro ty _ ih =>
      obtain ⟨whole', _, _, _, _, _, hhandle, htype, -⟩ := struct_members hstart hcompile hty
      obtain rfl := Option.some.inj (hlookup.symm.trans hhandle)
      refine .of_parts (Array.getElem?_eq_some_iff.mp htype).1 fun part hwithin => ?_
      rcases flat_or_part hstart hcompile henums hty hlookup hwithin with
        hflat | ⟨inner, hpart, hinner⟩
      · exact hflat.grounded
      · exact ih inner hpart ⟨hpart.user.1, .inr hpart.user.2⟩ hinner

/-- So are all types then. -/
theorem grounded_of_wellFounded (hdeclare : declareTypes asm { module := { name } } = .ok u s)
    (hcompile : compileTypes asm s = .ok u' s') (hparts : WellFounded (PartOf asm)) {id : TypeId}
    (hid : id.index < s'.module.types.size) : s'.module.Grounded id := by
  have hstart := declared_of_declareTypes hdeclare
  have henums := enumHandles_of_declareTypes hdeclare
  refine .of_parts hid fun inner hwithin => ?_
  rcases flat_or_struct hdeclare hcompile hwithin with hflat | ⟨ty, hty, hlookup⟩
  · exact hflat.grounded
  · cases grounded_of_acc hstart hcompile henums (hparts.apply ty) hty hlookup with
    | of_parts _ hinner => exact hinner inner hwithin

/-- The values of a type are made of finitely many parts if those of its struct are. -/
theorem acc_of_acc_within (hstart : Declared asm start)
    (hcompile : compileTypes asm start = .ok u s') (henums : EnumHandles asm start) {whole : TypeId}
    (hacc : Acc s'.module.Within whole) {ty : TypeDefId}
    (hlookup : s'.registry.types.lookup ty = some whole) : Acc (PartOf asm) ty := by
  induction hacc generalizing ty with
  | intro whole _ ih =>
      refine ⟨ty, fun inner hpart => ?_⟩
      obtain ⟨part, whole', hinner, houter, hwithin⟩ := hpart.within hstart hcompile henums
      obtain rfl := Option.some.inj (hlookup.symm.trans houter)
      exact ih part hwithin hinner

/-- The types of a program are well-founded exactly if the values of its classes and structs are,
and exactly then all of them have extents.  It is so if no enum has a struct for its integer: the
members of a struct are defined before the struct. -/
theorem types_wellFounded (hdeclare : declareTypes asm { module := { name } } = .ok u s)
    (hcompile : compileTypes asm s = .ok u' s') :
    (WellFounded s'.module.Within ↔ WellFounded (PartOf asm)) ∧
      (WellFounded s'.module.Within ↔
        ∀ id : TypeId, id.index < s'.module.types.size → ∃ e, s'.module.extentOf id = .ok e) ∧
      (EnumsPlain asm → WellFounded s'.module.Within) := by
  have hstart := declared_of_declareTypes hdeclare
  have henums := enumHandles_of_declareTypes hdeclare
  have hextents (hparts : WellFounded (PartOf asm)) (id : TypeId)
      (hid : id.index < s'.module.types.size) : ∃ e, s'.module.extentOf id = .ok e :=
    (grounded_of_wellFounded hdeclare hcompile hparts hid).exists_extentOf
  have hparts (hwithin : WellFounded s'.module.Within) : WellFounded (PartOf asm) := by
    refine ⟨fun ty => ⟨ty, fun inner hpart => ?_⟩⟩
    obtain ⟨part, _, hinner, -, -⟩ := hpart.within hstart hcompile henums
    exact acc_of_acc_within hstart hcompile henums (hwithin.apply part) hinner
  refine ⟨⟨hparts, fun h => Module.wellFounded_of_extents (hextents h)⟩,
    ⟨fun h => hextents (hparts h), Module.wellFounded_of_extents⟩, fun hplain => ?_⟩
  refine Module.wellFounded_of_extents (hextents ⟨fun ty => ?_⟩)
  by_cases hty : HasMembers asm ty
  · obtain ⟨d, hd, -⟩ := hty.definition
    exact ((definedBy_of_compileTypes hstart hcompile (mem_userTypes hd hty.1)).acc hplain).2
  · exact ⟨ty, fun inner hpart => absurd hpart.1 hty⟩

theorem crate_types_wellFounded :
    declareTypes crate { module := { name := "module" } } = .ok () crateDeclared ∧
      compileTypes crate crateDeclared = .ok () crateDefined ∧
      WellFounded crateDefined.module.Within ∧
      crateDefined.module.Within ⟨1⟩ ⟨0⟩ ∧ crateDefined.module.extentOf ⟨0⟩ = .ok ⟨16, 4⟩ := by
  have hdeclare : declareTypes crate { module := { name := "module" } } = .ok () crateDeclared :=
    outcome?_eq_some_iff.mp (by decide +kernel)
  have hcompile : compileTypes crate crateDeclared = .ok () crateDefined :=
    outcome?_eq_some_iff.mp (by decide +kernel)
  have hstruct : crateDefined.module.types[0]? =
      some (.struct "Crate" (some (⟨1⟩ :: List.replicate 12 ⟨3⟩)) false) := by decide +kernel
  exact ⟨hdeclare, hcompile, (types_wellFounded hdeclare hcompile).2.2 crate_enumsPlain,
    .member hstruct List.mem_cons_self, by decide +kernel⟩

/-- A struct with a field of an enum that has the struct for its integer. -/
def knot : Assembly :=
  let roots := Assembly.ofName "knot"
  { roots with
    types := roots.types ++ #[
      { TypeDef.ofKind .structType "" "Knot" with
        base := some Assembly.valueType, fields := [⟨0⟩] },
      { TypeDef.ofKind .enumType "" "Loop" with
        base := some Assembly.enumType, fields := [⟨1⟩] }]
    fields := #[⟨"loop", ⟨3⟩, .named ⟨4⟩, false⟩, ⟨"value__", ⟨4⟩, .named ⟨3⟩, false⟩] }

-- It is a member of itself then, and its size is not found.
example :
    let s := stateOf (declareTypes knot { module := { name := "module" } })
    let s' := stateOf (compileTypes knot s)
    s'.module.types[0]? = some (.struct "Knot" (some [⟨0⟩]) false) ∧
      s'.module.extentOf ⟨0⟩ = .error .endless := by
  decide +kernel

end Lowering

end Sizes

end CilSsa
