import CilSsa.Proofs.Declarations

/-!
The definition of types.

Every type is defined once, at a state on the way, and its struct has no members before.  What is
done with a struct is taken apart in `StructRun`.
-/

namespace CilSsa.Lowering

open CilSsa.Metadata CilSsa.Ssa

variable {asm : Assembly}

section Structs

/-- The definition of a class or struct, step by step. -/
structure StructRun (asm : Assembly) (ty : TypeDefId) (d : TypeDef) (packed : Bool)
    (s s' : Session) where
  dispatch : Bool
  asked : Session
  requires : requiresVTable asm ty d s = .ok dispatch asked
  /-- The state with the dispatch tables, if there are any. -/
  tabled : Session
  tables : (dispatch = false ∧ tabled = asked) ∨ (dispatch = true ∧ ∃ table t r u,
    classVTable asm ty asked = .ok table t ∧
    Registering.addVTable asm ty table t.registry = .ok u r ∧ tabled = { t with registry := r })
  layout : List StructEntry
  cache : LayoutCache
  laidOut : Layouts.structLayout asm ty tabled.layouts = .ok layout cache
  body : List TypeId
  fields : List (FieldId × TypeId)
  membered : Session
  members : structMembers asm dispatch layout { tabled with layouts := cache } =
    .ok (body, fields) membered
  /-- The bytes that fill the struct up, and the state in which it gets its members. -/
  fill : List TypeId
  filled : Session
  filling : (d.classSize = none ∧ fill = [] ∧ filled = membered) ∨
    ∃ size count t byte m, d.classSize = some size ∧
      padding asm size fields membered = .ok count t ∧
      Build.intType 8 t.module = .ok byte m ∧ fill = List.replicate count byte ∧
      filled = { t with module := m }
  handle : TypeId
  found : filled.registry.types.lookup ty = some handle
  module : Module
  defined : Build.setStructBody handle (body ++ fill) packed filled.module = .ok () module
  final : s' = { filled with module := module }

variable {ty : TypeDefId} {d : TypeDef} {packed : Bool} {s s' : Session}

/-- Two steps that are taken under a condition, before what follows in either case. -/
theorem joined_eq_ok {ε σ α β : Type} {c : Bool} {x : EStateM ε σ α} {y : α → EStateM ε σ PUnit}
    {k : PUnit → EStateM ε σ β} {s s' : σ} {b : β}
    (h : (if c = true then x >>= fun a => y a >>= k else k ⟨⟩) s = .ok b s') :
    ∃ t, ((c = false ∧ t = s) ∨ (c = true ∧ ∃ a t₁ u, x s = .ok a t₁ ∧ y a t₁ = .ok u t)) ∧
      k ⟨⟩ t = .ok b s' := by
  cases c with
  | false => exact ⟨s, .inl ⟨rfl, rfl⟩, h⟩
  | true =>
      obtain ⟨a, t₁, hx, h⟩ := bind_eq_ok_iff.mp h
      obtain ⟨u, t, hy, h⟩ := bind_eq_ok_iff.mp h
      exact ⟨t, .inr ⟨rfl, a, t₁, u, hx, hy⟩, h⟩

theorem nonempty_structRun {u : Unit} (h : defineStruct asm ty d packed s = .ok u s') :
    Nonempty (StructRun asm ty d packed s s') := by
  obtain ⟨dispatch, asked, hrequires, h⟩ := bind_eq_ok_iff.mp h
  obtain ⟨tabled, hjoined, h⟩ := joined_eq_ok h
  have htables : (dispatch = false ∧ tabled = asked) ∨ (dispatch = true ∧ ∃ table t r u,
      classVTable asm ty asked = .ok table t ∧
      Registering.addVTable asm ty table t.registry = .ok u r ∧
      tabled = { t with registry := r }) := by
    refine hjoined.imp id fun ⟨hdispatch, table, t, u, htable, hregister⟩ => ?_
    obtain ⟨r, hadded, hsame⟩ := Lower.register_eq_ok_iff.mp hregister
    exact ⟨hdispatch, table, t, r, u, htable, hadded, hsame⟩
  simp only [bind_eq_ok_iff, Lower.liftM_layout, Lower.layout_eq_ok_iff] at h
  obtain ⟨layout, _, ⟨cache, hlayout, rfl⟩, ⟨body, fields⟩, membered, hmembers, h⟩ := h
  have hlast {fill : List TypeId} {filled : Session} (h : (do
      let handle ← Lower.consult (·.type asm ty)
      Build.setStructBody handle (body ++ fill) packed : Lower Unit) filled = .ok u s') :
      ∃ handle m, filled.registry.types.lookup ty = some handle ∧
        Build.setStructBody handle (body ++ fill) packed filled.module = .ok u m ∧
        s' = { filled with module := m } := by
    simp only [bind_eq_ok_iff, Lower.consult_eq_ok_iff, Lower.liftM_build,
      Lower.build_eq_ok_iff] at h
    obtain ⟨handle, t, ⟨hfound, hsame⟩, m, hdefined, rfl⟩ := h
    subst t
    exact ⟨handle, m, Registry.found_eq_ok_iff.mp hfound, hdefined, rfl⟩
  cases hsize : d.classSize with
  | none =>
      simp only [hsize] at h
      obtain ⟨handle, m, hfound, hdefined, rfl⟩ := hlast h
      exact ⟨⟨dispatch, asked, hrequires, tabled, htables, layout, cache, hlayout, body, fields,
        membered, hmembers, [], membered, .inl ⟨hsize, rfl, rfl⟩, handle, hfound, m, hdefined, rfl⟩⟩
  | some size =>
      simp only [hsize] at h
      obtain ⟨count, t, hcount, h⟩ := bind_eq_ok_iff.mp h
      obtain ⟨byte, _, hbuild, h⟩ := bind_eq_ok_iff.mp h
      obtain ⟨m₁, hbyte, rfl⟩ := Lower.build_eq_ok_iff.mp hbuild
      obtain ⟨handle, m, hfound, hdefined, rfl⟩ := hlast h
      exact ⟨⟨dispatch, asked, hrequires, tabled, htables, layout, cache, hlayout, body, fields,
        membered, hmembers, _, _, .inr ⟨size, count, t, byte, m₁, hsize, hcount, hbyte, rfl, rfl⟩,
        handle, hfound, m, hdefined, rfl⟩⟩

namespace StructRun

variable (run : StructRun asm ty d packed s s')

theorem tabled_membered {R : Session → Session → Prop} [hR : Defining asm R] :
    R run.tabled run.membered := by
  have hlaid : Lower.layout (Layouts.structLayout asm ty) run.tabled =
      .ok run.layout { run.tabled with layouts := run.cache } :=
    Lower.layout_eq_ok_iff.mpr ⟨run.cache, run.laidOut, rfl⟩
  exact IsTrans.trans _ _ _ ((hR.layout ty).run hlaid)
    ((inferInstance : Keeps R (structMembers asm run.dispatch run.layout)).run run.members)

theorem membered_filled {R : Session → Session → Prop} [hR : Defining asm R] :
    R run.membered run.filled := by
  rcases run.filling with ⟨-, -, hsame⟩ | ⟨size, count, t, byte, m, -, hcount, hbyte, -, hfilled⟩
  · rw [hsame]
    exact Std.Refl.refl _
  · have hbyte' : Lower.build (Build.intType 8) t = .ok byte run.filled :=
      Lower.build_eq_ok_iff.mpr ⟨m, hbyte, hfilled⟩
    exact IsTrans.trans _ _ _ ((inferInstance : Keeps R (padding asm size run.fields)).run hcount)
      ((inferInstance : Keeps R (Lower.build (Build.intType 8))).run hbyte')

/-- From the tables to the state in which the struct gets its members. -/
theorem tabled_filled {R : Session → Session → Prop} [Defining asm R] : R run.tabled run.filled :=
  IsTrans.trans _ _ _ run.tabled_membered run.membered_filled

/-- A struct is filled up with bytes. -/
theorem fill_byte {id : TypeId} (hid : id ∈ run.fill) :
    run.filled.module.types[id.index]? = some (.int 8) := by
  rcases run.filling with ⟨-, hfill, -⟩ | ⟨size, count, t, byte, m, -, -, hbyte, hfill, hfilled⟩
  · simp [hfill] at hid
  · obtain rfl : id = byte := List.eq_of_mem_replicate (hfill ▸ hid)
    rw [hfilled]
    exact Build.intern_type hbyte

/-- Up to the last step only tables and the types of members are made. -/
theorem on_filled {M : Module → Module → Prop} [hM : IsPreorder Module M]
    [Defining asm (Session.On M)] : M s.module run.filled.module := by
  have hasked : Session.On M s run.asked :=
    (inferInstance : Keeps _ (requiresVTable asm ty d)).run run.requires
  have htabled : Session.On M run.asked run.tabled := by
    rcases run.tables with ⟨-, hsame⟩ | ⟨-, table, t, r, u, htable, -, htabled⟩
    · rw [hsame]
      exact hM.refl _
    · have hkept := (inferInstance : Keeps (Session.On M) (classVTable asm ty)).run htable
      rw [htabled]
      exact hkept
  have hfilled : Session.On M run.tabled run.filled := run.tabled_filled
  exact hM.trans _ _ _ hasked (hM.trans _ _ _ htabled hfilled)

/-- So types are only added. -/
theorem typesKept : s.module.TypesKept run.filled.module := run.on_filled

theorem later_tabled : Session.Later asm s run.tabled := by
  have hasked : Session.Later asm s run.asked :=
    (inferInstance : Keeps _ (requiresVTable asm ty d)).run run.requires
  rcases run.tables with ⟨-, hsame⟩ | ⟨-, table, t, r, u, htable, hregister, htabled⟩
  · rw [hsame]
    exact hasked
  · have hlater := (inferInstance : Keeps (Session.Later asm) (classVTable asm ty)).run htable
    have hregister' : Lower.register (Registering.addVTable asm ty table) t = .ok u run.tabled :=
      Lower.register_eq_ok_iff.mpr ⟨r, hregister, htabled⟩
    exact IsTrans.trans _ _ _ hasked (IsTrans.trans _ _ _ hlater
      ((inferInstance : Keeps _ (Lower.register (Registering.addVTable asm ty table))).run
        hregister'))

theorem later_filled : Session.Later asm s run.filled :=
  IsTrans.trans _ _ _ run.later_tabled run.tabled_filled

theorem later_final : Session.Later asm run.filled s' :=
  (inferInstance : Keeps (Session.Later asm)
    (Lower.build (Build.setStructBody run.handle (run.body ++ run.fill) packed))).run
      (Lower.build_eq_ok_iff.mpr ⟨run.module, run.defined, run.final⟩)

/-- The struct gets its members if it has none yet. -/
theorem module_eq {name : String} {packed' : Bool}
    (hblank : s.module.types[run.handle.index]? = some (.struct name none packed')) :
    s'.module = run.filled.module.apply
      (.defineStruct run.handle (.struct name (some (run.body ++ run.fill)) packed)) := by
  have hdefined := Build.setStructBody_of_blank (run.typesKept _ _ hblank) run.defined
  exact (congrArg Session.module run.final).trans hdefined

end StructRun

/-- The ways to define a type: an enum needs nothing, an interface the struct of its slots, and a
class or struct is defined through its struct.  Only structs have declared sizes. -/
theorem defineType_cases {u : Unit} (h : defineType asm ty s = .ok u s') :
    ∃ d, asm.typeDef ty = .ok d ∧
      (d.kind = .enumType ∧ s' = s ∨
        d.kind = .interfaceType ∧ (∃ table t r, interfaceVTable asm ty s = .ok table t ∧
          Registering.addVTable asm ty table t.registry = .ok () r ∧
          s' = { t with registry := r }) ∨
        (d.kind = .classType ∨ d.kind = .structType) ∧ ∃ packed, packedOf d = .ok packed ∧
          (d.kind = .classType → d.classSize = none) ∧
          defineStruct asm ty d packed s = .ok u s') := by
  simp only [defineType, bind_eq_ok_iff, Lower.liftM_ask, Lower.ask_eq_ok_iff] at h
  obtain ⟨d, t, ⟨hd, hsame⟩, h⟩ := h
  subst t
  refine ⟨d, hd, ?_⟩
  cases hpacked : packedOf d with
  | error error => simp [hpacked] at h
  | ok packed =>
      simp only [hpacked] at h
      split at h
      · simp at h
      · rename_i hsize
        cases hkind : d.kind with
        | enumType =>
            simp only [hkind] at h
            exact .inl ⟨rfl, (pure_eq_ok_iff.mp h).2⟩
        | interfaceType =>
            simp only [hkind] at h
            obtain ⟨table, t, htable, hregister⟩ := bind_eq_ok_iff.mp h
            obtain ⟨r, hadded, hsame⟩ := Lower.register_eq_ok_iff.mp hregister
            exact .inr (.inl ⟨rfl, table, t, r, htable, hadded, hsame⟩)
        | classType | structType =>
            simp only [hkind] at h
            exact .inr (.inr ⟨by simp, packed, rfl, fun hclass => by simp_all, h⟩)

theorem defineType_struct {u : Unit} (hd : asm.typeDef ty = .ok d)
    (hkind : d.kind = .classType ∨ d.kind = .structType) (h : defineType asm ty s = .ok u s') :
    ∃ packed, packedOf d = .ok packed ∧ (d.kind = .classType → d.classSize = none) ∧
      defineStruct asm ty d packed s = .ok u s' := by
  obtain ⟨d', hd', hcases⟩ := defineType_cases h
  obtain rfl := Except.ok.inj (hd.symm.trans hd')
  rcases hcases with ⟨henum, -⟩ | ⟨hinterface, -⟩ | ⟨-, hdefine⟩
  · simp [henum] at hkind
  · simp [hinterface] at hkind
  · exact hdefine

end Structs

section Order

variable {start s s' s'' : Session} {ty : TypeDefId}

/-- Whether the struct of a type still has no members. -/
def Blank (asm : Assembly) (start s : Session) (ty : TypeDefId) : Prop :=
  hasStruct asm ty = true → ∀ id, start.registry.types.lookup ty = some id →
    ∃ name packed, s.module.types[id.index]? = some (.struct name none packed)

theorem Blank.mono (h : Blank asm start s ty) (hkept : s.module.TypesKept s'.module) :
    Blank asm start s' ty := by
  intro hstruct id hid
  obtain ⟨name, packed, hblank⟩ := h hstruct id hid
  exact ⟨name, packed, hkept _ _ hblank⟩

theorem StructRun.handle_eq {d : TypeDef} {packed : Bool} {id : TypeId}
    (run : StructRun asm ty d packed s s') (hlater : Session.Later asm start s)
    (hid : start.registry.types.lookup ty = some id) : run.handle = id := by
  have hfilled : Session.Later asm start run.filled := IsTrans.trans _ _ _ hlater run.later_filled
  exact Option.some.inj (run.found.symm.trans (hfilled.registry.types hid))

/-- The definition of a type leaves the structs of other types alone. -/
theorem Blank.of_defineType {ty' : TypeDefId} {u : Unit} (hstart : Declared asm start)
    (hlater : Session.Later asm start s) (hty : ty ∈ asm.userTypes)
    (h : defineType asm ty s = .ok u s') (hne : ty' ≠ ty) (hblank : Blank asm start s ty') :
    Blank asm start s' ty' := by
  have hdefine {d : TypeDef} {packed : Bool} (hstruct : hasStruct asm ty = true)
      (h : defineStruct asm ty d packed s = .ok u s') : Blank asm start s' ty' := by
    obtain ⟨run⟩ := nonempty_structRun h
    obtain ⟨id, hid⟩ := hstart.known ty hty
    have hhandle := run.handle_eq hlater hid
    intro hstruct' id' hid'
    obtain ⟨name, packed', hblank'⟩ := hblank hstruct' id' hid'
    have hother : id.index ≠ id'.index := by
      intro heq
      obtain rfl : id = id' := congrArg TypeId.mk heq
      exact hne (hstart.apart hid' hid hstruct' hstruct)
    have hkept := run.typesKept _ _ hblank'
    refine ⟨name, packed', ?_⟩
    rcases Build.setStructBody_cases run.defined with ⟨misuse, hmodule, -⟩ | ⟨type, hmodule, -⟩
    · rw [run.final, hmodule]
      exact hkept
    · rw [run.final, hmodule, hhandle]
      simpa [Module.apply, hother] using hkept
  obtain ⟨d, hd, hcases⟩ := defineType_cases h
  rcases hcases with ⟨-, rfl⟩ | ⟨-, table, t, r, htable, -, rfl⟩ | ⟨hstruct, packed, -, -, hdefined⟩
  · exact hblank
  · have hkept : Session.On Module.TypesKept s t :=
      (inferInstance : Keeps _ (interfaceVTable asm ty)).run htable
    exact hblank.mono hkept
  · exact hdefine (hasStruct_of_kind hd hstruct) hdefined

/-- Whether a type is defined by some state, at a state in which its struct had no members yet, and
the types that it depends on are defined before. -/
inductive DefinedBy (asm : Assembly) (start : Session) : Session → TypeDefId → Prop
  | root {s : Session} {ty : TypeDefId} : Assembly.isRoot ty = true → DefinedBy asm start s ty
  | defined {s s' u : Session} {ty : TypeDefId} {d : TypeDef} {types : List TypeDefId} :
      asm.typeDef ty = .ok d → dependencies asm d = .ok types → Session.Later asm start s →
      (∀ ty' ∈ types, DefinedBy asm start s ty') → Blank asm start s ty →
      defineType asm ty s = .ok () s' → Session.Later asm s' u → DefinedBy asm start u ty

theorem DefinedBy.mono (h : DefinedBy asm start s ty) (hlater : Session.Later asm s s') :
    DefinedBy asm start s' ty := by
  cases h with
  | root hroot => exact .root hroot
  | defined hd htypes hbefore hready hblank hdefine hafter =>
      exact .defined hd htypes hbefore hready hblank hdefine (IsTrans.trans _ _ _ hafter hlater)

/-- What the definition of some types adds to those done before. -/
structure Defines (asm : Assembly) (start : Session) (visiting before after : List TypeDefId)
    (s s' : Session) : Prop where
  later : Session.Later asm s s'
  kept : before ⊆ after
  /-- Types that wait for others are not defined in between. -/
  free : ∀ ty ∈ after, ty ∈ before ∨ ty ∉ visiting
  ready : (∀ ty ∈ before, DefinedBy asm start s ty) → ∀ ty ∈ after, DefinedBy asm start s' ty
  blank : (∀ ty ∉ before, Blank asm start s ty) → ∀ ty ∉ after, Blank asm start s' ty

variable {visiting before between after : List TypeDefId}

theorem Defines.refl : Defines asm start visiting before before s s where
  later := Std.Refl.refl _
  kept := List.Subset.refl _
  free _ h := .inl h
  ready := id
  blank := id

theorem Defines.trans (h : Defines asm start visiting before between s s')
    (h' : Defines asm start visiting between after s' s'') :
    Defines asm start visiting before after s s'' where
  later := IsTrans.trans _ _ _ h.later h'.later
  kept := List.Subset.trans h.kept h'.kept
  free ty hty := (h'.free ty hty).elim (h.free ty) .inr
  ready hready := h'.ready (h.ready hready)
  blank hblank := h'.blank (h.blank hblank)

/-- What is known where types are about to be defined. -/
structure Underway (asm : Assembly) (start : Session) (done : List TypeDefId) (s : Session) :
    Prop where
  later : Session.Later asm start s
  ready : ∀ ty ∈ done, DefinedBy asm start s ty
  blank : ∀ ty ∉ done, Blank asm start s ty

theorem Underway.step (h : Underway asm start before s)
    (hdefines : Defines asm start visiting before after s s') :
    Underway asm start after s' where
  later := IsTrans.trans _ _ _ h.later hdefines.later
  ready := hdefines.ready h.ready
  blank := hdefines.blank h.blank

/-- Several types in a row. -/
theorem Defines.fold {define : List TypeDefId → TypeDefId → Lower (List TypeDefId)}
    {types : List TypeDefId} (hs : Underway asm start before s)
    (hdefine : ∀ {before after : List TypeDefId} {ty : TypeDefId} {s s' : Session},
      Underway asm start before s → define before ty s = .ok after s' →
      Defines asm start visiting before after s s' ∧ (Assembly.isRoot ty = true ∨ ty ∈ after))
    (h : types.foldlM define before s = .ok after s') :
    Defines asm start visiting before after s s' ∧
      ∀ ty ∈ types, Assembly.isRoot ty = true ∨ ty ∈ after := by
  induction types generalizing before s with
  | nil =>
      obtain ⟨rfl, rfl⟩ := pure_eq_ok_iff.mp h
      exact ⟨.refl, by simp⟩
  | cons ty rest ih =>
      rw [List.foldlM_cons] at h
      obtain ⟨between, s₁, hfirst, hrest⟩ := bind_eq_ok_iff.mp h
      obtain ⟨hstep, hty⟩ := hdefine hs hfirst
      obtain ⟨hothers, hall⟩ := ih (hs.step hstep) hrest
      refine ⟨hstep.trans hothers, fun ty' hty' => ?_⟩
      rcases List.mem_cons.mp hty' with rfl | hty'
      · exact hty.imp_right fun hmem => hothers.kept hmem
      · exact hall ty' hty'

theorem mem_userTypes_iff :
    ty ∈ asm.userTypes ↔ (∃ d, asm.typeDef ty = .ok d) ∧ Assembly.isRoot ty = false := by
  have hexists : (∃ d, asm.typeDef ty = .ok d) ↔ ty.index < asm.types.size :=
    ⟨fun ⟨_, hd⟩ => (Array.getElem?_eq_some_iff.mp (Arena.entry_eq_ok_iff.mp hd)).1,
      fun h => ⟨_, Arena.entry_eq_ok_iff.mpr (Array.getElem?_eq_getElem h)⟩⟩
  rw [hexists]
  simp only [Assembly.userTypes, Assembly.typeIds, List.mem_filter, List.mem_map, List.mem_range,
    Bool.not_eq_eq_eq_not, Bool.not_true]
  refine and_congr_left fun _ => ⟨?_, fun h => ⟨ty.index, h, rfl⟩⟩
  rintro ⟨i, hi, rfl⟩
  exact hi

theorem mem_userTypes {d : TypeDef} (hd : asm.typeDef ty = .ok d)
    (hroot : Assembly.isRoot ty = false) : ty ∈ asm.userTypes :=
  mem_userTypes_iff.mpr ⟨⟨d, hd⟩, hroot⟩

/-- A type that is not done yet is defined after its dependencies, and none of
those waits for it. -/
theorem defineInOrder_cases {fuel : Nat}
    (h : defineInOrder asm (fuel + 1) visiting before ty s = .ok after s') :
    (Assembly.isRoot ty = true ∨ ty ∈ before) ∧ after = before ∧ s' = s ∨
      Assembly.isRoot ty = false ∧ ty ∉ before ∧ ty ∉ visiting ∧ ∃ d types between t,
        asm.typeDef ty = .ok d ∧ dependencies asm d = .ok types ∧
        types.foldlM (defineInOrder asm fuel (ty :: visiting)) before s = .ok between t ∧
        defineType asm ty t = .ok () s' ∧ after = ty :: between := by
  unfold defineInOrder at h
  split at h
  · rename_i hknown
    obtain ⟨rfl, rfl⟩ := pure_eq_ok_iff.mp h
    exact .inl ⟨by simpa using hknown, rfl, rfl⟩
  · rename_i hknown
    simp only [Bool.or_eq_true, decide_eq_true_eq, not_or, Bool.not_eq_true] at hknown
    split at h
    · simp at h
    · rename_i hvisiting
      simp only [bind_eq_ok_iff, Lower.liftM_ask, Lower.ask_eq_ok_iff, pure_eq_ok_iff] at h
      obtain ⟨d, _, ⟨hd, rfl⟩, types, _, ⟨htypes, rfl⟩, between, t, hfold,
        _, _, hdefine, rfl, rfl⟩ := h
      exact .inr ⟨hknown.1, hknown.2, hvisiting, d, types, between, t, hd,
        htypes, hfold, hdefine, rfl⟩

theorem defineInOrder_defines (hstart : Declared asm start) {fuel : Nat}
    (hs : Underway asm start before s)
    (h : defineInOrder asm fuel visiting before ty s = .ok after s') :
    Defines asm start visiting before after s s' ∧ (Assembly.isRoot ty = true ∨ ty ∈ after) := by
  induction fuel generalizing visiting before after ty s s' with
  | zero => simp [defineInOrder] at h
  | succ fuel ih =>
      rcases defineInOrder_cases h with ⟨hknown, rfl, rfl⟩ |
        ⟨hroot, hundone, hvisiting, d, types, between, s₁, hd, htypes, hfold, hdefine, rfl⟩
      · exact ⟨.refl, hknown⟩
      · obtain ⟨hfirst, hall⟩ := Defines.fold hs (fun hs h => ih hs h) hfold
        have hs₁ := hs.step hfirst
        have hmem := mem_userTypes hd hroot
        -- No type that the others need can be this one, which is waiting for them.
        have hnew : ty ∉ between := fun hbetween =>
          (hfirst.free ty hbetween).elim hundone fun hfree => hfree List.mem_cons_self
        have hlast : Session.Later asm s₁ s' :=
          (inferInstance : Keeps _ (defineType asm ty)).run hdefine
        have hneeded : ∀ ty' ∈ types, DefinedBy asm start s₁ ty' := fun ty' hty' =>
          (hall ty' hty').elim .root (hs₁.ready ty')
        refine ⟨⟨IsTrans.trans _ _ _ hfirst.later hlast, fun ty' hty' => ?_, fun ty' hty' => ?_,
          fun _ ty' hty' => ?_, fun _ ty' hty' => ?_⟩, .inr List.mem_cons_self⟩
        · exact List.mem_cons_of_mem _ (hfirst.kept hty')
        · rcases List.mem_cons.mp hty' with rfl | hty'
          · exact .inr hvisiting
          · exact (hfirst.free ty' hty').imp_right fun hfree h => hfree (List.mem_cons_of_mem _ h)
        · rcases List.mem_cons.mp hty' with rfl | hty'
          · exact .defined hd htypes hs₁.later hneeded (hs₁.blank _ hnew) hdefine (Std.Refl.refl _)
          · exact (hs₁.ready ty' hty').mono hlast
        · rw [List.mem_cons, not_or] at hty'
          exact (hs₁.blank ty' hty'.2).of_defineType hstart hs₁.later hmem hdefine hty'.1

/-- Every type is defined, at a state in which its struct has no members, after the types that it
depends on. -/
theorem definedBy_of_compileTypes {u : Unit} (hstart : Declared asm start)
    (h : compileTypes asm start = .ok u s') (hty : ty ∈ asm.userTypes) :
    DefinedBy asm start s' ty := by
  simp only [compileTypes, bind_eq_ok_iff, pure_eq_ok_iff] at h
  obtain ⟨after, _, hfold, -, rfl⟩ := h
  have hs : Underway asm start [] start :=
    ⟨Std.Refl.refl _, by simp, fun ty _ hstruct id hid => hstart.blank hid hstruct⟩
  obtain ⟨hdefines, hall⟩ := Defines.fold hs (fun hs h => defineInOrder_defines hstart hs h) hfold
  rcases hall ty hty with hroot | hafter
  · exact .root hroot
  · exact hdefines.ready hs.ready ty hafter

/-- The state in which a type was defined, and that after it. -/
theorem defined_of_compileTypes {u : Unit} (hstart : Declared asm start)
    (h : compileTypes asm start = .ok u s') (hty : ty ∈ asm.userTypes) :
    ∃ t t', Session.Later asm start t ∧ Blank asm start t ty ∧ defineType asm ty t = .ok () t' ∧
      Session.Later asm t' s' := by
  obtain ⟨-, hroot⟩ := mem_userTypes_iff.mp hty
  cases definedBy_of_compileTypes hstart h hty with
  | root hroot' => simp [hroot] at hroot'
  | defined _ _ hbefore _ hblank hdefine hafter => exact ⟨_, _, hbefore, hblank, hdefine, hafter⟩

end Order

end CilSsa.Lowering
