import CilSsa.Proofs.DispatchTables
import CilSsa.Proofs.Stops

/-!
What can stop the definition of types.

Dispatch tables and the members of structs are made of ids that were found or made before, so where
ids lead somewhere only four things can go wrong about the hierarchy: a slot is looked for without
end, nothing fills a slot, a layout is not found, and types that wait for each other.  All other
reasons to stop say nothing about it.
-/

namespace CilSsa.Lowering

open Ssa Metadata

variable {asm : Assembly} {P : Fault → Prop} {F : LoweringError → Prop} {I : Session → Prop}
  {s s' : Session}

section Signatures

variable [CoversMetadata P] [CoversOthers F] [Listing (Session.Sustains I)]

instance (id : TypeDefId) : Stops I P F (namedType asm id) := by
  unfold namedType
  split
  · infer_instance
  · refine Stops.seq inferInstance fun handle => Stops.seq inferInstance fun kind => ?_
    cases kind <;> infer_instance

instance (sig : TypeSig) : Stops I P F (irType asm sig) := by
  induction sig <;>
  · unfold irType
    infer_instance

instance (d : MethodDef) : Stops I P F (functionType asm d) := by
  unfold functionType
  infer_instance

instance (slot : MethodId) : Stops I P F (slotType asm slot) := by
  unfold slotType
  infer_instance

end Signatures

section Declarations

variable [CoversMetadata P] [CoversOthers F]

instance (ty : TypeDefId) (d : TypeDef) : Stops Session.Any P F (declareHandle asm ty d) := by
  unfold declareHandle
  split <;> infer_instance

instance (ty : TypeDefId) : Stops Session.Any P F (declareType asm ty) := by
  unfold declareType
  infer_instance

end Declarations

section Functions

theorem functionType_lt {d : MethodDef} {type : TypeId} (h : functionType asm d s = .ok type s') :
    type.index < s'.module.types.size := by
  simp only [functionType, bind_eq_ok_iff, Lower.liftM_build, Lower.build_eq_ok_iff] at h
  obtain ⟨result, _, -, sigs, _, -, params, _, -, m, hintern, rfl⟩ := h
  exact (Array.getElem?_eq_some_iff.mp (Build.intern_type hintern)).1

variable [CoversMetadata P] [CoversOthers F] [Defining asm (Session.Sustains I)] [Sustaining I P]

instance (m : MethodId) : Stops I P F (declareFunction asm m) := by
  unfold declareFunction
  refine Stops.seq inferInstance fun name => Stops.seq inferInstance fun s => ?_
  split
  · infer_instance
  · refine Stops.seq inferInstance fun d => Stops.seqIn inferInstance fun _ ht htype => ?_
    refine Stops.after ht ?_ fun f => Stops.returning (fun _ => f) inferInstance
    exact stopsIn_ready (x := Build.addFunction name _ _) ht (fun _ => inferInstance) fun hready =>
      Build.addFunction_runs hready.idle _ _ (functionType_lt htype)

instance (f : FieldId) : Stops I P F (staticField asm f) := by
  unfold staticField
  refine Stops.seq inferInstance fun s => ?_
  split
  · infer_instance
  · refine Stops.seq inferInstance fun d => Stops.seq inferInstance fun type =>
      Stops.seq inferInstance fun name => Stops.seq inferInstance fun global => ?_
    exact Stops.returning (fun _ => global) inferInstance

end Functions

section Tables

open Assembly

variable {ty cls owner : TypeDefId} {slots : List MethodId}

theorem slotTableType_registered {id : TypeId} (h : slotTableType asm owner s = .ok id s') :
    s'.registry.slotTable? owner = some id := by
  rcases slotTableType_cases h with ⟨hfound, rfl⟩ | ⟨-, name, slots, members,
    t, m, hmembers, -, rfl⟩
  · exact hfound
  · have hslots : Keeps Session.Extends (slots.mapM (slotType asm)) := inferInstance
    exact (hslots.run hmembers).registry.slotTables (by simp)

theorem stopsIn_constant [Idling I P] [Listing (Session.Sustains I)]
    {question : Except Fault String} [Faults P question] {type : TypeId} {initial : ValueId}
    (hs : I s) (hinitial : initial.index < s.module.values.size) : StopsIn P F (do
      let global ← Build.addGlobal (← question) type
      Build.setInitializer global initial
      return global : Lower ValueId) s := by
  refine StopsIn.seq (.of_stops hs inferInstance) fun name t hname => ?_
  obtain rfl := (Lower.ask_eq_ok_iff.mp hname).2
  refine StopsIn.seq (.of_stops hs inferInstance) fun global u hadd => ?_
  have hu : I u :=
    (inferInstance : Keeps (Session.Sustains I) (Lower.build (Build.addGlobal name type))).run
      hadd hs
  obtain ⟨m, hbuild, rfl⟩ := Lower.build_eq_ok_iff.mp hadd
  obtain ⟨-, _, zero, hglobal⟩ := Build.addGlobal_spec hbuild
  have hgrows : t.module.Evolves Change.Any m :=
    (inferInstance : Keeps (Module.Evolves Change.Any) (Build.addGlobal name type)).run hbuild
  refine StopsIn.seq ?_ fun _ _ _ _ _ h => nomatch h
  refine stopsIn_idle (x := Build.setInitializer global initial) hu (fun _ => inferInstance)
    fun hidle => Build.setInitializer_runs hidle ?_ (Nat.lt_of_lt_of_le hinitial hgrows.values_le)
  exact (Array.getElem?_eq_some_iff.mp hglobal).1

variable [CoversMetadata P] [CoversOthers F] [Defining asm (Session.Sustains I)]
  [hI : Sustaining I P]

instance [SlotsKnown P asm owner] : Stops I P F (slotTableType asm owner) := by
  unfold slotTableType
  refine Stops.seq inferInstance fun s => ?_
  split
  · infer_instance
  · refine Stops.seq inferInstance fun name => Stops.seqIn inferInstance
      fun {s type t} _ ht hnew => ?_
    have hlt : type.index < t.module.types.size := by
      obtain ⟨m, hbuild, rfl⟩ := Lower.build_eq_ok_iff.mp hnew
      cases hbuild
      simp
    refine .of_stops (offers_of_lt (P := P) ht hlt) ?_
    refine Stops.seq inferInstance fun _ => Stops.seq inferInstance fun slots =>
      Stops.seq inferInstance fun members => Stops.returning (fun _ => type) inferInstance

/-- What fills a slot is found among the functions, unless nothing fills it. -/
theorem stops_slotValue {slot : MethodId} [SlotsKnownUp P asm cls]
    (h : asm.implementation cls slot = .ok none → ∀ type name, F (.methodSlotNotFound type name)) :
    Stops I P F (slotValue asm cls slot) := by
  unfold slotValue
  refine Stops.seqIn inferInstance fun {s filler t} _ ht hask => .of_stops ht ?_
  have hfiller := (Lower.ask_eq_ok_iff.mp hask).1
  cases filler with
  | none =>
      refine Stops.seq inferInstance fun type => Stops.seq inferInstance fun d => ?_
      exact stops_fail (h hfiller type d.name)
  | some m =>
      refine Stops.seq inferInstance fun d => ?_
      split
      · infer_instance
      · refine Stops.seqIn inferInstance fun {s f t} _ ht hf => ?_
        obtain ⟨name, -, hregistered⟩ := declareFunction_registered hf
        refine stopsIn_ready (x := Build.functionValue f) ht (fun _ => inferInstance)
          fun hready => ?_
        obtain ⟨function, hfunction, -⟩ := Option.map_eq_some_iff.mp (hready.functions hregistered)
        exact Build.runs_query (Arena.entry_eq_ok_iff.mpr hfunction) ⟨_, _, rfl⟩

omit [CoversMetadata P] [CoversOthers F] in
/-- A constant with the functions of some slots has the registered struct for its type. -/
theorem stopsIn_tableInstance {name : Except Fault String} [Faults P name] {type : TypeId}
    (hs : I s) (htable : s.registry.slotTable? owner = some type)
    (hslots : ∀ slot ∈ slots, Stops I P F (slotValue asm cls slot)) :
    StopsIn P F (tableInstance asm cls name type slots) s := by
  unfold tableInstance
  refine StopsIn.seq (.of_stops hs (Stops.mapM_of hslots)) fun values t hvalues => ?_
  have ht : I t :=
    (inferInstance : Keeps (Session.Sustains I) (slots.mapM (slotValue asm cls))).run hvalues hs
  have hlater : Session.Later asm s t :=
    (inferInstance : Keeps (Session.Later asm) (slots.mapM (slotValue asm cls))).run hvalues
  refine StopsIn.seq ?_ fun initial u hinitial => ?_
  · refine stopsIn_ready (x := Build.constStruct type values) ht (fun _ => inferInstance)
      fun hready => ?_
    exact Build.constStruct_runs hready.idle values
      (hready.tables (hlater.registry.slotTables htable))
  · have hu : I u := (inferInstance : Keeps (Session.Sustains I)
      (Lower.build (Build.constStruct type values))).run hinitial ht
    obtain ⟨m, hbuild, rfl⟩ := Lower.build_eq_ok_iff.mp hinitial
    have hvalue := constStruct_spec hbuild
    exact stopsIn_constant hu (Array.getElem?_eq_some_iff.mp hvalue).1

/-- The table of a type is made unless its slots stop it. -/
theorem stops_classTable [SlotsKnown P asm owner] (h : ∀ slots,
    asm.introducedSlots owner = .ok slots →
    ∀ slot ∈ slots, Stops I P F (slotValue asm cls slot)) : Stops I P F
      (classTable asm cls owner) := by
  unfold classTable
  refine Stops.seqIn inferInstance fun {s type t} _ ht htype => ?_
  have htable := slotTableType_registered htype
  refine StopsIn.seq (.of_stops ht inferInstance) fun slots u hask => ?_
  obtain ⟨hslots, rfl⟩ := Lower.ask_eq_ok_iff.mp hask
  exact Stops.after ht (stopsIn_tableInstance ht htable (h slots hslots)) fun inst => inferInstance

theorem stops_interfaceTable [SlotsKnown P asm owner]
    (h : ∀ slots, asm.introducedSlots owner = .ok slots → ∀ slot ∈ slots,
      Stops I P F (slotValue asm cls slot)) : Stops I P F (interfaceTable asm cls owner) := by
  unfold interfaceTable
  refine Stops.seqIn inferInstance fun {s type t} _ ht htype => ?_
  have htable := slotTableType_registered htype
  refine StopsIn.seq (.of_stops ht inferInstance) fun slots u hask => ?_
  obtain ⟨hslots, rfl⟩ := Lower.ask_eq_ok_iff.mp hask
  exact Stops.after ht (stopsIn_tableInstance ht htable (h slots hslots)) fun inst => inferInstance

omit [CoversMetadata P] [CoversOthers F] [Defining asm (Session.Sustains I)] hI in
instance (pointer : TypeId) (tables : List InterfaceTable) (index : Nat) :
    Stops I P F (Lower.build (indirectionEntry pointer tables index)) := by
  unfold indirectionEntry
  split <;> infer_instance

omit [CoversOthers F] [Defining asm (Session.Sustains I)] in
instance (tables : List InterfaceTable) : Stops I P F (indirectionTable asm cls tables) where
  stops hs := by
    refine .of_stops (I := Session.Idle P) (hI.ready hs |>.imp_right Session.Ready.idle) ?_
    unfold indirectionTable
    refine Stops.seq inferInstance fun pointer => Stops.seq inferInstance fun s =>
      Stops.seq inferInstance fun items => Stops.seq inferInstance fun type =>
      Stops.seqIn inferInstance fun {s initial t} _ ht hinitial => ?_
    obtain ⟨m, hbuild, rfl⟩ := Lower.build_eq_ok_iff.mp hinitial
    refine stopsIn_constant ht ?_
    obtain ⟨type', m₁, -, hpush⟩ := bind_eq_ok_iff.mp hbuild
    cases hpush
    simp

instance [SlotsKnown P asm owner] : Stops I P F (interfaceVTable asm owner) := by
  unfold interfaceVTable
  infer_instance

/-- An error that says that nothing fills a slot, among others. -/
class CoversVacancies (F : LoweringError → Prop) : Prop where
  vacancy : ∀ type name, F (.methodSlotNotFound type name)

variable [hF : CoversVacancies F]

instance (slot : MethodId) [SlotsKnownUp P asm cls] : Stops I P F (slotValue asm cls slot) :=
  stops_slotValue fun _ => hF.vacancy

instance [h : TablesKnown P asm cls] : Stops I P F (classVTable asm cls) := by
  unfold classVTable
  refine Stops.seqIn inferInstance fun {s owners t} _ ht howners => .of_stops ht ?_
  obtain ⟨chain, hchain, -, hiff⟩ := slotOwners_spec (Lower.ask_eq_ok_iff.mp howners).1
  have hleads := leadsUp_selfAndAncestors (P := P) hchain
  refine Stops.seq (Stops.mapM_of fun owner howner => ?_) fun tables => ?_
  · have := h.up owner (hleads.types owner ((hiff owner).mp howner).1)
    exact stops_classTable fun _ _ _ _ => inferInstance
  refine Stops.seqIn inferInstance fun {s ifaces t} _ ht hifaces => .of_stops ht ?_
  refine Stops.seq (Stops.mapM_of fun iface hiface => ?_) fun interfaces => ?_
  · have := h.interfaces ifaces (Lower.ask_eq_ok_iff.mp hifaces).1 iface hiface
    exact stops_interfaceTable fun _ _ _ _ => inferInstance
  · infer_instance

end Tables

section Members

open Assembly

variable [CoversMetadata P] [CoversOthers F] [Defining asm (Session.Sustains I)] [Sustaining I P]
  {ty : TypeDefId} {d : TypeDef}

instance (ty : TypeDefId) (d : TypeDef) : Stops I P F (requiresVTable asm ty d) := by
  unfold requiresVTable
  infer_instance

/-- The members of a layout are made if the tables of its types can be. -/
theorem stops_structMembers {dispatch : Bool} {entries : List StructEntry}
    (h : ∀ owner, .classVTable owner ∈ entries → SlotsKnown P asm owner) :
    Stops I P F (structMembers asm dispatch entries) := by
  induction entries with
  | nil => exact Stops.pure ([], [])
  | cons entry rest ih =>
      have := ih fun owner howner => h owner (List.mem_cons_of_mem _ howner)
      have hmember : Stops I P F (memberType? asm dispatch entry) := by
        cases entry with
        | classVTable owner =>
            have := h owner List.mem_cons_self
            unfold memberType?
            infer_instance
        | _ =>
            unfold memberType?
            infer_instance
      refine Stops.seq hmember fun member => Stops.seq this fun found => ?_
      dsimp only
      cases member with
      | none => infer_instance
      | some type => cases entry <;> infer_instance

end Members

section Definitions

open Assembly

variable {α : Type} {start : Session} {ty : TypeDefId} {d : TypeDef}

/-- Sizes that are found are all found. -/
theorem mapM_sizeOf {fields : List (FieldId × TypeId)}
    (h : ∀ p ∈ fields, ∃ size, s.module.sizeOf p.2 = .ok size) :
    ∃ sizes, (fields.mapM fun p => Lower.build (Build.query (·.sizeOf p.2))) s = .ok sizes s := by
  induction fields with
  | nil => exact ⟨[], rfl⟩
  | cons p rest ih =>
      obtain ⟨⟨size, hsize⟩, hrest⟩ := List.forall_mem_cons.mp h
      obtain ⟨sizes, hsizes⟩ := ih hrest
      refine ⟨size :: sizes, ?_⟩
      simp only [List.mapM_cons, bind_eq_ok_iff, Lower.build_eq_ok_iff, Build.query_eq_ok_iff,
        pure_eq_ok_iff]
      exact ⟨size, s, ⟨s.module, ⟨hsize, rfl⟩, rfl⟩, sizes, s, hsizes, rfl, rfl⟩

theorem stopsIn_padding [CoversMetadata P] {declared : Nat} {fields : List (FieldId × TypeId)}
    (h : ∀ p ∈ fields, ∃ size, s.module.sizeOf p.2 = .ok size) :
    StopsIn P F (padding asm declared fields) s := by
  obtain ⟨sizes, hsizes⟩ := mapM_sizeOf h
  have hrest (target : Nat) : StopsIn P F (do
      let sizes ← fields.mapM fun p => Lower.build (Build.query (·.sizeOf p.2))
      return target - sizes.foldl (· + ·) 0 % Nat.pow 2 Module.sizeBits : Lower Nat) s := by
    refine StopsIn.seq (fun stop t hrun => ?_) fun _ _ _ _ _ h => nomatch h
    cases hsizes.symm.trans hrun
  unfold padding
  split
  · refine StopsIn.seq ((inferInstance : Stops (fun _ => True) P F _).stops trivial)
      fun fd t hask => ?_
    obtain rfl := (Lower.ask_eq_ok_iff.mp hask).2
    split
    · exact hrest _
    · exact hrest _
  · exact hrest _

variable (asm I start ty) in
/-- A state in which a type is about to be defined, after the structs that it embeds. -/
structure Session.Prepared (s : Session) : Prop where
  holds : I s
  later : Session.Later asm start s
  embedded : EmbeddedComplete asm start s ty

instance [hI : Sustaining I P] : Sustaining (Session.Prepared asm I start ty) P :=
  ⟨fun hs => hI.ready hs.holds⟩

instance [hI : Completing asm (Session.Sustains I)] :
    Completing asm (Session.Sustains (Session.Prepared asm I start ty)) := by
  have hlater : Completing asm (Session.Sustains fun s =>
      Session.Later asm start s ∧ EmbeddedComplete asm start s ty) :=
    completing_of (R := Session.Later asm) fun h hs => ⟨IsTrans.trans _ _ _ hs.1 h, hs.2.mono h⟩
  have hparts : Session.Prepared asm I start ty =
      fun s => I s ∧ Session.Later asm start s ∧ EmbeddedComplete asm start s ty :=
    funext fun s => propext ⟨fun hs => ⟨hs.holds, hs.later, hs.embedded⟩,
      fun ⟨h, hbefore, hsizes⟩ => ⟨h, hbefore, hsizes⟩⟩
  exact hparts ▸ completing_and hI hlater

/-- Whether what stops the search for the layout of a type is a fault of one kind or an error of
another. -/
class LaidOut (asm : Assembly) (I : Session → Prop) (P : Fault → Prop) (F : LoweringError → Prop)
    (ty : TypeDefId) : Prop where
  layout : Stops I P F (Lower.layout (Layouts.structLayout asm ty))

/-- What is known of a class or struct that is about to be defined. -/
structure Definable (asm : Assembly) (start : Session) (ty : TypeDefId) (d : TypeDef) : Prop where
  typeDef : asm.typeDef ty = .ok d
  kind : d.kind = .classType ∨ d.kind = .structType
  user : ty ∈ asm.userTypes
  declared : Declared asm start
  enums : EnumsComplete asm start

/-- The struct of a type is still there when it gets its members. -/
theorem stops_setBody [CoversMetadata P] [CoversOthers F] [Sustaining I P] {members : List TypeId}
    {packed : Bool} (h : Definable asm start ty d) : Stops (Session.Prepared asm I start ty) P F (do
      let handle ← Lower.consult (·.type asm ty)
      Build.setStructBody handle members packed : Lower Unit) := by
  refine Stops.seqIn inferInstance fun {s handle t} _ ht hconsult => ?_
  obtain ⟨hfound, rfl⟩ := Lower.consult_eq_ok_iff.mp hconsult
  obtain ⟨id, hid⟩ := h.declared.known ty h.user
  obtain rfl : handle = id :=
    Option.some.inj ((Registry.found_eq_ok_iff.mp hfound).symm.trans (ht.later.registry.types hid))
  obtain ⟨name, _, hblank⟩ := h.declared.blank hid (hasStruct_of_kind h.typeDef h.kind)
  have hlt := (Array.getElem?_eq_some_iff.mp hblank).1
  exact .of_stops (I := Session.Offers P handle)
    (offers_of_lt ht (Nat.lt_of_lt_of_le hlt ht.later.module.types_le)) inferInstance

variable [CoversMetadata P] [CoversOthers F] [hI : Completing asm (Session.Sustains I)]
  [Sustaining I P] [htables : TablesKnown P asm ty] [hlaid : LaidOut asm I P F ty]

/-- A struct gets its members unless it is stopped for such a reason. -/
theorem stops_giveMembers (h : Definable asm start ty d) (packed dispatch : Bool) :
    Stops (Session.Prepared asm I start ty) P F (giveMembers asm ty d packed dispatch) := by
  unfold giveMembers
  have hlayout : Stops (Session.Prepared asm I start ty) P F
      (Lower.layout (Layouts.structLayout asm ty)) := ⟨fun hs => hlaid.layout.stops hs.holds⟩
  refine Stops.seqIn hlayout fun {s layout t} hs ht hlayout => .of_stops ht ?_
  obtain ⟨cache, hlaidOut, -⟩ := Lower.layout_eq_ok_iff.mp hlayout
  have hsound : s.layouts.Sound asm := by
    refine hs.later.layouts.sound fun {ty layout} hfound => ?_
    simp [h.declared.layouts] at hfound
  have hlayout' : LayoutOf asm ty layout := (Layouts.structLayout_sound hlaidOut hsound).1
  have hmembers : Stops (Session.Prepared asm I start ty) P F (structMembers asm dispatch layout) :=
    stops_structMembers fun owner howner => htables.up owner (hlayout'.table_up howner)
  refine Stops.seqIn hmembers fun {s found t} hs ht hbody => ?_
  obtain ⟨body, fields⟩ := found
  dsimp only
  cases hsize : d.classSize with
  | none => exact .of_stops ht (stops_setBody h)
  | some size =>
      obtain ⟨members, hall, -, hfields⟩ := structMembers_becomes hbody
      obtain ⟨hnames, hbecomes⟩ := fieldMembers_spec hall hfields
      have hsizes : ∀ p ∈ fields, ∃ size, t.module.sizeOf p.2 = .ok size := by
        intro p hp
        have hstored : p.1 ∈ storedFields asm layout := hnames ▸ List.mem_map_of_mem hp
        have hentry : .field p.1 ∈ layout := by
          obtain ⟨entry, hentry, hsome⟩ := List.mem_filterMap.mp hstored
          cases entry with
          | field f =>
              obtain rfl := Option.some.inj hsome
              exact List.mem_of_mem_filter hentry
          | _ => cases hsome
        have hcomplete := ht.embedded.member h.declared h.enums ht.later hlayout' hentry
          (hbecomes p hp).2
        obtain ⟨e, he⟩ := hcomplete.grounded.exists_extentOf
        exact ⟨_, exceptBind_eq_ok_iff.mpr ⟨e, he, rfl⟩⟩
      exact Stops.after ht (stopsIn_padding hsizes) fun count => Stops.seq inferInstance fun byte =>
        Stops.seq inferInstance fun fill => stops_setBody h

variable [CoversVacancies F]

/-- A class or struct is defined unless it is stopped for such a reason. -/
theorem stops_defineStruct (h : Definable asm start ty d) (packed : Bool) :
    Stops (Session.Prepared asm I start ty) P F (defineStruct asm ty d packed) := by
  rw [defineStruct_eq]
  refine Stops.seq inferInstance fun dispatch => ?_
  have hmembers : Stops (Session.Prepared asm I start ty) P F
      (giveMembers asm ty d packed dispatch) :=
    stops_giveMembers h packed dispatch
  cases dispatch with
  | false => exact hmembers
  | true => infer_instance

theorem stops_defineType (hstart : Declared asm start) (henums : EnumsComplete asm start)
    (hty : ty ∈ asm.userTypes) :
    Stops (Session.Prepared asm I start ty) P F (defineType asm ty) := by
  unfold defineType
  refine Stops.seqIn inferInstance fun {s d t} _ ht hask => .of_stops ht ?_
  have hd := (Lower.ask_eq_ok_iff.mp hask).1
  cases hpacked : packedOf d with
  | error error =>
      refine stops_fail (CoversOthers.other error ?_)
      unfold packedOf at hpacked
      split at hpacked <;> cases hpacked
      rfl
  | ok packed =>
      dsimp only
      split
      · exact stops_fail (CoversOthers.other _ rfl)
      · cases hkind : d.kind with
        | enumType => infer_instance
        | interfaceType => infer_instance
        | classType | structType =>
            exact stops_defineStruct ⟨hd, by simp [hkind], hty, hstart, henums⟩ packed

end Definitions

section Order

open Assembly

variable {start : Session} {ty needed : TypeDefId} {d : TypeDef} {types : List TypeDefId}

/-- Whether an instance field of a type names a struct. -/
def Contains (asm : Assembly) (ty inner : TypeDefId) : Prop :=
  ∃ d f fd, asm.typeDef ty = .ok d ∧ f ∈ d.fields ∧ asm.field f = .ok fd ∧ fd.isStatic = false ∧
    fd.sig = .named inner ∧ asm.kindOf inner = .ok .structType

/-- Whether a type has to be defined before another one: it is its base, or a struct that an
instance field of it names.  Roots are not defined. -/
def Needs (asm : Assembly) (ty needed : TypeDefId) : Prop :=
  isRoot ty = false ∧ isRoot needed = false ∧ (HasBase asm ty needed ∨ Contains asm ty needed)

theorem exists_of_mem_filterMapM {ε α β : Type} {question : α → Except ε (Option β)}
    {items : List α} {found : List β} {b : β} (h : items.filterMapM question = .ok found)
    (hb : b ∈ found) :
    ∃ a ∈ items, question a = .ok (some b) := by
  induction items generalizing found with
  | nil =>
      cases h
      cases hb
  | cons first rest ih =>
      rw [List.filterMapM_cons, exceptBind_eq_ok_iff] at h
      obtain ⟨answer, hanswer, h⟩ := h
      cases answer with
      | none =>
          obtain ⟨a, ha, hquestion⟩ := ih h hb
          exact ⟨a, List.mem_cons_of_mem _ ha, hquestion⟩
      | some other =>
          simp only [exceptBind_eq_ok_iff, exceptPure_eq_ok_iff] at h
          obtain ⟨others, hothers, rfl⟩ := h
          rcases List.mem_cons.mp hb with rfl | hb
          · exact ⟨first, List.mem_cons_self, hanswer⟩
          · obtain ⟨a, ha, hquestion⟩ := ih hothers hb
            exact ⟨a, List.mem_cons_of_mem _ ha, hquestion⟩

/-- A type depends on its base and on the structs that its instance fields name. -/
theorem mem_dependencies_iff (hd : asm.typeDef ty = .ok d) (h : dependencies asm d = .ok types) :
    needed ∈ types ↔ HasBase asm ty needed ∨ Contains asm ty needed := by
  constructor
  · intro hmem
    simp only [dependencies, exceptBind_eq_ok_iff, exceptPure_eq_ok_iff] at h
    obtain ⟨embedded, hembedded, rfl⟩ := h
    rcases List.mem_append.mp hmem with hbase | hmem
    · exact .inl ⟨d, hd, Option.mem_toList.mp hbase⟩
    · obtain ⟨f, hf, hquestion⟩ := exists_of_mem_filterMapM hembedded hmem
      obtain ⟨fd, hfd, hquestion⟩ := exceptBind_eq_ok_iff.mp hquestion
      split at hquestion
      · rename_i inner hsig
        split at hquestion
        · cases hquestion
        · rename_i hstatic
          simp only [exceptBind_eq_ok_iff, exceptPure_eq_ok_iff] at hquestion
          obtain ⟨kind, hkind, hquestion⟩ := hquestion
          split at hquestion
          · rename_i hstruct
            obtain rfl := Option.some.inj hquestion
            exact .inr ⟨d, f, fd, hd, hf, hfd, Bool.eq_false_iff.mpr hstatic, hsig, hstruct ▸ hkind⟩
          · cases hquestion
      · cases hquestion
  · rintro (⟨d', hd', hbase⟩ | ⟨d', f, fd, hd', hf, hfd, hstatic, hsig, hkind⟩)
    · obtain rfl := Except.ok.inj (hd.symm.trans hd')
      exact (dependencies_spec h).1 needed hbase
    · obtain rfl := Except.ok.inj (hd.symm.trans hd')
      exact (dependencies_spec h).2 f hf fd needed hfd hstatic hsig hkind

variable {visiting done : List TypeDefId} [CoversMetadata P] [CoversOthers F] [CoversVacancies F]
  [hI : Completing asm (Session.Sustains I)] [Sustaining I P]

/-- What must be known of the types that can be defined, and of those that cannot. -/
structure Anticipated (asm : Assembly) (I : Session → Prop) (P : Fault → Prop)
    (F : LoweringError → Prop) : Prop where
  tables : ∀ ty ∈ asm.userTypes, Acc (Inherits asm) ty → TablesKnown P asm ty
  layout : ∀ ty ∈ asm.userTypes, Acc (Inherits asm) ty → LaidOut asm I P F ty
  cycle : ∀ ty, Relation.TransGen (Needs asm) ty ty → ∀ name, F (.cyclicInheritance name)

/-- A type is defined after those that it depends on unless something is the matter that was
anticipated. -/
theorem stopsIn_defineReady (hanticipated : Anticipated asm I P F) (hstart : Declared asm start)
    (henums : EnumsComplete asm start) (hd : asm.typeDef ty = .ok d)
    (htypes : dependencies asm d = .ok types) (hroot : isRoot ty = false)
    (hlater : Session.Later asm start s) (hholds : I s)
    (hneeded : ∀ t ∈ types, DefinedBy asm start s t) : StopsIn P F (defineType asm ty) s := by
  have hty := mem_userTypes hd hroot
  have hacc := acc_of_dependencies hd htypes fun t ht => (hneeded t ht).acc_inherits
  have := hanticipated.tables ty hty hacc
  have := hanticipated.layout ty hty hacc
  have hembedded := EmbeddedComplete.of_dependencies hd htypes
    fun t ht => (hneeded t ht).complete hstart henums
  exact (stops_defineType hstart henums hty).stops ⟨hholds, hlater, hembedded⟩

/-- Types are defined in order unless something is the matter that was anticipated.  The types that
wait for each other are different ones, and each needs the next. -/
theorem stopsIn_defineInOrder (hanticipated : Anticipated asm I P F) (hstart : Declared asm start)
    (henums : EnumsComplete asm start) {fuel : Nat} (hs : Underway asm start done s) (hholds : I s)
    (htrail : Trail TypeDefId.index asm.types.size fuel visiting)
    (hwaits : isRoot ty = false → ∀ t ∈ visiting, Relation.TransGen (Needs asm) t ty) :
    StopsIn P F (defineInOrder asm fuel visiting done ty) s := by
  have := @defineInOrder_keeps asm (Session.Sustains I) _ fun _ _ => inferInstance
  induction fuel generalizing visiting done ty s with
  | zero => exact absurd htrail (Trail.not_zero TypeDefId.index_injective)
  | succ fuel ih =>
      unfold defineInOrder
      split
      · exact .of_stops hholds inferInstance
      rename_i hdone
      simp only [Bool.or_eq_true, decide_eq_true_eq, not_or, Bool.not_eq_true] at hdone
      split
      · rename_i hmem
        refine .of_stops hholds (Stops.seq inferInstance fun name => stops_fail ?_)
        exact hanticipated.cycle ty (hwaits hdone.1 ty hmem) name
      rename_i hnew
      refine StopsIn.seq (.of_stops hholds inferInstance) fun d t hask => ?_
      obtain ⟨hd, rfl⟩ := Lower.ask_eq_ok_iff.mp hask
      have htype := (Array.getElem?_eq_some_iff.mp (Arena.entry_eq_ok_iff.mp hd)).1
      refine StopsIn.seq (.of_stops hholds inferInstance) fun types t' hdependencies => ?_
      obtain ⟨htypes, rfl⟩ := Lower.ask_eq_ok_iff.mp hdependencies
      have hneeds {needed : TypeDefId} (hmem : needed ∈ types) (hroot : isRoot needed = false) :
          Needs asm ty needed := ⟨hdone.1, hroot, (mem_dependencies_iff hd htypes).mp hmem⟩
      have hfold :
          StopsIn P F (types.foldlM (defineInOrder asm fuel (ty :: visiting)) done) t' := by
        refine StopsIn.foldlM (J := fun done t => Underway asm start done t ∧ I t) ⟨hs, hholds⟩
          (fun needed hmem h => ?_) fun h hrun => ?_
        · refine ih h.1 h.2 (htrail.next hnew htype) fun hroot => ?_
          exact List.forall_mem_cons.mpr ⟨.single (hneeds hmem hroot),
            fun t ht => (hwaits hdone.1 t ht).tail (hneeds hmem hroot)⟩
        · exact ⟨h.1.step (defineInOrder_defines hstart h.1 hrun).1,
            (inferInstance : Keeps (Session.Sustains I) _).run hrun h.2⟩
      refine StopsIn.seq hfold fun between t₁ hbetween => ?_
      obtain ⟨hdefines, hall⟩ :=
        Defines.fold hs (fun hs h => defineInOrder_defines hstart hs h) hbetween
      have hs₁ := hs.step hdefines
      have hneeded : ∀ ty' ∈ types, DefinedBy asm start t₁ ty' := fun ty' hty' =>
        (hall ty' hty').elim .root (hs₁.ready ty')
      have hholds₁ : I t₁ := (inferInstance : Keeps (Session.Sustains I)
        (types.foldlM (defineInOrder asm fuel (ty :: visiting)) done)).run hbetween hholds
      exact StopsIn.seq (stopsIn_defineReady hanticipated hstart henums hd htypes hdone.1 hs₁.later
        hholds₁ hneeded) fun _ _ _ _ _ h => nomatch h

/-- All types are defined, unless something is the matter that was anticipated. -/
theorem stopsIn_compileTypes (hanticipated : Anticipated asm I P F) (hstart : Declared asm start)
    (henums : EnumsComplete asm start) (hholds : I start) :
    StopsIn P F (compileTypes asm) start := by
  have hs : Underway asm start [] start :=
    ⟨Std.Refl.refl _, by simp, fun ty _ hstruct id hid => hstart.blank hid hstruct⟩
  have := @defineInOrder_keeps asm (Session.Sustains I) _ fun _ _ => inferInstance
  unfold compileTypes
  refine StopsIn.seq (StopsIn.foldlM (J := fun done t => Underway asm start done t ∧ I t)
    ⟨hs, hholds⟩ (fun ty _ h => ?_) fun h hrun => ?_) fun _ _ _ _ _ h => nomatch h
  · exact stopsIn_defineInOrder hanticipated hstart henums h.1 h.2
      (.start (Nat.lt_succ_self _)) (by simp)
  · exact ⟨h.1.step (defineInOrder_defines hstart h.1 hrun).1,
      (inferInstance : Keeps (Session.Sustains I) _).run hrun h.2⟩

end Order

section Faults

instance : CoversVacancies AnyError := ⟨fun _ _ => trivial⟩

instance [h : CoversIds P] : Sustaining Session.Any P := ⟨fun _ => .inl h⟩

instance : Completing asm (Session.Sustains Session.Any) where
  layout _ := inferInstance
  declareFunction _ := inferInstance
  staticField _ := inferInstance
  slotTableType _ := inferInstance
  constant _ _ _ := inferInstance
  indirectionTable _ _ := inferInstance
  addVTable _ _ := inferInstance
  setStructBody _ _ _ := inferInstance

theorem anticipated_faults [CoversIds P]
    (h : ∀ ty ∈ asm.userTypes, Acc (Inherits asm) ty → TablesKnown P asm ty) :
    Anticipated asm Session.Any P AnyError where
  tables := h
  layout ty hty hacc := by
    have := (h ty hty hacc).toSlotsKnownUp
    refine ⟨⟨fun {s} _ stop s' hrun => ?_⟩⟩
    unfold Lower.layout at hrun
    split at hrun
    · cases hrun
    · rename_i stop c hlayout
      cases hrun
      cases stop with
      | fault fault => exact (inferInstance : Faults P (Layouts.structLayout asm ty)).stop hlayout
      | error error => trivial
  cycle _ _ _ := trivial

end Faults

end CilSsa.Lowering
