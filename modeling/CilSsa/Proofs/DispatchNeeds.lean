import CilSsa.Proofs.ObjectTables

/-!
Which classes have dispatch tables.

A type gets its dispatch tables when it is defined, and no other definition adds any for it.  So a
class has them if and only if a slot of it or of a base is called or it has interfaces, and there is
a table of interface tables among them in the second case only.
-/

namespace CilSsa.Lowering

open CilSsa.Metadata CilSsa.Ssa

variable {asm : Assembly} {s s' start : Session} {ty cls : TypeDefId} {d : TypeDef} {u : Unit}

section Tables

/-- Whether the dispatch tables are the same. -/
def Session.SameTables (s s' : Session) : Prop := s'.registry.vtables = s.registry.vtables

namespace Session.SameTables

instance : IsPreorder Session Session.SameTables where
  refl _ := rfl
  trans _ _ _ h h' := Eq.trans h' h

instance {α : Type} (x : Build α) : Keeps Session.SameTables (Lower.build x) where
  run h := by
    obtain ⟨m, -, rfl⟩ := Lower.build_eq_ok_iff.mp h
    exact rfl

instance {α : Type} (x : Layouts α) : Keeps Session.SameTables (Lower.layout x) where
  run h := by
    obtain ⟨c, -, rfl⟩ := Lower.layout_eq_ok_iff.mp h
    exact rfl

theorem keeps_register {α : Type} {x : Registering α}
    (hx : ∀ {r a r'}, x r = .ok a r' → r'.vtables = r.vtables) :
    Keeps Session.SameTables (Lower.register x) where
  run h := by
    obtain ⟨r, hregister, rfl⟩ := Lower.register_eq_ok_iff.mp h
    exact hx hregister

instance (name : String) (f : FunctionId) :
    Keeps Session.SameTables (Lower.register (Registering.addFunction name f)) :=
  keeps_register fun h => by
    obtain ⟨-, rfl⟩ := Registering.addFunction_eq_ok h
    rfl

instance (f : FieldId) (g : ValueId) :
    Keeps Session.SameTables (Lower.register (Registering.addStaticField asm f g)) :=
  keeps_register fun h => by
    obtain ⟨-, rfl⟩ := Registering.addStaticField_eq_ok h
    rfl

instance (owner : TypeDefId) (id : TypeId) :
    Keeps Session.SameTables (Lower.register (Registering.addSlotTable asm owner id)) :=
  keeps_register fun h => by
    obtain ⟨-, rfl⟩ := Registering.addSlotTable_eq_ok h
    rfl

instance : Building noAddress Session.SameTables where
  build _ := inferInstance

instance : Listing Session.SameTables where
  build _ := inferInstance

instance : Defining asm Session.SameTables where
  layout _ := inferInstance
  declareFunction m := by
    unfold declareFunction
    refine Keeps.seq inferInstance fun name => Keeps.seq inferInstance fun s => ?_
    split <;> infer_instance
  staticField f := by
    unfold staticField
    refine Keeps.seq inferInstance fun s => ?_
    split <;> infer_instance
  slotTableType := slotTableType_keeps
  constant _ _ _ := inferInstance
  indirectionTable := indirectionTable_keeps inferInstance

end Session.SameTables

/-- The tables of a class are complete: there is a table of interface tables if there are
interfaces, and only then. -/
theorem indirection_of_classVTable {table : VTable} (h : classVTable asm cls s = .ok table s') :
    table.indirection.isSome = !table.interfaces.isEmpty := by
  simp only [classVTable, bind_eq_ok_iff] at h
  obtain ⟨owners, _, -, tables, _, -, ifaces, _, -, interfaces, _, -, h⟩ := h
  split at h
  · rename_i hempty
    obtain ⟨rfl, -⟩ := pure_eq_ok_iff.mp h
    simp [hempty]
  · rename_i hsome
    simp only [bind_eq_ok_iff, map_eq_ok_iff, pure_eq_ok_iff] at h
    obtain ⟨_, _, ⟨g, -, rfl⟩, rfl, -⟩ := h
    simp [hsome]

end Tables

section Needs

/-- From one state to another, tables are added only to classes that need them. -/
structure Session.Sparing (asm : Assembly) (s s' : Session) : Prop where
  later : Session.Later asm s s'
  needs : ∀ {ty : TypeDefId} {table : VTable}, s'.registry.vtables.lookup ty = some table →
    s.registry.vtables.lookup ty = some table ∨
      (asm.kindOf ty = .ok .classType → Dispatches asm s ty)

theorem Dispatches.earlier (h : Dispatches asm s' ty) (hlater : Session.Later asm s s') :
    Dispatches asm s ty := by
  unfold Dispatches at h ⊢
  rwa [hlater.registry.virtualOwners] at h

instance : IsPreorder Session (Session.Sparing asm) where
  refl _ := ⟨Std.Refl.refl _, Or.inl⟩
  trans _ _ _ h h' := by
    refine ⟨IsTrans.trans _ _ _ h.later h'.later, fun hfound => ?_⟩
    rcases h'.needs hfound with hbetween | hneeds
    · exact h.needs hbetween
    · exact .inr fun hkind => (hneeds hkind).earlier h.later

/-- A class whose objects can receive a virtual call has a base that is marked,
or is marked itself. -/
theorem exists_owner_of_needsVirtualCall {r : Registry} (h : r.needsVirtualCall asm ty = .ok true) :
    ∃ chain owner, asm.selfAndAncestors ty = .ok chain ∧ owner ∈ chain.types ∧
      owner ∈ r.virtualOwners := by
  simp only [Registry.needsVirtualCall, exceptBind_eq_ok_iff, exceptPure_eq_ok_iff] at h
  obtain ⟨chain, hchain, hit, hfound, hsome⟩ := h
  simp only [BaseChain.findSome, exceptBind_eq_ok_iff] at hfound
  obtain ⟨found, hsearch, hend⟩ := hfound
  cases found with
  | none =>
      have hnone : hit = none := by
        simp only [BaseChain.atEnd] at hend
        split at hend
        · cases hend
        · exact (Except.ok.inj hend).symm
      simp [hnone] at hsome
  | some t =>
      obtain ⟨owner, hmem, hmarked⟩ := mem_of_exceptFindSomeM? hsearch
      refine ⟨chain, owner, hchain, hmem, ?_⟩
      by_contra hnot
      simp [hnot, exceptPure_eq_ok_iff] at hmarked

/-- A class without calls of its slots and without interfaces requires no tables. -/
theorem dispatches_of_requiresVTable (h : requiresVTable asm ty d s = .ok true s') :
    Dispatches asm s ty := by
  unfold requiresVTable at h
  split at h
  · simp only [bind_eq_ok_iff, get_eq_ok_iff, Lower.liftM_ask, Lower.ask_eq_ok_iff] at h
    obtain ⟨_, _, ⟨rfl, rfl⟩, needs, _, ⟨hcalled, rfl⟩, h⟩ := h
    cases needs with
    | true =>
        exact .inl (exists_owner_of_needsVirtualCall hcalled)
    | false =>
        simp only [Bool.false_eq_true, if_false, bind_eq_ok_iff, Lower.ask_eq_ok_iff,
          pure_eq_ok_iff] at h
        obtain ⟨ifaces, _, ⟨hifaces, rfl⟩, hsome, rfl⟩ := h
        exact .inr ⟨ifaces, hifaces, by simpa using hsome⟩
  · obtain ⟨hfalse, -⟩ := pure_eq_ok_iff.mp h
    exact Bool.noConfusion hfalse

/-- No definition of a type adds tables for a class that needs none. -/
theorem defineType_sparing : Keeps (Session.Sparing asm) (defineType asm ty) where
  run {s u s'} h := by
    have hlater : Session.Later asm s s' := Keeps.run h
    have hadded {t : Session} {r : Registry} {table : VTable} (hsame : Session.SameTables s t)
        (hregister : Registering.addVTable asm ty table t.registry = .ok () r)
        (hneeds : asm.kindOf ty = .ok .classType → Dispatches asm s ty) {ty' : TypeDefId}
        {table' : VTable} (hfound : r.vtables.lookup ty' = some table') :
        s.registry.vtables.lookup ty' = some table' ∨
          (asm.kindOf ty' = .ok .classType → Dispatches asm s ty') := by
      obtain ⟨-, rfl⟩ := Registering.addVTable_eq_ok hregister
      by_cases heq : ty' = ty
      · subst heq
        exact .inr hneeds
      · left
        rw [← hsame]
        simpa [List.lookup_cons, beq_eq_false_iff_ne.mpr heq] using hfound
    obtain ⟨d, hd, hcases⟩ := defineType_cases h
    have hkind : asm.kindOf ty = .ok d.kind := by
      rw [Assembly.kindOf, hd]
      rfl
    rcases hcases with ⟨-, rfl⟩ | ⟨hinterface, table, t, r, htable, hregister, rfl⟩ |
      ⟨-, packed, -, -, hdefine⟩
    · exact Std.Refl.refl _
    · have hsame : Session.SameTables s t := Keeps.run htable
      refine ⟨hlater, hadded hsame hregister fun hclass => ?_⟩
      rw [hkind, hinterface] at hclass
      cases hclass
    · obtain ⟨run⟩ := nonempty_structRun hdefine
      have hasked : Session.SameTables s run.asked := Keeps.run run.requires
      have hfilled : Session.SameTables run.tabled run.filled := run.tabled_filled
      have hrest : s'.registry.vtables = run.filled.registry.vtables :=
        congrArg (·.registry.vtables) run.final
      refine ⟨hlater, fun {ty' table'} hfound => ?_⟩
      rw [hrest, hfilled] at hfound
      rcases run.tables with ⟨-, hsame⟩ | ⟨hdispatch, table, t, r, u, htable, hregister, htabled⟩
      · rw [hsame, hasked] at hfound
        exact .inl hfound
      · have hmade : Session.SameTables run.asked t := Keeps.run htable
        rw [htabled] at hfound
        refine hadded (IsTrans.trans _ _ _ hasked hmade) hregister (fun _ => ?_) hfound
        exact dispatches_of_requiresVTable (hdispatch ▸ run.requires)

theorem compileTypes_sparing : Keeps (Session.Sparing asm) (compileTypes asm) :=
  compileTypes_keeps fun _ _ => defineType_sparing

theorem interfaces_of_requiresVTable (hkind : d.kind = .classType)
    (h : requiresVTable asm ty d s = .ok false s') : asm.allInterfaces ty = .ok [] := by
  simp only [requiresVTable, hkind, if_true, bind_eq_ok_iff, get_eq_ok_iff, Lower.liftM_ask,
    Lower.ask_eq_ok_iff] at h
  obtain ⟨_, _, ⟨rfl, rfl⟩, needs, _, ⟨-, rfl⟩, h⟩ := h
  cases needs with
  | true =>
      obtain ⟨hfalse, -⟩ := pure_eq_ok_iff.mp h
      exact Bool.noConfusion hfalse
  | false =>
      simp only [Bool.false_eq_true, if_false, bind_eq_ok_iff, Lower.ask_eq_ok_iff,
        pure_eq_ok_iff] at h
      obtain ⟨ifaces, _, ⟨hifaces, -⟩, hnone, -⟩ := h
      obtain rfl : ifaces = [] := by simpa using hnone
      exact hifaces

theorem class_has_tables_iff (hstart : Declared asm start) (htidy : start.Tidy asm)
    (hcompile : compileTypes asm start = .ok u s) (hd : asm.typeDef cls = .ok d)
    (hkind : d.kind = .classType) (hroot : Assembly.isRoot cls = false) :
    (∃ table, s.registry.vtables.lookup cls = some table) ↔ Dispatches asm start cls := by
  constructor
  · rintro ⟨table, hfound⟩
    have hnone : start.registry.vtables = [] := hstart.rest.2.2.1
    rcases (compileTypes_sparing.run hcompile).needs hfound with hbefore | hneeds
    · simp [hnone] at hbefore
    · exact hneeds (Assembly.kindOf_eq_ok_iff.mpr ⟨d, hd, hkind⟩)
  · intro hneeds
    obtain ⟨table, hfound, -⟩ := class_tables hstart htidy hcompile hd hkind hroot hneeds
    exact ⟨table, hfound⟩

theorem interfaces_of_no_tables (hstart : Declared asm start)
    (hcompile : compileTypes asm start = .ok u s) (hd : asm.typeDef cls = .ok d)
    (hkind : d.kind = .classType) (hroot : Assembly.isRoot cls = false)
    (hnone : s.registry.vtables.lookup cls = none) : asm.allInterfaces cls = .ok [] := by
  obtain ⟨t, t', -, -, hdefine, hafter⟩ :=
    defined_of_compileTypes hstart hcompile (mem_userTypes hd hroot)
  obtain ⟨packed, -, -, hstruct⟩ := defineType_struct hd (.inl hkind) hdefine
  obtain ⟨run⟩ := nonempty_structRun hstruct
  rcases run.tables with ⟨hdispatch, -⟩ | ⟨-, table, made, r, u', -, hregister, htabled⟩
  · exact interfaces_of_requiresVTable hkind (hdispatch ▸ run.requires)
  · have hrest : Session.Later asm run.tabled s :=
      IsTrans.trans _ _ _ (IsTrans.trans _ _ _ run.tabled_filled run.later_final) hafter
    obtain ⟨-, rfl⟩ := Registering.addVTable_eq_ok hregister
    have hfound : run.tabled.registry.vtables.lookup cls = some table := by
      rw [htabled]
      exact List.lookup_cons_self
    simp [hrest.registry.vtables hfound] at hnone

end Needs

end CilSsa.Lowering
