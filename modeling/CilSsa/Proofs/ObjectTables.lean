import CilSsa.Proofs.NewObjects

/-!
The tables that new objects point to.

Every base that introduces slots has a member of its own in the objects of a class, and this member
has the number that it has in objects of the base.  All these members are pointers and no two of
them are the same, so what is stored to one of them stays there.
-/

namespace CilSsa

open Ssa Metadata Lowering

section Lists

variable {α β : Type} {R : α → β → Prop} {as : List α} {bs : List β}

theorem forall₂_comp {γ : Type} {S : β → γ → Prop} {T : α → γ → Prop} {cs : List γ}
    (hcomp : ∀ {a b c}, R a b → S b c → T a c) (h : List.Forall₂ R as bs)
    (h' : List.Forall₂ S bs cs) : List.Forall₂ T as cs := by
  induction h generalizing cs with
  | nil =>
      cases h'
      exact .nil
  | cons hfirst _ ih =>
      cases h' with
      | cons hfirst' hrest' => exact .cons (hcomp hfirst hfirst') (ih hrest')

/-- Different items are related to things that differ. -/
theorem nodup_of_forall₂ {γ : Type} {key : β → γ} (h : List.Forall₂ R as bs) (hnodup : as.Nodup)
    (hapart : ∀ {a a' b b'}, R a b → R a' b' → key b = key b' → a = a') : (bs.map key).Nodup := by
  induction h with
  | nil => exact List.nodup_nil
  | cons hfirst hrest ih =>
      rw [List.nodup_cons] at hnodup
      refine List.nodup_cons.mpr ⟨fun hmem => ?_, ih hnodup.2⟩
      obtain ⟨b', hb', heq⟩ := List.mem_map.mp hmem
      obtain ⟨a', ha', hrel⟩ := exists_mem_of_forall₂ hrest.flip hb'
      exact hnodup.1 (hapart hrel hfirst heq ▸ ha')

end Lists

namespace Ssa.Module

variable {m : Module} {struct : TypeId} {name : String} {body : List TypeId} {packed : Bool}
  {index offset : Nat}

/-- Whether a member of a struct is a pointer. -/
def PointerAt (m : Module) (body : List TypeId) (index : Nat) : Prop :=
  ∃ id pointee, body[index]? = some id ∧ m.types[id.index]? = some (.pointer pointee)

end Ssa.Module

namespace Lowering

variable {asm : Assembly} {s s' : Session} {ty cls owner : TypeDefId} {index : Nat}

section Members

variable {entry : StructEntry} {entries : List StructEntry} {members : List (Option TypeId)}

/-- An entry that takes up storage is a member where it first stands. -/
theorem memberFrom_of_mem (index : Nat) (hall : List.Forall₂ (Becomes asm s) entries members)
    (hentry : entry ∈ entries) (hstored : entry.occupiesStorage asm = .ok true) :
    ∃ i type, StructEntry.memberFrom asm entry index entries = .ok (some (index + i)) ∧
      (members.filterMap id)[i]? = some type ∧ Becomes asm s entry (some type) := by
  induction hall generalizing index with
  | nil => simp at hentry
  | @cons first member rest members hfirst hrest ih =>
      rw [StructEntry.memberFrom, hfirst.occupies]
      by_cases heq : first = entry
      · subst heq
        rw [hfirst.occupies, Except.ok.injEq, Option.isSome_iff_exists] at hstored
        obtain ⟨type, rfl⟩ := hstored
        exact ⟨0, type, by simp, rfl, hfirst⟩
      · have hmem := (List.mem_cons.mp hentry).resolve_left (Ne.symm heq)
        cases member with
        | none =>
            obtain ⟨i, type, hmember, htype, hbecomes⟩ := ih index hmem
            exact ⟨i, type, by simpa [heq] using hmember, htype, hbecomes⟩
        | some first' =>
            obtain ⟨i, type, hmember, htype, hbecomes⟩ := ih (index + 1) hmem
            refine ⟨i + 1, type, ?_, by simpa using htype, hbecomes⟩
            rw [← Nat.add_assoc, Nat.add_right_comm]
            simpa [heq] using hmember

end Members

section Structs

variable {struct : TypeId} {packed : Bool} {layout : List StructEntry}
  {members : List (Option TypeId)}

/-- The struct of a class and the entries of the layout that its members are made from. -/
structure StructOf (asm : Assembly) (s : Session) (ty : TypeDefId) (struct : TypeId) (packed : Bool)
    (layout : List StructEntry) (members : List (Option TypeId)) : Prop where
  found : s.registry.types.lookup ty = some struct
  body : ∃ name, s.module.types[struct.index]? =
    some (.struct name (some (members.filterMap id)) packed)
  laidOut : LayoutOf asm ty layout
  becomes : List.Forall₂ (Becomes asm s) layout members

theorem StructOf.later (h : StructOf asm s ty struct packed layout members)
    (hlater : Session.Later asm s s') : StructOf asm s' ty struct packed layout members := by
  obtain ⟨name, hbody⟩ := h.body
  refine ⟨hlater.registry.types h.found, ⟨name, hlater.module.partsKept hbody (by simp)⟩,
    h.laidOut, ?_⟩
  exact h.becomes.imp fun _ _ hbecomes => hbecomes.mono hlater.toExtends

theorem LayoutOf.of_mem_chain {chain : BaseChain} {slots : List MethodId}
    (h : LayoutOf asm ty layout) (hrooted : asm.Rooted) (hbehind : asm.NoSlotsBehindRoots)
    (hkind : asm.kindOf ty = .ok .classType) (hroot : Assembly.isRoot ty = false)
    (hchain : asm.selfAndAncestors ty = .ok chain) (hmem : owner ∈ chain.types)
    (howner : Assembly.isRoot owner = false) (hslots : asm.introducedSlots owner = .ok slots)
    (hsome : slots ≠ []) : asm.kindOf owner = .ok .classType ∧
      ∃ layout', LayoutOf asm owner layout' ∧ layout' <+: layout := by
  have hbelow := hbehind.below_of_chain hchain hmem howner hslots hsome
  exact ⟨(hrooted.class_of_below hbelow hkind hroot).1, h.of_below hroot hbelow⟩

theorem LayoutOf.mem_classVTable {slots : List MethodId} (h : LayoutOf asm owner layout)
    (hrooted : asm.Rooted) (hkind : asm.kindOf owner = .ok .classType)
    (hroot : Assembly.isRoot owner = false) (hslots : asm.introducedSlots owner = .ok slots)
    (hsome : slots ≠ []) : .classVTable owner ∈ layout := by
  obtain ⟨d, hd, hclass⟩ := Assembly.kindOf_eq_ok_iff.mp hkind
  obtain ⟨base, hbase, -⟩ := hrooted owner d hd hroot hclass
  exact (mem_layout_of_own h hd (by simp [hbase]) hroot).2 hclass slots hslots hsome

theorem Becomes.pointer {entry : StructEntry} {type : TypeId} (h : Becomes asm s entry (some type))
    (hentry : ∀ f, entry ≠ .field f) :
    ∃ pointee, s.module.types[type.index]? = some (.pointer pointee) := by
  cases h with
  | classVTable htype => exact ⟨_, htype⟩
  | indirection htype => exact ⟨_, htype⟩
  | @field f => exact absurd rfl (hentry f)

/-- A member of the objects of a class that points to the table of a base: it has the number that it
has in the objects of the base. -/
theorem StructOf.table_member {chain : BaseChain} {slots : List MethodId}
    (h : StructOf asm s cls struct packed layout members) (hrooted : asm.Rooted)
    (hbehind : asm.NoSlotsBehindRoots) (hkind : asm.kindOf cls = .ok .classType)
    (hroot : Assembly.isRoot cls = false)
    (hchain : asm.selfAndAncestors cls = .ok chain) (hmem : owner ∈ chain.types)
    (howner : Assembly.isRoot owner = false) (hslots : asm.introducedSlots owner = .ok slots)
    (hsome : slots ≠ []) : ∃ index, TableMember asm owner index ∧
      StructEntry.member? asm layout (.classVTable owner) = .ok (some index) ∧
      s.module.PointerAt (members.filterMap id) index := by
  obtain ⟨hclass, layout', hlayout', hle⟩ :=
    h.laidOut.of_mem_chain hrooted hbehind hkind hroot hchain hmem howner hslots hsome
  have hentry := hlayout'.mem_classVTable hrooted hclass howner hslots hsome
  obtain ⟨rest, rfl⟩ := hle
  have hhead : List.Forall₂ (Becomes asm s) layout' (members.take layout'.length) := by
    simpa using List.forall₂_take layout'.length h.becomes
  obtain ⟨i, type, hmember, htype, hbecomes⟩ := memberFrom_of_mem 0 hhead hentry rfl
  obtain ⟨pointee, hpointer⟩ := hbecomes.pointer (by simp)
  refine ⟨0 + i, ⟨layout', hlayout', hmember⟩, memberFrom_append hmember,
    type, pointee, ?_, hpointer⟩
  rw [Nat.zero_add, ← List.take_append_drop layout'.length members, List.filterMap_append,
    List.getElem?_append_left (List.getElem?_eq_some_iff.mp htype).1]
  exact htype

/-- The first member of the objects of a class points to the interface tables. -/
theorem StructOf.indirection_member (h : StructOf asm s cls struct packed layout members)
    (hrooted : asm.Rooted) (hkind : asm.kindOf cls = .ok .classType)
    (hroot : Assembly.isRoot cls = false) :
    StructEntry.member? asm layout .indirection = .ok (some indirectionMember) ∧
      s.module.PointerAt (members.filterMap id) indirectionMember := by
  obtain ⟨rest, rfl⟩ := h.laidOut.begins hrooted hkind hroot
  have hentry : StructEntry.indirection ∈ StructEntry.indirection :: rest := List.mem_cons_self
  obtain ⟨i, type, hmember, htype, hbecomes⟩ := memberFrom_of_mem 0 h.becomes hentry rfl
  obtain rfl : indirectionMember = i := by
    have hfirst : StructEntry.memberFrom asm .indirection 0 (.indirection :: rest) =
        .ok (some indirectionMember) := by
      simp [StructEntry.memberFrom, StructEntry.occupiesStorage, indirectionMember,
        exceptPure_eq_ok_iff]
    simpa using hfirst.symm.trans hmember
  obtain ⟨pointee, hpointer⟩ := hbecomes.pointer (by simp)
  exact ⟨hmember, type, pointee, htype, hpointer⟩

end Structs

section Stores

variable {struct : TypeId} {table : VTable} {stores stores' : List (Nat × ValueId)}

/-- The stores that fill in the tables of new objects. -/
def StoresOf (asm : Assembly) (table : VTable) (stores : List (Nat × ValueId)) : Prop :=
  ∃ own, List.Forall₂ (fun t store => t.inst = some store.2 ∧ TableMember asm t.owner store.1)
      (table.tables.filter (·.inst.isSome)) own ∧
    stores = own ++ (table.indirection.map fun itable => (indirectionMember, itable)).toList

theorem StoresOf.unique (h : StoresOf asm table stores) (h' : StoresOf asm table stores') :
    stores = stores' := by
  obtain ⟨own, hown, rfl⟩ := h
  obtain ⟨own', hown', rfl⟩ := h'
  have hunique : Relator.RightUnique fun (t : SlotTable) (store : Nat × ValueId) =>
      t.inst = some store.2 ∧ TableMember asm t.owner store.1 := by
    rintro t store store' ⟨hinst, hmember⟩ ⟨hinst', hmember'⟩
    exact Prod.ext (hmember.unique hmember') (Option.some.inj (hinst.symm.trans hinst'))
  rw [List.right_unique_forall₂' hunique hown hown']

/-- What is known of the objects of a class that has tables. -/
structure ObjectsOf (asm : Assembly) (s : Session) (cls : TypeDefId) (struct : TypeId)
    (table : VTable) (stores : List (Nat × ValueId)) : Prop where
  kind : asm.kindOf cls = .ok .classType
  root : Assembly.isRoot cls = false
  struct : ∃ packed layout members, StructOf asm s cls struct packed layout members
  vtable : s.registry.vtables.lookup cls = some table
  tables : ClassTables asm s cls table
  stores : StoresOf asm table stores

theorem ObjectsOf.later (h : ObjectsOf asm s cls struct table stores)
    (hlater : Session.Later asm s s') (hstatics : s.StaticsSound asm) :
    ObjectsOf asm s' cls struct table stores := by
  obtain ⟨packed, layout, members, hstruct⟩ := h.struct
  exact ⟨h.kind, h.root, ⟨packed, layout, members, hstruct.later hlater⟩,
    hlater.registry.vtables h.vtable, h.tables.later hlater hstatics, h.stores⟩

/-- A store of the table of a base. -/
def StoredFor (asm : Assembly) (s : Session) (cls owner : TypeDefId) (store : Nat × ValueId) :
    Prop :=
  TableMember asm owner store.1 ∧
    ∃ slots, asm.introducedSlots owner = .ok slots ∧ TableFor asm s cls slots store.2

theorem ObjectsOf.own_stores (h : ObjectsOf asm s cls struct table stores) : ∃ owners own,
    slotOwners asm cls = .ok owners ∧ List.Forall₂ (StoredFor asm s cls) owners own ∧
      stores = own ++ (table.indirection.map fun itable => (indirectionMember, itable)).toList := by
  obtain ⟨owners, howners, htables⟩ := h.tables.tables
  obtain ⟨own, hown, rfl⟩ := h.stores
  have hall : table.tables.filter (·.inst.isSome) = table.tables := by
    refine List.filter_eq_self.mpr fun t ht => ?_
    obtain ⟨owner, -, hrel⟩ := exists_mem_of_forall₂ htables.flip ht
    obtain ⟨g, hinst, -⟩ := hrel.inst
    simp [hinst]
  rw [hall] at hown
  refine ⟨owners, own, howners, forall₂_comp ?_ htables hown, rfl⟩
  rintro owner t store ⟨rfl, hslots, g, hinst, htable⟩ ⟨hinst', hmember⟩
  obtain rfl := Option.some.inj (hinst.symm.trans hinst')
  exact ⟨hmember, t.slots, hslots, htable⟩

theorem ObjectsOf.apart {packed : Bool} {layout : List StructEntry} {members : List (Option TypeId)}
    (h : ObjectsOf asm s cls struct table stores) (hrooted : asm.Rooted)
    (hbehind : asm.NoSlotsBehindRoots)
    (hstruct : StructOf asm s cls struct packed layout members) :
    (stores.map Prod.fst).Nodup ∧ ∀ store ∈ stores,
      s.module.PointerAt (members.filterMap id) store.1 := by
  obtain ⟨owners, own, howners, hown, rfl⟩ := h.own_stores
  obtain ⟨chain, hchain, hnodup, hiff⟩ := slotOwners_spec howners
  obtain ⟨hindirection, hpointer⟩ := hstruct.indirection_member hrooted h.kind h.root
  have hplace {owner : TypeDefId} {store : Nat × ValueId} (howner : owner ∈ owners)
      (hstore : StoredFor asm s cls owner store) :
      StructEntry.member? asm layout (.classVTable owner) = .ok (some store.1) ∧
        s.module.PointerAt (members.filterMap id) store.1 := by
    obtain ⟨hmem, hroot, slots, hslots, hsome⟩ := (hiff owner).mp howner
    obtain ⟨index, hmember, hplace, hat⟩ :=
      hstruct.table_member hrooted hbehind h.kind h.root hchain hmem hroot hslots hsome
    obtain rfl := hmember.unique hstore.1
    exact ⟨hplace, hat⟩
  have hwithin : List.Forall₂ (fun owner store => owner ∈ owners ∧ StoredFor asm s cls owner store)
      owners own := (List.forall₂_and_left owners own).mpr ⟨fun _ howner => howner, hown⟩
  have hfirst : ∀ store ∈ own, ∃ owner, StructEntry.member? asm layout (.classVTable owner) =
      .ok (some store.1) ∧ s.module.PointerAt (members.filterMap id) store.1 := by
    intro store hstore
    obtain ⟨owner, -, howner, hrel⟩ := exists_mem_of_forall₂ hwithin.flip hstore
    exact ⟨owner, hplace howner hrel⟩
  have hlast {store : Nat × ValueId} (hstore : store ∈
      (table.indirection.map fun itable => (indirectionMember, itable)).toList) :
      store.1 = indirectionMember := by
    obtain ⟨itable, -, rfl⟩ := Option.map_eq_some_iff.mp (Option.mem_toList.mp hstore)
    rfl
  refine ⟨?_, fun store hstore => ?_⟩
  · rw [List.map_append, List.nodup_append]
    refine ⟨nodup_of_forall₂ hwithin hnodup ?_, ?_, ?_⟩
    · rintro owner owner' store store' ⟨howner, hrel⟩ ⟨howner', hrel'⟩ heq
      have hsame := (hplace howner' hrel').1
      rw [← heq] at hsame
      exact StructEntry.classVTable.inj (memberFrom_injective (hplace howner hrel).1 hsame)
    · cases table.indirection <;> simp
    · intro i hi j hj heq
      obtain ⟨store, hstore, rfl⟩ := List.mem_map.mp hi
      obtain ⟨owner, hmember, -⟩ := hfirst store hstore
      obtain ⟨store', hstore', rfl⟩ := List.mem_map.mp hj
      rw [heq, hlast hstore'] at hmember
      exact StructEntry.noConfusion (memberFrom_injective hmember hindirection)
  · rcases List.mem_append.mp hstore with hstore | hstore
    · exact (hfirst store hstore).choose_spec.2
    · exact (hlast hstore).symm ▸ hpointer

theorem exists_objectsOf {start : Session} {d : TypeDef} {u : Unit} (hrooted : asm.Rooted)
    (hbehind : asm.NoSlotsBehindRoots) (hstart : Declared asm start) (htidy : start.Tidy asm)
    (hcompile : compileTypes asm start = .ok u s) (hd : asm.typeDef cls = .ok d)
    (hkind : d.kind = .classType) (hroot : Assembly.isRoot cls = false)
    (hneeds : Dispatches asm start cls) :
    ∃ struct table stores, ObjectsOf asm s cls struct table stores := by
  obtain ⟨table, hvtable, htables⟩ := class_tables hstart htidy hcompile hd hkind hroot hneeds
  obtain ⟨struct, name, packed, layout, members, hfound, hbody, -, hlayout, hbecomes⟩ :=
    class_struct hstart hcompile hd hkind hroot
  have hstruct : StructOf asm s cls struct packed layout members :=
    ⟨hfound, ⟨name, hbody⟩, hlayout, hbecomes⟩
  have hclass : asm.kindOf cls = .ok .classType := Assembly.kindOf_eq_ok_iff.mpr ⟨d, hd, hkind⟩
  obtain ⟨owners, howners, hown⟩ := htables.tables
  obtain ⟨chain, hchain, -, hiff⟩ := slotOwners_spec howners
  have hwithin := (List.forall₂_and_left owners table.tables).mpr ⟨fun _ howner => howner, hown⟩
  obtain ⟨own, hstores⟩ : ∃ own, List.Forall₂ (fun (t : SlotTable) (store : Nat × ValueId) =>
      t.inst = some store.2 ∧ TableMember asm t.owner store.1)
      (table.tables.filter (·.inst.isSome)) own := by
    refine exists_forall₂ fun t ht => ?_
    obtain ⟨owner, -, howner, rfl, -, g, hinst, -⟩ :=
      exists_mem_of_forall₂ hwithin.flip (List.mem_of_mem_filter ht)
    obtain ⟨hmem, hroot', slots, hslots, hsome⟩ := (hiff t.owner).mp howner
    obtain ⟨index, hmember, -⟩ :=
      hstruct.table_member hrooted hbehind hclass hroot hchain hmem hroot' hslots hsome
    exact ⟨(index, g), hinst, hmember⟩
  exact ⟨struct, table, _, hclass, hroot, ⟨packed, layout, members, hstruct⟩, hvtable, htables, own,
    hstores, rfl⟩

set_option synthInstance.maxSize 256 in
/-- The routine of a class makes such objects. -/
theorem ObjectsOf.allocates {f : FunctionId} (h : ObjectsOf asm s cls struct table stores)
    (hlayouts : s.layouts.Sound asm) (hnew : s.registry.hasNewobj cls = false)
    (hrun : newobjFunction asm cls s = .ok f s') : s'.module.Allocates f struct stores := by
  obtain ⟨packed, layout, members, hstruct⟩ := h.struct
  obtain ⟨routine⟩ := ((newobjFunction_cases hrun).resolve_left fun ⟨hfound, _⟩ => by
    simp [hnew] at hfound).2
  have hdeclared : Session.Later asm s routine.declared := Keeps.run routine.declare
  obtain rfl := Option.some.inj
    (hstruct.found.symm.trans (Registry.found_eq_ok_iff.mp routine.struct_eq))
  have hvtable := hdeclared.registry.vtables h.vtable
  have hstores := routine.tables
  rw [if_pos (by simp [Registry.hasVTable, hvtable])] at hstores
  obtain ⟨table', hfound, hrun'⟩ := hstores
  obtain rfl := Option.some.inj (hvtable.symm.trans (Registry.found_eq_ok_iff.mp hfound))
  obtain rfl := StoresOf.unique h.stores (tableStores_spec hrun' (hdeclared.layouts.sound hlayouts))
  exact routine.allocates

end Stores

end Lowering

end CilSsa
