import Mathlib.Data.List.Nodup
import Mathlib.Data.List.TakeWhile
import Mathlib.Tactic.IntervalCases
import CilSsa.Proofs.CompleteTypes

/-!
The members of structs and the numbers of fields.

The number of a field is counted along the layout of its declaring type, and the members of a struct
are made along the layout of that type.  The two agree in every derived type, since the layout of a
base is where that of a derived type begins and no entry of a layout comes twice.  Behind the
members of the layout there are only the bytes that fill a struct up to its declared size.
-/

namespace CilSsa

open Ssa Metadata Lowering

/-- Whether types list the fields that they declare, each once, and no others. -/
def Metadata.Assembly.FieldsListedOnce (asm : Assembly) : Prop :=
  ∀ f fd, asm.field f = .ok fd → ∀ ty d, asm.typeDef ty = .ok d →
    d.fields.count f = if ty = fd.declaringType then 1 else 0

namespace Lowering

variable {asm : Assembly} {ty : TypeDefId} {layout : List StructEntry}

section Entries

/-- The type that an entry of a layout belongs to. -/
inductive OwnedBy (asm : Assembly) : StructEntry → TypeDefId → Prop
  | field {f : FieldId} {fd : FieldDef} : asm.field f = .ok fd →
  OwnedBy asm (.field f) fd.declaringType
  | classVTable {owner : TypeDefId} : OwnedBy asm (.classVTable owner) owner
  | barrier {owner : TypeDefId} : OwnedBy asm (.barrier owner) owner

variable {entry : StructEntry} {owner : TypeDefId}

theorem OwnedBy.unique {owner' : TypeDefId} (h : OwnedBy asm entry owner)
    (h' : OwnedBy asm entry owner') : owner = owner' := by
  cases h with
  | field hfd =>
      cases h' with
      | field hfd' => rw [Except.ok.inj (hfd.symm.trans hfd')]
  | classVTable =>
      cases h'
      rfl
  | barrier =>
      cases h'
      rfl

variable {d : TypeDef} {base : TypeDefId} {own : List StructEntry}

/-- The entries that a type adds belong to it, apart from the pointer to the interface tables, which
is added under a root. -/
theorem ownedBy_of_own (hlisted : asm.FieldsListedOnce) (hd : asm.typeDef ty = .ok d)
    (hown : StructEntry.own asm ty d base = .ok own) (hentry : entry ∈ own) :
    (entry = .indirection ∧ Assembly.isRoot base = true) ∨ OwnedBy asm entry ty := by
  obtain ⟨slots, fields, rfl, -, hfields, hclass, hother⟩ := own_eq_ok hown
  simp only [List.mem_append, List.mem_map, List.mem_singleton] at hentry
  rcases hentry with (hslot | ⟨f, hf, rfl⟩) | rfl
  · by_cases hkind : d.kind = .classType
    · obtain ⟨introduced, -, rfl⟩ := hclass hkind
      rcases List.mem_append.mp hslot with hslot | hslot
      · cases hroot : Assembly.isRoot base <;> simp_all
      · obtain rfl : entry = .classVTable ty := by
          cases introduced <;> simp_all
        exact .inr .classVTable
    · simp [hother hkind] at hslot
  · obtain ⟨hmem, fd, hfd, -⟩ := (hfields f).mp hf
    have hcount := hlisted f fd hfd ty d hd
    have hpos := List.count_pos_iff.mpr hmem
    by_cases heq : ty = fd.declaringType
    · rw [heq]
      exact .inr (.field hfd)
    · rw [if_neg heq] at hcount
      omega
  · exact .inr .barrier

theorem own_nodup (hlisted : asm.FieldsListedOnce) (hd : asm.typeDef ty = .ok d)
    (hown : StructEntry.own asm ty d base = .ok own) : own.Nodup ∧ own ≠ [] := by
  obtain ⟨slots, fields, rfl, hsub, hfields, hclass, hother⟩ := own_eq_ok hown
  have honce : fields.Nodup := by
    refine List.nodup_iff_count_le_one.mpr fun f => ?_
    by_cases hf : f ∈ fields
    · obtain ⟨-, fd, hfd, -⟩ := (hfields f).mp hf
      have hle := hsub.count_le f
      rw [hlisted f fd hfd ty d hd] at hle
      split at hle <;> omega
    · simp [List.count_eq_zero_of_not_mem hf]
  have hslots : slots.Nodup ∧ ∀ entry ∈ slots, entry = .indirection ∨ entry = .classVTable ty := by
    by_cases hkind : d.kind = .classType
    · obtain ⟨introduced, -, rfl⟩ := hclass hkind
      cases Assembly.isRoot base <;> cases introduced <;> simp
    · simp [hother hkind]
  refine ⟨List.nodup_append.mpr ⟨List.nodup_append.mpr ⟨hslots.1, ?_, ?_⟩, by simp, ?_⟩, by simp⟩
  · exact honce.map fun _ _ => StructEntry.field.inj
  · rintro entry hentry entry' hentry' rfl
    obtain ⟨f, -, rfl⟩ := List.mem_map.mp hentry'
    rcases hslots.2 _ hentry with h | h <;> simp at h
  · rintro entry hentry entry' hentry' rfl
    obtain rfl := List.mem_singleton.mp hentry'
    rcases List.mem_append.mp hentry with hentry | hentry
    · rcases hslots.2 _ hentry with h | h <;> simp at h
    · simp at hentry

/-- The layout of a type begins with that of every type that it has an entry of. -/
theorem LayoutOf.of_ownedBy (h : LayoutOf asm ty layout) (hlisted : asm.FieldsListedOnce)
    (hentry : entry ∈ layout) (howner : OwnedBy asm entry owner) :
    ∃ layout', LayoutOf asm owner layout' ∧ layout' <+: layout := by
  induction h with
  | baseless => simp at hentry
  | root => simp at hentry
  | derived hd hbase hroot hinherited hown ih =>
      rcases List.mem_append.mp hentry with hentry | hentry
      · obtain ⟨layout', hlayout', hle⟩ := ih hentry
        exact ⟨layout', hlayout', hle.trans (List.prefix_append _ _)⟩
      · rcases ownedBy_of_own hlisted hd hown hentry with ⟨rfl, -⟩ | howner'
        · cases howner
        · obtain rfl := howner'.unique howner
          exact ⟨_, .derived hd hbase hroot hinherited hown, List.prefix_rfl⟩

/-- No entry of a layout comes twice. -/
theorem LayoutOf.nodup (h : LayoutOf asm ty layout) (hlisted : asm.FieldsListedOnce) :
    layout.Nodup := by
  induction h with
  | baseless => exact List.nodup_nil
  | root => exact List.nodup_nil
  | derived hd hbase hroot hinherited hown ih =>
      obtain ⟨honce, hsome⟩ := own_nodup hlisted hd hown
      refine List.nodup_append.mpr ⟨ih, honce, ?_⟩
      rintro entry hentry entry' hentry' rfl
      rcases ownedBy_of_own hlisted hd hown hentry' with ⟨-, hrootb⟩ | howner
      · simp [hinherited.of_root hrootb] at hentry
      · -- Otherwise the layout of the type would be part of that of its base.
        obtain ⟨layout', hlayout', hle⟩ := hinherited.of_ownedBy hlisted hentry howner
        obtain rfl := hlayout'.unique (.derived hd hbase hroot hinherited hown)
        have hlength := hle.length_le
        rw [List.length_append] at hlength
        have hpos := List.length_pos_iff.mpr hsome
        omega

theorem LayoutOf.of_below_root (h : LayoutOf asm ty layout) {fuel : Nat} {seen : List TypeDefId}
    (hmem : owner ∈ (asm.chainFrom fuel seen (some ty)).types.takeWhile fun ty =>
      !Assembly.isRoot ty) : ∃ layout', LayoutOf asm owner layout' ∧ layout' <+: layout := by
  induction fuel generalizing seen ty layout with
  | zero => simp [Assembly.chainFrom] at hmem
  | succ fuel ih =>
      rw [Assembly.chainFrom] at hmem
      split at hmem
      · simp at hmem
      · cases hd : asm.typeDef ty with
        | error fault => simp [hd] at hmem
        | ok d =>
            simp only [hd, BaseChain.below, List.takeWhile_cons] at hmem
            cases hroot : Assembly.isRoot ty with
            | true => simp [hroot] at hmem
            | false =>
                simp only [hroot, Bool.not_false, if_true, List.mem_cons] at hmem
                rcases hmem with rfl | hmem
                · exact ⟨layout, h, List.prefix_rfl⟩
                · cases hbase : d.base with
                  | none => cases fuel <;> simp [hbase, Assembly.chainFrom] at hmem
                  | some base =>
                      obtain ⟨inherited, own, hinherited, -, rfl⟩ := h.split hd hbase hroot
                      obtain ⟨layout', hlayout', hle⟩ := ih hinherited (hbase ▸ hmem)
                      exact ⟨layout', hlayout', hle.trans (List.prefix_append _ _)⟩

theorem LayoutOf.of_ancestor (h : LayoutOf asm ty layout) {chain : BaseChain}
    (hchain : asm.selfAndAncestors ty = .ok chain)
    (hmem : owner ∈ chain.types.takeWhile fun ty => !Assembly.isRoot ty) :
    ∃ layout', LayoutOf asm owner layout' ∧ layout' <+: layout := by
  obtain ⟨d, hd, htypes⟩ := Assembly.selfAndAncestors_eq_ok hchain
  rw [htypes, List.takeWhile_cons] at hmem
  cases hroot : Assembly.isRoot ty with
  | true => simp [hroot] at hmem
  | false =>
      simp only [hroot, Bool.not_false, if_true, List.mem_cons] at hmem
      rcases hmem with rfl | hmem
      · exact ⟨layout, h, List.prefix_rfl⟩
      · cases hbase : d.base with
        | none => simp [hbase, Assembly.chainFrom] at hmem
        | some base =>
            obtain ⟨inherited, own, hinherited, -, rfl⟩ := h.split hd hbase hroot
            obtain ⟨layout', hlayout', hle⟩ := hinherited.of_below_root (hbase ▸ hmem)
            exact ⟨layout', hlayout', hle.trans (List.prefix_append _ _)⟩

end Entries

section Numbers

open StructEntry

variable {t : Session} {entry : StructEntry} {member : Option TypeId} {entries : List StructEntry}
  {members : List (Option TypeId)} {index : Nat}

def isStored (asm : Assembly) (entry : StructEntry) : Bool := entry.occupiesStorage asm = .ok true

theorem Becomes.occupies (h : Becomes asm t entry member) :
    entry.occupiesStorage asm = .ok member.isSome := by
  cases h with
  | field hd hstatic => simp [occupiesStorage, hd, hstatic]
  | static hd hstatic => simp [occupiesStorage, hd, hstatic]
  | _ => rfl

theorem Becomes.isStored (h : Becomes asm t entry member) : isStored asm entry = member.isSome := by
  rw [Lowering.isStored, h.occupies]
  cases member <;> rfl

/-- The members of a struct are those entries of the layout that take up storage. -/
theorem stored_becomes (hall : List.Forall₂ (Becomes asm t) entries members) :
    List.Forall₂ (fun entry type => Becomes asm t entry (some type)) (entries.filter (isStored asm))
      (members.filterMap id) := by
  induction hall with
  | nil => exact .nil
  | @cons entry member entries members hfirst _ ih =>
      rw [List.filter_cons, hfirst.isStored]
      cases member with
      | none => exact ih
      | some type => exact .cons hfirst ih

/-- The entries that take up storage are numbered one after the other. -/
theorem memberFrom_of_stored (hall : List.Forall₂ (Becomes asm t) entries members)
    (honce : entries.Nodup) {i : Nat} (hi : (entries.filter (isStored asm))[i]? = some entry) :
    memberFrom asm entry index entries = .ok (some (index + i)) := by
  induction hall generalizing index i with
  | nil => simp at hi
  | @cons first member rest members hfirst _ ih =>
      rw [List.nodup_cons] at honce
      rw [List.filter_cons, hfirst.isStored] at hi
      rw [memberFrom, hfirst.occupies, exceptBind_eq_ok_iff]
      refine ⟨_, rfl, ?_⟩
      have hne {j : Nat} (hj : (rest.filter (isStored asm))[j]? = some entry) : first ≠ entry := by
        rintro rfl
        exact honce.1 (List.mem_of_mem_filter (List.mem_of_getElem? hj))
      cases member with
      | none =>
          rw [if_neg (hne hi)]
          exact ih honce.2 hi
      | some type =>
          cases i with
          | zero =>
              obtain rfl : first = entry := by simpa using hi
              simp
          | succ i =>
              rw [Option.isSome_some, if_pos rfl, List.getElem?_cons_succ] at hi
              rw [if_neg (hne hi), Option.isSome_some, if_pos rfl, ih honce.2 hi]
              congr 2
              omega

/-- An entry that takes up storage is a member, with the number that is counted for it. -/
theorem exists_member (hall : List.Forall₂ (Becomes asm t) entries members) (honce : entries.Nodup)
    (hentry : entry ∈ entries) (hstored : entry.occupiesStorage asm = .ok true) :
    ∃ i type, member? asm entries entry = .ok (some i) ∧ (members.filterMap id)[i]? = some type ∧
      Becomes asm t entry (some type) := by
  have hmem : entry ∈ entries.filter (isStored asm) :=
    List.mem_filter.mpr ⟨hentry, by simp [isStored, hstored]⟩
  obtain ⟨i, hi⟩ := List.mem_iff_getElem?.mp hmem
  have hmembers := stored_becomes hall
  have hlt : i < (members.filterMap id).length := by
    rw [← hmembers.length_eq]
    exact (List.getElem?_eq_some_iff.mp hi).1
  have htype := List.getElem?_eq_getElem hlt
  refine ⟨i, _, ?_, htype, ?_⟩
  · rw [member?, memberFrom_of_stored hall honce hi, Nat.zero_add]
  · obtain ⟨hlt', rfl⟩ := List.getElem?_eq_some_iff.mp hi
    exact (List.forall₂_iff_get.mp hmembers).2 i hlt' hlt

theorem exists_member_of_prefix {more : List StructEntry}
    (hall : List.Forall₂ (Becomes asm t) more members) (honce : more.Nodup) (hle : entries <+: more)
    (hentry : entry ∈ entries) (hstored : entry.occupiesStorage asm = .ok true) :
    ∃ i type, member? asm entries entry = .ok (some i) ∧ (members.filterMap id)[i]? = some type ∧
      Becomes asm t entry (some type) := by
  obtain ⟨rest, rfl⟩ := hle
  have hhead : List.Forall₂ (Becomes asm t) entries (members.take entries.length) := by
    simpa using List.forall₂_take entries.length hall
  obtain ⟨i, type, hmember, htype, hbecomes⟩ :=
    exists_member hhead (List.nodup_append.mp honce).1 hentry hstored
  refine ⟨i, type, hmember, ?_, hbecomes⟩
  rw [← List.take_append_drop entries.length members, List.filterMap_append,
    List.getElem?_append_left (List.getElem?_eq_some_iff.mp htype).1]
  exact htype

end Numbers

section Questions

variable {c c' : LayoutCache}

theorem Layouts.structLayout_of_remembered (h : c.entries.lookup ty = some layout) :
    structLayout asm ty c = .ok layout c := by
  simp [structLayout, layoutWith, h]

theorem Layouts.remembered_of_structLayout (h : structLayout asm ty c = .ok layout c') :
    c'.entries.lookup ty = some layout := by
  rcases layoutWith_cases h with ⟨hfound, rfl⟩ | ⟨c₁, -, hentries⟩
  · exact hfound
  · simp [hentries]

theorem Layouts.remembered_mono {fuel : Nat} {ty' : TypeDefId} {layout' : List StructEntry}
    (h : layoutWith asm fuel ty' c = .ok layout' c') (hsome : (c.entries.lookup ty).isSome = true) :
    (c'.entries.lookup ty).isSome = true := by
  induction fuel generalizing ty' layout' c c' with
  | zero => simp [layoutWith] at h
  | succ fuel ih =>
      rcases layoutWith_cases h with ⟨-, rfl⟩ | ⟨c₁, hcompute, hentries⟩
      · exact hsome
      · have hsome₁ : (c₁.entries.lookup ty).isSome = true := by
          rcases compute_cases hcompute with ⟨-, rfl⟩ | ⟨_, _, _, _, -, -, -, hinherited, -, -⟩
          · exact hsome
          · exact ih hinherited hsome
        rw [hentries, List.lookup_cons]
        split
        · rfl
        · exact hsome₁

theorem LayoutCache.Looked.remembered (h : LayoutCache.Looked asm c c') (hc : c.Sound asm)
    (hfound : c.entries.lookup ty = some layout) : c'.entries.lookup ty = some layout := by
  have hsome : (c'.entries.lookup ty).isSome = true := by
    induction h with
    | refl => simp [hfound]
    | tail _ hlast ih =>
        obtain ⟨ty', layout', hlast⟩ := hlast
        exact Layouts.remembered_mono hlast ih
  obtain ⟨layout', hfound'⟩ := Option.isSome_iff_exists.mp hsome
  rw [hfound', (h.sound hc hfound').unique (hc hfound)]

end Questions

section Filling

variable {s s' t : Session} {fields : List (FieldId × TypeId)}

/-- The fields of a layout that take up storage. -/
def storedFields (asm : Assembly) (layout : List StructEntry) : List FieldId :=
  (layout.filter (isStored asm)).filterMap fun
    | .field f => some f
    | _ => none

theorem fieldMembers_spec {entries : List StructEntry} {members : List (Option TypeId)}
    (hall : List.Forall₂ (Becomes asm t) entries members)
    (hfields : fields = (entries.zip members).filterMap fieldMember?) :
    fields.map Prod.fst = storedFields asm entries ∧
      ∀ p ∈ fields, p.2 ∈ members.filterMap id ∧ Becomes asm t (.field p.1) (some p.2) := by
  subst hfields
  induction hall with
  | nil => simp [storedFields]
  | @cons entry member entries members hfirst _ ih =>
      rw [storedFields, List.filter_cons, hfirst.isStored, List.zip_cons_cons]
      cases member with
      | none => cases entry <;> exact ih
      | some type =>
          have hrest : ∀ p ∈ (entries.zip members).filterMap fieldMember?,
              p.2 ∈ (some type :: members).filterMap id ∧ Becomes asm t (.field p.1) (some p.2) :=
            fun p hp => (ih.2 p hp).imp_left (List.mem_cons_of_mem _)
          cases entry with
          | field f =>
              refine ⟨congrArg (f :: ·) ih.1, fun p hp => ?_⟩
              rcases List.mem_cons.mp hp with rfl | hp
              · exact ⟨List.mem_cons_self, hfirst⟩
              · exact hrest p hp
          | classVTable | indirection | barrier => exact ⟨ih.1, hrest⟩

/-- The size that a struct is filled up to.  A struct of one character counts half of it. -/
def fillTarget (asm : Assembly) (declared : Nat) (fields : List FieldId) : Nat :=
  match fields with
  | [f] => if (asm.field f).map FieldDef.sig = .ok .char then declared / 2 else declared
  | _ => declared

theorem sizes_of_mapM {sizes : List Nat}
    (h : (fields.mapM fun p => Lower.build (Build.query (·.sizeOf p.2))) s = .ok sizes s') :
    fields.mapM (fun p => s.module.sizeOf p.2) = .ok sizes := by
  induction fields generalizing s sizes with
  | nil =>
      rw [List.mapM_nil] at h ⊢
      obtain ⟨rfl, -⟩ := pure_eq_ok_iff.mp h
      rfl
  | cons p rest ih =>
      simp only [List.mapM_cons, bind_eq_ok_iff, Lower.build_eq_ok_iff, Build.query_eq_ok_iff,
        pure_eq_ok_iff] at h
      obtain ⟨size, _, ⟨m, ⟨hsize, rfl⟩, rfl⟩, sizes, _, hrest, rfl, rfl⟩ := h
      simp [List.mapM_cons, hsize, ih hrest]

theorem padding_spec {declared count : Nat} (h : padding asm declared fields s = .ok count s') :
    ∃ sizes, fields.mapM (fun p => s.module.sizeOf p.2) = .ok sizes ∧
      count = fillTarget asm declared (fields.map Prod.fst) -
        sizes.sum % Nat.pow 2 Module.sizeBits := by
  have hrest {target : Nat} (h : (do
      let sizes ← fields.mapM fun p => Lower.build (Build.query (·.sizeOf p.2))
      return target - sizes.foldl (· + ·) 0 % Nat.pow 2 Module.sizeBits : Lower Nat) s =
        .ok count s') :
      ∃ sizes, fields.mapM (fun p => s.module.sizeOf p.2) = .ok sizes ∧
        count = target - sizes.sum % Nat.pow 2 Module.sizeBits := by
    simp only [bind_eq_ok_iff, pure_eq_ok_iff] at h
    obtain ⟨sizes, _, hsizes, rfl, -⟩ := h
    exact ⟨sizes, sizes_of_mapM hsizes, by rw [List.sum_eq_foldl]⟩
  unfold padding at h
  split at h
  · rename_i f type
    simp only [bind_eq_ok_iff, Lower.liftM_ask, Lower.ask_eq_ok_iff] at h
    obtain ⟨fd, t, ⟨hfd, hsame⟩, h⟩ := h
    subst t
    have hsig : (asm.field f).map FieldDef.sig = .ok fd.sig := by rw [hfd]; rfl
    simp only [List.map_cons, List.map_nil, fillTarget, hsig, Except.ok.injEq]
    by_cases hchar : fd.sig = .char
    · rw [if_pos hchar] at h ⊢
      exact hrest h
    · rw [if_neg hchar] at h ⊢
      exact hrest h
  · rename_i hmany
    have htarget : fillTarget asm declared (fields.map Prod.fst) = declared := by
      rcases fields with - | ⟨⟨f, type⟩, - | ⟨second, rest⟩⟩
      · rfl
      · exact absurd rfl (hmany f type)
      · rfl
    rw [htarget]
    exact hrest h

end Filling

section Bodies

variable {u u' : Unit} {s s' : Session} {d b : TypeDef} {owner : TypeDefId}

theorem remembered_of_compileTypes (hstart : Declared asm s)
    (hcompile : compileTypes asm s = .ok u s') (hd : asm.typeDef ty = .ok d)
    (hkind : d.kind = .classType ∨ d.kind = .structType) (hroot : Assembly.isRoot ty = false)
    (hlayout : LayoutOf asm ty layout) :
    s'.layouts.entries.lookup ty = some layout := by
  obtain ⟨t, t', hbefore, hblank, hdefine, hafter⟩ :=
    defined_of_compileTypes hstart hcompile (mem_userTypes hd hroot)
  obtain ⟨packed, -, -, hstruct⟩ := defineType_struct hd hkind hdefine
  obtain ⟨run⟩ := nonempty_structRun hstruct
  have hlaid : Session.Later asm { run.tabled with layouts := run.cache } run.membered :=
    (inferInstance : Keeps _ (structMembers asm run.dispatch run.layout)).run run.members
  have hrest : Session.Later asm { run.tabled with layouts := run.cache } s' :=
    IsTrans.trans _ _ _ hlaid (IsTrans.trans _ _ _ run.membered_filled
      (IsTrans.trans _ _ _ run.later_final hafter))
  have hnone : s.layouts.Sound asm := by
    intro ty layout hfound
    simp [hstart.layouts] at hfound
  have hsound : run.tabled.layouts.Sound asm :=
    (IsTrans.trans _ _ _ hbefore run.later_tabled).layouts.sound hnone
  obtain ⟨hlayout', hsound'⟩ := Layouts.structLayout_sound run.laidOut hsound
  rw [hlayout.unique hlayout']
  exact hrest.layouts.remembered hsound' (Layouts.remembered_of_structLayout run.laidOut)

/-- The entries that a type with a base adds are entries of its layout. -/
theorem mem_layout_of_own (hlayout : LayoutOf asm owner layout) (hb : asm.typeDef owner = .ok b)
    (hbase : b.base.isSome = true) (hroot : Assembly.isRoot owner = false) :
    (∀ f ∈ b.fields, ∀ fd, asm.field f = .ok fd → fd.isGenerated = false → .field f ∈ layout) ∧
      (b.kind = .classType → ∀ slots, asm.introducedSlots owner = .ok slots → slots ≠ [] →
        .classVTable owner ∈ layout) := by
  obtain ⟨base, hbase⟩ := Option.isSome_iff_exists.mp hbase
  obtain ⟨inherited, own, -, hown, rfl⟩ := hlayout.split hb hbase hroot
  obtain ⟨slots, fields, rfl, -, hfields, hclass, -⟩ := own_eq_ok hown
  refine ⟨fun f hf fd hfd hgenerated => ?_, fun hkind introduced hintroduced hsome => ?_⟩
  · simp [(hfields f).mpr ⟨hf, fd, hfd, hgenerated⟩]
  · obtain ⟨introduced', hintroduced', rfl⟩ := hclass hkind
    obtain rfl := Except.ok.inj (hintroduced.symm.trans hintroduced')
    simp [hsome]

/-- Whether the fields of a type, and the pointer to the table of its slots, are the members of a
struct that their numbers say. -/
structure NumberedIn (asm : Assembly) (s : Session) (owner : TypeDefId) (b : TypeDef)
    (members : List TypeId) : Prop where
  field : ∀ f ∈ b.fields, ∀ fd, asm.field f = .ok fd → fd.isStatic = false →
      fd.isGenerated = false →
    ∃ i type, Layouts.fieldIndex asm f s.layouts = .ok i s.layouts ∧ members[i]? = some type ∧
      irType asm fd.sig s = .ok type s
  table : b.kind = .classType → ∀ slots, asm.introducedSlots owner = .ok slots → slots ≠ [] →
    ∃ i type pointee, Layouts.classVTableIndex asm owner s.layouts = .ok i s.layouts ∧
      members[i]? = some type ∧ s.module.typeData type = .ok (.pointer pointee)

def FilledUp (asm : Assembly) (s : Session) (layout : List StructEntry) (declared : Nat)
    (fill : List TypeId) : Prop :=
  ∃ (fields : List (FieldId × TypeId)) (sizes : List Nat),
    fields.map Prod.fst = storedFields asm layout ∧
    (∀ p ∈ fields, Becomes asm s (.field p.1) (some p.2)) ∧
    fields.mapM (fun p => s.module.sizeOf p.2) = .ok sizes ∧
    fill.length = fillTarget asm declared (storedFields asm layout) -
      sizes.sum % Nat.pow 2 Module.sizeBits

theorem numberedIn_of_prefix {layout' : List StructEntry} {members : List (Option TypeId)}
    (hall : List.Forall₂ (Becomes asm s) layout members) (hlisted : asm.FieldsListedOnce)
    (honce : layout.Nodup) (hle : layout' <+: layout) (hlayout : LayoutOf asm owner layout')
    (hb : asm.typeDef owner = .ok b) (hbase : b.base.isSome = true)
    (hroot : Assembly.isRoot owner = false)
    (hfound : s.layouts.entries.lookup owner = some layout') :
    NumberedIn asm s owner b (members.filterMap id) := by
  obtain ⟨hfields, htable⟩ := mem_layout_of_own hlayout hb hbase hroot
  have hasked : Layouts.structLayout asm owner s.layouts = .ok layout' s.layouts :=
    Layouts.structLayout_of_remembered hfound
  refine ⟨fun f hf fd hfd hstatic hgenerated => ?_, fun hkind slots hslots hsome => ?_⟩
  · obtain ⟨i, type, hmember, htype, hbecomes⟩ := exists_member_of_prefix hall honce hle
      (hfields f hf fd hfd hgenerated) (by simp [StructEntry.occupiesStorage, hfd, hstatic])
    have howner : owner = fd.declaringType := by
      have hcount := hlisted f fd hfd owner b hb
      have hpos := List.count_pos_iff.mpr hf
      by_contra hne
      rw [if_neg hne] at hcount
      omega
    refine ⟨i, type, ?_, htype, ?_⟩
    · simp only [Layouts.fieldIndex, bind_eq_ok_iff, Layouts.ask_eq_ok_iff]
      exact ⟨fd, _, ⟨hfd, rfl⟩, layout', _, howner ▸ hasked, some i, _, ⟨hmember, rfl⟩, rfl⟩
    · cases hbecomes with
      | field hfd' _ htype' =>
          obtain rfl := Except.ok.inj (hfd.symm.trans hfd')
          exact htype'
  · obtain ⟨i, type, hmember, htype, hbecomes⟩ := exists_member_of_prefix hall honce hle
      (htable hkind slots hslots hsome) rfl
    cases hbecomes with
    | @classVTable _ _ pointee hpointer =>
        refine ⟨i, type, pointee, ?_, htype, Arena.entry_eq_ok_iff.mpr hpointer⟩
        simp only [Layouts.classVTableIndex, bind_eq_ok_iff, Layouts.ask_eq_ok_iff]
        exact ⟨layout', _, hasked, some i, _, ⟨hmember, rfl⟩, rfl⟩

/-- The bytes in a struct, in the end. -/
theorem StructRun.filledUp {start t t' : Session} {packed : Bool} {declared : Nat}
    (run : StructRun asm ty d packed t t') (hstart : Declared asm start)
    (henums : EnumsComplete asm start) (hbefore : Session.Later asm start t)
    (hembedded : EmbeddedComplete asm start t ty) (hlayout : LayoutOf asm ty run.layout)
    (hafter : Session.Later asm t' s') (hdeclared : d.classSize = some declared) :
    FilledUp asm s' run.layout declared run.fill := by
  rcases run.filling with ⟨hnone, -⟩ | ⟨size, count, t₁, byte, m, hsize, hcount, -, hfill, -⟩
  · simp [hdeclared] at hnone
  obtain rfl : size = declared := Option.some.inj (hsize.symm.trans hdeclared)
  obtain ⟨members, hall, hbody, hfields⟩ := structMembers_becomes run.members
  obtain ⟨hnames, hbecomes⟩ := fieldMembers_spec hall hfields
  obtain ⟨sizes, hsizes, rfl⟩ := padding_spec hcount
  have hlater : Session.Later asm run.membered s' :=
    IsTrans.trans _ _ _ run.membered_filled (IsTrans.trans _ _ _ run.later_final hafter)
  have hcomplete := run.complete_body hstart henums hbefore hembedded hlayout
  refine ⟨run.fields, sizes, hnames, fun p hp => (hbecomes p hp).2.mono hlater.toExtends, ?_, ?_⟩
  · rw [exceptMapM_eq_ok_iff, List.forall₂_iff_get] at hsizes ⊢
    refine ⟨hsizes.1, fun i hi hi' => ?_⟩
    have hmem := (hbecomes _ (List.get_mem run.fields ⟨i, hi⟩)).1
    exact (hcomplete _ (hbody ▸ hmem)).sizeOf hlater.module (hsizes.2 i hi hi')
  · rw [hfill, List.length_replicate, hnames]

/-- The struct of a class or struct has the members of the layout, numbered as they stand, and
then bytes.  A field of a type, or the pointer to the table of its slots, has in every derived
type the number that it has in the type itself, up to the first root.  Only structs of declared
size have bytes at the end, as many as their fields leave of that size if no enum has a struct
for its integer. Otherwise a struct can be defined after types that it is embedded in, and
counts for nothing there. -/
theorem members_follow_layout {m : Module} (hdeclare : declareTypes asm { module := m } = .ok u s)
    (hcompile : compileTypes asm s = .ok u' s') (hlisted : asm.FieldsListedOnce)
    (hd : asm.typeDef ty = .ok d) (hkind : d.kind = .classType ∨ d.kind = .structType)
    (hroot : Assembly.isRoot ty = false) :
    ∃ handle members fill packed layout chain,
      s'.registry.type asm ty = .ok handle ∧
      s'.module.structBody? handle = .ok (some (members ++ fill, packed)) ∧
      LayoutOf asm ty layout ∧ asm.selfAndAncestors ty = .ok chain ∧
      List.Forall₂ (fun entry type => Becomes asm s' entry (some type))
        (layout.filter (isStored asm)) members ∧
      (∀ i entry, (layout.filter (isStored asm))[i]? = some entry →
        StructEntry.member? asm layout entry = .ok (some i)) ∧
      (∀ owner ∈ chain.types.takeWhile (fun ty => !Assembly.isRoot ty), ∀ b,
        asm.typeDef owner = .ok b → b.base.isSome = true →
        b.kind = .classType ∨ b.kind = .structType → NumberedIn asm s' owner b members) ∧
      (∀ type ∈ fill, s'.module.typeData type = .ok (.int 8)) ∧
      (d.classSize = none → fill = []) ∧
      ∀ declared, d.classSize = some declared → EnumsPlain asm →
        FilledUp asm s' layout declared fill := by
  have hstart := declared_of_declareTypes hdeclare
  have hready := definedBy_of_compileTypes hstart hcompile (mem_userTypes hd hroot)
  cases hready with
  | root hroot' => simp [hroot] at hroot'
  | @defined t t' _ _ d' types hd' htypes hbefore hneeded hblank hdefine hafter =>
  obtain rfl := Except.ok.inj (hd.symm.trans hd')
  obtain ⟨packed, -, -, hstruct⟩ := defineType_struct hd hkind hdefine
  obtain ⟨run⟩ := nonempty_structRun hstruct
  obtain ⟨hlayout, hhandle, name, htype⟩ := run.outcome hstart hd hkind hroot hbefore hblank hafter
  obtain ⟨members, hall, hbody, -⟩ := structMembers_becomes run.members
  have hfilled : Session.Later asm run.filled s' := IsTrans.trans _ _ _ run.later_final hafter
  have hmembered : Session.Later asm run.membered s' :=
    IsTrans.trans _ _ _ run.membered_filled hfilled
  have hall' : List.Forall₂ (Becomes asm s') run.layout members :=
    hall.imp fun _ _ h => h.mono hmembered.toExtends
  have honce := hlayout.nodup hlisted
  obtain ⟨chain, hchain⟩ : ∃ chain, asm.selfAndAncestors ty = .ok chain := by
    simp [Assembly.selfAndAncestors, Assembly.ancestors, hd, bind, Except.bind, pure, Except.pure]
  refine ⟨run.handle, members.filterMap id, run.fill, packed, run.layout, chain,
    Registry.found_eq_ok_iff.mpr hhandle, ?_, hlayout, hchain, stored_becomes hall',
    ?_, ?_, ?_, ?_, ?_⟩
  · rw [Module.structBody?, Module.typeData, Arena.entry_eq_ok_iff.mpr htype, hbody]
    rfl
  · intro i entry hi
    rw [StructEntry.member?, memberFrom_of_stored hall' honce hi, Nat.zero_add]
  · intro owner howner b hb hbase hkindb
    have hrootb : Assembly.isRoot owner = false := by simpa using List.mem_takeWhile_imp howner
    obtain ⟨layout', hlayout', hle⟩ := hlayout.of_ancestor hchain howner
    exact numberedIn_of_prefix hall' hlisted honce hle hlayout' hb hbase hrootb
      (remembered_of_compileTypes hstart hcompile hb hkindb hrootb hlayout')
  · intro type htype
    exact Arena.entry_eq_ok_iff.mpr (hfilled.module.partsKept (run.fill_byte htype) (by simp))
  · intro hnone
    rcases run.filling with ⟨-, hfill, -⟩ | ⟨size, _, _, _, _, hsome, -⟩
    · exact hfill
    · simp [hnone] at hsome
  · intro declared hdeclared hplain
    have henums := enumsComplete_of_declareTypes hplain hdeclare
    have hembedded := EmbeddedComplete.of_dependencies hd htypes
      fun ty' hty' => (hneeded ty' hty').complete hstart henums
    exact run.filledUp hstart henums hbefore hembedded hlayout hafter hdeclared

/-- A struct of declared size around a smaller one. -/
def crate : Assembly :=
  let roots := Assembly.ofName "crate"
  { roots with
    types := roots.types ++ #[
      { TypeDef.ofKind .structType "" "Crate" with
        base := some Assembly.valueType, fields := [⟨0⟩], classSize := some 16 },
      { TypeDef.ofKind .structType "" "Goods" with
        base := some Assembly.valueType, fields := [⟨1⟩] }]
    fields := #[⟨"goods", ⟨3⟩, .named ⟨4⟩, false⟩, ⟨"count", ⟨4⟩, .i4, false⟩] }

theorem crate_fieldsListedOnce : crate.FieldsListedOnce := by
  intro f fd hfd ty d hd
  have hf := (Array.getElem?_eq_some_iff.mp (Arena.entry_eq_ok_iff.mp hfd)).1
  have hty := (Array.getElem?_eq_some_iff.mp (Arena.entry_eq_ok_iff.mp hd)).1
  obtain ⟨f⟩ := f
  obtain ⟨ty⟩ := ty
  change f < 2 at hf
  change ty < 5 at hty
  interval_cases f <;> cases hfd <;> interval_cases ty <;> cases hd <;> rfl

theorem crate_enumsPlain : EnumsPlain crate := by
  intro ty inner henum
  obtain ⟨d, hd, -⟩ := Assembly.kindOf_eq_ok_iff.mp henum
  have hty := (Array.getElem?_eq_some_iff.mp (Arena.entry_eq_ok_iff.mp hd)).1
  obtain ⟨ty⟩ := ty
  change ty < 5 at hty
  interval_cases ty <;> exact absurd henum (by decide)

def crateDeclared : Session := stateOf (declareTypes crate { module := { name := "module" } })

def crateDefined : Session := stateOf (compileTypes crate crateDeclared)

theorem crate_filled :
    declareTypes crate { module := { name := "module" } } = .ok () crateDeclared ∧
      compileTypes crate crateDeclared = .ok () crateDefined ∧
      ∃ handle members fill packed, crateDefined.registry.type crate ⟨3⟩ = .ok handle ∧
        crateDefined.module.structBody? handle = .ok (some (members ++ fill, packed)) ∧
        (∃ type, Layouts.fieldIndex crate ⟨0⟩ crateDefined.layouts = .ok 0 crateDefined.layouts ∧
          members[0]? = some type ∧
          irType crate (.named ⟨4⟩) crateDefined = .ok type crateDefined) ∧
        fill.length = 12 := by
  have hdeclare : declareTypes crate { module := { name := "module" } } = .ok () crateDeclared :=
    outcome?_eq_some_iff.mp (by decide +kernel)
  have hcompile : compileTypes crate crateDeclared = .ok () crateDefined :=
    outcome?_eq_some_iff.mp (by decide +kernel)
  have hd : crate.typeDef ⟨3⟩ = .ok _ := rfl
  obtain ⟨handle, members, fill, packed, layout, chain, hhandle, hbody, hlayout, hchain, -, -,
    hnumbered, -, -, hfilled⟩ :=
    members_follow_layout hdeclare hcompile crate_fieldsListedOnce hd (.inr rfl) rfl
  have hmem : (⟨3⟩ : TypeDefId) ∈ chain.types.takeWhile fun ty => !Assembly.isRoot ty := by
    cases hchain
    decide
  obtain ⟨i, type, hindex, hmember, htype⟩ :=
    (hnumbered ⟨3⟩ hmem _ hd rfl (.inr rfl)).field ⟨0⟩ (by decide) _ rfl rfl rfl
  have hcount : Layouts.fieldIndex crate ⟨0⟩ crateDefined.layouts = .ok 0 crateDefined.layouts :=
    outcome?_eq_some_iff.mp (by decide +kernel)
  have hgoods : irType crate (.named ⟨4⟩) crateDefined = .ok ⟨1⟩ crateDefined :=
    outcome?_eq_some_iff.mp (by decide +kernel)
  obtain rfl : layout = [.field ⟨0⟩, .barrier ⟨3⟩] :=
    hlayout.unique (.derived hd rfl rfl (.baseless rfl rfl) rfl)
  cases hindex.symm.trans hcount
  refine ⟨hdeclare, hcompile, handle, members, fill, packed, hhandle, hbody,
    ⟨type, hcount, hmember, htype⟩, ?_⟩
  obtain ⟨fields, sizes, hnames, hbecomes, hsizes, hfill⟩ := hfilled 16 rfl crate_enumsPlain
  have hstored : storedFields crate [.field ⟨0⟩, .barrier ⟨3⟩] = [⟨0⟩] := by decide
  rw [hstored] at hnames hfill
  obtain ⟨⟨f, type'⟩, rfl, rfl⟩ := List.map_eq_singleton_iff.mp hnames
  cases hbecomes _ List.mem_cons_self with
  | field hfd _ htype' =>
      cases hfd
      cases htype'.symm.trans hgoods
      have hsize : crateDefined.module.sizeOf ⟨1⟩ = .ok 4 := by decide +kernel
      obtain rfl : [4] = sizes := by simpa [List.mapM_cons, hsize] using hsizes
      exact hfill

/-- The same with the small struct behind an enum. -/
def wrappedCrate : Assembly :=
  { crate with
    types := crate.types.push
      { TypeDef.ofKind .enumType "" "Wrapped" with base := some Assembly.enumType, fields := [⟨2⟩] }
    fields := #[⟨"goods", ⟨3⟩, .named ⟨5⟩, false⟩, ⟨"count", ⟨4⟩, .i4, false⟩,
      ⟨"value__", ⟨5⟩, .named ⟨4⟩, false⟩] }

-- Its size is not known yet, and sixteen bytes are put behind it.
example :
    let s := stateOf (declareTypes wrappedCrate { module := { name := "module" } })
    let s' := stateOf (compileTypes wrappedCrate s)
    s'.registry.type wrappedCrate ⟨3⟩ = .ok ⟨0⟩ ∧
      s'.module.structBody? ⟨0⟩ = .ok (some (⟨1⟩ :: List.replicate 16 ⟨2⟩, false)) := by
  decide +kernel

end Bodies

end Lowering

end CilSsa
