import CilSsa.Proofs.LayoutQueries

/-!
The pointer to the interface tables in the layout of a class.

Only a class directly below a root adds the pointer.  So a class has it if the bases lead to such a
class before they come to a root, and then it is the first member of the struct; otherwise the class
has none, whether it implements interfaces or not.
-/

namespace CilSsa.Lowering

open Ssa Metadata Metadata.Assembly

variable {asm : Assembly} {ty base : TypeDefId} {layout : List StructEntry}

section Layouts

/-- Whether the bases of a type, or the type itself, come to a root by way of a class. -/
def HeadedByClass (asm : Assembly) (ty : TypeDefId) : Prop :=
  ∃ head root, Relation.ReflTransGen (Function.swap (Inherits asm)) ty head ∧
    Inherits asm root head ∧ isRoot root = true ∧ asm.kindOf head = .ok .classType

theorem Inherits.unique {base' : TypeDefId} (h : Inherits asm base ty)
    (h' : Inherits asm base' ty) :
    base = base' := by
  obtain ⟨-, d, hd, hbase⟩ := h
  exact Option.some.inj (hbase.symm.trans (h'.base_eq hd).1)

theorem not_headed (hends : ∀ base, ¬ Inherits asm base ty) : ¬ HeadedByClass asm ty := by
  rintro ⟨head, root, hpath, hroot, -⟩
  rcases Relation.ReflTransGen.cases_head hpath with rfl | ⟨next, hnext, -⟩
  · exact hends root hroot
  · exact hends next hnext

/-- Directly below a root the type itself decides. -/
theorem headed_iff_of_root (hbase : Inherits asm base ty) (hroot : isRoot base = true) :
    HeadedByClass asm ty ↔ asm.kindOf ty = .ok .classType := by
  constructor
  · rintro ⟨head, root, hpath, hhead, -, hkind⟩
    rcases Relation.ReflTransGen.cases_head hpath with rfl | ⟨next, hnext, hpath⟩
    · exact hkind
    · obtain rfl := hbase.unique hnext
      rcases Relation.ReflTransGen.cases_head hpath with rfl | ⟨above, habove, -⟩
      · simp [hhead.1] at hroot
      · simp [habove.1] at hroot
  · intro hkind
    exact ⟨ty, base, .refl, hbase, hroot, hkind⟩

/-- Elsewhere the base does. -/
theorem headed_iff_of_base (hbase : Inherits asm base ty) (hroot : isRoot base = false) :
    HeadedByClass asm ty ↔ HeadedByClass asm base := by
  constructor
  · rintro ⟨head, root, hpath, hhead, htop, hkind⟩
    rcases Relation.ReflTransGen.cases_head hpath with rfl | ⟨next, hnext, hpath⟩
    · obtain rfl := hbase.unique hhead
      simp [htop] at hroot
    · obtain rfl := hbase.unique hnext
      exact ⟨head, root, hpath, hhead, htop, hkind⟩
  · rintro ⟨head, root, hpath, hhead⟩
    exact ⟨head, root, .head hbase hpath, hhead⟩

/-- Whether the pointer to the interface tables is the first entry of a layout,
and no other entry. -/
def BeginsWithIndirection (layout : List StructEntry) : Prop :=
  ∃ rest, layout = .indirection :: rest ∧ .indirection ∉ rest

/-- What a type adds to the layout of its base. -/
theorem own_indirection {d : TypeDef} {own : List StructEntry}
    (hown : StructEntry.own asm ty d base = .ok own) :
    if d.kind = .classType ∧ isRoot base = true then BeginsWithIndirection own
    else .indirection ∉ own := by
  obtain ⟨slots, fields, rfl, -, -, hclass, hother⟩ := own_eq_ok hown
  by_cases hkind : d.kind = .classType
  · obtain ⟨introduced, -, rfl⟩ := hclass hkind
    cases hroot : isRoot base with
    | true =>
        rw [if_pos ⟨hkind, rfl⟩]
        refine ⟨_, rfl, ?_⟩
        cases introduced <;> simp
    | false => cases introduced <;> simp
  · rw [if_neg fun h => hkind h.1, hother hkind]
    simp

/-- A layout has the pointer first, or not at all. -/
theorem LayoutOf.indirection (h : LayoutOf asm ty layout) :
    (HeadedByClass asm ty ∧ BeginsWithIndirection layout) ∨
      ¬ HeadedByClass asm ty ∧ .indirection ∉ layout := by
  induction h with
  | baseless hd hnone =>
      refine .inr ⟨not_headed fun base hbase => ?_, by simp⟩
      simp [(hbase.base_eq hd).1] at hnone
  | root hd _ hroot =>
      refine .inr ⟨not_headed fun base hbase => ?_, by simp⟩
      simp [(hbase.base_eq hd).2] at hroot
  | @derived ty base d inherited own hd hb hroot hinherited hown ih =>
      have hbase : Inherits asm base ty := ⟨hroot, d, hd, hb⟩
      have hentries := own_indirection hown
      have hkind : asm.kindOf ty = .ok .classType ↔ d.kind = .classType := by
        rw [kindOf_eq_ok_iff]
        exact ⟨fun ⟨d', hd', hk⟩ => Except.ok.inj (hd.symm.trans hd') ▸ hk, fun hk => ⟨d, hd, hk⟩⟩
      cases htop : isRoot base with
      | true =>
          obtain rfl := hinherited.of_root htop
          rw [headed_iff_of_root hbase htop, hkind]
          by_cases hclass : d.kind = .classType
          · rw [if_pos ⟨hclass, htop⟩] at hentries
            exact .inl ⟨hclass, hentries⟩
          · rw [if_neg fun h => hclass h.1] at hentries
            exact .inr ⟨hclass, hentries⟩
      | false =>
          rw [headed_iff_of_base hbase htop]
          rw [if_neg fun h => by simp [htop] at h] at hentries
          rcases ih with ⟨hheaded, rest, rfl, hrest⟩ | ⟨hheaded, hnone⟩
          · refine .inl ⟨hheaded, rest ++ own, rfl, ?_⟩
            rw [List.mem_append, not_or]
            exact ⟨hrest, hentries⟩
          · refine .inr ⟨hheaded, ?_⟩
            rw [List.mem_append, not_or]
            exact ⟨hnone, hentries⟩

/-- Where the bases of classes lead through classes to a root, all classes have the pointer. -/
theorem headed_of_rooted (hrooted : asm.Rooted) (hkind : asm.kindOf ty = .ok .classType)
    (hroot : isRoot ty = false) (hlayout : LayoutOf asm ty layout) : HeadedByClass asm ty := by
  obtain ⟨rest, rfl⟩ := hlayout.begins hrooted hkind hroot
  rcases hlayout.indirection with ⟨hheaded, -⟩ | ⟨-, hnone⟩
  · exact hheaded
  · exact absurd List.mem_cons_self hnone

end Layouts

section Structs

variable {s s' : Session}

theorem structMembers_begins {dispatch : Bool} {entries : List StructEntry} {body : List TypeId}
    {fields : List (FieldId × TypeId)}
    (h : structMembers asm dispatch (.indirection :: entries) s = .ok (body, fields) s') :
    ∃ generic rest t, Lower.build Build.genericPointer s = .ok generic t ∧
      Session.Later asm t s' ∧ body = generic :: rest := by
  simp only [structMembers, memberType?, bind_eq_ok_iff] at h
  obtain ⟨member, t, hmember, ⟨rest, fields'⟩, t', hrest, h⟩ := h
  obtain ⟨generic, hgeneric, rfl⟩ := map_eq_ok_iff.mp hmember
  obtain ⟨hpair, rfl⟩ := pure_eq_ok_iff.mp h
  have hlater : Session.Later asm t s' :=
    (inferInstance : Keeps _ (structMembers asm dispatch entries)).run hrest
  exact ⟨generic, rest, t, hgeneric, hlater, (Prod.mk.inj hpair).1⟩

/-- A class has the pointer to the interface tables exactly if its bases come to a root by way of a
class, and then it is the first member of the struct and of no other kind than all generic pointers.
The bases of classes that lead through classes to a root come so. -/
theorem indirection_slots {settings : Settings} {report : Report} {name : String} {d : TypeDef}
    (h : compileProgram asm settings { module := { name } } = .ok report s)
    (hd : asm.typeDef ty = .ok d) (hkind : d.kind = .classType) (hroot : isRoot ty = false) :
    ∃ handle struct body packed layout, s.registry.types.lookup ty = some handle ∧
      s.module.types[handle.index]? = some (.struct struct (some body) packed) ∧
      Layouts.structLayout asm ty s.layouts = .ok layout s.layouts ∧
      (HeadedByClass asm ty → BeginsWithIndirection layout ∧
        StructEntry.member? asm layout .indirection = .ok (some indirectionMember) ∧
        ∃ generic, Lower.build Build.genericPointer s = .ok generic s ∧
          body[indirectionMember]? = some generic) ∧
      (¬ HeadedByClass asm ty → .indirection ∉ layout) ∧
      (asm.Rooted → HeadedByClass asm ty) := by
  obtain ⟨declared, defined, hdeclare, hdefine, hlater⟩ := compileProgram_phases h
  have hstart := declared_of_declareTypes hdeclare
  obtain ⟨t, t', hbefore, hblank, hdefineType, hafter⟩ :=
    defined_of_compileTypes hstart hdefine (mem_userTypes hd hroot)
  obtain ⟨packed, -, -, hstruct⟩ := defineType_struct hd (.inl hkind) hdefineType
  obtain ⟨run⟩ := nonempty_structRun hstruct
  have hlast : Session.Later asm t' s := IsTrans.trans _ _ _ hafter hlater
  obtain ⟨hlayout, hhandle, struct, htype⟩ :=
    run.outcome hstart hd (.inl hkind) hroot hbefore hblank hlast
  have hsound : defined.layouts.Sound asm := (programRun h hdeclare hdefine hlater).layouts
  have hremembered := remembered_of_compileTypes hstart hdefine hd (.inl hkind) hroot hlayout
  have hasked : Layouts.structLayout asm ty s.layouts = .ok run.layout s.layouts :=
    Layouts.structLayout_of_remembered (hlater.layouts.remembered hsound hremembered)
  refine ⟨run.handle, struct, run.body ++ run.fill, packed, run.layout, hhandle, htype, hasked,
    fun hheaded => ?_, fun hnone => ?_, fun hrooted => ?_⟩
  · obtain ⟨-, rest, hbegins, hrest⟩ := hlayout.indirection.resolve_right fun h => h.1 hheaded
    have hmembers := run.members
    rw [hbegins] at hmembers
    obtain ⟨generic, others, t₁, hgeneric, hmembered, hbody⟩ := structMembers_begins hmembers
    have hend : Session.Later asm t₁ s :=
      IsTrans.trans _ _ _ hmembered (IsTrans.trans _ _ _ run.membered_filled
        (IsTrans.trans _ _ _ run.later_final hlast))
    refine ⟨⟨rest, hbegins, hrest⟩, ?_, generic, ?_, ?_⟩
    · rw [hbegins]
      rfl
    · exact (inferInstance : Settles Session.Extends (Lower.build Build.genericPointer)).run
        hgeneric
        hend.toExtends
    · rw [hbody]
      rfl
  · exact (hlayout.indirection.resolve_left fun h => hnone h.1).2
  · exact headed_of_rooted hrooted (kindOf_eq_ok_iff.mpr ⟨d, hd, hkind⟩) hroot hlayout

theorem tile_begins : ∃ handle struct body packed layout,
    shapesCompiled.registry.types.lookup ⟨5⟩ = some handle ∧
      shapesCompiled.module.types[handle.index]? = some (.struct struct (some body) packed) ∧
      Layouts.structLayout shapes ⟨5⟩ shapesCompiled.layouts = .ok layout shapesCompiled.layouts ∧
      BeginsWithIndirection layout ∧ ∃ generic,
        Lower.build Build.genericPointer shapesCompiled = .ok generic shapesCompiled ∧
        body[0]? = some generic := by
  have hd : shapes.typeDef ⟨5⟩ = .ok _ := rfl
  obtain ⟨handle, struct, body, packed, layout, hhandle, htype, hlayout, hheaded, -, hrooted⟩ :=
    indirection_slots shapes_compile hd rfl rfl
  obtain ⟨hbegins, -, hmember⟩ := hheaded (hrooted shapes_rooted)
  exact ⟨handle, struct, body, packed, layout, hhandle, htype, hlayout, hbegins, hmember⟩

/-- A class without a base that implements an interface. -/
def stray : Assembly :=
  let roots := Assembly.ofName "stray"
  { roots with
    types := roots.types ++ #[
      { TypeDef.ofKind .interfaceType "" "I" with base := none },
      { TypeDef.ofKind .classType "" "T" with base := none, interfaces := [⟨3⟩] }] }

def strayCompiled : Session := stateOf (compileProgram stray {} { module := { name := "module" } })

/-- It has tables for its interfaces, but its objects have no place for a pointer to them. -/
theorem stray_lacks_slot :
    stray.validate = .ok () ∧
      outcome? (compileProgram stray {} { module := { name := "module" } }) =
        some ({ staticInit := "module_static_init" }, strayCompiled) ∧
      stray.kindOf ⟨4⟩ = .ok .classType ∧ stray.allInterfaces ⟨4⟩ = .ok [⟨3⟩] ∧
      strayCompiled.registry.types.lookup ⟨4⟩ = some ⟨1⟩ ∧
      strayCompiled.module.types[1]? = some (.struct "T" (some []) false) ∧
      answerOf (Layouts.structLayout stray ⟨4⟩ strayCompiled.layouts) = .ok [] := by
  decide +kernel

end Structs

end CilSsa.Lowering
