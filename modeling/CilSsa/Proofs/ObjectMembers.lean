import CilSsa.Proofs.Faults
import CilSsa.Proofs.ObjectLayouts

/-!
The members of an object that point to dispatch tables.

The layout of a class begins with that of its base, and where all bases are classes it begins with
the pointer to the interface tables.  So the table of the slots that a type introduces is the same
member of every derived object, and no two tables share one.
-/

namespace CilSsa

open Metadata Lowering

namespace Metadata.Assembly

variable {asm : Assembly}

/-- Whether the bases of classes lead through classes to a root: the base of a class is a root or a
class. -/
def Rooted (asm : Assembly) : Prop :=
  ∀ ty d, asm.typeDef ty = .ok d → isRoot ty = false → d.kind = .classType →
    ∃ base, d.base = some base ∧ (isRoot base = true ∨ asm.kindOf base = .ok .classType)

def NoSlotsBehindRoots (asm : Assembly) : Prop :=
  ∀ root owner slots, isRoot root = true → Relation.ReflTransGen asm.HasBase root owner →
    isRoot owner = false → asm.introducedSlots owner = .ok slots → slots = []

/-- A base of a class that is reached without passing a root. -/
def BelowRoots (asm : Assembly) (ty base : TypeDefId) : Prop :=
  asm.HasBase ty base ∧ isRoot base = false

theorem kindOf_eq_ok_iff {ty : TypeDefId} {kind : TypeKind} :
    asm.kindOf ty = .ok kind ↔ ∃ d, asm.typeDef ty = .ok d ∧ d.kind = kind := by
  rw [kindOf]
  cases asm.typeDef ty <;> simp [Functor.map, Except.map]

/-- A chain has no type twice, and none of those seen before. -/
theorem chainFrom_nodup {fuel : Nat} {seen : List TypeDefId} {next : Option TypeDefId} :
    (asm.chainFrom fuel seen next).types.Nodup ∧
      ∀ ty ∈ (asm.chainFrom fuel seen next).types, ty ∉ seen := by
  induction fuel generalizing seen next with
  | zero => simp [chainFrom]
  | succ fuel ih =>
      cases next with
      | none => simp [chainFrom]
      | some ty =>
          rw [chainFrom]
          split
          · simp
          · rename_i hnew
            cases hd : asm.typeDef ty with
            | error fault => simp
            | ok d =>
                obtain ⟨hnodup, hunseen⟩ := @ih (ty :: seen) d.base
                simp only [BaseChain.below, List.nodup_cons, List.mem_cons]
                refine ⟨⟨fun hmem => hunseen ty hmem List.mem_cons_self, hnodup⟩, ?_⟩
                rintro ty' (rfl | hmem)
                · exact hnew
                · exact fun hseen => hunseen ty' hmem (List.mem_cons_of_mem _ hseen)

/-- A run over the types decides whether the bases of classes lead to a root. -/
theorem rooted_of_forall (h : ∀ i < asm.types.size, ∀ d ∈ asm.types[i]?, isRoot ⟨i⟩ = false →
    d.kind = .classType →
      ∃ base ∈ d.base, isRoot base = true ∨ asm.kindOf base = .ok .classType) : asm.Rooted :=
  fun _ _ => forall_typeDef (P := fun ty d => isRoot ty = false → d.kind = .classType →
    ∃ base ∈ d.base, isRoot base = true ∨ asm.kindOf base = .ok .classType) h

/-- Where a rank falls from every type to its base, no type is above itself. -/
theorem acyclic_of_rank (rank : TypeDefId → Nat) (h : ∀ i < asm.types.size, ∀ d ∈ asm.types[i]?,
    ∀ base ∈ d.base, rank base < rank ⟨i⟩) (ty : TypeDefId) :
    ¬ Relation.TransGen asm.HasBase ty ty := by
  have hstep {ty base : TypeDefId} (hbase : asm.HasBase ty base) : rank base < rank ty := by
    obtain ⟨d, hd, hbase⟩ := hbase
    exact forall_typeDef (P := fun ty d => ∀ base ∈ d.base, rank base < rank ty) h hd base hbase
  have hpath {ty top : TypeDefId} (habove : Relation.TransGen asm.HasBase ty top) :
      rank top < rank ty := by
    induction habove with
    | single hbase => exact hstep hbase
    | tail _ hbase ih => exact Nat.lt_trans (hstep hbase) ih
  exact fun habove => Nat.lt_irrefl _ (hpath habove)

theorem noSlotsBehindRoots_of_roots
    (h : ∀ root base, isRoot root = true → asm.HasBase root base → isRoot base = true) :
    asm.NoSlotsBehindRoots := by
  intro root owner slots hroot habove howner
  have hroots : isRoot owner = true := by
    clear howner
    induction habove with
    | refl => exact hroot
    | tail _ hbase ih => exact h _ _ ih hbase
  exact absurd howner (by simp [hroots])

/-- The bases of a class up to the first root are classes. -/
theorem Rooted.class_of_below (h : asm.Rooted) {ty owner : TypeDefId}
    (hbelow : Relation.ReflTransGen asm.BelowRoots ty owner)
    (hkind : asm.kindOf ty = .ok .classType) (hroot : isRoot ty = false) :
    asm.kindOf owner = .ok .classType ∧ isRoot owner = false := by
  induction hbelow with
  | refl => exact ⟨hkind, hroot⟩
  | tail _ hbase ih =>
      obtain ⟨⟨d, hd, hbase⟩, htop⟩ := hbase
      obtain ⟨d', hd', hclass⟩ := kindOf_eq_ok_iff.mp ih.1
      obtain rfl := Except.ok.inj (hd.symm.trans hd')
      obtain ⟨base', hbase', hcase⟩ := h _ d hd ih.2 hclass
      obtain rfl := Option.some.inj (hbase.symm.trans hbase')
      exact ⟨hcase.resolve_left (by simp [htop]), htop⟩

theorem selfAndAncestors_eq_ok {ty : TypeDefId} {chain : BaseChain}
    (h : asm.selfAndAncestors ty = .ok chain) : ∃ d, asm.typeDef ty = .ok d ∧
      chain.types = ty :: (asm.chainFrom (asm.types.size + 1) [ty] d.base).types := by
  simp only [selfAndAncestors, ancestors, exceptBind_eq_ok_iff, exceptPure_eq_ok_iff] at h
  obtain ⟨_, ⟨d, hd, rfl⟩, rfl⟩ := h
  exact ⟨d, hd, rfl⟩

/-- The types of a chain are reached without passing a root, or lie behind one. -/
theorem chain_cases {ty owner : TypeDefId} {chain : BaseChain}
    (hchain : asm.selfAndAncestors ty = .ok chain) (hmem : owner ∈ chain.types) :
    Relation.ReflTransGen asm.BelowRoots ty owner ∨
      ∃ root, isRoot root = true ∧ Relation.ReflTransGen asm.HasBase root owner := by
  have habove := (leadsUp_selfAndAncestors (P := Fault.OfMetadata) hchain).types owner hmem
  clear hmem hchain
  induction habove using Relation.ReflTransGen.head_induction_on with
  | refl => exact .inl .refl
  | @head ty base hbase hrest ih =>
      cases hroot : isRoot base with
      | true => exact .inr ⟨base, hroot, hrest⟩
      | false => exact ih.imp_left (.head ⟨hbase, hroot⟩)

/-- A type of the chain of a class that introduces slots is reached without passing a root. -/
theorem NoSlotsBehindRoots.below_of_chain (h : asm.NoSlotsBehindRoots) {ty owner : TypeDefId}
    {chain : BaseChain} {slots : List MethodId} (hchain : asm.selfAndAncestors ty = .ok chain)
    (hmem : owner ∈ chain.types) (howner : isRoot owner = false)
    (hslots : asm.introducedSlots owner = .ok slots) (hsome : slots ≠ []) :
    Relation.ReflTransGen asm.BelowRoots ty owner := by
  refine (chain_cases hchain hmem).resolve_right ?_
  rintro ⟨root, hroot, habove⟩
  exact hsome (h root owner slots hroot habove howner hslots)

theorem selfAndAncestors_nodup {ty : TypeDefId} {chain : BaseChain}
    (h : asm.selfAndAncestors ty = .ok chain) : chain.types.Nodup := by
  obtain ⟨d, -, htypes⟩ := selfAndAncestors_eq_ok h
  obtain ⟨hnodup, hunseen⟩ := @chainFrom_nodup asm (asm.types.size + 1) [ty] d.base
  rw [htypes, List.nodup_cons]
  exact ⟨fun hmem => hunseen ty hmem List.mem_cons_self, hnodup⟩

end Metadata.Assembly

namespace Lowering

variable {asm : Assembly} {ty : TypeDefId} {layout : List StructEntry}

section Layouts

theorem LayoutOf.of_root (h : LayoutOf asm ty layout) (hroot : Assembly.isRoot ty = true) :
    layout = [] := by
  cases h with
  | baseless => rfl
  | root => rfl
  | derived _ _ hroot' => simp [hroot] at hroot'

/-- What a type adds to the layout of its base: pointers to tables if it is a class, the fields that
are not generated, and a barrier. -/
theorem own_eq_ok {d : TypeDef} {base : TypeDefId} {own : List StructEntry}
    (h : StructEntry.own asm ty d base = .ok own) :
    ∃ (slots : List StructEntry) (fields : List FieldId), own = slots ++
      fields.map StructEntry.field ++ [StructEntry.barrier ty] ∧
      fields.Sublist d.fields ∧
      (∀ f, f ∈ fields ↔ f ∈ d.fields ∧ ∃ fd, asm.field f = .ok fd ∧ fd.isGenerated = false) ∧
      (d.kind = .classType → ∃ introduced : List MethodId, asm.introducedSlots ty = .ok introduced ∧
        slots = (if Assembly.isRoot base then [StructEntry.indirection] else []) ++
          (if introduced.isEmpty then [] else [StructEntry.classVTable ty])) ∧
      (d.kind ≠ .classType → slots = []) := by
  have hkept (f : FieldId) : f ∈ d.fields.filter (fun f =>
      (do return !(← asm.field f).isGenerated : Except Fault Bool) = .ok true) ↔
      f ∈ d.fields ∧ ∃ fd, asm.field f = .ok fd ∧ fd.isGenerated = false := by
    simp only [List.mem_filter, decide_eq_true_eq, exceptBind_eq_ok_iff, exceptPure_eq_ok_iff,
      Bool.true_eq, Bool.not_eq_true']
  by_cases hkind : d.kind = .classType
  · simp only [StructEntry.own, if_pos hkind, exceptBind_eq_ok_iff, exceptPure_eq_ok_iff] at h
    obtain ⟨introduced, hintroduced, slots, rfl, fields, hfields, rfl⟩ := h
    obtain rfl := (exceptFilterM_eq_ok_iff.mp hfields).2
    exact ⟨_, _, rfl, List.filter_sublist, hkept, fun _ => ⟨introduced, hintroduced, rfl⟩,
      fun h => absurd hkind h⟩
  · simp only [StructEntry.own, if_neg hkind, exceptBind_eq_ok_iff, exceptPure_eq_ok_iff] at h
    obtain ⟨slots, rfl, fields, hfields, rfl⟩ := h
    obtain rfl := (exceptFilterM_eq_ok_iff.mp hfields).2
    exact ⟨_, _, rfl, List.filter_sublist, hkept, fun h => absurd h hkind, fun _ => rfl⟩

theorem own_of_root {d : TypeDef} {base : TypeDefId} {own : List StructEntry}
    (hkind : d.kind = .classType) (hroot : Assembly.isRoot base = true)
    (h : StructEntry.own asm ty d base = .ok own) : ∃ rest, own = .indirection :: rest := by
  obtain ⟨slots, fields, rfl, -, -, hslots, -⟩ := own_eq_ok h
  obtain ⟨introduced, -, rfl⟩ := hslots hkind
  rw [if_pos hroot]
  exact ⟨_, rfl⟩

/-- The objects of a class begin with the pointer to the interface tables. -/
theorem LayoutOf.begins (h : LayoutOf asm ty layout) (hrooted : asm.Rooted)
    (hkind : asm.kindOf ty = .ok .classType) (hroot : Assembly.isRoot ty = false) :
    ∃ rest, layout = .indirection :: rest := by
  induction h with
  | @baseless ty d hd hnone =>
      obtain ⟨d', hd', hkind⟩ := Assembly.kindOf_eq_ok_iff.mp hkind
      obtain rfl := Except.ok.inj (hd.symm.trans hd')
      obtain ⟨base, hbase, -⟩ := hrooted ty d hd hroot hkind
      simp [hnone] at hbase
  | root _ _ hroot' => simp [hroot] at hroot'
  | @derived ty base d inherited own hd hbase _ hinherited hown ih =>
      obtain ⟨d', hd', hkind⟩ := Assembly.kindOf_eq_ok_iff.mp hkind
      obtain rfl := Except.ok.inj (hd.symm.trans hd')
      obtain ⟨base', hbase', hcase⟩ := hrooted ty d hd hroot hkind
      obtain rfl := Option.some.inj (hbase.symm.trans hbase')
      cases hrootb : Assembly.isRoot base with
      | true =>
          obtain rfl := hinherited.of_root hrootb
          exact own_of_root hkind hrootb hown
      | false =>
          obtain ⟨rest, rfl⟩ := ih (hcase.resolve_left (by simp [hrootb])) hrootb
          exact ⟨rest ++ own, rfl⟩

/-- The layout of a type begins with that of every base up to the first root. -/
theorem LayoutOf.of_below {owner : TypeDefId} (h : LayoutOf asm ty layout)
    (hroot : Assembly.isRoot ty = false) (hbelow : Relation.ReflTransGen asm.BelowRoots ty owner) :
    ∃ layout', LayoutOf asm owner layout' ∧ layout' <+: layout := by
  induction hbelow using Relation.ReflTransGen.head_induction_on generalizing layout with
  | refl => exact ⟨layout, h, List.prefix_rfl⟩
  | @head ty base hbase _ ih =>
      obtain ⟨⟨d, hd, hbase⟩, htop⟩ := hbase
      obtain ⟨inherited, own, hinherited, -, rfl⟩ := h.split hd hbase hroot
      obtain ⟨layout', hlayout', hle⟩ := ih hinherited htop
      exact ⟨layout', hlayout', hle.trans (List.prefix_append _ _)⟩

end Layouts

section Members

open StructEntry

variable {wanted wanted' : StructEntry} {entries : List StructEntry} {index member : Nat}

theorem le_memberFrom (h : memberFrom asm wanted index entries = .ok (some member)) :
    index ≤ member := by
  induction entries generalizing index with
  | nil => simp [memberFrom] at h
  | cons entry rest ih =>
      simp only [memberFrom, exceptBind_eq_ok_iff] at h
      obtain ⟨occupies, -, h⟩ := h
      split at h
      · cases occupies <;> simp_all
      · have hle := ih h
        split at hle <;> omega

/-- More entries behind a member do not move it. -/
theorem memberFrom_append {more : List StructEntry}
    (h : memberFrom asm wanted index entries = .ok (some member)) :
    memberFrom asm wanted index (entries ++ more) = .ok (some member) := by
  induction entries generalizing index with
  | nil => simp [memberFrom] at h
  | cons entry rest ih =>
      simp only [memberFrom, exceptBind_eq_ok_iff, List.cons_append] at h ⊢
      obtain ⟨occupies, hoccupies, h⟩ := h
      refine ⟨occupies, hoccupies, ?_⟩
      split
      · rename_i heq
        rw [if_pos heq] at h
        exact h
      · rename_i hne
        rw [if_neg hne] at h
        exact ih h

/-- Different entries are different members. -/
theorem memberFrom_injective (h : memberFrom asm wanted index entries = .ok (some member))
    (h' : memberFrom asm wanted' index entries = .ok (some member)) : wanted = wanted' := by
  induction entries generalizing index with
  | nil => simp [memberFrom] at h
  | cons entry rest ih =>
      simp only [memberFrom, exceptBind_eq_ok_iff] at h h'
      obtain ⟨occupies, hoccupies, h⟩ := h
      obtain ⟨_, hoccupies', h'⟩ := h'
      obtain rfl := Except.ok.inj (hoccupies.symm.trans hoccupies')
      -- Behind the entry that is the member itself all members have higher numbers.
      have hlater {w : StructEntry}
          (hfound : (pure (if occupies then some index else none) : Except Fault (Option Nat)) =
            .ok (some member))
          (hbehind : memberFrom asm w (if occupies then index + 1 else index) rest =
            .ok (some member)) : False := by
        have hle := le_memberFrom hbehind
        cases occupies with
        | false => simp at hfound
        | true =>
            obtain rfl : member = index := by simpa using hfound
            simp only [if_true] at hle
            omega
      by_cases heq : entry = wanted
      · by_cases heq' : entry = wanted'
        · exact heq.symm.trans heq'
        · rw [if_pos heq] at h
          rw [if_neg heq'] at h'
          exact (hlater h h').elim
      · by_cases heq' : entry = wanted'
        · rw [if_neg heq] at h
          rw [if_pos heq'] at h'
          exact (hlater h' h).elim
        · rw [if_neg heq] at h
          rw [if_neg heq'] at h'
          exact ih h h'

end Members

section Tables

variable {owner : TypeDefId} {index : Nat} {c c' : LayoutCache}

/-- The member of an object that points to the table of the slots that a type introduces. -/
def TableMember (asm : Assembly) (owner : TypeDefId) (index : Nat) : Prop :=
  ∃ layout, LayoutOf asm owner layout ∧
    StructEntry.member? asm layout (.classVTable owner) = .ok (some index)

theorem TableMember.unique {index' : Nat} (h : TableMember asm owner index)
    (h' : TableMember asm owner index') : index = index' := by
  obtain ⟨layout, hlayout, hmember⟩ := h
  obtain ⟨layout', hlayout', hmember'⟩ := h'
  obtain rfl := hlayout.unique hlayout'
  exact Option.some.inj (Except.ok.inj (hmember.symm.trans hmember'))

theorem classVTableIndex_spec (h : Layouts.classVTableIndex asm owner c = .ok index c')
    (hc : c.Sound asm) : TableMember asm owner index ∧ c'.Sound asm := by
  simp only [Layouts.classVTableIndex, bind_eq_ok_iff, Layouts.ask_eq_ok_iff] at h
  obtain ⟨layout, c₁, hlayout, member, t, ⟨hmember, hsame⟩, h⟩ := h
  subst t
  obtain ⟨hspec, hsound⟩ := Layouts.structLayout_sound hlayout hc
  cases member with
  | none =>
      obtain ⟨name, c₂, -, hthrow⟩ := bind_eq_ok_iff.mp h
      simp at hthrow
  | some member =>
      obtain ⟨rfl, rfl⟩ := pure_eq_ok_iff.mp h
      exact ⟨⟨layout, hspec, hmember⟩, hsound⟩

/-- The owners of tables of a class: the bases that introduce slots, each once. -/
theorem slotOwners_spec {cls : TypeDefId} {owners : List TypeDefId}
    (h : slotOwners asm cls = .ok owners) : ∃ chain, asm.selfAndAncestors cls = .ok chain ∧
      owners.Nodup ∧ ∀ owner, owner ∈ owners ↔ owner ∈ chain.types ∧
        Assembly.isRoot owner = false ∧ ∃ slots, asm.introducedSlots owner = .ok slots ∧
        slots ≠ [] := by
  simp only [slotOwners, exceptBind_eq_ok_iff, exceptPure_eq_ok_iff] at h
  obtain ⟨chain, hchain, types, htypes, found, hfound, rfl⟩ := h
  obtain rfl : chain.types = types := by
    rw [BaseChain.toList, BaseChain.atEnd] at htypes
    split at htypes
    · simp at htypes
    · exact Except.ok.inj htypes
  obtain rfl := (exceptFilterM_eq_ok_iff.mp hfound).2
  refine ⟨chain, hchain, ?_, fun owner => ?_⟩
  · exact List.pairwise_reverse.mpr
      (((Assembly.selfAndAncestors_nodup hchain).filter _).imp Ne.symm)
  · simp only [List.mem_reverse, List.mem_filter, decide_eq_true_eq]
    refine and_congr_right fun _ => ?_
    cases hroot : Assembly.isRoot owner with
    | true => simp
    | false => cases asm.introducedSlots owner <;> simp [Functor.map, Except.map]

/-- The stores that fill in the tables of a new object. -/
theorem tableStores_spec {table : VTable} {stores : List (Nat × Ssa.ValueId)}
    (h : tableStores asm table c = .ok stores c') (hc : c.Sound asm) : ∃ own,
      List.Forall₂ (fun t store => t.inst = some store.2 ∧ TableMember asm t.owner store.1)
        (table.tables.filter (·.inst.isSome)) own ∧
      stores = own ++ (table.indirection.map fun itable => (indirectionMember, itable)).toList := by
  simp only [tableStores, bind_eq_ok_iff, pure_eq_ok_iff] at h
  obtain ⟨own, c₁, hown, rfl, rfl⟩ := h
  refine ⟨own, ?_, rfl⟩
  generalize table.tables = tables at hown
  induction tables generalizing c own with
  | nil =>
      rw [List.filterMapM_nil] at hown
      obtain ⟨rfl, -⟩ := pure_eq_ok_iff.mp hown
      exact .nil
  | cons t rest ih =>
      rw [List.filterMapM_cons, bind_eq_ok_iff] at hown
      obtain ⟨first, c₂, hfirst, hrest⟩ := hown
      cases hinst : t.inst with
      | none =>
          simp only [hinst] at hfirst
          obtain ⟨rfl, rfl⟩ := pure_eq_ok_iff.mp hfirst
          rw [List.filter_cons_of_neg (by simp [hinst])]
          exact ih hc own hrest
      | some inst =>
          simp only [hinst, bind_eq_ok_iff, pure_eq_ok_iff] at hfirst
          obtain ⟨index, _, hindex, rfl, rfl⟩ := hfirst
          obtain ⟨hmember, hsound⟩ := classVTableIndex_spec hindex hc
          simp only [bind_eq_ok_iff, pure_eq_ok_iff] at hrest
          obtain ⟨others, _, hrest, rfl, rfl⟩ := hrest
          rw [List.filter_cons_of_pos (by simp [hinst])]
          exact .cons ⟨hinst, hmember⟩ (ih hsound others hrest)

end Tables

end Lowering

end CilSsa
