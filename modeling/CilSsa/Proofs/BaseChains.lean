import Mathlib.Data.Set.Finite.Basic
import Mathlib.Order.WellFoundedSet
import CilSsa.Proofs.Containment
import CilSsa.Proofs.Faults

/-!
Base chains and the relation that they follow.

A chain that is walked step by step has everything above its type, up to the first id that leads
nowhere, each once and nearest first.  That is so in a circle of bases too, where a type on the
circle is the last one of the chain of its own base.
-/

namespace CilSsa.Metadata.Assembly

variable {asm : Assembly} {ty base t : TypeDefId} {chain : BaseChain}

theorem exists_typeDef (hty : asm.HasType ty) : ∃ d, asm.typeDef ty = .ok d :=
  ⟨_, Arena.entry_eq_ok_iff.mpr (Array.getElem?_eq_getElem hty)⟩

theorem hasType_of_typeDef {d : TypeDef} (hd : asm.typeDef ty = .ok d) : asm.HasType ty :=
  (Array.getElem?_eq_some_iff.mp (Arena.entry_eq_ok_iff.mp hd)).1

section Above

theorem HasBase.hasType (h : asm.HasBase ty base) : asm.HasType ty :=
  let ⟨_, hd, _⟩ := h
  hasType_of_typeDef hd

theorem HasBase.unique {other : TypeDefId} (h : asm.HasBase ty base) (h' : asm.HasBase ty other) :
    base = other := by
  obtain ⟨d, hd, hbase⟩ := h
  obtain ⟨d', hd', hother⟩ := h'
  cases hd.symm.trans hd'
  exact Option.some.inj (hbase.symm.trans hother)

theorem HasBase.linked [hlinked : asm.Linked] (h : asm.HasBase ty base) : asm.HasType base := by
  obtain ⟨d, hd, hbase⟩ := h
  exact (hlinked.types d (Array.mem_of_getElem? (Arena.entry_eq_ok_iff.mp hd))).base base hbase

theorem hasType_of_above (h : Relation.ReflTransGen asm.HasBase ty t) (ht : asm.HasType t) :
    asm.HasType ty := by
  rcases Relation.ReflTransGen.cases_head h with rfl | ⟨base, hbase, -⟩
  · exact ht
  · exact hbase.hasType

theorem above_or_below {other : TypeDefId} (h : Relation.ReflTransGen asm.HasBase ty t)
    (h' : Relation.ReflTransGen asm.HasBase ty other) :
    Relation.ReflTransGen asm.HasBase t other ∨ Relation.TransGen asm.HasBase other t := by
  induction h using Relation.ReflTransGen.head_induction_on with
  | refl => exact .inl h'
  | head hbase hrest ih =>
      rcases Relation.ReflTransGen.cases_head h' with rfl | ⟨base, hbase', hrest'⟩
      · exact .inr (.head' hbase hrest)
      · obtain rfl := hbase.unique hbase'
        exact ih hrest'

/-- Bases come to an end where no type on the way is above itself. -/
theorem acc_base
    (h : ∀ t, Relation.ReflTransGen asm.HasBase ty t → ¬ Relation.TransGen asm.HasBase t t) :
    Acc (Function.swap asm.HasBase) ty := by
  -- On a circle everything is above everything, so only what is below no circle is ordered.
  let above : TypeDefId → TypeDefId → Prop := fun base ty =>
    Relation.TransGen asm.HasBase ty base ∧ ¬ Relation.TransGen asm.HasBase ty ty
  have horder : IsStrictOrder TypeDefId above :=
    { irrefl := fun _ h => h.2 h.1, trans := fun _ _ _ h h' => ⟨h'.1.trans h.1, h'.2⟩ }
  have hfinite : {ty | asm.HasType ty}.Finite :=
    (Set.finite_lt_nat asm.types.size).preimage TypeDefId.index_injective.injOn
  have hwf := hfinite.wellFoundedOn (r := above)
  have hstray (ty : TypeDefId) (hty : ¬ asm.HasType ty) : Acc (Function.swap asm.HasBase) ty :=
    ⟨ty, fun _ hnext => absurd (HasBase.hasType hnext) hty⟩
  by_cases hty : asm.HasType ty
  · revert h
    refine hwf.induction (P := fun ty => (∀ t, Relation.ReflTransGen asm.HasBase ty t →
      ¬ Relation.TransGen asm.HasBase t t) → Acc (Function.swap asm.HasBase) ty) hty
      fun ty _ ih h => ⟨ty, fun base hbase => ?_⟩
    by_cases hknown : asm.HasType base
    · exact ih base hknown ⟨.single hbase, h ty .refl⟩ fun t ht => h t (.head hbase ht)
    · exact hstray base hknown
  · exact hstray ty hty

/-- Where no type is above itself, bases come to an end. -/
theorem wellFounded_bases (hacyclic : ∀ ty, ¬ Relation.TransGen asm.HasBase ty ty) :
    WellFounded (Function.swap asm.HasBase) :=
  ⟨fun _ => acc_base fun t _ => hacyclic t⟩

end Above

section Chains

variable {fuel : Nat} {seen : List TypeDefId} {next : Option TypeDefId}

theorem hasType_of_mem_chainFrom (h : t ∈ (asm.chainFrom fuel seen next).types) :
    asm.HasType t := by
  induction fuel generalizing seen next with
  | zero => cases h
  | succ fuel ih =>
      cases next with
      | none => cases h
      | some ty =>
          rw [chainFrom] at h
          split at h
          · cases h
          split at h
          · cases h
          · rename_i d hd
            rcases List.mem_cons.mp h with rfl | h
            · exact hasType_of_typeDef hd
            · exact ih h

/-- What comes later in a chain is above what comes earlier. -/
theorem chainFrom_ordered :
    (asm.chainFrom fuel seen next).types.Pairwise (Relation.TransGen asm.HasBase) := by
  induction fuel generalizing seen next with
  | zero => exact .nil
  | succ fuel ih =>
      cases next with
      | none => exact .nil
      | some ty =>
          rw [chainFrom]
          split
          · exact .nil
          split
          · exact .nil
          · rename_i d hd
            refine .cons (fun t ht => ?_) ih
            cases hbase : d.base with
            | none => cases fuel <;> simp [hbase, chainFrom] at ht
            | some base =>
                have hup : LeadsUp Fault.OfMetadata asm base _ :=
                  leadsUp_chainFrom fuel (ty :: seen) d.base
                    (by simp [hbase, Relation.ReflTransGen.refl])
                exact .head' ⟨d, hd, hbase⟩ (hup.types t ht)

section Complete

variable (htrail : Trail TypeDefId.index asm.types.size fuel seen)
include htrail

/-- With as many steps as there are types a chain goes on until it comes back or
runs into a dangling id. -/
theorem chainFrom_closed :
    (∀ t ∈ next, asm.HasType t → t ∈ seen ∨ t ∈ (asm.chainFrom fuel seen next).types) ∧
    ∀ t ∈ (asm.chainFrom fuel seen next).types, ∀ base, asm.HasBase t base → asm.HasType base →
      base ∈ seen ∨ base ∈ (asm.chainFrom fuel seen next).types := by
  induction fuel generalizing seen next with
  | zero => exact absurd htrail (Trail.not_zero TypeDefId.index_injective)
  | succ fuel ih =>
      cases next with
      | none => simp [chainFrom]
      | some ty =>
          rw [chainFrom]
          by_cases hmet : ty ∈ seen
          · simp [hmet]
          rw [if_neg hmet]
          cases hd : asm.typeDef ty with
          | error fault =>
              refine ⟨fun t ht hknown => ?_, by simp⟩
              obtain rfl := Option.some.inj ht
              obtain ⟨d, hd'⟩ := exists_typeDef hknown
              cases hd.symm.trans hd'
          | ok d =>
              have hty := hasType_of_typeDef hd
              obtain ⟨hfirst, hclosed⟩ := @ih (ty :: seen) d.base (htrail.next hmet hty)
              simp only [BaseChain.below, List.mem_cons] at hfirst hclosed ⊢
              refine ⟨fun t ht _ => .inr (.inl (Option.some.inj ht).symm), ?_⟩
              rintro t (rfl | ht) base hbase hknown
              · obtain ⟨d', hd', hnext⟩ := hbase
                cases hd.symm.trans hd'
                have := hfirst base hnext hknown
                tauto
              · have := hclosed t ht base hbase hknown
                tauto

/-- More steps do not make a chain longer. -/
theorem chainFrom_enough : asm.chainFrom (fuel + 1) seen next = asm.chainFrom fuel seen next := by
  induction fuel generalizing seen next with
  | zero => exact absurd htrail (Trail.not_zero TypeDefId.index_injective)
  | succ fuel ih =>
      cases next with
      | none => rfl
      | some ty =>
          rw [chainFrom, chainFrom]
          split
          · rfl
          · rename_i hnew
            split
            · rfl
            · rename_i d hd
              rw [ih (htrail.next hnew (hasType_of_typeDef hd))]

end Complete

/-- Where everything that is referred to exists no chain is cut short. -/
theorem chainFrom_whole [hlinked : asm.Linked] (hnext : ∀ t ∈ next, asm.HasType t) :
    (asm.chainFrom fuel seen next).broken = none := by
  induction fuel generalizing seen next with
  | zero => rfl
  | succ fuel ih =>
      cases next with
      | none => rfl
      | some ty =>
          obtain ⟨d, hd⟩ := exists_typeDef (hnext ty rfl)
          rw [chainFrom, hd]
          split
          · rfl
          · exact ih fun base hbase => HasBase.linked ⟨d, hd, hbase⟩

/-- A chain that has passed the base of a type, or starts with it, passes the type only as its last
one. -/
theorem chainFrom_avoid {seen' : List TypeDefId} (hbase : asm.HasBase ty base)
    (hmet : base ∈ seen ∨ base ∈ next) (hseen : ∀ t, t ∈ seen' ↔ t = ty ∨ t ∈ seen) :
    (asm.chainFrom fuel seen next).types = (asm.chainFrom fuel seen' next).types ∨
      (asm.chainFrom fuel seen next).types = (asm.chainFrom fuel seen' next).types ++ [ty] := by
  induction fuel generalizing seen seen' next with
  | zero => exact .inl rfl
  | succ fuel ih =>
      cases next with
      | none => exact .inl rfl
      | some t =>
          rw [Option.mem_some] at hmet
          rw [chainFrom, chainFrom]
          by_cases hin : t ∈ seen
          · rw [if_pos hin, if_pos ((hseen t).mpr (.inr hin))]
            exact .inl rfl
          rw [if_neg hin]
          have hmet' : base ∈ t :: seen := List.mem_cons.mpr (hmet.symm.imp_left Eq.symm)
          by_cases heq : t = ty
          · subst heq
            obtain ⟨d, hd, hbase⟩ := hbase
            rw [if_pos ((hseen t).mpr (.inl rfl)), hd]
            refine .inr ?_
            cases fuel <;> simp [chainFrom, BaseChain.below, hbase, List.mem_cons.mp hmet']
          · rw [if_neg (by simp [hseen, heq, hin])]
            cases asm.typeDef t with
            | error fault => exact .inl rfl
            | ok d =>
                have hseen' : ∀ t', t' ∈ t :: seen' ↔ t' = ty ∨ t' ∈ t :: seen := by
                  intro t'
                  simp only [List.mem_cons, hseen]
                  tauto
                rcases @ih (t :: seen) d.base (t :: seen') (.inl hmet') hseen' with h | h
                · exact .inl (congrArg (t :: ·) h)
                · exact .inr (congrArg (t :: ·) h)

end Chains

section Types

theorem selfAndAncestors_eq (hty : asm.HasType ty) :
    asm.selfAndAncestors ty = .ok (asm.chainFrom (asm.types.size + 2) [] (some ty)) := by
  obtain ⟨d, hd⟩ := exists_typeDef hty
  rw [selfAndAncestors, ancestors, hd, chainFrom, if_neg List.not_mem_nil, hd]
  rfl

theorem eq_chainFrom (h : asm.selfAndAncestors ty = .ok chain) :
    asm.HasType ty ∧ chain = asm.chainFrom (asm.types.size + 2) [] (some ty) := by
  obtain ⟨d, hd, -⟩ := selfAndAncestors_eq_ok h
  have hty := hasType_of_typeDef hd
  exact ⟨hty, Except.ok.inj (h.symm.trans (selfAndAncestors_eq hty))⟩

theorem ordered_chain (h : asm.selfAndAncestors ty = .ok chain) :
    chain.types.Pairwise (Relation.TransGen asm.HasBase) := by
  obtain ⟨-, rfl⟩ := eq_chainFrom h
  exact chainFrom_ordered

/-- The chain of a type has exactly the types above it that exist. -/
theorem mem_chain_iff (h : asm.selfAndAncestors ty = .ok chain) :
    t ∈ chain.types ↔ Relation.ReflTransGen asm.HasBase ty t ∧ asm.HasType t := by
  obtain ⟨hty, rfl⟩ := eq_chainFrom h
  have htrail : Trail TypeDefId.index asm.types.size (asm.types.size + 2) [] := .start (by simp)
  obtain ⟨hfirst, hclosed⟩ := @chainFrom_closed asm _ [] (some ty) htrail
  constructor
  · intro hmem
    have hup : LeadsUp Fault.OfMetadata asm ty _ := leadsUp_selfAndAncestors h
    exact ⟨hup.types t hmem, hasType_of_mem_chainFrom hmem⟩
  · rintro ⟨hpath, hknown⟩
    induction hpath with
    | refl => simpa using hfirst ty rfl hty
    | tail _ hbase ih => simpa using hclosed _ (ih (HasBase.hasType hbase)) _ hbase hknown

/-- Where everything that is referred to exists, a chain has everything above its type. -/
theorem exists_chain [asm.Linked] (hty : asm.HasType ty) : ∃ chain,
    asm.selfAndAncestors ty = .ok chain ∧ chain.broken = none ∧
      ∀ t, t ∈ chain.types ↔ Relation.ReflTransGen asm.HasBase ty t := by
  refine ⟨_, selfAndAncestors_eq hty, chainFrom_whole ?_, fun t => ?_⟩
  · rintro t ht
    obtain rfl := Option.some.inj ht
    exact hty
  · rw [mem_chain_iff (selfAndAncestors_eq hty), and_iff_left_iff_imp]
    intro hpath
    induction hpath with
    | refl => exact hty
    | tail _ hbase => exact HasBase.linked hbase

theorem chain_of_base {above : BaseChain} (hbase : asm.HasBase ty base)
    (hchain : asm.selfAndAncestors ty = .ok chain)
    (habove : asm.selfAndAncestors base = .ok above) :
    ∃ upper, chain.types = ty :: upper ∧ (above.types = upper ∨ above.types = upper ++ [ty]) := by
  obtain ⟨-, rfl⟩ := eq_chainFrom hchain
  obtain ⟨-, rfl⟩ := eq_chainFrom habove
  obtain ⟨d, hd, hnext⟩ := id hbase
  have henough : asm.chainFrom (asm.types.size + 2) [] (some base) =
      asm.chainFrom (asm.types.size + 1) [] (some base) :=
    chainFrom_enough (.start (Nat.lt_succ_self _))
  rw [henough, chainFrom, if_neg List.not_mem_nil, hd]
  refine ⟨_, rfl, ?_⟩
  rw [hnext]
  exact chainFrom_avoid hbase (.inr rfl) (by simp)

end Types

end CilSsa.Metadata.Assembly
