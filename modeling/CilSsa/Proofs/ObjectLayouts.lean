import CilSsa.Proofs.Emission

/-!
Layouts of objects, computed and remembered.

What a layout is depends on the assembly only.  The layouts that are remembered are right, and so is
every answer, whatever was asked before.
-/

namespace CilSsa.Lowering

open CilSsa.Metadata

/-- What the layout of a type is: that of its base, and the entries of its own. -/
inductive LayoutOf (asm : Assembly) : TypeDefId → List StructEntry → Prop
  | baseless {ty : TypeDefId} {d : TypeDef} :
      asm.typeDef ty = .ok d → d.base = none → LayoutOf asm ty []
  | root {ty base : TypeDefId} {d : TypeDef} :
      asm.typeDef ty = .ok d → d.base = some base → Assembly.isRoot ty = true → LayoutOf asm ty []
  | derived {ty base : TypeDefId} {d : TypeDef} {inherited own : List StructEntry} :
      asm.typeDef ty = .ok d → d.base = some base → Assembly.isRoot ty = false →
      LayoutOf asm base inherited → StructEntry.own asm ty d base = .ok own →
      LayoutOf asm ty (inherited ++ own)

variable {asm : Assembly}

theorem LayoutOf.split {ty base : TypeDefId} {d : TypeDef} {layout : List StructEntry}
    (h : LayoutOf asm ty layout) (hd : asm.typeDef ty = .ok d) (hbase : d.base = some base)
    (hroot : Assembly.isRoot ty = false) : ∃ inherited own, LayoutOf asm base inherited ∧
      StructEntry.own asm ty d base = .ok own ∧ layout = inherited ++ own := by
  cases h with
  | baseless hd' hnone =>
      obtain rfl := Except.ok.inj (hd.symm.trans hd')
      simp [hbase] at hnone
  | root hd' _ hroot' => simp [hroot] at hroot'
  | derived hd' hbase' _ hinherited hown =>
      obtain rfl := Except.ok.inj (hd.symm.trans hd')
      obtain rfl := Option.some.inj (hbase.symm.trans hbase')
      exact ⟨_, _, hinherited, hown, rfl⟩

theorem LayoutOf.unique {ty : TypeDefId} {layout layout' : List StructEntry}
    (h : LayoutOf asm ty layout) (h' : LayoutOf asm ty layout') : layout = layout' := by
  induction h generalizing layout' with
  | baseless hd hnone =>
      cases h' with
      | baseless => rfl
      | root => rfl
      | derived hd' hbase =>
          obtain rfl := Except.ok.inj (hd.symm.trans hd')
          simp [hnone] at hbase
  | root hd _ hroot =>
      cases h' with
      | baseless => rfl
      | root => rfl
      | derived _ _ hroot' => simp [hroot] at hroot'
  | derived hd hbase hroot _ hown ih =>
      obtain ⟨inherited, own, hinherited, hown', rfl⟩ := h'.split hd hbase hroot
      rw [ih hinherited, Except.ok.inj (hown.symm.trans hown')]

/-- Whether the layouts that are remembered are right. -/
def LayoutCache.Sound (asm : Assembly) (c : LayoutCache) : Prop :=
  ∀ {ty : TypeDefId} {layout : List StructEntry}, c.entries.lookup ty = some layout →
    LayoutOf asm ty layout

namespace Layouts

theorem ask_eq_ok_iff {α : Type} {question : Except Fault α} {a : α} {c c' : LayoutCache} :
    ask question c = .ok a c' ↔ question = .ok a ∧ c' = c := by
  unfold ask
  cases question <;> simp [eq_comm]

/-- The ways to compute a layout: there is nothing to it, or the base is asked for. -/
theorem compute_cases {layoutOf : TypeDefId → Layouts (List StructEntry)} {ty : TypeDefId}
    {layout : List StructEntry} {c c' : LayoutCache}
    (h : compute asm layoutOf ty c = .ok layout c') :
    (LayoutOf asm ty layout ∧ c' = c) ∨ ∃ d base inherited own, asm.typeDef ty = .ok d ∧
      d.base = some base ∧ Assembly.isRoot ty = false ∧ layoutOf base c = .ok inherited c' ∧
      StructEntry.own asm ty d base = .ok own ∧ layout = inherited ++ own := by
  rw [compute, bind_eq_ok_iff] at h
  obtain ⟨d, _, hask, h⟩ := h
  obtain ⟨hd, rfl⟩ := ask_eq_ok_iff.mp hask
  cases hbase : d.base with
  | none =>
      simp only [hbase] at h
      obtain ⟨rfl, rfl⟩ := pure_eq_ok_iff.mp h
      exact .inl ⟨.baseless hd hbase, rfl⟩
  | some base =>
      simp only [hbase] at h
      by_cases hroot : Assembly.isRoot ty = true
      · rw [if_pos hroot] at h
        obtain ⟨rfl, rfl⟩ := pure_eq_ok_iff.mp h
        exact .inl ⟨.root hd hbase hroot, rfl⟩
      · rw [if_neg hroot] at h
        simp only [bind_eq_ok_iff, ask_eq_ok_iff, pure_eq_ok_iff] at h
        obtain ⟨inherited, _, hinherited, own, _, ⟨hown, rfl⟩, rfl, rfl⟩ := h
        exact .inr ⟨d, base, inherited, own, hd, hbase, Bool.eq_false_iff.mpr hroot, hinherited,
          hown, rfl⟩

/-- The ways to an answer: it is remembered, or it is computed and remembered. -/
theorem layoutWith_cases {fuel : Nat} {ty : TypeDefId} {layout : List StructEntry}
    {c c' : LayoutCache} (h : layoutWith asm (fuel + 1) ty c = .ok layout c') :
    (c.entries.lookup ty = some layout ∧ c' = c) ∨ ∃ c₁,
      compute asm (layoutWith asm fuel) ty { c with resolving := ty :: c.resolving } =
        .ok layout c₁ ∧ c'.entries = (ty, layout) :: c₁.entries := by
  unfold layoutWith at h
  split at h
  · rename_i found hfound
    cases h
    exact .inl ⟨hfound, rfl⟩
  · split at h
    · split at h <;> simp at h
    · split at h
      · rename_i computed c₁ hcompute
        cases h
        exact .inr ⟨c₁, hcompute, rfl⟩
      · simp at h

theorem layoutWith_sound {fuel : Nat} {ty : TypeDefId} {layout : List StructEntry}
    {c c' : LayoutCache} (h : layoutWith asm fuel ty c = .ok layout c') (hc : c.Sound asm) :
    LayoutOf asm ty layout ∧ c'.Sound asm := by
  induction fuel generalizing ty layout c c' with
  | zero => simp [layoutWith] at h
  | succ fuel ih =>
      rcases layoutWith_cases h with ⟨hfound, rfl⟩ | ⟨c₁, hcompute, hentries⟩
      · exact ⟨hc hfound, hc⟩
      · have hcomputed : LayoutOf asm ty layout ∧ c₁.Sound asm := by
          rcases compute_cases hcompute with ⟨hlayout, rfl⟩ |
            ⟨d, base, inherited, own, hd, hbase, hroot, hinherited, hown, rfl⟩
          · exact ⟨hlayout, hc⟩
          · obtain ⟨hlayout, hsound⟩ := ih hinherited hc
            exact ⟨.derived hd hbase hroot hlayout hown, hsound⟩
        refine ⟨hcomputed.1, fun {ty' layout'} hfound => ?_⟩
        rw [hentries] at hfound
        rcases lookup_cons_cases hfound with ⟨rfl, rfl⟩ | hfound
        · exact hcomputed.1
        · exact hcomputed.2 hfound

theorem structLayout_sound {ty : TypeDefId} {layout : List StructEntry} {c c' : LayoutCache}
    (h : structLayout asm ty c = .ok layout c') (hc : c.Sound asm) :
    LayoutOf asm ty layout ∧ c'.Sound asm :=
  layoutWith_sound h hc

end Layouts

theorem LayoutCache.Looked.sound {c c' : LayoutCache} (h : LayoutCache.Looked asm c c')
    (hc : c.Sound asm) : c'.Sound asm := by
  induction h with
  | refl => exact hc
  | tail _ hlast ih =>
      obtain ⟨ty, layout, hlast⟩ := hlast
      exact (Layouts.structLayout_sound hlast ih).2

end CilSsa.Lowering
