import Mathlib.Order.Defs.Unbundled
import CilSsa.Proofs.Composition
import CilSsa.Proofs.Success

/-!
Relations between the state before an action and the state after it.

If a relation holds of the parts of an action and can be composed, it holds of the action.  For
most actions the parts say it all, so the relation is found by instance search.
-/

namespace CilSsa

/-- Every successful run of an action leads from a state to a related one. -/
class Keeps {ε σ α : Type} (R : σ → σ → Prop) (x : EStateM ε σ α) : Prop where
  run : ∀ {s : σ} {a : α} {s' : σ}, x s = .ok a s' → R s s'

namespace Keeps

variable {ε σ α β : Type} {R : σ → σ → Prop}

section Sequences

instance pure [Std.Refl R] (a : α) : Keeps R (pure a : EStateM ε σ α) where
  run h := by
    obtain ⟨-, rfl⟩ := pure_eq_ok_iff.mp h
    exact Std.Refl.refl _

theorem seq [IsTrans σ R] {x : EStateM ε σ α} {f : α → EStateM ε σ β} (hx : Keeps R x)
    (hf : ∀ a, Keeps R (f a)) : Keeps R (x >>= f) where
  run h := by
    obtain ⟨a, t, hfirst, hthen⟩ := bind_eq_ok_iff.mp h
    exact IsTrans.trans _ _ _ (hx.run hfirst) ((hf a).run hthen)

instance bind [IsTrans σ R] (x : EStateM ε σ α) (f : α → EStateM ε σ β) [hx : Keeps R x]
    [hf : ∀ a, Keeps R (f a)] : Keeps R (x >>= f) :=
  seq hx hf

instance map (g : α → β) (x : EStateM ε σ α) [hx : Keeps R x] : Keeps R (g <$> x) where
  run h := by
    obtain ⟨a, h, -⟩ := map_eq_ok_iff.mp h
    exact hx.run h

instance get [Std.Refl R] : Keeps R (get : EStateM ε σ σ) where
  run h := by
    obtain ⟨-, rfl⟩ := get_eq_ok_iff.mp h
    exact Std.Refl.refl _

instance throw (e : ε) : Keeps R (throw e : EStateM ε σ α) where
  run h := absurd h (by simp)

instance ite (c : Prop) [Decidable c] (x y : EStateM ε σ α) [hx : Keeps R x] [hy : Keeps R y] :
    Keeps R (if c then x else y) :=
  iteInduction (fun _ => hx) fun _ => hy

end Sequences

section Loops

theorem composes [IsPreorder σ R] : Composes fun (α : Type) (x : EStateM ε σ α) => Keeps R x :=
  ⟨pure, seq⟩

instance mapM [IsPreorder σ R] (f : α → EStateM ε σ β) [hf : ∀ a, Keeps R (f a)]
    (items : List α) : Keeps R (items.mapM f) :=
  composes.mapM fun a _ => hf a

instance forM [IsPreorder σ R] (f : α → EStateM ε σ PUnit) [hf : ∀ a, Keeps R (f a)]
    (items : List α) : Keeps R (items.forM f) :=
  composes.forM fun a _ => hf a

instance foldlM [IsPreorder σ R] (f : β → α → EStateM ε σ β) [hf : ∀ b a, Keeps R (f b a)]
    (items : List α) (start : β) : Keeps R (items.foldlM f start) :=
  composes.foldlM (fun b a _ => hf b a) start

/-- Each result of a loop was made in a state on the way. -/
theorem mem_of_mapM [IsPreorder σ R] {f : α → EStateM ε σ β} (hf : ∀ a, Keeps R (f a))
    {items : List α} {results : List β} {s s' : σ} (h : items.mapM f s = .ok results s') {b : β}
    (hb : b ∈ results) : ∃ a ∈ items, ∃ t t', R s t ∧ f a t = .ok b t' ∧ R t' s' := by
  induction items generalizing s results with
  | nil =>
      rw [List.mapM_nil] at h
      obtain ⟨rfl, -⟩ := pure_eq_ok_iff.mp h
      simp at hb
  | cons item rest ih =>
      rw [List.mapM_cons] at h
      simp only [bind_eq_ok_iff, pure_eq_ok_iff] at h
      obtain ⟨first, t, hfirst, others, t', hrest, rfl, rfl⟩ := h
      have hothers : Keeps R (rest.mapM f) := inferInstance
      rcases List.mem_cons.mp hb with rfl | hb
      · exact ⟨item, List.mem_cons_self, s, t, Std.Refl.refl _, hfirst, hothers.run hrest⟩
      · obtain ⟨a, ha, t₁, t₂, hbefore, hrun, hafter⟩ := ih hrest hb
        exact ⟨a, List.mem_cons_of_mem _ ha, t₁, t₂,
          IsTrans.trans _ _ _ ((hf item).run hfirst) hbefore, hrun, hafter⟩

/-- Each step of a loop is taken in a state on the way. -/
theorem mem_of_foldlM [IsPreorder σ R] {f : β → α → EStateM ε σ β} (hf : ∀ b a, Keeps R (f b a))
    {items : List α} {start result : β} {s s' : σ} (h : items.foldlM f start s = .ok result s')
    {a : α} (ha : a ∈ items) : ∃ b b' t t', R s t ∧ f b a t = .ok b' t' ∧ R t' s' := by
  induction items generalizing s start with
  | nil => simp at ha
  | cons item rest ih =>
      rw [List.foldlM_cons] at h
      obtain ⟨next, t, hfirst, hrest⟩ := bind_eq_ok_iff.mp h
      have hothers : Keeps R (rest.foldlM f next) := inferInstance
      rcases List.mem_cons.mp ha with rfl | ha
      · exact ⟨start, next, s, t, Std.Refl.refl _, hfirst, hothers.run hrest⟩
      · obtain ⟨b, b', t₁, t₂, hbefore, hrun, hafter⟩ := ih hrest ha
        exact ⟨b, b', t₁, t₂, IsTrans.trans _ _ _ ((hf start item).run hfirst) hbefore,
          hrun, hafter⟩

/-- What is true of each result of a loop when it is made, and stays true, is true in the end. -/
theorem forall₂_of_mapM [IsPreorder σ R] {f : α → EStateM ε σ β} (hf : ∀ a, Keeps R (f a))
    {P : σ → α → β → Prop} {start s s' : σ} {items : List α} {results : List β} (hstart : R start s)
    (hmade : ∀ {a b t t'}, R start t → f a t = .ok b t' → P t' a b)
    (hstays : ∀ {a b t t'}, R start t → R t t' → P t a b → P t' a b)
    (h : items.mapM f s = .ok results s') : List.Forall₂ (P s') items results := by
  induction items generalizing s results with
  | nil =>
      rw [List.mapM_nil] at h
      obtain ⟨rfl, -⟩ := pure_eq_ok_iff.mp h
      exact .nil
  | cons item rest ih =>
      rw [List.mapM_cons] at h
      simp only [bind_eq_ok_iff, pure_eq_ok_iff] at h
      obtain ⟨first, t, hfirst, others, t', hrest, rfl, rfl⟩ := h
      have ht : R start t := IsTrans.trans _ _ _ hstart ((hf item).run hfirst)
      have hothers : Keeps R (rest.mapM f) := inferInstance
      exact .cons (hstays ht (hothers.run hrest) (hmade hstart hfirst)) (ih ht hrest)

end Loops

end Keeps

end CilSsa
