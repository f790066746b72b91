import Mathlib.Logic.Relation
import CilSsa.Lowering.Types
import CilSsa.Proofs.KnownIds

/-!
The faults that a computation can stop for.

A computation meets a dangling id or goes on without end only if one of its parts does, so the kinds
of faults that it can have are found from its parts.  A question about the metadata meets dangling
ids of the metadata only, unless it resolves a slot, which may have no end.  What is done with the
slots, the layouts and the sizes is told in terms of that.
-/

namespace CilSsa

open Ssa Metadata Lowering

section Kinds

/-- Whether a fault is about an id of the metadata. -/
def Fault.OfMetadata (fault : Fault) : Prop := fault.isDangling = true

def Fault.OfId (fault : Fault) : Prop := fault ≠ .endless

/-- A kind of faults that all those about ids of the metadata are of. -/
class CoversMetadata (P : Fault → Prop) : Prop where
  metadata : ∀ fault : Fault, fault.OfMetadata → P fault

/-- A kind of faults that all those about ids are of. -/
class CoversIds (P : Fault → Prop) : Prop where
  ids : ∀ fault : Fault, fault.OfId → P fault

instance : CoversMetadata Fault.OfMetadata := ⟨fun _ => id⟩

instance : CoversIds Fault.OfId := ⟨fun _ => id⟩

instance (P : Fault → Prop) [h : CoversIds P] : CoversMetadata P :=
  ⟨fun fault hmetadata => h.ids fault fun hendless => by subst hendless; exact nomatch hmetadata⟩

/-- Reasons to stop, some of which are faults. -/
class Reporting (ε : Type) where
  fault? : ε → Option Fault

instance : Reporting Fault := ⟨some⟩

instance : Reporting Stop := ⟨fun
  | .fault fault => some fault
  | .error _ => none⟩

end Kinds

section Computations

/-- A monad in which it is clear what a computation may return and which faults it may have. -/
class Faulting (m : Type → Type) [Monad m] where
  Returns : {α : Type} → m α → α → Prop
  Faults : {α : Type} → (Fault → Prop) → m α → Prop
  pure : ∀ {α : Type} {P : Fault → Prop} (a : α), Faults P (Pure.pure a)
  bind : ∀ {α β : Type} {P : Fault → Prop} {x : m α} {f : α → m β},
    Faults P x → (∀ a, Returns x a → Faults P (f a)) → Faults P (x >>= f)

instance {ε : Type} [Reporting ε] : Faulting (Except ε) where
  Returns x a := x = .ok a
  Faults P x := ∀ e, x = .error e → ∀ fault ∈ Reporting.fault? e, P fault
  pure _ _ h := nomatch h
  bind {_ _ _ x _} hx hf := by
    cases x with
    | ok a => exact hf a rfl
    | error e =>
        intro e' h
        cases h
        exact hx e rfl

instance {ε σ : Type} [Reporting ε] : Faulting (EStateM ε σ) where
  Returns x a := ∃ s s', x s = .ok a s'
  Faults P x := ∀ s e s', x s = .error e s' → ∀ fault ∈ Reporting.fault? e, P fault
  pure _ _ _ _ h := nomatch h
  bind {_ _ _ x f} hx hf s e s' h := by
    change EStateM.bind x f s = _ at h
    unfold EStateM.bind at h
    split at h
    · rename_i a t hrun
      exact hf a ⟨s, t, hrun⟩ t e s' h
    · rename_i e' t hrun
      cases h
      exact hx s e s' hrun

/-- A computation whose faults, if it has any, are of a kind. -/
class Faults (P : Fault → Prop) {m : Type → Type} [Monad m] [Faulting m] {α : Type} (x : m α) :
    Prop where
  all : Faulting.Faults P x

namespace Faults

variable {P : Fault → Prop} {m : Type → Type} [Monad m] [Faulting m] {α β : Type}

instance pure (a : α) : Faults P (pure a : m α) := ⟨Faulting.pure a⟩

/-- What comes after a computation may rely on its answer. -/
theorem seq {x : m α} {f : α → m β} (hx : Faults P x)
    (hf : ∀ a, Faulting.Returns x a → Faults P (f a)) : Faults P (x >>= f) :=
  ⟨Faulting.bind hx.all fun a ha => (hf a ha).all⟩

instance bind (x : m α) (f : α → m β) [hx : Faults P x] [hf : ∀ a, Faults P (f a)] :
    Faults P (x >>= f) :=
  seq hx fun a _ => hf a

instance ite (c : Prop) [Decidable c] (x y : m α) [hx : Faults P x] [hy : Faults P y] :
    Faults P (if c then x else y) :=
  iteInduction (fun _ => hx) fun _ => hy

section Loops

theorem composes : Composes fun (α : Type) (x : m α) => Faults P x :=
  ⟨pure, fun hx hf => seq hx fun a _ => hf a⟩

instance findM? (p : α → m Bool) (items : List α) [hp : ∀ a, Faults P (p a)] :
    Faults P (items.findM? p) :=
  composes.findM? fun a _ => hp a

instance findSomeM? (f : α → m (Option β)) (items : List α) [hf : ∀ a, Faults P (f a)] :
    Faults P (items.findSomeM? f) :=
  composes.findSomeM? fun a _ => hf a

instance filterM (p : α → m Bool) (items : List α) [hp : ∀ a, Faults P (p a)] :
    Faults P (items.filterM p) :=
  composes.filterM fun a _ => hp a

variable [LawfulMonad m]

instance mapM (f : α → m β) (items : List α) [hf : ∀ a, Faults P (f a)] :
    Faults P (items.mapM f) :=
  composes.mapM fun a _ => hf a

instance filterMapM (f : α → m (Option β)) (items : List α) [hf : ∀ a, Faults P (f a)] :
    Faults P (items.filterMapM f) :=
  composes.filterMapM fun a _ => hf a

end Loops

section States

variable {ε σ : Type} [Reporting ε]

instance get : Faults P (get : EStateM ε σ σ) := ⟨fun _ _ _ h => nomatch h⟩

instance modify (f : σ → σ) : Faults P (modify f : EStateM ε σ PUnit) :=
  ⟨fun _ _ _ h => nomatch h⟩

/-- An action that never stops. -/
theorem ofResult {x : EStateM ε σ α} (h : ∀ s, ∃ a s', x s = .ok a s') : Faults P x := by
  refine ⟨fun s e s' hrun => ?_⟩
  obtain ⟨a, t, hok⟩ := h s
  cases hok.symm.trans hrun

end States

section Outcomes

theorem fault {x : Except Fault α} (h : Faults P x) {fault : Fault} (hx : x = .error fault) :
    P fault :=
  h.all fault hx fault rfl

variable {σ : Type}

theorem buildFault {x : EStateM Fault σ α} (h : Faults P x) {s s' : σ} {fault : Fault}
    (hx : x s = .error fault s') : P fault :=
  h.all s fault s' hx fault rfl

theorem stop {x : EStateM Stop σ α} (h : Faults P x) {s s' : σ} {fault : Fault}
    (hx : x s = .error (.fault fault) s') : P fault :=
  h.all s _ s' hx fault rfl

end Outcomes

end Faults

end Computations

section Metadata

variable {P : Fault → Prop} [hP : CoversMetadata P] {asm : Assembly}

namespace Metadata.Assembly

section Access

instance (id : TypeDefId) : Faults P (asm.typeDef id) := by
  refine ⟨fun e h fault hfault => ?_⟩
  cases hfault
  obtain ⟨-, rfl⟩ := Arena.entry_eq_error_iff.mp h
  exact hP.metadata _ rfl

instance (id : FieldId) : Faults P (asm.field id) := by
  refine ⟨fun e h fault hfault => ?_⟩
  cases hfault
  obtain ⟨-, rfl⟩ := Arena.entry_eq_error_iff.mp h
  exact hP.metadata _ rfl

instance (id : MethodId) : Faults P (asm.method id) := by
  refine ⟨fun e h fault hfault => ?_⟩
  cases hfault
  obtain ⟨-, rfl⟩ := Arena.entry_eq_error_iff.mp h
  exact hP.metadata _ rfl

instance (id : TypeDefId) : Faults P (asm.typeName id) := by
  unfold typeName
  infer_instance

instance (id : TypeDefId) : Faults P (asm.kindOf id) := by
  unfold kindOf
  infer_instance

instance (sig : TypeSig) : Faults P (asm.sigName sig) := by
  induction sig <;>
  · unfold sigName
    infer_instance

end Access

section Hierarchy

variable {α : Type} {chain : BaseChain} {ty : TypeDefId}

def HasBase (asm : Assembly) (ty base : TypeDefId) : Prop :=
  ∃ d, asm.typeDef ty = .ok d ∧ d.base = some base

structure LeadsUp (P : Fault → Prop) (asm : Assembly) (ty : TypeDefId) (chain : BaseChain) :
    Prop where
  broken : ∀ fault ∈ chain.broken, P fault
  types : ∀ t ∈ chain.types, Relation.ReflTransGen (HasBase asm) ty t

theorem leadsUp_chainFrom (fuel : Nat) (seen : List TypeDefId) (next : Option TypeDefId)
    (hnext : ∀ base ∈ next, Relation.ReflTransGen (HasBase asm) ty base) :
    LeadsUp P asm ty (asm.chainFrom fuel seen next) := by
  have hnone : LeadsUp P asm ty ⟨[], none⟩ := ⟨by simp, by simp⟩
  induction fuel generalizing seen next with
  | zero => exact hnone
  | succ fuel ih =>
      cases next with
      | none => exact hnone
      | some base =>
          have hbase := hnext base rfl
          unfold chainFrom
          split
          · exact hnone
          · split
            · rename_i fault hfault
              refine ⟨fun fault' hfault' => ?_, by simp⟩
              obtain rfl := Option.some.inj hfault'
              exact (inferInstance : Faults P (asm.typeDef base)).fault hfault
            · rename_i d hd
              obtain ⟨hbroken, htypes⟩ :=
                ih (base :: seen) d.base fun next hnext => hbase.tail ⟨d, hd, hnext⟩
              refine ⟨hbroken, fun t ht => ?_⟩
              rcases List.mem_cons.mp ht with rfl | ht
              · exact hbase
              · exact htypes t ht

theorem leadsUp_ancestors (h : asm.ancestors ty = .ok chain) : LeadsUp P asm ty chain := by
  simp only [ancestors, exceptBind_eq_ok_iff, exceptPure_eq_ok_iff] at h
  obtain ⟨d, hd, rfl⟩ := h
  exact leadsUp_chainFrom _ _ _ fun base hbase => .single ⟨d, hd, hbase⟩

theorem leadsUp_selfAndAncestors (h : asm.selfAndAncestors ty = .ok chain) :
    LeadsUp P asm ty chain := by
  simp only [selfAndAncestors, exceptBind_eq_ok_iff, exceptPure_eq_ok_iff] at h
  obtain ⟨chain, hchain, rfl⟩ := h
  obtain ⟨hbroken, htypes⟩ := leadsUp_ancestors (P := P) hchain
  exact ⟨hbroken, List.forall_mem_cons.mpr ⟨.refl, htypes⟩⟩

omit hP in
theorem LeadsUp.atEnd (h : LeadsUp P asm ty chain) (value : α) : Faults P (chain.atEnd value) := by
  unfold BaseChain.atEnd
  split
  · rename_i fault hfault
    refine ⟨fun e he fault' hfault' => ?_⟩
    cases he
    cases hfault'
    exact h.broken fault hfault
  · exact Faults.pure value

omit hP in
theorem LeadsUp.findSome {answer : TypeDefId → Except Fault (Option α)} (h : LeadsUp P asm ty chain)
    (hanswer : ∀ t ∈ chain.types, Faults P (answer t)) : Faults P (chain.findSome answer) := by
  refine Faults.seq (Faults.composes.findSomeM? hanswer) fun found _ => ?_
  cases found with
  | some a => exact Faults.pure (some a)
  | none => exact h.atEnd none

instance : Faults P (asm.ancestors ty) := by
  unfold ancestors
  infer_instance

instance : Faults P (asm.selfAndAncestors ty) := by
  unfold selfAndAncestors
  infer_instance

instance (fuel : Nat) (found pending : List TypeDefId) :
    Faults P (asm.closeInterfaces fuel found pending) := by
  induction fuel generalizing found pending with
  | zero => exact Faults.pure found
  | succ fuel ih =>
      cases pending with
      | nil => exact Faults.pure found
      | cons iface pending =>
          unfold closeInterfaces
          infer_instance

instance (found types : List TypeDefId) : Faults P (asm.interfacesOf found types) := by
  induction types generalizing found with
  | nil => exact Faults.pure found
  | cons first rest ih =>
      unfold interfacesOf
      infer_instance

instance : Faults P (asm.allInterfaces ty) := by
  unfold allInterfaces
  refine Faults.seq inferInstance fun chain hchain => ?_
  have := (leadsUp_selfAndAncestors hchain).atEnd (P := P) chain.types
  unfold BaseChain.toList
  infer_instance

end Hierarchy

section Slots

variable {ty t : TypeDefId} {m : MethodId}

instance (d : MethodDef) : Faults P (asm.virtualLike d ty) := by
  unfold virtualLike
  infer_instance

instance : Faults P (asm.slotStep m) := by
  unfold slotStep
  refine Faults.seq inferInstance fun d _ => Faults.seq inferInstance fun owner _ => ?_
  have hsearch : Faults P (do
      let chain ← asm.ancestors d.declaringType
      match ← chain.findSome (asm.virtualLike d) with
      | some base => return .overrides base
      | none => return .settled (some m) : Except Fault SlotStep) := by
    refine Faults.seq inferInstance fun chain hchain => ?_
    have : Faults P (chain.findSome (asm.virtualLike d)) :=
      (leadsUp_ancestors hchain).findSome fun _ _ => inferInstance
    refine Faults.seq this fun found _ => ?_
    cases found <;> infer_instance
  infer_instance

/-- A type whose methods' slots can be asked for. -/
class SlotsKnown (P : Fault → Prop) (asm : Assembly) (ty : TypeDefId) : Prop where
  slots : ∀ d, asm.typeDef ty = .ok d → ∀ m ∈ d.methods, Faults P (asm.slotMethod m)

/-- A type on whose bases, too, slots can be asked for. -/
class SlotsKnownUp (P : Fault → Prop) (asm : Assembly) (ty : TypeDefId) : Prop where
  up : ∀ t, Relation.ReflTransGen (HasBase asm) ty t → SlotsKnown P asm t

instance [h : SlotsKnownUp P asm ty] : SlotsKnown P asm ty := h.up ty .refl

omit hP in
theorem SlotsKnownUp.base [h : SlotsKnownUp P asm ty] (hbase : HasBase asm ty t) :
    SlotsKnownUp P asm t :=
  ⟨fun t' hpath => h.up t' (.head hbase hpath)⟩

instance [h : SlotsKnown P asm ty] : Faults P (asm.introducedSlots ty) := by
  unfold introducedSlots
  refine Faults.seq inferInstance fun d hd => Faults.composes.filterM fun m hm => ?_
  have := h.slots d hd m hm
  unfold introducesSlot
  infer_instance

instance (slot : MethodId) [h : SlotsKnownUp P asm ty] : Faults P (asm.implementation ty slot) := by
  unfold implementation
  refine Faults.seq inferInstance fun d _ => Faults.seq inferInstance fun kind _ =>
    Faults.seq inferInstance fun chain hchain => ?_
  have hleads := leadsUp_selfAndAncestors (P := P) hchain
  refine hleads.findSome fun t ht => Faults.seq inferInstance fun d ht' =>
    Faults.composes.findM? fun m hm => ?_
  have := (h.up t (hleads.types t ht)).slots d ht' m hm
  unfold fills
  infer_instance

end Slots

end Metadata.Assembly

end Metadata

end CilSsa
