import CilSsa.Lowering.Coercion

/-!
Properties of computations that are found from their parts.

A property of what only returns, and of a sequence if it is one of both parts, is a property of a
loop if it is one of each step.  So there is one set of rules for all such properties.
-/

namespace CilSsa

/-- A property of computations that those have which only return, and a sequence if its parts do. -/
structure Composes {m : Type → Type} [Monad m] (Q : (α : Type) → m α → Prop) : Prop where
  pure : ∀ {α : Type} (a : α), Q α (pure a)
  bind : ∀ {α β : Type} {x : m α} {f : α → m β}, Q α x → (∀ a, Q β (f a)) → Q β (x >>= f)

namespace Composes

variable {m : Type → Type} [Monad m] {Q : (α : Type) → m α → Prop} {α β : Type}

theorem forM (h : Composes Q) {f : α → m PUnit} {items : List α} (hf : ∀ a ∈ items, Q _ (f a)) :
    Q _ (items.forM f) := by
  induction items with
  | nil => exact h.pure PUnit.unit
  | cons item rest ih =>
      obtain ⟨hitem, hrest⟩ := List.forall_mem_cons.mp hf
      exact h.bind hitem fun _ => ih hrest

theorem foldlM (h : Composes Q) {f : β → α → m β} {items : List α}
    (hf : ∀ b, ∀ a ∈ items, Q _ (f b a)) (start : β) : Q _ (items.foldlM f start) := by
  induction items generalizing start with
  | nil => exact h.pure start
  | cons item rest ih =>
      rw [List.foldlM_cons]
      refine h.bind (hf start item List.mem_cons_self) fun next => ?_
      exact ih (fun b a ha => hf b a (List.mem_cons_of_mem item ha)) next

theorem findM? (h : Composes Q) {p : α → m Bool} {items : List α} (hp : ∀ a ∈ items, Q _ (p a)) :
    Q _ (items.findM? p) := by
  induction items with
  | nil => exact h.pure none
  | cons item rest ih =>
      obtain ⟨hitem, hrest⟩ := List.forall_mem_cons.mp hp
      refine h.bind hitem fun hit => ?_
      cases hit with
      | true => exact h.pure (some item)
      | false => exact ih hrest

theorem findSomeM? (h : Composes Q) {f : α → m (Option β)} {items : List α}
    (hf : ∀ a ∈ items, Q _ (f a)) : Q _ (items.findSomeM? f) := by
  induction items with
  | nil => exact h.pure none
  | cons item rest ih =>
      obtain ⟨hitem, hrest⟩ := List.forall_mem_cons.mp hf
      rw [List.findSomeM?_cons]
      refine h.bind hitem fun answer => ?_
      cases answer with
      | some b => exact h.pure (some b)
      | none => exact ih hrest

/-- The loop collects what it keeps in front of what it has kept before. -/
theorem filterAuxM (h : Composes Q) {p : α → m Bool} {items : List α}
    (hp : ∀ a ∈ items, Q _ (p a)) (kept : List α) : Q _ (items.filterAuxM p kept) := by
  induction items generalizing kept with
  | nil => exact h.pure kept
  | cons item rest ih =>
      obtain ⟨hitem, hrest⟩ := List.forall_mem_cons.mp hp
      exact h.bind hitem fun _ => ih hrest _

theorem filterM (h : Composes Q) {p : α → m Bool} {items : List α} (hp : ∀ a ∈ items, Q _ (p a)) :
    Q _ (items.filterM p) :=
  h.bind (h.filterAuxM hp []) fun kept => h.pure kept.reverse

variable [LawfulMonad m]

theorem mapM (h : Composes Q) {f : α → m β} {items : List α} (hf : ∀ a ∈ items, Q _ (f a)) :
    Q _ (items.mapM f) := by
  induction items with
  | nil =>
      rw [List.mapM_nil]
      exact h.pure []
  | cons item rest ih =>
      obtain ⟨hitem, hrest⟩ := List.forall_mem_cons.mp hf
      rw [List.mapM_cons]
      exact h.bind hitem fun b => h.bind (ih hrest) fun others => h.pure (b :: others)

theorem filterMapM (h : Composes Q) {f : α → m (Option β)} {items : List α}
    (hf : ∀ a ∈ items, Q _ (f a)) : Q _ (items.filterMapM f) := by
  induction items with
  | nil =>
      rw [List.filterMapM_nil]
      exact h.pure []
  | cons item rest ih =>
      obtain ⟨hitem, hrest⟩ := List.forall_mem_cons.mp hf
      rw [List.filterMapM_cons]
      refine h.bind hitem fun answer => ?_
      cases answer with
      | none => exact ih hrest
      | some b => exact h.bind (ih hrest) fun others => h.pure (b :: others)

end Composes

section Building

open Ssa Ssa.Build

variable {Q : Build ValueId → Prop} {value : ValueId} {target : TypeId} {signed : Bool}

/-- A conversion of an integer asks for the types, and then is a single cast or none. -/
theorem Ssa.Build.intCast_of
    (htype : ∀ {f : TypeId → Build ValueId}, (∀ a, Q (f a)) → Q (query (·.typeOf value) >>= f))
    (hclass : ∀ type {f : TypeClass → Build ValueId}, (∀ a, Q (f a)) →
      Q (query (·.classify type) >>= f))
    (hcast : ∀ op, Q (cast op value target)) (hsame : Q (pure value)) :
    Q (intCast value target signed) := by
  refine htype fun source => ?_
  split
  · exact hsame
  · refine hclass source fun sourceClass => hclass target fun targetClass => ?_
    split
    · split
      · exact hcast _
      · split
        · exact hcast _
        · exact hsame
    · exact hsame

/-- So does a conversion of any value, which may be one of an integer. -/
theorem Lowering.coerce_of
    (htype : ∀ {f : TypeId → Build ValueId}, (∀ a, Q (f a)) → Q (query (·.typeOf value) >>= f))
    (hclass : ∀ type {f : TypeClass → Build ValueId}, (∀ a, Q (f a)) →
      Q (query (·.classify type) >>= f))
    (hcast : ∀ op, Q (cast op value target)) (hsame : Q (pure value)) :
    Q (coerce value target signed) := by
  refine htype fun source => ?_
  split
  · exact hsame
  · refine hclass source fun sourceClass => hclass target fun targetClass => ?_
    split
    · exact intCast_of htype (fun type => hclass type) hcast hsame
    · split
      · exact hcast _
      · exact hsame

variable {Q : (α : Type) → Build α → Prop}

/-- Arguments are compared with the parameters one by one. -/
theorem Composes.checkArgs (h : Composes Q) (hquery : ∀ arg, Q _ (query (·.typeOf arg)))
    (hrecord : ∀ index, Q _ (record (.callArgument index))) (index : Nat) (args : List ValueId)
    (params : List TypeId) : Q _ (checkArgs index args params) := by
  induction args generalizing index params with
  | nil => exact h.pure ()
  | cons arg args ih =>
      cases params with
      | nil => exact h.pure ()
      | cons param params =>
          refine h.bind (hquery arg) fun type => ?_
          split
          · exact h.bind (hrecord index) fun _ => ih (index + 1) params
          · exact ih (index + 1) params

/-- Parameters are added one by one. -/
theorem Composes.pushParams (h : Composes Q) {function : FunctionId}
    (hpush : ∀ index type, Q _ (pushValue type (.param function index))) (index : Nat)
    (types : List TypeId) : Q _ (pushParams function index types) := by
  induction types generalizing index with
  | nil => exact h.pure []
  | cons type rest ih =>
      exact h.bind (hpush index type) fun id => h.bind (ih (index + 1)) fun ids =>
        h.pure (id :: ids)

end Building

end CilSsa
