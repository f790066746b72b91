import Mathlib.Data.List.Forall2
import CilSsa.Lowering.Emit.State

/-!
Successful runs of actions, taken apart.

An action succeeds exactly if its parts do, one after the other, each in the state that the last
one left.  The rules below say so for sequences and loops, and for actions on a part of a state.
-/

namespace CilSsa

instance decidableEqExcept {ε α : Type} [DecidableEq ε] [DecidableEq α] :
    DecidableEq (Except ε α)
  | .ok a, .ok b => decidable_of_iff (a = b) (by simp)
  | .error e, .error e' => decidable_of_iff (e = e') (by simp)
  | .ok _, .error _ | .error _, .ok _ => isFalse (by simp)

section Sequences

variable {ε σ α β : Type}

@[simp] theorem bind_eq_ok_iff {x : EStateM ε σ α} {f : α → EStateM ε σ β} {s s' : σ} {b : β} :
    (x >>= f) s = .ok b s' ↔ ∃ a t, x s = .ok a t ∧ f a t = .ok b s' := by
  change EStateM.bind x f s = .ok b s' ↔ _
  unfold EStateM.bind
  cases x s with
  | ok a t =>
      constructor
      · intro h
        exact ⟨a, t, rfl, h⟩
      · rintro ⟨_, _, heq, h⟩
        cases heq
        exact h
  | error e t => simp

/-- A sequence goes on where its first part has led. -/
theorem bind_of_ok {x : EStateM ε σ α} {f : α → EStateM ε σ β} {s t : σ} {a : α}
    (h : x s = .ok a t) :
    (x >>= f) s = f a t := by
  change EStateM.bind x f s = f a t
  simp [EStateM.bind, h]

/-- A sequence stops where its first part does, or where the rest does. -/
theorem bind_eq_error_iff {x : EStateM ε σ α} {f : α → EStateM ε σ β} {s s' : σ}
    {e : ε} : (x >>= f) s = .error e s' ↔
      x s = .error e s' ∨ ∃ a t, x s = .ok a t ∧ f a t = .error e s' := by
  change EStateM.bind x f s = _ ↔ _
  unfold EStateM.bind
  cases x s <;> simp

@[simp] theorem pure_eq_ok_iff {a b : α} {s s' : σ} :
    (pure a : EStateM ε σ α) s = .ok b s' ↔ b = a ∧ s' = s := by
  change EStateM.Result.ok a s = .ok b s' ↔ _
  simp [eq_comm]

@[simp] theorem map_eq_ok_iff {g : α → β} {x : EStateM ε σ α} {s s' : σ} {b : β} :
    (g <$> x) s = .ok b s' ↔ ∃ a, x s = .ok a s' ∧ b = g a := by
  change EStateM.map g x s = .ok b s' ↔ _
  unfold EStateM.map
  cases x s with
  | ok a t =>
      constructor
      · intro h
        cases h
        exact ⟨a, rfl, rfl⟩
      · rintro ⟨_, heq, rfl⟩
        cases heq
        rfl
  | error e t => simp

@[simp] theorem get_eq_ok_iff {s s' a : σ} :
    (get : EStateM ε σ σ) s = .ok a s' ↔ a = s ∧ s' = s := by
  change EStateM.Result.ok s s = .ok a s' ↔ _
  simp [eq_comm]

/-- A question about the state leaves the state as it is. -/
theorem getBind_eq_ok_iff {f : σ → EStateM ε σ β} {s s' : σ} {b : β} :
    (get >>= f) s = .ok b s' ↔ f s s = .ok b s' :=
  Iff.rfl

@[simp] theorem set_eq_ok_iff {s s' t : σ} {u : PUnit} :
    (set t : EStateM ε σ PUnit) s = .ok u s' ↔ s' = t := by
  change EStateM.Result.ok PUnit.unit t = .ok u s' ↔ _
  simp [eq_comm]

@[simp] theorem modify_eq_ok_iff {g : σ → σ} {s s' : σ} {u : PUnit} :
    (modify g : EStateM ε σ PUnit) s = .ok u s' ↔ s' = g s := by
  change EStateM.Result.ok PUnit.unit (g s) = .ok u s' ↔ _
  simp [eq_comm]

@[simp] theorem throw_eq_ok_iff {e : ε} {s s' : σ} {a : α} :
    (throw e : EStateM ε σ α) s = .ok a s' ↔ False := by
  change EStateM.Result.error e s = .ok a s' ↔ _
  simp

end Sequences

section Outcomes

variable {ε σ α : Type}

/-- What an action has returned, and the state it has led to. -/
def outcome? : EStateM.Result ε σ α → Option (α × σ)
  | .ok a s => some (a, s)
  | .error _ _ => none

theorem outcome?_eq_some_iff {r : EStateM.Result ε σ α} {a : α} {s : σ} :
    outcome? r = some (a, s) ↔ r = .ok a s := by
  cases r <;> simp [outcome?]

/-- The state that an action has led to. -/
def stateOf : EStateM.Result ε σ α → σ
  | .ok _ s => s
  | .error _ s => s

/-- An action succeeds if it has an answer, which its state plays no part in. -/
theorem eq_ok_stateOf {r : EStateM.Result ε σ α} {a : α}
    (h : (outcome? r).map Prod.fst = some a) : r = .ok a (stateOf r) := by
  cases r with
  | ok b s =>
      obtain rfl : b = a := Option.some.inj h
      rfl
  | error e s => simp [outcome?] at h

end Outcomes

section Questions

variable {ε α β : Type}

@[simp] theorem exceptBind_eq_ok_iff {x : Except ε α} {f : α → Except ε β} {b : β} :
    (x >>= f) = .ok b ↔ ∃ a, x = .ok a ∧ f a = .ok b := by
  cases x with
  | ok a => simp [bind, Except.bind]
  | error e => simp [bind, Except.bind]

@[simp] theorem exceptPure_eq_ok_iff {a b : α} :
    (pure a : Except ε α) = .ok b ↔ b = a := by
  change Except.ok a = .ok b ↔ _
  simp [eq_comm]

/-- A loop answers each question. -/
theorem exceptMapM_eq_ok_iff {f : α → Except ε β} {items : List α} {results : List β} :
    items.mapM f = .ok results ↔ List.Forall₂ (fun a b => f a = .ok b) items results := by
  induction items generalizing results with
  | nil => simp [List.mapM_nil]
  | cons a rest ih =>
      simp only [List.mapM_cons, exceptBind_eq_ok_iff, exceptPure_eq_ok_iff,
        List.forall₂_cons_left_iff]
      constructor
      · rintro ⟨b, hb, others, hothers, rfl⟩
        exact ⟨b, others, hb, ih.mp hothers, rfl⟩
      · rintro ⟨b, others, hb, hothers, rfl⟩
        exact ⟨b, hb, others, ih.mpr hothers, rfl⟩

theorem exceptMapM_congr {f g : α → Except ε β} {items : List α} (h : ∀ a ∈ items, f a = g a) :
    items.mapM f = items.mapM g := by
  induction items with
  | nil => simp only [List.mapM_nil]
  | cons a rest ih =>
      rw [List.mapM_cons, List.mapM_cons, h a List.mem_cons_self,
        ih fun b hb => h b (List.mem_cons_of_mem _ hb)]

/-- A search finds nothing if each question is answered so. -/
theorem exceptFindSomeM?_eq_none_iff {f : α → Except ε (Option β)} {items : List α} :
    items.findSomeM? f = .ok none ↔ ∀ a ∈ items, f a = .ok none := by
  induction items with
  | nil => simp [pure, Except.pure]
  | cons a rest ih =>
      rw [List.findSomeM?_cons, exceptBind_eq_ok_iff, List.forall_mem_cons, ← ih]
      constructor
      · rintro ⟨found, hfound, h⟩
        cases found with
        | none => exact ⟨hfound, h⟩
        | some b => simp [pure, Except.pure] at h
      · rintro ⟨hfound, h⟩
        exact ⟨none, hfound, h⟩

/-- What a search finds is the answer to a question. -/
theorem mem_of_exceptFindSomeM? {f : α → Except ε (Option β)} {items : List α} {b : β}
    (h : items.findSomeM? f = .ok (some b)) : ∃ a ∈ items, f a = .ok (some b) := by
  induction items with
  | nil => simp [pure, Except.pure] at h
  | cons a rest ih =>
      rw [List.findSomeM?_cons, exceptBind_eq_ok_iff] at h
      obtain ⟨found, hfound, h⟩ := h
      cases found with
      | none =>
          obtain ⟨a', ha', hanswer⟩ := ih h
          exact ⟨a', List.mem_cons_of_mem _ ha', hanswer⟩
      | some b' =>
          obtain rfl := Option.some.inj (exceptPure_eq_ok_iff.mp h)
          exact ⟨a, List.mem_cons_self, hfound⟩

/-- What a search finds is among the items, and the answer is yes for it. -/
theorem mem_of_exceptFindM? {p : α → Except ε Bool} {items : List α} {a : α}
    (h : items.findM? p = .ok (some a)) : a ∈ items ∧ p a = .ok true := by
  induction items with
  | nil => simp [List.findM?, pure, Except.pure] at h
  | cons first rest ih =>
      rw [List.findM?, exceptBind_eq_ok_iff] at h
      obtain ⟨hit, hanswer, h⟩ := h
      cases hit with
      | false =>
          obtain ⟨hmem, htrue⟩ := ih h
          exact ⟨List.mem_cons_of_mem _ hmem, htrue⟩
      | true =>
          obtain rfl := Option.some.inj (exceptPure_eq_ok_iff.mp h)
          exact ⟨List.mem_cons_self, hanswer⟩

theorem exceptFilterAuxM_eq_ok_iff [DecidableEq ε] {p : α → Except ε Bool}
    {items found kept : List α} :
    items.filterAuxM p found = .ok kept ↔ (∀ a ∈ items, ∃ answer, p a = .ok answer) ∧
      kept = (items.filter fun a => p a = .ok true).reverse ++ found := by
  induction items generalizing found with
  | nil => simp [List.filterAuxM]
  | cons first rest ih =>
      rw [List.filterAuxM, exceptBind_eq_ok_iff, List.forall_mem_cons]
      constructor
      · rintro ⟨answer, hanswer, h⟩
        obtain ⟨hrest, rfl⟩ := ih.mp h
        exact ⟨⟨⟨answer, hanswer⟩, hrest⟩, by cases answer <;> simp [hanswer]⟩
      · rintro ⟨⟨⟨answer, hanswer⟩, hrest⟩, rfl⟩
        exact ⟨answer, hanswer, ih.mpr ⟨hrest, by cases answer <;> simp [hanswer]⟩⟩

/-- A filter keeps what the answer is yes for. -/
theorem exceptFilterM_eq_ok_iff [DecidableEq ε] {p : α → Except ε Bool} {items kept : List α} :
    items.filterM p = .ok kept ↔ (∀ a ∈ items, ∃ answer, p a = .ok answer) ∧
      kept = items.filter fun a => p a = .ok true := by
  simp only [List.filterM, exceptBind_eq_ok_iff, exceptPure_eq_ok_iff, exceptFilterAuxM_eq_ok_iff]
  constructor
  · rintro ⟨_, ⟨hall, rfl⟩, rfl⟩
    exact ⟨hall, by simp⟩
  · rintro ⟨hall, rfl⟩
    exact ⟨_, ⟨hall, rfl⟩, by simp⟩

end Questions

theorem exists_mem_of_forall₂ {α β : Type} {R : α → β → Prop} {as : List α} {bs : List β} {a : α}
    (h : List.Forall₂ R as bs) (ha : a ∈ as) : ∃ b ∈ bs, R a b := by
  induction h with
  | nil => simp at ha
  | cons hfirst _ ih =>
      rcases List.mem_cons.mp ha with rfl | ha
      · exact ⟨_, List.mem_cons_self, hfirst⟩
      · obtain ⟨b, hb, hrel⟩ := ih ha
        exact ⟨b, List.mem_cons_of_mem _ hb, hrel⟩

theorem exists_getElem?_of_forall₂ {α β : Type} {R : α → β → Prop} {as : List α} {bs : List β}
    {i : Nat} {a : α} (h : List.Forall₂ R as bs) (ha : as[i]? = some a) :
    ∃ b, bs[i]? = some b ∧ R a b := by
  induction h generalizing i with
  | nil => simp at ha
  | cons hfirst _ ih =>
      cases i with
      | zero =>
          obtain rfl : _ = a := by simpa using ha
          exact ⟨_, rfl, hfirst⟩
      | succ i => exact ih ha

theorem exists_forall₂ {α β : Type} {R : α → β → Prop} {as : List α} (h : ∀ a ∈ as, ∃ b, R a b) :
    ∃ bs, List.Forall₂ R as bs := by
  induction as with
  | nil => exact ⟨[], .nil⟩
  | cons a as ih =>
      obtain ⟨b, hb⟩ := h a List.mem_cons_self
      obtain ⟨bs, hbs⟩ := ih fun a ha => h a (List.mem_cons_of_mem _ ha)
      exact ⟨b :: bs, .cons hb hbs⟩

section Entries

variable {κ α : Type} [BEq κ] [LawfulBEq κ] {entries : List (κ × α)} {k k' : κ} {a a' : α}

/-- What is found is the first entry or one of the others. -/
theorem lookup_cons_cases (h : ((k, a) :: entries).lookup k' = some a') :
    k' = k ∧ a' = a ∨ entries.lookup k' = some a' := by
  rw [List.lookup_cons] at h
  split at h
  · rename_i heq
    exact .inl ⟨eq_of_beq heq, (Option.some.inj h).symm⟩
  · exact .inr h

/-- An entry under a new key hides no other. -/
theorem lookup_cons_of_new (hnew : (entries.lookup k).isSome = false)
    (h : entries.lookup k' = some a') : ((k, a) :: entries).lookup k' = some a' := by
  rw [List.lookup_cons]
  split
  · rename_i heq
    rw [eq_of_beq heq] at h
    simp [h] at hnew
  · exact h

end Entries

namespace Ssa.Build

variable {α : Type} {m m' : Module} {a : α}

attribute [simp] query_eq_ok_iff

/-- The answer to a question that has one. -/
theorem query_bind {β : Type} {question : Module → Except Fault α} {f : α → Build β}
    (h : question m = .ok a) : (query question >>= f) m = f a m := by
  change EStateM.bind (query question) f m = _
  simp [EStateM.bind, query, h]

@[simp] theorem ask_eq_ok_iff {question : Except Fault α} :
    ask question m = .ok a m' ↔ question = .ok a ∧ m' = m := by
  simp [ask]

end Ssa.Build

namespace Lowering

def answerOf {ε σ α : Type} : EStateM.Result ε σ α → Except ε α
  | .ok a _ => .ok a
  | .error e _ => .error e

open CilSsa.Ssa

namespace Lower

variable {α : Type} {s s' : Session} {a : α}

@[simp] theorem liftM_build (x : Build α) : (liftM x : Lower α) = build x := rfl

@[simp] theorem liftM_register (x : Registering α) : (liftM x : Lower α) = register x := rfl

@[simp] theorem liftM_layout (x : Layouts α) : (liftM x : Lower α) = layout x := rfl

@[simp] theorem liftM_ask (x : Except Fault α) : (liftM x : Lower α) = ask x := rfl

@[simp] theorem build_eq_ok_iff {x : Build α} :
    build x s = .ok a s' ↔ ∃ m, x s.module = .ok a m ∧ s' = { s with module := m } := by
  unfold build
  cases x s.module <;> grind

@[simp] theorem register_eq_ok_iff {x : Registering α} :
    register x s = .ok a s' ↔ ∃ r, x s.registry = .ok a r ∧ s' = { s with registry := r } := by
  unfold register
  cases x s.registry <;> grind

@[simp] theorem layout_eq_ok_iff {x : Layouts α} :
    layout x s = .ok a s' ↔ ∃ c, x s.layouts = .ok a c ∧ s' = { s with layouts := c } := by
  unfold layout
  cases x s.layouts <;> grind

@[simp] theorem ask_eq_ok_iff {question : Except Fault α} :
    ask question s = .ok a s' ↔ question = .ok a ∧ s' = s := by
  unfold ask
  cases question with
  | ok b => simp [eq_comm]
  | error fault => simp

@[simp] theorem consult_eq_ok_iff {question : Registry → Except Stop α} :
    consult question s = .ok a s' ↔ question s.registry = .ok a ∧ s' = s := by
  unfold consult
  cases question s.registry with
  | ok b => simp [eq_comm]
  | error stop => simp

@[simp] theorem fail_eq_ok_iff {error : LoweringError} :
    (fail error : Lower α) s = .ok a s' ↔ False := by
  simp [fail]

theorem build_bind {β : Type} (x : Build α) (f : α → Build β) :
    build (x >>= f) = build x >>= fun a => build (f a) := by
  funext s
  simp only [build, bind, EStateM.bind]
  cases x s.module <;> rfl

end Lower

theorem Registry.found_eq_ok_iff {α : Type} {asm : Metadata.Assembly} {ty : Metadata.TypeDefId}
    {missing : String → LoweringError} {entry : Option α} {a : α} :
    found asm ty missing entry = .ok a ↔ entry = some a := by
  cases entry with
  | none => cases hname : asm.typeName ty <;> simp [found, hname, answer, bind, Except.bind]
  | some b => simp [found]

namespace Emit

variable {α : Type} {s s' : EmitState} {a : α}

@[simp] theorem liftM_lower (x : Lower α) : (liftM x : Emit α) = lower x := rfl

@[simp] theorem liftM_build (x : Build α) : (liftM x : Emit α) = lower (Lower.build x) := rfl

@[simp] theorem lower_eq_ok_iff {x : Lower α} :
    lower x s = .ok a s' ↔ ∃ t, x s.session = .ok a t ∧ s' = { s with session := t } := by
  unfold lower
  cases x s.session <;> grind

@[simp] theorem fail_eq_ok_iff {error : LoweringError} :
    (fail error : Emit α) s = .ok a s' ↔ False := by
  simp [fail]

@[simp] theorem malformed_eq_ok_iff {site : Site} {problem : OperandProblem} :
    (malformed site problem : Emit α) s = .ok a s' ↔ False := by
  simp [malformed]

@[simp] theorem push_eq_ok_iff {e : Element} {u : Unit} :
    push e s = .ok u s' ↔ s' = { s with stack := s.stack.push e } := by
  simp [push]

@[simp] theorem pop_eq_ok_iff {site : Site} {e : Element} :
    pop site s = .ok e s' ↔
      ∃ rest, s.stack.pop? = some (e, rest) ∧ s' = { s with stack := rest } := by
  rw [pop]
  cases hpop : s.stack.pop? with
  | none => simp [hpop]
  | some top =>
      obtain ⟨e', rest⟩ := top
      constructor
      · intro h
        simp only [bind_eq_ok_iff, get_eq_ok_iff] at h
        obtain ⟨_, _, ⟨rfl, rfl⟩, h⟩ := h
        simp only [hpop, bind_eq_ok_iff, modify_eq_ok_iff, pure_eq_ok_iff] at h
        obtain ⟨_, _, rfl, rfl, rfl⟩ := h
        exact ⟨rest, rfl, rfl⟩
      · rintro ⟨_, heq, rfl⟩
        cases heq
        simp only [bind_eq_ok_iff, get_eq_ok_iff]
        refine ⟨s, s, ⟨rfl, rfl⟩, ?_⟩
        simp [hpop]

theorem lower_bind {β : Type} (x : Lower α) (f : α → Lower β) :
    lower (x >>= f) = lower x >>= fun a => lower (f a) := by
  funext s
  simp only [lower, bind, EStateM.bind]
  cases x s.session <;> rfl

end Emit

end Lowering

end CilSsa
