import CilSsa.Proofs.Composition
import CilSsa.Proofs.References
import CilSsa.Proofs.Success

/-!
Computations that meet no dangling id.

In an assembly where everything that is referred to exists, data that is taken from it holds known
ids only, and so does what is computed from such data.  A computation is safe if, from known ids, it
returns known ids and does not stop for an id of the metadata that leads nowhere.  For most
computations this follows from their parts, so it is found by instance search.
-/

namespace CilSsa

open Ssa Metadata Lowering

section Reasons

/-- Whether a fault comes from an id of the metadata. -/
def Fault.isDangling : Fault → Bool
  | .outOfRange .typeDef _ | .outOfRange .field _ | .outOfRange .method _ => true
  | _ => false

/-- Reasons to stop, some of which come from ids of the metadata. -/
class Reason (ε : Type) where
  isDangling : ε → Bool

instance : Reason Fault := ⟨Fault.isDangling⟩

instance : Reason Stop := ⟨fun
  | .fault fault => fault.isDangling
  | .error _ => false⟩

/-- Whether a computation does not stop because of an id of the metadata. -/
def Resolves {ε α : Type} [Reason ε] (x : Except ε α) : Prop :=
  ∀ e, x = .error e → Reason.isDangling e = false

end Reasons

section Data

/-- Data that holds ids of the metadata. -/
class HoldsIds (α : Type) where
  known : Assembly → α → Prop

/-- Whether all ids that some data holds are ids of definitions. -/
class Known (asm : Assembly) {α : Type} [HoldsIds α] (a : α) : Prop where
  out : HoldsIds.known asm a

/-- Most data holds no ids. -/
instance (priority := low) noIds (α : Type) : HoldsIds α := ⟨fun _ _ => True⟩

/-- Data with known ids, for rules about all of it. -/
structure Item (asm : Assembly) (α : Type) [HoldsIds α] where
  val : α
  known : Known asm val

variable {asm : Assembly} {α β : Type}

instance (a : α) : @Known asm α (noIds α) a := ⟨trivial⟩

instance [HoldsIds α] (a : Item asm α) : Known asm a.val := a.known

section Containers

variable [HoldsIds α] [HoldsIds β]

instance : HoldsIds (List α) := ⟨fun asm items => ∀ a ∈ items, Known asm a⟩

instance : HoldsIds (Option α) := ⟨fun asm item => ∀ a, item = some a → Known asm a⟩

instance : HoldsIds (α × β) := ⟨fun asm p => Known asm p.1 ∧ Known asm p.2⟩

theorem Known.head {a : α} {rest : List α} (h : Known asm (a :: rest)) : Known asm a :=
  h.out a List.mem_cons_self

theorem Known.tail {a : α} {rest : List α} (h : Known asm (a :: rest)) : Known asm rest :=
  ⟨fun b hb => h.out b (List.mem_cons_of_mem a hb)⟩

theorem Known.ofSome {a : α} (h : Known asm (some a)) : Known asm a := h.out a rfl

theorem Known.of_eq_some {item : Option α} [h : Known asm item] {a : α} (ha : item = some a) :
    Known asm a :=
  h.out a ha

instance (pairs : List (α × β)) [BEq α] (key : α) [h : Known asm pairs] :
    Known asm (pairs.lookup key) := by
  refine ⟨fun value hvalue => ?_⟩
  induction pairs generalizing h with
  | nil => exact nomatch hvalue
  | cons pair rest ih =>
      obtain ⟨first, held⟩ := pair
      have hpair : Known asm (first, held) := h.out _ List.mem_cons_self
      rw [List.lookup_cons] at hvalue
      split at hvalue
      · exact Option.some.inj hvalue ▸ hpair.out.2
      · exact @ih ⟨fun other hother => h.out other (List.mem_cons_of_mem _ hother)⟩ hvalue

instance (items : List α) [h : ∀ a : α, Known asm a] : Known asm items := ⟨fun a _ => h a⟩

instance (item : Option α) [h : ∀ a : α, Known asm a] : Known asm item := ⟨fun a _ => h a⟩

instance (p : α × β) [ha : ∀ a : α, Known asm a] [hb : ∀ b : β, Known asm b] : Known asm p :=
  ⟨ha p.1, hb p.2⟩

instance : Known asm ([] : List α) := ⟨fun _ h => absurd h List.not_mem_nil⟩

instance (a : α) (rest : List α) [ha : Known asm a] [hrest : Known asm rest] :
    Known asm (a :: rest) :=
  ⟨List.forall_mem_cons.mpr ⟨ha, hrest.out⟩⟩

instance (l l' : List α) [h : Known asm l] [h' : Known asm l'] : Known asm (l ++ l') :=
  ⟨List.forall_mem_append.mpr ⟨h.out, h'.out⟩⟩

instance (l : List α) [h : Known asm l] : Known asm l.reverse :=
  ⟨fun a ha => h.out a (List.mem_reverse.mp ha)⟩

instance (count : Nat) (l : List α) [h : Known asm l] : Known asm (l.take count) :=
  ⟨fun a ha => h.out a (List.mem_of_mem_take ha)⟩

instance (count : Nat) (l : List α) [h : Known asm l] : Known asm (l.drop count) :=
  ⟨fun a ha => h.out a (List.mem_of_mem_drop ha)⟩

instance (l : List α) [h : Known asm l] : Known asm l.dropLast :=
  ⟨fun a ha => h.out a (List.dropLast_subset l ha)⟩

instance (l : List α) [h : Known asm l] : Known asm l.getLast? :=
  ⟨fun a ha => h.out a (List.mem_of_getLast? ha)⟩

instance (l : List α) (l' : List β) [h : Known asm l] [h' : Known asm l'] :
    Known asm (l.zip l') :=
  ⟨fun p hp => ⟨h.out p.1 (List.of_mem_zip hp).1, h'.out p.2 (List.of_mem_zip hp).2⟩⟩

theorem Known.map {g : α → β} {item : Option α} (h : Known asm item)
    (hg : ∀ a, Known asm a → Known asm (g a)) : Known asm (item.map g) := by
  refine ⟨fun b hb => ?_⟩
  obtain ⟨a, ha, rfl⟩ := Option.map_eq_some_iff.mp hb
  exact hg a (h.out a ha)

theorem Known.each {g : α → β} {l : List α} (h : Known asm l)
    (hg : ∀ a, Known asm a → Known asm (g a)) : Known asm (l.map g) := by
  refine ⟨fun b hb => ?_⟩
  obtain ⟨a, ha, rfl⟩ := List.mem_map.mp hb
  exact hg a (h.out a ha)

instance : Known asm (none : Option α) := ⟨fun _ h => nomatch h⟩

instance (a : α) [h : Known asm a] : Known asm (some a) := ⟨fun _ heq => Option.some.inj heq ▸ h⟩

instance (item : Option α) [h : Known asm item] : Known asm item.toList :=
  ⟨fun a ha => h.out a (Option.mem_toList.mp ha)⟩

instance (a : α) (b : β) [ha : Known asm a] [hb : Known asm b] : Known asm (a, b) := ⟨ha, hb⟩

instance (p : α × β) [h : Known asm p] : Known asm p.2 := h.out.2

instance (c : Prop) [Decidable c] (a b : α) [ha : Known asm a] [hb : Known asm b] :
    Known asm (if c then a else b) := by
  split
  · exact ha
  · exact hb

end Containers

end Data

section Computations

/-- A monad in which it is clear what a computation may return, and that it does not stop for an id
of the metadata. -/
class Careful (asm : Assembly) (m : Type → Type) [Monad m] where
  Gives : {α : Type} → (α → Prop) → m α → Prop
  pure : ∀ {α : Type} {good : α → Prop} {a : α}, good a → Gives good (Pure.pure a)
  bind : ∀ {α β : Type} {good : α → Prop} {good' : β → Prop} {x : m α} {f : α → m β},
    Gives good x → (∀ a, good a → Gives good' (f a)) → Gives good' (x >>= f)

instance (asm : Assembly) {ε : Type} [Reason ε] : Careful asm (Except ε) where
  Gives good x := match x with
    | .ok a => good a
    | .error e => Reason.isDangling e = false
  pure h := h
  bind {_ _ _ _ x _} hx hf := by
    cases x with
    | ok a => exact hf a hx
    | error e => exact hx

instance (asm : Assembly) {ε σ : Type} [Reason ε] [HoldsIds σ] : Careful asm (EStateM ε σ) where
  Gives good x := ∀ s, Known asm s → match x s with
    | .ok a s' => good a ∧ Known asm s'
    | .error e _ => Reason.isDangling e = false
  pure h _ hs := ⟨h, hs⟩
  bind {_ _ _ _ x f} hx hf s hs := by
    have hx := hx s hs
    change match EStateM.bind x f s with
      | .ok a s' => _ ∧ Known asm s'
      | .error e _ => Reason.isDangling e = false
    unfold EStateM.bind
    split at hx
    · rename_i a s' hrun
      rw [hrun]
      exact hf a hx.1 s' hx.2
    · rename_i e s' hrun
      rw [hrun]
      exact hx

/-- A computation that, from known ids, returns known ids and stops for no dangling id. -/
class Safe (asm : Assembly) {m : Type → Type} [Monad m] [Careful asm m] {α : Type} [HoldsIds α]
    (x : m α) : Prop where
  gives : Careful.Gives asm (fun a => Known asm a) x

namespace Safe

variable {asm : Assembly} {m : Type → Type} [Monad m] [Careful asm m] {α β : Type} [HoldsIds α]
  [HoldsIds β]

instance pure (a : α) [h : Known asm a] : Safe asm (pure a : m α) := ⟨Careful.pure h⟩

theorem seq {x : m α} {f : α → m β} (hx : Safe asm x) (hf : ∀ a, Known asm a → Safe asm (f a)) :
    Safe asm (x >>= f) :=
  ⟨Careful.bind hx.gives fun a ha => (hf a ha).gives⟩

instance bind (x : m α) (f : α → m β) [hx : Safe asm x]
    [hf : ∀ a : Item asm α, Safe asm (f a.val)] : Safe asm (x >>= f) :=
  seq hx fun a ha => hf ⟨a, ha⟩

instance ite (c : Prop) [Decidable c] (x y : m α) [hx : Safe asm x] [hy : Safe asm y] :
    Safe asm (if c then x else y) :=
  iteInduction (fun _ => hx) fun _ => hy

section Loops

theorem forM_known {f : α → m PUnit} {items : List α} (hitems : Known asm items)
    (hf : ∀ a, Known asm a → Safe asm (f a)) : Safe asm (items.forM f) := by
  induction items with
  | nil => exact pure PUnit.unit
  | cons item rest ih => exact seq (hf item hitems.head) fun _ _ => ih hitems.tail

instance forM (f : α → m PUnit) (items : List α) [hitems : Known asm items]
    [hf : ∀ a : Item asm α, Safe asm (f a.val)] : Safe asm (items.forM f) :=
  forM_known hitems fun a ha => hf ⟨a, ha⟩

instance foldlM (f : β → α → m β) (items : List α) (start : β) [hitems : Known asm items]
    [hstart : Known asm start]
    [hf : ∀ (b : Item asm β) (a : Item asm α), Safe asm (f b.val a.val)] :
    Safe asm (items.foldlM f start) := by
  induction items generalizing hitems start with
  | nil =>
      rw [List.foldlM_nil]
      infer_instance
  | cons item rest ih =>
      rw [List.foldlM_cons]
      have := hitems.tail
      exact seq (hf ⟨start, hstart⟩ ⟨item, hitems.head⟩) fun next hnext => ih next

instance findM? (p : α → m Bool) (items : List α) [hitems : Known asm items]
    [hp : ∀ a : Item asm α, Safe asm (p a.val)] : Safe asm (items.findM? p) := by
  induction items generalizing hitems with
  | nil => exact pure none
  | cons item rest ih =>
      have := hitems.head
      refine seq (hp ⟨item, hitems.head⟩) fun hit _ => ?_
      cases hit with
      | true => exact pure (some item)
      | false => exact @ih hitems.tail

instance findSomeM? (f : α → m (Option β)) (items : List α) [hitems : Known asm items]
    [hf : ∀ a : Item asm α, Safe asm (f a.val)] : Safe asm (items.findSomeM? f) := by
  induction items generalizing hitems with
  | nil => exact pure none
  | cons item rest ih =>
      rw [List.findSomeM?_cons]
      refine seq (hf ⟨item, hitems.head⟩) fun answer hanswer => ?_
      cases answer with
      | some b => exact pure (some b)
      | none => exact @ih hitems.tail

instance filterM (p : α → m Bool) (items : List α) [hitems : Known asm items]
    [hp : ∀ a : Item asm α, Safe asm (p a.val)] : Safe asm (items.filterM p) := by
  have hloop (kept : List α) (hkept : Known asm kept) : Safe asm (items.filterAuxM p kept) := by
    induction items generalizing hitems kept with
    | nil => exact pure kept
    | cons item rest ih =>
        have := hitems.head
        refine seq (hp ⟨item, hitems.head⟩) fun hit _ => ?_
        cases hit with
        | true => exact @ih hitems.tail (item :: kept) inferInstance
        | false => exact @ih hitems.tail kept hkept
  exact seq (hloop [] inferInstance) fun kept _ => pure kept.reverse

variable [LawfulMonad m]

instance map (g : α → β) (x : m α) [hx : Safe asm x] [hg : ∀ a : Item asm α, Known asm (g a.val)] :
    Safe asm (g <$> x) := by
  rw [map_eq_pure_bind]
  infer_instance

theorem mapM_known {f : α → m β} {items : List α} (hitems : Known asm items)
    (hf : ∀ a, Known asm a → Safe asm (f a)) : Safe asm (items.mapM f) := by
  induction items with
  | nil =>
      rw [List.mapM_nil]
      infer_instance
  | cons item rest ih =>
      rw [List.mapM_cons]
      have hfirst := hf item hitems.head
      have hrest := ih hitems.tail
      infer_instance

instance mapM (f : α → m β) (items : List α) [hitems : Known asm items]
    [hf : ∀ a : Item asm α, Safe asm (f a.val)] : Safe asm (items.mapM f) :=
  mapM_known hitems fun a ha => hf ⟨a, ha⟩

theorem filterMapM_known {f : α → m (Option β)} {items : List α} (hitems : Known asm items)
    (hf : ∀ a, Known asm a → Safe asm (f a)) : Safe asm (items.filterMapM f) := by
  induction items with
  | nil =>
      rw [List.filterMapM_nil]
      infer_instance
  | cons item rest ih =>
      rw [List.filterMapM_cons]
      have hrest := ih hitems.tail
      refine seq (hf item hitems.head) fun answer hanswer => ?_
      cases answer with
      | some b =>
          have := hanswer.ofSome
          infer_instance
      | none => exact hrest

end Loops

section States

variable {ε σ : Type} [Reason ε] [HoldsIds σ]

instance get : Safe asm (get : EStateM ε σ σ) := ⟨fun _ hs => ⟨hs, hs⟩⟩

instance set (s : σ) [hs : Known asm s] : Safe asm (set s : EStateM ε σ PUnit) :=
  ⟨fun _ _ => ⟨⟨trivial⟩, hs⟩⟩

instance modify (f : σ → σ) [hf : ∀ s : Item asm σ, Known asm (f s.val)] :
    Safe asm (modify f : EStateM ε σ PUnit) :=
  ⟨fun s hs => ⟨⟨trivial⟩, hf ⟨s, hs⟩⟩⟩

instance error (error : LoweringError) : Safe asm (throw (.error error) : EStateM Stop σ α) :=
  ⟨fun _ _ => rfl⟩

end States

section Outcomes

variable {ε σ : Type} [Reason ε] {e : ε} {a : α}

theorem answer {x : Except ε α} (h : Safe asm x) (hx : x = .ok a) : Known asm a := by
  subst hx
  exact h.gives

theorem reason {x : Except ε α} (h : Safe asm x) (hx : x = .error e) :
    Reason.isDangling e = false := by
  subst hx
  exact h.gives

theorem resolves {x : Except ε α} (h : Safe asm x) : Resolves x := fun _ => h.reason

variable [HoldsIds σ] {x : EStateM ε σ α} {s s' : σ}

/-- An action that never stops. -/
theorem ofResult (h : ∀ s, Known asm s → ∃ a s', x s = .ok a s' ∧ Known asm a ∧ Known asm s') :
    Safe asm x := by
  refine ⟨fun s hs => ?_⟩
  obtain ⟨a, s', hrun, hresult⟩ := h s hs
  rw [hrun]
  exact hresult

theorem result (h : Safe asm x) (hs : Known asm s) (hx : x s = .ok a s') :
    Known asm a ∧ Known asm s' := by
  have hgives := h.gives s hs
  rwa [hx] at hgives

theorem stop (h : Safe asm x) (hs : Known asm s) (hx : x s = .error e s') :
    Reason.isDangling e = false := by
  have hgives := h.gives s hs
  rwa [hx] at hgives

end Outcomes

end Safe

end Computations

end CilSsa
