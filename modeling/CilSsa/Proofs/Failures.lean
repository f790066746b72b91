import CilSsa.Proofs.Emission

/-!
Compilations that fail.

An action that fails leaves the state as it has become so far.  What is true of that state, and of
the error, is found like what is true after a success, from the parts of the action: an invariant
that holds until a part fails, and what a failing part guarantees.
-/

namespace CilSsa

open Ssa Metadata Lowering

section Phases

variable {σ α β : Type} {I : σ → Prop} {F : LoweringError → σ → Prop}

/-- An action that leads from states with one property to answers and states with another one, or
fails in a way that is provided for. -/
structure Leads (I : σ → Prop) (J : α → σ → Prop) (F : LoweringError → σ → Prop)
    (x : EStateM Stop σ α) : Prop where
  ok : ∀ {s : σ} {a : α} {s' : σ}, I s → x s = .ok a s' → J a s'
  fails : ∀ {s : σ} {e : LoweringError} {s' : σ}, I s → x s = .error (.error e) s' → F e s'

/-- An action during which an invariant holds: a run from a state where it does leads to another
such state, or fails in a way that is provided for. -/
class Upholds (I : σ → Prop) (F : LoweringError → σ → Prop) (x : EStateM Stop σ α) : Prop where
  ok : ∀ {s : σ} {a : α} {s' : σ}, I s → x s = .ok a s' → I s'
  fails : ∀ {s : σ} {e : LoweringError} {s' : σ}, I s → x s = .error (.error e) s' → F e s'

theorem Upholds.leads {x : EStateM Stop σ α} (hx : Upholds I F x) : Leads I (fun _ => I) F x where
  ok := hx.ok
  fails := hx.fails

theorem Leads.upholds {x : EStateM Stop σ α} (hx : Leads I (fun _ => I) F x) : Upholds I F x where
  ok := hx.ok
  fails := hx.fails

namespace Leads

variable {J : α → σ → Prop} {K : β → σ → Prop} {x : EStateM Stop σ α} {f : α → EStateM Stop σ β}

/-- What comes after an action may rely on its answer. -/
theorem seqOf (hx : Leads I J F x)
    (hf : ∀ {s a s'}, I s → x s = .ok a s' → Leads (J a) K F (f a)) : Leads I K F (x >>= f) where
  ok hs h := by
    obtain ⟨a, t, hfirst, hrest⟩ := bind_eq_ok_iff.mp h
    exact (hf hs hfirst).ok (hx.ok hs hfirst) hrest
  fails hs h := by
    rcases bind_eq_error_iff.mp h with hfirst | ⟨a, t, hfirst, hrest⟩
    · exact hx.fails hs hfirst
    · exact (hf hs hfirst).fails (hx.ok hs hfirst) hrest

/-- One phase after another. -/
theorem seq (hx : Leads I J F x) (hf : ∀ a, Leads (J a) K F (f a)) : Leads I K F (x >>= f) :=
  hx.seqOf fun _ _ => hf _

/-- A phase after an action within the one before. -/
theorem after (hx : Upholds I F x) (hf : ∀ {s a s'}, I s → x s = .ok a s' → Leads I K F (f a)) :
    Leads I K F (x >>= f) :=
  hx.leads.seqOf hf

theorem pure {a : α} (h : ∀ {s}, I s → J a s) :
    Leads I J F (Pure.pure a : EStateM Stop σ α) where
  ok hs hrun := by
    obtain ⟨rfl, rfl⟩ := pure_eq_ok_iff.mp hrun
    exact h hs
  fails _ hrun := nomatch hrun

theorem ite {c : Prop} [Decidable c] {y : EStateM Stop σ α} (hx : Leads I J F x)
    (hy : Leads I J F y) : Leads I J F (if c then x else y) := by
  split
  · exact hx
  · exact hy

theorem mono {J' : α → σ → Prop} (hx : Leads I J F x) (h : ∀ {a s}, J a s → J' a s) :
    Leads I J' F x where
  ok hs hrun := h (hx.ok hs hrun)
  fails := hx.fails

/-- What comes after a question about the state may rely on the answer for as long as the state is
the same. -/
theorem getBind {f : σ → EStateM Stop σ α} {J : α → σ → Prop}
    (hf : ∀ s, Leads (fun t => I t ∧ t = s) J F (f s)) : Leads I J F (get >>= f) where
  ok hs h := (hf _).ok ⟨hs, rfl⟩ h
  fails hs h := (hf _).fails ⟨hs, rfl⟩ h

theorem weaken {I' : σ → Prop} {x : EStateM Stop σ α} {J : α → σ → Prop} (hx : Leads I J F x)
    (h : ∀ {s}, I' s → I s) : Leads I' J F x where
  ok hs hrun := hx.ok (h hs) hrun
  fails hs hrun := hx.fails (h hs) hrun

/-- What is known besides the state may be relied on. -/
theorem assuming {p : Prop} {x : EStateM Stop σ α} {J : α → σ → Prop} (hx : p → Leads I J F x) :
    Leads (fun s => I s ∧ p) J F x where
  ok hs h := (hx hs.2).ok hs.1 h
  fails hs h := (hx hs.2).fails hs.1 h

end Leads

end Phases

namespace Upholds

variable {σ α β : Type} {I : σ → Prop} {F : LoweringError → σ → Prop}

section Sequences

instance pure (a : α) : Upholds I F (pure a : EStateM Stop σ α) :=
  Leads.upholds (Leads.pure fun hs => hs)

/-- What comes after an action may rely on its answer. -/
theorem seqOf {x : EStateM Stop σ α} {f : α → EStateM Stop σ β} (hx : Upholds I F x)
    (hf : ∀ {s a s'}, I s → x s = .ok a s' → Upholds I F (f a)) : Upholds I F (x >>= f) :=
  (Leads.after hx fun hs h => (hf hs h).leads).upholds

theorem seq {x : EStateM Stop σ α} {f : α → EStateM Stop σ β} (hx : Upholds I F x)
    (hf : ∀ a, Upholds I F (f a)) : Upholds I F (x >>= f) :=
  hx.seqOf fun _ _ => hf _

instance bind (x : EStateM Stop σ α) (f : α → EStateM Stop σ β) [hx : Upholds I F x]
    [hf : ∀ a, Upholds I F (f a)] : Upholds I F (x >>= f) :=
  seq hx hf

instance map (g : α → β) (x : EStateM Stop σ α) [hx : Upholds I F x] : Upholds I F (g <$> x) :=
  seq hx fun _ => pure _

instance get : Upholds I F (get : EStateM Stop σ σ) where
  ok hs h := by
    obtain ⟨-, rfl⟩ := get_eq_ok_iff.mp h
    exact hs
  fails _ h := nomatch h

instance ite (c : Prop) [Decidable c] (x y : EStateM Stop σ α) [hx : Upholds I F x]
    [hy : Upholds I F y] : Upholds I F (if c then x else y) :=
  iteInduction (fun _ => hx) fun _ => hy

end Sequences

section Loops

theorem composes : Composes fun (α : Type) (x : EStateM Stop σ α) => Upholds I F x := ⟨pure, seq⟩

instance mapM (f : α → EStateM Stop σ β) [hf : ∀ a, Upholds I F (f a)] (items : List α) :
    Upholds I F (items.mapM f) :=
  composes.mapM fun a _ => hf a

instance forM (f : α → EStateM Stop σ PUnit) [hf : ∀ a, Upholds I F (f a)] (items : List α) :
    Upholds I F (items.forM f) :=
  composes.forM fun a _ => hf a

instance foldlM (f : β → α → EStateM Stop σ β) [hf : ∀ b a, Upholds I F (f b a)] (items : List α)
    (start : β) : Upholds I F (items.foldlM f start) :=
  composes.foldlM (fun b a _ => hf b a) start

end Loops

end Upholds

namespace Lowering

/-- Whether a failure is the lack of an entry that an earlier phase should have made. -/
def LoweringError.isLookup : LoweringError → Bool
  | .typeNotFound _ | .vtableNotFound _ | .newobjNotFound _ | .vtableSlotNotFound _
  | .interfaceNotIndexed _ => true
  | _ => false

/-- A failure for another reason. -/
def Unrelated {σ : Type} (e : LoweringError) (_ : σ) : Prop := e.isLookup = false

section Sessions

variable {asm : Assembly} {P : Change → Prop} {I : Session → Prop}
  {F : LoweringError → Session → Prop} {α : Type}

/-- An invariant of a compilation that changes of the module leave alone, and failures, other than
for lack of an entry, that leave the state as it is. -/
class Upholding (P : outParam (Change → Prop)) (I : Session → Prop)
    (F : LoweringError → Session → Prop) : Prop where
  build : ∀ {α : Type} {x : Build α}, Keeps (Module.Evolves P) x →
    ∀ {s : Session} {a : α} {m : Module}, I s → x s.module = .ok a m → I { s with module := m }
  here : ∀ {s : Session} {e : LoweringError}, I s → e.isLookup = false → F e s

/-- Actions on the module do not fail. -/
theorem build_ne_error {x : Build α} {s s' : Session} {e : LoweringError} :
    Lower.build x s ≠ .error (.error e) s' := by
  intro h
  unfold Lower.build at h
  split at h <;> cases h

theorem upholds_build {x : Build α}
    (hx : ∀ {s : Session} {a : α} {m : Module}, I s → x s.module = .ok a m →
      I { s with module := m }) : Upholds I F (Lower.build x) where
  ok hs h := by
    obtain ⟨m, hrun, rfl⟩ := Lower.build_eq_ok_iff.mp h
    exact hx hs hrun
  fails _ h := (build_ne_error h).elim

instance (question : Except Fault α) : Upholds I F (Lower.ask question) where
  ok hs h := by
    obtain ⟨-, rfl⟩ := Lower.ask_eq_ok_iff.mp h
    exact hs
  fails {s e s'} _ h := by
    unfold Lower.ask at h
    split at h <;> cases h

theorem consult_eq_error_iff {question : Registry → Except Stop α} {stop : Stop} {s s' : Session} :
    Lower.consult question s = .error stop s' ↔ question s.registry = .error stop ∧ s' = s := by
  unfold Lower.consult
  cases question s.registry <;> simp [eq_comm]

/-- A question about the registry fails where it is asked. -/
theorem upholds_consult {question : Registry → Except Stop α}
    (hfails : ∀ {s e}, I s → question s.registry = .error (.error e) → F e s) :
    Upholds I F (Lower.consult question) where
  ok hs h := by
    obtain ⟨-, rfl⟩ := Lower.consult_eq_ok_iff.mp h
    exact hs
  fails hs h := by
    obtain ⟨hquestion, rfl⟩ := consult_eq_error_iff.mp h
    exact hfails hs hquestion

/-- The lack of an entry is a failure with the name of the type. -/
theorem found_eq_error {ty : TypeDefId} {missing : String → LoweringError} {entry : Option α}
    {e : LoweringError} (h : Registry.found asm ty missing entry = .error (.error e)) :
    entry = none ∧ ∃ name, asm.typeName ty = .ok name ∧ e = missing name := by
  cases entry with
  | some a => cases h
  | none =>
      refine ⟨rfl, ?_⟩
      cases hname : asm.typeName ty with
      | error fault =>
          simp only [Registry.found, hname, answer] at h
          cases h
      | ok name =>
          simp only [Registry.found, hname, answer] at h
          cases h
          exact ⟨name, rfl, rfl⟩

/-- A key that is taken is refused before anything is registered. -/
theorem claim_eq_error {taken : Bool} {kind : EntryKind} {name : Except Fault String}
    {r r' : Registry} {e : LoweringError}
    (h : Registering.claim taken kind name r = .error (.error e) r') :
    r' = r ∧ e.isLookup = false := by
  unfold Registering.claim at h
  split at h
  · split at h
    · cases h
      exact ⟨rfl, rfl⟩
    · cases h
  · cases h

theorem upholds_claim [hI : Upholding P I F] {taken : Registry → Bool} {kind : EntryKind}
    {name : Except Fault String} {next : Registry → Registry}
    (hnext : ∀ {s : Session}, I s → taken s.registry = false →
      I { s with registry := next s.registry }) :
    Upholds I F (Lower.register (do
      Registering.claim (taken (← get)) kind name
      modify next : Registering PUnit)) where
  ok {s a s'} hs h := by
    obtain ⟨r, hregister, rfl⟩ := Lower.register_eq_ok_iff.mp h
    rw [getBind_eq_ok_iff] at hregister
    obtain ⟨_, r₁, hclaim, hmodify⟩ := bind_eq_ok_iff.mp hregister
    obtain rfl := modify_eq_ok_iff.mp hmodify
    cases htaken : taken s.registry with
    | true =>
        simp only [Registering.claim, htaken, if_true] at hclaim
        split at hclaim <;> cases hclaim
    | false =>
        simp only [Registering.claim, htaken, Bool.false_eq_true, if_false] at hclaim
        cases hclaim
        exact hnext hs htaken
  fails {s e s'} hs h := by
    unfold Lower.register at h
    split at h
    · cases h
    · rename_i r hregister
      cases h
      rcases bind_eq_error_iff.mp hregister with hget | ⟨_, _, hget, hclaim⟩
      · cases hget
      · obtain ⟨rfl, rfl⟩ := get_eq_ok_iff.mp hget
        rcases bind_eq_error_iff.mp hclaim with hclaim | ⟨_, _, -, hmodify⟩
        · obtain ⟨rfl, hlookup⟩ := claim_eq_error hclaim
          exact hI.here hs hlookup
        · cases hmodify

section Instances

instance (x : Build α) [h : Upholds I F (Lower.build x)] : Upholds I F (liftM x : Lower α) := h

instance (x : Registering α) [h : Upholds I F (Lower.register x)] :
    Upholds I F (liftM x : Lower α) :=
  h

instance (x : Layouts α) [h : Upholds I F (Lower.layout x)] : Upholds I F (liftM x : Lower α) := h

instance (x : Except Fault α) [h : Upholds I F (Lower.ask x)] : Upholds I F (liftM x : Lower α) := h

variable [hI : Upholding P I F]

instance (x : Build α) [hx : Keeps (Module.Evolves P) x] : Upholds I F (Lower.build x) :=
  upholds_build fun hs h => hI.build hx hs h

include hI in
/-- A failure for another reason than the lack of an entry. -/
theorem upholds_fail {error : LoweringError} (h : error.isLookup = false) :
    Upholds I F (Lower.fail error : Lower α) where
  ok _ h := nomatch h
  fails hs hrun := by
    cases hrun
    exact hI.here hs h

end Instances

/-- A type may be asked for if its struct may be. -/
theorem upholds_namedType [hI : Upholding P I F] [hP : Change.Typing P] {id : TypeDefId}
    (hstruct : Assembly.isRoot id = false →
      Upholds I F (Lower.consult fun r => r.type asm id)) :
    Upholds I F (namedType asm id) := by
  unfold namedType
  split
  · infer_instance
  · rename_i hroot
    have := hstruct (by simpa using hroot)
    refine Upholds.seq inferInstance fun handle => Upholds.seq inferInstance fun kind => ?_
    cases kind <;> infer_instance

/-- An invariant of a compilation that holds while types are asked for. -/
class Naming (asm : Assembly) (P : outParam (Change → Prop)) (I : Session → Prop)
    (F : LoweringError → Session → Prop) : Prop extends Upholding P I F where
  namedType : ∀ id, Upholds I F (namedType asm id)

/-- An invariant of a compilation that holds while functions and static fields are asked for. -/
class Requesting (asm : Assembly) (P : outParam (Change → Prop)) (I : Session → Prop)
    (F : LoweringError → Session → Prop) : Prop extends Naming asm P I F where
  declareFunction : ∀ m, Upholds I F (declareFunction asm m)
  staticField : ∀ f, Upholds I F (staticField asm f)

section Types

variable [hI : Naming asm P I F] [hP : Change.Additive P]

instance (sig : TypeSig) : Upholds I F (irType asm sig) := by
  have := hI.namedType
  induction sig <;>
  · unfold irType
    infer_instance

instance (d : MethodDef) : Upholds I F (functionType asm d) := by
  unfold functionType
  infer_instance

include hI hP in
theorem upholds_declareFunction [hfound : Change.Founding P] (m : MethodId)
    (hregister : ∀ name f, Upholds I F (Lower.register (Registering.addFunction name f))) :
    Upholds I F (declareFunction asm m) := by
  unfold declareFunction
  refine Upholds.seq inferInstance fun name => Upholds.seq inferInstance fun s => ?_
  split <;> infer_instance

include hI hP in
theorem upholds_staticField (f : FieldId)
    (hregister : ∀ g, Upholds I F (Lower.register (Registering.addStaticField asm f g))) :
    Upholds I F (staticField asm f) := by
  unfold staticField
  refine Upholds.seq inferInstance fun s => ?_
  split <;> infer_instance

end Types

section Code

variable [hI : Requesting asm P I F] [hP : Change.Coding P]

instance (m : MethodId) : Upholds I F (declareFunction asm m) := hI.declareFunction m

instance (f : FieldId) : Upholds I F (staticField asm f) := hI.staticField f

instance (f : FunctionId) (index : Nat) (sigs : List TypeSig) :
    Upholds I F (argVariables asm f index sigs) := by
  induction sigs generalizing index with
  | nil =>
      unfold argVariables
      infer_instance
  | cons sig rest ih =>
      unfold argVariables
      infer_instance

instance (sig : TypeSig) : Upholds I F (localVariable asm sig) := by
  unfold localVariable
  infer_instance

instance (callee : MethodDef) (args : List Element) :
    Upholds I F (Emit.coerceArgs asm callee args) := by
  unfold Emit.coerceArgs
  dsimp only
  infer_instance

instance (ctor : MethodId) (object : ValueId) (args : List Element) :
    Upholds I F (Emit.construct asm ctor object args) := by
  unfold Emit.construct
  infer_instance

set_option synthInstance.maxSize 256 in
instance (ctor : MethodId) (ty : TypeDefId) (args : List Element) :
    Upholds I F (Emit.newValue asm ctor ty args) := by
  unfold Emit.newValue
  dsimp only
  infer_instance

end Code

end Sessions

end Lowering

end CilSsa
