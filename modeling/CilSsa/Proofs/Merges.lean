import CilSsa.Proofs.StackMerges

/-!
The emission of a body with a log of its merges.

Stacks are merged in one place only, where a block passes its stack on.  Here the actions that pass
the stack on are carried out with a log, and all others as they are.  Without the log the emission
is the same.
-/

namespace CilSsa.Lowering

open CilSsa.Metadata CilSsa.Ssa

/-- A state of the emission, with the leaders that stacks were merged into, each as the merge found
it. -/
structure Trace where
  state : EmitState
  merges : List Leader := []

def Trace.positions (t : Trace) : List Nat := t.merges.map Leader.index

/-- An action of the emission with a log. -/
abbrev Traced := EStateM Stop Trace

namespace Traced

section Actions

variable {α : Type}

/-- An action that merges no stacks. -/
def silent (action : Emit α) : Traced α := fun t =>
  match action t.state with
  | .ok a state => .ok a { t with state }
  | .error stop state => .error stop { t with state }

/-- Writes a merge into the log. -/
def note (l : Leader) : Traced Unit := modify fun t => { t with merges := t.merges ++ [l] }

/-- Passes the stack on to the block at a position: the only merge. -/
def reconcile (site : Site) (position : Nat) : Traced BlockId := do
  let s ← silent get
  match Emit.leader? s position with
  | none => silent (Emit.malformed site (.targetNotInstruction position))
  | some l => do
      let incoming ←
        silent (Emit.lower (l.incoming.merge site.asm s.stack s.current l.block l.refers))
      note l
      silent (Emit.setIncoming position incoming)
      return l.block

def startBlock (site : Site) : Emit Unit := do
  match Emit.leader? (← get) site.index with
  | none => Emit.malformed site (.targetNotInstruction site.index)
  | some l => do
      modify fun s => { s with current := l.block, stack := l.incoming.snapshot }
      Build.positionAtEnd l.block

/-- Goes on with the block of a leader. -/
def enterBlock (site : Site) : Traced Unit := do
  let current := (← silent get).current
  if !(← silent (Emit.lower (Build.query (·.isTerminated current)))) then
    let block ← reconcile site site.index
    silent (Build.br block)
  silent (startBlock site)

/-- Goes to `target` if the condition holds, and on to the next instruction otherwise. -/
def conditional (site : Site) (cond : ValueId) (target : Nat) : Traced Unit := do
  let next := site.index + 1
  let thenBlock ← reconcile site target
  if target = next then silent (Build.br thenBlock)
  else
    let elseBlock ← reconcile site next
    silent (Build.condBr cond thenBlock elseBlock)

/-- `br`. -/
def branch (site : Site) : Traced Unit := do
  let target ← silent (Emit.targetOperand site)
  let block ← reconcile site target
  silent (Build.br block)

/-- `brtrue` and `brfalse`. -/
def branchIf (site : Site) (onZero : Bool) : Traced Unit := do
  let target ← silent (Emit.targetOperand site)
  let e ← silent (Emit.pop site)
  let cond ← silent (Emit.lower (Emit.testZero e onZero))
  conditional site cond target

/-- `beq`, `bge` and so on. -/
def compareBranch (site : Site) (relation : Relation) (unsigned : Bool) : Traced Unit := do
  let target ← silent (Emit.targetOperand site)
  let rhs ← silent (Emit.pop site)
  let lhs ← silent (Emit.pop site)
  let cond ← silent (Emit.lower (Emit.compareValues site.asm relation unsigned lhs rhs))
  conditional site cond target

def edge (site : Site) (known : List (Nat × BlockId)) (position : Nat) :
    Traced (List (Nat × BlockId) × BlockId) := do
  match known.lookup position with
  | some block => return (known, block)
  | none => do
      let block ← reconcile site position
      return (known ++ [(position, block)], block)

/-- The cases of a jump table from number `case` on. -/
def switchCases (site : Site) :
    List (Nat × BlockId) → Nat → List Nat → Traced (List (Nat × BlockId) × List (Int × BlockId))
  | known, _, [] => return (known, [])
  | known, case, position :: rest => do
      let (known, block) ← edge site known position
      let (known, cases) ← switchCases site known (case + 1) rest
      return (known, ((case : Int), block) :: cases)

def switch (site : Site) : Traced Unit := do
  match site.instr.operand with
  | .switch positions => do
      let selector ← silent (Emit.pop site)
      let type ← silent (Build.intType 32)
      let signed ← silent (Emit.lower (isSigned site.asm selector.sig))
      let value ← silent (Emit.lower (coerce selector.value type signed))
      let (known, cases) ← switchCases site [] 0 positions
      let (_, default) ← edge site known (site.index + 1)
      silent (Build.switch value default cases)
  | _ => silent (Emit.malformed site .jumpTableExpected)

/-- Carries out an action. -/
def perform (site : Site) : Action → Traced Unit
  | .branch => branch site
  | .branchIf onZero => branchIf site onZero
  | .compareBranch relation unsigned => compareBranch site relation unsigned
  | .switch => switch site
  | action => silent (Emit.perform site action)

def instruction (site : Site) : Traced Unit :=
  match dispatch site.instr.opcode with
  | .action action => perform site action
  | .deferred | .unsupported =>
      silent (Emit.fail (.unsupportedInstruction site.name site.instr.opcode))

/-- Emits the instructions of a body from position `index` on. -/
def instructions (frame : Frame) : Nat → List Instruction → Traced Unit
  | _, [] => return ()
  | index, instr :: rest => do
      let site : Site := { frame with index, instr }
      if (Emit.leader? (← silent get) index).isSome then enterBlock site
      instruction site
      instructions frame (index + 1) rest

def emission (frame : Frame) (body : MethodBody) : Traced Unit := do
  instructions frame 0 body.instructions
  silent do
    let current := (← get).current
    if !(← Emit.lower (Build.query (·.isTerminated current))) then Build.unreachable

def run (start : Session → EmitState) (emission : Traced Unit) : Lower (List Leader) :=
  fun session =>
    match emission { state := start session } with
    | .ok _ t => .ok t.merges t.state.session
    | .error stop t => .error stop t.state.session

end Actions

end Traced

def mergesOf (asm : Assembly) (d : MethodDef) (name : String) (f : FunctionId) (body : MethodBody) :
    Lower (List Leader) := do
  let (frame, entry, leaders) ← prologue asm d name f body
  Traced.run (fun session => { session, leaders, current := entry }) (Traced.emission frame body)

section Erasure

variable {α β : Type}

/-- The result of an action once its log is forgotten. -/
def Traced.forget : EStateM.Result Stop Trace α → EStateM.Result Stop EmitState α
  | .ok a t => .ok a t.state
  | .error stop t => .error stop t.state

/-- An action with a log does what the action without it does. -/
class Traces (x : Traced α) (y : Emit α) : Prop where
  run : ∀ t, Traced.forget (x t) = y t.state

namespace Traces

instance pure (a : α) : Traces (pure a) (pure a) := ⟨fun _ => rfl⟩

instance silent (y : Emit α) : Traces (Traced.silent y) y where
  run t := by
    unfold Traced.silent
    cases y t.state <;> rfl

instance bind (x : Traced α) (y : Emit α) (f : α → Traced β) (g : α → Emit β) [hx : Traces x y]
    [hf : ∀ a, Traces (f a) (g a)] : Traces (x >>= f) (y >>= g) where
  run t := by
    have hrun := hx.run t
    change Traced.forget (EStateM.bind x f t) = EStateM.bind y g t.state
    unfold EStateM.bind
    rw [← hrun]
    cases x t with
    | ok a t' => exact (hf a).run t'
    | error stop t' => rfl

/-- A note adds nothing but itself. -/
instance note (l : Leader) (f : Unit → Traced α) (y : Emit α) [hf : Traces (f ()) y] :
    Traces (Traced.note l >>= f) y where
  run t := hf.run { t with merges := t.merges ++ [l] }

instance ite (c : Prop) [Decidable c] (x x' : Traced α) (y y' : Emit α) [hx : Traces x y]
    [hx' : Traces x' y'] : Traces (if c then x else x') (if c then y else y') := by
  split
  · exact hx
  · exact hx'

section Actions

variable {site : Site}

instance reconcile (position : Nat) :
    Traces (Traced.reconcile site position) (Emit.reconcile site position) := by
  unfold Traced.reconcile Emit.reconcile
  have hmatch (s : EmitState) : Traces
      (match Emit.leader? s position with
        | none => Traced.silent (Emit.malformed site (.targetNotInstruction position))
        | some l => do
            let incoming ← Traced.silent
              (Emit.lower (l.incoming.merge site.asm s.stack s.current l.block l.refers))
            Traced.note l
            Traced.silent (Emit.setIncoming position incoming)
            return l.block)
      (match Emit.leader? s position with
        | none => Emit.malformed site (.targetNotInstruction position)
        | some l => do
            let incoming ← Emit.lower
              (l.incoming.merge site.asm s.stack s.current l.block l.refers)
            Emit.setIncoming position incoming
            return l.block) := by
    split <;> infer_instance
  infer_instance

instance enterBlock : Traces (Traced.enterBlock site) (Emit.enterBlock site) := by
  unfold Traced.enterBlock Traced.startBlock Emit.enterBlock
  infer_instance

instance conditional (cond : ValueId) (target : Nat) :
    Traces (Traced.conditional site cond target) (Emit.conditional site cond target) := by
  unfold Traced.conditional Emit.conditional
  infer_instance

instance branch : Traces (Traced.branch site) (Emit.branch site) := by
  unfold Traced.branch Emit.branch
  infer_instance

instance branchIf (onZero : Bool) :
    Traces (Traced.branchIf site onZero) (Emit.branchIf site onZero) := by
  unfold Traced.branchIf Emit.branchIf
  infer_instance

instance compareBranch (relation : Relation) (unsigned : Bool) :
    Traces (Traced.compareBranch site relation unsigned)
      (Emit.compareBranch site relation unsigned) := by
  unfold Traced.compareBranch Emit.compareBranch
  infer_instance

instance edge (known : List (Nat × BlockId)) (position : Nat) :
    Traces (Traced.edge site known position) (Emit.edge site known position) := by
  unfold Traced.edge Emit.edge
  cases known.lookup position <;> infer_instance

instance switchCases (known : List (Nat × BlockId)) (case : Nat) (positions : List Nat) :
    Traces (Traced.switchCases site known case positions)
      (Emit.switchCases site known case positions) := by
  induction positions generalizing known case with
  | nil => exact pure (known, [])
  | cons position rest ih =>
      unfold Traced.switchCases Emit.switchCases
      infer_instance

instance switch : Traces (Traced.switch site) (Emit.switch site) := by
  unfold Traced.switch Emit.switch
  cases site.instr.operand <;> infer_instance

instance perform (action : Action) :
    Traces (Traced.perform site action) (Emit.perform site action) := by
  cases action with
  | branch => exact branch
  | branchIf onZero => exact branchIf onZero
  | compareBranch relation unsigned => exact compareBranch relation unsigned
  | switch => exact switch
  | nop => exact silent (Emit.perform site .nop)
  | _ => exact silent (Emit.perform site _)

instance instruction : Traces (Traced.instruction site) (Emit.instruction site) := by
  unfold Traced.instruction Emit.instruction
  cases dispatch site.instr.opcode <;> infer_instance

instance instructions (frame : Frame) (index : Nat) (instrs : List Instruction) :
    Traces (Traced.instructions frame index instrs) (Emit.instructions frame index instrs) := by
  induction instrs generalizing index with
  | nil => exact pure ()
  | cons instr rest ih =>
      unfold Traced.instructions Emit.instructions
      infer_instance

instance emission (frame : Frame) (body : MethodBody) :
    Traces (Traced.emission frame body) (Lowering.emission frame body) := by
  unfold Traced.emission Lowering.emission
  infer_instance

end Actions

/-- A run with a log is one without it. -/
theorem run_ok {x : Traced α} {y : Emit α} [hx : Traces x y] {t t' : Trace} {a : α}
    (h : x t = .ok a t') : y t.state = .ok a t'.state := by
  rw [← hx.run t, h]
  rfl

end Traces

theorem map_mergesOf (asm : Assembly) (d : MethodDef) (name : String) (f : FunctionId)
    (body : MethodBody) :
    (fun _ => ()) <$> mergesOf asm d name f body = emitBody asm d name f body := by
  have hrun (frame : Frame) (start : Session → EmitState) :
      (fun _ => ()) <$> Traced.run start (Traced.emission frame body) =
        Emit.run start (emission frame body) := by
    funext session
    have hemission := (Traces.emission frame body).run { state := start session }
    change EStateM.map _ (Traced.run start (Traced.emission frame body)) session = _
    unfold EStateM.map Traced.run Emit.run
    rw [← hemission]
    cases Traced.emission frame body { state := start session } <;> rfl
  simp only [mergesOf, prologue, emitBody, map_bind, bind_assoc, pure_bind, hrun]

end Erasure

section Log

variable {α : Type} {site : Site} {t t' : Trace} {u : Unit} {position : Nat}

@[simp] theorem silent_eq_ok_iff {y : Emit α} {a : α} :
    Traced.silent y t = .ok a t' ↔ y t.state = .ok a t'.state ∧ t'.merges = t.merges := by
  unfold Traced.silent
  cases y t.state <;> grind [Trace]

theorem positions_silent {y : Emit α} {a : α} (h : Traced.silent y t = .ok a t') :
    t'.positions = t.positions := by
  rw [Trace.positions, Trace.positions, (silent_eq_ok_iff.mp h).2]

theorem silentGet_eq_ok_iff {β : Type} {f : EmitState → Traced β} {b : β} :
    (Traced.silent get >>= f) t = .ok b t' ↔ f t.state t = .ok b t' :=
  Iff.rfl

theorem traced_reconcile_cases {b : BlockId} (h : Traced.reconcile site position t = .ok b t') :
    ∃ l incoming, Emit.leader? t.state position = some l ∧ t'.merges = t.merges ++ [l] ∧
      t'.state.leaders = withIncoming position incoming t.state.leaders := by
  have hrun := Traces.run_ok (y := Emit.reconcile site position) h
  obtain ⟨l, incoming, m, hleader, -, -, hstate⟩ := reconcile_cases hrun
  refine ⟨l, incoming, hleader, ?_, by rw [hstate]⟩
  rw [Traced.reconcile, silentGet_eq_ok_iff] at h
  simp only [hleader, bind_eq_ok_iff, silent_eq_ok_iff, Traced.note, modify_eq_ok_iff,
    pure_eq_ok_iff] at h
  obtain ⟨_, t₁, ⟨-, hmerge⟩, _, t₂, rfl, _, t₃, ⟨-, hset⟩, -, rfl⟩ := h
  rw [hset, hmerge]

theorem Trace.positions_append {l : Leader} (hmerges : t'.merges = t.merges ++ [l]) :
    t'.positions = t.positions ++ [l.index] := by
  rw [Trace.positions, hmerges, List.map_append, List.map_singleton]
  rfl

theorem positions_reconcile {b : BlockId} (h : Traced.reconcile site position t = .ok b t') :
    t'.positions = t.positions ++ [position] := by
  obtain ⟨l, -, hleader, hmerges, -⟩ := traced_reconcile_cases h
  have hindex : l.index = position := by simpa using List.find?_some hleader
  rw [Trace.positions_append hmerges, hindex]

/-- The stack is merged once into every target. -/
def Trace.Passes (targets : List Nat) (t t' : Trace) : Prop :=
  ∃ passed, passed.Nodup ∧ (∀ position, position ∈ passed ↔ position ∈ targets) ∧
    t'.positions = t.positions ++ passed

theorem Trace.Passes.count {targets : List Nat} (h : Trace.Passes targets t t') (position : Nat) :
    t'.positions.count position =
      t.positions.count position + if position ∈ targets then 1 else 0 := by
  obtain ⟨passed, hnodup, htargets, hpositions⟩ := h
  rw [hpositions, List.count_append, hnodup.count]
  simp only [htargets]

/-- What is done before and after merges nothing. -/
theorem Trace.Passes.between {targets : List Nat} {t₁ t₂ : Trace} (h : Trace.Passes targets t₁ t₂)
    (hbefore : t₁.positions = t.positions) (hafter : t'.positions = t₂.positions) :
    Trace.Passes targets t t' := by
  obtain ⟨passed, hnodup, htargets, hpositions⟩ := h
  exact ⟨passed, hnodup, htargets, by rw [hafter, hpositions, hbefore]⟩

theorem passes_conditional {cond : ValueId}
    (h : Traced.conditional site cond position t = .ok u t') :
    Trace.Passes [position, site.index + 1] t t' := by
  simp only [Traced.conditional, bind_eq_ok_iff] at h
  obtain ⟨thenBlock, t₁, hthen, h⟩ := h
  split at h
  · rename_i hsame
    refine ⟨[position], by simp, by simp [hsame], ?_⟩
    rw [positions_silent h, positions_reconcile hthen]
  · rename_i hne
    obtain ⟨elseBlock, t₂, helse, h⟩ := bind_eq_ok_iff.mp h
    refine ⟨[position, site.index + 1], by simpa using hne, by simp, ?_⟩
    rw [positions_silent h, positions_reconcile helse, positions_reconcile hthen,
      List.append_assoc, List.singleton_append]

/-- The log of a jump table: one merge for each position that is known. -/
def Trace.Knows (before : List Nat) (known : List (Nat × BlockId)) (t : Trace) : Prop :=
  (known.map Prod.fst).Nodup ∧ t.positions = before ++ known.map Prod.fst

variable {before : List Nat} {known known' : List (Nat × BlockId)}

theorem knows_edge {b : BlockId} (h : t.Knows before known)
    (hrun : Traced.edge site known position t = .ok (known', b) t') :
    t'.Knows before known' ∧
      ∀ k, k ∈ known'.map Prod.fst ↔ k ∈ known.map Prod.fst ∨ k = position := by
  obtain ⟨hnodup, hpositions⟩ := h
  unfold Traced.edge at hrun
  cases hlookup : known.lookup position with
  | some block =>
      simp only [hlookup, pure_eq_ok_iff, Prod.mk.injEq] at hrun
      obtain ⟨⟨rfl, rfl⟩, rfl⟩ := hrun
      have hmem : position ∈ known'.map Prod.fst := by
        obtain ⟨before, after, rfl, -⟩ := List.lookup_eq_some_iff.mp hlookup
        simp
      exact ⟨⟨hnodup, hpositions⟩, fun k => by grind⟩
  | none =>
      simp only [hlookup, bind_eq_ok_iff, pure_eq_ok_iff, Prod.mk.injEq] at hrun
      obtain ⟨block, t₁, hreconcile, ⟨rfl, rfl⟩, rfl⟩ := hrun
      have hnew : position ∉ known.map Prod.fst := by
        intro hmem
        obtain ⟨x, hx, rfl⟩ := List.mem_map.mp hmem
        have hne := List.lookup_eq_none_iff.mp hlookup x hx
        simp at hne
      have hmap : (known ++ [(position, b)]).map Prod.fst = known.map Prod.fst ++ [position] := by
        simp
      refine ⟨⟨?_, ?_⟩, by simp⟩
      · rw [hmap]
        exact List.nodup_append.mpr ⟨hnodup, by simp, by grind⟩
      · rw [positions_reconcile hreconcile, hpositions, hmap, List.append_assoc]

theorem knows_switchCases {case : Nat} {positions : List Nat} {cases : List (Int × BlockId)}
    (h : t.Knows before known)
    (hrun : Traced.switchCases site known case positions t = .ok (known', cases) t') :
    t'.Knows before known' ∧
      ∀ k, k ∈ known'.map Prod.fst ↔ k ∈ known.map Prod.fst ∨ k ∈ positions := by
  induction positions generalizing known case t known' cases with
  | nil =>
      simp only [Traced.switchCases, pure_eq_ok_iff, Prod.mk.injEq] at hrun
      obtain ⟨⟨rfl, -⟩, rfl⟩ := hrun
      exact ⟨h, by simp⟩
  | cons position rest ih =>
      simp only [Traced.switchCases, bind_eq_ok_iff, pure_eq_ok_iff, Prod.mk.injEq] at hrun
      obtain ⟨⟨known₁, b⟩, t₁, hedge, ⟨known₂, cases₁⟩, t₂, hrest, ⟨rfl, -⟩, rfl⟩ := hrun
      obtain ⟨h₁, hmem₁⟩ := knows_edge h hedge
      obtain ⟨h₂, hmem₂⟩ := ih h₁ hrest
      exact ⟨h₂, fun k => by rw [hmem₂, hmem₁, List.mem_cons, or_assoc]⟩

theorem passes_switch (h : Traced.switch site t = .ok u t') :
    Trace.Passes (site.instr.targets ++ [site.index + 1]) t t' := by
  unfold Traced.switch at h
  cases hoperand : site.instr.operand with
  | switch positions =>
      simp only [hoperand, bind_eq_ok_iff] at h
      obtain ⟨selector, t₁, hpop, type, t₂, htype, signed, t₃, hsigned, value, t₄, hcoerce,
        ⟨known, cases⟩, t₅, hcases, ⟨known', default⟩, t₆, hdefault, hswitch⟩ := h
      have hbefore : t₄.positions = t.positions := by
        rw [positions_silent hcoerce, positions_silent hsigned, positions_silent htype,
          positions_silent hpop]
      have hnone : t₄.Knows t.positions [] := ⟨by simp, by simp [hbefore]⟩
      obtain ⟨h₅, hmem₅⟩ := knows_switchCases hnone hcases
      obtain ⟨⟨hnodup, hpositions⟩, hmem₆⟩ := knows_edge h₅ hdefault
      refine ⟨known'.map Prod.fst, hnodup, fun k => ?_, (positions_silent hswitch).trans hpositions⟩
      rw [hmem₆, hmem₅]
      simp [Instruction.targets, hoperand]
  | _ => simp [hoperand] at h

/-- An action that does not end its block merges nothing. -/
theorem perform_eq_silent {action : Action} (hends : Emit.endsBlock action = false) :
    Traced.perform site action = Traced.silent (Emit.perform site action) := by
  cases action <;> first | rfl | simp [Emit.endsBlock] at hends

/-- An action that ends its block merges the stack into every position it goes to. -/
theorem passes_perform (length : Nat) {action : Action} (hends : Emit.endsBlock action = true)
    (h : Traced.perform site action t = .ok u t') :
    Trace.Passes (goesTo length site.index site.instr.targets (flowOf action)) t t' := by
  cases action with
  | branch =>
      simp only [Traced.perform, Traced.branch, bind_eq_ok_iff] at h
      obtain ⟨target, t₁, htarget, b, t₂, hreconcile, hbr⟩ := h
      obtain ⟨htargets, -⟩ := targets_of_targetOperand (silent_eq_ok_iff.mp htarget).1
      refine ⟨[target], by simp, by simp [flowOf, goesTo, htargets], ?_⟩
      rw [positions_silent hbr, positions_reconcile hreconcile, positions_silent htarget]
  | branchIf onZero =>
      simp only [Traced.perform, Traced.branchIf, bind_eq_ok_iff] at h
      obtain ⟨target, t₁, htarget, e, t₂, hpop, cond, t₃, hcond, h⟩ := h
      obtain ⟨htargets, -⟩ := targets_of_targetOperand (silent_eq_ok_iff.mp htarget).1
      rw [flowOf, goesTo, htargets]
      refine (passes_conditional h).between ?_ rfl
      rw [positions_silent hcond, positions_silent hpop, positions_silent htarget]
  | compareBranch relation unsigned =>
      simp only [Traced.perform, Traced.compareBranch, bind_eq_ok_iff] at h
      obtain ⟨target, t₁, htarget, rhs, t₂, hrhs, lhs, t₃, hlhs, cond, t₄, hcond, h⟩ := h
      obtain ⟨htargets, -⟩ := targets_of_targetOperand (silent_eq_ok_iff.mp htarget).1
      rw [flowOf, goesTo, htargets]
      refine (passes_conditional h).between ?_ rfl
      rw [positions_silent hcond, positions_silent hlhs, positions_silent hrhs,
        positions_silent htarget]
  | switch => exact passes_switch h
  | ret => exact ⟨[], by simp, by simp [flowOf, goesTo], by simp [positions_silent h]⟩
  | _ => simp [Emit.endsBlock] at hends

/-- A block that is still open merges its stack into the leader behind it. -/
theorem positions_enterBlock (h : Traced.enterBlock site t = .ok u t') :
    (Open t.state ∧ t'.positions = t.positions ++ [site.index]) ∨
      (¬ Open t.state ∧ t'.positions = t.positions) := by
  rw [Traced.enterBlock, silentGet_eq_ok_iff, bind_eq_ok_iff] at h
  obtain ⟨ended, t₁, hended, h⟩ := h
  obtain ⟨-, hopen⟩ := isTerminated_eq_ok (silent_eq_ok_iff.mp hended).1 rfl
  cases ended with
  | false =>
      simp only [Bool.not_false, if_true, bind_eq_ok_iff] at h
      obtain ⟨b, t₂, hreconcile, _, t₃, hbr, h⟩ := h
      refine .inl ⟨hopen.mp rfl, ?_⟩
      rw [positions_silent h, positions_silent hbr, positions_reconcile hreconcile,
        positions_silent hended]
  | true =>
      simp only [Bool.not_true, Bool.false_eq_true, if_false] at h
      refine .inr ⟨fun hs => Bool.noConfusion (hopen.mpr hs), ?_⟩
      rw [positions_silent h, positions_silent hended]

end Log

end CilSsa.Lowering
