import CilSsa.Proofs.ControlFlow
import CilSsa.Proofs.Merges

/-!
The analysis of a body counts the merges of its emission.

Each instruction that ends a block merges its stack once into every position it goes to, and a block
that is still open merges its stack into the leader behind it.  So a leader is merged into as often
as control goes to it, and the analysis knows of every way that control goes.  Stacks are put on top
of each other where one edge was counted; that is never done with a second one.
-/

namespace CilSsa.Lowering

open CilSsa.Metadata CilSsa.Ssa

variable {instrs : List Instruction} {instr : Instruction} {position i n : Nat}

section Analysis

theorem mem_analyze_iff {x : Nat × Nat} :
    x ∈ analyze instrs ↔ x.1 ∈ leaders instrs ∧ x.2 = refers instrs x.1 := by
  rw [analyze, List.mem_map]
  constructor
  · rintro ⟨position, hposition, rfl⟩
    exact ⟨hposition, rfl⟩
  · rintro ⟨hposition, hrefers⟩
    exact ⟨x.1, hposition, Prod.ext rfl hrefers.symm⟩

theorem keys_analyze (instrs : List Instruction) :
    (analyze instrs).map Prod.fst = leaders instrs := by
  simp [analyze, Function.comp_def]

/-- Blocks start at the first instruction, at the targets of operands, and behind the ends of
blocks. -/
def Starts (instrs : List Instruction) (position : Nat) : Prop :=
  (position = 0 ∧ instrs ≠ []) ∨ (∃ instr ∈ instrs, position ∈ instr.targets) ∨
    ∃ i instr, instrs[i]? = some instr ∧ instr.opcode.flow.endsBlock = true ∧ position = i + 1 ∧
      position < instrs.length

theorem mem_leaders_iff_starts : position ∈ leaders instrs ↔ Starts instrs position := by
  by_cases hempty : instrs = []
  · subst hempty
    simp [leaders, Starts]
  · rw [mem_leaders_iff hempty, mem_leadersFrom, Starts]
    simp only [leadersOf, List.mem_append, Nat.zero_add, hempty, ne_eq, not_false_eq_true, and_true]
    refine or_congr Iff.rfl ?_
    constructor
    · rintro ⟨i, instr, hinstr, htarget | hnext⟩
      · exact .inl ⟨instr, List.mem_of_getElem? hinstr, htarget⟩
      · split at hnext
        · rename_i hends
          simp only [Bool.and_eq_true, decide_eq_true_eq] at hends
          obtain rfl := List.mem_singleton.mp hnext
          exact .inr ⟨i, instr, hinstr, hends.1, rfl, hends.2⟩
        · simp at hnext
    · rintro (⟨instr, hmem, htarget⟩ | ⟨i, instr, hinstr, hends, rfl, hlt⟩)
      · obtain ⟨i, hinstr⟩ := List.getElem?_of_mem hmem
        exact ⟨i, instr, hinstr, .inl htarget⟩
      · exact ⟨i, instr, hinstr, .inr (by simp [hends, hlt])⟩

/-- Control gets to an instruction inside a block from the one before it only, which does not end
the block. -/
theorem mem_successors_inside (hlt : position < instrs.length) (hinside : position ∉ leaders instrs)
    (hinstr : instrs[i]? = some instr) :
    (position ∈ successors instrs.length i instr ↔ i + 1 = position) ∧
      (i + 1 = position → instr.opcode.flow = .next) := by
  have hnext (heq : i + 1 = position) : instr.opcode.flow = .next := by
    cases hends : instr.opcode.flow.endsBlock with
    | false => exact flow_eq_next hends
    | true => exact absurd (heq ▸ succ_mem_leaders hinstr hends (heq ▸ hlt)) hinside
  refine ⟨?_, hnext⟩
  rw [mem_successors]
  constructor
  · rintro (htarget | ⟨-, -, heq⟩)
    · have hstarts : Starts instrs position :=
        .inr (.inl ⟨instr, List.mem_of_getElem? hinstr, htarget⟩)
      exact absurd (mem_leaders_iff_starts.mpr hstarts) hinside
    · exact heq.symm
  · intro heq
    refine .inr ⟨?_, heq ▸ hlt, heq.symm⟩
    rw [hnext heq]
    rfl

/-- Operands have targets only where control may go to them. -/
def TargetsTaken (instrs : List Instruction) : Prop :=
  ∀ instr ∈ instrs, instr.targets ≠ [] →
    instr.opcode.flow = .branch ∨ instr.opcode.flow = .condBranch ∨ instr.opcode.flow = .switch

/-- Where targets are taken, control goes every way that the analysis knows of. -/
theorem mem_goesTo_of_mem_successors {length : Nat}
    (htaken : instr.targets ≠ [] →
      instr.opcode.flow = .branch ∨ instr.opcode.flow = .condBranch ∨ instr.opcode.flow = .switch)
    (h : position ∈ successors length i instr) :
    position ∈ goesTo length i instr.targets instr.opcode.flow := by
  rcases mem_successors.mp h with htarget | ⟨hfalls, hlt, rfl⟩
  · rcases htaken (List.ne_nil_of_mem htarget) with hflow | hflow | hflow <;>
      simp [goesTo, hflow, htarget]
  · cases hflow : instr.opcode.flow with
    | next => simp [goesTo, hlt]
    | condBranch | switch => simp [goesTo]
    | branch | exit | raise => simp [hflow, Flow.fallsThrough] at hfalls

/-- How often control goes to a position from what stands before the positions below `n`. -/
def departures (instrs : List Instruction) (position : Nat) : Nat → Nat
  | 0 => 0
  | n + 1 => departures instrs position n + if position ∈ follows instrs n then 1 else 0

theorem departures_one (hlt : position < instrs.length) :
    departures instrs position 1 = arrivals instrs position 0 := by
  have hpos : 0 < instrs.length := Nat.zero_lt_of_lt hlt
  simp [departures, follows, arrivals, edgesFrom, hpos]

/-- The analysis counts every way that control goes. -/
theorem departures_le_arrivals (hlt : position < instrs.length) (hn : n ≤ instrs.length) :
    departures instrs position (n + 1) ≤ arrivals instrs position n := by
  induction n with
  | zero => exact Nat.le_of_eq (departures_one hlt)
  | succ n ih =>
      have hinstr := List.getElem?_eq_getElem hn
      rw [departures, arrivals_succ hinstr, follows_succ hinstr]
      refine Nat.add_le_add (ih (Nat.le_of_lt hn)) ?_
      split
      · rename_i hgoes
        simp only [if_pos (mem_successors_of_goesTo hgoes hlt), Nat.le_refl]
      · exact Nat.zero_le _

/-- Where targets are taken, nothing else is counted. -/
theorem departures_eq_arrivals (htaken : TargetsTaken instrs) (hlt : position < instrs.length)
    (hn : n ≤ instrs.length) :
    departures instrs position (n + 1) = arrivals instrs position n := by
  induction n with
  | zero => exact departures_one hlt
  | succ n ih =>
      have hinstr := List.getElem?_eq_getElem hn
      have hsame : position ∈ goesTo instrs.length n instrs[n].targets instrs[n].opcode.flow ↔
          position ∈ successors instrs.length n instrs[n] :=
        ⟨fun hgoes => mem_successors_of_goesTo hgoes hlt,
          mem_goesTo_of_mem_successors (htaken _ (List.getElem_mem hn))⟩
      rw [departures, arrivals_succ hinstr, follows_succ hinstr, ih (Nat.le_of_lt hn)]
      simp only [hsame]

end Analysis

section Tally

variable {site : Site} {frame : Frame} {entry : BlockId} {leaders : List Leader} {t t' : Trace}
  {u : Unit}

/-- An open block falls through. -/
theorem Before.follows_of_open {left : BlockId → List Element → Prop} {edges : List Edge}
    {s : EmitState} (h : Before frame instrs entry leaders left n edges s) (hopen : Open s) :
    follows instrs n = if n < instrs.length then [n] else [] := by
  cases h with
  | falls _ _ _ hflow => exact hflow
  | ended _ _ _ _ hclosed _ _ _ => exact absurd hopen hclosed.not_open

/-- Before the instruction at position `n` each leader was merged into as often as control has gone
to it.  If the block is open, it still has to go on to that instruction. -/
structure Tallied (frame : Frame) (instrs : List Instruction) (entry : BlockId)
    (leaders : List Leader) (n : Nat) (t : Trace) : Prop where
  before : ∃ edges, Before frame instrs entry leaders (fun _ _ => True) n edges t.state
  ofOpen : Open t.state → ∀ position ∈ Lowering.leaders instrs,
    t.positions.count position = departures instrs position n
  ofClosed : ¬ Open t.state → ∀ position ∈ Lowering.leaders instrs,
    t.positions.count position = departures instrs position (n + 1)

/-- The same where the instruction at position `n` is emitted. -/
structure Settled (frame : Frame) (instrs : List Instruction) (entry : BlockId)
    (leaders : List Leader) (n : Nat) (t : Trace) : Prop where
  ready : ∃ edges, Ready frame instrs entry leaders (fun _ _ => True) n edges t.state
  counts : ∀ position ∈ Lowering.leaders instrs,
    t.positions.count position = departures instrs position (n + 1)

theorem Tallied.enter (h : Tallied site.toFrame instrs entry leaders site.index t)
    (hlt : site.index < instrs.length) (hrun : Traced.enterBlock site t = .ok u t') :
    Settled site.toFrame instrs entry leaders site.index t' := by
  obtain ⟨edges, hbefore⟩ := h.before
  have henter := Traces.run_ok (y := Emit.enterBlock site) hrun
  obtain ⟨edges', l, hindex, hentered, -, -⟩ := hbefore.enter hlt trivial henter
  refine ⟨⟨edges', hindex ▸ hentered.ready⟩, fun position hposition => ?_⟩
  rcases positions_enterBlock hrun with ⟨hopen, hpositions⟩ | ⟨hclosed, hpositions⟩
  · rw [hpositions, List.count_append, h.ofOpen hopen position hposition, departures,
      hbefore.follows_of_open hopen, if_pos hlt, (List.nodup_singleton _).count]
  · rw [hpositions]
    exact h.ofClosed hclosed position hposition

/-- Without a leader the emission goes on in the open block. -/
theorem Tallied.stay (h : Tallied frame instrs entry leaders n t) (hn : n < instrs.length)
    (hnone : n ∉ Lowering.leaders instrs) : Settled frame instrs entry leaders n t := by
  obtain ⟨edges, hbefore⟩ := h.before
  have hready := hbefore.ready hn hnone
  refine ⟨⟨edges, hready⟩, fun position hposition => ?_⟩
  have hne : position ≠ n := fun heq => hnone (heq ▸ hposition)
  rw [h.ofOpen hready.isOpen position hposition, departures,
    hbefore.follows_of_open hready.isOpen, if_pos hn]
  simp [hne]

/-- The emission of one instruction. -/
theorem Settled.step (h : Settled site.toFrame instrs entry leaders site.index t)
    (hinside : ∀ l ∈ leaders, l.index < instrs.length)
    (hinstr : instrs[site.index]? = some site.instr)
    (hrun : Traced.instruction site t = .ok u t') :
    Tallied site.toFrame instrs entry leaders (site.index + 1) t' := by
  obtain ⟨edges, hready⟩ := h.ready
  have hinstruction := Traces.run_ok (y := Emit.instruction site) hrun
  obtain ⟨edges', hbefore, -⟩ := hready.step hinside hinstr hinstruction
  unfold Traced.instruction at hrun
  cases hdispatch : dispatch site.instr.opcode with
  | deferred => simp [hdispatch] at hrun
  | unsupported => simp [hdispatch] at hrun
  | action action =>
      simp only [hdispatch] at hrun
      have hperform := Traces.run_ok (y := Emit.perform site action) hrun
      cases hending : Emit.endsBlock action with
      | false =>
          obtain ⟨-, hopen, -⟩ :=
            hready.passing.run (Emit.perform_coded hending) hready.isOpen hperform
          refine ⟨⟨edges', hbefore⟩, fun _ => ?_, fun hclosed => absurd hopen hclosed⟩
          rw [perform_eq_silent hending] at hrun
          rw [positions_silent hrun]
          exact h.counts
      | true =>
          obtain ⟨_, -, -, hclosed, -⟩ :=
            perform_ending hending hready.passing hready.isOpen hperform
          refine ⟨⟨edges', hbefore⟩, fun hopen => absurd hopen hclosed.not_open,
            fun _ position hposition => ?_⟩
          rw [(passes_perform instrs.length hending hrun).count,
            h.counts position hposition, ← flow_of_dispatch hdispatch, ← follows_succ hinstr]
          rfl

/-- The emission of the instructions from a position on.  Only the state tells which of them are
leaders, so the induction is on the instructions that are left. -/
theorem Tallied.run {rest : List Instruction} (h : Tallied frame instrs entry leaders n t)
    (hinside : ∀ l ∈ leaders, l.index < instrs.length) (hn : n ≤ instrs.length)
    (hrest : instrs.drop n = rest) (hrun : Traced.instructions frame n rest t = .ok u t') :
    Tallied frame instrs entry leaders instrs.length t' := by
  induction rest generalizing n t with
  | nil =>
      obtain ⟨-, rfl⟩ := pure_eq_ok_iff.mp hrun
      rwa [← Nat.le_antisymm hn (List.drop_eq_nil_iff.mp hrest)]
  | cons instr rest ih =>
      have hinstr : instrs[n]? = some instr := by
        rw [← List.head?_drop, hrest, List.head?_cons]
      have hrest' : instrs.drop (n + 1) = rest := by
        rw [← List.tail_drop, hrest, List.tail_cons]
      have hlt := (List.getElem?_eq_some_iff.mp hinstr).1
      obtain ⟨edges, hbefore⟩ := h.before
      obtain ⟨-, hplaced⟩ := hbefore.passing_placed
      rw [Traced.instructions, silentGet_eq_ok_iff] at hrun
      by_cases hleader : n ∈ Lowering.leaders instrs
      · rw [if_pos ((isSome_leader?_iff hplaced).mpr hleader)] at hrun
        obtain ⟨_, t₁, henter, hrun⟩ := bind_eq_ok_iff.mp hrun
        obtain ⟨_, t₂, hinstruction, hrun⟩ := bind_eq_ok_iff.mp hrun
        have hsite : Tallied (siteAt frame n instr).toFrame instrs entry leaders
            (siteAt frame n instr).index t := h
        exact ih ((hsite.enter hlt henter).step hinside hinstr hinstruction) hlt hrest' hrun
      · rw [if_neg fun hsome => hleader ((isSome_leader?_iff hplaced).mp hsome)] at hrun
        obtain ⟨_, t₂, hinstruction, hrun⟩ := bind_eq_ok_iff.mp hrun
        have hsettled : Settled (siteAt frame n instr).toFrame instrs entry leaders
            (siteAt frame n instr).index t := h.stay hlt hleader
        exact ih (hsettled.step hinside hinstr hinstruction) hlt hrest' hrun

/-- At the end of a body each leader was merged into as often as control goes to it. -/
theorem Tallied.count_of_finished (h : Tallied frame instrs entry leaders instrs.length t)
    (hposition : position ∈ Lowering.leaders instrs) :
    t.positions.count position = departures instrs position (instrs.length + 1) := by
  obtain ⟨edges, hbefore⟩ := h.before
  by_cases hopen : Open t.state
  · rw [h.ofOpen hopen position hposition, departures, hbefore.follows_of_open hopen]
    simp
  · exact h.ofClosed hopen position hposition

end Tally

section FirstMerges

variable {t t' : Trace}

def EmitState.SameLeaders (s s' : EmitState) : Prop := s'.leaders = s.leaders

instance : IsPreorder EmitState EmitState.SameLeaders where
  refl _ := rfl
  trans _ _ _ h h' := Eq.trans h' h

section SameLeaders

open EmitState

variable {α : Type} {site : Site}

instance (x : Lower α) : Keeps SameLeaders (Emit.lower x) where
  run h := by
    obtain ⟨_, -, rfl⟩ := Emit.lower_eq_ok_iff.mp h
    rfl

instance (x : Lower α) : Keeps SameLeaders (liftM x : Emit α) :=
  inferInstanceAs (Keeps SameLeaders (Emit.lower x))

instance (x : Build α) : Keeps SameLeaders (liftM x : Emit α) :=
  inferInstanceAs (Keeps SameLeaders (Emit.lower (Lower.build x)))

instance : Keeps SameLeaders (Emit.pop site) where
  run h := by
    obtain ⟨_, -, rfl⟩ := Emit.pop_eq_ok_iff.mp h
    rfl

instance (error : LoweringError) : Keeps SameLeaders (Emit.fail error : Emit α) where
  run h := (Emit.fail_eq_ok_iff.mp h).elim

instance (problem : OperandProblem) : Keeps SameLeaders (Emit.malformed site problem : Emit α) where
  run h := (Emit.malformed_eq_ok_iff.mp h).elim

instance : Keeps SameLeaders (Emit.targetOperand site) := by
  unfold Emit.targetOperand
  split <;> infer_instance

instance : Keeps SameLeaders (Traced.startBlock site) where
  run h := by
    obtain ⟨l, -, rfl⟩ := moveToLeader_eq_ok h
    rfl

instance : Keeps SameLeaders (Emit.ret site) := by
  unfold Emit.ret
  infer_instance

theorem sameLeaders_of_perform {action : Action} (hends : Emit.endsBlock action = false) :
    Keeps SameLeaders (Emit.perform site action) where
  run h := by
    have hsound (s : EmitState) : Emit.Sound .nothing site.toFrame s :=
      ⟨fun _ hv => hv.elim, fun _ _ => ⟨False.elim, id⟩, fun _ _ => ⟨False.elim, id⟩⟩
    have hstraight : Keeps (Emit.Straight Session.Coded .nothing site.toFrame [])
        (Emit.perform site action) := Emit.perform_coded hends
    obtain ⟨-, -, hcontinues⟩ := hstraight.run h (hsound _) (by simp)
    exact hcontinues.leaders

end SameLeaders

/-- The leaders are as the analysis has them, in the state and in the log.  Before and at its first
merge a leader has no stack. -/
structure Trace.Tidy (instrs : List Instruction) (t : Trace) : Prop where
  known : ∀ l ∈ t.state.leaders, (l.index, l.refers) ∈ analyze instrs
  untouched : ∀ l ∈ t.state.leaders, l.index ∉ t.positions → l.incoming = {}
  noted : ∀ l ∈ t.merges, (l.index, l.refers) ∈ analyze instrs
  first : ∀ l ∈ t.merges, t.positions.count l.index = 1 → l.incoming = {}

def Trace.StaysTidy (instrs : List Instruction) (t t' : Trace) : Prop :=
  t.Tidy instrs → t'.Tidy instrs

instance : IsPreorder Trace (Trace.StaysTidy instrs) where
  refl _ := id
  trans _ _ _ h h' := h' ∘ h

section Tidy

open EmitState Trace

variable {α : Type} {site : Site}

instance (y : Emit α) [hy : Keeps SameLeaders y] : Keeps (StaysTidy instrs) (Traced.silent y) where
  run h hs := by
    obtain ⟨hrun, hmerges⟩ := silent_eq_ok_iff.mp h
    have hleaders : _ = _ := hy.run hrun
    have hpositions := positions_silent h
    constructor
    · rw [hleaders]
      exact hs.known
    · rw [hleaders, hpositions]
      exact hs.untouched
    · rw [hmerges]
      exact hs.noted
    · rw [hmerges, hpositions]
      exact hs.first

instance (position : Nat) : Keeps (StaysTidy instrs) (Traced.reconcile site position) where
  run {t b t'} h hs := by
    obtain ⟨l, incoming, hleader, hmerges, hleaders⟩ := traced_reconcile_cases h
    have hl : l ∈ t.state.leaders := List.mem_of_find?_eq_some hleader
    have hpositions := Trace.positions_append hmerges
    constructor
    · intro l' hl'
      rw [hleaders] at hl'
      obtain ⟨l₀, hl₀, rfl⟩ := mem_withIncoming.mp hl'
      split <;> exact hs.known l₀ hl₀
    · intro l' hl' hnone
      rw [hleaders] at hl'
      rw [positions_reconcile h, List.mem_append, not_or, List.mem_singleton] at hnone
      obtain ⟨l₀, hl₀, rfl⟩ := mem_withIncoming.mp hl'
      split at hnone
      · rename_i heq
        exact absurd heq hnone.2
      · rename_i hne
        rw [if_neg hne]
        exact hs.untouched l₀ hl₀ hnone.1
    · intro l' hl'
      rw [hmerges, List.mem_append, List.mem_singleton] at hl'
      rcases hl' with hl' | rfl
      · exact hs.noted l' hl'
      · exact hs.known _ hl
    · intro l' hl' hcount
      rw [hmerges, List.mem_append, List.mem_singleton] at hl'
      rw [hpositions, List.count_append] at hcount
      rcases hl' with hl' | rfl
      · have hpos : 0 < t.positions.count l'.index :=
          List.count_pos_iff.mpr (List.mem_map_of_mem hl')
        exact hs.first l' hl' (by omega)
      · rw [List.count_singleton_self] at hcount
        exact hs.untouched _ hl (List.count_eq_zero.mp (by omega))

instance : Keeps (StaysTidy instrs) (Traced.enterBlock site) := by
  unfold Traced.enterBlock
  infer_instance

instance (cond : ValueId) (target : Nat) :
    Keeps (StaysTidy instrs) (Traced.conditional site cond target) := by
  unfold Traced.conditional
  infer_instance

instance (known : List (Nat × BlockId)) (position : Nat) :
    Keeps (StaysTidy instrs) (Traced.edge site known position) := by
  unfold Traced.edge
  split <;> infer_instance

instance (known : List (Nat × BlockId)) (case : Nat) (positions : List Nat) :
    Keeps (StaysTidy instrs) (Traced.switchCases site known case positions) := by
  induction positions generalizing known case with
  | nil => exact Keeps.pure (known, [])
  | cons position rest ih =>
      unfold Traced.switchCases
      infer_instance

instance : Keeps (StaysTidy instrs) (Traced.switch site) := by
  unfold Traced.switch
  split <;> infer_instance

instance (action : Action) : Keeps (StaysTidy instrs) (Traced.perform site action) := by
  cases hends : Emit.endsBlock action with
  | false =>
      have hsame : Keeps SameLeaders (Emit.perform site action) := sameLeaders_of_perform hends
      rw [perform_eq_silent hends]
      infer_instance
  | true =>
      cases action with
      | branch | branchIf | compareBranch =>
          unfold Traced.perform
          simp only [Traced.branch, Traced.branchIf, Traced.compareBranch]
          infer_instance
      | switch => exact inferInstanceAs (Keeps _ (Traced.switch site))
      | ret => exact inferInstanceAs (Keeps _ (Traced.silent (Emit.ret site)))
      | _ => simp [Emit.endsBlock] at hends

instance : Keeps (StaysTidy instrs) (Traced.instruction site) := by
  unfold Traced.instruction
  split <;> infer_instance

instance (frame : Frame) (index : Nat) (rest : List Instruction) :
    Keeps (StaysTidy instrs) (Traced.instructions frame index rest) := by
  induction rest generalizing index with
  | nil => exact Keeps.pure ()
  | cons instr rest ih =>
      unfold Traced.instructions
      infer_instance

instance (frame : Frame) (body : MethodBody) :
    Keeps (StaysTidy instrs) (Traced.emission frame body) := by
  unfold Traced.emission
  infer_instance

end Tidy

end FirstMerges

section Accounts

/-- What the analysis of a body says of the merges of its emission. -/
structure Accounts (instrs : List Instruction) (merges : List Leader) : Prop where
  known : ∀ l ∈ merges, (l.index, l.refers) ∈ analyze instrs
  le : ∀ x ∈ analyze instrs, (merges.map Leader.index).count x.1 ≤ x.2
  exact : TargetsTaken instrs → ∀ x ∈ analyze instrs, (merges.map Leader.index).count x.1 = x.2
  /-- Where one edge was counted there is one merge, and it finds no stack. -/
  single : ∀ l ∈ merges, l.refers ≤ 1 →
    (merges.map Leader.index).count l.index = 1 ∧ l.incoming = {}

variable {asm : Assembly} {d : MethodDef} {name : String} {f : FunctionId} {body : MethodBody}
  {s s' : Session} {frame : Frame} {entry : BlockId} {leaders : List Leader} {merges : List Leader}

theorem mergesOf_cases (h : mergesOf asm d name f body s = .ok merges s') :
    ∃ frame entry leaders s₁ t, prologue asm d name f body s = .ok (frame, entry, leaders) s₁ ∧
      Traced.emission frame body { state := { session := s₁, leaders, current := entry } } =
        .ok () t ∧ t.merges = merges := by
  rw [mergesOf, bind_eq_ok_iff] at h
  obtain ⟨⟨frame, entry, leaders⟩, s₁, hprologue, hrun⟩ := h
  refine ⟨frame, entry, leaders, s₁, ?_⟩
  simp only [Traced.run] at hrun
  split at hrun
  · rename_i t hemission
    exact ⟨t, hprologue, hemission, (EStateM.Result.ok.inj hrun).1⟩
  · cases hrun

theorem Before.open_of_start {left : BlockId → List Element → Prop} {start : EmitState}
    (h : Before frame instrs entry leaders left 0 [] start) (hpos : 0 < instrs.length) :
    Open start := by
  cases h with
  | falls _ hopen _ _ => exact hopen
  | ended finished passed hedges _ _ _ _ hflow =>
      have hpassed : 0 ∈ passed := (hflow 0).mpr (by simp [follows, hpos])
      have hnone : passed = [] := by
        have hlength := congrArg List.length hedges
        simp only [allEdges, List.length_nil, List.length_append, List.length_map] at hlength
        exact List.length_eq_zero_iff.mp (by omega)
      simp [hnone] at hpassed

/-- The log where the emission of the instructions starts. -/
theorem tallied_of_prologue {s₁ : Session}
    (h : prologue asm d name f body s = .ok (frame, entry, leaders) s₁) :
    Tallied frame body.instructions entry leaders 0
      { state := { session := s₁, leaders, current := entry } } := by
  have hbefore := before_of_prologue h fun _ _ => True
  refine ⟨⟨[], hbefore⟩, fun _ position _ => rfl, fun hclosed position hposition => ?_⟩
  have hne : body.instructions ≠ [] := by
    intro hempty
    simp [hempty, Lowering.leaders] at hposition
  exact absurd (hbefore.open_of_start (List.length_pos_iff.mpr hne)) hclosed

theorem tidy_of_prologue {s₁ : Session}
    (h : prologue asm d name f body s = .ok (frame, entry, leaders) s₁) :
    Trace.Tidy body.instructions { state := { session := s₁, leaders, current := entry } } := by
  obtain ⟨-, -, _, _, _, _, _, -, -, -, -, hleaders⟩ := prologue_cases h
  obtain ⟨hanalysis, -, hblocks, -⟩ := appendLeaders_spec hleaders
  refine ⟨fun l hl => ?_, fun l hl _ => (hblocks l hl).2.1, by simp, by simp⟩
  rw [← hanalysis]
  exact List.mem_map_of_mem (f := fun l : Leader => (l.index, l.refers)) hl

/-- The analysis accounts for the merges of an emission that succeeds. -/
theorem accounts_of_mergesOf (h : mergesOf asm d name f body s = .ok merges s')
    (htargets : ∀ instr ∈ body.instructions, ∀ target ∈ instr.targets,
      target < body.instructions.length) : Accounts body.instructions merges := by
  obtain ⟨frame, entry, leaders, s₁, t, hprologue, hemission, rfl⟩ := mergesOf_cases h
  have hstart := tallied_of_prologue hprologue
  obtain ⟨edges, hbefore⟩ := hstart.before
  have hinside (l : Leader) (hl : l ∈ leaders) : l.index < body.instructions.length :=
    lt_of_mem_leaders htargets (hbefore.passing_placed.1.mem_analyze hl).1
  have htidy : t.Tidy body.instructions :=
    (inferInstance : Keeps (Trace.StaysTidy body.instructions) (Traced.emission frame body)).run
      hemission (tidy_of_prologue hprologue)
  rw [Traced.emission, bind_eq_ok_iff] at hemission
  obtain ⟨_, t₁, hinstructions, hend⟩ := hemission
  have htallied := hstart.run hinside (Nat.zero_le _) rfl hinstructions
  have hcount {x : Nat × Nat} (hx : x ∈ analyze body.instructions) :
      t.positions.count x.1 =
        departures body.instructions x.1 (body.instructions.length + 1) := by
    rw [positions_silent hend]
    exact htallied.count_of_finished (mem_analyze_iff.mp hx).1
  have hlt {x : Nat × Nat} (hx : x ∈ analyze body.instructions) : x.1 < body.instructions.length :=
    lt_of_mem_leaders htargets (mem_analyze_iff.mp hx).1
  have hle (x : Nat × Nat) (hx : x ∈ analyze body.instructions) : t.positions.count x.1 ≤ x.2 := by
    rw [hcount hx, (mem_analyze_iff.mp hx).2, ← arrivals_length]
    exact departures_le_arrivals (hlt hx) (Nat.le_refl _)
  refine ⟨htidy.noted, hle, fun htaken x hx => ?_, fun l hl hsingle => ?_⟩
  · change t.positions.count x.1 = x.2
    rw [hcount hx, (mem_analyze_iff.mp hx).2, ← arrivals_length]
    exact departures_eq_arrivals htaken (hlt hx) (Nat.le_refl _)
  · have hpos : 0 < t.positions.count l.index := List.count_pos_iff.mpr (List.mem_map_of_mem hl)
    have honce : t.positions.count l.index = 1 := by
      have hbound : t.positions.count l.index ≤ l.refers := hle _ (htidy.noted l hl)
      omega
    exact ⟨honce, htidy.first l hl honce⟩

/-- The analysis of a body knows where blocks start, and how control gets inside of one.  It
accounts for the merges of every emission of the body that succeeds. -/
theorem analysis_accounts (instrs : List Instruction)
    (htargets : ∀ instr ∈ instrs, ∀ target ∈ instr.targets, target < instrs.length) :
    (∀ position, position ∈ (analyze instrs).map Prod.fst ↔ Starts instrs position) ∧
      (∀ position < instrs.length, position ∉ (analyze instrs).map Prod.fst →
        ∀ i instr, instrs[i]? = some instr →
          (position ∈ successors instrs.length i instr ↔ i + 1 = position) ∧
            (i + 1 = position → instr.opcode.flow = .next)) ∧
      ∀ asm d name f body s s', body.instructions = instrs →
        emitBody asm d name f body s = .ok () s' →
          ∃ merges, mergesOf asm d name f body s = .ok merges s' ∧ Accounts instrs merges := by
  rw [keys_analyze]
  refine ⟨fun position => mem_leaders_iff_starts,
    fun position hlt hinside i instr hinstr => mem_successors_inside hlt hinside hinstr, ?_⟩
  rintro asm d name f body s s' rfl hemit
  rw [← map_mergesOf, map_eq_ok_iff] at hemit
  obtain ⟨merges, hmerges, -⟩ := hemit
  exact ⟨merges, hmerges, accounts_of_mergesOf hmerges htargets⟩

/-- The jump table merges into a position once, and nothing is merged into the block that control
never gets to. -/
theorem crossing_accounts :
    (∀ instr ∈ crossing.instructions, ∀ target ∈ instr.targets,
      target < crossing.instructions.length) ∧
      emitBody (Assembly.ofName "A") crossingMethod "C::Cross" ⟨0⟩ crossing crossingSession =
        .ok () crossingFinal ∧
      analyze crossing.instructions = [(0, 1), (2, 2), (3, 0), (4, 1)] ∧
      ∃ merges, mergesOf (Assembly.ofName "A") crossingMethod "C::Cross" ⟨0⟩ crossing
          crossingSession = .ok merges crossingFinal ∧
        merges.map Leader.index = [0, 4, 2, 2] ∧ Accounts crossing.instructions merges := by
  have htargets : ∀ instr ∈ crossing.instructions, ∀ target ∈ instr.targets,
      target < crossing.instructions.length := by decide
  have hemit : emitBody (Assembly.ofName "A") crossingMethod "C::Cross" ⟨0⟩ crossing
      crossingSession = .ok () crossingFinal := outcome?_eq_some_iff.mp (by decide +kernel)
  obtain ⟨merges, hmerges, haccounts⟩ :=
    (analysis_accounts crossing.instructions htargets).2.2 _ _ _ _ _ _ _ rfl hemit
  refine ⟨htargets, hemit, by decide, merges, hmerges, ?_, haccounts⟩
  have hlog : (outcome? (mergesOf (Assembly.ofName "A") crossingMethod "C::Cross" ⟨0⟩ crossing
      crossingSession)).map (fun x => x.1.map Leader.index) = some [0, 4, 2, 2] := by
    decide +kernel
  rw [outcome?_eq_some_iff.mpr hmerges] at hlog
  exact Option.some.inj hlog

/-- An empty body starts no block, not even at its beginning, and behind a return a block starts
that control does not get to. -/
theorem starts_apart :
    (¬ ∀ instrs : List Instruction,
      (∀ instr ∈ instrs, ∀ target ∈ instr.targets, target < instrs.length) →
        ∀ position, position ∈ (analyze instrs).map Prod.fst ↔
          position = 0 ∨ (∃ instr ∈ instrs, position ∈ instr.targets) ∨
            ∃ i instr, instrs[i]? = some instr ∧ instr.opcode.flow.endsBlock = true ∧
              position = i + 1 ∧ position < instrs.length) ∧
      ¬ ∀ instrs : List Instruction,
        (∀ instr ∈ instrs, ∀ target ∈ instr.targets, target < instrs.length) →
          ∀ position, position ∈ (analyze instrs).map Prod.fst ↔
            position = 0 ∨ (∃ instr ∈ instrs, position ∈ instr.targets) ∨
              ∃ i instr, instrs[i]? = some instr ∧ instr.opcode.flow.endsBlock = true ∧
                position ∈ successors instrs.length i instr := by
  refine ⟨fun h => ?_, fun h => ?_⟩
  · have hempty := (h [] (by simp) 0).mpr (.inl rfl)
    simp [analyze, Lowering.leaders] at hempty
  · have hreturn := (h [{ opcode := .ret }, { opcode := .nop }] (by decide) 1).mp (by decide)
    rcases hreturn with hzero | ⟨instr, hmem, htarget⟩ | ⟨i, instr, hinstr, hends, hgoes⟩
    · simp at hzero
    · revert instr
      decide
    · cases i with
      | zero =>
          obtain rfl := Option.some.inj hinstr
          revert hgoes
          decide
      | succ i =>
          cases i with
          | zero =>
              obtain rfl := Option.some.inj hinstr
              revert hends
              decide
          | succ i => simp at hinstr

end Accounts

end CilSsa.Lowering
