import Mathlib.Data.Nat.Init
import CilSsa.Proofs.Arrivals

/-!
The emission of a body, instruction by instruction.

Before an instruction the current block is open, or it has its end and the instruction is a leader.
One step enters the block of a leader if there is one, and then emits the instruction.
-/

namespace CilSsa.Lowering

open CilSsa.Metadata CilSsa.Ssa

/-- The state before the instruction at a position, with the edges so far.  If the block is open,
the edge from it to that position is still to come.  Control goes where the code before the position
says. -/
inductive Before (frame : Frame) (instrs : List Instruction) (entry : BlockId)
    (leaders : List Leader) (left : BlockId → List Element → Prop) (n : Nat) (edges : List Edge)
    (s : EmitState) : Prop where
  | falls (passing : Passing frame instrs entry leaders left n edges [] s) (isOpen : Open s)
      (counts : ∀ l ∈ leaders, (edgesInto edges l.index).length + (if l.index = n then 1 else 0) ≤
        arrivals instrs l.index n)
      (flow : follows instrs n = if n < instrs.length then [n] else [])
  | ended (finished : List Edge) (passed : List Nat) (hedges : edges = allEdges finished passed s)
      (passing : Passing frame instrs entry leaders left n finished passed s)
      (isClosed : Closed leaders passed s)
      (next : n < instrs.length → n ∈ Lowering.leaders instrs)
      (counts : ∀ l ∈ leaders, (edgesInto edges l.index).length ≤ arrivals instrs l.index n)
      (flow : ∀ position, position ∈ passed ↔ position ∈ follows instrs n)

/-- The state in which the instruction at a position is emitted. -/
structure Ready (frame : Frame) (instrs : List Instruction) (entry : BlockId)
    (leaders : List Leader) (left : BlockId → List Element → Prop) (n : Nat) (edges : List Edge)
    (s : EmitState) : Prop where
  passing : Passing frame instrs entry leaders left (n + 1) edges [] s
  isOpen : Open s
  counts : ∀ l ∈ leaders, (edgesInto edges l.index).length ≤ arrivals instrs l.index n

variable {frame : Frame} {instrs : List Instruction} {entry : BlockId} {leaders : List Leader}
  {left : BlockId → List Element → Prop} {n : Nat} {edges : List Edge} {s s' : EmitState}
  {instr : Instruction} {u : Unit}

theorem length_edgesInto_allEdges {passed : List Nat} (hnodup : passed.Nodup) (position : Nat) :
    (edgesInto (allEdges edges passed s) position).length =
      (edgesInto edges position).length + if position ∈ passed then 1 else 0 := by
  rw [allEdges, edgesInto_append, List.length_append]
  congr 1
  have hfilter : edgesInto (passed.map fun t => ⟨t, s.current, s.stack.elements⟩) position =
      (passed.filter (· == position)).map fun t => ⟨t, s.current, s.stack.elements⟩ := by
    rw [edgesInto, List.filter_map]
    rfl
  rw [hfilter, List.length_map, ← List.count_eq_length_filter, hnodup.count]

/-- The emission of one instruction. -/
theorem Ready.step {site : Site}
    (h : Ready site.toFrame instrs entry leaders left site.index edges s)
    (hinside : ∀ l ∈ leaders, l.index < instrs.length)
    (hinstr : instrs[site.index]? = some site.instr) (hrun : Emit.instruction site s = .ok u s') :
    ∃ edges', Before site.toFrame instrs entry leaders left (site.index + 1) edges' s' ∧
      Advances edges s edges' s' := by
  unfold Emit.instruction at hrun
  cases hdispatch : dispatch site.instr.opcode with
  | deferred => simp [hdispatch] at hrun
  | unsupported => simp [hdispatch] at hrun
  | action action =>
      simp only [hdispatch] at hrun
      have hflow := flow_of_dispatch hdispatch
      have hends : site.instr.opcode.flow.endsBlock = Emit.endsBlock action := by
        rw [hflow, endsBlock_flowOf]
      cases hending : Emit.endsBlock action with
      | false =>
          obtain ⟨hpassing, hopen, hadvances⟩ :=
            h.passing.run (Emit.perform_coded hending) h.isOpen hrun
          have hnext := flow_eq_next (hends.trans hending)
          refine ⟨edges, .falls hpassing hopen (fun l hl => ?_) ?_, hadvances⟩
          · rw [arrivals_succ hinstr]
            have hcount := h.counts l hl
            split
            · rename_i heq
              have hmem : l.index ∈ successors instrs.length site.index site.instr :=
                mem_successors.mpr (.inr ⟨by rw [hnext]; rfl, heq ▸ hinside l hl, heq⟩)
              rw [if_pos hmem]
              omega
            · omega
          · rw [follows_succ hinstr, hnext, goesTo]
      | true =>
          obtain ⟨passed, hexits, hpassing, hclosed, hadvances⟩ :=
            perform_ending hending h.passing h.isOpen hrun
          rw [← hflow] at hexits
          refine ⟨_, .ended edges passed rfl hpassing hclosed ?_ (fun l hl => ?_)
            fun position => ?_, hadvances⟩
          · exact succ_mem_leaders hinstr (hends.trans hending)
          · rw [length_edgesInto_allEdges hpassing.nodup, arrivals_succ hinstr]
            refine Nat.add_le_add (h.counts l hl) ?_
            split
            · rename_i hpassed
              have hmem : l.index ∈ successors instrs.length site.index site.instr :=
                mem_successors_of_goesTo ((hexits _).mp hpassed) (hinside l hl)
              simp only [if_pos hmem, Nat.le_refl]
            · omega
          · rw [hexits, follows_succ hinstr]

theorem moveToLeader_eq_ok {site : Site} (h : (do
      match Emit.leader? (← get) site.index with
      | none => Emit.malformed site (.targetNotInstruction site.index)
      | some l => do
          modify fun s => { s with current := l.block, stack := l.incoming.snapshot }
          Build.positionAtEnd l.block : Emit Unit) s = .ok u s') :
    ∃ l, Emit.leader? s site.index = some l ∧ s' = { s with
      session := { s.session with module := s.session.module.apply (.moveTo l.block) }
      current := l.block
      stack := l.incoming.snapshot } := by
  rw [getBind_eq_ok_iff] at h
  cases hleader : Emit.leader? s site.index with
  | none => simp [hleader] at h
  | some l =>
      simp only [hleader, bind_eq_ok_iff, modify_eq_ok_iff, Emit.liftM_build, Emit.lower_eq_ok_iff,
        Lower.build_eq_ok_iff] at h
      obtain ⟨_, _, rfl, _, ⟨m, hmove, rfl⟩, rfl⟩ := h
      obtain rfl := Build.positionAtEnd_eq_ok hmove
      exact ⟨l, rfl, rfl⟩

theorem isTerminated_eq_ok {ended : Bool} {b : BlockId}
    (h : Emit.lower (Build.query (·.isTerminated b)) s = .ok ended s') (hb : b = s.current) :
    s' = s ∧ (ended = false ↔ Open s) := by
  subst hb
  simp only [Emit.lower_eq_ok_iff, Lower.liftM_build, Lower.build_eq_ok_iff,
    Build.query_eq_ok_iff] at h
  obtain ⟨_, ⟨_, ⟨hended, rfl⟩, rfl⟩, rfl⟩ := h
  simp only [Module.isTerminated, Module.block, exceptBind_eq_ok_iff, Arena.entry_eq_ok_iff,
    exceptPure_eq_ok_iff] at hended
  obtain ⟨block, hblock, rfl⟩ := hended
  refine ⟨rfl, fun hnone => ⟨block, hblock, by simpa using hnone⟩, ?_⟩
  rintro ⟨block', hblock', hnone⟩
  obtain rfl : block = block' := by simpa [hblock] using hblock'
  simp [hnone]

/-- The ways into the block of a leader: a block that is still open falls through to it. -/
theorem enterBlock_cases {site : Site} (h : Emit.enterBlock site s = .ok u s') :
    ∃ s₁ l, ((¬ Open s ∧ s₁ = s) ∨
        Open s ∧ ∃ b s₀, Emit.reconcile site site.index s = .ok b s₀ ∧
          Emit.lower (Lower.build (Build.br b)) s₀ = .ok () s₁) ∧
      Emit.leader? s₁ site.index = some l ∧
      s' = { s₁ with
        session := { s₁.session with module := s₁.session.module.apply (.moveTo l.block) }
        current := l.block
        stack := l.incoming.snapshot } := by
  rw [Emit.enterBlock, getBind_eq_ok_iff, bind_eq_ok_iff] at h
  obtain ⟨ended, t, hended, h⟩ := h
  obtain ⟨hsame, hopen⟩ := isTerminated_eq_ok hended rfl
  subst t
  cases ended with
  | false =>
      simp only [Bool.not_false, if_true, bind_eq_ok_iff] at h
      obtain ⟨b, s₀, hreconcile, _, s₁, hbr, h⟩ := h
      obtain ⟨l, hleader, hs'⟩ := moveToLeader_eq_ok (bind_eq_ok_iff.mpr h)
      exact ⟨s₁, l, .inr ⟨hopen.mp rfl, b, s₀, hreconcile, hbr⟩, hleader, hs'⟩
  | true =>
      simp only [Bool.not_true, Bool.false_eq_true, if_false] at h
      obtain ⟨l, hleader, hs'⟩ := moveToLeader_eq_ok h
      refine ⟨s, l, .inl ⟨fun hs => ?_, rfl⟩, hleader, hs'⟩
      exact Bool.noConfusion (hopen.mpr hs)

theorem Closed.not_open {passed : List Nat} (h : Closed leaders passed s) : ¬ Open s := by
  rintro ⟨block, hblock, hnone⟩
  obtain ⟨block', t, hblock', hend, -⟩ := h
  obtain rfl : block = block' := by simpa [hblock] using hblock'
  simp [hnone] at hend

/-- A block has its end, and goes on to the leaders that follow what stands before position `n`. -/
def Ends (instrs : List Instruction) (leaders : List Leader) (n : Nat) (b : BlockId) (m : Module) :
    Prop :=
  ∃ block t, m.blocks[b.index]? = some block ∧ block.terminator = some t ∧
    LeadsTo leaders (follows instrs n) t.successors

theorem Ends.mono {b : BlockId} {m m' : Module} (h : Ends instrs leaders n b m)
    (hevolves : m.Evolves Change.Any m') : Ends instrs leaders n b m' := by
  obtain ⟨block, t, hblock, hend, hleads⟩ := h
  obtain ⟨block', hblock', hgrows⟩ := hevolves.grows hblock
  exact ⟨block', t, hblock', hgrows.terminator t hend, hleads⟩

theorem Closed.ends {passed : List Nat} (h : Closed leaders passed s)
    (hflow : ∀ position, position ∈ passed ↔ position ∈ follows instrs n) :
    Ends instrs leaders n s.current s.session.module := by
  obtain ⟨block, t, hblock, hend, hleads⟩ := h
  refine ⟨block, t, hblock, hend, fun b => ?_⟩
  simp only [hleads b, hflow]

structure Entered (frame : Frame) (instrs : List Instruction) (entry : BlockId)
    (leaders : List Leader) (left : BlockId → List Element → Prop) (edges : List Edge) (l : Leader)
    (s : EmitState) : Prop where
  ready : Ready frame instrs entry leaders left l.index edges s
  mem : l ∈ s.leaders
  current : s.current = l.block
  stack : s.stack = l.incoming.snapshot
  /-- Before the second edge a block is empty. -/
  empty : (edgesInto edges l.index).length ≤ 1 → ∀ block,
    s.session.module.blocks[l.block.index]? = some block → block.insts = []

theorem Passing.entered {passed : List Nat} {l : Leader}
    (h : Passing frame instrs entry leaders left l.index edges passed s)
    (hclosed : Closed leaders passed s) (hleft : left s.current s.stack.elements)
    (hcounts : ∀ l' ∈ leaders, (edgesInto (allEdges edges passed s) l'.index).length ≤
      arrivals instrs l'.index l.index)
    (hl : l ∈ s.leaders)
    (hs' : s' = { s with
      session := { s.session with module := s.session.module.apply (.moveTo l.block) }
      current := l.block
      stack := l.incoming.snapshot }) :
    Entered frame instrs entry leaders left (allEdges edges passed s) l s' ∧
      Advances (allEdges edges passed s) s (allEdges edges passed s) s' := by
  obtain ⟨h', hopen', hadvances⟩ := h.enter hclosed hleft hl rfl hs'
  obtain ⟨l₁, hl₁, hindex₁, hblock₁, -⟩ := mem_of_places h.places hl
  subst hs'
  refine ⟨⟨⟨h', hopen', hcounts⟩, hl, rfl, rfl, fun hlength block hblock => ?_⟩, hadvances⟩
  have hlt := h.here.lt h.placed hl₁ (Nat.le_of_eq hindex₁.symm)
  rw [← hindex₁] at hlength
  rw [← hblock₁] at hblock
  exact (h.later l₁ hl₁ hlt block hblock).2 hlength

theorem Before.enter {site : Site}
    (h : Before site.toFrame instrs entry leaders left site.index edges s)
    (hlt : site.index < instrs.length) (hleft : left s.current s.stack.elements)
    (hrun : Emit.enterBlock site s = .ok u s') :
    ∃ edges' l, l.index = site.index ∧
      Entered site.toFrame instrs entry leaders left edges' l s' ∧
      Ends instrs leaders site.index s.current s'.session.module ∧ Advances edges s edges' s' := by
  obtain ⟨s₁, l, hfirst, hleader, hs'⟩ := enterBlock_cases hrun
  cases h with
  | falls hpassing hopen hcounts hflow =>
      rcases hfirst with ⟨hended, -⟩ | ⟨-, b, s₀, hreconcile, hbr⟩
      · exact absurd hopen hended
      · obtain ⟨⟨passed, hexits, hpassing', hclosed, hadvances⟩, hstack, hcurrent⟩ :=
          ending_branch rfl hpassing hopen hreconcile hbr
        have hplaced := hpassing'.placed.of_places hpassing'.places
        obtain ⟨hl, hindex⟩ := (leader?_eq_some_iff hplaced).mp hleader
        have hends : Ends instrs leaders site.index s.current s₁.session.module := by
          rw [← hcurrent]
          exact hclosed.ends fun position => by rw [hexits, hflow, if_pos hlt]
        rw [← hindex] at hpassing' hcounts hexits
        have hcounts' : ∀ l' ∈ leaders, (edgesInto (allEdges edges passed s₁) l'.index).length ≤
            arrivals instrs l'.index l.index := by
          intro l' hl'
          rw [length_edgesInto_allEdges hpassing'.nodup]
          refine Nat.le_trans (Nat.add_le_add_left ?_ _) (hcounts l' hl')
          split
          · rename_i hmem
            simp only [if_pos (List.mem_singleton.mp ((hexits _).mp hmem)), Nat.le_refl]
          · omega
        obtain ⟨hentered, hadvances'⟩ := hpassing'.entered hclosed
          (by rw [hstack, hcurrent]; exact hleft) hcounts' hl hs'
        exact ⟨_, l, hindex, hentered, hends.mono hadvances'.evolves, hadvances.trans hadvances'⟩
  | ended finished passed hedges hpassing hclosed hnext hcounts hflow =>
      rcases hfirst with ⟨-, rfl⟩ | ⟨hopen, -⟩
      · have hplaced := hpassing.placed.of_places hpassing.places
        obtain ⟨hl, hindex⟩ := (leader?_eq_some_iff hplaced).mp hleader
        rw [← hindex] at hpassing hcounts
        subst hedges
        obtain ⟨hentered, hadvances⟩ := hpassing.entered hclosed hleft hcounts hl hs'
        exact ⟨_, l, hindex, hentered, (hclosed.ends hflow).mono hadvances.evolves, hadvances⟩
      · exact absurd hopen hclosed.not_open

section Runs

/-- The emission of the instructions before a position leads to a state. -/
def Reaches (frame : Frame) (instrs : List Instruction) (start : EmitState) (n : Nat)
    (s : EmitState) : Prop :=
  Emit.instructions frame 0 (instrs.take n) start = .ok () s

/-- The emission goes on from a block, at a leader or at the end of the body, with a stack. -/
def Leaves (frame : Frame) (instrs : List Instruction) (start : EmitState) (b : BlockId)
    (elements : List Element) : Prop :=
  ∃ n s, (n ∈ Lowering.leaders instrs ∨ n = instrs.length) ∧ n ≤ instrs.length ∧
    Reaches frame instrs start n s ∧ s.current = b ∧ s.stack.elements = elements

variable {start : EmitState}

theorem instructions_append {before after : List Instruction} {index : Nat} :
    Emit.instructions frame index (before ++ after) s = .ok u s' ↔
      ∃ t, Emit.instructions frame index before s = .ok () t ∧
        Emit.instructions frame (index + before.length) after t = .ok u s' := by
  induction before generalizing index s with
  | nil => simp [Emit.instructions]
  | cons first rest ih =>
      have hindex : index + 1 + rest.length = index + (rest.length + 1) := by omega
      simp only [List.cons_append, Emit.instructions, List.length_cons, ↓getBind_eq_ok_iff,
        ← hindex] at ih ⊢
      split <;> simp only [bind_eq_ok_iff, ih]
      · constructor
        · rintro ⟨_, t₁, henter, _, t₂, hinstr, t, hrest, hlast⟩
          exact ⟨t, ⟨_, t₁, henter, _, t₂, hinstr, hrest⟩, hlast⟩
        · rintro ⟨t, ⟨_, t₁, henter, _, t₂, hinstr, hrest⟩, hlast⟩
          exact ⟨_, t₁, henter, _, t₂, hinstr, t, hrest, hlast⟩
      · constructor
        · rintro ⟨_, t₂, hinstr, t, hrest, hlast⟩
          exact ⟨t, ⟨_, t₂, hinstr, hrest⟩, hlast⟩
        · rintro ⟨t, ⟨_, t₂, hinstr, hrest⟩, hlast⟩
          exact ⟨_, t₂, hinstr, t, hrest, hlast⟩

theorem reaches_zero : Reaches frame instrs start 0 s ↔ s = start := by
  simp [Reaches, Emit.instructions]

theorem Reaches.unique (h : Reaches frame instrs start n s) (h' : Reaches frame instrs start n s') :
    s = s' := by
  rw [Reaches] at h h'
  rw [h] at h'
  simpa using h'

theorem reaches_succ (hinstr : instrs[n]? = some instr) :
    Reaches frame instrs start (n + 1) s' ↔ ∃ s, Reaches frame instrs start n s ∧
      Emit.instructions frame n [instr] s = .ok () s' := by
  have hlt := (List.getElem?_eq_some_iff.mp hinstr).1
  rw [Reaches, List.take_add_one, hinstr, Option.toList_some, instructions_append,
    List.length_take, Nat.min_eq_left (Nat.le_of_lt hlt), Nat.zero_add]
  rfl

/-- An emission that gets somewhere has been everywhere before. -/
theorem Reaches.earlier {k : Nat} (h : Reaches frame instrs start n s) (hle : k ≤ n) :
    ∃ t, Reaches frame instrs start k t ∧
      ∃ index rest, Emit.instructions frame index rest t = .ok () s := by
  have hsplit : instrs.take n = instrs.take k ++ (instrs.take n).drop k := by
    rw [← Nat.min_eq_left hle, ← List.take_take, Nat.min_eq_left hle, List.take_append_drop]
  rw [Reaches, hsplit, instructions_append] at h
  obtain ⟨t, ht, hrest⟩ := h
  exact ⟨t, ht, _, _, hrest⟩

def siteAt (frame : Frame) (index : Nat) (instr : Instruction) : Site := { frame with index, instr }

theorem instructions_singleton {index : Nat} :
    Emit.instructions frame index [instr] s = .ok () s' ↔ ∃ s₁,
      (if (Emit.leader? s index).isSome then
          Emit.enterBlock (siteAt frame index instr) s = .ok () s₁ else s₁ = s) ∧
        Emit.instruction (siteAt frame index instr) s₁ = .ok () s' := by
  simp only [Emit.instructions, ↓getBind_eq_ok_iff]
  split
  · simp only [bind_eq_ok_iff, pure_eq_ok_iff]
    constructor
    · rintro ⟨_, s₁, henter, _, s₂, hinstr, -, rfl⟩
      exact ⟨s₁, henter, hinstr⟩
    · rintro ⟨s₁, henter, hinstr⟩
      exact ⟨(), s₁, henter, (), s', hinstr, trivial, rfl⟩
  · simp only [bind_eq_ok_iff, pure_eq_ok_iff]
    constructor
    · rintro ⟨_, s₂, hinstr, -, rfl⟩
      exact ⟨s, rfl, hinstr⟩
    · rintro ⟨_, rfl, hinstr⟩
      exact ⟨(), s', hinstr, trivial, rfl⟩

theorem Before.passing_placed (h : Before frame instrs entry leaders left n edges s) :
    Placed instrs entry leaders ∧ Placed instrs entry s.leaders := by
  cases h with
  | falls hpassing _ _ _ => exact ⟨hpassing.placed, hpassing.placed.of_places hpassing.places⟩
  | ended _ _ _ hpassing _ _ _ _ =>
      exact ⟨hpassing.placed, hpassing.placed.of_places hpassing.places⟩

theorem Before.here (h : Before frame instrs entry leaders left n edges s) :
    At entry leaders n s.current := by
  cases h with
  | falls hpassing _ _ _ => exact hpassing.here
  | ended _ _ _ hpassing _ _ _ _ => exact hpassing.here

theorem isSome_leader?_iff (h : Placed instrs entry s.leaders) :
    (Emit.leader? s n).isSome = true ↔ n ∈ Lowering.leaders instrs := by
  rw [Option.isSome_iff_exists]
  constructor
  · rintro ⟨l, hl⟩
    obtain ⟨hmem, rfl⟩ := (leader?_eq_some_iff h).mp hl
    exact (h.mem_analyze hmem).1
  · intro hn
    obtain ⟨l, hl, hindex⟩ := h.exists_leader hn
    exact ⟨l, (leader?_eq_some_iff h).mpr ⟨hl, hindex⟩⟩

/-- Without a leader the emission goes on in the open block. -/
theorem Before.ready (h : Before frame instrs entry leaders left n edges s)
    (hn : n < instrs.length) (hnone : n ∉ Lowering.leaders instrs) :
    Ready frame instrs entry leaders left n edges s := by
  obtain ⟨hplaced, -⟩ := h.passing_placed
  cases h with
  | falls hpassing hopen hcounts hflow =>
      refine ⟨{ hpassing with here := ?_ }, hopen, fun l hl => ?_⟩
      · refine hpassing.here.succ fun l hl heq => hnone ?_
        exact heq ▸ (hplaced.mem_analyze hl).1
      · exact Nat.le_trans (Nat.le_add_right _ _) (hcounts l hl)
  | ended finished passed hedges hpassing hclosed hnext hcounts hflow =>
  exact absurd (hnext hn) hnone

/-- One step of the emission. -/
theorem Before.step (h : Before frame instrs entry leaders left n edges s)
    (hinside : ∀ l ∈ leaders, l.index < instrs.length) (hinstr : instrs[n]? = some instr)
    (hleft : n ∈ Lowering.leaders instrs → left s.current s.stack.elements)
    (hrun : Emit.instructions frame n [instr] s = .ok () s') :
    ∃ edges', Before frame instrs entry leaders left (n + 1) edges' s' ∧
      Advances edges s edges' s' := by
  obtain ⟨s₁, hfirst, hthen⟩ := instructions_singleton.mp hrun
  obtain ⟨hplaced, hplaced'⟩ := h.passing_placed
  have hlt := (List.getElem?_eq_some_iff.mp hinstr).1
  by_cases hleader : n ∈ Lowering.leaders instrs
  · rw [if_pos ((isSome_leader?_iff hplaced').mpr hleader)] at hfirst
    have hsite : Before (siteAt frame n instr).toFrame instrs entry leaders left
        (siteAt frame n instr).index edges s := h
    obtain ⟨edges₁, l, hindex, hentered, -, hadvances⟩ := hsite.enter hlt (hleft hleader) hfirst
    have hready := hentered.ready
    rw [hindex] at hready
    obtain ⟨edges', hbefore, hadvances'⟩ := hready.step hinside hinstr hthen
    exact ⟨edges', hbefore, hadvances.trans hadvances'⟩
  · rw [if_neg fun hsome => hleader ((isSome_leader?_iff hplaced').mp hsome)] at hfirst
    subst hfirst
    have hready : Ready (siteAt frame n instr).toFrame instrs entry leaders left
        (siteAt frame n instr).index edges s₁ := h.ready hlt hleader
    exact hready.step hinside hinstr hthen

/-- The emission of a body keeps track of its edges. -/
theorem Before.run {k : Nat}
    (h : Before frame instrs entry leaders (Leaves frame instrs start) n edges s)
    (hinside : ∀ l ∈ leaders, l.index < instrs.length) (hreaches : Reaches frame instrs start n s)
    (hle : n ≤ k) (hk : k ≤ instrs.length) (hreaches' : Reaches frame instrs start k s') :
    ∃ edges', Before frame instrs entry leaders (Leaves frame instrs start) k edges' s' ∧
      Advances edges s edges' s' := by
  induction k, hle using Nat.le_induction generalizing s' with
  | base =>
      obtain rfl := hreaches.unique hreaches'
      exact ⟨edges, h, .refl edges s⟩
  | succ k hnk ih =>
      obtain ⟨instr, hinstr⟩ : ∃ instr, instrs[k]? = some instr := ⟨_, List.getElem?_eq_getElem hk⟩
      obtain ⟨s₁, hreaches₁, hstep⟩ := (reaches_succ hinstr).mp hreaches'
      obtain ⟨edges₁, hbefore, hadvances⟩ := ih (Nat.le_of_lt hk) hreaches₁
      obtain ⟨edges', hbefore', hadvances'⟩ := hbefore.step hinside hinstr
        (fun hleader => ⟨k, s₁, .inl hleader, Nat.le_of_lt hk, hreaches₁, rfl, rfl⟩) hstep
      exact ⟨edges', hbefore', hadvances.trans hadvances'⟩

end Runs

end CilSsa.Lowering
