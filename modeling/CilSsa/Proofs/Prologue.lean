import CilSsa.Proofs.Emitting

/-!
The start of the emission of a body: a block for the variables, and a block for every leader.
-/

namespace CilSsa.Lowering

open CilSsa.Metadata CilSsa.Ssa

/-- Everything before the instructions of a body: the frame, the entry block and the leaders. -/
def prologue (asm : Assembly) (d : MethodDef) (name : String) (f : FunctionId) (body : MethodBody) :
    Lower (Frame × BlockId × List Leader) := do
  let entry ← Build.appendBlock f "entry"
  Build.positionAtEnd entry
  let args ← argVariables asm f 0 (← argSigs asm d)
  let locals ← body.locals.mapM (localVariable asm)
  let leaders ← (analyze body.instructions).mapM fun (index, refers) =>
    Lower.build (appendLeader f index refers)
  return ({ asm, method := d, name, args, locals }, entry, leaders)

/-- The emission of a body, from the state that the prologue leads to. -/
structure BodyRun (asm : Assembly) (d : MethodDef) (name : String) (f : FunctionId)
    (body : MethodBody) (s s' : Session) where
  frame : Frame
  entry : BlockId
  start : EmitState
  prologue : prologue asm d name f body s = .ok (frame, entry, start.leaders) start.session
  current : start.current = entry
  stack : start.stack = {}
  final : EmitState
  emission : emission frame body start = .ok () final
  session : s' = final.session

variable {asm : Assembly} {d : MethodDef} {name : String} {f : FunctionId} {body : MethodBody}
  {s s' : Session}

theorem nonempty_bodyRun (h : emitBody asm d name f body s = .ok () s') :
    Nonempty (BodyRun asm d name f body s s') := by
  simp only [emitBody, bind_eq_ok_iff] at h
  obtain ⟨entry, s₁, hentry, _, s₂, hmove, sigs, s₃, hsigs, args, s₄, hargs, locals, s₅, hlocals,
    leaders, s₆, hleaders, hrun⟩ := h
  have hprologue : Lowering.prologue asm d name f body s =
      .ok ({ asm, method := d, name, args, locals }, entry, leaders) s₆ := by
    simp only [Lowering.prologue, bind_eq_ok_iff, pure_eq_ok_iff]
    exact ⟨entry, s₁, hentry, (), s₂, hmove, sigs, s₃, hsigs, args, s₄, hargs, locals, s₅, hlocals,
      leaders, s₆, hleaders, rfl, rfl⟩
  unfold Emit.run at hrun
  cases hemission : emission { asm, method := d, name, args, locals } body
      { session := s₆, leaders, current := entry } with
  | error stop final => simp [hemission] at hrun
  | ok u final =>
      simp only [hemission, EStateM.Result.ok.injEq, true_and] at hrun
      exact ⟨{ frame := _, entry, start := { session := s₆, leaders, current := entry },
               prologue := hprologue, current := rfl, stack := rfl, final,
               emission := hemission, session := hrun.symm }⟩

theorem BodyRun.asm_eq (run : BodyRun asm d name f body s s') : run.frame.asm = asm := by
  have hrun := run.prologue
  simp only [Lowering.prologue, bind_eq_ok_iff, pure_eq_ok_iff, Prod.mk.injEq] at hrun
  obtain ⟨_, _, -, _, _, -, _, _, -, _, _, -, _, _, -, _, _, -, ⟨hframe, -⟩, -⟩ := hrun
  rw [hframe]

section Variables

/-- The storage of arguments is new. -/
theorem new_of_mem_argVariables {index : Nat} {sigs : List TypeSig} {args : List Variable}
    (h : argVariables asm f index sigs s = .ok args s') {v : Variable} (hv : v ∈ args) :
    New s s' v.pointer := by
  induction sigs generalizing index s args with
  | nil =>
      unfold argVariables at h
      obtain ⟨rfl, -⟩ := pure_eq_ok_iff.mp h
      simp at hv
  | cons sig rest ih =>
      unfold argVariables at h
      simp only [bind_eq_ok_iff, pure_eq_ok_iff] at h
      obtain ⟨type, s₁, htype, pointer, s₂, hpointer, value, s₃, hvalue, _, s₄, hstore, others, _,
        hrest, rfl, rfl⟩ := h
      have hnew := (inferInstance : Fresh id (Lower.build (Build.alloca type))).run hpointer
      have hfirst : Grows s s₁ := (inferInstance : Keeps Grows (irType asm sig)).run htype
      have hthen : Keeps Grows (do
          let value ← Build.query (·.param f index)
          Build.store pointer value false : Lower Unit) := inferInstance
      have hstored : Grows s₂ s₄ := hthen.run (a := ()) (by
        simp only [bind_eq_ok_iff]
        exact ⟨value, s₃, hvalue, hstore⟩)
      rcases List.mem_cons.mp hv with rfl | hv
      · have hlast : Grows s₄ s' :=
          (inferInstance : Keeps Grows (argVariables asm f (index + 1) rest)).run hrest
        exact ⟨Nat.le_trans hfirst hnew.1,
          Nat.lt_of_lt_of_le hnew.2 (Nat.le_trans hstored hlast)⟩
      · obtain ⟨hle, hlt⟩ := ih hrest hv
        have hpointer' : Counted.count s₁ ≤ Counted.count s₂ :=
          Nat.le_of_lt (Nat.lt_of_le_of_lt hnew.1 hnew.2)
        exact ⟨Nat.le_trans hfirst (Nat.le_trans hpointer' (Nat.le_trans hstored hle)), hlt⟩

theorem new_of_localVariable {sig : TypeSig} {v : Variable}
    (h : localVariable asm sig s = .ok v s') : New s s' v.pointer := by
  simp only [localVariable, bind_eq_ok_iff, pure_eq_ok_iff] at h
  obtain ⟨type, s₁, htype, pointer, s₂, hpointer, zero, s₃, hzero, _, s₄, hstore, rfl, rfl⟩ := h
  have hnew := (inferInstance : Fresh id (Lower.build (Build.alloca type))).run hpointer
  have hfirst : Grows s s₁ := (inferInstance : Keeps Grows (irType asm sig)).run htype
  have hgrows : Keeps Grows (do
      let zero ← Build.constNull type
      Build.store pointer zero false : Lower Unit) := inferInstance
  refine ⟨Nat.le_trans hfirst hnew.1, Nat.lt_of_lt_of_le hnew.2 (hgrows.run (a := ()) ?_)⟩
  simp only [bind_eq_ok_iff]
  exact ⟨zero, s₃, hzero, hstore⟩

end Variables

section Blocks

def AddsBlock : Change → Prop
  | .addBlock .. => True
  | _ => False

theorem appendLeader_eq_ok {index refers : Nat} {l : Leader}
    (h : Lower.build (appendLeader f index refers) s = .ok l s') :
    l = { index, block := ⟨s.module.blocks.size⟩, refers } ∧
      s'.module = s.module.apply (.addBlock f (blockName index)) := by
  simp only [appendLeader, Lower.build_eq_ok_iff, bind_eq_ok_iff, pure_eq_ok_iff] at h
  obtain ⟨_, ⟨b, _, hblock, rfl, rfl⟩, rfl⟩ := h
  obtain ⟨rfl, rfl, -⟩ := Build.appendBlock_eq_ok hblock
  exact ⟨rfl, rfl⟩

/-- The blocks of leaders are new, empty and in order. -/
theorem appendLeaders_spec {pairs : List (Nat × Nat)} {leaders : List Leader}
    (h : (pairs.mapM fun (index, refers) => Lower.build (appendLeader f index refers)) s =
      .ok leaders s') :
    leaders.map (fun l => (l.index, l.refers)) = pairs ∧
      leaders.Pairwise (fun l l' => l.block.index < l'.block.index) ∧
      (∀ l ∈ leaders, s.module.blocks.size ≤ l.block.index ∧ l.incoming = {} ∧
        ∃ block, s'.module.blocks[l.block.index]? = some block ∧ block.name = blockName l.index ∧
          block.insts = [] ∧ block.terminator = none) ∧
      s.module.Evolves AddsBlock s'.module := by
  induction pairs generalizing s leaders with
  | nil =>
      rw [List.mapM_nil] at h
      obtain ⟨rfl, rfl⟩ := pure_eq_ok_iff.mp h
      exact ⟨rfl, .nil, by simp, Relation.ReflTransGen.refl⟩
  | cons pair rest ih =>
      obtain ⟨index, refers⟩ := pair
      rw [List.mapM_cons] at h
      simp only [bind_eq_ok_iff, pure_eq_ok_iff] at h
      obtain ⟨l, s₁, hfirst, others, _, hrest, rfl, rfl⟩ := h
      obtain ⟨rfl, hmodule⟩ := appendLeader_eq_ok hfirst
      obtain ⟨hpairs, horder, hblocks, hevolves⟩ := ih hrest
      have hsize : s₁.module.blocks.size = s.module.blocks.size + 1 := by
        rw [hmodule]
        simp [Module.apply]
      have hadd : s.module.Evolves AddsBlock s₁.module := by
        rw [hmodule]
        exact Module.Evolves.one (c := .addBlock f (blockName index)) trivial trivial
      have hnew : s₁.module.blocks[s.module.blocks.size]? =
          some { name := blockName index, function := f } := by
        rw [hmodule]
        simp [Module.apply]
      refine ⟨by simp [hpairs], List.pairwise_cons.mpr ⟨fun l hl => ?_, horder⟩, fun l hl => ?_,
        hadd.trans hevolves⟩
      · have := (hblocks l hl).1
        simp only
        omega
      · rcases List.mem_cons.mp hl with rfl | hl
        · refine ⟨Nat.le_refl _, rfl, _, hevolves.block (fun c hc => ?_) hnew, rfl, rfl, rfl⟩
          cases c <;> first | exact trivial | exact hc.elim
        · obtain ⟨hle, hincoming, hblock⟩ := hblocks l hl
          exact ⟨by omega, hincoming, hblock⟩

theorem appendLeaders_functions {pairs : List (Nat × Nat)} {leaders : List Leader}
    (h : (pairs.mapM fun (index, refers) => Lower.build (appendLeader f index refers)) s =
      .ok leaders s') {function : Function} (hf : s.module.functions[f.index]? = some function) :
    ∃ function', s'.module.functions[f.index]? = some function' ∧
      function'.blocks = function.blocks ++ leaders.map Leader.block := by
  induction pairs generalizing s leaders function with
  | nil =>
      rw [List.mapM_nil] at h
      obtain ⟨rfl, rfl⟩ := pure_eq_ok_iff.mp h
      exact ⟨function, hf, by simp⟩
  | cons pair rest ih =>
      rw [List.mapM_cons] at h
      simp only [bind_eq_ok_iff, pure_eq_ok_iff] at h
      obtain ⟨l, s₁, hfirst, others, _, hrest, rfl, rfl⟩ := h
      obtain ⟨rfl, hmodule⟩ := appendLeader_eq_ok hfirst
      have hf₁ : s₁.module.functions[f.index]? =
          some { function with blocks := function.blocks ++ [⟨s.module.blocks.size⟩] } := by
        rw [hmodule]
        simp [Module.apply, Array.getElem?_modify, hf]
      obtain ⟨function', hf', hblocks⟩ := ih hrest hf₁
      exact ⟨function', hf', by simp [hblocks]⟩

end Blocks

/-- A leader that no edge has reached. -/
theorem collects_nil {m : Module} {l : Leader} {block : Block} (h : l.incoming = {})
    (hblock : m.blocks[l.block.index]? = some block) (hinsts : block.insts = []) :
    Collects asm m l [] := by
  have hslots : l.incoming.slots = [] := by rw [h]
  refine ⟨?_, ?_, ?_, ⟨block, hblock, by simp [hinsts]⟩, fun _ => hslots,
    fun _ => ?_, by simp, fun _ _ k slot hslot => ?_⟩
  · simp [EvalStack.elements, hslots]
  · simp [phisOf, hslots]
  · simp [phisOf, hslots]
  · rw [h]
    rfl
  · simp [hslots] at hslot

/-- The state with the entry block, before any code. -/
def opened (f : FunctionId) (s : Session) : Session :=
  { s with
    module := (s.module.apply (.addBlock f "entry")).apply (.moveTo ⟨s.module.blocks.size⟩) }

/-- The steps of the prologue: the entry block, the code for the variables, which stays in it, and
the blocks of the leaders. -/
theorem prologue_cases {frame : Frame} {entry : BlockId} {leaders : List Leader}
    (h : prologue asm d name f body s = .ok (frame, entry, leaders) s') :
    (∃ function, s.module.functions[f.index]? = some function) ∧ entry = ⟨s.module.blocks.size⟩ ∧
      ∃ sigs args locals s₄ s₅, frame = { asm, method := d, name, args, locals } ∧
        argVariables asm f 0 sigs (opened f s) = .ok args s₄ ∧
        body.locals.mapM (localVariable asm) s₄ = .ok locals s₅ ∧
        Session.Coded (opened f s) s₅ ∧
        ((analyze body.instructions).mapM fun (index, refers) =>
          Lower.build (appendLeader f index refers)) s₅ = .ok leaders s' := by
  simp only [prologue, bind_eq_ok_iff, pure_eq_ok_iff, Prod.mk.injEq] at h
  obtain ⟨_, s₁, hentry, _, s₂, hmove, sigs, s₃, hsigs, args, s₄, hargs, locals, s₅, hlocals, _, s₆,
    hleaders, ⟨rfl, rfl, rfl⟩, rfl⟩ := h
  simp only [Lower.liftM_build, Lower.build_eq_ok_iff] at hentry hmove
  obtain ⟨m₁, hentry, rfl⟩ := hentry
  obtain ⟨m₂, hmove, rfl⟩ := hmove
  obtain ⟨rfl, rfl, hfunction⟩ := Build.appendBlock_eq_ok hentry
  obtain rfl := Build.positionAtEnd_eq_ok hmove
  have hcoding : Keeps Session.Coded (do
      let args ← argVariables asm f 0 (← argSigs asm d)
      let locals ← body.locals.mapM (localVariable asm)
      return (args, locals) : Lower (List Variable × List Variable)) := inferInstance
  have hcode : Session.Coded _ s₅ := hcoding.run (a := (args, locals)) (by
    simp only [bind_eq_ok_iff, pure_eq_ok_iff]
    exact ⟨sigs, s₃, hsigs, args, s₄, hargs, locals, s₅, hlocals, rfl, rfl⟩)
  obtain ⟨-, rfl⟩ := Lower.ask_eq_ok_iff.mp hsigs
  exact ⟨hfunction, rfl, sigs, args, locals, s₄, s₅, rfl, hargs, hlocals, hcode, hleaders⟩

theorem new_of_prologue {frame : Frame} {entry : BlockId} {leaders : List Leader}
    (h : prologue asm d name f body s = .ok (frame, entry, leaders) s') {v : Variable}
    (hv : v ∈ frame.args ++ frame.locals) : New s s' v.pointer := by
  obtain ⟨-, rfl, sigs, args, locals, s₄, s₅, rfl, hargs, hlocals, -, hleaders⟩ :=
    prologue_cases h
  obtain ⟨-, -, -, hadded⟩ := appendLeaders_spec hleaders
  have hlast : Grows s₅ s' := hadded.values_le
  have hlocals' : Grows s₄ s₅ :=
    (inferInstance : Keeps Grows (body.locals.mapM (localVariable asm))).run hlocals
  rcases List.mem_append.mp hv with hv | hv
  · obtain ⟨hle, hlt⟩ := new_of_mem_argVariables hargs hv
    exact ⟨hle, Nat.lt_of_lt_of_le hlt (Nat.le_trans hlocals' hlast)⟩
  · obtain ⟨sig, -, t, t', hbefore, hlocal, hafter⟩ :=
      Keeps.mem_of_mapM (R := Grows) (fun _ => inferInstance) hlocals hv
    obtain ⟨hle, hlt⟩ := new_of_localVariable hlocal
    have hargs' : Grows (opened f s) s₄ :=
      (inferInstance : Keeps Grows (argVariables asm f 0 sigs)).run hargs
    exact ⟨Nat.le_trans hargs' (Nat.le_trans hbefore hle),
      Nat.lt_of_lt_of_le hlt (Nat.le_trans hafter hlast)⟩

/-- The state that the prologue leads to. -/
theorem before_of_prologue {frame : Frame} {entry : BlockId} {leaders : List Leader}
    (h : prologue asm d name f body s = .ok (frame, entry, leaders) s')
    (left : BlockId → List Element → Prop) :
    Before frame body.instructions entry leaders left 0 []
      { session := s', leaders, current := entry } := by
  obtain ⟨-, rfl, sigs, args, locals, s₄, s₅, rfl, hargs, hlocals, hcode, hleaders⟩ :=
    prologue_cases h
  obtain ⟨hanalysis, horder, hblocks, hadded⟩ := appendLeaders_spec hleaders
  have hcoded := hcode ⟨s.module.blocks.size⟩ rfl
  have hnew : (opened f s).module.blocks[s.module.blocks.size]? =
      some { name := "entry", function := f } := by simp [opened, Module.apply]
  obtain ⟨block, hblock, hopen⟩ := hcoded.terminator hnew
  have hlt := (Array.getElem?_eq_some_iff.mp hblock).1
  have hspares (b : BlockId) (c : Change) (hc : AddsBlock c) : c.Spares b := by
    cases c <;> first | exact trivial | exact hc.elim
  have hblock' := hadded.block (hspares _) hblock
  have hplaced : Placed body.instructions ⟨s.module.blocks.size⟩ leaders := by
    refine ⟨hanalysis, ?_, fun l hl => Nat.lt_of_lt_of_le hlt (hblocks l hl).1⟩
    have hindices : (leaders.map Leader.index).Pairwise (· < ·) := by
      have hmap : leaders.map Leader.index =
          (leaders.map fun l => (l.index, l.refers)).map Prod.fst := by simp
      rw [hmap, hanalysis, analyze, List.map_map]
      simpa [Function.comp_def] using pairwise_leaders body.instructions
    exact (List.pairwise_map.mp hindices).and horder
  have hsound : Emit.Sound .existence { asm, method := d, name, args, locals }
      { session := s', leaders, current := ⟨s.module.blocks.size⟩ } := by
    exact ⟨fun v hv => hv.elim, by simp [EvalStack.elements], fun v hv =>
      ⟨fun _ => (new_of_prologue h hv).2, id⟩⟩
  have hnoPhis : s'.module.PhisIn ⟨s.module.blocks.size⟩ [] := by
    refine hadded.phisIn (fun c hc type heq => ?_) (hcoded.phis ⟨_, hnew, by simp⟩)
    subst heq
    exact hc
  refine .falls ⟨hplaced, rfl, hnoPhis, hsound, ?_, .entry (by simp),
    ?_, ?_, by simp, by simp, by simp, .nil, ?_, ?_⟩ ⟨block, hblock', hopen⟩ (fun l hl => ?_) rfl
  · refine (hadded.position fun c hc b heq => ?_).trans hcoded.position
    subst heq
    exact hc
  · rintro b (rfl | ⟨l, hl, rfl⟩)
    · exact ⟨block, hblock'⟩
    · obtain ⟨-, -, block', hblock', -⟩ := hblocks l hl
      exact ⟨block', hblock'⟩
  · intro l hl
    obtain ⟨-, hincoming, block', hblock', -, hinsts, -⟩ := hblocks l hl
    exact collects_nil hincoming hblock' hinsts
  · rintro b block' (rfl | ⟨l, hl, rfl⟩) hbefore
    · exact absurd hbefore (Nat.lt_irrefl _)
    · exact absurd (hplaced.first l hl) (Nat.not_lt.mpr (Nat.le_of_lt hbefore))
  · intro l hl hafter block₀ hblock₀
    obtain ⟨-, -, block', hblock', -, hinsts, hterminator⟩ := hblocks l hl
    obtain rfl : block' = block₀ := by simpa [hblock'] using hblock₀
    exact ⟨hterminator, fun _ => hinsts⟩
  · simp [arrivals, edgesFrom, edgesInto]

theorem BodyRun.before (run : BodyRun asm d name f body s s')
    (left : BlockId → List Element → Prop) :
    Before run.frame body.instructions run.entry run.start.leaders left 0 [] run.start := by
  have hstart : run.start = { session := run.start.session, leaders := run.start.leaders,
                              current := run.entry } := by
    rw [← run.current, ← run.stack]
  rw [hstart]
  exact before_of_prologue run.prologue left

end CilSsa.Lowering
