import CilSsa.Proofs.Passing

/-!
Instructions that end a block.

Each of them passes the stack on to the positions that it may go to, every position once, and then
ends the block with branches to just these positions.
-/

namespace CilSsa

open Ssa Metadata Lowering

namespace Lowering

variable {frame : Frame} {instrs : List Instruction} {entry : BlockId} {leaders : List Leader}
  {left : BlockId → List Element → Prop} {n : Nat} {edges : List Edge} {passed : List Nat}
  {s s' : EmitState}

/-- Ending the current block once everything is passed on. -/
theorem Passing.terminate {t : Terminator} {x : Build Unit} [hx : Terminates t x] {u : Unit}
    (h : Passing frame instrs entry leaders left n edges passed s) (hopen : Open s)
    (hrun : Emit.lower (Lower.build x) s = .ok u s')
    (hsuccessors : LeadsTo leaders passed t.successors) :
    Passing frame instrs entry leaders left n edges passed s' ∧ Closed leaders passed s' ∧
      Advances (allEdges edges passed s) s (allEdges edges passed s') s' := by
  simp only [Emit.lower_eq_ok_iff, Lower.build_eq_ok_iff] at hrun
  obtain ⟨_, ⟨m, hbuild, rfl⟩, hs'⟩ := hrun
  obtain ⟨block, hblock, hnone⟩ := hopen
  obtain ⟨hends, horderly, block', hblock', hend⟩ := hx.run hbuild h.position hblock hnone
  exact h.close hs' hends hblock' hend horderly hsuccessors

/-- What an instruction that ends its block does: the stack goes to `passed`, and so does
control. -/
def Ending (frame : Frame) (instrs : List Instruction) (entry : BlockId) (leaders : List Leader)
    (left : BlockId → List Element → Prop) (n : Nat) (edges : List Edge) (targets : List Nat)
    (s s' : EmitState) : Prop :=
  ∃ passed, (∀ position, position ∈ passed ↔ position ∈ targets) ∧
    Passing frame instrs entry leaders left n edges passed s' ∧ Closed leaders passed s' ∧
    Advances edges s (allEdges edges passed s') s'

/-- Straight-line code before the end of the block. -/
theorem Ending.after {targets : List Nat} {s₁ : EmitState}
    (hadvances : Advances edges s edges s₁)
    (h : Ending frame instrs entry leaders left n edges targets s₁ s') :
    Ending frame instrs entry leaders left n edges targets s s' := by
  obtain ⟨passed, htargets, hpassing, hclosed, hadvances'⟩ := h
  exact ⟨passed, htargets, hpassing, hclosed, hadvances.trans hadvances'⟩

/-- A terminator names the blocks of the positions that were passed the stack. -/
theorem leadsTo_of {blocks : List BlockId} (hplaced : Placed instrs entry leaders)
    (hto : ∀ b ∈ blocks, ∃ l ∈ leaders, l.block = b ∧ l.index ∈ passed)
    (hfrom : ∀ position ∈ passed, ∃ l ∈ leaders, l.index = position ∧ l.block ∈ blocks) :
    LeadsTo leaders passed blocks := by
  intro b
  constructor
  · exact hto b
  · rintro ⟨l, hl, rfl, hpassed⟩
    obtain ⟨l', hl', hindex, hblocks⟩ := hfrom l.index hpassed
    rwa [← hplaced.unique hl' hl hindex]

section Branches

variable {site : Site} {u : Unit} (hasm : site.asm = frame.asm)

include hasm

theorem ending_branch {position : Nat} {s₁ : EmitState} {b : BlockId}
    (h : Passing frame instrs entry leaders left n edges [] s) (hopen : Open s)
    (hreconcile : Emit.reconcile site position s = .ok b s₁)
    (hbr : Emit.lower (Lower.build (Build.br b)) s₁ = .ok u s') :
    Ending frame instrs entry leaders left n edges [position] s s' ∧ s'.stack = s.stack ∧
      s'.current = s.current := by
  obtain ⟨h₁, hopen₁, ⟨l, hl, hindex, hblock⟩, hstack, hcurrent, hadvances⟩ :=
    h.reconcile hopen hasm (by simp) hreconcile
  rw [List.nil_append] at h₁ hadvances
  have hsuccessors : LeadsTo leaders [position] (Terminator.br b).successors := by
    refine leadsTo_of h.placed (fun b' hb => ?_) fun t ht => ?_
    · obtain rfl := List.mem_singleton.mp hb
      exact ⟨l, hl, hblock, by simp [hindex]⟩
    · obtain rfl := List.mem_singleton.mp ht
      exact ⟨l, hl, hindex, by simp [Terminator.successors, hblock]⟩
  obtain ⟨h', hclosed, hadvances'⟩ := h₁.terminate hopen₁ hbr hsuccessors
  rw [allEdges_nil] at hadvances
  obtain ⟨t, -, rfl⟩ := Emit.lower_eq_ok_iff.mp hbr
  exact ⟨⟨[position], by simp, h', hclosed, hadvances.trans hadvances'⟩, hstack, hcurrent⟩

/-- A branch to a position or to the next one. -/
theorem ending_conditional {position : Nat} {cond : ValueId}
    (h : Passing frame instrs entry leaders left n edges [] s) (hopen : Open s)
    (hrun : Emit.conditional site cond position s = .ok u s') :
    Ending frame instrs entry leaders left n edges [position, site.index + 1] s s' := by
  simp only [Emit.conditional, bind_eq_ok_iff] at hrun
  obtain ⟨thenBlock, s₁, hthen, hrun⟩ := hrun
  split at hrun
  · obtain ⟨⟨passed, htargets, hending⟩, -, -⟩ := ending_branch hasm h hopen hthen hrun
    rename_i hsame
    exact ⟨passed, fun t => by rw [htargets, hsame]; simp, hending⟩
  · rename_i hne
    obtain ⟨elseBlock, s₂, helse, hrun⟩ := bind_eq_ok_iff.mp hrun
    obtain ⟨h₁, hopen₁, ⟨l, hl, hindex, hblock⟩, -, -, hadvances⟩ :=
      h.reconcile hopen hasm (by simp) hthen
    rw [List.nil_append] at h₁ hadvances
    obtain ⟨h₂, hopen₂, ⟨l', hl', hindex', hblock'⟩, -, -, hadvances'⟩ :=
      h₁.reconcile hopen₁ hasm (by simpa using Ne.symm hne) helse
    rw [List.singleton_append] at h₂ hadvances'
    have hsuccessors : LeadsTo leaders [position, site.index + 1]
        (Terminator.condBr cond thenBlock elseBlock).successors := by
      refine leadsTo_of h.placed (fun b hb => ?_) fun t ht => ?_
      · rcases List.mem_cons.mp hb with rfl | hb
        · exact ⟨l, hl, hblock, by simp [hindex]⟩
        · obtain rfl := List.mem_singleton.mp hb
          exact ⟨l', hl', hblock', by simp [hindex']⟩
      · rcases List.mem_cons.mp ht with rfl | ht
        · exact ⟨l, hl, hindex, by simp [Terminator.successors, hblock]⟩
        · obtain rfl := List.mem_singleton.mp ht
          exact ⟨l', hl', hindex', by simp [Terminator.successors, hblock']⟩
    rw [Emit.liftM_build] at hrun
    obtain ⟨h', hclosed, hadvances''⟩ := h₂.terminate hopen₂ hrun hsuccessors
    rw [allEdges_nil] at hadvances
    exact ⟨_, fun _ => Iff.rfl, h', hclosed, (hadvances.trans hadvances').trans hadvances''⟩

/-- The positions of a jump table that were passed the stack, with their blocks. -/
def Known (leaders : List Leader) (known : List (Nat × BlockId)) : Prop :=
  ∀ x ∈ known, ∃ l ∈ leaders, l.index = x.1 ∧ l.block = x.2

/-- An edge of a jump table passes the stack on unless that was done before. -/
theorem edge_spec {known known' : List (Nat × BlockId)} {position : Nat} {b : BlockId}
    (h : Passing frame instrs entry leaders left n edges (known.map Prod.fst) s) (hopen : Open s)
    (hknown : Known leaders known) (hrun : Emit.edge site known position s = .ok (known', b) s') :
    Passing frame instrs entry leaders left n edges (known'.map Prod.fst) s' ∧ Open s' ∧
      Known leaders known' ∧ (position, b) ∈ known' ∧
      (∀ x, x ∈ known' ↔ x ∈ known ∨ x = (position, b)) ∧
      Advances (allEdges edges (known.map Prod.fst) s) s
        (allEdges edges (known'.map Prod.fst) s') s' := by
  unfold Emit.edge at hrun
  cases hlookup : known.lookup position with
  | some block =>
      simp only [hlookup, pure_eq_ok_iff, Prod.mk.injEq] at hrun
      obtain ⟨⟨rfl, rfl⟩, rfl⟩ := hrun
      have hmem : (position, b) ∈ known' := by
        obtain ⟨before, after, rfl, -⟩ := List.lookup_eq_some_iff.mp hlookup
        simp
      refine ⟨h, hopen, hknown, hmem, fun x => ?_,
        .refl _ _⟩
      constructor
      · exact .inl
      · rintro (hx | rfl)
        · exact hx
        · exact hmem
  | none =>
      simp only [hlookup, bind_eq_ok_iff, pure_eq_ok_iff, Prod.mk.injEq] at hrun
      obtain ⟨block, s₁, hreconcile, ⟨rfl, rfl⟩, rfl⟩ := hrun
      have hnew : position ∉ known.map Prod.fst := by
        intro hmem
        obtain ⟨x, hx, rfl⟩ := List.mem_map.mp hmem
        have hne := List.lookup_eq_none_iff.mp hlookup x hx
        simp at hne
      obtain ⟨h', hopen', hleader, -, -, hadvances⟩ := h.reconcile hopen hasm hnew hreconcile
      have hmap : (known ++ [(position, b)]).map Prod.fst = known.map Prod.fst ++ [position] := by
        simp
      rw [hmap]
      refine ⟨h', hopen', fun x hx => ?_, by simp, by simp, hadvances⟩
      rcases List.mem_append.mp hx with hx | hx
      · exact hknown x hx
      · obtain rfl := List.mem_singleton.mp hx
        exact hleader

/-- The cases of a jump table. -/
theorem switchCases_spec {known known' : List (Nat × BlockId)} {case : Nat} {positions : List Nat}
    {cases : List (Int × BlockId)}
    (h : Passing frame instrs entry leaders left n edges (known.map Prod.fst) s) (hopen : Open s)
    (hknown : Known leaders known)
    (hrun : Emit.switchCases site known case positions s = .ok (known', cases) s') :
    Passing frame instrs entry leaders left n edges (known'.map Prod.fst) s' ∧ Open s' ∧
      Known leaders known' ∧
      (∀ x ∈ known', x ∈ known ∨ (x.1 ∈ positions ∧ x.2 ∈ cases.map Prod.snd)) ∧
      (∀ position ∈ positions, position ∈ known'.map Prod.fst) ∧
      (∀ x ∈ known, x ∈ known') ∧ (∀ b ∈ cases.map Prod.snd, ∃ position, (position, b) ∈ known') ∧
      Advances (allEdges edges (known.map Prod.fst) s) s
        (allEdges edges (known'.map Prod.fst) s') s' := by
  induction positions generalizing known case s known' cases with
  | nil =>
      simp only [Emit.switchCases, pure_eq_ok_iff, Prod.mk.injEq] at hrun
      obtain ⟨⟨rfl, rfl⟩, rfl⟩ := hrun
      exact ⟨h, hopen, hknown, fun x hx => .inl hx, by simp, fun x hx => hx, by simp,
        .refl _ _⟩
  | cons position rest ih =>
      simp only [Emit.switchCases, bind_eq_ok_iff, pure_eq_ok_iff, Prod.mk.injEq] at hrun
      obtain ⟨⟨known₁, b⟩, s₁, hedge, ⟨known₂, cases₁⟩, s₂, hrest, ⟨rfl, rfl⟩, rfl⟩ := hrun
      obtain ⟨h₁, hopen₁, hknown₁, hmem, hsame, hadvances⟩ := edge_spec hasm h hopen hknown hedge
      obtain ⟨h₂, hopen₂, hknown₂, hnew, hall, hkept, hblocks, hadvances'⟩ :=
        ih h₁ hopen₁ hknown₁ hrest
      refine ⟨h₂, hopen₂, hknown₂, fun x hx => ?_, fun t ht => ?_, fun x hx => ?_, fun b' hb' => ?_,
        hadvances.trans hadvances'⟩
      · rcases hnew x hx with hx | ⟨hposition, hcase⟩
        · rcases (hsame x).mp hx with hx | rfl
          · exact .inl hx
          · exact .inr ⟨by simp, by simp⟩
        · exact .inr ⟨List.mem_cons_of_mem _ hposition, List.mem_cons_of_mem _ hcase⟩
      · rcases List.mem_cons.mp ht with rfl | ht
        · exact List.mem_map.mpr ⟨_, hkept _ hmem, rfl⟩
        · exact hall t ht
      · exact hkept x ((hsame x).mpr (.inl hx))
      · rcases List.mem_cons.mp hb' with rfl | hb'
        · exact ⟨position, hkept _ hmem⟩
        · exact hblocks b' hb'

/-- A jump table, and the position behind it. -/
theorem ending_table {positions : List Nat} {value : ValueId} {known known' : List (Nat × BlockId)}
    {cases : List (Int × BlockId)} {default : BlockId} {s₁ s₂ : EmitState}
    (h : Passing frame instrs entry leaders left n edges [] s) (hopen : Open s)
    (hcases : Emit.switchCases site [] 0 positions s = .ok (known, cases) s₁)
    (hdefault : Emit.edge site known (site.index + 1) s₁ = .ok (known', default) s₂)
    (hswitch : Emit.lower (Lower.build (Build.switch value default cases)) s₂ = .ok u s') :
    Ending frame instrs entry leaders left n edges (positions ++ [site.index + 1]) s s' := by
  have hnone : Known leaders [] := by
    intro x hx
    simp at hx
  obtain ⟨h₁, hopen₁, hknown₁, hnew, hall, -, hblocks, hadvances⟩ :=
    switchCases_spec hasm h hopen hnone hcases
  obtain ⟨h₂, hopen₂, hknown₂, hmem, hsame, hadvances'⟩ :=
    edge_spec hasm h₁ hopen₁ hknown₁ hdefault
  have hsuccessors : LeadsTo leaders (known'.map Prod.fst)
      (Terminator.switch value default cases).successors := by
    refine leadsTo_of h.placed (fun b hb => ?_) fun t ht => ?_
    · have hfound : ∃ position, (position, b) ∈ known' := by
        rcases List.mem_cons.mp hb with rfl | hb
        · exact ⟨_, hmem⟩
        · obtain ⟨position, hposition⟩ := hblocks b hb
          exact ⟨position, (hsame _).mpr (.inl hposition)⟩
      obtain ⟨position, hposition⟩ := hfound
      obtain ⟨l, hl, hindex, hblock⟩ := hknown₂ _ hposition
      exact ⟨l, hl, hblock, hindex ▸ List.mem_map_of_mem (f := Prod.fst) hposition⟩
    · obtain ⟨x, hx, rfl⟩ := List.mem_map.mp ht
      obtain ⟨l, hl, hindex, hblock⟩ := hknown₂ x hx
      refine ⟨l, hl, hindex, ?_⟩
      rw [hblock, Terminator.successors]
      rcases (hsame x).mp hx with hx | rfl
      · rcases hnew x hx with hx | ⟨-, hcase⟩
        · simp at hx
        · exact List.mem_cons_of_mem _ hcase
      · exact List.mem_cons_self
  obtain ⟨h', hclosed, hadvances''⟩ := h₂.terminate hopen₂ hswitch hsuccessors
  rw [List.map_nil, allEdges_nil] at hadvances
  refine ⟨_, fun t => ⟨fun ht => ?_, fun ht => ?_⟩, h', hclosed,
    (hadvances.trans hadvances').trans hadvances''⟩
  · obtain ⟨x, hx, rfl⟩ := List.mem_map.mp ht
    rcases (hsame x).mp hx with hx | rfl
    · rcases hnew x hx with hx | ⟨hposition, -⟩
      · simp at hx
      · exact List.mem_append_left _ hposition
    · simp
  · rcases List.mem_append.mp ht with ht | ht
    · obtain ⟨x, hx, rfl⟩ := List.mem_map.mp (hall t ht)
      exact List.mem_map_of_mem ((hsame x).mpr (.inl hx))
    · obtain rfl := List.mem_singleton.mp ht
      exact List.mem_map.mpr ⟨_, hmem, rfl⟩

end Branches

section Actions

variable {site : Site} {u : Unit}

/-- The positions that control goes to from the instruction at position `i` of a body. -/
def goesTo (length i : Nat) (targets : List Nat) : Flow → List Nat
  | .next => if i + 1 < length then [i + 1] else []
  | .branch => targets
  | .condBranch | .switch => targets ++ [i + 1]
  | .exit | .raise => []

/-- How an action passes control on. -/
def flowOf : Action → Flow
  | .branch => .branch
  | .branchIf _ | .compareBranch .. => .condBranch
  | .switch => .switch
  | .ret => .exit
  | _ => .next

theorem targets_of_targetOperand {position : Nat}
    (h : Emit.targetOperand site s = .ok position s') :
    site.instr.targets = [position] ∧ s' = s := by
  unfold Emit.targetOperand at h
  cases hoperand : site.instr.operand with
  | target found =>
      simp only [hoperand, pure_eq_ok_iff] at h
      obtain ⟨rfl, rfl⟩ := h
      exact ⟨by simp [Instruction.targets, hoperand], rfl⟩
  | _ => simp [hoperand] at h

/-- Code of an instruction before it passes anything on. -/
theorem Passing.run {α : Type} {x : Emit α} {a : α}
    (hx : Keeps (Emit.Straight Session.Coded .existence site.toFrame []) x)
    (h : Passing site.toFrame instrs entry leaders left n edges [] s) (hopen : Open s)
    (hrun : x s = .ok a s') :
    Passing site.toFrame instrs entry leaders left n edges [] s' ∧ Open s' ∧
      Advances edges s edges s' :=
  h.straight hopen (hx.run hrun)

theorem ending_branchIf {onZero : Bool}
    (h : Passing site.toFrame instrs entry leaders left n edges [] s) (hopen : Open s)
    (hrun : Emit.branchIf site onZero s = .ok u s') :
    Ending site.toFrame instrs entry leaders left n edges (site.instr.targets ++ [site.index + 1])
      s s' := by
  simp only [Emit.branchIf, bind_eq_ok_iff] at hrun
  obtain ⟨target, s₁, htarget, e, s₂, hpop, cond, s₃, hcond, hrun⟩ := hrun
  obtain ⟨htargets, rfl⟩ := targets_of_targetOperand htarget
  obtain ⟨h₂, hopen₂, hadvances⟩ := h.run inferInstance hopen hpop
  obtain ⟨h₃, hopen₃, hadvances'⟩ := h₂.run inferInstance hopen₂ hcond
  rw [htargets]
  exact (ending_conditional rfl h₃ hopen₃ hrun).after (hadvances.trans hadvances')

theorem ending_compareBranch {relation : Relation} {unsigned : Bool}
    (h : Passing site.toFrame instrs entry leaders left n edges [] s) (hopen : Open s)
    (hrun : Emit.compareBranch site relation unsigned s = .ok u s') :
    Ending site.toFrame instrs entry leaders left n edges (site.instr.targets ++ [site.index + 1])
      s s' := by
  simp only [Emit.compareBranch, bind_eq_ok_iff] at hrun
  obtain ⟨target, s₁, htarget, rhs, s₂, hrhs, lhs, s₃, hlhs, cond, s₄, hcond, hrun⟩ := hrun
  obtain ⟨htargets, rfl⟩ := targets_of_targetOperand htarget
  obtain ⟨h₂, hopen₂, hadvances⟩ := h.run inferInstance hopen hrhs
  obtain ⟨h₃, hopen₃, hadvances'⟩ := h₂.run inferInstance hopen₂ hlhs
  obtain ⟨h₄, hopen₄, hadvances''⟩ := h₃.run inferInstance hopen₃ hcond
  rw [htargets]
  exact (ending_conditional rfl h₄ hopen₄ hrun).after
    ((hadvances.trans hadvances').trans hadvances'')

theorem ending_switch (h : Passing site.toFrame instrs entry leaders left n edges [] s)
    (hopen : Open s) (hrun : Emit.switch site s = .ok u s') :
    Ending site.toFrame instrs entry leaders left n edges (site.instr.targets ++ [site.index + 1])
      s s' := by
  unfold Emit.switch at hrun
  cases hoperand : site.instr.operand with
  | switch positions =>
      have htargets : site.instr.targets = positions := by simp [Instruction.targets, hoperand]
      simp only [hoperand, bind_eq_ok_iff] at hrun
      obtain ⟨selector, s₁, hpop, type, s₂, htype, signed, s₃, hsigned, value, s₄, hcoerce,
        ⟨known, cases⟩, s₅, hcases, ⟨known', default⟩, s₆, hdefault, hswitch⟩ := hrun
      obtain ⟨h₁, hopen₁, hadvances₁⟩ := h.run inferInstance hopen hpop
      obtain ⟨h₂, hopen₂, hadvances₂⟩ := h₁.run inferInstance hopen₁ htype
      obtain ⟨h₃, hopen₃, hadvances₃⟩ := h₂.run inferInstance hopen₂ hsigned
      obtain ⟨h₄, hopen₄, hadvances₄⟩ := h₃.run inferInstance hopen₃ hcoerce
      rw [htargets]
      exact (ending_table rfl h₄ hopen₄ hcases hdefault hswitch).after
        (((hadvances₁.trans hadvances₂).trans hadvances₃).trans hadvances₄)
  | _ => simp [hoperand] at hrun

/-- A return passes nothing on. -/
theorem ending_ret
    (h : Passing site.toFrame instrs entry leaders left n edges [] s) (hopen : Open s)
    (hrun : Emit.ret site s = .ok u s') :
    Ending site.toFrame instrs entry leaders left n edges [] s s' := by
  have hsuccessors (value : Option ValueId) :
      LeadsTo leaders [] (Terminator.ret value).successors := by
    simp [LeadsTo, Terminator.successors]
  have hend {s₁ : EmitState} {value : Option ValueId}
      (h₁ : Passing site.toFrame instrs entry leaders left n edges [] s₁) (hopen₁ : Open s₁)
      (hret : Emit.lower (Lower.build (Build.ret value)) s₁ = .ok u s') :
      Ending site.toFrame instrs entry leaders left n edges [] s₁ s' := by
    obtain ⟨h', hclosed, hadvances⟩ := h₁.terminate hopen₁ hret (hsuccessors value)
    rw [allEdges_nil] at hadvances
    exact ⟨[], fun _ => Iff.rfl, h', hclosed, hadvances⟩
  by_cases hvoid : site.method.returnType = .void
  · simp only [Emit.ret, hvoid, if_true] at hrun
    exact hend h hopen hrun
  · simp only [Emit.ret, hvoid, if_false, bind_eq_ok_iff] at hrun
    obtain ⟨type, s₁, htype, e, s₂, hpop, signed, s₃, hsigned, value, s₄, hcoerce, hret⟩ := hrun
    obtain ⟨h₁, hopen₁, hadvances₁⟩ := h.run inferInstance hopen htype
    obtain ⟨h₂, hopen₂, hadvances₂⟩ := h₁.run inferInstance hopen₁ hpop
    obtain ⟨h₃, hopen₃, hadvances₃⟩ := h₂.run inferInstance hopen₂ hsigned
    obtain ⟨h₄, hopen₄, hadvances₄⟩ := h₃.run inferInstance hopen₃ hcoerce
    exact (hend h₄ hopen₄ hret).after
      (((hadvances₁.trans hadvances₂).trans hadvances₃).trans hadvances₄)

theorem perform_ending {action : Action} (hends : Emit.endsBlock action = true)
    (h : Passing site.toFrame instrs entry leaders left n edges [] s) (hopen : Open s)
    (hrun : Emit.perform site action s = .ok u s') :
    Ending site.toFrame instrs entry leaders left n edges
      (goesTo instrs.length site.index site.instr.targets (flowOf action)) s s' := by
  cases action with
  | branch =>
      simp only [Emit.perform, Emit.branch, bind_eq_ok_iff] at hrun
      obtain ⟨target, s₁, htarget, b, s₂, hreconcile, hbr⟩ := hrun
      obtain ⟨htargets, rfl⟩ := targets_of_targetOperand htarget
      rw [flowOf, goesTo, htargets]
      exact (ending_branch rfl h hopen hreconcile hbr).1
  | branchIf onZero => exact ending_branchIf h hopen hrun
  | compareBranch relation unsigned => exact ending_compareBranch h hopen hrun
  | switch => exact ending_switch h hopen hrun
  | ret => exact ending_ret h hopen hrun
  | _ => simp [Emit.endsBlock] at hends

end Actions

end Lowering

end CilSsa
