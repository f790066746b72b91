import CilSsa.Proofs.Success
import CilSsa.Ssa.Verifier

/-!
What verification accepts.

A function is verified if no misuse was recorded against it, every block ends and leads to blocks of
the function, phis come first, and the entries of phis come from predecessors.
-/

namespace CilSsa.Ssa.Module

variable {m : Module} {f : FunctionId}

/-- Control may go from one block to another. -/
def Edge (m : Module) (b c : BlockId) : Prop :=
  ∃ block, m.blocks[b.index]? = some block ∧ c ∈ block.successors

def EndsWithin (m : Module) (owned : List BlockId) (b : BlockId) : Prop :=
  ∃ block t, m.blocks[b.index]? = some block ∧ block.terminator = some t ∧
    ∀ c ∈ t.successors, c ∈ owned

/-- Instructions with phis in front, whose entries come from some blocks only. -/
structure PhisFit (m : Module) (source : BlockId → Prop) (insts : List ValueId) : Prop where
  known : ∀ v ∈ insts, ∃ value, m.values[v.index]? = some value
  first : insts.Pairwise fun v w => Build.isPhi m w = true → Build.isPhi m v = true
  entries : ∀ v ∈ insts, ∀ {type place entries},
    m.values[v.index]? = some ⟨type, .inst place (.phi entries)⟩ → ∀ e ∈ entries, source e.2

/-- A function without defects. -/
structure WellFormed (m : Module) (f : FunctionId) (function : Function) : Prop where
  found : m.functions[f.index]? = some function
  clean : m.misuseOf? f = none
  ended : ∀ b ∈ function.blocks, m.EndsWithin function.blocks b
  phis : ∀ b ∈ function.blocks, ∀ {block}, m.blocks[b.index]? = some block →
    m.PhisFit (fun p => p ∈ function.blocks ∧ m.Edge p b) block.insts

theorem terminatorDefect?_eq_none_iff {owned : List BlockId} {b : BlockId} :
    m.terminatorDefect? owned b = .ok none ↔ m.EndsWithin owned b := by
  simp only [terminatorDefect?, Module.block, exceptBind_eq_ok_iff, Arena.entry_eq_ok_iff]
  constructor
  · rintro ⟨block, hblock, h⟩
    split at h
    · simp at h
    · rename_i t ht
      exact ⟨block, t, hblock, ht, by simpa using h⟩
  · rintro ⟨block, t, hblock, ht, hsuccessors⟩
    refine ⟨block, hblock, ?_⟩
    have hall : t.successors.all (· ∈ owned) = true := by simpa using hsuccessors
    simp only [ht, hall, if_true]
    rfl

section Predecessors

variable {owned : List BlockId} {target : BlockId}

/-- The predecessors of a block among others. -/
theorem mem_predecessors {preds : List BlockId} (h : m.predecessors owned target = .ok preds)
    (p : BlockId) : p ∈ preds ↔ p ∈ owned ∧ m.Edge p target := by
  obtain ⟨-, rfl⟩ := exceptFilterM_eq_ok_iff.mp h
  simp only [List.mem_filter, decide_eq_true_eq, exceptBind_eq_ok_iff, exceptPure_eq_ok_iff,
    Module.block, Arena.entry_eq_ok_iff, Edge, eq_comm (a := true)]

/-- Blocks that exist can be asked where they lead. -/
theorem exists_predecessors (h : ∀ b ∈ owned, ∃ block, m.blocks[b.index]? = some block) :
    ∃ preds, m.predecessors owned target = .ok preds := by
  refine ⟨_, exceptFilterM_eq_ok_iff.mpr ⟨fun b hb => ?_, rfl⟩⟩
  obtain ⟨block, hblock⟩ := h b hb
  have hfound : m.block b = .ok block := Arena.entry_eq_ok_iff.mpr hblock
  exact ⟨decide (target ∈ block.successors), by rw [hfound]; rfl⟩

end Predecessors

section Phis

variable {name : String} {preds : List BlockId}

theorem incomingDefect?_eq_none_iff {entries : List (ValueId × BlockId)} :
    m.incomingDefect? name preds entries = .ok none ↔ ∀ e ∈ entries, e.2 ∈ preds := by
  induction entries with
  | nil => simp [incomingDefect?, pure, Except.pure]
  | cons e rest ih =>
      obtain ⟨v, source⟩ := e
      rw [incomingDefect?, List.forall_mem_cons]
      split
      · rename_i hmem
        simp [ih, hmem]
      · rename_i hmem
        simp [hmem, pure, Except.pure]

theorem isPhi_eq_true_iff {v : ValueId} :
    Build.isPhi m v = true ↔ ∃ type place entries,
      m.values[v.index]? = some ⟨type, .inst place (.phi entries)⟩ := by
  unfold Build.isPhi
  cases hv : m.values[v.index]? with
  | none => simp
  | some value =>
      obtain ⟨type, kind⟩ := value
      cases kind with
      | inst place inst => cases inst <;> simp [Value.inst?, Inst.isPhi]
      | _ => simp [Value.inst?]

theorem incoming?_of_phi {v : ValueId} {type : TypeId} {place : Option BlockId}
    {entries : List (ValueId × BlockId)}
    (h : m.values[v.index]? = some ⟨type, .inst place (.phi entries)⟩) :
    m.incoming? v = .ok (some entries) := by
  have hfound : m.value v = .ok _ := Arena.entry_eq_ok_iff.mpr h
  rw [incoming?, inst?, hfound]
  rfl

theorem incoming?_of_not_isPhi {v : ValueId} {value : Value} (h : m.values[v.index]? = some value)
    (hphi : Build.isPhi m v = false) : m.incoming? v = .ok none := by
  have hfound : m.value v = .ok value := Arena.entry_eq_ok_iff.mpr h
  rw [incoming?, inst?, hfound]
  obtain ⟨type, kind⟩ := value
  cases kind with
  | inst place inst =>
      cases inst with
      | phi entries => simp [Build.isPhi, h, Value.inst?, Inst.isPhi] at hphi
      | _ => rfl
  | _ => rfl

/-- The instructions after one that fits. -/
theorem phisFit_cons_iff {source : BlockId → Prop} {v : ValueId} {rest : List ValueId} :
    m.PhisFit source (v :: rest) ↔ (∃ value, m.values[v.index]? = some value) ∧
      (Build.isPhi m v = false → ∀ w ∈ rest, Build.isPhi m w = false) ∧
      (∀ {type place entries}, m.values[v.index]? = some ⟨type, .inst place (.phi entries)⟩ →
        ∀ e ∈ entries, source e.2) ∧ m.PhisFit source rest := by
  constructor
  · rintro ⟨hknown, hfirst, hentries⟩
    obtain ⟨hv, hrest⟩ := List.forall_mem_cons.mp hknown
    obtain ⟨hv', hrest'⟩ := List.pairwise_cons.mp hfirst
    obtain ⟨hv'', hrest''⟩ := List.forall_mem_cons.mp hentries
    refine ⟨hv, fun hphi w hw => ?_, hv'', hrest, hrest', hrest''⟩
    exact Bool.eq_false_iff.mpr fun hw' => by simp [hv' w hw hw'] at hphi
  · rintro ⟨hv, hv', hv'', hrest, hrest', hrest''⟩
    refine ⟨List.forall_mem_cons.mpr ⟨hv, hrest⟩, List.pairwise_cons.mpr
      ⟨fun w hw hphi => ?_, hrest'⟩, List.forall_mem_cons.mpr ⟨hv'', hrest''⟩⟩
    refine Bool.of_not_eq_false fun hnot => ?_
    simp [hv' hnot w hw] at hphi

/-- A phi in front is in order if its entries and the instructions after it are. -/
theorem phiDefect?_cons_phi {v : ValueId} {rest : List ValueId} {entries : List (ValueId × BlockId)}
    (h : m.incoming? v = .ok (some entries)) :
    m.phiDefect? name preds true (v :: rest) = .ok none ↔
      (∀ e ∈ entries, e.2 ∈ preds) ∧ m.phiDefect? name preds true rest = .ok none := by
  have hentries : m.incomingDefect? name preds entries = .ok none ↔ ∀ e ∈ entries, e.2 ∈ preds :=
    incomingDefect?_eq_none_iff
  rw [phiDefect?, h, ← hentries]
  simp only [bind, Except.bind, Bool.not_true, Bool.false_eq_true, if_false]
  cases m.incomingDefect? name preds entries with
  | error fault => simp
  | ok defect => cases defect <;> simp [pure, Except.pure]

theorem phiDefect?_eq_none_iff {inHead : Bool} {insts : List ValueId} :
    m.phiDefect? name preds inHead insts = .ok none ↔ m.PhisFit (· ∈ preds) insts ∧
      (inHead = false → ∀ v ∈ insts, Build.isPhi m v = false) := by
  induction insts generalizing inHead with
  | nil =>
      simp only [phiDefect?, exceptPure_eq_ok_iff, true_iff]
      exact ⟨⟨by simp, .nil, by simp⟩, by simp⟩
  | cons v rest ih =>
      rw [phisFit_cons_iff]
      cases hv : m.values[v.index]? with
      | none =>
          have hfails : m.incoming? v = .error (.outOfRange .value v.index) := by
            simp only [incoming?, inst?, Module.value, Arena.entry, hv]
            rfl
          rw [phiDefect?, hfails]
          simp [bind, Except.bind]
      | some value =>
          cases hphi : Build.isPhi m v with
          | true =>
              obtain ⟨type, place, entries, hvalue⟩ := isPhi_eq_true_iff.mp hphi
              obtain rfl := Option.some.inj (hv.symm.trans hvalue)
              have hincoming := incoming?_of_phi hvalue
              cases inHead with
              | false =>
                  rw [phiDefect?, hincoming]
                  simp [hphi, bind, Except.bind, pure, Except.pure]
              | true =>
                  rw [phiDefect?_cons_phi hincoming, ih]
                  constructor
                  · rintro ⟨hentries, hrest, -⟩
                    refine ⟨⟨⟨_, rfl⟩, by simp, fun heq => ?_, hrest⟩, by simp⟩
                    cases heq
                    exact hentries
                  · rintro ⟨⟨-, -, hentries, hrest⟩, -⟩
                    exact ⟨hentries rfl, hrest, by simp⟩
          | false =>
              have hnot {type : TypeId} {place : Option BlockId}
                  {entries : List (ValueId × BlockId)} :
                  value ≠ ⟨type, .inst place (.phi entries)⟩ := by
                rintro rfl
                simp [Build.isPhi, hv, Value.inst?, Inst.isPhi] at hphi
              have hrest : m.phiDefect? name preds inHead (v :: rest) =
                  m.phiDefect? name preds false rest := by
                rw [phiDefect?, incoming?_of_not_isPhi hv hphi]
                rfl
              rw [hrest, ih]
              constructor
              · rintro ⟨hfit, hphis⟩
                exact ⟨⟨⟨_, rfl⟩, fun _ => hphis rfl, fun heq => absurd
                  (Option.some.inj heq) hnot, hfit⟩, fun _ =>
                    List.forall_mem_cons.mpr ⟨hphi, hphis rfl⟩⟩
              · rintro ⟨⟨-, hphis, -, hfit⟩, -⟩
                exact ⟨hfit, fun _ => hphis rfl⟩

end Phis

theorem blockPhiDefect?_eq_none_iff {owned : List BlockId} {b : BlockId}
    (h : ∀ b ∈ owned, ∃ block, m.blocks[b.index]? = some block) (hb : b ∈ owned) :
    m.blockPhiDefect? owned b = .ok none ↔ ∀ {block}, m.blocks[b.index]? = some block →
      m.PhisFit (fun p => p ∈ owned ∧ m.Edge p b) block.insts := by
  obtain ⟨block, hblock⟩ := h b hb
  obtain ⟨preds, hpreds⟩ : ∃ preds, m.predecessors owned b = .ok preds := exists_predecessors h
  have hfound : m.block b = .ok block := Arena.entry_eq_ok_iff.mpr hblock
  have hsource : (· ∈ preds) = fun p => p ∈ owned ∧ m.Edge p b :=
    funext fun p => propext (mem_predecessors hpreds p)
  rw [blockPhiDefect?, hfound, ← hsource]
  simp only [bind, Except.bind, hpreds, phiDefect?_eq_none_iff, hblock, Option.some.injEq]
  simp

theorem defect?_eq_none_iff : m.defect? f = .ok none ↔ ∃ function, m.WellFormed f function := by
  simp only [defect?, Module.function, exceptBind_eq_ok_iff, Arena.entry_eq_ok_iff]
  constructor
  · rintro ⟨function, hfound, h⟩
    cases hclean : m.misuseOf? f with
    | some misuse => simp [hclean] at h
    | none =>
        simp only [hclean, exceptBind_eq_ok_iff] at h
        obtain ⟨defect, hended, h⟩ := h
        cases defect with
        | some defect => simp at h
        | none =>
            rw [exceptFindSomeM?_eq_none_iff] at hended h
            have hended b hb := terminatorDefect?_eq_none_iff.mp (hended b hb)
            have hblocks b (hb : b ∈ function.blocks) :
                ∃ block, m.blocks[b.index]? = some block := by
              obtain ⟨block, -, hblock, -⟩ := hended b hb
              exact ⟨block, hblock⟩
            exact ⟨function, hfound, hclean, hended,
              fun b hb => (blockPhiDefect?_eq_none_iff hblocks hb).mp (h b hb)⟩
  · rintro ⟨function, hfound, hclean, hended, hphis⟩
    have hblocks b (hb : b ∈ function.blocks) : ∃ block, m.blocks[b.index]? = some block := by
      obtain ⟨block, -, hblock, -⟩ := hended b hb
      exact ⟨block, hblock⟩
    refine ⟨function, hfound, ?_⟩
    simp only [hclean, exceptBind_eq_ok_iff]
    refine ⟨none, exceptFindSomeM?_eq_none_iff.mpr fun b hb =>
      terminatorDefect?_eq_none_iff.mpr (hended b hb), ?_⟩
    exact exceptFindSomeM?_eq_none_iff.mpr fun b hb =>
      (blockPhiDefect?_eq_none_iff hblocks hb).mpr (hphis b hb)

/-- Verification accepts the well-formed functions. -/
theorem verify_eq_ok_iff : m.verify f = .ok (.ok ()) ↔ ∃ function, m.WellFormed f function := by
  rw [← defect?_eq_none_iff, verify]
  cases m.defect? f with
  | error fault => simp [bind, Except.bind]
  | ok defect =>
      cases defect with
      | none => simp [bind, Except.bind, pure, Except.pure]
      | some defect =>
          cases m.function f <;> simp [bind, Except.bind, pure, Except.pure]

end CilSsa.Ssa.Module
