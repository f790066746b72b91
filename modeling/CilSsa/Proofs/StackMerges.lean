import CilSsa.Proofs.Prologue

/-!
What becomes of the evaluation stack between two blocks.

The code of a block is emitted with the values that its slots hold when the block is entered.  An
edge that comes later, from the block itself or from one behind it, can no longer change them.
-/

namespace CilSsa.Lowering

open CilSsa.Metadata CilSsa.Ssa

/-- The state at the end of a body, with all edges. -/
structure Finished (frame : Frame) (instrs : List Instruction) (entry : BlockId)
    (leaders : List Leader) (left : BlockId → List Element → Prop) (edges : List Edge)
    (s : EmitState) : Prop where
  placed : Placed instrs entry leaders
  places : s.leaders.map Leader.place = leaders.map Leader.place
  noPhis : s.session.module.PhisIn entry []
  collects : ∀ l ∈ s.leaders, Collects frame.asm s.session.module l (edgesInto edges l.index)
  counts : ∀ l ∈ leaders, (edgesInto edges l.index).length ≤ refers instrs l.index
  left : ∀ x ∈ edges, IsBodyBlock entry leaders x.source ∧ left x.source x.elements
  distinct : edges.Pairwise fun x y => x.source = y.source → x.target ≠ y.target
  blocks : ∀ b, IsBodyBlock entry leaders b →
    ∃ block, s.session.module.blocks[b.index]? = some block
  successors : ∀ b block, IsBodyBlock entry leaders b →
    s.session.module.blocks[b.index]? = some block → ∀ l ∈ leaders,
      (l.block ∈ block.successors ↔ ∃ x ∈ edges, x.source = b ∧ x.target = l.index)

section Ends

variable {frame : Frame} {instrs : List Instruction} {entry : BlockId} {leaders : List Leader}
  {left : BlockId → List Element → Prop} {edges : List Edge} {passed : List Nat}
  {s s' : EmitState} {n : Nat}

/-- The last block has its end as well. -/
theorem Passing.finished_of_closed
    (h : Passing frame instrs entry leaders left instrs.length edges passed s)
    (hinside : ∀ l ∈ leaders, l.index < instrs.length)
    (hclosed : Closed leaders passed s) (hleft : left s.current s.stack.elements)
    (hcounts : ∀ l ∈ leaders, (edgesInto (allEdges edges passed s) l.index).length ≤
      arrivals instrs l.index instrs.length) :
    Finished frame instrs entry leaders left (allEdges edges passed s) s := by
  refine ⟨h.placed, h.places, h.noPhis, h.collects, fun l hl => ?_, fun x hx => ?_,
    h.distinct_allEdges, h.blocks, fun b block hb hblock l hl => ?_⟩
  · rw [← arrivals_length]
    exact hcounts l hl
  · rcases mem_allEdges.mp hx with hx | ⟨position, -, rfl⟩
    · obtain ⟨hbody, -, hxleft⟩ := h.earlier x hx
      exact ⟨hbody, hxleft⟩
    · exact ⟨h.here.isBodyBlock, hleft⟩
  · refine h.successors_of_closed hclosed hb ?_ hblock hl
    rcases hb with rfl | ⟨l', hl', rfl⟩
    · exact h.here.ge_entry h.placed
    · exact h.here.le h.placed hl' (hinside l' hl')

/-- The end of a body: a block that is still open is not left. -/
theorem Before.finished (h : Before frame instrs entry leaders left instrs.length edges s)
    (hinside : ∀ l ∈ leaders, l.index < instrs.length) (hleft : left s.current s.stack.elements)
    (hlast : (¬ Open s ∧ s' = s) ∨
      Open s ∧ Emit.lower (Lower.build Build.unreachable) s = .ok () s') :
    ∃ edges', Finished frame instrs entry leaders left edges' s' ∧
      Ends instrs leaders instrs.length s.current s'.session.module ∧
      Advances edges s edges' s' := by
  cases h with
  | falls hpassing hopen hcounts hflow =>
      rcases hlast with ⟨hended, -⟩ | ⟨-, hrun⟩
      · exact absurd hopen hended
      · obtain ⟨hpassing', hclosed, hadvances⟩ :=
          hpassing.terminate (t := .unreachable) hopen hrun
            (by simp [LeadsTo, Terminator.successors])
        rw [allEdges_nil, allEdges_nil] at hadvances
        obtain ⟨_, -, rfl⟩ := Emit.lower_eq_ok_iff.mp hrun
        have hends : Ends instrs leaders instrs.length s.current _ :=
          hclosed.ends fun position => by simp [hflow]
        refine ⟨edges, ?_, hends, hadvances⟩
        rw [← allEdges_nil edges { s with session := _ }]
        refine hpassing'.finished_of_closed hinside hclosed hleft fun l hl => ?_
        rw [allEdges_nil]
        exact Nat.le_trans (Nat.le_add_right _ _) (hcounts l hl)
  | ended finished passed hedges hpassing hclosed hnext hcounts hflow =>
      rcases hlast with ⟨-, rfl⟩ | ⟨hopen, -⟩
      · subst hedges
        exact ⟨_, hpassing.finished_of_closed hinside hclosed hleft hcounts, hclosed.ends hflow,
          .refl _ _⟩
      · exact absurd hopen hclosed.not_open

end Ends

theorem emission_cases {frame : Frame} {body : MethodBody} {s s' : EmitState} {u : Unit}
    (h : emission frame body s = .ok u s') :
    ∃ t, Reaches frame body.instructions s body.instructions.length t ∧
      ((¬ Open t ∧ s' = t) ∨ Open t ∧
        Emit.lower (Lower.build Build.unreachable) t = .ok () s') := by
  rw [emission, bind_eq_ok_iff] at h
  obtain ⟨_, t, hrun, h⟩ := h
  rw [getBind_eq_ok_iff, bind_eq_ok_iff] at h
  obtain ⟨ended, t', hended, h⟩ := h
  obtain ⟨hsame, hopen⟩ := isTerminated_eq_ok hended rfl
  subst t'
  refine ⟨t, by rwa [Reaches, List.take_length], ?_⟩
  cases ended with
  | false => exact .inr ⟨hopen.mp rfl, h⟩
  | true =>
      refine .inl ⟨fun ht => Bool.noConfusion (hopen.mpr ht), ?_⟩
      exact (pure_eq_ok_iff.mp h).2

section Between

variable {frame : Frame} {instrs : List Instruction} {entry : BlockId} {leaders : List Leader}
  {left : BlockId → List Element → Prop} {edges edges' : List Edge} {s s' : EmitState} {l : Leader}

theorem Finished.distinct_sources (h : Finished frame instrs entry leaders left edges s)
    (position : Nat) : (edgesInto edges position).Pairwise fun x y => x.source ≠ y.source := by
  refine List.Pairwise.imp_of_mem ?_ (h.distinct.filter _)
  intro x y hx hy hne heq
  refine hne heq ?_
  rw [(mem_edgesInto.mp hx).2, (mem_edgesInto.mp hy).2]

/-- The edges into a leader: those from before, and those that come when its code is emitted. -/
theorem Entered.split (h : Entered frame instrs entry leaders left edges l s)
    (hadvances : Advances edges s edges' s') :
    ∃ more, edgesInto edges' l.index = edgesInto edges l.index ++ more ∧
      (∀ x ∈ edgesInto edges l.index, x.source.index < l.block.index) ∧
      ∀ x ∈ more, l.block.index ≤ x.source.index := by
  obtain ⟨more, rfl, hmore⟩ := hadvances.added
  refine ⟨edgesInto more l.index, edgesInto_append edges more l.index, fun x hx => ?_,
    fun x hx => ?_⟩
  · rw [← h.current]
    exact (h.ready.passing.earlier x (mem_edgesInto.mp hx).1).2.1
  · rw [← h.current]
    exact hmore x (mem_edgesInto.mp hx).1

theorem Entered.collects (h : Entered frame instrs entry leaders left edges l s) :
    Collects frame.asm s.session.module l (edgesInto edges l.index) := by
  have hcollects := h.ready.passing.collects l h.mem
  rwa [allEdges_nil] at hcollects

theorem Entered.elements (h : Entered frame instrs entry leaders left edges l s) :
    s.stack.elements = l.incoming.elements := by
  rw [h.stack, EvalStack.elements_snapshot]

theorem Entered.not_mem_heads {e : Element} (h : Entered frame instrs entry leaders left edges l s)
    (hfirst : (edgesInto edges l.index).length ≤ 1)
    (hevolves : s.session.module.Evolves Change.Any s'.session.module)
    (he : e ∈ s.stack.elements) : e.value ∉ s'.session.module.heads l.block := by
  intro hhead
  obtain ⟨block, hblock, -⟩ := h.ready.isOpen
  rw [h.current] at hblock
  obtain ⟨block', hblock', hgrows⟩ := hevolves.grows hblock
  rw [Module.heads, hblock'] at hhead
  have hexists := (h.ready.passing.sound.stack e he).exists_ trivial
  rcases hgrows.fresh _ ((List.takeWhile_sublist _).subset hhead) with hold | hnew
  · rw [h.empty hfirst block hblock] at hold
    simp at hold
  · exact absurd hexists (Nat.not_lt.mpr hnew)

end Between

namespace BodyRun

variable {asm : Assembly} {d : MethodDef} {name : String} {f : FunctionId} {body : MethodBody}
  {s s' : Session} (run : BodyRun asm d name f body s s')

/-- Control can go from the end of a block of the body to a block. -/
def Edge (p b : BlockId) : Prop :=
  IsBodyBlock run.entry run.start.leaders p ∧
    ∃ block, s'.module.blocks[p.index]? = some block ∧ b ∈ block.successors

/-- The stack at the end of a block. -/
def Leaves (p : BlockId) (sent : List Element) : Prop :=
  Lowering.Leaves run.frame body.instructions run.start p sent

/-- The stack that the code of a leader is emitted with. -/
def Enters (l : Leader) (taken : List Element) : Prop :=
  ∃ instr t t', body.instructions[l.index]? = some instr ∧
    Reaches run.frame body.instructions run.start l.index t ∧
    Emit.enterBlock (siteAt run.frame l.index instr) t = .ok () t' ∧ t'.stack.elements = taken

/-- The blocks before a leader have stacks of the same height at their ends. -/
def Leveled (l : Leader) : Prop :=
  ∀ p q sent sent', run.Edge p l.block → run.Edge q l.block → run.Leaves p sent →
    run.Leaves q sent' → sent.length = sent'.length

/-- What a block takes for a slot stands for what its predecessor `p` has sent: it is the same
value and there is no other predecessor, or it is a phi at the head of the block with one entry for
`p`, the value or its conversion to the type of the phi. -/
def Carries (p b : BlockId) (sent taken : Element) : Prop :=
  ((∀ q, run.Edge q b → q = p) ∧ taken.value = sent.value) ∨
    ∃ type entries v, taken.value ∈ s'.module.heads b ∧
      s'.module.values[taken.value.index]? = some ⟨type, .inst (some b) (.phi entries)⟩ ∧
      (∀ w, (w, p) ∈ entries ↔ w = v) ∧
      (v = sent.value ∨ ∃ signed, isSigned asm sent.sig = .ok signed ∧
        Coerced s'.module p sent.value type signed v)

/-- All that decides what a leader's code is emitted with is known when its block is entered. -/
def Settled (l : Leader) : Prop :=
  (∀ q, run.Edge q l.block → q.index < l.block.index) ∨
    ∃ q q', q ≠ q' ∧ (run.Edge q l.block ∧ q.index < l.block.index) ∧
      run.Edge q' l.block ∧ q'.index < l.block.index

variable {run} (htargets : ∀ instr ∈ body.instructions, ∀ target ∈ instr.targets,
  target < body.instructions.length)

theorem placed (run : BodyRun asm d name f body s s') :
    Placed body.instructions run.entry run.start.leaders :=
  (run.before fun _ _ => True).passing_placed.1

theorem module (run : BodyRun asm d name f body s s') : s'.module = run.final.session.module :=
  congrArg Session.module run.session

include htargets in
theorem inside {l : Leader} (hl : l ∈ run.start.leaders) : l.index < body.instructions.length :=
  lt_of_mem_leaders htargets (run.placed.mem_analyze hl).1

include htargets in
theorem before_of_reaches {n : Nat} {t : EmitState} (hn : n ≤ body.instructions.length)
    (h : Reaches run.frame body.instructions run.start n t) :
    ∃ edges, Before run.frame body.instructions run.entry run.start.leaders
      run.Leaves n edges t := by
  obtain ⟨edges, hbefore, -⟩ := (run.before run.Leaves).run (fun l hl => inside htargets hl) rfl
    (Nat.zero_le n) hn h
  exact ⟨edges, hbefore⟩

include htargets in
/-- A block is left once. -/
theorem Leaves.unique {p : BlockId} {sent sent' : List Element} (h : run.Leaves p sent)
    (h' : run.Leaves p sent') : sent = sent' := by
  have hle {n n' : Nat} {t t' : EmitState} (hn : n ∈ leaders body.instructions ∨
      n = body.instructions.length) (hle : n ≤ body.instructions.length)
      (hle' : n' ≤ body.instructions.length)
      (ht : Reaches run.frame body.instructions run.start n t)
      (ht' : Reaches run.frame body.instructions run.start n' t')
      (hsame : t.current = t'.current) : n' ≤ n := by
    rcases hn with hn | rfl
    · obtain ⟨l, hl, rfl⟩ := run.placed.exists_leader hn
      obtain ⟨_, hbefore⟩ := before_of_reaches htargets hle ht
      obtain ⟨_, hbefore'⟩ := before_of_reaches htargets hle' ht'
      refine Nat.le_of_not_lt fun hlt => ?_
      have hfirst := hbefore.here.lt run.placed hl (Nat.le_refl _)
      have hthen := hbefore'.here.le run.placed hl hlt
      rw [hsame] at hfirst
      omega
    · exact hle'
  obtain ⟨n, t, hn, hnle, ht, rfl, rfl⟩ := h
  obtain ⟨n', t', hn', hnle', ht', hcurrent, rfl⟩ := h'
  obtain rfl : n = n' := Nat.le_antisymm (hle hn' hnle' hnle ht' ht hcurrent)
    (hle hn hnle hnle' ht ht' hcurrent.symm)
  obtain rfl := ht.unique ht'
  rfl

section Edges

variable {l : Leader} {all : List Lowering.Edge} (h : Finished run.frame body.instructions run.entry
  run.start.leaders run.Leaves all run.final) (hl : l ∈ run.start.leaders)

include h hl

/-- The edges that were passed on are those of the graph. -/
theorem edge_iff {p : BlockId} :
    run.Edge p l.block ↔ ∃ x ∈ edgesInto all l.index, x.source = p := by
  rw [Edge, run.module]
  constructor
  · rintro ⟨hp, block, hblock, hmem⟩
    obtain ⟨x, hx, hsource, htarget⟩ := (h.successors p block hp hblock l hl).mp hmem
    exact ⟨x, mem_edgesInto.mpr ⟨hx, htarget⟩, hsource⟩
  · rintro ⟨x, hx, rfl⟩
    obtain ⟨hx, htarget⟩ := mem_edgesInto.mp hx
    obtain ⟨hbody, -⟩ := h.left x hx
    obtain ⟨block, hblock⟩ := h.blocks x.source hbody
    exact ⟨hbody, block, hblock,
      (h.successors x.source block hbody hblock l hl).mpr ⟨x, hx, rfl, htarget⟩⟩

theorem level (hlevel : run.Leveled l) : Level (edgesInto all l.index) := by
  have hleaves {x : Lowering.Edge} (hx : x ∈ edgesInto all l.index) :
      run.Leaves x.source x.elements := (h.left x (mem_edgesInto.mp hx).1).2
  intro x hx y hy
  exact hlevel x.source y.source x.elements y.elements ((edge_iff h hl).mpr ⟨x, hx, rfl⟩)
    ((edge_iff h hl).mpr ⟨y, hy, rfl⟩) (hleaves hx) (hleaves hy)

end Edges

/-- The emission of the code of a leader, from the entry of its block to the end of the body.
`known` are the edges at the entry, `all` those at the end. -/
structure Passage (run : BodyRun asm d name f body s s') (l l' : Leader)
    (known all : List Lowering.Edge) (t : EmitState) : Prop where
  mem : l ∈ run.start.leaders
  place : l'.place = l.place
  entered : Entered run.frame body.instructions run.entry run.start.leaders run.Leaves known l' t
  finished : Finished run.frame body.instructions run.entry run.start.leaders
      run.Leaves all run.final
  advances : Advances known t all run.final
  /-- The block before the leader has its end. -/
  ended : ∃ b, At run.entry run.start.leaders l.index b ∧
    Ends body.instructions run.start.leaders l.index b t.session.module
  enters : ∀ taken, run.Enters l taken ↔ taken = t.stack.elements

include htargets in
theorem exists_passage {l : Leader} (hl : l ∈ run.start.leaders) :
    ∃ l' known all t, run.Passage l l' known all t := by
  have hinside := fun l (hl : l ∈ run.start.leaders) => inside htargets hl
  obtain ⟨last, hlast, hend⟩ := emission_cases run.emission
  obtain ⟨instr, hinstr⟩ : ∃ instr, body.instructions[l.index]? = some instr :=
    ⟨_, List.getElem?_eq_getElem (hinside l hl)⟩
  obtain ⟨next, hnext, -⟩ := hlast.earlier (hinside l hl)
  obtain ⟨t₀, ht₀, hstep⟩ := (reaches_succ hinstr).mp hnext
  obtain ⟨edges₀, hbefore⟩ := before_of_reaches htargets (Nat.le_of_lt (hinside l hl)) ht₀
  obtain ⟨t, henter, hthen⟩ := instructions_singleton.mp hstep
  have hleader := (run.placed.mem_analyze hl).1
  rw [if_pos ((isSome_leader?_iff hbefore.passing_placed.2).mpr hleader)] at henter
  have hsite : Before (siteAt run.frame l.index instr).toFrame body.instructions run.entry
      run.start.leaders run.Leaves (siteAt run.frame l.index instr).index edges₀ t₀ := hbefore
  obtain ⟨known, l', hindex, hentered, hends, -⟩ := hsite.enter (hinside l hl)
    ⟨l.index, t₀, .inl hleader, Nat.le_of_lt (hinside l hl), ht₀, rfl, rfl⟩ henter
  have hready := hentered.ready
  rw [hindex] at hready
  obtain ⟨edges₁, hbefore₁, hadvances₁⟩ := hready.step hinside hinstr hthen
  obtain ⟨edges₂, hbefore₂, hadvances₂⟩ :=
    Before.run hbefore₁ hinside hnext (hinside l hl) (Nat.le_refl _) hlast
  obtain ⟨all, hfinished, -, hadvances₃⟩ := hbefore₂.finished hinside
    ⟨_, last, .inr rfl, Nat.le_refl _, hlast, rfl, rfl⟩ hend
  refine ⟨l', known, all, t, hl, ?_, hentered, hfinished,
    (hadvances₁.trans hadvances₂).trans hadvances₃, ⟨_, hbefore.here, hends⟩, fun taken => ?_⟩
  · obtain ⟨l₁, hl₁, hindex₁, hblock₁, hrefers₁⟩ :=
      mem_of_places hentered.ready.passing.places hentered.mem
    obtain rfl := run.placed.unique hl₁ hl (hindex₁.trans hindex)
    simp [Leader.place, hindex₁, hblock₁, hrefers₁]
  · constructor
    · rintro ⟨instr', u₀, u, hinstr', hu₀, hu, rfl⟩
      obtain rfl : instr = instr' := by simpa [hinstr] using hinstr'
      obtain rfl := ht₀.unique hu₀
      obtain rfl : t = u := by simpa [henter] using hu
      rfl
    · rintro rfl
      exact ⟨instr, t₀, t, hinstr, ht₀, henter, rfl⟩

section Passage

variable {l l' : Leader} {known all : List Lowering.Edge} {t : EmitState}
  (h : run.Passage l l' known all t)

include h

theorem Passage.index : l'.index = l.index := congrArg (·.1) h.place

theorem Passage.block : l'.block = l.block := congrArg (·.2.1) h.place

theorem Passage.edge_iff {p : BlockId} :
    run.Edge p l.block ↔ ∃ x ∈ edgesInto all l'.index, x.source = p := by
  rw [h.index]
  exact BodyRun.edge_iff h.finished h.mem

theorem Passage.leaves {x : Lowering.Edge} (hx : x ∈ edgesInto all l'.index) :
    run.Leaves x.source x.elements :=
  (h.finished.left x (mem_edgesInto.mp hx).1).2

theorem Passage.level (hlevel : run.Leveled l) : Level (edgesInto all l'.index) := by
  rw [h.index]
  exact BodyRun.level h.finished h.mem hlevel

/-- The stack of a leader is settled when its block is entered, if no edge comes later or two have
come before. -/
theorem Passage.settled_iff {more : List Lowering.Edge}
    (hsplit : edgesInto all l'.index = edgesInto known l'.index ++ more)
    (hbefore : ∀ x ∈ edgesInto known l'.index, x.source.index < l'.block.index)
    (hafter : ∀ x ∈ more, l'.block.index ≤ x.source.index) :
    run.Settled l ↔ more = [] ∨ 1 < (edgesInto known l'.index).length := by
  rw [h.block] at hbefore hafter
  have hearly {x : Lowering.Edge} (hx : x ∈ edgesInto all l'.index)
      (hlt : x.source.index < l.block.index) : x ∈ edgesInto known l'.index := by
    rw [hsplit, List.mem_append] at hx
    refine hx.resolve_right fun hx => ?_
    exact absurd (hafter x hx) (Nat.not_le.mpr hlt)
  constructor
  · rintro (hall | ⟨q, q', hne, ⟨hq, hlt⟩, hq', hlt'⟩)
    · refine .inl (List.eq_nil_iff_forall_not_mem.mpr fun x hx => ?_)
      have hmem : x ∈ edgesInto all l'.index := hsplit ▸ List.mem_append_right _ hx
      have hlt := hall x.source (h.edge_iff.mpr ⟨x, hmem, rfl⟩)
      exact absurd (hafter x hx) (Nat.not_le.mpr hlt)
    · obtain ⟨x, hx, rfl⟩ := h.edge_iff.mp hq
      obtain ⟨y, hy, rfl⟩ := h.edge_iff.mp hq'
      have hx := hearly hx hlt
      have hy := hearly hy hlt'
      refine .inr ?_
      generalize edgesInto known l'.index = edges at hx hy
      match edges with
      | [] => simp at hx
      | [z] =>
          obtain rfl := List.mem_singleton.mp hx
          obtain rfl := List.mem_singleton.mp hy
          exact absurd rfl hne
      | _ :: _ :: _ => simp
  · rintro (rfl | hseveral)
    · refine .inl fun q hq => ?_
      obtain ⟨x, hx, rfl⟩ := h.edge_iff.mp hq
      rw [hsplit, List.append_nil] at hx
      exact hbefore x hx
    · have hdistinct := h.finished.distinct_sources l'.index
      rw [hsplit] at hdistinct
      have hdistinct := (List.pairwise_append.mp hdistinct).1
      have hedge {x : Lowering.Edge} (hx : x ∈ edgesInto known l'.index) :
          run.Edge x.source l.block ∧ x.source.index < l.block.index :=
        ⟨h.edge_iff.mpr ⟨x, hsplit ▸ List.mem_append_left _ hx, rfl⟩, hbefore x hx⟩
      generalize edgesInto known l'.index = edges at hseveral hdistinct hedge
      match edges with
      | [] => simp at hseveral
      | [z] => simp at hseveral
      | x :: y :: rest =>
          refine .inr ⟨x.source, y.source, ?_, hedge (by simp), hedge (by simp)⟩
          exact (List.pairwise_cons.mp hdistinct).1 y List.mem_cons_self

/-- The values of all predecessors of a settled leader arrive. -/
theorem Passage.carries_of_settled {x : Lowering.Edge} {k : Nat} {e : Element}
    (hlevel : run.Leveled l) (hsettled : run.Settled l) (hx : x ∈ edgesInto all l'.index)
    (he : x.elements[k]? = some e) :
    ∃ e', t.stack.elements[k]? = some e' ∧ run.Carries x.source l.block e e' := by
  obtain ⟨more, hsplit, hbefore, hafter⟩ := h.entered.split h.advances
  by_cases hseveral : 1 < (edgesInto known l'.index).length
  · obtain ⟨l'', hl'', hplace, hsame⟩ := h.advances.leaders l' h.entered.mem
    have hindex : l''.index = l'.index := congrArg (·.1) hplace
    have hblock : l''.block = l.block := (congrArg (·.2.1) hplace).trans h.block
    have hrefers : l''.refers = l'.refers := congrArg (·.2.2) hplace
    have hlength : 1 < (edgesInto all l'.index).length := by
      rw [hsplit, List.length_append]
      omega
    have hcount : 1 < l'.refers := by
      have hrefers' : l'.refers = l.refers := congrArg (·.2.2) h.place
      have hbound := h.finished.counts l h.mem
      rw [← (run.placed.mem_analyze h.mem).2, ← h.index] at hbound
      omega
    have hcollects := h.finished.collects l'' hl''
    rw [hindex] at hcollects
    obtain ⟨e', type, entries, v, he', hhead, hvalue, hentries, hstands⟩ :=
      hcollects.phi_of_several (hrefers ▸ hcount) (h.level hlevel) hlength
        (h.finished.distinct_sources _) hx he
    rw [hsame hcount hseveral (h.level hlevel), ← h.entered.elements] at he'
    rw [hblock, ← run.module] at hhead hvalue
    rw [run.asm_eq, ← run.module] at hstands
    exact ⟨e', he', .inr ⟨type, entries, v, hhead, hvalue, hentries, hstands.2⟩⟩
  · obtain rfl := ((h.settled_iff hsplit hbefore hafter).mp hsettled).resolve_right hseveral
    rw [List.append_nil] at hsplit
    have hsingle : edgesInto known l'.index = [x] := by
      rw [hsplit] at hx
      generalize edgesInto known l'.index = edges at hx hseveral
      match edges with
      | [] => simp at hx
      | [z] => rw [List.mem_singleton.mp hx]
      | _ :: _ :: _ => simp at hseveral
    have hcollects := h.entered.collects
    rw [hsingle] at hcollects
    refine ⟨e, ?_, .inl ⟨fun q hq => ?_, rfl⟩⟩
    · rw [h.entered.elements, hcollects.elements_of_single, he]
    · obtain ⟨y, hy, rfl⟩ := h.edge_iff.mp hq
      rw [hsplit, hsingle, List.mem_singleton] at hy
      rw [hy]

/-- A leader that is not settled goes on with the values of the first predecessor, or without
any. -/
theorem Passage.settled_of_carries {p : BlockId} {k : Nat} {e e' : Element}
    (he' : t.stack.elements[k]? = some e') (hcarries : run.Carries p l.block e e') :
    run.Settled l := by
  obtain ⟨more, hsplit, hbefore, hafter⟩ := h.entered.split h.advances
  rw [h.settled_iff hsplit hbefore hafter]
  by_cases hseveral : 1 < (edgesInto known l'.index).length
  · exact .inr hseveral
  · rcases hcarries with ⟨honly, -⟩ | ⟨type, entries, v, hhead, -⟩
    · refine .inl (List.eq_nil_iff_forall_not_mem.mpr fun z hz => ?_)
      have hedge {x : Lowering.Edge} (hx : x ∈ edgesInto known l'.index ++ more) : x.source = p :=
        honly x.source (h.edge_iff.mpr ⟨x, hsplit ▸ hx, rfl⟩)
      cases hknown : edgesInto known l'.index with
      | nil =>
          have hslots := h.entered.collects.empty hknown
          rw [h.entered.elements, EvalStack.elements, hslots] at he'
          simp at he'
      | cons y rest =>
          have hy : y ∈ edgesInto known l'.index := hknown ▸ List.mem_cons_self
          have hlt := hbefore y hy
          have hle := hafter z hz
          rw [hedge (List.mem_append_left _ hy)] at hlt
          rw [hedge (List.mem_append_right _ hz)] at hle
          omega
    · rw [run.module, ← h.block] at hhead
      exact absurd hhead (h.entered.not_mem_heads (Nat.le_of_not_lt hseveral) h.advances.evolves
        (List.mem_of_getElem? he'))

end Passage

end BodyRun

/-- When a body is emitted, a predecessor's value reaches a slot of a leader's code if and only if
the leader is settled when its block is entered: every edge into it comes from an earlier block, or
two of them do.  In a loop whose head has a single way in, the code of the head is emitted with the
values of that way, whatever comes around. -/
theorem carries_iff_settled {asm : Assembly} {d : MethodDef} {name : String} {f : FunctionId}
    {body : MethodBody} {s s' : Session} (h : emitBody asm d name f body s = .ok () s')
    (htargets : ∀ instr ∈ body.instructions, ∀ target ∈ instr.targets,
      target < body.instructions.length) :
    Nonempty (BodyRun asm d name f body s s') ∧
      ∀ run : BodyRun asm d name f body s s', ∀ l ∈ run.start.leaders,
        (∃ taken, run.Enters l taken) ∧ (∀ p, run.Edge p l.block → ∃ sent, run.Leaves p sent) ∧
        (run.Leveled l → ∀ p sent taken, run.Edge p l.block → run.Leaves p sent →
          run.Enters l taken → ∀ (k : Nat) e, sent[k]? = some e →
            ((∃ e', taken[k]? = some e' ∧ run.Carries p l.block e e') ↔ run.Settled l)) := by
  refine ⟨nonempty_bodyRun h, fun run l hl => ?_⟩
  obtain ⟨l', known, all, t, hpassage⟩ := BodyRun.exists_passage htargets hl
  refine ⟨⟨_, (hpassage.enters _).mpr rfl⟩, fun p hp => ?_, fun hlevel p sent taken hp hsent htaken
    k e he => ?_⟩
  · obtain ⟨x, hx, rfl⟩ := hpassage.edge_iff.mp hp
    exact ⟨_, hpassage.leaves hx⟩
  · obtain ⟨x, hx, rfl⟩ := hpassage.edge_iff.mp hp
    obtain rfl := (hpassage.enters taken).mp htaken
    obtain rfl := BodyRun.Leaves.unique htargets (hpassage.leaves hx) hsent
    constructor
    · rintro ⟨e', he', hcarries⟩
      exact hpassage.settled_of_carries he' hcarries
    · intro hsettled
      exact hpassage.carries_of_settled hlevel hsettled hx he

section Counter

/-- A number that is increased on the stack until it is ten. -/
def counter : MethodBody where
  instructions := [
    { opcode := .ldcI41 },
    { opcode := .ldcI41 },
    { opcode := .add },
    { opcode := .dup },
    { opcode := .ldcI4, operand := .int32 10 },
    { opcode := .blt, operand := .target 1 },
    { opcode := .ret }]

def counterMethod : MethodDef where
  name := "Count"
  declaringType := ⟨3⟩
  returnType := .i4
  flags := ⟨MethodFlags.static⟩
  body := some counter

/-- The method has no variables. -/
def counterFrame : Frame where
  asm := Assembly.ofName "A"
  method := counterMethod
  name := "C::Count"
  args := []
  locals := []

/-- A session in which the function of the method is declared. -/
def counterSession : Session where
  module := {
    name := "A"
    types := #[.int 32, .function ⟨0⟩ []]
    functions := #[
      { name := "C::Count", type := ⟨1⟩, linkage := .external, params := [], value := ⟨0⟩ }] }

/-- The state before the instructions of the counter. -/
def counterStart : EmitState where
  session := stateOf (prologue counterFrame.asm counterMethod "C::Count" ⟨0⟩ counter counterSession)
  leaders := [{ index := 0, block := ⟨1⟩, refers := 1 }, { index := 1, block := ⟨2⟩, refers := 2 },
    { index := 6, block := ⟨3⟩, refers := 1 }]
  current := ⟨0⟩

/-- The state after them. -/
def counterFinal : EmitState := stateOf (emission counterFrame counter counterStart)

def counterRun : BodyRun counterFrame.asm counterMethod "C::Count" ⟨0⟩ counter counterSession
    counterFinal.session where
  frame := counterFrame
  entry := ⟨0⟩
  start := counterStart
  prologue := rfl
  current := rfl
  stack := rfl
  final := counterFinal
  emission := outcome?_eq_some_iff.mp (by decide +kernel)
  session := rfl

def counterHead : Leader := { index := 1, block := ⟨2⟩, refers := 2 }

/-- The state when the emission of the counter has come to a position. -/
def counterAt (n : Nat) : EmitState :=
  stateOf (Emit.instructions counterFrame 0 (counter.instructions.take n) counterStart)

/-- The head is reached from the block before it and from itself. -/
theorem counter_edge_iff {p : BlockId} : counterRun.Edge p ⟨2⟩ ↔ p = ⟨1⟩ ∨ p = ⟨2⟩ := by
  have hblocks : counterFinal.session.module.blocks.size = 4 := by decide +kernel
  have hsuccessors : ∀ i < (4 : Nat), ∀ block ∈ counterFinal.session.module.blocks[i]?,
      ((⟨2⟩ : BlockId) ∈ block.successors ↔ i = 1 ∨ i = 2) := by decide +kernel
  constructor
  · rintro ⟨-, block, hblock, hmem⟩
    have hlt := (Array.getElem?_eq_some_iff.mp hblock).1
    have hiff := hsuccessors p.index (hblocks ▸ hlt) block hblock
    exact (hiff.mp hmem).imp BlockId.eq_of_index BlockId.eq_of_index
  · intro hp
    have hp' : p.index = 1 ∨ p.index = 2 := hp.imp (congrArg BlockId.index) (congrArg BlockId.index)
    have hlt : p.index < counterFinal.session.module.blocks.size := by omega
    obtain ⟨block, hblock⟩ : ∃ block, counterFinal.session.module.blocks[p.index]? = some block :=
      ⟨_, Array.getElem?_eq_getElem hlt⟩
    refine ⟨.inr ?_, block, hblock, (hsuccessors p.index (by omega) block hblock).mpr hp'⟩
    rcases hp with rfl | rfl
    · exact ⟨_, List.mem_cons_self, rfl⟩
    · exact ⟨_, List.mem_cons_of_mem _ List.mem_cons_self, rfl⟩

/-- Both bring one value. -/
theorem counter_leaves : counterRun.Leaves ⟨1⟩ (counterAt 1).stack.elements ∧
    counterRun.Leaves ⟨2⟩ (counterAt 6).stack.elements := by
  constructor
  · exact ⟨1, counterAt 1, by decide, by decide, outcome?_eq_some_iff.mp (by decide +kernel),
      by decide +kernel, rfl⟩
  · exact ⟨6, counterAt 6, by decide, by decide, outcome?_eq_some_iff.mp (by decide +kernel),
      by decide +kernel, rfl⟩

theorem counter_loses_value :
    emitBody counterFrame.asm counterMethod "C::Count" ⟨0⟩ counter counterSession =
        .ok () counterFinal.session ∧
      (∀ instr ∈ counter.instructions, ∀ target ∈ instr.targets,
        target < counter.instructions.length) ∧
      counterRun.Leveled counterHead ∧ ∃ sent taken e, counterRun.Edge ⟨2⟩ counterHead.block ∧
        counterRun.Leaves ⟨2⟩ sent ∧ counterRun.Enters counterHead taken ∧ sent[0]? = some e ∧
        ¬ ∃ e', taken[0]? = some e' ∧ counterRun.Carries ⟨2⟩ counterHead.block e e' := by
  have hemit : emitBody counterFrame.asm counterMethod "C::Count" ⟨0⟩ counter counterSession =
      .ok () counterFinal.session := outcome?_eq_some_iff.mp (by decide +kernel)
  have htargets : ∀ instr ∈ counter.instructions, ∀ target ∈ instr.targets,
      target < counter.instructions.length := by decide
  obtain ⟨hfirst, hagain⟩ := counter_leaves
  have hheight {p : BlockId} {sent : List Element} (hp : counterRun.Edge p ⟨2⟩)
      (hsent : counterRun.Leaves p sent) : sent.length = 1 := by
    rcases counter_edge_iff.mp hp with rfl | rfl
    · rw [BodyRun.Leaves.unique htargets hsent hfirst]
      decide +kernel
    · rw [BodyRun.Leaves.unique htargets hsent hagain]
      decide +kernel
  have hlevel : counterRun.Leveled counterHead := fun p q sent sent' hp hq hsent hsent' =>
    (hheight hp hsent).trans (hheight hq hsent').symm
  have hloop : counterRun.Edge ⟨2⟩ counterHead.block := counter_edge_iff.mpr (.inr rfl)
  have hmem : counterHead ∈ counterRun.start.leaders := by decide +kernel
  obtain ⟨⟨taken, htaken⟩, -, hiff⟩ := (carries_iff_settled hemit htargets).2 counterRun _ hmem
  obtain ⟨e, he⟩ : ∃ e, (counterAt 6).stack.elements[0]? = some e :=
    ⟨_, List.getElem?_eq_getElem (by rw [hheight hloop hagain]; decide)⟩
  refine ⟨hemit, htargets, hlevel, _, taken, e, hloop, hagain, htaken, he, fun hcarries => ?_⟩
  rcases (hiff hlevel _ _ _ hloop hagain htaken 0 e he).mp hcarries with
    hall | ⟨q, q', hne, hq, hq'⟩
  · exact absurd (hall _ hloop) (by decide)
  · have honly {q : BlockId} (hq : counterRun.Edge q counterHead.block ∧
        q.index < counterHead.block.index) : q = ⟨1⟩ := by
      rcases counter_edge_iff.mp hq.1 with rfl | rfl
      · rfl
      · exact absurd hq.2 (by decide)
    exact hne ((honly hq).trans (honly hq').symm)

end Counter

end CilSsa.Lowering
