import CilSsa.Proofs.Leaders

/-!
Emission from block to block.

The blocks of a body are finished one after the other.  What is known of the edges at any time:
those of the finished blocks are the ones that their terminators name, and the block that is being
built has passed its stack on to some positions already.
-/

namespace CilSsa.Lowering

open CilSsa.Metadata CilSsa.Ssa

def IsBodyBlock (entry : BlockId) (leaders : List Leader) (b : BlockId) : Prop :=
  b = entry ∨ ∃ l ∈ leaders, l.block = b

/-- The edges of finished blocks together with those of the current block. -/
def allEdges (edges : List Edge) (passed : List Nat) (s : EmitState) : List Edge :=
  edges ++ passed.map fun position => ⟨position, s.current, s.stack.elements⟩

@[simp] theorem allEdges_nil (edges : List Edge) (s : EmitState) : allEdges edges [] s = edges := by
  simp [allEdges]

/-- The state of an emission that has reached position `n` of a body with the given leaders.
`left` says with which stack a block was left. -/
structure Passing (frame : Frame) (instrs : List Instruction) (entry : BlockId)
    (leaders : List Leader) (left : BlockId → List Element → Prop) (n : Nat) (edges : List Edge)
    (passed : List Nat) (s : EmitState) : Prop where
  placed : Placed instrs entry leaders
  places : s.leaders.map Leader.place = leaders.map Leader.place
  noPhis : s.session.module.PhisIn entry []
  sound : Emit.Sound .existence frame s
  position : s.session.module.position = some s.current
  here : At entry leaders n s.current
  blocks : ∀ b, IsBodyBlock entry leaders b →
    ∃ block, s.session.module.blocks[b.index]? = some block
  collects : ∀ l ∈ s.leaders,
    Collects frame.asm s.session.module l (edgesInto (allEdges edges passed s) l.index)
  targets : ∀ position ∈ passed, ∃ l ∈ leaders, l.index = position
  nodup : passed.Nodup
  earlier : ∀ x ∈ edges, IsBodyBlock entry leaders x.source ∧
    x.source.index < s.current.index ∧ left x.source x.elements
  distinct : edges.Pairwise fun x y => x.source = y.source → x.target ≠ y.target
  finished : ∀ b block, IsBodyBlock entry leaders b → b.index < s.current.index →
    s.session.module.blocks[b.index]? = some block → ∀ l ∈ leaders,
      (l.block ∈ block.successors ↔ ∃ x ∈ edges, x.source = b ∧ x.target = l.index)
  later : ∀ l ∈ leaders, s.current.index < l.block.index → ∀ block,
    s.session.module.blocks[l.block.index]? = some block → block.terminator = none ∧
      ((edgesInto (allEdges edges passed s) l.index).length ≤ 1 → block.insts = [])

/-- The current block has no end yet. -/
def Open (s : EmitState) : Prop := s.session.module.OpenAt s.current

/-- Whether the successors of a block are the leaders at the given positions. -/
def LeadsTo (leaders : List Leader) (passed : List Nat) (successors : List BlockId) : Prop :=
  ∀ b, b ∈ successors ↔ ∃ l ∈ leaders, l.block = b ∧ l.index ∈ passed

/-- The current block ends with branches to the leaders at the given positions. -/
def Closed (leaders : List Leader) (passed : List Nat) (s : EmitState) : Prop :=
  ∃ block t, s.session.module.blocks[s.current.index]? = some block ∧ block.terminator = some t ∧
    LeadsTo leaders passed t.successors

theorem LeadsTo.mem_iff {instrs : List Instruction} {entry : BlockId} {leaders : List Leader}
    {passed : List Nat} {successors : List BlockId} {l : Leader}
    (h : LeadsTo leaders passed successors) (hplaced : Placed instrs entry leaders)
    (hl : l ∈ leaders) : l.block ∈ successors ↔ l.index ∈ passed := by
  rw [h l.block]
  constructor
  · rintro ⟨l', hl', hblock, hpassed⟩
    rwa [← hplaced.unique_block hl' hl hblock]
  · intro hpassed
    exact ⟨l, hl, rfl, hpassed⟩

/-- How an emission goes on: edges are added from the current block on, and the stack of a leader
that two edges have reached stays as long as the heights agree. -/
structure Advances (edges : List Edge) (s : EmitState) (edges' : List Edge) (s' : EmitState) :
    Prop where
  added : ∃ more, edges' = edges ++ more ∧ ∀ x ∈ more, s.current.index ≤ x.source.index
  current : s.current.index ≤ s'.current.index
  evolves : s.session.module.Evolves Change.Any s'.session.module
  orderly : s.session.module.Orderly s'.session.module
  leaders : ∀ l ∈ s.leaders, ∃ l' ∈ s'.leaders, l'.place = l.place ∧
    (1 < l.refers → 1 < (edgesInto edges l.index).length → Level (edgesInto edges' l.index) →
      l'.incoming = l.incoming)

theorem edgesInto_append (edges more : List Edge) (position : Nat) :
    edgesInto (edges ++ more) position = edgesInto edges position ++ edgesInto more position := by
  simp [edgesInto]

theorem Advances.trans {edges edges' edges'' : List Edge} {s s' s'' : EmitState}
    (h : Advances edges s edges' s') (h' : Advances edges' s' edges'' s'') :
    Advances edges s edges'' s'' := by
  obtain ⟨more, rfl, hmore⟩ := h.added
  obtain ⟨more', rfl, hmore'⟩ := h'.added
  refine ⟨⟨more ++ more', by simp, fun x hx => ?_⟩, ?_, ?_, h.orderly.trans h'.orderly,
    fun l hl => ?_⟩
  · rcases List.mem_append.mp hx with hx | hx
    · exact hmore x hx
    · exact Nat.le_trans h.current (hmore' x hx)
  · exact Nat.le_trans h.current h'.current
  · exact Relation.ReflTransGen.trans h.evolves h'.evolves
  · obtain ⟨l', hl', hplace, hsame⟩ := h.leaders l hl
    obtain ⟨l'', hl'', hplace', hsame'⟩ := h'.leaders l' hl'
    have hindex : l'.index = l.index := congrArg (·.1) hplace
    have hrefers : l'.refers = l.refers := congrArg (·.2.2) hplace
    refine ⟨l'', hl'', hplace'.trans hplace, fun hseveral hlength hlevel => ?_⟩
    rw [hindex, hrefers] at hsame'
    rw [edgesInto_append] at hlevel
    refine (hsame' hseveral ?_ ?_).trans (hsame hseveral hlength hlevel.of_append)
    · rw [edgesInto_append, List.length_append]
      omega
    · rw [edgesInto_append]
      exact hlevel

/-- Code that passes nothing on. -/
theorem Advances.of_same {edges : List Edge} {s s' : EmitState} (hleaders : s'.leaders = s.leaders)
    (hcurrent : s.current.index ≤ s'.current.index)
    (hevolves : s.session.module.Evolves Change.Any s'.session.module)
    (horderly : s.session.module.Orderly s'.session.module) : Advances edges s edges s' :=
  ⟨⟨[], by simp, by simp⟩, hcurrent, hevolves, horderly,
    fun l hl => ⟨l, hleaders ▸ hl, rfl, fun _ _ _ => rfl⟩⟩

theorem Advances.refl (edges : List Edge) (s : EmitState) : Advances edges s edges s :=
  .of_same rfl (Nat.le_refl _) Relation.ReflTransGen.refl (.refl _)

section Steps

variable {frame : Frame} {instrs : List Instruction} {entry : BlockId} {leaders : List Leader}
  {left : BlockId → List Element → Prop} {n : Nat} {edges : List Edge} {passed : List Nat}
  {s s' : EmitState}

theorem At.isBodyBlock {b : BlockId} (h : At entry leaders n b) : IsBodyBlock entry leaders b := by
  cases h with
  | entry h => exact .inl rfl
  | leader l hl hlt hlast => exact .inr ⟨l, hl, rfl⟩

/-- A leader of the state is in the place of one of the body. -/
theorem mem_of_places (h : s.leaders.map Leader.place = leaders.map Leader.place) {l : Leader}
    (hl : l ∈ s.leaders) :
    ∃ l' ∈ leaders, l'.index = l.index ∧ l'.block = l.block ∧ l'.refers = l.refers := by
  have hmem : l.place ∈ leaders.map Leader.place := h ▸ List.mem_map_of_mem hl
  obtain ⟨l', hl', hplace⟩ := List.mem_map.mp hmem
  simp only [Leader.place, Prod.mk.injEq] at hplace
  exact ⟨l', hl', hplace.1, hplace.2.1, hplace.2.2⟩

/-- What a leader has collected stays while straight-line code is added. -/
theorem Collects.of_coded {asm : Assembly} {m m' : Module} {b : BlockId} {l : Leader}
    (h : Collects asm m l edges) (hcoded : Module.CodedIn b m m') : Collects asm m' l edges := by
  refine h.mono hcoded.evolves ?_ hcoded.phis
  intro id hid v hv
  obtain ⟨type, entries, hphi⟩ := h.phis id hid
  refine hcoded.inst hv ?_
  obtain rfl : v = ⟨type, .inst (some l.block) (.phi entries)⟩ := by simpa [hv] using hphi
  rfl

/-- A state at the same place of the same body, in which the other blocks end as they did. -/
structure Remains (entry : BlockId) (leaders : List Leader) (s s' : EmitState) : Prop where
  places : s'.leaders.map Leader.place = s.leaders.map Leader.place
  current : s'.current = s.current
  position : s'.session.module.position = s.session.module.position
  evolves : s.session.module.Evolves Change.Any s'.session.module
  noPhis : s.session.module.PhisIn entry [] → s'.session.module.PhisIn entry []
  ends : ∀ b block, IsBodyBlock entry leaders b → b ≠ s.current →
    s'.session.module.blocks[b.index]? = some block →
      ∃ block₀, s.session.module.blocks[b.index]? = some block₀ ∧
        block.terminator = block₀.terminator

/-- Where blocks end as they did, what is known of the finished ones stays. -/
theorem Remains.passing {passed' : List Nat} (hs : Remains entry leaders s s')
    (h : Passing frame instrs entry leaders left n edges passed s)
    (hsound : Emit.Sound .existence frame s')
    (hcollects : ∀ l ∈ s'.leaders, Collects frame.asm s'.session.module l
      (edgesInto (allEdges edges passed' s') l.index))
    (htargets : ∀ position ∈ passed', ∃ l ∈ leaders, l.index = position) (hnodup : passed'.Nodup)
    (hempty : ∀ l ∈ leaders, s.current.index < l.block.index → ∀ block,
      s'.session.module.blocks[l.block.index]? = some block →
        (edgesInto (allEdges edges passed' s') l.index).length ≤ 1 → block.insts = []) :
    Passing frame instrs entry leaders left n edges passed' s' := by
  constructor
  case placed => exact h.placed
  case places => exact hs.places.trans h.places
  case noPhis => exact hs.noPhis h.noPhis
  case sound => exact hsound
  case position =>
    rw [hs.position, hs.current]
    exact h.position
  case here =>
    rw [hs.current]
    exact h.here
  case blocks =>
    intro b hb
    obtain ⟨block, hblock⟩ := h.blocks b hb
    obtain ⟨block', hblock', -⟩ := hs.evolves.grows hblock
    exact ⟨block', hblock'⟩
  case collects => exact hcollects
  case targets => exact htargets
  case nodup => exact hnodup
  case earlier =>
    rw [hs.current]
    exact h.earlier
  case distinct => exact h.distinct
  case finished =>
    intro b block hb hlt hblock l hl
    rw [hs.current] at hlt
    have hne : b ≠ s.current := ne_of_apply_ne BlockId.index (Nat.ne_of_lt hlt)
    obtain ⟨block₀, hblock₀, hsame⟩ := hs.ends b block hb hne hblock
    have hsuccessors : block.successors = block₀.successors := by
      rw [Block.successors, Block.successors, hsame]
    rw [hsuccessors]
    exact h.finished b block₀ hb hlt hblock₀ l hl
  case later =>
    intro l hl hlt block hblock
    rw [hs.current] at hlt
    have hne : l.block ≠ s.current := ne_of_apply_ne BlockId.index (Nat.ne_of_gt hlt)
    obtain ⟨block₀, hblock₀, hsame⟩ := hs.ends l.block block (.inr ⟨l, hl, rfl⟩) hne hblock
    exact ⟨hsame.trans (h.later l hl hlt block₀ hblock₀).1, hempty l hl hlt block hblock⟩

/-- A block that stays is the one that was there. -/
theorem Passing.block_before {m : Module} {b : BlockId} {block : Block}
    (h : Passing frame instrs entry leaders left n edges passed s)
    (hb : IsBodyBlock entry leaders b)
    (hstays : ∀ block₀, s.session.module.blocks[b.index]? = some block₀ →
      m.blocks[b.index]? = some block₀)
    (hblock : m.blocks[b.index]? = some block) :
    s.session.module.blocks[b.index]? = some block := by
  obtain ⟨block₀, hblock₀⟩ := h.blocks b hb
  obtain rfl := Option.some.inj ((hstays block₀ hblock₀).symm.trans hblock)
  exact hblock₀

/-- Straight-line code before anything is passed on. -/
theorem Passing.straight (h : Passing frame instrs entry leaders left n edges [] s)
    (hopen : Open s) (hstep : Emit.Straight Session.Coded .existence frame [] s s') :
    Passing frame instrs entry leaders left n edges [] s' ∧ Open s' ∧
      Advances edges s edges s' := by
  obtain ⟨hsound, -, hcontinues⟩ := hstep h.sound (by simp)
  obtain ⟨hleaders, hcurrent, hsession⟩ := hcontinues
  have hcoded := hsession s.current h.position
  have hother {b : BlockId} {block : Block} (hb : IsBodyBlock entry leaders b)
      (hne : b ≠ s.current) (hblock : s'.session.module.blocks[b.index]? = some block) :
      s.session.module.blocks[b.index]? = some block :=
    h.block_before hb (fun _ hblock₀ => hcoded.other hne hblock₀) hblock
  have hremains : Remains entry leaders s s' := {
    places := by rw [hleaders]
    current := hcurrent
    position := hcoded.position.trans h.position.symm
    evolves := hcoded.evolves
    noPhis := hcoded.phis
    ends := fun b block hb hne hblock => ⟨block, hother hb hne hblock, rfl⟩ }
  refine ⟨hremains.passing h hsound (fun l hl => ?_) (by simp) h.nodup
    (fun l hl hlt block hblock => ?_), ?_, ?_⟩
  · rw [hleaders] at hl
    have hcollects := h.collects l hl
    rw [allEdges_nil] at hcollects ⊢
    exact hcollects.of_coded hcoded
  · have hne : l.block ≠ s.current := ne_of_apply_ne BlockId.index (Nat.ne_of_gt hlt)
    simpa using (h.later l hl hlt block (hother (.inr ⟨l, hl, rfl⟩) hne hblock)).2
  · rw [Open, hcurrent]
    exact hcoded.openAt hopen
  · exact .of_same hleaders (Nat.le_of_eq (by rw [hcurrent])) hcoded.evolves (hcoded.orderly hopen)

/-- Passing the stack on replaces the stack of one leader. -/
theorem reconcile_cases {site : Site} {position : Nat} {b : BlockId}
    (h : Emit.reconcile site position s = .ok b s') :
    ∃ l incoming m, Emit.leader? s position = some l ∧ b = l.block ∧
      l.incoming.merge site.asm s.stack s.current l.block l.refers s.session.module =
        .ok incoming m ∧
      s' = { s with
        session := { s.session with module := m }
        leaders := withIncoming position incoming s.leaders } := by
  rw [Emit.reconcile, getBind_eq_ok_iff] at h
  cases hleader : Emit.leader? s position with
  | none => simp [hleader] at h
  | some l =>
      simp only [hleader, bind_eq_ok_iff, Emit.lower_eq_ok_iff, Lower.liftM_build,
        Lower.build_eq_ok_iff, Emit.setIncoming, modify_eq_ok_iff, pure_eq_ok_iff] at h
      obtain ⟨incoming, _, ⟨_, ⟨m, hmerge, rfl⟩, rfl⟩, _, _, rfl, rfl, rfl⟩ := h
      exact ⟨l, incoming, m, rfl, rfl, hmerge, rfl⟩

theorem isOrderly_of_merges {target : BlockId} {touched : ValueId → Prop} (c : Change)
    (hc : Change.Merges target touched c) : c.isOrderly = true := by
  cases c <;> first | rfl | exact hc.elim

theorem terminator_of_merges {m m' : Module} {target b : BlockId} {touched : ValueId → Prop}
    {block : Block} (h : m.Evolves (Change.Merges target touched) m')
    (hblock : m.blocks[b.index]? = some block) :
    ∃ block', m'.blocks[b.index]? = some block' ∧ block'.terminator = block.terminator :=
  h.terminator isOrderly_of_merges hblock

theorem orderly_of_merges {m m' : Module} {target b : BlockId} {touched : ValueId → Prop}
    (h : m.Evolves (Change.Merges target touched) m') (hposition : m.position = some b)
    (hopen : m.OpenAt b) : m.Orderly m' :=
  h.orderly isOrderly_of_merges hposition hopen

theorem block_of_merges {m m' : Module} {target b : BlockId} {touched : ValueId → Prop}
    {block : Block} (h : m.Evolves (Change.Merges target touched) m')
    (hposition : m.position ≠ some b) (hne : b ≠ target)
    (hblock : m.blocks[b.index]? = some block) :
    m'.blocks[b.index]? = some block := by
  refine h.other (fun c hc => ?_) (fun c hc b' heq => ?_) hposition hblock
  · cases c with
    | addInst place type inst => exact .inl rfl
    | addPhi b' type =>
        obtain rfl : b' = target := hc
        exact .inr (Ne.symm hne)
    | _ => first | exact .inr trivial | exact hc.elim
  · subst heq
    exact hc

theorem allEdges_append {position : Nat} (hcurrent : s'.current = s.current)
    (hstack : s'.stack = s.stack) :
    allEdges edges (passed ++ [position]) s' =
      allEdges edges passed s ++ [⟨position, s.current, s.stack.elements⟩] := by
  simp [allEdges, hcurrent, hstack]

section Merges

variable {l : Leader} {m : Module} {touched : ValueId → Prop}

/-- A merge leaves everything in its place. -/
theorem Passing.remains_of_merges
    (h : Passing frame instrs entry leaders left n edges passed s) (hl : l ∈ s.leaders)
    (incoming : EvalStack)
    (hevolves : s.session.module.Evolves (Change.Merges l.block touched) m) :
    Remains entry leaders s { s with
      session := { s.session with module := m }
      leaders := withIncoming l.index incoming s.leaders } where
  places := places_withIncoming l.index incoming s.leaders
  current := rfl
  position := position_of_merges hevolves
  evolves := evolves_of_merges hevolves
  noPhis hphis := by
    obtain ⟨l₁, hl₁, -, hblock, -⟩ := mem_of_places h.places hl
    refine hevolves.phisIn (fun c hc type heq => ?_) hphis
    subst heq
    have hfirst := h.placed.first l₁ hl₁
    rw [hblock, ← show entry = l.block from hc] at hfirst
    exact Nat.lt_irrefl _ hfirst
  ends b block hb _ hblock := by
    obtain ⟨block₀, hblock₀⟩ := h.blocks b hb
    obtain ⟨block', hblock', hsame⟩ := terminator_of_merges hevolves hblock₀
    obtain rfl := Option.some.inj (hblock'.symm.trans hblock)
    exact ⟨block₀, hblock₀, hsame⟩

/-- A block behind the current one stays empty until a second edge arrives. -/
theorem Passing.insts_of_merges {l' : Leader} {block : Block}
    (h : Passing frame instrs entry leaders left n edges passed s) (hl : l ∈ s.leaders)
    (hevolves : s.session.module.Evolves (Change.Merges l.block touched) m)
    (hfirst : edgesInto (allEdges edges passed s) l.index = [] → m = s.session.module)
    (hl' : l' ∈ leaders) (hlt : s.current.index < l'.block.index)
    (hblock : m.blocks[l'.block.index]? = some block)
    (hlength : (edgesInto (allEdges edges passed s ++ [⟨l.index, s.current, s.stack.elements⟩])
      l'.index).length ≤ 1) : block.insts = [] := by
  obtain ⟨l₁, hl₁, hindex, hblock₁, -⟩ := mem_of_places h.places hl
  obtain ⟨block₀, hblock₀⟩ := h.blocks l'.block (.inr ⟨l', hl', rfl⟩)
  obtain ⟨-, hempty⟩ := h.later l' hl' hlt block₀ hblock₀
  by_cases heq : l'.index = l.index
  · rw [heq, edgesInto_append_self rfl] at hlength
    have hnil : edgesInto (allEdges edges passed s) l.index = [] := by simpa using hlength
    rw [hfirst hnil] at hblock
    obtain rfl := Option.some.inj (hblock₀.symm.trans hblock)
    exact hempty (by simp [heq, hnil])
  · rw [edgesInto_append_other (Ne.symm heq)] at hlength
    have hposition : s.session.module.position ≠ some l'.block := by
      rw [h.position]
      exact fun hsame => Nat.ne_of_lt hlt (congrArg BlockId.index (Option.some.inj hsame))
    have hne : l'.block ≠ l.block := fun hsame => heq <| by
      rw [h.placed.unique_block hl' hl₁ (hsame.trans hblock₁.symm), hindex]
    have hblock' := block_of_merges hevolves hposition hne hblock₀
    obtain rfl := Option.some.inj (hblock'.symm.trans hblock)
    exact hempty hlength

end Merges

theorem Passing.reconcile {site : Site} {position : Nat} {b : BlockId}
    (h : Passing frame instrs entry leaders left n edges passed s) (hopen : Open s)
    (hasm : site.asm = frame.asm) (hnew : position ∉ passed)
    (hrun : Emit.reconcile site position s = .ok b s') :
    Passing frame instrs entry leaders left n edges (passed ++ [position]) s' ∧ Open s' ∧
      (∃ l ∈ leaders, l.index = position ∧ l.block = b) ∧ s'.stack = s.stack ∧
      s'.current = s.current ∧
      Advances (allEdges edges passed s) s (allEdges edges (passed ++ [position]) s') s' := by
  obtain ⟨l, incoming, m, hleader, rfl, hmerge, hs'⟩ := reconcile_cases hrun
  have hplaced := h.placed.of_places h.places
  obtain ⟨hl, rfl⟩ := (leader?_eq_some_iff hplaced).mp hleader
  obtain ⟨l₁, hl₁, hindex₁, hblock₁, -⟩ := mem_of_places h.places hl
  obtain ⟨current, hcurrent, hnone⟩ := id hopen
  rw [hasm] at hmerge
  have hexist : ∀ e ∈ s.stack.elements, e.value.index < s.session.module.values.size :=
    fun e he => (h.sound.stack e he).exists_ trivial
  obtain ⟨hevolves, hcollects, hfirst⟩ := (h.collects l hl).merge hmerge hexist h.position hcurrent
  have hedges : allEdges edges (passed ++ [l.index]) s' =
      allEdges edges passed s ++ [⟨l.index, s.current, s.stack.elements⟩] := by
    rw [hs']
    exact allEdges_append rfl rfl
  subst hs'
  have hremains := h.remains_of_merges hl incoming hevolves
  refine ⟨hremains.passing h ?sound ?collects ?targets ?nodup ?empty, ?stillOpen,
    ⟨l₁, hl₁, hindex₁, hblock₁⟩, rfl, rfl, ⟨_, hedges, by simp⟩, Nat.le_refl _, hremains.evolves,
    orderly_of_merges hevolves h.position hopen, ?leaders⟩
  case sound => exact h.sound.of_stack hevolves.values_le fun e he => .inl he
  case collects =>
    intro l' hl'
    obtain ⟨l₀, hl₀, rfl⟩ := mem_withIncoming.mp hl'
    rw [hedges]
    split
    · rename_i heq
      obtain rfl := hplaced.unique hl₀ hl heq
      simp only [edgesInto_append_self]
      exact hcollects
    · rename_i hne
      rw [edgesInto_append_other (Ne.symm hne)]
      refine (h.collects l₀ hl₀).of_merges (fun heq => hne ?_) (h.collects l hl).phis hevolves
      rw [hplaced.unique_block hl₀ hl heq]
  case targets =>
    intro t ht
    rcases List.mem_append.mp ht with ht | ht
    · exact h.targets t ht
    · obtain rfl := List.mem_singleton.mp ht
      exact ⟨l₁, hl₁, hindex₁⟩
  case nodup =>
    rw [← List.concat_eq_append]
    exact h.nodup.concat hnew
  case empty =>
    intro l' hl' hlt block hblock
    rw [hedges]
    exact h.insts_of_merges hl hevolves hfirst hl' hlt hblock
  case stillOpen =>
    obtain ⟨block', hblock', hsame⟩ := terminator_of_merges hevolves hcurrent
    exact ⟨block', hblock', hsame.trans hnone⟩
  case leaders =>
    intro l₀ hl₀
    refine ⟨_, mem_withIncoming.mpr ⟨l₀, hl₀, rfl⟩, place_ite l₀ l.index incoming,
      fun hrefers hseveral hlevel => ?_⟩
    split
    · rename_i heq
      obtain rfl := hplaced.unique hl₀ hl heq
      rw [hedges, edgesInto_append_self rfl] at hlevel
      exact (h.collects l₀ hl₀).merge_same hmerge hrefers hlevel hseveral
    · rfl

/-- Ending the current block, with branches to the positions that were passed the stack. -/
theorem Passing.close {m : Module} {block : Block} {t : Terminator}
    (h : Passing frame instrs entry leaders left n edges passed s)
    (hs' : s' = { s with session := { s.session with module := m } })
    (hends : s.session.module.Evolves Change.Ends m)
    (hblock : m.blocks[s.current.index]? = some block) (hend : block.terminator = some t)
    (horderly : s.session.module.Orderly m) (hsuccessors : LeadsTo leaders passed t.successors) :
    Passing frame instrs entry leaders left n edges passed s' ∧ Closed leaders passed s' ∧
      Advances (allEdges edges passed s) s (allEdges edges passed s') s' := by
  have hevolves : s.session.module.Evolves Change.Any m := hends.mono fun _ _ => trivial
  have hvalue {i : Nat} {v : Value} (hv : s.session.module.values[i]? = some v) :
      m.values[i]? = some v := by
    refine hends.value (fun c hc => ?_) hv
    cases c <;> first | exact trivial | exact hc.elim
  have hphis {b : BlockId} {known : List ValueId} (h : s.session.module.PhisIn b known) :
      m.PhisIn b known := by
    refine hends.phisIn (fun c hc type heq => ?_) h
    subst heq
    exact hc
  have hstays : ∀ c, Change.Ends c → ∀ b, c ≠ .moveTo b := by
    rintro _ hc b rfl
    exact hc
  have hother {b : BlockId} {block : Block} (hb : IsBodyBlock entry leaders b)
      (hne : b ≠ s.current) (hblock : m.blocks[b.index]? = some block) :
      s.session.module.blocks[b.index]? = some block := by
    have hspares : ∀ c, Change.Ends c → c.isHere = true ∨ c.Spares b := by
      intro c hc
      cases c <;> first | exact .inl rfl | exact .inr trivial | exact hc.elim
    have hposition : s.session.module.position ≠ some b := by
      rw [h.position]
      exact fun heq => hne (Option.some.inj heq).symm
    exact h.block_before hb (fun _ => hends.other hspares hstays hposition) hblock
  subst hs'
  have hremains : Remains entry leaders s { s with session := { s.session with module := m } } := {
    places := rfl
    current := rfl
    position := hends.position hstays
    evolves := hevolves
    noPhis := hphis
    ends := fun b block hb hne hblock => ⟨block, hother hb hne hblock, rfl⟩ }
  refine ⟨hremains.passing h (h.sound.of_stack hevolves.values_le fun e he => .inl he)
    (fun l hl => ?_) h.targets h.nodup (fun l hl hlt block hblock => ?_),
    ⟨block, t, hblock, hend, hsuccessors⟩, .of_same rfl (Nat.le_refl _) hevolves horderly⟩
  · exact (h.collects l hl).mono hevolves (fun _ _ _ hv => hvalue hv) hphis
  · have hne : l.block ≠ s.current := ne_of_apply_ne BlockId.index (Nat.ne_of_gt hlt)
    exact (h.later l hl hlt block (hother (.inr ⟨l, hl, rfl⟩) hne hblock)).2

theorem mem_allEdges {x : Edge} : x ∈ allEdges edges passed s ↔
    x ∈ edges ∨ ∃ position ∈ passed, x = ⟨position, s.current, s.stack.elements⟩ := by
  simp only [allEdges, List.mem_append, List.mem_map, eq_comm]

/-- No block has two edges to one position. -/
theorem Passing.distinct_allEdges
    (h : Passing frame instrs entry leaders left n edges passed s) :
    (allEdges edges passed s).Pairwise fun x y => x.source = y.source → x.target ≠ y.target := by
  refine List.pairwise_append.mpr ⟨h.distinct, ?_, ?_⟩
  · refine List.pairwise_map.mpr (List.Pairwise.imp ?_ h.nodup)
    intro a b hne _
    exact hne
  · intro x hx y hy heq
    obtain ⟨position, -, rfl⟩ := List.mem_map.mp hy
    have hsource := (h.earlier x hx).2.1
    rw [heq] at hsource
    exact absurd hsource (Nat.lt_irrefl _)

/-- Once the current block has its end, the edges of the blocks up to it are those that their
terminators name. -/
theorem Passing.successors_of_closed {b : BlockId} {block : Block} {l : Leader}
    (h : Passing frame instrs entry leaders left n edges passed s)
    (hclosed : Closed leaders passed s) (hb : IsBodyBlock entry leaders b)
    (hle : b.index ≤ s.current.index) (hblock : s.session.module.blocks[b.index]? = some block)
    (hl : l ∈ leaders) :
    l.block ∈ block.successors ↔
      ∃ x ∈ allEdges edges passed s, x.source = b ∧ x.target = l.index := by
  rcases Nat.lt_or_eq_of_le hle with hlt | heq
  · rw [h.finished b block hb hlt hblock l hl]
    constructor
    · rintro ⟨x, hx, hsource⟩
      exact ⟨x, mem_allEdges.mpr (.inl hx), hsource⟩
    · rintro ⟨x, hx, hsource, htarget⟩
      rcases mem_allEdges.mp hx with hx | ⟨position, -, rfl⟩
      · exact ⟨x, hx, hsource, htarget⟩
      · rw [← hsource] at hlt
        exact absurd hlt (Nat.lt_irrefl _)
  · obtain rfl := BlockId.eq_of_index heq
    obtain ⟨block', t, hblock', hend, hsuccessors⟩ := hclosed
    obtain rfl : block' = block := by simpa [hblock'] using hblock
    rw [Block.successors, hend, hsuccessors.mem_iff h.placed hl]
    constructor
    · intro hpassed
      exact ⟨_, mem_allEdges.mpr (.inr ⟨l.index, hpassed, rfl⟩), rfl, rfl⟩
    · rintro ⟨x, hx, hsource, htarget⟩
      rcases mem_allEdges.mp hx with hx | ⟨position, hpassed, rfl⟩
      · have hlt := (h.earlier x hx).2.1
        rw [hsource] at hlt
        exact absurd hlt (Nat.lt_irrefl _)
      · exact htarget ▸ hpassed

/-- The body blocks before a leader at the position that has been reached are those up to the
current one. -/
theorem At.le_of_lt {b c : BlockId} {l : Leader} (h : At entry leaders n c)
    (hplaced : Placed instrs entry leaders) (hl : l ∈ leaders) (hindex : l.index = n)
    (hb : IsBodyBlock entry leaders b) (hlt : b.index < l.block.index) : b.index ≤ c.index := by
  rcases hb with rfl | ⟨l', hl', rfl⟩
  · exact h.ge_entry hplaced
  · rw [h.le_iff hplaced hl']
    rcases hplaced.cases hl' hl with rfl | ⟨hbefore, -⟩ | ⟨-, hafter⟩
    · exact absurd hlt (Nat.lt_irrefl _)
    · exact hindex ▸ hbefore
    · exact absurd hlt (Nat.lt_asymm hafter)

theorem Passing.enter {l : Leader}
    (h : Passing frame instrs entry leaders left n edges passed s)
    (hclosed : Closed leaders passed s) (hleft : left s.current s.stack.elements)
    (hl : l ∈ s.leaders) (hindex : l.index = n)
    (hs' : s' = { s with
      session := { s.session with module := s.session.module.apply (.moveTo l.block) }
      current := l.block
      stack := l.incoming.snapshot }) :
    Passing frame instrs entry leaders left (n + 1) (allEdges edges passed s) [] s' ∧ Open s' ∧
      Advances (allEdges edges passed s) s (allEdges edges passed s) s' := by
  obtain ⟨l₁, hl₁, hindex₁, hblock₁, -⟩ := mem_of_places h.places hl
  have hlt : s.current.index < l.block.index := by
    rw [← hblock₁]
    exact h.here.lt h.placed hl₁ (by omega)
  have hevolves : s.session.module.Evolves Change.Any (s.session.module.apply (.moveTo l.block)) :=
    Module.Evolves.one trivial trivial
  have hphis {b : BlockId} {known : List ValueId} (hb : s.session.module.PhisIn b known) :
      (s.session.module.apply (.moveTo l.block)).PhisIn b known :=
    Module.phisIn_apply (by simp) trivial hb
  subst hs'
  refine ⟨{
    placed := h.placed
    places := h.places
    noPhis := hphis h.noPhis
    sound := ⟨h.sound.bound, fun e he => ?stack,
      fun v hv => (h.sound.places v hv).mono (Nat.le_refl _)⟩
    position := rfl
    here := ?here
    blocks := h.blocks
    collects := fun l' hl' => ?collects
    targets := by simp
    nodup := by simp
    earlier := fun x hx => ?earlier
    distinct := h.distinct_allEdges
    finished := fun b block hb hblt hblock l' hl' => ?finished
    later := fun l' hl' hlt' block hblock => ?later }, ?isOpen, ?advances⟩
  case stack =>
    rw [EvalStack.elements_snapshot] at he
    exact ⟨fun _ => (h.collects l hl).exist e he, id⟩
  case here =>
    rw [← hindex, ← hindex₁, ← hblock₁]
    exact .of_leader hl₁
  case collects =>
    rw [allEdges_nil]
    exact (h.collects l' hl').mono hevolves (fun _ _ _ hv => hv) hphis
  case earlier =>
    rcases mem_allEdges.mp hx with hx | ⟨position, -, rfl⟩
    · obtain ⟨hbody, hsource, hxleft⟩ := h.earlier x hx
      exact ⟨hbody, Nat.lt_trans hsource hlt, hxleft⟩
    · exact ⟨h.here.isBodyBlock, hlt, hleft⟩
  case finished =>
    have hle : b.index ≤ s.current.index :=
      h.here.le_of_lt h.placed hl₁ (hindex₁.trans hindex) hb (hblock₁ ▸ hblt)
    exact h.successors_of_closed hclosed hb hle hblock hl'
  case later =>
    rw [allEdges_nil]
    exact h.later l' hl' (Nat.lt_trans hlt hlt') block hblock
  case isOpen =>
    obtain ⟨block, hblock⟩ := h.blocks l.block (.inr ⟨l₁, hl₁, hblock₁⟩)
    exact ⟨block, hblock, (h.later l₁ hl₁ (hblock₁ ▸ hlt) block (hblock₁ ▸ hblock)).1⟩
  case advances =>
    exact .of_same rfl (Nat.le_of_lt hlt) hevolves ⟨fun hf => ⟨_, hf, rfl⟩, rfl⟩

end Steps

end CilSsa.Lowering
