import CilSsa.Proofs.Joins
import CilSsa.Proofs.Merging

/-!
The stacks of several predecessors, merged one after the other.

Stacks of one height, in which the values of each slot can be brought to one type, become a phi for
each slot with an entry for each predecessor.  Besides the phis only conversions are added, each at
the end of the block that passes the value on.
-/

namespace CilSsa

open Ssa Metadata Lowering

namespace Lowering

variable {asm : Assembly} {m m' : Module} {source target : BlockId} {slot : Slot}
  {slots : List Slot} {e : Element} {elements : List Element} {passed : BlockId → ValueId → Prop}
  {start : Nat}

section Slots

open EvalStack Module

/-- A slot that waits for the next predecessor. -/
structure Slot.Ready (m : Module) (target : BlockId) (slot : Slot) : Prop where
  typed : m.typeOf slot.element.value = .ok slot.element.type
  visited : slot.state ≠ .unvisited
  phi : slot.state = .phi → m.PhiOf target slot.element.value

theorem Slot.Ready.evolves {P : Change → Prop} (h : slot.Ready m target)
    (hevolves : m.Evolves P m') :
    slot.Ready m' target :=
  ⟨hevolves.typeOf h.typed, h.visited, fun hstate => hevolves.phiOf (h.phi hstate)⟩

/-- Code is added at the end of a block that is open. -/
structure AtEndOf (m : Module) (source : BlockId) : Prop where
  interned : m.Interned
  position : m.position = some source
  opened : m.OpenAt source

theorem AtEndOf.joining {made : List ValueId} (h : AtEndOf m source)
    (hjoining : Joining start target passed made m m') (hposition : m'.position = m.position) :
    AtEndOf m' source :=
  ⟨interned_of_joins hjoining.evolves h.interned, hposition.trans h.position,
    openAt_of_joins hjoining.evolves h.opened⟩

/-- What a predecessor brings for a slot. -/
structure Brought (asm : Assembly) (m : Module) (source : BlockId)
    (passed : BlockId → ValueId → Prop) (slot : Slot) (e : Element) : Prop where
  typed : m.typeOf e.value = .ok e.type
  signed : ∃ signed, isSigned asm e.sig = .ok signed
  blends : m.Blends e.type slot.element.type
  passed : passed source e.value

theorem Brought.evolves {P : Change → Prop} (h : Brought asm m source passed slot e)
    (hevolves : m.Evolves P m') : Brought asm m' source passed slot e :=
  ⟨hevolves.typeOf h.typed, h.signed, h.blends.evolves hevolves, h.passed⟩

/-- What a predecessor brings becomes an entry of a phi, after a conversion if
its type is another. -/
theorem arrival_joins (start : Nat) (phi : ValueId) (signed : Bool) {type : TypeId}
    {entries : List (ValueId × BlockId)}
    (hphi : m.values[phi.index]? = some ⟨type, .inst (some target) (.phi entries)⟩)
    (htyped : m.typeOf e.value = .ok e.type) (hblends : m.Blends e.type type)
    (hpassed : passed source e.value) (hend : AtEndOf m source) :
    ∃ value m₁ m₂, coerce e.value type signed m = .ok value m₁ ∧
      Build.addIncoming phi value source m₁ = .ok () m₂ ∧ Joining start target passed [] m m₂ ∧
      m₂.position = m.position := by
  rcases coerce_blends signed htyped hblends hend.interned hend.position
    hend.opened with ⟨hsame, hcoerce⟩ | ⟨op, hcoerce⟩
  · have hvalue : m.typeOf e.value = .ok type := hsame ▸ htyped
    exact ⟨_, _, _, hcoerce, Build.addIncoming_eq hphi hvalue, joining_addEntry hphi hvalue, rfl⟩
  · have hcast : Joining start target passed [] m
        (m.apply (.addInst (some source) type (.cast op e.value))) :=
      joining_cast hend.position hend.opened hpassed
    have hvalue : (m.apply (.addInst (some source) type (.cast op e.value))).typeOf
        ⟨m.values.size⟩ =
        .ok type := typeOf_eq_ok_iff.mpr ⟨_, by simp [Module.apply, Module.pushValue]; rfl⟩
    have hphi' : (m.apply (.addInst (some source) type (.cast op e.value))).values[phi.index]? =
        some ⟨type, .inst (some target) (.phi entries)⟩ := value_apply trivial hphi
    exact ⟨_, _, _, hcoerce, Build.addIncoming_eq hphi' hvalue,
      hcast.trans (joining_addEntry hphi' hvalue), rfl⟩

/-- A slot after one more predecessor. -/
structure Slot.Joined (m' : Module) (target : BlockId) (slot slot' : Slot) (made : List ValueId) :
    Prop where
  ready : slot'.Ready m' target
  state : slot'.state = .phi
  sig : slot'.element.sig = slot.element.sig
  type : slot'.element.type = slot.element.type
  kept : slot.state = .phi → slot' = slot ∧ made = []
  fresh : slot.state ≠ .phi → made = [slot'.element.value]

theorem mergeSlot_joins (start : Nat) {block : Block} (hslot : slot.Ready m target)
    (hbrought : Brought asm m source passed slot e) (hend : AtEndOf m source)
    (hblock : m.blocks[target.index]? = some block) :
    ∃ slot' m' made, mergeSlot asm source target slot e m = .ok slot' m' ∧
      Joining start target passed made m m' ∧ m'.position = m.position ∧
      slot.Joined m' target slot' made := by
  obtain ⟨signed, hsigned⟩ := hbrought.signed
  obtain ⟨held, state⟩ := slot
  cases state with
  | unvisited => exact absurd rfl hslot.visited
  | deferred first =>
      have hfirst : Joining start target passed _ m (m.apply (.addPhi target held.type)) :=
        joining_addPhi hblock
      have hnew : (m.apply (.addPhi target held.type)).values[m.values.size]? =
          some ⟨held.type, .inst (some target) (.phi [])⟩ := by
        simp [Module.apply, Module.pushValue]
      have hheld := hfirst.evolves.typeOf hslot.typed
      have hsecond : Joining start target passed [] (m.apply (.addPhi target held.type))
          ((m.apply (.addPhi target held.type)).apply
            (.addEntry ⟨m.values.size⟩ held.value first)) :=
        joining_addEntry hnew hheld
      have hentered : ((m.apply (.addPhi target held.type)).apply
          (.addEntry ⟨m.values.size⟩ held.value first)).values[m.values.size]? =
            some ⟨held.type, .inst (some target) (.phi ([] ++ [(held.value, first)]))⟩ :=
        value_addEntry hnew
      have hopened := hfirst.trans hsecond
      have hbrought' := hbrought.evolves hopened.evolves
      obtain ⟨value, m₁, m₂, hcoerce, hadd, hlast, hposition⟩ := arrival_joins start
        ⟨m.values.size⟩ signed hentered hbrought'.typed hbrought'.blends hbrought.passed
        (hend.joining hopened rfl)
      have hphi : m₂.PhiOf target ⟨m.values.size⟩ := hlast.evolves.phiOf ⟨_, _, hentered⟩
      have htype : m₂.typeOf ⟨m.values.size⟩ = .ok held.type :=
        hlast.evolves.typeOf (typeOf_eq_ok_iff.mpr ⟨_, hentered⟩)
      refine ⟨⟨{ held with value := ⟨m.values.size⟩ }, .phi⟩, m₂, [⟨m.values.size⟩],
        ?_, ?_, hposition, ⟨⟨htype, by simp, fun _ => hphi⟩, rfl, rfl, rfl, by simp, fun _ => rfl⟩⟩
      · simp only [mergeSlot, bind_eq_ok_iff, Build.ask_eq_ok_iff, pure_eq_ok_iff]
        exact ⟨_, _, Build.phi_eq hblock, _, _, Build.addIncoming_eq hnew hheld, signed, _,
          ⟨hsigned, rfl⟩, value, m₁, hcoerce, _, _, hadd, rfl, rfl⟩
      · simpa using hopened.trans hlast
  | phi =>
      obtain ⟨type, entries, hphi⟩ := hslot.phi rfl
      obtain rfl : type = held.type :=
        Except.ok.inj ((typeOf_eq_ok_iff.mpr ⟨_, hphi⟩).symm.trans hslot.typed)
      obtain ⟨value, m₁, m₂, hcoerce, hadd, hjoining, hposition⟩ := arrival_joins start held.value
        signed hphi hbrought.typed hbrought.blends hbrought.passed hend
      refine ⟨⟨held, .phi⟩, m₂, [], ?_, hjoining, hposition,
        ⟨hslot.evolves hjoining.evolves, rfl, rfl, rfl, fun _ => ⟨rfl, rfl⟩, by simp⟩⟩
      simp only [mergeSlot, bind_eq_ok_iff, Build.ask_eq_ok_iff, pure_eq_ok_iff]
      exact ⟨signed, _, ⟨hsigned, rfl⟩, value, m₁, hcoerce, _, _, hadd, trivial, rfl⟩

/-- The slots of a stack after one more predecessor. -/
structure SlotsJoined (m' : Module) (target : BlockId) (slots merged : List Slot)
    (made : List ValueId) : Prop where
  ready : ∀ slot ∈ merged, slot.Ready m' target ∧ slot.state = .phi
  same : List.Forall₂ (fun slot slot' => slot'.element.sig = slot.element.sig ∧
    slot'.element.type = slot.element.type) slots merged
  kept : (∀ slot ∈ slots, slot.state = .phi) → merged = slots ∧ made = []
  fresh : (∀ slot ∈ slots, slot.state ≠ .phi) → made = merged.map (·.element.value)

theorem SlotsJoined.same_trans {merged : List Slot} {made : List ValueId} {firsts : List Element}
    (h : SlotsJoined m' target slots merged made)
    (hfirsts : List.Forall₂ (fun e slot => slot.element.sig = e.sig ∧ slot.element.type = e.type)
      firsts slots) :
    List.Forall₂ (fun e slot => slot.element.sig = e.sig ∧ slot.element.type = e.type)
      firsts merged := by
  have hsame := h.same
  clear h
  induction hfirsts generalizing merged with
  | nil =>
      cases hsame
      exact .nil
  | cons hfirst _ ih =>
      cases hsame with
      | cons hslot hslots =>
          exact .cons ⟨hslot.1.trans hfirst.1, hslot.2.trans hfirst.2⟩ (ih hslots)

theorem mergeSlots_joins (start : Nat) {block : Block}
    (hslots : ∀ slot ∈ slots, slot.Ready m target)
    (hbrought : List.Forall₂ (Brought asm m source passed) slots elements) (hend : AtEndOf m source)
    (hblock : m.blocks[target.index]? = some block) :
    ∃ merged m' made, mergeSlots asm source target slots elements m = .ok merged m' ∧
      Joining start target passed made m m' ∧ m'.position = m.position ∧
      SlotsJoined m' target slots merged made := by
  induction slots generalizing elements m block with
  | nil =>
      cases hbrought
      exact ⟨[], m, [], by simp [mergeSlots], .refl m, rfl, by simp, .nil, by simp, by simp⟩
  | cons slot slots ih =>
      obtain ⟨e, rest, hfirst, hrest, rfl⟩ := List.forall₂_cons_left_iff.mp hbrought
      obtain ⟨hslot, hslots⟩ := List.forall_mem_cons.mp hslots
      obtain ⟨slot', m₁, made, hmerge, hjoining, hposition, hjoined⟩ :=
        mergeSlot_joins start hslot hfirst hend hblock
      obtain ⟨block₁, hblock₁, -⟩ := hjoining.evolves.grows hblock
      obtain ⟨merged, m₂, made', hmerges, hjoining', hposition', hothers⟩ :=
        ih (fun slot h => (hslots slot h).evolves hjoining.evolves)
          (hrest.imp fun _ _ h => h.evolves hjoining.evolves) (hend.joining hjoining hposition)
          hblock₁
      refine ⟨slot' :: merged, m₂, made ++ made', ?_, hjoining.trans hjoining',
        hposition'.trans hposition, ?_, .cons ⟨hjoined.sig, hjoined.type⟩ hothers.same, ?_, ?_⟩
      · simp only [mergeSlots, bind_eq_ok_iff, pure_eq_ok_iff]
        exact ⟨slot', m₁, hmerge, merged, m₂, hmerges, rfl, rfl⟩
      · refine List.forall_mem_cons.mpr ⟨⟨hjoined.ready.evolves hjoining'.evolves,
          hjoined.state⟩, ?_⟩
        exact hothers.ready
      · intro hall
        obtain ⟨hstate, hstates⟩ := List.forall_mem_cons.mp hall
        obtain ⟨rfl, rfl⟩ := hjoined.kept hstate
        obtain ⟨rfl, rfl⟩ := hothers.kept hstates
        exact ⟨rfl, rfl⟩
      · intro hall
        obtain ⟨hstate, hstates⟩ := List.forall_mem_cons.mp hall
        rw [hjoined.fresh hstate, hothers.fresh hstates]
        rfl

end Slots

/-- Merges the stacks of predecessors into the stack of a block one after the other, each at the
end of its own block. -/
def EvalStack.mergeAll (asm : Assembly) (target : BlockId) (refers : Nat) :
    EvalStack → List (BlockId × EvalStack) → Build EvalStack
  | s, [] => return s
  | s, (source, incoming) :: rest => do
      Build.positionAtEnd source
      let merged ← s.merge asm incoming source target refers
      mergeAll asm target refers merged rest

/-- What predecessors pass on for a slot. -/
def passedAt (k : Nat) (arrivals : List (BlockId × EvalStack)) : List (BlockId × Element) :=
  arrivals.filterMap fun a => a.2.elements[k]?.map (a.1, ·)

/-- Open blocks with stacks of one height whose elements have their types, and can share the slots
of the block that they lead to. -/
structure Mergeable (asm : Assembly) (m : Module) (target : BlockId)
    (arrivals : List (BlockId × EvalStack)) : Prop where
  interned : m.Interned
  /-- The phis of the block are at its head. -/
  phis : m.PhisIn target (m.heads target)
  opened : ∀ a ∈ arrivals, m.OpenAt a.1
  height : ∀ a ∈ arrivals, ∀ a' ∈ arrivals, a.2.size = a'.2.size
  typed : ∀ a ∈ arrivals, ∀ e ∈ a.2.elements, m.typeOf e.value = .ok e.type
  signed : ∀ a ∈ arrivals, ∀ e ∈ a.2.elements, ∃ signed, isSigned asm e.sig = .ok signed
  joinable : ∀ k, m.Joinable ((passedAt k arrivals).map (·.2.type))

/-- Whether an entry of a phi is for what a predecessor passes on: the value, brought to the type at
the end of the predecessor. -/
def Enters (asm : Assembly) (m : Module) (type : TypeId) (arrival : BlockId × Element)
    (entry : ValueId × BlockId) : Prop :=
  entry.2 = arrival.1 ∧ m.typeOf entry.1 = .ok type ∧ ∃ signed,
    isSigned asm arrival.2.sig = .ok signed ∧
      Coerced m arrival.1 arrival.2.value type signed entry.1

/-- What the merges of several predecessors, the first and the rest, lead to. -/
structure Merged (asm : Assembly) (m m' : Module) (target : BlockId) (first : BlockId × EvalStack)
    (rest : List (BlockId × EvalStack)) (merged : EvalStack) : Prop where
  size : merged.size = first.2.size
  slots : ∀ k e, first.2.elements[k]? = some e → ∃ phi entries,
    merged.slots[k]? = some ⟨{ e with value := phi }, .phi⟩ ∧
      m'.values[phi.index]? =
        some ⟨e.type, .inst (some target) (.phi ((e.value, first.1) :: entries))⟩ ∧
      List.Forall₂ (Enters asm m' e.type) (passedAt k rest) entries
  heads : m'.heads target = m.heads target ++ merged.elements.map Element.value
  phis : m'.PhisIn target (m'.heads target)
  /-- What is new in a block is a phi or converts what the block passes on. -/
  insts : ∀ b block, m'.blocks[b.index]? = some block → ∀ v ∈ block.insts,
    (∃ before, m.blocks[b.index]? = some before ∧ v ∈ before.insts) ∨
      (b = target ∧ v ∈ merged.elements.map Element.value) ∨
      ∃ stack e op type, (b, stack) ∈ rest ∧ e ∈ stack.elements ∧
        m'.values[v.index]? = some ⟨type, .inst (some b) (.cast op e.value)⟩
  clean : m'.misuses = m.misuses

section Sequences

open EvalStack Module

variable {refers k : Nat} {first : BlockId × EvalStack} {rest seen : List (BlockId × EvalStack)}
  {stack s : EvalStack} {arrivals : List (BlockId × EvalStack)}

theorem passedAt_append (h : stack.elements[k]? = some e) :
    passedAt k (seen ++ [(source, stack)]) = passedAt k seen ++ [(source, e)] := by
  simp [passedAt, h]

theorem mem_passedAt {a : BlockId × Element} :
    a ∈ passedAt k arrivals ↔ ∃ stack, (a.1, stack) ∈ arrivals ∧ stack.elements[k]? = some a.2 := by
  simp only [passedAt, List.mem_filterMap, Option.map_eq_some_iff]
  constructor
  · rintro ⟨⟨source, stack⟩, hmem, e, he, rfl⟩
    exact ⟨stack, hmem, he⟩
  · rintro ⟨stack, hmem, he⟩
    exact ⟨(a.1, stack), hmem, a.2, he, rfl⟩

theorem phisOf_of_phi (h : ∀ slot ∈ slots, slot.state = .phi) :
    phisOf slots = slots.map (·.element.value) := by
  induction slots with
  | nil => rfl
  | cons slot slots ih =>
      obtain ⟨hslot, hslots⟩ := List.forall_mem_cons.mp h
      rw [phisOf, List.filterMap_cons, if_pos hslot, List.map_cons]
      exact congrArg _ (ih hslots)

theorem phisOf_of_ne (h : ∀ slot ∈ slots, slot.state ≠ .phi) : phisOf slots = [] := by
  refine List.filterMap_eq_nil_iff.mpr fun slot hslot => ?_
  rw [if_neg (h slot hslot)]

theorem merge_of_level (hrefers : 2 ≤ refers) (hlevel : s.surplus stack = 0) {slots : List Slot}
    (h : mergeSlots asm source target s.slots stack.elements m = .ok slots m') :
    s.merge asm stack source target refers m = .ok ⟨slots⟩ m' := by
  have hseveral : ¬ refers ≤ 1 := by omega
  simp only [merge, if_neg hseveral, hlevel, bind_eq_ok_iff, pure_eq_ok_iff]
  exact ⟨slots, m', h, by simp, rfl⟩

/-- What a block holds when some of its predecessors have arrived, the first one among them. -/
structure Gathers (asm : Assembly) (m m' : Module) (target : BlockId)
    (passed : BlockId → ValueId → Prop) (first : EvalStack) (seen : List (BlockId × EvalStack))
    (s : EvalStack) : Prop where
  joining : Joining m.values.size target passed (phisOf s.slots) m m'
  ready : ∀ slot ∈ s.slots, slot.Ready m' target
  same : List.Forall₂ (fun e slot => slot.element.sig = e.sig ∧ slot.element.type = e.type)
    first.elements s.slots
  holds : ∀ k slot, s.slots[k]? = some slot → Holds asm m' target (passedAt k seen) slot
  nodup : (phisOf s.slots).Nodup
  fresh : ∀ v ∈ phisOf s.slots, m.values.size ≤ v.index
  stage : (∀ slot ∈ s.slots, slot.state ≠ .phi) ∨ ∀ slot ∈ s.slots, slot.state = .phi

theorem joining_moveTo (m : Module) (b : BlockId) :
    Joining start target passed [] m (m.apply (.moveTo b)) where
  evolves := Evolves.one trivial trivial
  tidy h := ⟨⟨h.phis, h.typed⟩, (List.append_nil _).symm⟩

/-- The first predecessor leaves its values. -/
theorem merge_first (hrefers : 2 ≤ refers) :
    mergeAll asm target refers {} [first] m =
      .ok ⟨first.2.elements.map (⟨·, .deferred first.1⟩)⟩ { m with position := some first.1 } := by
  have hslots : mergeSlots asm first.1 target [] first.2.elements (m.apply (.moveTo first.1)) =
      .ok (first.2.elements.map (⟨·, .deferred first.1⟩)) (m.apply (.moveTo first.1)) := by
    cases first.2.elements <;> rfl
  have hmerge := merge_of_level (s := {}) hrefers (by simp [surplus]) hslots
  simp only [mergeAll, bind_eq_ok_iff, pure_eq_ok_iff]
  exact ⟨(), _, rfl, _, _, hmerge, rfl, rfl⟩

theorem gathers_first (htyped : ∀ e ∈ first.2.elements, m.typeOf e.value = .ok e.type) :
    Gathers asm m { m with position := some first.1 } target passed first.2 [first]
      ⟨first.2.elements.map (⟨·, .deferred first.1⟩)⟩ where
  joining := by
    rw [phisOf_deferred]
    exact joining_moveTo m first.1
  ready slot hslot := by
    obtain ⟨e, he, rfl⟩ := List.mem_map.mp hslot
    exact ⟨htyped e he, by simp, by simp⟩
  same := by
    rw [List.forall₂_map_right_iff]
    exact List.forall₂_same.mpr fun _ _ => ⟨rfl, rfl⟩
  holds k slot hslot := by
    obtain ⟨e, he, rfl⟩ : ∃ e, first.2.elements[k]? = some e ∧ ⟨e, .deferred first.1⟩ = slot := by
      simpa using hslot
    have hpassed : passedAt k [first] = [(first.1, e)] := by simp [passedAt, he]
    rw [hpassed]
    exact .first first.1 e
  nodup := by
    rw [phisOf_deferred]
    exact List.nodup_nil
  fresh := by
    rw [phisOf_deferred]
    simp
  stage := .inl (by simp)

/-- What the next predecessor has to bring, compared with the first one. -/
structure Corresponds (asm : Assembly) (m : Module) (passed : BlockId → ValueId → Prop)
    (first : EvalStack) (next : BlockId × EvalStack) : Prop where
  opened : m.OpenAt next.1
  size : next.2.size = first.size
  brought : ∀ (k : Nat) (e e₀ : Element), next.2.elements[k]? = some e →
      first.elements[k]? = some e₀ →
    m.typeOf e.value = .ok e.type ∧ (∃ signed, isSigned asm e.sig = .ok signed) ∧
      m.Blends e.type e₀.type ∧ passed next.1 e.value

theorem phiOf_of_ready {v : ValueId} (h : ∀ slot ∈ slots, slot.Ready m target)
    (hv : v ∈ phisOf slots) : m.PhiOf target v := by
  obtain ⟨slot, hslot, hvalue⟩ := List.mem_filterMap.mp hv
  split at hvalue
  · obtain rfl := Option.some.inj hvalue
    exact (h slot hslot).phi ‹_›
  · cases hvalue

/-- The next predecessor brings something for each slot. -/
theorem Gathers.brought {P : Change → Prop} {m'' : Module} {first : EvalStack}
    {next : BlockId × EvalStack} (h : Gathers asm m m' target passed first seen s)
    (hnext : Corresponds asm m passed first next) (hevolves : m.Evolves P m'') :
    List.Forall₂ (Brought asm m'' next.1 passed) s.slots next.2.elements := by
  have hlength : first.elements.length = s.slots.length := h.same.length_eq
  refine List.forall₂_iff_get.mpr ⟨?_, fun k hk hk' => ?_⟩
  · rw [← hlength, length_elements, length_elements]
    exact hnext.size.symm
  · have hk₀ : k < first.elements.length := hlength ▸ hk
    obtain ⟨-, hsame⟩ := (List.forall₂_iff_get.mp h.same).2 k hk₀ hk
    obtain ⟨htyped, hsigned, hblends, hpassed⟩ := hnext.brought k _ _
      (List.getElem?_eq_getElem hk') (List.getElem?_eq_getElem hk₀)
    exact ⟨hevolves.typeOf htyped, hsigned, hsame.symm ▸ hblends.evolves hevolves, hpassed⟩

/-- One more predecessor arrives. -/
theorem gathers_next (hrefers : 2 ≤ refers) {next : BlockId × EvalStack} {first : EvalStack}
    {block : Block} (h : Gathers asm m m' target passed first seen s) (hinterned : m.Interned)
    (hblock : m.blocks[target.index]? = some block) (hnext : Corresponds asm m passed first next) :
    ∃ s' m'', (do
        Build.positionAtEnd next.1
        s.merge asm next.2 next.1 target refers : Build EvalStack) m' = .ok s' m'' ∧
      Gathers asm m m'' target passed first (seen ++ [next]) s' ∧
      ∀ slot ∈ s'.slots, slot.state = .phi := by
  obtain ⟨source, stack⟩ := next
  let moved : Module := m'.apply (.moveTo source)
  have hmoved : Joining m.values.size target passed (phisOf s.slots) m moved := by
    simpa using h.joining.trans (joining_moveTo m' source)
  have hstart : m'.Evolves Change.Any moved := Evolves.one trivial trivial
  have hend : AtEndOf moved source :=
    ⟨interned_of_joins hmoved.evolves hinterned, rfl, openAt_of_joins hmoved.evolves hnext.opened⟩
  have hbrought := h.brought hnext hmoved.evolves
  have hready : ∀ slot ∈ s.slots, slot.Ready moved target :=
    fun slot hslot => (h.ready slot hslot).evolves hstart
  obtain ⟨targetBlock, htarget, -⟩ := hmoved.evolves.grows hblock
  obtain ⟨merged, m₂, made, hmerge, hjoining, -, hjoined⟩ :=
    mergeSlots_joins m.values.size hready hbrought hend htarget
  have hlevel : s.surplus stack = 0 := by
    have hsize : s.size = stack.size := hbrought.length_eq.trans (length_elements stack)
    simp [surplus, hsize]
  have hphis : ∀ v ∈ phisOf s.slots, moved.PhiOf target v := fun v hv => phiOf_of_ready hready hv
  obtain ⟨-, htouched, hnodup⟩ := mergeSlots_frame hmerge hphis h.nodup
  obtain ⟨sourceBlock, hsource, -⟩ := hend.opened
  have hmoves (k : Nat) (slot : Slot) (hslot : s.slots[k]? = some slot) :
      Holds asm moved target (passedAt k seen) slot :=
    (h.holds k slot hslot).mono hstart fun _ _ hv => hv
  obtain ⟨hmerged, hholds⟩ := mergeSlots_holds hmerge hbrought.length_eq.symm hmoves hphis h.nodup
    hend.position hsource
  have hall : ∀ slot ∈ merged, slot.state = .phi := fun slot hslot => (hjoined.ready slot hslot).2
  refine ⟨⟨merged⟩, m₂, ?run, {
    joining := ?joining
    ready := fun slot hslot => (hjoined.ready slot hslot).1
    same := hjoined.same_trans h.same
    holds := fun k slot hslot => ?holds
    nodup := hnodup
    fresh := fun v hv => ?fresh
    stage := .inr hall }, hall⟩
  case run =>
    simp only [bind_eq_ok_iff]
    exact ⟨(), moved, rfl, merge_of_level hrefers hlevel hmerge⟩
  case joining =>
    have hall' := hmoved.trans hjoining
    rcases h.stage with hnone | hphi
    · rw [phisOf_of_ne hnone, List.nil_append, hjoined.fresh hnone] at hall'
      rwa [phisOf_of_phi hall]
    · obtain ⟨rfl, rfl⟩ := hjoined.kept hphi
      rwa [List.append_nil] at hall'
  case holds =>
    have hk : k < stack.elements.length := by
      have := (List.getElem?_eq_some_iff.mp hslot).1
      rw [← hbrought.length_eq, ← hmerged]
      exact this
    rw [passedAt_append (List.getElem?_eq_getElem hk)]
    exact hholds k slot _ hslot (List.getElem?_eq_getElem hk)
  case fresh =>
    rcases (htouched v hv).2 with hold | hnew
    · exact h.fresh v hold
    · exact Nat.le_trans hmoved.evolves.values_le hnew

/-- All predecessors arrive. -/
theorem gathers_all (hrefers : 2 ≤ refers) {first : EvalStack} {block : Block}
    (h : Gathers asm m m' target passed first seen s) (hinterned : m.Interned)
    (hblock : m.blocks[target.index]? = some block)
    (hrest : ∀ next ∈ rest, Corresponds asm m passed first next) :
    ∃ s' m'', mergeAll asm target refers s rest m' = .ok s' m'' ∧
      Gathers asm m m'' target passed first (seen ++ rest) s' ∧
      (rest ≠ [] → ∀ slot ∈ s'.slots, slot.state = .phi) := by
  induction rest generalizing seen s m' with
  | nil =>
      refine ⟨s, m', rfl, ?_, by simp⟩
      rwa [List.append_nil]
  | cons next rest ih =>
      obtain ⟨hnext, hrest⟩ := List.forall_mem_cons.mp hrest
      obtain ⟨s₁, m₁, hmerge, hgathers, hphi⟩ := gathers_next hrefers h hinterned hblock hnext
      obtain ⟨s₂, m₂, hmerges, hgathers', hphi'⟩ := ih hgathers hrest
      simp only [bind_eq_ok_iff] at hmerge
      obtain ⟨u, m₀, hmove, hmerge⟩ := hmerge
      refine ⟨s₂, m₂, ?_, by rwa [List.append_assoc] at hgathers', fun _ => ?_⟩
      · simp only [mergeAll, bind_eq_ok_iff]
        exact ⟨u, m₀, hmove, s₁, m₁, hmerge, hmerges⟩
      · by_cases hempty : rest = []
        · subst hempty
          obtain ⟨rfl, rfl⟩ := pure_eq_ok_iff.mp hmerges
          exact hphi
        · exact hphi' hempty

/-- What stands in a phi for what a predecessor passes on has the type of the phi. -/
theorem enters_of_stands {type : TypeId} {arrival : BlockId × Element} {entry : ValueId × BlockId}
    (h : Stands asm m type arrival entry) (hentry : m.typeOf entry.1 = .ok type)
    (hsigned : ∃ signed, isSigned asm arrival.2.sig = .ok signed) :
    Enters asm m type arrival entry := by
  obtain ⟨hblock, hvalue | ⟨signed, hsigned', hcoerced⟩⟩ := h
  · obtain ⟨signed, hsigned⟩ := hsigned
    exact ⟨hblock, hentry, signed, hsigned, type, hvalue ▸ hentry, .inl ⟨rfl, hvalue⟩⟩
  · exact ⟨hblock, hentry, signed, hsigned', hcoerced⟩

theorem Enters.eq_of_typeOf {type : TypeId} {arrival : BlockId × Element}
    {entry : ValueId × BlockId} (h : Enters asm m type arrival entry)
    (hvalue : m.typeOf arrival.2.value = .ok type) :
    entry = (arrival.2.value, arrival.1) := by
  obtain ⟨hblock, -, signed, -, own, hown, hresult⟩ := h
  obtain rfl := Except.ok.inj (hown.symm.trans hvalue)
  rcases hresult with ⟨-, hsame⟩ | ⟨hne, -⟩
  · exact Prod.ext hsame hblock
  · exact absurd rfl hne

section Mergeables

variable (h : Mergeable asm m target (first :: rest))

include h

theorem Mergeable.follows {next : BlockId × EvalStack} (hnext : next ∈ rest) :
    Corresponds asm m (fun b v => ∃ stack e, (b, stack) ∈ rest ∧ e ∈ stack.elements ∧
      e.value = v) first.2
      next where
  opened := h.opened next (List.mem_cons_of_mem first hnext)
  size := h.height next (List.mem_cons_of_mem first hnext) first List.mem_cons_self
  brought k e e₀ he he₀ := by
    have hmem := List.mem_cons_of_mem first hnext
    have hat : (next.1, e) ∈ passedAt k (first :: rest) := mem_passedAt.mpr ⟨next.2, hmem, he⟩
    have hat₀ : (first.1, e₀) ∈ passedAt k (first :: rest) :=
      mem_passedAt.mpr ⟨first.2, List.mem_cons_self, he₀⟩
    have hin := List.mem_of_getElem? he
    exact ⟨h.typed next hmem e hin, h.signed next hmem e hin,
      (h.joinable k).blends (List.mem_map_of_mem hat) (List.mem_map_of_mem hat₀),
      next.2, e, hnext, hin, rfl⟩

theorem Mergeable.slot_of_gathers {merged : EvalStack}
    (hgathers : Gathers asm m m' target passed first.2 (first :: rest) merged)
    (htyped : m'.PhisTyped m.values.size) (hphi : ∀ slot ∈ merged.slots, slot.state = .phi)
    (he : first.2.elements[k]? = some e) : ∃ phi entries,
      merged.slots[k]? = some ⟨{ e with value := phi }, .phi⟩ ∧
        m'.values[phi.index]? =
          some ⟨e.type, .inst (some target) (.phi ((e.value, first.1) :: entries))⟩ ∧
        List.Forall₂ (Enters asm m' e.type) (passedAt k rest) entries := by
  obtain ⟨slot, hslot, hsig, htype⟩ := exists_getElem?_of_forall₂ hgathers.same he
  have hmem := List.mem_of_getElem? hslot
  have hstate := hphi slot hmem
  have hfresh := hgathers.fresh slot.element.value (by
    rw [phisOf_of_phi hphi]
    exact List.mem_map_of_mem hmem)
  have hsigned : ∀ a ∈ passedAt k (first :: rest), ∃ signed, isSigned asm a.2.sig = .ok signed := by
    intro a ha
    obtain ⟨stack, hin, hat⟩ := mem_passedAt.mp ha
    exact h.signed (a.1, stack) hin a.2 (List.mem_of_getElem? hat)
  have hpassed : passedAt k (first :: rest) = (first.1, e) :: passedAt k rest := by
    simp [passedAt, he]
  have hholds := hgathers.holds k slot hslot
  rw [hpassed] at hholds hsigned
  generalize hcolumn : (first.1, e) :: passedAt k rest = column at hholds hsigned
  cases hholds with
  | first => cases hstate
  | @phi _ phi sig type entries _ _ hvalue stands =>
      obtain rfl : sig = e.sig := hsig
      obtain rfl : type = e.type := htype
      have henters : List.Forall₂ (Enters asm m' e.type) column entries := by
        rw [List.forall₂_iff_get] at stands ⊢
        exact ⟨stands.1, fun i hi hi' => enters_of_stands (stands.2 i hi hi')
          (htyped phi.index _ _ _ hfresh hvalue _ (List.get_mem _ _))
            (hsigned _ (List.get_mem _ _))⟩
      rw [← hcolumn, List.forall₂_cons_left_iff] at henters
      obtain ⟨entry, others, hentry, hothers, rfl⟩ := henters
      obtain rfl := hentry.eq_of_typeOf (hgathers.joining.evolves.typeOf
        (h.typed first List.mem_cons_self e (List.mem_of_getElem? he)))
      exact ⟨phi, others, hslot, hvalue, hothers⟩

/-- The merges of several predecessors succeed, and lead to a phi for each slot. -/
theorem Mergeable.merged (hseveral : rest ≠ []) (hrefers : 2 ≤ refers) :
    ∃ merged m', mergeAll asm target refers {} (first :: rest) m = .ok merged m' ∧
      m.Evolves Change.Any m' ∧ Merged asm m m' target first rest merged := by
  obtain ⟨block, hblock, -⟩ := id h.phis
  obtain ⟨merged, m', hrun, hgathers, hphi⟩ := gathers_all hrefers
    (gathers_first (h.typed first List.mem_cons_self)) h.interned hblock
    fun next hnext => h.follows hnext
  have htidy : m.Tidy m.values.size target := by
    refine ⟨h.phis, fun v type block entries hv hvalue => ?_⟩
    rw [Array.getElem?_eq_none hv] at hvalue
    cases hvalue
  obtain ⟨htidy', hheads⟩ := hgathers.joining.tidy htidy
  rw [phisOf_of_phi (hphi hseveral)] at hheads
  have hvalues : merged.slots.map (·.element.value) = merged.elements.map Element.value := by
    rw [EvalStack.elements, List.map_map]
    rfl
  rw [hvalues] at hheads
  refine ⟨merged, m', ?_, hgathers.joining.evolves.mono fun _ _ => trivial, ?_⟩
  · have hfirst : mergeAll asm target refers {} [first] m = _ := merge_first hrefers
    simp only [mergeAll, bind_eq_ok_iff, pure_eq_ok_iff] at hfirst ⊢
    obtain ⟨u, m₁, hmove, s₁, m₂, hmerge, rfl, rfl⟩ := hfirst
    exact ⟨u, m₁, hmove, _, _, hmerge, hrun⟩
  · constructor
    case size =>
      rw [← length_elements first.2, hgathers.same.length_eq]
      rfl
    case slots =>
      intro k e he
      exact h.slot_of_gathers hgathers htidy'.typed (hphi hseveral) he
    case heads => exact hheads
    case phis => exact htidy'.phis
    case insts =>
      intro b block' hblock' v hv
      rcases insts_of_joins hgathers.joining.evolves hblock' hv with hold | ⟨rfl, hphiOf⟩ |
        ⟨type, op, operand, ⟨stack, e, hmem, he, rfl⟩, hcast⟩
      · exact .inl hold
      · obtain ⟨block₁, hblock₁, hknown⟩ := htidy'.phis
        obtain rfl := Option.some.inj (hblock₁.symm.trans hblock')
        obtain ⟨type, entries, hvalue⟩ := hphiOf
        have hhead := (hknown v hv).2 (by simp [Build.isPhi, hvalue, Value.inst?, Inst.isPhi])
        rw [hheads, List.mem_append] at hhead
        refine hhead.imp (fun hold => ⟨block, hblock, ?_⟩) fun hnew => .inl ⟨rfl, hnew⟩
        rw [Module.heads, hblock] at hold
        exact (List.takeWhile_sublist _).subset hold
      · exact .inr (.inr ⟨stack, e, op, type, hmem, he, hcast⟩)
    case clean => exact misuses_of_joins hgathers.joining.evolves

/-- If the predecessors agree on the type of a slot, its phi has their values as they are. -/
theorem Merged.incoming {merged : EvalStack} (hmerged : Merged asm m m' target first rest merged)
    (hevolves : ∀ {v : ValueId} {type : TypeId}, m.typeOf v = .ok type → m'.typeOf v = .ok type)
    (hsame : ∀ a ∈ passedAt k (first :: rest), ∀ a' ∈ passedAt k (first :: rest),
      a.2.type = a'.2.type)
    {slot : Slot} (hslot : merged.slots[k]? = some slot) :
    m'.incoming? slot.element.value =
      .ok (some ((passedAt k (first :: rest)).map fun a => (a.2.value, a.1))) := by
  have hk : k < first.2.elements.length := by
    have hlt : k < merged.size := (List.getElem?_eq_some_iff.mp hslot).1
    rwa [hmerged.size, ← length_elements] at hlt
  have he := List.getElem?_eq_getElem hk
  obtain ⟨phi, entries, hfound, hvalue, henters⟩ := hmerged.slots k _ he
  obtain rfl := Option.some.inj (hslot.symm.trans hfound)
  have hpassed : passedAt k (first :: rest) =
      (first.1, first.2.elements[k]) :: passedAt k rest := by
    simp [passedAt, he]
  have htypes : ∀ a ∈ passedAt k rest, a.2.type = first.2.elements[k].type := fun a ha =>
    hsame a (hpassed ▸ List.mem_cons_of_mem _ ha) (first.1, first.2.elements[k])
      (hpassed ▸ List.mem_cons_self)
  have hentries : entries = (passedAt k rest).map fun a => (a.2.value, a.1) := by
    have hall : List.Forall₂ (· = ·) ((passedAt k rest).map fun a => (a.2.value, a.1)) entries := by
      rw [List.forall₂_map_left_iff]
      rw [List.forall₂_iff_get] at henters ⊢
      refine ⟨henters.1, fun i hi hi' => ((henters.2 i hi hi').eq_of_typeOf ?_).symm⟩
      obtain ⟨stack, hmem, hat⟩ := mem_passedAt.mp (List.get_mem (passedAt k rest) ⟨i, hi⟩)
      rw [← htypes _ (List.get_mem _ _)]
      exact hevolves (h.typed _ (List.mem_cons_of_mem first hmem) _ (List.mem_of_getElem? hat))
    rw [List.forall₂_eq_eq_eq] at hall
    exact hall.symm
  rw [hpassed, List.map_cons, ← hentries]
  simp [Module.incoming?, Module.inst?, Module.value, Arena.entry_eq_ok_iff.mpr hvalue, Value.inst?]

end Mergeables

theorem Mergeable.perm {arrivals' : List (BlockId × EvalStack)}
    (h : Mergeable asm m target arrivals) (hperm : arrivals.Perm arrivals') :
    Mergeable asm m target arrivals' where
  interned := h.interned
  phis := h.phis
  opened a ha := h.opened a (hperm.mem_iff.mpr ha)
  height a ha a' ha' := h.height a (hperm.mem_iff.mpr ha) a' (hperm.mem_iff.mpr ha')
  typed a ha := h.typed a (hperm.mem_iff.mpr ha)
  signed a ha := h.signed a (hperm.mem_iff.mpr ha)
  joinable k := (h.joinable k).of_subset fun type htype => by
    refine (List.Perm.map _ (List.Perm.filterMap _ hperm)).mem_iff.mpr htype

/-- The stacks of several predecessors become phis.  The first one leaves its values; after all of
them each slot is a phi at the head of the block, of the first type, with an entry for each
predecessor in the order of their arrival: the first value, and every later one brought to that type
at the end of its own block.  Nothing else is added, and no misuse recorded.  For a slot whose types
are the same, the order of the predecessors is only that of the entries.  The stack of a single
predecessor is taken as it is. -/
theorem mergeAll_spec (h : Mergeable asm m target (first :: rest)) (hseveral : rest ≠ [])
    (hrefers : 2 ≤ refers) :
    mergeAll asm target refers {} [first] m =
        .ok ⟨first.2.elements.map (⟨·, .deferred first.1⟩)⟩ { m with position := some first.1 } ∧
      ∃ merged m', mergeAll asm target refers {} (first :: rest) m = .ok merged m' ∧
        Merged asm m m' target first rest merged ∧
        (∀ arrivals, (first :: rest).Perm arrivals → ∃ merged' m'',
          mergeAll asm target refers {} arrivals m = .ok merged' m'' ∧
            ∀ k, (∀ a ∈ passedAt k arrivals, ∀ a' ∈ passedAt k arrivals, a.2.type = a'.2.type) →
              ∀ slot slot', merged.slots[k]? = some slot → merged'.slots[k]? = some slot' →
                ∃ entries entries', m'.incoming? slot.element.value = .ok (some entries) ∧
                  m''.incoming? slot'.element.value = .ok (some entries') ∧ entries.Perm entries') ∧
        ∀ single source incoming t, single ≤ 1 →
          EvalStack.merge asm {} incoming source target single t = .ok incoming.snapshot t := by
  refine ⟨merge_first hrefers, ?_⟩
  obtain ⟨merged, m', hrun, hevolves, hmerged⟩ := h.merged hseveral hrefers
  refine ⟨merged, m', hrun, hmerged, fun arrivals hperm => ?_,
    fun single source incoming t hsingle => ?_⟩
  · have h' := h.perm hperm
    obtain ⟨first', rest', rfl⟩ : ∃ first' rest', arrivals = first' :: rest' :=
      List.exists_cons_of_ne_nil fun hnil => by simp [hnil] at hperm
    have hseveral' : rest' ≠ [] := by
      rintro rfl
      have hlength := hperm.length_eq
      simp only [List.length_cons, List.length_nil, Nat.add_right_cancel_iff] at hlength
      exact hseveral (List.length_eq_zero_iff.mp hlength)
    obtain ⟨merged', m'', hrun', hevolves', hmerged'⟩ := h'.merged hseveral' hrefers
    refine ⟨merged', m'', hrun', fun k hsame slot slot' hslot hslot' => ?_⟩
    have hcolumn := List.Perm.filterMap (fun a => a.2.elements[k]?.map (a.1, ·)) hperm
    refine ⟨_, _, hmerged.incoming h hevolves.typeOf (fun a ha a' ha' => ?_) hslot,
      hmerged'.incoming h' hevolves'.typeOf hsame hslot', hcolumn.map _⟩
    exact hsame a (hcolumn.mem_iff.mp ha) a' (hcolumn.mem_iff.mp ha')
  · rw [merge, if_pos hsingle]
    rfl

end Sequences

section Junction

open EvalStack Module

/-- An assembly without types; numbers need none. -/
def junctionAssembly : Assembly where
  name := "junction"
  types := #[]
  fields := #[]
  methods := #[]

/-- Three blocks that lead to a fourth. -/
def junctionRequests : List Command :=
  [.voidType, .functionType ⟨0⟩ [], .addFunction "junction" ⟨1⟩ .internal, .appendBlock ⟨0⟩ "left",
    .appendBlock ⟨0⟩ "middle", .appendBlock ⟨0⟩ "right", .appendBlock ⟨0⟩ "end",
    .intType 32, .intType 8, .floatType 64, .constInt ⟨3⟩ 1, .constInt ⟨3⟩ 10,
    .constInt ⟨3⟩ 2, .constInt ⟨4⟩ 20, .constInt ⟨3⟩ 3, .constFloat ⟨5⟩ (Numeric.Binary64.ofInt 30)]

def junction : Module := stateOf (Command.runAll junctionRequests { name := "junction" })

/-- Each passes two numbers on, the second of its own type. -/
def junctionArrivals : List (BlockId × EvalStack) :=
  [(⟨0⟩, .ofElements [⟨⟨1⟩, .i4, ⟨3⟩⟩, ⟨⟨2⟩, .i4, ⟨3⟩⟩]),
    (⟨1⟩, .ofElements [⟨⟨3⟩, .i4, ⟨3⟩⟩, ⟨⟨4⟩, .i1, ⟨4⟩⟩]),
    (⟨2⟩, .ofElements [⟨⟨5⟩, .i4, ⟨3⟩⟩, ⟨⟨6⟩, .r8, ⟨5⟩⟩])]

theorem junction_mergeable : Mergeable junctionAssembly junction ⟨3⟩ junctionArrivals where
  interned := Reached.interned ⟨"junction", junctionRequests, eq_ok_stateOf (by decide +kernel)⟩
  phis := ⟨{ name := "end", function := ⟨0⟩ }, by decide +kernel, by simp⟩
  opened := by
    have hblocks : ∀ a ∈ junctionArrivals, (junction.blocks[a.1.index]?.map Block.terminator) =
        some none := by
      decide +kernel
    intro a ha
    exact Option.map_eq_some_iff.mp (hblocks a ha)
  height := by decide
  typed := by decide +kernel
  signed := by
    intro a ha e he
    have hsigned : ∀ a ∈ junctionArrivals, ∀ e ∈ a.2.elements, 
        isSigned junctionAssembly e.sig = .ok true := by decide
    exact ⟨true, hsigned a ha e he⟩
  joinable k := by
    have hclasses : ∀ type ∈ [(⟨3⟩ : TypeId), ⟨4⟩, ⟨5⟩],
        ∃ cls ∈ [TypeClass.int 32, .int 8, .float 64], junction.classify type = .ok cls ∧
        (cls.isInt || cls.isFloat) = true := by decide +kernel
    have hnumbers : ∀ a ∈ junctionArrivals, ∀ e ∈ a.2.elements, e.type ∈
        [(⟨3⟩ : TypeId), ⟨4⟩, ⟨5⟩] := by
      decide
    refine .inr (.inl fun type htype => ?_)
    obtain ⟨a, ha, rfl⟩ := List.mem_map.mp htype
    obtain ⟨stack, hmem, hat⟩ := mem_passedAt.mp ha
    obtain ⟨cls, -, hcls⟩ := hclasses _ (hnumbers _ hmem _ (List.mem_of_getElem? hat))
    exact ⟨cls, hcls⟩

theorem junction_merged : ∃ first rest, junctionArrivals = first :: rest ∧ rest ≠ [] ∧
    ∃ merged m', mergeAll junctionAssembly ⟨3⟩ 3 {} junctionArrivals junction = .ok merged m' ∧
      Merged junctionAssembly junction m' ⟨3⟩ first rest merged := by
  obtain ⟨-, merged, m', hrun, hmerged, -⟩ :=
    mergeAll_spec junction_mergeable (by simp) (show 2 ≤ 3 by decide)
  exact ⟨_, _, rfl, by simp, merged, m', hrun, hmerged⟩

end Junction

end Lowering

end CilSsa
