import Mathlib.Data.List.Forall2
import CilSsa.Proofs.Conversion

/-!
Merging the stacks of the predecessors of a block.

A slot of a block with several predecessors holds the value of the first one until the second
arrives.  From then on it holds a phi at the head of the block, with an entry for every predecessor
that has arrived: its value, or the value converted at its end.
-/

namespace CilSsa

open Ssa Metadata Lowering

namespace Ssa.Module

variable {P : Change → Prop} {m m' : Module} {b : BlockId} {v : ValueId}

def PhiOf (m : Module) (b : BlockId) (v : ValueId) : Prop :=
  ∃ type entries, m.values[v.index]? = some ⟨type, .inst (some b) (.phi entries)⟩

theorem PhiOf.lt (h : m.PhiOf b v) : v.index < m.values.size := by
  obtain ⟨type, entries, hv⟩ := h
  exact (Array.getElem?_eq_some_iff.mp hv).1

theorem PhiOf.unique {b' : BlockId} (h : m.PhiOf b v) (h' : m.PhiOf b' v) : b = b' := by
  obtain ⟨type, entries, hv⟩ := h
  obtain ⟨type', entries', hv'⟩ := h'
  rw [hv] at hv'
  simp only [Option.some.injEq, Value.mk.injEq, ValueKind.inst.injEq] at hv'
  exact hv'.2.1

theorem phiOf_apply {c : Change} (h : m.PhiOf b v) : (m.apply c).PhiOf b v := by
  obtain ⟨type, entries, hv⟩ := h
  by_cases hc : c.Leaves v.index ⟨type, .inst (some b) (.phi entries)⟩
  · exact ⟨type, entries, value_apply hc hv⟩
  · cases c with
    | addEntry phi value source =>
        simp only [Change.Leaves, ne_eq, Decidable.not_not] at hc
        refine ⟨type, entries ++ [(value, source)], ?_⟩
        simp [apply, Array.getElem?_modify, hc, hv, Value.addEntry]
    | setInitial global value =>
        simp only [Change.Leaves, ne_eq, Decidable.not_not] at hc
        refine ⟨type, entries, ?_⟩
        simp [apply, Array.getElem?_modify, hc, hv, Value.setInitial]
    | keepBlocks function kept =>
        simp only [apply, keepBlocks, prunedValues, PhiOf, Array.getElem?_mapIdx, hv,
          Option.map_some, Option.some.injEq]
        split
        · exact ⟨_, _, rfl⟩
        · exact ⟨_, _, rfl⟩
    | _ => exact absurd trivial hc

/-- A phi stays a phi of its block. -/
theorem Evolves.phiOf (h : m.Evolves P m') (hv : m.PhiOf b v) : m'.PhiOf b v :=
  h.preserves (I := fun m => m.PhiOf b v) (fun _ _ _ _ => phiOf_apply) hv

theorem mem_heads_addPhi {type : TypeId} {block : Block}
    (hblock : m.blocks[b.index]? = some block) :
    (⟨m.values.size⟩ : ValueId) ∈ (m.apply (.addPhi b type)).heads b := by
  let pushed := m.pushValue ⟨type, .inst (some b) (.phi [])⟩
  have hheads : (m.apply (.addPhi b type)).heads b =
      (block.insert (Build.isPhi pushed) ⟨m.values.size⟩).insts.takeWhile (Build.isPhi pushed) := by
    unfold heads
    simp only [apply, Array.getElem?_modify, hblock, if_true, Option.map_some]
    rfl
  have hall : ∀ x ∈ block.insts.takeWhile (Build.isPhi pushed), Build.isPhi pushed x = true :=
    fun x hx => List.all_eq_true.mp List.all_takeWhile x hx
  have hnew : Build.isPhi pushed ⟨m.values.size⟩ = true := by
    simp [Build.isPhi, pushed, pushValue, Value.inst?, Inst.isPhi]
  rw [hheads, Block.insert, List.takeWhile_append_of_pos hall, List.takeWhile_cons_of_pos hnew]
  exact List.mem_append_right _ List.mem_cons_self

end Ssa.Module

/-- The changes of a merge into block `target`: code of the current block, phis of the target, and
entries of the phis that `touched` allows. -/
def Ssa.Change.Merges (target : BlockId) (touched : ValueId → Prop) : Change → Prop
  | .addType _ | .addValue _ | .addFunction _ | .record _ | .listGlobal _ | .countString
  | .addInst .. => True
  | .addPhi b _ => b = target
  | .addEntry phi _ _ => touched phi
  | _ => False

instance (target : BlockId) (touched : ValueId → Prop) :
    Change.Computing (Change.Merges target touched) where
  addType _ _ := trivial
  addArray _ _ := trivial
  addValue _ := trivial
  record _ := trivial
  listGlobal _ := trivial
  countString := trivial
  addInst _ _ _ _ := trivial

namespace Ssa.Build

variable {m m' : Module} {u : Unit}

theorem addEntry_eq_ok {phi value : ValueId} {source b : BlockId} {type : TypeId}
    {entries : List (ValueId × BlockId)}
    (hv : m.values[phi.index]? = some ⟨type, .inst (some b) (.phi entries)⟩)
    (h : (do match (← query (·.value phi)).kind with
      | .inst block (.phi incoming) =>
          setKind phi (.inst block (.phi (incoming ++ [(value, source)])))
      | _ => record .incomingOfNonPhi : Build Unit) m = .ok u m') :
    m' = m.apply (.addEntry phi value source) := by
  simp only [bind_eq_ok_iff, query_eq_ok_iff] at h
  obtain ⟨found, _, ⟨hfound, rfl⟩, h⟩ := h
  obtain rfl : found = ⟨type, .inst (some b) (.phi entries)⟩ := by
    simpa [hv] using (Arena.entry_eq_ok_iff.mp hfound).symm
  obtain rfl := modify_eq_ok_iff.mp h
  rw [Module.apply]
  congr 1
  exact modify_congr hv rfl

theorem addIncoming_eq_ok {phi value : ValueId} {source b : BlockId}
    (h : addIncoming phi value source m = .ok u m') (hphi : m.PhiOf b phi) :
    ∃ m₁, (m₁ = m ∨ ∃ misuse, m₁ = m.apply (.record misuse) ∧ m.Fits (.record misuse)) ∧
      m' = m₁.apply (.addEntry phi value source) := by
  obtain ⟨type, entries, hv⟩ := hphi
  rw [addIncoming, bind_eq_ok_iff] at h
  obtain ⟨phiType, t, hphiType, h⟩ := h
  obtain ⟨-, rfl⟩ := query_eq_ok_iff.mp hphiType
  rw [bind_eq_ok_iff] at h
  obtain ⟨valueType, t, hvalueType, h⟩ := h
  obtain ⟨-, rfl⟩ := query_eq_ok_iff.mp hvalueType
  dsimp only at h
  split at h
  · rw [bind_eq_ok_iff] at h
    obtain ⟨_, t, hrecord, h⟩ := h
    obtain ⟨function, hfunction, rfl⟩ := record_eq_ok_iff.mp hrecord
    exact ⟨_, .inr ⟨_, rfl, hfunction, fun h => Bool.noConfusion h⟩, addEntry_eq_ok hv h⟩
  · exact ⟨_, .inl rfl, addEntry_eq_ok hv h⟩

end Ssa.Build

namespace Lowering

variable {asm : Assembly} {m m' : Module} {source target b : BlockId}

section Entries

variable {phi value : ValueId} {type : TypeId}
  {entries : List (ValueId × BlockId)} {u : Unit}

/-- An entry that is added is the last one of its phi. -/
theorem addIncoming_spec (target : BlockId) (touched : ValueId → Prop)
    (h : Build.addIncoming phi value source m = .ok u m')
    (hv : m.values[phi.index]? = some ⟨type, .inst (some b) (.phi entries)⟩)
    (htouched : touched phi) :
    m.Evolves (Change.Merges target touched) m' ∧
      m'.values[phi.index]? =
        some ⟨type, .inst (some b) (.phi (entries ++ [(value, source)]))⟩ := by
  obtain ⟨m₁, hfirst, rfl⟩ := Build.addIncoming_eq_ok h ⟨type, entries, hv⟩
  have hv₁ : m₁.values[phi.index]? = some ⟨type, .inst (some b) (.phi entries)⟩ := by
    rcases hfirst with rfl | ⟨misuse, rfl, -⟩ <;> exact hv
  have hlast : m₁.Evolves (Change.Merges target touched) (m₁.apply (.addEntry phi value source)) :=
    Module.Evolves.one htouched ⟨type, some b, entries, hv₁⟩
  constructor
  · rcases hfirst with rfl | ⟨misuse, rfl, hfits⟩
    · exact hlast
    · exact Relation.ReflTransGen.trans
        (Module.Evolves.one (c := .record misuse) trivial hfits) hlast
  · simp [Module.apply, Array.getElem?_modify, hv₁, Value.addEntry]

end Entries

/-- Whether an entry of a phi is for what a predecessor passes on: its value, or the value
converted to the type of the phi. -/
def Stands (asm : Assembly) (m : Module) (type : TypeId) (arrival : BlockId × Element)
    (entry : ValueId × BlockId) : Prop :=
  entry.2 = arrival.1 ∧ (entry.1 = arrival.2.value ∨ ∃ signed,
    isSigned asm arrival.2.sig = .ok signed ∧
      Coerced m arrival.1 arrival.2.value type signed entry.1)

/-- Whether a slot of a block holds what its predecessors have passed on so far. -/
inductive Holds (asm : Assembly) (m : Module) (target : BlockId) :
    List (BlockId × Element) → Slot → Prop where
  | first (source : BlockId) (e : Element) :
      Holds asm m target [(source, e)] ⟨e, .deferred source⟩
  | phi {arrivals : List (BlockId × Element)} {phi : ValueId} {sig : TypeSig} {type : TypeId}
      {entries : List (ValueId × BlockId)} (several : 2 ≤ arrivals.length)
      (head : phi ∈ m.heads target)
      (value : m.values[phi.index]? = some ⟨type, .inst (some target) (.phi entries)⟩)
      (stands : List.Forall₂ (Stands asm m type) arrivals entries) :
      Holds asm m target arrivals ⟨⟨phi, sig, type⟩, .phi⟩

section Persistence

variable (hevolves : m.Evolves Change.Any m')

include hevolves

theorem Stands.mono {type : TypeId} {arrival : BlockId × Element} {entry : ValueId × BlockId}
    (h : Stands asm m type arrival entry) : Stands asm m' type arrival entry := by
  obtain ⟨hsource, hvalue | ⟨signed, hsigned, hcoerced⟩⟩ := h
  · exact ⟨hsource, .inl hvalue⟩
  · exact ⟨hsource, .inr ⟨signed, hsigned, hcoerced.mono hevolves⟩⟩

/-- A slot goes on holding what it holds as long as its phi gets no entries. -/
theorem Holds.mono {arrivals : List (BlockId × Element)} {slot : Slot}
    (h : Holds asm m target arrivals slot)
    (hphi : slot.state = .phi → ∀ {v : Value}, m.values[slot.element.value.index]? = some v →
      m'.values[slot.element.value.index]? = some v) : Holds asm m' target arrivals slot := by
  cases h with
  | first source e => exact .first source e
  | phi several head value stands =>
      refine .phi several (hevolves.heads head) (hphi rfl value) ?_
      exact stands.imp fun _ _ hstands => hstands.mono hevolves

end Persistence

def phisOf (slots : List Slot) : List ValueId :=
  slots.filterMap fun slot => if slot.state = .phi then some slot.element.value else none

/-- What may get entries while slots are merged: the phis they hold, and new ones. -/
def Touched (m : Module) (slots : List Slot) (v : ValueId) : Prop :=
  v ∈ phisOf slots ∨ m.values.size ≤ v.index

section Slots

open EvalStack

variable {slot slot' : Slot} {e : Element}

/-- The steps of a merge that makes a phi. -/
theorem mergeSlot_deferred {held : Element} {first : BlockId}
    (h : mergeSlot asm source target ⟨held, .deferred first⟩ e m = .ok slot' m') :
    ∃ m₁ m₂ signed value, let phi : ValueId := ⟨m.values.size⟩
      Build.addIncoming phi held.value first (m.apply (.addPhi target held.type)) = .ok () m₁ ∧
      isSigned asm e.sig = .ok signed ∧ coerce e.value held.type signed m₁ = .ok value m₂ ∧
      Build.addIncoming phi value source m₂ = .ok () m' ∧
      slot' = ⟨{ held with value := phi }, .phi⟩ ∧
      ∃ block, m.blocks[target.index]? = some block := by
  simp only [mergeSlot, bind_eq_ok_iff, Build.ask_eq_ok_iff, pure_eq_ok_iff] at h
  obtain ⟨phi, _, hphi, _, m₁, hadd, signed, _, ⟨hsigned, rfl⟩, value, m₂, hcoerce, _, _, hadd',
    rfl, rfl⟩ := h
  obtain ⟨rfl, rfl, hblock⟩ := Build.phi_eq_ok hphi
  exact ⟨_, m₂, signed, value, hadd, hsigned, hcoerce, hadd', rfl, hblock⟩

theorem mergeSlot_phi {held : Element}
    (h : mergeSlot asm source target ⟨held, .phi⟩ e m = .ok slot' m') :
    ∃ m₁ signed value, isSigned asm e.sig = .ok signed ∧
      coerce e.value held.type signed m = .ok value m₁ ∧
      Build.addIncoming held.value value source m₁ = .ok () m' ∧ slot' = ⟨held, .phi⟩ := by
  simp only [mergeSlot, bind_eq_ok_iff, Build.ask_eq_ok_iff, pure_eq_ok_iff] at h
  obtain ⟨signed, _, ⟨hsigned, rfl⟩, value, m₁, hcoerce, _, _, hadd, rfl, rfl⟩ := h
  exact ⟨m₁, signed, value, hsigned, hcoerce, hadd, rfl⟩

theorem evolves_coerce (target : BlockId) (touched : ValueId → Prop) {value result : ValueId}
    {type : TypeId} {signed : Bool} (h : coerce value type signed m = .ok result m') :
    m.Evolves (Change.Merges target touched) m' :=
  (inferInstance : Keeps (Module.Evolves (Change.Merges target touched)) _).run h

/-- The value of a phi stays while nothing touches it. -/
theorem value_of_untouched {touched : ValueId → Prop} {id : ValueId} {v : Value}
    (h : m.Evolves (Change.Merges target touched) m') (hid : ¬ touched id)
    (hv : m.values[id.index]? = some v) : m'.values[id.index]? = some v := by
  refine h.value (fun c hc => ?_) hv
  cases c with
  | addEntry phi value source =>
      intro heq
      rw [ValueId.eq_of_index heq] at hc
      exact hid hc
  | _ => first | exact trivial | exact hc.elim

theorem mergeSlot_frame (h : mergeSlot asm source target slot e m = .ok slot' m')
    (hslot : ∀ v ∈ phisOf [slot], m.PhiOf target v) :
    m.Evolves (Change.Merges target (Touched m [slot])) m' ∧
      ∀ v ∈ phisOf [slot'], m'.PhiOf target v ∧ Touched m [slot] v := by
  obtain ⟨held, state⟩ := slot
  cases state with
  | unvisited =>
      simp only [mergeSlot, pure_eq_ok_iff] at h
      obtain ⟨rfl, rfl⟩ := h
      exact ⟨Relation.ReflTransGen.refl, by simp [phisOf]⟩
  | deferred first =>
      obtain ⟨m₁, m₂, signed, value, hadd, -, hcoerce, hadd', rfl, headBlock, hhead⟩ :=
        mergeSlot_deferred h
      have htouched : Touched m [⟨held, .deferred first⟩] ⟨m.values.size⟩ := .inr (Nat.le_refl _)
      have hphi : m.Evolves (Change.Merges target (Touched m [⟨held, .deferred first⟩]))
          (m.apply (.addPhi target held.type)) :=
        Module.Evolves.one rfl (Array.getElem?_eq_some_iff.mp hhead).1
      have hnew : (m.apply (.addPhi target held.type)).values[m.values.size]? =
          some ⟨held.type, .inst (some target) (.phi [])⟩ := by
        simp [Module.apply, Module.pushValue]
      obtain ⟨hevolves, hentry⟩ := addIncoming_spec target _ hadd hnew htouched
      have hevolves' := hevolves.trans (evolves_coerce target _ hcoerce)
      obtain ⟨type, entries, hv⟩ := Module.Evolves.phiOf (b := target)
        (evolves_coerce target (Touched m [⟨held, .deferred first⟩]) hcoerce)
        ⟨_, _, hentry⟩
      obtain ⟨hevolves'', hentry'⟩ := addIncoming_spec target _ hadd' hv htouched
      refine ⟨(hphi.trans hevolves').trans hevolves'', ?_⟩
      intro v hv
      obtain rfl : v = ⟨m.values.size⟩ := by simpa [phisOf] using hv
      exact ⟨⟨_, _, hentry'⟩, htouched⟩
  | phi =>
      obtain ⟨m₁, signed, value, -, hcoerce, hadd, rfl⟩ := mergeSlot_phi h
      have hmem : held.value ∈ phisOf [⟨held, .phi⟩] := by simp [phisOf]
      have hevolves := evolves_coerce target (Touched m [⟨held, .phi⟩]) hcoerce
      obtain ⟨type, entries, hv⟩ := hevolves.phiOf (hslot _ hmem)
      have htouched : Touched m [⟨held, .phi⟩] held.value := .inl hmem
      obtain ⟨hevolves', hentry⟩ := addIncoming_spec target _ hadd hv htouched
      refine ⟨hevolves.trans hevolves', ?_⟩
      intro v hv
      obtain rfl : v = held.value := by simpa [phisOf] using hv
      exact ⟨⟨_, _, hentry⟩, htouched⟩

theorem evolves_of_merges {touched : ValueId → Prop}
    (h : m.Evolves (Change.Merges target touched) m') : m.Evolves Change.Any m' :=
  h.mono fun _ _ => trivial

theorem position_of_merges {touched : ValueId → Prop}
    (h : m.Evolves (Change.Merges target touched) m') : m'.position = m.position := by
  refine h.position fun c hc b heq => ?_
  subst heq
  exact hc

/-- What a predecessor passes on to a phi becomes its last entry. -/
theorem stands_arrival {phi value : ValueId} {type own : TypeId} {signed : Bool}
    {entries : List (ValueId × BlockId)} {m₁ : Module} {block : Block}
    (hv : m.values[phi.index]? = some ⟨own, .inst (some target) (.phi entries)⟩)
    (hsigned : isSigned asm e.sig = .ok signed)
    (hcoerce : coerce e.value type signed m = .ok value m₁)
    (hadd : Build.addIncoming phi value source m₁ = .ok () m')
    (hposition : m.position = some source) (hblock : m.blocks[source.index]? = some block) :
    m.Evolves (Change.Merges target (· = phi)) m' ∧
      m'.values[phi.index]? =
        some ⟨own, .inst (some target) (.phi (entries ++ [(value, source)]))⟩ ∧
      Stands asm m' type (source, e) (value, source) := by
  have hevolves := evolves_coerce target (fun _ => False) hcoerce
  have hv₁ := value_of_untouched hevolves id hv
  obtain ⟨hevolves', hentry⟩ := addIncoming_spec target (· = phi) hadd hv₁ rfl
  have hcoerced := coerce_spec hcoerce hposition hblock
  refine ⟨(hevolves.mono fun c hc => ?_).trans hevolves', hentry, rfl, .inr ⟨signed, hsigned, ?_⟩⟩
  · cases c <;> first | exact hc | exact hc.elim
  · exact hcoerced.mono (evolves_of_merges hevolves')

/-- One more predecessor for a slot. -/
theorem mergeSlot_holds {arrivals : List (BlockId × Element)} {block : Block}
    (h : mergeSlot asm source target slot e m = .ok slot' m')
    (hholds : Holds asm m target arrivals slot) (hposition : m.position = some source)
    (hblock : m.blocks[source.index]? = some block) :
    Holds asm m' target (arrivals ++ [(source, e)]) slot' := by
  cases hholds with
  | first earlier held =>
      obtain ⟨m₁, m₂, signed, value, hadd, hsigned, hcoerce, hadd', rfl, headBlock, hhead⟩ :=
        mergeSlot_deferred h
      have hphi : m.Evolves (Change.Merges target (fun _ => True))
          (m.apply (.addPhi target held.type)) :=
        Module.Evolves.one rfl (Array.getElem?_eq_some_iff.mp hhead).1
      have hnew : (m.apply (.addPhi target held.type)).values[m.values.size]? =
          some ⟨held.type, .inst (some target) (.phi [])⟩ := by
        simp [Module.apply, Module.pushValue]
      obtain ⟨hevolves, hentry⟩ := addIncoming_spec target (fun _ => True) hadd hnew trivial
      have hevolves₁ := hphi.trans hevolves
      obtain ⟨block₁, hblock₁, -⟩ := Module.Evolves.grows hevolves₁ hblock
      obtain ⟨hevolves₂, hentry', hstands⟩ := stands_arrival hentry hsigned hcoerce hadd'
        ((position_of_merges hevolves₁).trans hposition) hblock₁
      refine .phi (by simp) ?_ hentry' ?_
      · exact hevolves₂.heads (Module.Evolves.heads hevolves (Module.mem_heads_addPhi hhead))
      · exact .cons ⟨rfl, .inl rfl⟩ (.cons hstands .nil)
  | phi several head hvalue stands =>
      obtain ⟨m₁, signed, value, hsigned, hcoerce, hadd, rfl⟩ := mergeSlot_phi h
      obtain ⟨hevolves, hentry, hstands⟩ :=
        stands_arrival hvalue hsigned hcoerce hadd hposition hblock
      refine .phi (by simp; omega) (hevolves.heads head) hentry ?_
      refine List.rel_append (stands.imp fun _ _ h => ?_) (.cons hstands .nil)
      exact h.mono (evolves_of_merges hevolves)

theorem phisOf_cons (slot : Slot) (slots : List Slot) :
    phisOf (slot :: slots) = phisOf [slot] ++ phisOf slots := by
  simp only [phisOf, List.filterMap_cons, List.filterMap_nil]
  split <;> rfl

theorem phisOf_deferred (source : BlockId) (elements : List Element) :
    phisOf (elements.map (⟨·, .deferred source⟩)) = [] := by
  simp [phisOf, List.filterMap_map]

theorem mergeSlots_cons {slots merged : List Slot} {rest : List Element}
    (h : mergeSlots asm source target (slot :: slots) (e :: rest) m = .ok merged m') :
    ∃ slot' m₁ slots', mergeSlot asm source target slot e m = .ok slot' m₁ ∧
      mergeSlots asm source target slots rest m₁ = .ok slots' m' ∧ merged = slot' :: slots' := by
  simp only [mergeSlots, bind_eq_ok_iff, pure_eq_ok_iff] at h
  obtain ⟨slot', m₁, hslot, slots', _, hslots, rfl, rfl⟩ := h
  exact ⟨slot', m₁, slots', hslot, hslots, rfl⟩

/-- A slot does not touch the phis of the others, and they do not touch the one it ends up with. -/
theorem mergeSlot_apart {slots : List Slot}
    (h : mergeSlot asm source target slot e m = .ok slot' m')
    (hphis : ∀ v ∈ phisOf (slot :: slots), m.PhiOf target v)
    (hnodup : (phisOf (slot :: slots)).Nodup) :
    (∀ v ∈ phisOf slots, ¬ Touched m [slot] v) ∧ ∀ v ∈ phisOf [slot'], ¬ Touched m' slots v := by
  rw [phisOf_cons] at hphis hnodup
  obtain ⟨-, -, hdisjoint⟩ := List.nodup_append.mp hnodup
  have hrest (v : ValueId) (hv : v ∈ phisOf slots) : ¬ Touched m [slot] v := by
    rintro (hown | hnew)
    · exact hdisjoint v hown v hv rfl
    · have := (hphis v (List.mem_append_right _ hv)).lt
      omega
  refine ⟨hrest, fun v hv => ?_⟩
  obtain ⟨hphi, htouched⟩ :=
    (mergeSlot_frame h fun v hv => hphis v (List.mem_append_left _ hv)).2 v hv
  rintro (hother | hnew)
  · exact hrest v hother htouched
  · have := hphi.lt
    omega

/-- Merging slots touches no phis but theirs, and they end up with different ones. -/
theorem mergeSlots_frame {slots merged : List Slot} {elements : List Element}
    (h : mergeSlots asm source target slots elements m = .ok merged m')
    (hphis : ∀ v ∈ phisOf slots, m.PhiOf target v) (hnodup : (phisOf slots).Nodup) :
    m.Evolves (Change.Merges target (Touched m slots)) m' ∧
      (∀ v ∈ phisOf merged, m'.PhiOf target v ∧ Touched m slots v) ∧ (phisOf merged).Nodup := by
  induction slots generalizing elements m merged with
  | nil =>
      cases elements with
      | nil =>
          simp only [mergeSlots, pure_eq_ok_iff] at h
          obtain ⟨rfl, rfl⟩ := h
          exact ⟨Relation.ReflTransGen.refl, by simp [phisOf], by simp [phisOf]⟩
      | cons e rest =>
          simp only [mergeSlots, pure_eq_ok_iff] at h
          obtain ⟨rfl, rfl⟩ := h
          rw [phisOf_deferred]
          exact ⟨Relation.ReflTransGen.refl, by simp, by simp⟩
  | cons slot slots ih =>
      cases elements with
      | nil =>
          simp only [mergeSlots, pure_eq_ok_iff] at h
          obtain ⟨rfl, rfl⟩ := h
          exact ⟨Relation.ReflTransGen.refl, fun v hv => ⟨hphis v hv, .inl hv⟩, hnodup⟩
      | cons e rest =>
          obtain ⟨slot', m₁, slots', hslot, hslots, rfl⟩ := mergeSlots_cons h
          obtain ⟨-, hapart⟩ := mergeSlot_apart hslot hphis hnodup
          rw [phisOf_cons] at hphis hnodup
          obtain ⟨-, hnodup', -⟩ := List.nodup_append.mp hnodup
          obtain ⟨hevolves, hphi⟩ := mergeSlot_frame hslot fun v hv =>
            hphis v (List.mem_append_left _ hv)
          have hle := Module.Evolves.values_le hevolves
          obtain ⟨hevolves', hphis', hnodup''⟩ := ih hslots
            (fun v hv => hevolves.phiOf (hphis v (List.mem_append_right _ hv))) hnodup'
          have hfirst (v : ValueId) (hv : Touched m [slot] v) : Touched m (slot :: slots) v := by
            rw [Touched, phisOf_cons]
            exact hv.imp (List.mem_append_left _) id
          have hrest (v : ValueId) (hv : Touched m₁ slots v) : Touched m (slot :: slots) v := by
            rw [Touched, phisOf_cons]
            exact hv.imp (List.mem_append_right _) (Nat.le_trans hle)
          refine ⟨?_, ?_, ?_⟩
          · refine (hevolves.mono fun c hc => ?_).trans (hevolves'.mono fun c hc => ?_)
            · cases c <;> first | exact hc | exact hfirst _ hc
            · cases c <;> first | exact hc | exact hrest _ hc
          · intro v hv
            rw [phisOf_cons] at hv
            rcases List.mem_append.mp hv with hv | hv
            · exact ⟨hevolves'.phiOf (hphi v hv).1, hfirst v (hphi v hv).2⟩
            · exact ⟨(hphis' v hv).1, hrest v (hphis' v hv).2⟩
          · rw [phisOf_cons]
            refine List.nodup_append.mpr ⟨?_, hnodup'', ?_⟩
            · simp only [phisOf, List.filterMap_cons, List.filterMap_nil]
              split <;> simp
            · rintro v hv w hw rfl
              exact hapart v hv (hphis' v hw).2

/-- Entries are no phis. -/
theorem phisIn_addIncoming {phi value : ValueId} {source : BlockId} {known : List ValueId}
    {u : Unit} (h : Build.addIncoming phi value source m = .ok u m')
    (hphis : m.PhisIn target known) :
    m'.PhisIn target known := by
  obtain ⟨m₁, hfirst, hlast⟩ := Build.addIncoming_cases h
  have hphis₁ : m₁.PhisIn target known := by
    rcases hfirst with rfl | ⟨misuse, rfl, hfits⟩
    · exact hphis
    · exact Module.phisIn_apply (by simp) hfits hphis
  rcases hlast with ⟨misuse, rfl, hfits⟩ | ⟨rfl, hfits⟩
  · exact Module.phisIn_apply (by simp) hfits hphis₁
  · exact Module.phisIn_apply (by simp) hfits hphis₁

theorem phisIn_coerce {value result : ValueId} {type : TypeId} {signed : Bool}
    {known : List ValueId} (h : coerce value type signed m = .ok result m')
    (hphis : m.PhisIn target known) : m'.PhisIn target known := by
  have hkeeps : Keeps (Module.Evolves (Change.Plain noAddress)) (coerce value type signed) :=
    inferInstance
  refine Module.Evolves.phisIn (hkeeps.run h) (fun c hc type heq => ?_) hphis
  subst heq
  exact hc

theorem mergeSlot_phisIn {others : List ValueId}
    (h : mergeSlot asm source target slot e m = .ok slot' m')
    (hphis : m.PhisIn target (phisOf [slot] ++ others)) :
    m'.PhisIn target (phisOf [slot'] ++ others) := by
  obtain ⟨held, state⟩ := slot
  cases state with
  | unvisited =>
      simp only [mergeSlot, pure_eq_ok_iff] at h
      obtain ⟨rfl, rfl⟩ := h
      exact hphis
  | deferred first =>
      obtain ⟨m₁, m₂, signed, value, hadd, -, hcoerce, hadd', rfl, headBlock, hhead⟩ :=
        mergeSlot_deferred h
      have hnew := Module.phisIn_addPhi held.type hphis
      exact phisIn_addIncoming hadd' (phisIn_coerce hcoerce (phisIn_addIncoming hadd hnew))
  | phi =>
      obtain ⟨m₁, signed, value, -, hcoerce, hadd, rfl⟩ := mergeSlot_phi h
      exact phisIn_addIncoming hadd (phisIn_coerce hcoerce hphis)

theorem mergeSlots_phisIn {slots merged : List Slot} {elements : List Element}
    (others : List ValueId) (h : mergeSlots asm source target slots elements m = .ok merged m')
    (hphis : m.PhisIn target (phisOf slots ++ others)) :
    m'.PhisIn target (phisOf merged ++ others) := by
  induction slots generalizing elements m merged others with
  | nil =>
      cases elements with
      | nil =>
          simp only [mergeSlots, pure_eq_ok_iff] at h
          obtain ⟨rfl, rfl⟩ := h
          exact hphis
      | cons e rest =>
          simp only [mergeSlots, pure_eq_ok_iff] at h
          obtain ⟨rfl, rfl⟩ := h
          rwa [phisOf_deferred]
  | cons slot slots ih =>
      cases elements with
      | nil =>
          simp only [mergeSlots, pure_eq_ok_iff] at h
          obtain ⟨rfl, rfl⟩ := h
          exact hphis
      | cons e rest =>
          obtain ⟨slot', m₁, slots', hslot, hslots, rfl⟩ := mergeSlots_cons h
          rw [phisOf_cons, List.append_assoc] at hphis
          have hfirst : m₁.PhisIn target (phisOf slots ++ (phisOf [slot'] ++ others)) := by
            refine (mergeSlot_phisIn hslot hphis).mono fun v hv => ?_
            simp only [List.mem_append] at hv ⊢
            exact or_left_comm.mp hv
          refine (ih _ hslots hfirst).mono fun v hv => ?_
          rw [phisOf_cons, List.append_assoc]
          simp only [List.mem_append] at hv ⊢
          exact or_left_comm.mp hv

/-- One more predecessor for all slots. -/
theorem mergeSlots_holds {slots merged : List Slot} {elements : List Element}
    {arrivals : Nat → List (BlockId × Element)} {block : Block}
    (h : mergeSlots asm source target slots elements m = .ok merged m')
    (hlength : elements.length = slots.length)
    (hholds : ∀ k slot, slots[k]? = some slot → Holds asm m target (arrivals k) slot)
    (hphis : ∀ v ∈ phisOf slots, m.PhiOf target v) (hnodup : (phisOf slots).Nodup)
    (hposition : m.position = some source) (hblock : m.blocks[source.index]? = some block) :
    merged.length = slots.length ∧ ∀ k slot e, merged[k]? = some slot → elements[k]? = some e →
      Holds asm m' target (arrivals k ++ [(source, e)]) slot := by
  induction slots generalizing elements m merged arrivals block with
  | nil =>
      obtain rfl := List.length_eq_zero_iff.mp hlength
      simp only [mergeSlots, pure_eq_ok_iff] at h
      obtain ⟨rfl, rfl⟩ := h
      exact ⟨rfl, by simp⟩
  | cons slot slots ih =>
      cases elements with
      | nil => simp at hlength
      | cons e rest =>
          obtain ⟨slot', m₁, slots', hslot, hslots, rfl⟩ := mergeSlots_cons h
          obtain ⟨hrests, hapart⟩ := mergeSlot_apart hslot hphis hnodup
          rw [phisOf_cons] at hphis hnodup
          obtain ⟨-, hnodup', -⟩ := List.nodup_append.mp hnodup
          obtain ⟨hevolves, -⟩ := mergeSlot_frame hslot fun v hv =>
            hphis v (List.mem_append_left _ hv)
          have hfirst := mergeSlot_holds hslot (hholds 0 slot rfl) hposition hblock
          obtain ⟨block₁, hblock₁, -⟩ := hevolves.grows hblock
          have hphis' (v : ValueId) (hv : v ∈ phisOf slots) : m₁.PhiOf target v :=
            hevolves.phiOf (hphis v (List.mem_append_right _ hv))
          -- The other slots still hold what they held, as the first step left their phis alone.
          have hothers (k : Nat) (other : Slot) (hother : slots[k]? = some other) :
              Holds asm m₁ target (arrivals (k + 1)) other := by
            refine (hholds (k + 1) other hother).mono (evolves_of_merges hevolves)
              fun hstate v hv => value_of_untouched hevolves (hrests _ ?_) hv
            refine List.mem_filterMap.mpr ⟨other, List.mem_of_getElem? hother, ?_⟩
            rw [if_pos hstate]
          obtain ⟨hlength', hrest⟩ := ih hslots (by simpa using hlength) hothers hphis' hnodup'
            ((position_of_merges hevolves).trans hposition) hblock₁
          obtain ⟨hevolves', -, -⟩ := mergeSlots_frame hslots hphis' hnodup'
          refine ⟨by simp [hlength'], fun k merged₁ e₁ hmerged he => ?_⟩
          cases k with
          | succ k => exact hrest k merged₁ e₁ (by simpa using hmerged) (by simpa using he)
          | zero =>
              obtain rfl : slot' = merged₁ := by simpa using hmerged
              obtain rfl : e = e₁ := by simpa using he
              -- And the first slot holds what it holds by now while the others are merged.
              refine hfirst.mono (evolves_of_merges hevolves')
                fun hstate v hv => value_of_untouched hevolves' (hapart _ ?_) hv
              simp [phisOf, hstate]

end Slots

end Lowering

end CilSsa
