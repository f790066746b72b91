import Mathlib.Data.List.Nodup
import CilSsa.Proofs.Merging

/-!
The stack of a leader and the edges that it was made of.

Every edge that is emitted brings the stack at the end of its block along.  As long as all edges
into a leader bring stacks of the same height, the stack of the leader holds in each slot what the
edges have brought for it.
-/

namespace CilSsa.Lowering

open CilSsa.Metadata CilSsa.Ssa

/-- An edge from the end of a block to the leader at a position, with the stack it brings. -/
structure Edge where
  target : Nat
  source : BlockId
  elements : List Element

def edgesInto (edges : List Edge) (position : Nat) : List Edge :=
  edges.filter fun x => x.target = position

/-- What edges bring for a slot. -/
def column (k : Nat) (edges : List Edge) : List (BlockId × Element) :=
  edges.filterMap fun x => x.elements[k]?.map fun e => (x.source, e)

/-- Whether edges bring stacks of the same height. -/
def Level (edges : List Edge) : Prop :=
  ∀ x ∈ edges, ∀ y ∈ edges, x.elements.length = y.elements.length

section Columns

variable {edges : List Edge} {x : Edge} {k : Nat} {e : Element}

theorem edgesInto_append_self (h : x.target = k) :
    edgesInto (edges ++ [x]) k = edgesInto edges k ++ [x] := by
  simp [edgesInto, h]

theorem edgesInto_append_other (h : x.target ≠ k) :
    edgesInto (edges ++ [x]) k = edgesInto edges k := by
  simp [edgesInto, h]

theorem mem_edgesInto : x ∈ edgesInto edges k ↔ x ∈ edges ∧ x.target = k := by
  simp [edgesInto]

theorem column_append (h : x.elements[k]? = some e) :
    column k (edges ++ [x]) = column k edges ++ [(x.source, e)] := by
  simp [column, h]

theorem mem_column {p : BlockId} :
    (p, e) ∈ column k edges ↔ ∃ x ∈ edges, x.source = p ∧ x.elements[k]? = some e := by
  simp only [column, List.mem_filterMap, Option.map_eq_some_iff, Prod.mk.injEq]
  constructor
  · rintro ⟨x, hx, e', he', rfl, rfl⟩
    exact ⟨x, hx, rfl, he'⟩
  · rintro ⟨x, hx, rfl, he⟩
    exact ⟨x, hx, e, he, rfl, rfl⟩

/-- Below the common height every edge brings something. -/
theorem length_column (hlevel : ∀ x ∈ edges, k < x.elements.length) :
    (column k edges).length = edges.length := by
  induction edges with
  | nil => rfl
  | cons x rest ih =>
      obtain ⟨e, hk⟩ : ∃ e, x.elements[k]? = some e :=
        ⟨_, List.getElem?_eq_getElem (hlevel x List.mem_cons_self)⟩
      have hrest := ih fun y hy => hlevel y (List.mem_cons_of_mem x hy)
      simp only [column, List.filterMap_cons, hk, Option.map_some, List.length_cons] at hrest ⊢
      rw [hrest]

theorem Level.of_append {more : List Edge} (h : Level (edges ++ more)) : Level edges :=
  fun x hx y hy => h x (List.mem_append_left _ hx) y (List.mem_append_left _ hy)

/-- The sources of what is brought for a slot are those of the edges. -/
theorem pairwise_column (h : edges.Pairwise fun x y => x.source ≠ y.source) :
    ((column k edges).map Prod.fst).Nodup := by
  rw [List.Nodup, List.pairwise_map]
  refine List.Pairwise.filterMap _ (fun x y hne a ha b hb => ?_) h
  obtain ⟨e, -, rfl⟩ := Option.map_eq_some_iff.mp ha
  obtain ⟨e', -, rfl⟩ := Option.map_eq_some_iff.mp hb
  exact hne

end Columns

/-- Whether the stack of a leader is what its edges have brought. -/
structure Collects (asm : Assembly) (m : Module) (l : Leader) (edges : List Edge) : Prop where
  exist : ∀ e ∈ l.incoming.elements, e.value.index < m.values.size
  phis : ∀ v ∈ phisOf l.incoming.slots, m.PhiOf l.block v
  nodup : (phisOf l.incoming.slots).Nodup
  own : m.PhisIn l.block (phisOf l.incoming.slots)
  empty : edges = [] → l.incoming.slots = []
  single : l.refers ≤ 1 → l.incoming = .ofElements (edges.flatMap Edge.elements)
  height : 1 < l.refers → Level edges → ∀ x ∈ edges, l.incoming.slots.length = x.elements.length
  holds : 1 < l.refers → Level edges → ∀ k slot, l.incoming.slots[k]? = some slot →
    Holds asm m l.block (column k edges) slot

section Collecting

variable {asm : Assembly} {m m' : Module} {l : Leader} {edges : List Edge}

/-- What a leader has collected stays as long as its phis get no entries. -/
theorem Collects.mono (h : Collects asm m l edges) (hevolves : m.Evolves Change.Any m')
    (hphis : ∀ id ∈ phisOf l.incoming.slots, ∀ {v : Value}, m.values[id.index]? = some v →
      m'.values[id.index]? = some v)
    (hown : ∀ {known : List ValueId}, m.PhisIn l.block known → m'.PhisIn l.block known) :
    Collects asm m' l edges where
  exist e he := Nat.lt_of_lt_of_le (h.exist e he) hevolves.values_le
  phis v hv := hevolves.phiOf (h.phis v hv)
  nodup := h.nodup
  own := hown h.own
  empty := h.empty
  single := h.single
  height := h.height
  holds hrefers hlevel k slot hslot := by
    refine (h.holds hrefers hlevel k slot hslot).mono hevolves fun hstate v hv => ?_
    refine hphis _ ?_ hv
    exact List.mem_filterMap.mpr ⟨slot, List.mem_of_getElem? hslot, by rw [if_pos hstate]⟩

theorem Collects.of_merges {other : Leader} (h : Collects asm m l edges)
    (hne : l.block ≠ other.block) (hphis : ∀ v ∈ phisOf other.incoming.slots, m.PhiOf other.block v)
    (hevolves : m.Evolves (Change.Merges other.block (Touched m other.incoming.slots)) m') :
    Collects asm m' l edges := by
  refine h.mono (evolves_of_merges hevolves) (fun id hid v hv => ?_)
    (hevolves.phisIn fun c hc type heq => ?_)
  · refine value_of_untouched hevolves ?_ hv
    rintro (hother | hnew)
    · exact hne ((h.phis id hid).unique (hphis id hother))
    · have hlt := (h.phis id hid).lt
      omega
  · subst heq
    exact hne hc

open EvalStack in
/-- A slot after a merge is as it was, holds the new element, or holds a phi. -/
theorem mergeSlot_origin {source target : BlockId} {slot slot' : Slot} {e : Element}
    (h : mergeSlot asm source target slot e m = .ok slot' m') :
    slot' = slot ∨ slot'.element = e ∨ slot'.state = .phi := by
  obtain ⟨held, state⟩ := slot
  cases state with
  | unvisited =>
      simp only [mergeSlot, pure_eq_ok_iff] at h
      obtain ⟨rfl, -⟩ := h
      exact .inr (.inl rfl)
  | deferred first =>
      obtain ⟨_, _, _, _, -, -, -, -, rfl, -⟩ := mergeSlot_deferred h
      exact .inr (.inr rfl)
  | phi =>
      obtain ⟨_, _, _, -, -, -, rfl⟩ := mergeSlot_phi h
      exact .inl rfl

open EvalStack in
theorem mergeSlots_origin {source target : BlockId} {slots merged : List Slot}
    {elements : List Element} (h : mergeSlots asm source target slots elements m = .ok merged m')
    {slot : Slot} (hslot : slot ∈ merged) :
    slot ∈ slots ∨ slot.element ∈ elements ∨ slot.state = .phi := by
  induction slots generalizing elements m merged with
  | nil =>
      cases elements with
      | nil =>
          simp only [mergeSlots, pure_eq_ok_iff] at h
          obtain ⟨rfl, rfl⟩ := h
          exact .inl hslot
      | cons e rest =>
          simp only [mergeSlots, pure_eq_ok_iff] at h
          obtain ⟨rfl, rfl⟩ := h
          obtain ⟨e', he', rfl⟩ := List.mem_map.mp hslot
          exact .inr (.inl he')
  | cons first slots ih =>
      cases elements with
      | nil =>
          simp only [mergeSlots, pure_eq_ok_iff] at h
          obtain ⟨rfl, rfl⟩ := h
          exact .inl hslot
      | cons e rest =>
          obtain ⟨slot', m₁, slots', hfirst, hrest, rfl⟩ := mergeSlots_cons h
          rcases List.mem_cons.mp hslot with rfl | hslot
          · rcases mergeSlot_origin hfirst with rfl | rfl | hphi
            · exact .inl List.mem_cons_self
            · exact .inr (.inl List.mem_cons_self)
            · exact .inr (.inr hphi)
          · rcases ih hrest hslot with hold | hnew | hphi
            · exact .inl (List.mem_cons_of_mem _ hold)
            · exact .inr (.inl (List.mem_cons_of_mem _ hnew))
            · exact .inr (.inr hphi)

open EvalStack in
/-- Slots that hold phis keep them. -/
theorem mergeSlots_of_phis {source target : BlockId} {slots merged : List Slot}
    {elements : List Element} (h : mergeSlots asm source target slots elements m = .ok merged m')
    (hphis : ∀ slot ∈ slots, slot.state = .phi) (hlength : elements.length = slots.length) :
    merged = slots := by
  induction slots generalizing elements m merged with
  | nil =>
      obtain rfl := List.length_eq_zero_iff.mp hlength
      exact (pure_eq_ok_iff.mp h).1
  | cons first slots ih =>
      cases elements with
      | nil => simp at hlength
      | cons e rest =>
          obtain ⟨slot', m₁, slots', hfirst, hrest, rfl⟩ := mergeSlots_cons h
          obtain ⟨held, state⟩ := first
          obtain rfl : state = .phi := hphis _ List.mem_cons_self
          obtain ⟨_, _, _, -, -, -, rfl⟩ := mergeSlot_phi hfirst
          rw [ih hrest (fun slot hslot => hphis slot (List.mem_cons_of_mem _ hslot))
            (by simpa using hlength)]

/-- The two ways of a merge: values are passed on as they are, or slot by slot. -/
theorem merge_cases {s stack incoming : EvalStack} {source target : BlockId} {refers : Nat}
    (h : s.merge asm stack source target refers m = .ok incoming m') :
    (refers ≤ 1 ∧ incoming = ⟨s.slots ++ (EvalStack.ofElements stack.elements).slots⟩ ∧ m' = m) ∨
      (1 < refers ∧ ∃ merged,
        EvalStack.mergeSlots asm source target s.slots
          (stack.elements.drop (s.surplus stack)) m = .ok merged m' ∧
        incoming = ⟨(stack.elements.take (s.surplus stack)).map (⟨·, .deferred source⟩) ++ merged⟩)
    := by
  rw [EvalStack.merge] at h
  split at h
  · rename_i hrefers
    obtain ⟨rfl, rfl⟩ := pure_eq_ok_iff.mp h
    exact .inl ⟨hrefers, rfl, rfl⟩
  · rename_i hrefers
    simp only [bind_eq_ok_iff, pure_eq_ok_iff] at h
    obtain ⟨merged, _, hmerged, rfl, rfl⟩ := h
    exact .inr ⟨by omega, merged, hmerged, rfl⟩

theorem phisOf_append (slots more : List Slot) :
    phisOf (slots ++ more) = phisOf slots ++ phisOf more := by
  simp [phisOf]

theorem phisOf_ofElements (elements : List Element) :
    phisOf (EvalStack.ofElements elements).slots = [] := by
  simp [phisOf, EvalStack.ofElements, List.filterMap_map]

/-- Nothing is below the slots of stacks of the same height. -/
theorem surplus_of_level {stack : EvalStack} {source : BlockId} (hc : Collects asm m l edges)
    (hrefers : 1 < l.refers) (hlevel : Level (edges ++ [⟨l.index, source, stack.elements⟩])) :
    l.incoming.surplus stack = 0 := by
  unfold EvalStack.surplus
  cases edges with
  | nil => simp [hc.empty rfl]
  | cons x rest =>
      have hheight := hc.height hrefers hlevel.of_append x List.mem_cons_self
      have hsame := hlevel x (by simp) ⟨l.index, source, stack.elements⟩ (by simp)
      rw [EvalStack.length_elements] at hsame
      split
      · rfl
      · simp only [EvalStack.size] at hsame ⊢
        omega

theorem Collects.merge_single {stack incoming : EvalStack} {source : BlockId}
    (hc : Collects asm m l edges) (hrefers : l.refers ≤ 1)
    (hexist : ∀ e ∈ stack.elements, e.value.index < m.values.size)
    (hincoming : incoming = ⟨l.incoming.slots ++ (EvalStack.ofElements stack.elements).slots⟩) :
    Collects asm m { l with incoming } (edges ++ [⟨l.index, source, stack.elements⟩]) := by
  subst hincoming
  have hphis : phisOf (l.incoming.slots ++ (EvalStack.ofElements stack.elements).slots) =
      phisOf l.incoming.slots := by
    rw [phisOf_append, phisOf_ofElements, List.append_nil]
  refine ⟨?_, ?_, ?_, ?_, by simp, ?_, fun h => ?_, fun h => ?_⟩
  · intro e he
    have hsplit : e ∈ l.incoming.elements ∨ e ∈ (EvalStack.ofElements stack.elements).elements := by
      simpa [EvalStack.elements] using he
    rw [EvalStack.elements_ofElements] at hsplit
    exact hsplit.elim (hc.exist e) (hexist e)
  · rw [hphis]
    exact hc.phis
  · rw [hphis]
    exact hc.nodup
  · rw [hphis]
    exact hc.own
  · intro _
    rw [hc.single hrefers]
    simp [EvalStack.ofElements]
  · exact absurd h (Nat.not_lt.mpr hrefers)
  · exact absurd h (Nat.not_lt.mpr hrefers)

/-- The first edge makes no phis. -/
theorem mergeSlots_nil {source target : BlockId} {merged : List Slot} {elements : List Element}
    (h : EvalStack.mergeSlots asm source target [] elements m = .ok merged m') :
    merged = elements.map (⟨·, .deferred source⟩) ∧ m' = m := by
  cases elements <;> exact pure_eq_ok_iff.mp h

/-- One more edge of the same height. -/
theorem Collects.merge_level {stack : EvalStack} {source : BlockId} {block : Block}
    {merged : List Slot} (hc : Collects asm m l edges) (hrefers : 1 < l.refers)
    (hlevel : Level (edges ++ [⟨l.index, source, stack.elements⟩]))
    (h : EvalStack.mergeSlots asm source l.block l.incoming.slots stack.elements m = .ok merged m')
    (hposition : m.position = some source) (hblock : m.blocks[source.index]? = some block) :
    merged.length = stack.elements.length ∧ ∀ k slot, merged[k]? = some slot →
      Holds asm m' l.block (column k (edges ++ [⟨l.index, source, stack.elements⟩])) slot := by
  cases edges with
  | nil =>
      rw [hc.empty rfl] at h
      obtain ⟨rfl, rfl⟩ := mergeSlots_nil h
      refine ⟨by simp, fun k slot hslot => ?_⟩
      obtain ⟨e, he, rfl⟩ : ∃ e, stack.elements[k]? = some e ∧ ⟨e, .deferred source⟩ = slot := by
        simpa using hslot
      rw [column_append (e := e) he]
      exact .first source e
  | cons x rest =>
      have hheight := hc.height hrefers hlevel.of_append x List.mem_cons_self
      have hsame := hlevel x (by simp) ⟨l.index, source, stack.elements⟩ (by simp)
      obtain ⟨hlength, hholds⟩ := mergeSlots_holds h (hsame.symm.trans hheight.symm)
        (hc.holds hrefers hlevel.of_append) hc.phis hc.nodup hposition hblock
      refine ⟨hlength.trans (hheight.trans hsame), fun k slot hslot => ?_⟩
      have hk : k < stack.elements.length := by
        have := (List.getElem?_eq_some_iff.mp hslot).1
        simp only at hsame
        omega
      obtain ⟨e, he⟩ : ∃ e, stack.elements[k]? = some e := ⟨_, List.getElem?_eq_getElem hk⟩
      rw [column_append (e := e) he]
      exact hholds k slot e hslot he

/-- One more edge into a leader. -/
theorem Collects.merge {stack incoming : EvalStack} {source : BlockId} {block : Block}
    (hc : Collects asm m l edges)
    (h : l.incoming.merge asm stack source l.block l.refers m = .ok incoming m')
    (hexist : ∀ e ∈ stack.elements, e.value.index < m.values.size)
    (hposition : m.position = some source) (hblock : m.blocks[source.index]? = some block) :
    m.Evolves (Change.Merges l.block (Touched m l.incoming.slots)) m' ∧
      Collects asm m' { l with incoming } (edges ++ [⟨l.index, source, stack.elements⟩]) ∧
      (edges = [] → m' = m) := by
  rcases merge_cases h with ⟨hrefers, hincoming, rfl⟩ | ⟨hrefers, merged, hmerged, rfl⟩
  · exact ⟨Relation.ReflTransGen.refl, hc.merge_single hrefers hexist hincoming, fun _ => rfl⟩
  · obtain ⟨hevolves, hphis, hnodup⟩ := mergeSlots_frame hmerged hc.phis hc.nodup
    have hphisOf : phisOf ((stack.elements.take (l.incoming.surplus stack)).map
        (⟨·, .deferred source⟩) ++ merged) = phisOf merged := by
      rw [phisOf_append, phisOf_deferred, List.nil_append]
    have hle := hevolves.values_le
    refine ⟨hevolves, ⟨?_, ?_, ?_, ?_, by simp, fun h => ?_, ?_, ?_⟩, ?_⟩
    · intro e he
      obtain ⟨slot, hslot, rfl⟩ := List.mem_map.mp he
      rcases List.mem_append.mp hslot with hbottom | hslot
      · obtain ⟨e, hmem, rfl⟩ := List.mem_map.mp hbottom
        exact Nat.lt_of_lt_of_le (hexist e (List.mem_of_mem_take hmem)) hle
      · rcases mergeSlots_origin hmerged hslot with hold | hnew | hphi
        · exact Nat.lt_of_lt_of_le (hc.exist _ (List.mem_map_of_mem hold)) hle
        · exact Nat.lt_of_lt_of_le (hexist _ (List.mem_of_mem_drop hnew)) hle
        · exact (hphis _ (List.mem_filterMap.mpr ⟨slot, hslot, by rw [if_pos hphi]⟩)).1.lt
    · rw [hphisOf]
      exact fun v hv => (hphis v hv).1
    · rw [hphisOf]
      exact hnodup
    · rw [hphisOf]
      have hown := mergeSlots_phisIn [] hmerged (by simpa using hc.own)
      simpa using hown
    · exact absurd hrefers (Nat.not_lt.mpr h)
    · intro _ hlevel x hx
      rw [surplus_of_level hc hrefers hlevel] at hmerged ⊢
      obtain ⟨hlength, -⟩ := hc.merge_level hrefers hlevel hmerged hposition hblock
      simpa [hlength] using hlevel ⟨l.index, source, stack.elements⟩ (by simp) x hx
    · intro _ hlevel k slot hslot
      rw [surplus_of_level hc hrefers hlevel] at hmerged hslot
      obtain ⟨-, hholds⟩ := hc.merge_level hrefers hlevel hmerged hposition hblock
      exact hholds k slot hslot
    · intro hnone
      rw [hc.empty hnone] at hmerged
      exact (mergeSlots_nil hmerged).2

/-- Once two edges have arrived, the slots stay. -/
theorem Collects.merge_same {stack incoming : EvalStack} {source : BlockId}
    (hc : Collects asm m l edges)
    (h : l.incoming.merge asm stack source l.block l.refers m = .ok incoming m')
    (hrefers : 1 < l.refers) (hlevel : Level (edges ++ [⟨l.index, source, stack.elements⟩]))
    (hseveral : 1 < edges.length) : incoming = l.incoming := by
  rcases merge_cases h with ⟨hle, -, -⟩ | ⟨-, merged, hmerged, rfl⟩
  · omega
  · rw [surplus_of_level hc hrefers hlevel] at hmerged ⊢
    have hheight := hc.height hrefers hlevel.of_append
    have hphis : ∀ slot ∈ l.incoming.slots, slot.state = .phi := by
      intro slot hslot
      obtain ⟨k, hk⟩ := List.getElem?_of_mem hslot
      have hlt := (List.getElem?_eq_some_iff.mp hk).1
      have hlength := length_column fun x hx => hheight x hx ▸ hlt
      have hholds := hc.holds hrefers hlevel.of_append k slot hk
      generalize column k edges = arrivals at hholds hlength
      cases hholds with
      | first source e =>
          rw [List.length_singleton] at hlength
          omega
      | phi several head value stands => rfl
    have hlength : stack.elements.length = l.incoming.slots.length := by
      obtain ⟨x, hx⟩ := List.exists_mem_of_length_pos (Nat.zero_lt_of_lt hseveral)
      have hsame := hlevel x (by simp [hx]) ⟨l.index, source, stack.elements⟩ (by simp)
      exact hsame.symm.trans (hheight x hx).symm
    rw [mergeSlots_of_phis hmerged hphis hlength]
    rfl

/-- The first edge into a leader leaves its stack there as it is. -/
theorem Collects.elements_of_single {x : Edge} (h : Collects asm m l [x]) :
    l.incoming.elements = x.elements := by
  by_cases hrefers : l.refers ≤ 1
  · rw [h.single hrefers]
    simp
  · have hlevel : Level [x] := by simp [Level]
    have hheight := h.height (Nat.lt_of_not_le hrefers) hlevel x List.mem_cons_self
    refine List.ext_getElem? fun k => ?_
    rw [EvalStack.elements, List.getElem?_map]
    cases hslot : l.incoming.slots[k]? with
    | none =>
        rw [List.getElem?_eq_none_iff, hheight] at hslot
        rw [List.getElem?_eq_none hslot, Option.map_none]
    | some slot =>
        have hholds := h.holds (Nat.lt_of_not_le hrefers) hlevel k slot hslot
        have hk : k < x.elements.length := hheight ▸ (List.getElem?_eq_some_iff.mp hslot).1
        obtain ⟨e, he⟩ : ∃ e, x.elements[k]? = some e := ⟨_, List.getElem?_eq_getElem hk⟩
        have hcolumn : column k [x] = [(x.source, e)] := by simp [column, he]
        rw [hcolumn] at hholds
        cases hholds with
        | first source e => rw [he, Option.map_some]
        | phi several head value stands => simp at several

/-- The entries of a phi are for the predecessors that have arrived. -/
theorem sources_of_stands {type : TypeId} {arrivals : List (BlockId × Element)}
    {entries : List (ValueId × BlockId)} (h : List.Forall₂ (Stands asm m type) arrivals entries) :
    entries.map Prod.snd = arrivals.map Prod.fst := by
  induction h with
  | nil => rfl
  | cons hfirst _ ih => rw [List.map_cons, List.map_cons, ih, hfirst.1]

/-- From the second edge on, each slot has its phi, with one entry for each edge. -/
theorem Collects.phi_of_several {x : Edge} {k : Nat} {e : Element} (h : Collects asm m l edges)
    (hrefers : 1 < l.refers) (hlevel : Level edges) (hseveral : 1 < edges.length)
    (hdistinct : edges.Pairwise fun x y => x.source ≠ y.source) (hx : x ∈ edges)
    (he : x.elements[k]? = some e) :
    ∃ e' type entries v, l.incoming.elements[k]? = some e' ∧ e'.value ∈ m.heads l.block ∧
      m.values[e'.value.index]? = some ⟨type, .inst (some l.block) (.phi entries)⟩ ∧
      (∀ w, (w, x.source) ∈ entries ↔ w = v) ∧ Stands asm m type (x.source, e) (v, x.source) := by
  have hk : k < l.incoming.slots.length := by
    rw [h.height hrefers hlevel x hx]
    exact (List.getElem?_eq_some_iff.mp he).1
  obtain ⟨slot, hslot⟩ : ∃ slot, l.incoming.slots[k]? = some slot :=
    ⟨_, List.getElem?_eq_getElem hk⟩
  have hlength : (column k edges).length = edges.length :=
    length_column fun y hy => h.height hrefers hlevel y hy ▸ hk
  have hnodup := pairwise_column (k := k) hdistinct
  have hmem : (x.source, e) ∈ column k edges := mem_column.mpr ⟨x, hx, rfl, he⟩
  have hholds := h.holds hrefers hlevel k slot hslot
  generalize column k edges = arrivals at hholds hlength hnodup hmem
  cases hholds with
  | first source e =>
      rw [List.length_singleton] at hlength
      omega
  | @phi _ phi sig type entries several head value stands =>
      rw [← sources_of_stands stands] at hnodup
      obtain ⟨⟨v, source⟩, hv, hstands⟩ := exists_mem_of_forall₂ stands hmem
      obtain rfl : source = x.source := hstands.1
      refine ⟨⟨phi, sig, type⟩, type, entries, v, ?_, head, value, fun w => ?_, hstands⟩
      · rw [EvalStack.elements, List.getElem?_map, hslot]
        rfl
      · constructor
        · intro hw
          have heq := List.inj_on_of_nodup_map hnodup hw hv rfl
          exact congrArg Prod.fst heq
        · rintro rfl
          exact hv

end Collecting

end CilSsa.Lowering
