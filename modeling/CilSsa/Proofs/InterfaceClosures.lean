import Mathlib.Algebra.BigOperators.Fin
import Mathlib.Algebra.Order.BigOperators.Group.Finset
import CilSsa.Proofs.BaseChains

/-!
The interfaces of a type, collected depth first.

A walk through interfaces enters each one once, lists it, and goes through the ones that it names
before it goes on.  The walk of a type goes through its own interfaces and then through those of its
bases, and passes over what was met on the way.  So what a base adds is what its own walk finds, in
that order, without what was found below.
-/

namespace CilSsa.Metadata.Assembly

variable {asm : Assembly} {ty base iface : TypeDefId} {found found' pending : List TypeDefId}

def HasInterface (asm : Assembly) (ty iface : TypeDefId) : Prop :=
  ∃ d, asm.typeDef ty = .ok d ∧ iface ∈ d.interfaces

variable (asm) in
def ownInterfaces (ty : TypeDefId) : List TypeDefId :=
  match asm.typeDef ty with
  | .ok d => d.interfaces
  | .error _ => []

theorem ownInterfaces_of_ok {d : TypeDef} (hd : asm.typeDef ty = .ok d) :
    asm.ownInterfaces ty = d.interfaces := by
  rw [ownInterfaces, hd]

theorem mem_ownInterfaces : iface ∈ asm.ownInterfaces ty ↔ asm.HasInterface ty iface := by
  unfold ownInterfaces HasInterface
  cases asm.typeDef ty <;> simp

section Walks

/-- A depth-first walk through `pending` that met `found` before it and has met `found'` at its end,
both in the order in which they were met. -/
inductive DepthFirst (asm : Assembly) :
    List TypeDefId → List TypeDefId → List TypeDefId → Prop
  | done {found : List TypeDefId} : DepthFirst asm found [] found
  | pass {found pending found' : List TypeDefId} {ty : TypeDefId} : ty ∈ found →
      DepthFirst asm found pending found' → DepthFirst asm found (ty :: pending) found'
  | enter {found within pending found' : List TypeDefId} {ty : TypeDefId} : ty ∉ found →
      DepthFirst asm (found ++ [ty]) (asm.ownInterfaces ty) within →
      DepthFirst asm within pending found' → DepthFirst asm found (ty :: pending) found'

namespace DepthFirst

/-- A walk has one outcome. -/
theorem unique {other : List TypeDefId} (h : asm.DepthFirst found pending found')
    (hother : asm.DepthFirst found pending other) : found' = other := by
  induction h generalizing other with
  | done => cases hother with | done => rfl
  | pass hmet _ ih =>
      cases hother with
      | pass _ hother => exact ih hother
      | enter hnew => exact absurd hmet hnew
  | enter hnew _ _ ihWithin ihRest =>
      cases hother with
      | pass hmet => exact absurd hmet hnew
      | enter _ hwithin hrest =>
          obtain rfl := ihWithin hwithin
          exact ihRest hrest

theorem append {first second between : List TypeDefId}
    (h : asm.DepthFirst found first between) (hsecond : asm.DepthFirst between second found') :
    asm.DepthFirst found (first ++ second) found' := by
  induction h with
  | done => exact hsecond
  | pass hmet _ ih => exact .pass hmet (ih hsecond)
  | enter hnew hwithin _ _ ih => exact .enter hnew hwithin (ih hsecond)

/-- A walk through one list and then another is two walks. -/
theorem split {first second : List TypeDefId}
    (h : asm.DepthFirst found (first ++ second) found') : ∃ between,
      asm.DepthFirst found first between ∧ asm.DepthFirst between second found' := by
  generalize hall : first ++ second = all at h
  induction h generalizing first with
  | @done found =>
      obtain ⟨rfl, rfl⟩ := List.append_eq_nil_iff.mp hall
      exact ⟨found, .done, .done⟩
  | @pass found pending found' ty hmet hrest ih =>
      rcases List.append_eq_cons_iff.mp hall with ⟨rfl, rfl⟩ | ⟨rest, rfl, rfl⟩
      · exact ⟨found, .done, .pass hmet hrest⟩
      · obtain ⟨between, hfirst, hsecond⟩ := ih rfl
        exact ⟨between, .pass hmet hfirst, hsecond⟩
  | @enter found within pending found' ty hnew hwithin hrest _ ih =>
      rcases List.append_eq_cons_iff.mp hall with ⟨rfl, rfl⟩ | ⟨rest, rfl, rfl⟩
      · exact ⟨found, .done, .enter hnew hwithin hrest⟩
      · obtain ⟨between, hfirst, hsecond⟩ := ih rfl
        exact ⟨between, .enter hnew hwithin hfirst, hsecond⟩

/-- A walk adds types that it had not met, each once, and each reached from `pending`. -/
theorem adds (h : asm.DepthFirst found pending found') : ∃ added, found' = found ++ added ∧
    added.Nodup ∧ ∀ iface ∈ added, iface ∉ found ∧
      ∃ start ∈ pending, Relation.ReflTransGen asm.HasInterface start iface := by
  induction h with
  | done => exact ⟨[], by simp⟩
  | pass _ _ ih =>
      obtain ⟨added, heq, hnodup, hadded⟩ := ih
      refine ⟨added, heq, hnodup, fun iface hmem => ?_⟩
      obtain ⟨hnew, start, hstart, hpath⟩ := hadded iface hmem
      exact ⟨hnew, start, List.mem_cons_of_mem _ hstart, hpath⟩
  | @enter found within pending found' ty hnew _ _ ihWithin ihRest =>
      obtain ⟨below, rfl, hbelow, hreached⟩ := ihWithin
      obtain ⟨later, rfl, hlater, hrest⟩ := ihRest
      refine ⟨ty :: (below ++ later), by simp, ?_, ?_⟩
      · refine List.nodup_cons.mpr ⟨?_, hbelow.append hlater ?_⟩
        · intro hmem
          rcases List.mem_append.mp hmem with hmem | hmem
          · exact (hreached ty hmem).1 (by simp)
          · exact (hrest ty hmem).1 (by simp)
        · intro iface hmem hmem'
          exact (hrest iface hmem').1 (by simp [hmem])
      · rintro iface hmem
        rcases List.mem_cons.mp hmem with rfl | hmem
        · exact ⟨hnew, iface, List.mem_cons_self, .refl⟩
        rcases List.mem_append.mp hmem with hmem | hmem
        · obtain ⟨hunmet, start, hstart, hpath⟩ := hreached iface hmem
          exact ⟨fun hmet => hunmet (List.mem_append_left _ hmet), ty, List.mem_cons_self,
            .head (mem_ownInterfaces.mp hstart) hpath⟩
        · obtain ⟨hunmet, start, hstart, hpath⟩ := hrest iface hmem
          exact ⟨fun hmet => hunmet (by simp [hmet]), start, List.mem_cons_of_mem _ hstart, hpath⟩

theorem mem_of_mem (h : asm.DepthFirst found pending found') (hmet : iface ∈ found) :
    iface ∈ found' := by
  obtain ⟨added, rfl, -⟩ := h.adds
  exact List.mem_append_left _ hmet

/-- A walk has met what it went through, and what the types that it added name. -/
theorem closed (h : asm.DepthFirst found pending found') : (∀ iface ∈ pending, iface ∈ found') ∧
    ∀ t ∈ found', t ∉ found → ∀ iface, asm.HasInterface t iface → iface ∈ found' := by
  induction h with
  | done => exact ⟨by simp, fun t ht hnew => absurd ht hnew⟩
  | pass hmet hrest ih =>
      exact ⟨List.forall_mem_cons.mpr ⟨hrest.mem_of_mem hmet, ih.1⟩, ih.2⟩
  | @enter found within pending found' ty hnew hwithin hrest ihWithin ihRest =>
      have hty : ty ∈ within := hwithin.mem_of_mem (by simp)
      refine ⟨List.forall_mem_cons.mpr ⟨hrest.mem_of_mem hty, ihRest.1⟩, ?_⟩
      intro t ht hunmet iface hiface
      by_cases hin : t ∈ within
      · refine hrest.mem_of_mem ?_
        by_cases heq : t = ty
        · exact ihWithin.1 iface (mem_ownInterfaces.mpr (heq ▸ hiface))
        · exact ihWithin.2 t hin (by simp [hunmet, heq]) iface hiface
      · exact ihRest.2 t ht hin iface hiface

/-- A walk that starts afresh meets exactly what is reached. -/
theorem mem_iff (h : asm.DepthFirst [] pending found) :
    iface ∈ found ↔ ∃ start ∈ pending, Relation.ReflTransGen asm.HasInterface start iface := by
  constructor
  · intro hmem
    obtain ⟨added, rfl, -, hadded⟩ := h.adds
    exact (hadded iface hmem).2
  · rintro ⟨start, hstart, hpath⟩
    induction hpath with
    | refl => exact h.closed.1 start hstart
    | tail _ hiface ih => exact h.closed.2 _ ih List.not_mem_nil _ hiface

theorem nodup (h : asm.DepthFirst [] pending found) : found.Nodup := by
  obtain ⟨added, rfl, hnodup, -⟩ := h.adds
  exact hnodup

/-- A walk through what was met adds nothing. -/
theorem of_met {met : List TypeDefId} (hmet : ∀ iface ∈ pending, iface ∈ met) :
    asm.DepthFirst met pending met := by
  induction pending with
  | nil => exact .done
  | cons ty pending ih =>
      obtain ⟨hty, hpending⟩ := List.forall_mem_cons.mp hmet
      exact .pass hty (ih hpending)

section Closed

variable {met : List TypeDefId}
variable (hclosed : ∀ t ∈ met, ∀ iface, asm.HasInterface t iface → iface ∈ met)
include hclosed

/-- A walk from types of a closed list stays in it. -/
theorem filter_eq (h : asm.DepthFirst found pending found')
    (hpending : ∀ iface ∈ pending, iface ∈ met) :
    found'.filter (· ∉ met) = found.filter (· ∉ met) := by
  obtain ⟨added, rfl, -, hadded⟩ := h.adds
  have hmet : ∀ iface ∈ added, iface ∈ met := by
    intro iface hmem
    obtain ⟨-, start, hstart, hpath⟩ := hadded iface hmem
    clear hmem
    induction hpath with
    | refl => exact hpending start hstart
    | tail _ hiface ih => exact hclosed _ ih _ hiface
  have hnone : added.filter (· ∉ met) = [] := List.filter_eq_nil_iff.mpr (by simpa using hmet)
  rw [List.filter_append, hnone, List.append_nil]

/-- A walk after a closed list was met adds what it adds otherwise, without that list. -/
theorem after_met (h : asm.DepthFirst found pending found') :
    asm.DepthFirst (met ++ found.filter (· ∉ met)) pending (met ++ found'.filter (· ∉ met)) := by
  induction h with
  | done => exact .done
  | @pass found pending found' ty hmet _ ih =>
      refine .pass ?_ ih
      by_cases hin : ty ∈ met
      · exact List.mem_append_left _ hin
      · exact List.mem_append_right _ (List.mem_filter.mpr ⟨hmet, by simpa using hin⟩)
  | @enter found within pending found' ty hnew hwithin _ ihWithin ihRest =>
      by_cases hin : ty ∈ met
      · have hown : ∀ iface ∈ asm.ownInterfaces ty, iface ∈ met :=
          fun iface hmem => hclosed ty hin iface (mem_ownInterfaces.mp hmem)
        rw [hwithin.filter_eq hclosed hown, List.filter_append] at ihRest
        refine .pass (List.mem_append_left _ hin) ?_
        simpa [hin] using ihRest
      · refine .enter ?_ ?_ ihRest
        · simp [hin, hnew]
        · simpa [hin] using ihWithin

end Closed

end DepthFirst

end Walks

section Collection

variable (asm) in
/-- The number of interface entries of the types that were not met. -/
def entriesApart (found : List TypeDefId) : Nat :=
  ∑ i ∈ (Finset.range asm.types.size).filter fun i => (⟨i⟩ : TypeDefId) ∉ found,
    (asm.ownInterfaces ⟨i⟩).length

theorem entriesApart_enter (hty : asm.HasType ty) (hnew : ty ∉ found) :
    (asm.ownInterfaces ty).length + asm.entriesApart (found ++ [ty]) = asm.entriesApart found := by
  have hmem : ty.index ∈ (Finset.range asm.types.size).filter fun i => (⟨i⟩ : TypeDefId) ∉ found :=
    Finset.mem_filter.mpr ⟨Finset.mem_range.mpr hty, hnew⟩
  have herase : ((Finset.range asm.types.size).filter fun i => (⟨i⟩ : TypeDefId) ∉ found ++ [ty]) =
      ((Finset.range asm.types.size).filter fun i => (⟨i⟩ : TypeDefId) ∉ found).erase ty.index := by
    ext i
    have heq : (⟨i⟩ : TypeDefId) = ty ↔ i = ty.index :=
      ⟨fun h => congrArg TypeDefId.index h, fun h => congrArg TypeDefId.mk h⟩
    simp only [Finset.mem_filter, Finset.mem_erase, List.mem_append, List.mem_singleton, heq]
    tauto
  rw [entriesApart, herase]
  exact Finset.add_sum_erase _ (fun i => (asm.ownInterfaces ⟨i⟩).length) hmem

theorem entriesApart_le : asm.entriesApart found ≤ asm.interfaceEntries := by
  have hown (i : Fin asm.types.toList.length) :
      (asm.ownInterfaces ⟨i⟩).length = asm.types.toList[i].interfaces.length := by
    have hat : asm.types[i.val]? = some asm.types.toList[i] := by
      rw [← Array.getElem?_toList]
      exact List.getElem?_eq_getElem i.isLt
    rw [ownInterfaces_of_ok (Arena.entry_eq_ok_iff.mpr hat)]
  have hall : ∑ i ∈ Finset.range asm.types.size, (asm.ownInterfaces ⟨i⟩).length =
      asm.interfaceEntries := by
    calc ∑ i ∈ Finset.range asm.types.size, (asm.ownInterfaces ⟨i⟩).length
        = ∑ i : Fin asm.types.toList.length, asm.types.toList[i].interfaces.length := by
          rw [Finset.sum_range]
          exact Finset.sum_congr rfl fun i _ => hown i
      _ = (asm.types.toList.map fun d => d.interfaces.length).sum :=
          Fin.sum_univ_fun_getElem asm.types.toList fun d : TypeDef => d.interfaces.length
      _ = asm.interfaceEntries := by
          rw [interfaceEntries, ← Array.foldl_toList, List.sum_eq_foldl, List.foldl_map]
  rw [← hall]
  exact Finset.sum_le_sum_of_subset (Finset.filter_subset _ _)

variable [hlinked : asm.Linked]

theorem hasType_of_interface (h : asm.HasInterface ty iface) : asm.HasType iface := by
  obtain ⟨d, hd, hmem⟩ := h
  exact (hlinked.types d (Array.mem_of_getElem? (Arena.entry_eq_ok_iff.mp hd))).interfaces
    iface hmem

/-- Each step of the collection uses up an entry, so as many steps as there are entries
are enough for the walk. -/
theorem exists_closeInterfaces {fuel : Nat} (hpending : ∀ iface ∈ pending, asm.HasType iface)
    (hfuel : pending.length + asm.entriesApart found ≤ fuel) : ∃ found',
      asm.closeInterfaces fuel found pending = .ok found' ∧
      asm.DepthFirst found pending found' := by
  induction fuel generalizing found pending with
  | zero =>
      obtain rfl : pending = [] := List.eq_nil_of_length_eq_zero (by omega)
      exact ⟨found, rfl, .done⟩
  | succ fuel ih =>
      cases pending with
      | nil => exact ⟨found, rfl, .done⟩
      | cons ty pending =>
          obtain ⟨hty, hrest⟩ := List.forall_mem_cons.mp hpending
          rw [List.length_cons] at hfuel
          rw [closeInterfaces]
          split
          · rename_i hmet
            have hfuel : pending.length + asm.entriesApart found ≤ fuel := by omega
            obtain ⟨found', hrun, hwalk⟩ := ih hrest hfuel
            exact ⟨found', hrun, .pass hmet hwalk⟩
          · rename_i hnew
            obtain ⟨d, hd⟩ := exists_typeDef hty
            have hown := ownInterfaces_of_ok hd
            have hnamed : ∀ iface ∈ d.interfaces, asm.HasType iface :=
              fun iface hmem => hasType_of_interface ⟨d, hd, hmem⟩
            have hspent := entriesApart_enter hty hnew
            have hfuel : (d.interfaces ++ pending).length + asm.entriesApart
                (found ++ [ty]) ≤ fuel := by
              rw [hown] at hspent
              rw [List.length_append]
              omega
            obtain ⟨found', hrun, hwalk⟩ := ih (List.forall_mem_append.mpr ⟨hnamed, hrest⟩) hfuel
            obtain ⟨within, hwithin, hwalk⟩ := hwalk.split
            exact ⟨found', exceptBind_eq_ok_iff.mpr ⟨d, hd, hrun⟩,
              .enter hnew (hown ▸ hwithin) hwalk⟩

theorem exists_interfacesOf {types : List TypeDefId} (htypes : ∀ t ∈ types, asm.HasType t) :
    ∃ found', asm.interfacesOf found types = .ok found' ∧
      asm.DepthFirst found (types.flatMap asm.ownInterfaces) found' := by
  induction types generalizing found with
  | nil => exact ⟨found, rfl, .done⟩
  | cons ty types ih =>
      obtain ⟨hty, hrest⟩ := List.forall_mem_cons.mp htypes
      obtain ⟨d, hd⟩ := exists_typeDef hty
      have hown := ownInterfaces_of_ok hd
      have hfuel : d.interfaces.length + asm.entriesApart found ≤
          d.interfaces.length + asm.interfaceEntries := Nat.add_le_add_left entriesApart_le _
      obtain ⟨between, hcollect, hfirst⟩ :=
        exists_closeInterfaces (fun iface hmem => hasType_of_interface ⟨d, hd, hmem⟩) hfuel
      obtain ⟨found', hrun, hwalk⟩ := @ih between hrest
      refine ⟨found', ?_, ?_⟩
      · simp only [interfacesOf, exceptBind_eq_ok_iff]
        exact ⟨d, hd, between, hcollect, hrun⟩
      · rw [List.flatMap_cons, hown]
        exact hfirst.append hwalk

end Collection

section Interfaces

variable [hlinked : asm.Linked]

/-- The interfaces of a type that exists are found by one walk, through the interfaces that
it and its bases name. -/
theorem exists_allInterfaces (hty : asm.HasType ty) : ∃ chain ifaces,
    asm.selfAndAncestors ty = .ok chain ∧ asm.allInterfaces ty = .ok ifaces ∧
      asm.DepthFirst [] (chain.types.flatMap asm.ownInterfaces) ifaces := by
  obtain ⟨chain, hchain, hbroken, -⟩ := exists_chain hty
  have hall : ∀ t ∈ chain.types, asm.HasType t := fun t ht => ((mem_chain_iff hchain).mp ht).2
  obtain ⟨ifaces, hrun, hwalk⟩ := @exists_interfacesOf asm [] _ chain.types hall
  refine ⟨chain, ifaces, hchain, ?_, hwalk⟩
  simp only [allInterfaces, exceptBind_eq_ok_iff]
  exact ⟨chain, hchain, chain.types, by simp [BaseChain.toList, BaseChain.atEnd, hbroken], hrun⟩

/-- They are exactly those that are reached from it and its bases. -/
theorem mem_allInterfaces_iff (hty : asm.HasType ty) {ifaces : List TypeDefId}
    (h : asm.allInterfaces ty = .ok ifaces) : iface ∈ ifaces ↔ ∃ t,
      Relation.ReflTransGen asm.HasBase ty t ∧ Relation.TransGen asm.HasInterface t iface := by
  obtain ⟨chain, ifaces', hchain, hrun, hwalk⟩ := exists_allInterfaces hty
  cases h.symm.trans hrun
  obtain ⟨_, hchain', -, hmem⟩ := exists_chain hty
  cases hchain.symm.trans hchain'
  rw [hwalk.mem_iff]
  constructor
  · rintro ⟨start, hstart, hpath⟩
    obtain ⟨t, ht, hown⟩ := List.mem_flatMap.mp hstart
    exact ⟨t, (hmem t).mp ht, .head' (mem_ownInterfaces.mp hown) hpath⟩
  · rintro ⟨t, hup, hpath⟩
    obtain ⟨start, hown, hpath⟩ := Relation.TransGen.head'_iff.mp hpath
    exact ⟨start, List.mem_flatMap.mpr ⟨t, (hmem t).mpr hup, mem_ownInterfaces.mpr hown⟩, hpath⟩

/-- The interfaces of a type are found, each once: exactly those that are reached from it and its
bases. First come the ones that a walk through its own entries meets, and then what its base adds,
in the order of the base. -/
theorem interfaces_closed (hty : asm.HasType ty) : ∃ ifaces, asm.allInterfaces ty = .ok ifaces ∧
    ifaces.Nodup ∧
    (∀ iface, iface ∈ ifaces ↔ ∃ t, Relation.ReflTransGen asm.HasBase ty t ∧
      Relation.TransGen asm.HasInterface t iface) ∧
    ∀ base, asm.HasBase ty base → ∃ own inherited, asm.DepthFirst [] (asm.ownInterfaces ty) own ∧
      asm.allInterfaces base = .ok inherited ∧
      ifaces = own ++ inherited.filter (· ∉ own) := by
  obtain ⟨chain, ifaces, hchain, hrun, hwalk⟩ := exists_allInterfaces hty
  refine ⟨ifaces, hrun, hwalk.nodup, fun iface => mem_allInterfaces_iff hty hrun,
    fun base hbase => ?_⟩
  · obtain ⟨above, inherited, habove, hrunBase, hwalkBase⟩ :=
      exists_allInterfaces hbase.linked
    obtain ⟨upper, hupper, hcase⟩ := chain_of_base hbase hchain habove
    rw [hupper, List.flatMap_cons] at hwalk
    obtain ⟨own, hown, hrest⟩ := hwalk.split
    refine ⟨own, inherited, hown, hrunBase, hrest.unique ?_⟩
    have hclosed : ∀ t ∈ own, ∀ iface, asm.HasInterface t iface → iface ∈ own :=
      fun t ht => hown.closed.2 t ht List.not_mem_nil
    have hafter := hwalkBase.after_met hclosed
    rw [List.filter_nil, List.append_nil] at hafter
    rcases hcase with heq | heq
    · rwa [heq] at hafter
    · rw [heq, List.flatMap_append] at hafter
      obtain ⟨between, hfirst, hlast⟩ := hafter.split
      have hmet : ∀ iface ∈ [ty].flatMap asm.ownInterfaces, iface ∈ between := by
        intro iface hiface
        exact hfirst.mem_of_mem (hown.closed.1 iface (by simpa using hiface))
      rwa [← (DepthFirst.of_met hmet).unique hlast]

end Interfaces

section Example

/-- Interfaces that name each other, one that is named twice, and bases that go
round in a circle. -/
def weave : Assembly :=
  let roots := ofName "weave"
  { roots with
    types := roots.types ++ #[
      { TypeDef.ofKind .interfaceType "" "I" with interfaces := [⟨4⟩] },
      { TypeDef.ofKind .interfaceType "" "J" with interfaces := [⟨3⟩] },
      TypeDef.ofKind .interfaceType "" "K",
      { TypeDef.ofKind .interfaceType "" "L" with interfaces := [⟨5⟩] },
      { TypeDef.ofKind .classType "" "A" with base := some ⟨8⟩, interfaces := [⟨3⟩] },
      { TypeDef.ofKind .classType "" "B" with base := some ⟨7⟩, interfaces := [⟨6⟩, ⟨4⟩, ⟨5⟩] }] }

instance : weave.Linked :=
  (validate_eq_ok_iff.mp (by decide +kernel : weave.validate = .ok ())).toLinked

theorem weave_interfaces : weave.HasType ⟨7⟩ ∧
    weave.allInterfaces ⟨7⟩ = .ok [⟨3⟩, ⟨4⟩, ⟨6⟩, ⟨5⟩] ∧
    weave.allInterfaces ⟨8⟩ = .ok [⟨6⟩, ⟨5⟩, ⟨4⟩, ⟨3⟩] ∧
    ∃ own inherited, weave.DepthFirst [] [⟨3⟩] own ∧ weave.allInterfaces ⟨8⟩ = .ok inherited ∧
      weave.allInterfaces ⟨7⟩ = .ok (own ++ inherited.filter (· ∉ own)) := by
  have hty : weave.HasType ⟨7⟩ := by decide +kernel
  have hbase : weave.HasBase ⟨7⟩ ⟨8⟩ := ⟨_, rfl, rfl⟩
  obtain ⟨ifaces, hrun, -, -, hsplit⟩ := interfaces_closed hty
  obtain ⟨own, inherited, hown, hinherited, rfl⟩ := hsplit ⟨8⟩ hbase
  exact ⟨hty, by decide +kernel, by decide +kernel, own, inherited, hown, hinherited, hrun⟩

end Example

end CilSsa.Metadata.Assembly
