import CilSsa.Proofs.ObjectMembers
import CilSsa.Proofs.SlotResolution

/-!
Questions about layouts, asked one after the other.

A layout that was found is remembered, and a type whose layout is being found is marked.  No mark is
left behind, also not by a question that fails, and what is remembered is right, so every answer is
the one that is found with nothing remembered.  A layout is found if the bases of the type come to
an end or to a root, unless a class on the way lists a method whose slot is looked for without end.
-/

namespace CilSsa.Lowering

open Metadata Metadata.Assembly

variable {asm : Assembly} {ty base : TypeDefId} {layout : List StructEntry}

section Afresh

variable (asm) in
/-- The layout of a type, where those of other types are found in some way. -/
def layoutBelow (layoutOf : TypeDefId → Except Stop (List StructEntry)) (ty : TypeDefId) :
    Except Stop (List StructEntry) := do
  let d ← answer (asm.typeDef ty)
  match d.base with
  | none => return []
  | some base =>
      if isRoot ty then return []
      else
        let inherited ← layoutOf base
        return inherited ++ (← answer (StructEntry.own asm ty d base))

variable (asm) in
/-- The layout of a type with nothing remembered, while other types wait for it. -/
def layoutAfresh : Nat → List TypeDefId → TypeDefId → Except Stop (List StructEntry)
  | 0, _, _ => .error (.fault .endless)
  | fuel + 1, waiting, ty =>
      if ty ∈ waiting then
        match asm.typeName ty with
        | .ok name => .error (.error (.cyclicInheritance name))
        | .error fault => .error (.fault fault)
      else layoutBelow asm (layoutAfresh fuel (ty :: waiting)) ty

/-- Whether different types wait for a type that they derive from, and there are no more types than
are waited for and may still be passed. -/
structure Waiting (asm : Assembly) (fuel : Nat) (waiting : List TypeDefId) (ty : TypeDefId) :
    Prop where
  nodup : waiting.Nodup
  exist : ∀ t ∈ waiting, asm.HasType t
  below : ∀ t ∈ waiting, Relation.TransGen (Inherits asm) ty t
  enough : asm.types.size < fuel + waiting.length

variable {fuel : Nat} {waiting : List TypeDefId}

theorem Waiting.trail (h : Waiting asm fuel waiting ty) :
    Trail TypeDefId.index asm.types.size fuel waiting :=
  ⟨h.nodup, h.exist, h.enough⟩

theorem Waiting.start : Waiting asm (asm.types.size + 1) [] ty :=
  ⟨List.nodup_nil, by simp, by simp, by simp⟩

theorem Waiting.next (h : Waiting asm (fuel + 1) waiting ty) (hnew : ty ∉ waiting)
    (hbase : Inherits asm base ty) : Waiting asm fuel (ty :: waiting) base := by
  obtain ⟨-, d, hd, -⟩ := id hbase
  have hty : asm.HasType ty := (Array.getElem?_eq_some_iff.mp (Arena.entry_eq_ok_iff.mp hd)).1
  have hnext := h.trail.next hnew hty
  constructor
  · exact hnext.nodup
  · exact hnext.exist
  · exact List.forall_mem_cons.mpr ⟨.single hbase, fun t ht => .head hbase (h.below t ht)⟩
  · exact hnext.enough

theorem Waiting.pos (h : Waiting asm fuel waiting ty) : ∃ rest, fuel = rest + 1 := by
  cases fuel with
  | succ rest => exact ⟨rest, rfl⟩
  | zero => exact absurd h.trail (Trail.not_zero TypeDefId.index_injective)

/-- A type whose bases come to an end is not waiting for itself. -/
theorem Waiting.not_mem (h : Waiting asm fuel waiting ty) (hacc : Acc (Inherits asm) ty) :
    ty ∉ waiting :=
  fun hmem => not_acc_of_circle (h.below ty hmem) hacc

theorem Inherits.base_eq {d : TypeDef} (h : Inherits asm base ty) (hd : asm.typeDef ty = .ok d) :
    d.base = some base ∧ isRoot ty = false := by
  obtain ⟨hroot, d', hd', hbase⟩ := h
  obtain rfl := Except.ok.inj (hd.symm.trans hd')
  exact ⟨hbase, hroot⟩

theorem LayoutOf.acc (h : LayoutOf asm ty layout) : Acc (Inherits asm) ty := by
  induction h with
  | baseless hd hnone =>
      refine ⟨_, fun base hbase => ?_⟩
      simp [(hbase.base_eq hd).1] at hnone
  | root hd _ hroot =>
      refine ⟨_, fun base hbase => ?_⟩
      simp [(hbase.base_eq hd).2] at hroot
  | derived hd hbase _ _ _ ih =>
      refine ⟨_, fun base' hbase' => ?_⟩
      obtain rfl := Option.some.inj (hbase.symm.trans (hbase'.base_eq hd).1)
      exact ih

/-- A layout is found whoever waits for it. -/
theorem LayoutOf.afresh (h : LayoutOf asm ty layout) (hw : Waiting asm fuel waiting ty) :
    layoutAfresh asm fuel waiting ty = .ok layout := by
  have hnew := hw.not_mem h.acc
  induction h generalizing fuel waiting with
  | baseless hd hnone =>
      obtain ⟨fuel, rfl⟩ := hw.pos
      simp [layoutAfresh, layoutBelow, hnew, hd, hnone, answer, bind, Except.bind,
        pure, Except.pure]
  | root hd hbase hroot =>
      obtain ⟨fuel, rfl⟩ := hw.pos
      simp [layoutAfresh, layoutBelow, hnew, hd, hbase, hroot, answer, bind, Except.bind, pure,
        Except.pure]
  | derived hd hbase hroot hinherited hown ih =>
      obtain ⟨fuel, rfl⟩ := hw.pos
      have hnext := hw.next hnew ⟨hroot, _, hd, hbase⟩
      have hrun := ih hnext (hnext.not_mem hinherited.acc)
      simp [layoutAfresh, layoutBelow, hnew, hd, hbase, hroot, hrun, hown,
        answer, bind, Except.bind, pure, Except.pure]

end Afresh

section Answers

/-- Whether an action has the same answer wherever something holds of what is remembered, and this
holds afterwards, too. -/
def Answers {α : Type} (P : LayoutCache → Prop) (x : Layouts α) (a : Except Stop α) : Prop :=
  ∀ c, P c → answerOf (x c) = a ∧ P (stateOf (x c))

theorem answer_eq_ok_iff {α : Type} {question : Except Fault α} {a : α} :
    answer question = .ok a ↔ question = .ok a := by
  cases question <;> simp [answer]

namespace Answers

variable {P : LayoutCache → Prop} {α β : Type} {x : Layouts α} {a : Except Stop α}

theorem pure (b : β) : Answers P (pure b) (.ok b) := fun _ hc => ⟨rfl, hc⟩

theorem stop (e : LoweringError) : Answers P (throw (.error e) : Layouts β) (.error (.error e)) :=
  fun _ hc => ⟨rfl, hc⟩

theorem ask (question : Except Fault β) : Answers P (Layouts.ask question) (answer question) := by
  intro c hc
  cases question <;> exact ⟨rfl, hc⟩

theorem bind {f : α → Layouts β} {g : α → Except Stop β} (hx : Answers P x a)
    (hf : ∀ v, a = .ok v → Answers P (f v) (g v)) : Answers P (x >>= f) (a >>= g) := by
  intro c hc
  obtain ⟨hanswer, hstate⟩ := hx c hc
  change answerOf (EStateM.bind x f c) = _ ∧ P (stateOf (EStateM.bind x f c))
  unfold EStateM.bind
  cases hrun : x c with
  | error e c' =>
      rw [hrun] at hanswer hstate
      subst hanswer
      exact ⟨rfl, hstate⟩
  | ok v c' =>
      rw [hrun] at hanswer hstate
      subst hanswer
      exact hf v rfl c' hstate

theorem exists_bind {f : α → Layouts β} (hx : ∃ a, Answers P x a)
    (hf : ∀ v, ∃ b, Answers P (f v) b) : ∃ b, Answers P (x >>= f) b := by
  obtain ⟨a, ha⟩ := hx
  choose g hg using hf
  exact ⟨a >>= g, ha.bind fun v _ => hg v⟩

end Answers

end Answers

section Cache

/-- Whether the layouts that are remembered are right and each was found once.  The types that wait
are marked, and their layouts have not been found. -/
structure LayoutCache.Accurate (asm : Assembly) (waiting : List TypeDefId) (c : LayoutCache) :
    Prop where
  sound : c.Sound asm
  once : (c.entries.map Prod.fst).Nodup
  counted : c.computed = c.entries.length
  marked : c.resolving = waiting
  missing : ∀ t ∈ waiting, t ∉ c.entries.map Prod.fst

theorem LayoutCache.Accurate.start : LayoutCache.Accurate asm [] {} :=
  ⟨fun h => by simp at h, List.nodup_nil, rfl, rfl, by simp⟩

variable {fuel : Nat} {waiting : List TypeDefId} {c : LayoutCache}

namespace LayoutCache.Accurate

/-- A type is marked before the layout of its base is asked for. -/
theorem mark (h : c.Accurate asm waiting) (hmiss : c.entries.lookup ty = none) :
    LayoutCache.Accurate asm (ty :: waiting) { c with resolving := ty :: c.resolving } := by
  have hty : ty ∉ c.entries.map Prod.fst := by
    intro hmem
    obtain ⟨entry, hentry, rfl⟩ := List.mem_map.mp hmem
    simpa using List.lookup_eq_none_iff.mp hmiss entry hentry
  constructor
  · exact h.sound
  · exact h.once
  · exact h.counted
  · exact congrArg _ h.marked
  · exact List.forall_mem_cons.mpr ⟨hty, h.missing⟩

/-- The mark is taken away when the layout has been found. -/
theorem remember (h : c.Accurate asm (ty :: waiting)) (hnew : ty ∉ waiting)
    (hlayout : LayoutOf asm ty layout) :
    LayoutCache.Accurate asm waiting
      { entries := (ty, layout) :: c.entries
        resolving := c.resolving.erase ty
        computed := c.computed + 1 } := by
  obtain ⟨hty, hmissing⟩ := List.forall_mem_cons.mp h.missing
  constructor
  · intro ty' layout' hfound
    rcases lookup_cons_cases hfound with ⟨rfl, rfl⟩ | hfound
    · exact hlayout
    · exact h.sound hfound
  · exact List.nodup_cons.mpr ⟨hty, h.once⟩
  · simp [h.counted]
  · simp [h.marked]
  · intro t ht
    rw [List.map_cons, List.mem_cons, not_or]
    refine ⟨?_, hmissing t ht⟩
    rintro rfl
    exact hnew ht

/-- It is also taken away when the layout cannot be found. -/
theorem unmark (h : c.Accurate asm (ty :: waiting)) :
    LayoutCache.Accurate asm waiting { c with resolving := c.resolving.erase ty } := by
  constructor
  · exact h.sound
  · exact h.once
  · exact h.counted
  · simp [h.marked]
  · exact fun t ht => h.missing t (List.mem_cons_of_mem _ ht)

end LayoutCache.Accurate

namespace Layouts

variable {layoutOf : TypeDefId → Layouts (List StructEntry)}
  {layoutOf' : TypeDefId → Except Stop (List StructEntry)}

theorem compute_answers {P : LayoutCache → Prop}
    (hbase : ∀ base, Inherits asm base ty → Answers P (layoutOf base) (layoutOf' base)) :
    Answers P (compute asm layoutOf ty) (layoutBelow asm layoutOf' ty) := by
  refine Answers.bind (.ask _) fun d hd => ?_
  rw [answer_eq_ok_iff] at hd
  cases hb : d.base with
  | none => exact .pure []
  | some base =>
      by_cases hroot : isRoot ty = true
      · simp only [hroot, if_true]
        exact .pure []
      · simp only [hroot]
        refine Answers.bind (hbase base ⟨Bool.eq_false_iff.mpr hroot, d, hd, hb⟩)
          fun inherited _ => ?_
        exact Answers.bind (.ask _) fun own _ => .pure _

/-- Layouts are found as with nothing remembered. -/
theorem layoutWith_answers (hw : Waiting asm fuel waiting ty) :
    Answers (LayoutCache.Accurate asm waiting) (layoutWith asm fuel ty)
      (layoutAfresh asm fuel waiting ty) := by
  induction fuel generalizing waiting ty with
  | zero => exact absurd hw.pos (by simp)
  | succ fuel ih =>
      intro c hc
      obtain rfl := hc.marked
      cases hfound : c.entries.lookup ty with
      | some layout =>
          rw [(hc.sound hfound).afresh hw]
          simp only [layoutWith, hfound]
          exact ⟨rfl, hc⟩
      | none =>
          by_cases hmem : ty ∈ c.resolving
          · simp only [layoutWith, layoutAfresh, hfound, if_pos hmem]
            cases asm.typeName ty <;> exact ⟨rfl, hc⟩
          · have hcompute := compute_answers fun base hbase => ih (hw.next hmem hbase)
            obtain ⟨hanswer, hstate⟩ := hcompute _ (hc.mark hfound)
            have hsound (layout : List StructEntry) (c' : LayoutCache) :=
              @layoutWith_sound asm (fuel + 1) ty layout c c'
            simp only [layoutWith, hfound, if_neg hmem] at hsound
            simp only [layoutWith, layoutAfresh, hfound, if_neg hmem, ← hanswer]
            cases hrun : compute asm (layoutWith asm fuel) ty
                { c with resolving := ty :: c.resolving } with
            | error stop c' =>
                rw [hrun] at hstate
                exact ⟨rfl, hstate.unmark⟩
            | ok layout c' =>
                rw [hrun] at hstate
                rw [hrun] at hsound
                exact ⟨rfl, hstate.remember hmem (hsound layout _ rfl hc.sound).1⟩

theorem structLayout_answers (ty : TypeDefId) :
    Answers (LayoutCache.Accurate asm []) (structLayout asm ty)
      (layoutAfresh asm (asm.types.size + 1) [] ty) :=
  layoutWith_answers .start

theorem fieldIndex_answers (f : FieldId) :
    ∃ a, Answers (LayoutCache.Accurate asm []) (fieldIndex asm f) a := by
  refine Answers.exists_bind ⟨_, .ask _⟩ fun d => Answers.exists_bind ⟨_, structLayout_answers _⟩
    fun layout => Answers.exists_bind ⟨_, .ask _⟩ fun index? => ?_
  cases index? with
  | some index => exact ⟨_, .pure index⟩
  | none => exact Answers.exists_bind ⟨_, .ask _⟩ fun name => ⟨_, .stop _⟩

theorem classVTableIndex_answers (owner : TypeDefId) :
    ∃ a, Answers (LayoutCache.Accurate asm []) (classVTableIndex asm owner) a := by
  refine Answers.exists_bind ⟨_, structLayout_answers _⟩ fun layout =>
    Answers.exists_bind ⟨_, .ask _⟩ fun index? => ?_
  cases index? with
  | some index => exact ⟨_, .pure index⟩
  | none => exact Answers.exists_bind ⟨_, .ask _⟩ fun name => ⟨_, .stop _⟩

end Layouts

end Cache

section Queries

/-- A question about layouts. -/
inductive LayoutQuery where
  | layout (ty : TypeDefId)
  | field (f : FieldId)
  | table (owner : TypeDefId)
deriving DecidableEq, Repr

inductive LayoutAnswer where
  | entries (layout : List StructEntry)
  | member (index : Nat)
deriving DecidableEq, Repr

/-- The action that finds the answer. -/
def LayoutQuery.run (asm : Assembly) : LayoutQuery → Layouts LayoutAnswer
  | .layout ty => return .entries (← Layouts.structLayout asm ty)
  | .field f => return .member (← Layouts.fieldIndex asm f)
  | .table owner => return .member (← Layouts.classVTableIndex asm owner)

variable (asm) in
/-- What is remembered after some questions, whether they were answered or failed. -/
def remembered (queries : List LayoutQuery) : LayoutCache :=
  queries.foldl (fun c query => stateOf (query.run asm c)) {}

variable (asm) in
theorem LayoutQuery.answers (query : LayoutQuery) :
    ∃ a, Answers (LayoutCache.Accurate asm []) (query.run asm) a := by
  cases query with
  | layout ty =>
      exact Answers.exists_bind ⟨_, Layouts.structLayout_answers ty⟩ fun layout => ⟨_, .pure _⟩
  | field f => exact Answers.exists_bind (Layouts.fieldIndex_answers f) fun index => ⟨_, .pure _⟩
  | table owner =>
      exact Answers.exists_bind (Layouts.classVTableIndex_answers owner) fun index => ⟨_, .pure _⟩

variable (asm) in
/-- What is remembered is right after each question. -/
theorem accurate_remembered (queries : List LayoutQuery) :
    (remembered asm queries).Accurate asm [] := by
  have hrun (c : LayoutCache) (hc : c.Accurate asm []) :
      (queries.foldl (fun c query => stateOf (query.run asm c)) c).Accurate asm [] := by
    induction queries generalizing c with
    | nil => exact hc
    | cons query rest ih =>
        obtain ⟨a, ha⟩ := query.answers asm
        exact ih _ (ha c hc).2
  exact hrun {} .start

end Queries

section Circles

/-- Whether the bases of a type lead to a type that they come back to, before a root or an end. -/
def Circular (asm : Assembly) (ty : TypeDefId) : Prop :=
  ∃ t, Relation.ReflTransGen (Function.swap (Inherits asm)) ty t ∧
    Relation.TransGen (Inherits asm) t t

/-- Whether a type is a class that lists a method whose slot is looked for without end. -/
def ListsUnending (asm : Assembly) (ty : TypeDefId) : Prop :=
  ∃ d, asm.typeDef ty = .ok d ∧ d.kind = .classType ∧ ∃ m ∈ d.methods, ¬ Acc asm.Overridden m

/-- Whether such a class adds to the layout of a type. -/
def Unending (asm : Assembly) (ty : TypeDefId) : Prop :=
  ∃ t base, Relation.ReflTransGen (Function.swap (Inherits asm)) ty t ∧ Inherits asm base t ∧
    ListsUnending asm t

theorem Circular.not_acc (h : Circular asm ty) : ¬ Acc (Inherits asm) ty := by
  obtain ⟨t, hpath, hcircle⟩ := h
  exact fun hacc => not_acc_of_circle hcircle (acc_of_path hacc hpath)

theorem Circular.below (h : Circular asm base) (hbase : Inherits asm base ty) :
    Circular asm ty := by
  obtain ⟨t, hpath, hcircle⟩ := h
  exact ⟨t, .head hbase hpath, hcircle⟩

theorem unending_iff (hbase : Inherits asm base ty) :
    Unending asm ty ↔ Unending asm base ∨ ListsUnending asm ty := by
  constructor
  · rintro ⟨t, top, hpath, htop, hlists⟩
    rcases Relation.ReflTransGen.cases_head hpath with rfl | ⟨next, hnext, hpath⟩
    · exact .inr hlists
    · obtain ⟨d, hd, hb⟩ := hbase.2
      obtain rfl := Option.some.inj (hb.symm.trans (Inherits.base_eq hnext hd).1)
      exact .inl ⟨t, top, hpath, htop, hlists⟩
  · rintro (⟨t, top, hpath, htop, hlists⟩ | hlists)
    · exact ⟨t, top, .head hbase hpath, htop, hlists⟩
    · exact ⟨ty, base, .refl, hbase, hlists⟩

theorem not_unending (hends : ∀ base, ¬ Inherits asm base ty) : ¬ Unending asm ty := by
  rintro ⟨t, top, hpath, htop, -⟩
  rcases Relation.ReflTransGen.cases_head hpath with rfl | ⟨next, hnext, -⟩
  · exact hends top htop
  · exact hends next hnext

end Circles

section Outcomes

/-- If the questions of a filter stop for one reason only, so does the filter. -/
theorem exceptFilterM_cases {α : Type} {p : α → Except Fault Bool} {items : List α} {fault : Fault}
    (h : ∀ a ∈ items, (∃ answer, p a = .ok answer) ∨ p a = .error fault) :
    ((∀ a ∈ items, ∃ answer, p a = .ok answer) ∧ ∃ kept, items.filterM p = .ok kept) ∨
      (∃ a ∈ items, p a = .error fault) ∧ items.filterM p = .error fault := by
  by_cases hall : ∀ a ∈ items, ∃ answer, p a = .ok answer
  · exact .inl ⟨hall, _, exceptFilterM_eq_ok_iff.mpr ⟨hall, rfl⟩⟩
  · right
    cases hrun : items.filterM p with
    | ok kept => exact absurd (exceptFilterM_eq_ok_iff.mp hrun).1 hall
    | error fault' =>
        have hfaults : Faults (· = fault) (items.filterM p) := by
          refine Faults.composes.filterM fun a ha => ?_
          rcases h a ha with ⟨answer, hok⟩ | herror
          · rw [hok]
            exact Faults.pure answer
          · rw [herror]
            exact ⟨fun e he fault' hfault' => by cases he; cases hfault'; rfl⟩
        simp only [not_forall] at hall
        obtain ⟨a, ha, hstop⟩ := hall
        exact ⟨⟨a, ha, (h a ha).resolve_left hstop⟩, congrArg _ (hfaults.fault hrun)⟩

variable [hlinked : asm.Linked] {d : TypeDef}

theorem introducesSlot_cases {m : MethodId} (hm : asm.HasMethod m) :
    (Acc asm.Overridden m ∧ ∃ introduces, asm.introducesSlot m = .ok introduces) ∨
      ¬ Acc asm.Overridden m ∧ asm.introducesSlot m = .error .endless := by
  have : CilSsa.Known asm m := ⟨hm⟩
  rw [introducesSlot]
  rcases slotMethod_cases asm m with ⟨hacc, slot, hslot⟩ | ⟨hendless, hslot⟩
  · rw [hslot]
    exact .inl ⟨hacc, _, rfl⟩
  · rw [hslot]
    exact .inr ⟨hendless, rfl⟩

theorem introducedSlots_cases (hd : asm.typeDef ty = .ok d) :
    ((∀ m ∈ d.methods, Acc asm.Overridden m) ∧ ∃ slots, asm.introducedSlots ty = .ok slots) ∨
      (∃ m ∈ d.methods, ¬ Acc asm.Overridden m) ∧ asm.introducedSlots ty = .error .endless := by
  have hlist : asm.introducedSlots ty = d.methods.filterM asm.introducesSlot := by
    rw [introducedSlots, hd]
    rfl
  have hmethods := (hlinked.types d (Array.mem_of_getElem? (Arena.entry_eq_ok_iff.mp hd))).methods
  rw [hlist]
  rcases exceptFilterM_cases fun m hm => (introducesSlot_cases (hmethods m hm)).imp And.right
    And.right with ⟨hall, hkept⟩ | ⟨⟨m, hm, herror⟩, hstop⟩
  · refine .inl ⟨fun m hm => ?_, hkept⟩
    obtain ⟨answer, hanswer⟩ := hall m hm
    rcases introducesSlot_cases (hmethods m hm) with ⟨hacc, -⟩ | ⟨-, herror⟩
    · exact hacc
    · cases hanswer.symm.trans herror
  · refine .inr ⟨⟨m, hm, ?_⟩, hstop⟩
    rcases introducesSlot_cases (hmethods m hm) with ⟨-, answer, hanswer⟩ | ⟨hendless, -⟩
    · cases hanswer.symm.trans herror
    · exact hendless

theorem own_cases (hd : asm.typeDef ty = .ok d) (base : TypeDefId) :
    (¬ ListsUnending asm ty ∧ ∃ own, StructEntry.own asm ty d base = .ok own) ∨
      ListsUnending asm ty ∧ StructEntry.own asm ty d base = .error .endless := by
  have hclosed := hlinked.types d (Array.mem_of_getElem? (Arena.entry_eq_ok_iff.mp hd))
  have hlists : ListsUnending asm ty ↔
      d.kind = .classType ∧ ∃ m ∈ d.methods, ¬ Acc asm.Overridden m := by
    constructor
    · rintro ⟨d', hd', h⟩
      obtain rfl := Except.ok.inj (hd.symm.trans hd')
      exact h
    · exact fun h => ⟨d, hd, h⟩
  obtain ⟨fields, hfields⟩ : ∃ fields, d.fields.filterM (fun f =>
      (do return !(← asm.field f).isGenerated : Except Fault Bool)) = .ok fields := by
    refine ⟨_, exceptFilterM_eq_ok_iff.mpr ⟨fun f hf => ?_, rfl⟩⟩
    have hfield : asm.field f = .ok _ :=
      Arena.entry_eq_ok_iff.mpr (Array.getElem?_eq_getElem (hclosed.fields f hf))
    rw [hfield]
    exact ⟨_, rfl⟩
  rw [hlists, StructEntry.own, hfields]
  by_cases hkind : d.kind = .classType
  · rcases introducedSlots_cases hd with ⟨hall, slots, hslots⟩ | ⟨hsome, hstop⟩
    · refine .inl ⟨fun h => ?_, ?_⟩
      · obtain ⟨-, m, hm, hendless⟩ := h
        exact hendless (hall m hm)
      · rw [if_pos hkind, hslots]
        exact ⟨_, rfl⟩
    · rw [if_pos hkind, hstop]
      exact .inr ⟨⟨hkind, hsome⟩, rfl⟩
  · rw [if_neg hkind]
    exact .inl ⟨fun h => hkind h.1, _, rfl⟩

variable {fuel : Nat} {waiting : List TypeDefId}

omit hlinked in
theorem layoutBelow_of_error {layoutOf : TypeDefId → Except Stop (List StructEntry)} {stop : Stop}
    (hbase : Inherits asm base ty) (h : layoutOf base = .error stop) :
    layoutBelow asm layoutOf ty = .error stop := by
  obtain ⟨hroot, d, hd, hb⟩ := hbase
  simp [layoutBelow, hd, hb, hroot, h, answer, bind, Except.bind]

/-- Without an end of the bases the walk comes back to a type that waits. -/
theorem layoutAfresh_of_not_acc (hw : Waiting asm fuel waiting ty) (hty : asm.HasType ty)
    (h : ¬ Acc (Inherits asm) ty) : Circular asm ty ∧ ∃ t name,
      Relation.ReflTransGen (Function.swap (Inherits asm)) ty t ∧ asm.typeName t = .ok name ∧
      layoutAfresh asm fuel waiting ty = .error (.error (.cyclicInheritance name)) := by
  induction fuel generalizing waiting ty with
  | zero => exact absurd hw.pos (by simp)
  | succ fuel ih =>
      by_cases hmem : ty ∈ waiting
      · have hd : asm.typeDef ty = .ok _ :=
          Arena.entry_eq_ok_iff.mpr (Array.getElem?_eq_getElem hty)
        have hname : asm.typeName ty = .ok asm.types[ty.index].fullName := by
          rw [typeName, hd]
          rfl
        refine ⟨⟨ty, .refl, hw.below ty hmem⟩, ty, _, .refl, hname, ?_⟩
        rw [layoutAfresh, if_pos hmem, hname]
      · obtain ⟨base, hbase, hbelow⟩ : ∃ base, Inherits asm base ty ∧
            ¬ Acc (Inherits asm) base := by
          by_contra hnone
          simp only [not_exists, not_and, not_not] at hnone
          exact h ⟨ty, hnone⟩
        obtain ⟨-, d, hd, hb⟩ := id hbase
        have hexists := (hlinked.types d (Array.mem_of_getElem? (Arena.entry_eq_ok_iff.mp hd))).base
        obtain ⟨hcircle, t, name, hpath, hname, hrun⟩ :=
          ih (hw.next hmem hbase) (hexists base hb) hbelow
        refine ⟨hcircle.below hbase, t, name, .head hbase hpath, hname, ?_⟩
        rw [layoutAfresh, if_neg hmem]
        exact layoutBelow_of_error hbase hrun

/-- With an end the layout is found, unless the slots of a class on the way are not. -/
theorem layoutAfresh_of_acc (hacc : Acc (Inherits asm) ty) (hty : asm.HasType ty)
    (hw : Waiting asm fuel waiting ty) :
    (¬ Unending asm ty ∧ ∃ layout, LayoutOf asm ty layout ∧
        layoutAfresh asm fuel waiting ty = .ok layout) ∨
      Unending asm ty ∧ layoutAfresh asm fuel waiting ty = .error (.fault .endless) := by
  induction hacc generalizing fuel waiting with
  | intro ty hbases ih =>
      by_cases hbelow : ∃ base, Inherits asm base ty
      · obtain ⟨base, hbase⟩ := hbelow
        have hnew := hw.not_mem ⟨ty, hbases⟩
        obtain ⟨hroot, d, hd, hb⟩ := id hbase
        have hexists := (hlinked.types d (Array.mem_of_getElem? (Arena.entry_eq_ok_iff.mp hd))).base
        obtain ⟨fuel, rfl⟩ := hw.pos
        rw [unending_iff hbase]
        rcases ih base hbase (hexists base hb) (hw.next hnew hbase) with
          ⟨hfinite, inherited, hinherited, hrun⟩ | ⟨hunending, hrun⟩
        · rcases own_cases hd base with ⟨hlists, own, hown⟩ | ⟨hlists, hown⟩
          · have hlayout := LayoutOf.derived hd hb hroot hinherited hown
            exact .inl ⟨not_or.mpr ⟨hfinite, hlists⟩, _, hlayout, hlayout.afresh hw⟩
          · refine .inr ⟨.inr hlists, ?_⟩
            rw [layoutAfresh, if_neg hnew]
            simp [layoutBelow, hd, hb, hroot, hrun, hown, answer, bind, Except.bind]
        · refine .inr ⟨.inl hunending, ?_⟩
          rw [layoutAfresh, if_neg hnew]
          exact layoutBelow_of_error hbase hrun
      · have hd : asm.typeDef ty = .ok asm.types[ty.index] :=
          Arena.entry_eq_ok_iff.mpr (Array.getElem?_eq_getElem hty)
        have hlayout : LayoutOf asm ty [] := by
          cases hb : asm.types[ty.index].base with
          | none => exact .baseless hd hb
          | some base =>
              refine .root hd hb ?_
              by_contra hroot
              exact hbelow ⟨base, Bool.eq_false_iff.mpr hroot, _, hd, hb⟩
        exact .inl ⟨not_unending (not_exists.mp hbelow), [], hlayout, hlayout.afresh hw⟩

omit hlinked in
theorem own_barrier {own : List StructEntry} (h : StructEntry.own asm ty d base = .ok own) :
    ∃ entries : List StructEntry, own = entries ++ [StructEntry.barrier ty] ∧
      ∀ t, StructEntry.barrier t ∉ entries := by
  obtain ⟨slots, fields, rfl, -, -, hclass, hother⟩ := own_eq_ok h
  refine ⟨_, rfl, fun t ht => ?_⟩
  have hslots : StructEntry.barrier t ∈ slots := by simpa using ht
  by_cases hkind : d.kind = .classType
  · obtain ⟨introduced, -, rfl⟩ := hclass hkind
    cases isRoot base <;> cases introduced <;> simp at hslots
  · simp [hother hkind] at hslots

omit hlinked in
theorem LayoutOf.barrier_above {t : TypeDefId} (h : LayoutOf asm ty layout)
    (hbarrier : .barrier t ∈ layout) :
    Relation.ReflTransGen (Function.swap (Inherits asm)) ty t := by
  induction h with
  | baseless => simp at hbarrier
  | root => simp at hbarrier
  | derived hd hbase hroot _ hown ih =>
      rcases List.mem_append.mp hbarrier with hbarrier | hbarrier
      · exact .head ⟨hroot, _, hd, hbase⟩ (ih hbarrier)
      · obtain ⟨entries, rfl, hnone⟩ := own_barrier hown
        rcases List.mem_append.mp hbarrier with hentry | hlast
        · exact absurd hentry (hnone t)
        · cases List.mem_singleton.mp hlast
          exact .refl

omit hlinked in
/-- What a type inherits has no barrier of its own. -/
theorem LayoutOf.no_barrier (h : LayoutOf asm base layout) (hbase : Inherits asm base ty) :
    .barrier ty ∉ layout := by
  intro hbarrier
  have hpath := Relation.reflTransGen_swap.mp (h.barrier_above hbarrier)
  exact not_acc_of_circle (.tail' hpath hbase) ⟨ty, fun base' hbase' => by
    obtain ⟨d, hd, hb⟩ := hbase.2
    obtain rfl := Option.some.inj (hb.symm.trans (hbase'.base_eq hd).1)
    exact h.acc⟩

omit hlinked in
/-- Bases come to an end below roots with that end. -/
theorem acc_bases (hroots : ∀ root, isRoot root = true → Acc (Function.swap asm.HasBase) root)
    (hacc : Acc (Inherits asm) ty) : Acc (Function.swap asm.HasBase) ty := by
  induction hacc with
  | intro ty _ ih =>
      by_cases hroot : isRoot ty = true
      · exact hroots ty hroot
      · exact ⟨ty, fun base hbase => ih base ⟨Bool.eq_false_iff.mpr hroot, hbase⟩⟩

/-- The slots of all methods are found if the bases of the roots come to an end, too. -/
theorem not_unending_of_acc (hlisted : MethodsListed asm)
    (hroots : ∀ root, isRoot root = true → Acc (Function.swap asm.HasBase) root)
    (hacc : Acc (Inherits asm) ty) : ¬ Unending asm ty := by
  rintro ⟨t, -, hpath, -, d, hd, -, m, hm, hendless⟩
  have hbases : Acc (Function.swap asm.HasBase) t :=
    acc_of_path (acc_bases hroots hacc) (hpath.lift id fun _ _ h => h.2)
  have hmethod :=
    (hlinked.types d (Array.mem_of_getElem? (Arena.entry_eq_ok_iff.mp hd))).methods m hm
  have hmd : asm.method m = .ok asm.methods[m.index] :=
    Arena.entry_eq_ok_iff.mpr (Array.getElem?_eq_getElem hmethod)
  exact hendless (acc_overridden hlisted hbases hmd (hlisted t d m _ hd hm hmd))

end Outcomes

section Theorems

/-- The answer where nothing is remembered. -/
theorem structLayout_eq (ty : TypeDefId) : answerOf (Layouts.structLayout asm ty {}) =
    layoutAfresh asm (asm.types.size + 1) [] ty :=
  (Layouts.structLayout_answers ty {} .start).1

theorem LayoutOf.shape {d : TypeDef} (h : LayoutOf asm ty layout) (hd : asm.typeDef ty = .ok d) :
    (d.base = none ∨ isRoot ty = true → layout = []) ∧
    ∀ base, d.base = some base → isRoot ty = false → ∃ inherited entries : List StructEntry,
      answerOf (Layouts.structLayout asm base {}) = .ok inherited ∧
      StructEntry.own asm ty d base = .ok (entries ++ [StructEntry.barrier ty]) ∧
      layout = inherited ++ entries ++ [StructEntry.barrier ty] ∧
      StructEntry.barrier ty ∉ inherited ++ entries := by
  constructor
  · intro hend
    cases h with
    | baseless => rfl
    | root => rfl
    | derived hd' hb hroot =>
        obtain rfl := Except.ok.inj (hd.symm.trans hd')
        simp [hb, hroot] at hend
  · intro base hb hroot
    obtain ⟨inherited, own, hinherited, hown, rfl⟩ := h.split hd hb hroot
    obtain ⟨entries, rfl, hnone⟩ := own_barrier hown
    refine ⟨inherited, entries, ?_, hown, (List.append_assoc ..).symm, ?_⟩
    · rw [structLayout_eq]
      exact hinherited.afresh .start
    · rw [List.mem_append, not_or]
      exact ⟨hinherited.no_barrier ⟨hroot, d, hd, hb⟩, hnone ty⟩

variable [hlinked : asm.Linked]

theorem circular_iff (hty : asm.HasType ty) : Circular asm ty ↔ ¬ Acc (Inherits asm) ty :=
  ⟨Circular.not_acc, fun h => (layoutAfresh_of_not_acc .start hty h).1⟩

/-- What comes of a question for a layout. -/
theorem structLayout_cases (hty : asm.HasType ty) :
    (Circular asm ty ∧ ∃ t name, Relation.ReflTransGen (Function.swap (Inherits asm)) ty t ∧
      asm.typeName t = .ok name ∧
      answerOf (Layouts.structLayout asm ty {}) = .error (.error (.cyclicInheritance name))) ∨
    ¬ Circular asm ty ∧ ((¬ Unending asm ty ∧ ∃ layout, LayoutOf asm ty layout ∧
        answerOf (Layouts.structLayout asm ty {}) = .ok layout) ∨
      Unending asm ty ∧ answerOf (Layouts.structLayout asm ty {}) = .error (.fault .endless)) := by
  rw [structLayout_eq]
  by_cases hacc : Acc (Inherits asm) ty
  · exact .inr ⟨fun hcircle => hcircle.not_acc hacc, layoutAfresh_of_acc hacc hty .start⟩
  · exact .inl (layoutAfresh_of_not_acc .start hty hacc)

/-- Questions about layouts have the answers that they have where nothing is remembered, whatever
was asked before and whether it was answered.  No mark is left behind, and no layout is found
twice.  A layout is found unless the bases of the type come back to a type, which is an error, or a
class that adds to it lists a method whose slot is looked for without end.  It is that of the base,
the type's own entries, and a barrier; and it is not looked for without end if the bases of the
roots come to an end. -/
theorem layout_queries (hlisted : MethodsListed asm) :
    (∀ queries (query : LayoutQuery),
      answerOf (query.run asm (remembered asm queries)) = answerOf (query.run asm {})) ∧
    (∀ queries, (remembered asm queries).resolving = [] ∧
      (remembered asm queries).computed = (remembered asm queries).entries.length ∧
      ((remembered asm queries).entries.map Prod.fst).Nodup) ∧
    (∀ ty, asm.HasType ty →
      ((∃ e, answerOf (Layouts.structLayout asm ty {}) = .error (.error e)) ↔ Circular asm ty) ∧
      (∀ e, answerOf (Layouts.structLayout asm ty {}) = .error (.error e) → ∃ t name,
        Relation.ReflTransGen (Function.swap (Inherits asm)) ty t ∧ asm.typeName t = .ok name ∧
          e = .cyclicInheritance name) ∧
      (∀ fault, answerOf (Layouts.structLayout asm ty {}) = .error (.fault fault) ↔
        fault = .endless ∧ ¬ Circular asm ty ∧ Unending asm ty) ∧
      ∀ layout d, answerOf (Layouts.structLayout asm ty {}) = .ok layout → asm.typeDef ty = .ok d →
        (d.base = none ∨ isRoot ty = true → layout = []) ∧
        ∀ base, d.base = some base → isRoot ty = false → ∃ inherited entries,
          answerOf (Layouts.structLayout asm base {}) = .ok inherited ∧
          StructEntry.own asm ty d base = .ok (entries ++ [.barrier ty]) ∧
          layout = inherited ++ entries ++ [.barrier ty] ∧ .barrier ty ∉ inherited ++ entries) ∧
    ((∀ root, isRoot root = true → Acc (Function.swap asm.HasBase) root) →
      ∀ ty, asm.HasType ty → ¬ Circular asm ty → ¬ Unending asm ty) := by
  refine ⟨fun queries query => ?_, fun queries => ?_, fun ty hty => ?_,
    fun hroots ty hty hends => ?_⟩
  · obtain ⟨a, ha⟩ := query.answers asm
    exact (ha _ (accurate_remembered asm queries)).1.trans (ha {} .start).1.symm
  · have hc := accurate_remembered asm queries
    exact ⟨hc.marked, hc.counted, hc.once⟩
  · rcases structLayout_cases hty with ⟨hcircle, t, name, hpath, hname, hrun⟩ |
      ⟨hends, ⟨hfinite, layout, hlayout, hrun⟩ | ⟨hunending, hrun⟩⟩
    · simp only [hrun]
      refine ⟨⟨fun _ => hcircle, fun _ => ⟨_, rfl⟩⟩, fun e he => ?_, by simp [hcircle], by simp⟩
      cases he
      exact ⟨t, name, hpath, hname, rfl⟩
    · simp only [hrun]
      refine ⟨by simp [hends], by simp, by simp [hfinite], fun layout' d hlayout' hd => ?_⟩
      cases hlayout'
      exact hlayout.shape hd
    · simp only [hrun]
      exact ⟨by simp [hends], by simp, by simp [hends, hunending, eq_comm], by simp⟩
  · refine not_unending_of_acc hlisted hroots ?_
    by_contra hacc
    exact hends ((circular_iff hty).mpr hacc)

end Theorems

section Rings

/-- Two roots that are the base of each other, two classes that are, and two classes that derive
from a root, one of which overrides its method. -/
def rings : Assembly :=
  let roots := Assembly.ofName "rings"
  let virtual (ty : TypeDefId) : MethodDef :=
    { name := "M", declaringType := ty, returnType := .void, flags := ⟨MethodFlags.virtual⟩ }
  { roots with
    types := #[
      { TypeDef.ofKind .classType "System" "Object" with base := some ⟨1⟩, methods := [⟨0⟩] },
      { TypeDef.ofKind .classType "System" "ValueType" with base := some ⟨0⟩, methods := [⟨1⟩] },
      { TypeDef.ofKind .classType "System" "Enum" with base := some ⟨1⟩ },
      { TypeDef.ofKind .classType "" "Over" with base := some ⟨0⟩, methods := [⟨2⟩] },
      { TypeDef.ofKind .classType "" "A" with base := some ⟨5⟩ },
      { TypeDef.ofKind .classType "" "B" with base := some ⟨4⟩ },
      { TypeDef.ofKind .classType "" "Plain" with base := some ⟨0⟩ }]
    methods := #[virtual ⟨0⟩, virtual ⟨1⟩, virtual ⟨3⟩] }

theorem rings_validate : rings.validate = .ok () := by decide +kernel

instance : rings.Linked := (Assembly.validate_eq_ok_iff.mp rings_validate).toLinked

theorem rings_listed : MethodsListed rings := methodsListed_of_forall (by decide)

theorem rings_roots (root base : TypeDefId) (hroot : isRoot root = true)
    (hbase : rings.HasBase root base) : isRoot base = true := by
  obtain ⟨d, hd, hb⟩ := hbase
  exact forall_typeDef (P := fun ty d => isRoot ty = true → ∀ base ∈ d.base, isRoot base = true)
    (by decide) hd hroot base hb

/-- A question that fails has no trace. -/
theorem rings_plain :
    rings.Linked ∧ MethodsListed rings ∧ Circular rings ⟨4⟩ ∧
      answerOf (Layouts.structLayout rings ⟨4⟩ {}) = .error (.error (.cyclicInheritance "A")) ∧
      answerOf (LayoutQuery.run rings (.layout ⟨6⟩) (remembered rings [.layout ⟨4⟩, .layout ⟨3⟩])) =
        .ok (.entries [.indirection, .barrier ⟨6⟩]) := by
  obtain ⟨hanswers, -, hlayouts, -⟩ := layout_queries rings_listed
  have hrun : answerOf (Layouts.structLayout rings ⟨4⟩ {}) =
      .error (.error (.cyclicInheritance "A")) := by decide +kernel
  refine ⟨inferInstance, rings_listed, ?_, hrun, ?_⟩
  · exact (hlayouts ⟨4⟩ (by decide)).1.mp ⟨_, hrun⟩
  · rw [hanswers]
    decide +kernel

/-- The layout of a class whose only base is a root may be looked for without end. -/
theorem rings_over :
    rings.validate = .ok () ∧ MethodsListed rings ∧
      (∀ root base, isRoot root = true → rings.HasBase root base → isRoot base = true) ∧
      ¬ Circular rings ⟨3⟩ ∧
      answerOf (Layouts.structLayout rings ⟨3⟩ {}) = .error (.fault .endless) := by
  have hrun : answerOf (Layouts.structLayout rings ⟨3⟩ {}) = .error (.fault .endless) := by
    decide +kernel
  refine ⟨rings_validate, rings_listed, rings_roots, fun hcircle => ?_, hrun⟩
  have hexists : rings.HasType ⟨3⟩ := by decide
  rcases structLayout_cases hexists with ⟨-, t, name, -, -, herror⟩ | ⟨hends, -⟩
  · cases hrun.symm.trans herror
  · exact hends hcircle

end Rings

end CilSsa.Lowering
