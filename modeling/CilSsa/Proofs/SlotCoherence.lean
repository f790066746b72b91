import CilSsa.Proofs.BaseChains
import CilSsa.Proofs.SlotResolution

/-!
Slots and the methods that fill them.

An override has the signature of the method that it overrides and is declared below it, so the slot
at the end of the way is declared above.  What fills a slot for a type is found on the way up from
the type, so it is declared by the nearest type with a method in the slot, and a derived type keeps
it unless a type in between overrides it.
-/

namespace CilSsa

open Ssa Metadata Lowering

section Searches

variable {ε α β : Type}

/-- A search finds the first answer. -/
theorem exceptFindSomeM?_eq_some {f : α → Except ε (Option β)} {items : List α} {b : β}
    (h : items.findSomeM? f = .ok (some b)) : ∃ before a after, items = before ++ a :: after ∧
      (∀ c ∈ before, f c = .ok none) ∧ f a = .ok (some b) := by
  induction items with
  | nil => simp [pure, Except.pure] at h
  | cons first rest ih =>
      rw [List.findSomeM?_cons, exceptBind_eq_ok_iff] at h
      obtain ⟨found, hfound, h⟩ := h
      cases found with
      | none =>
          obtain ⟨before, a, after, rfl, hbefore, hanswer⟩ := ih h
          exact ⟨first :: before, a, after, rfl, List.forall_mem_cons.mpr ⟨hfound, hbefore⟩,
            hanswer⟩
      | some b' =>
          obtain rfl := Option.some.inj (exceptPure_eq_ok_iff.mp h)
          exact ⟨[], first, rest, rfl, by simp, hfound⟩

/-- A search finds nothing if the answer is no for all items. -/
theorem exceptFindM?_eq_none_iff {p : α → Except ε Bool} {items : List α} :
    items.findM? p = .ok none ↔ ∀ a ∈ items, p a = .ok false := by
  induction items with
  | nil => simp [List.findM?, pure, Except.pure]
  | cons first rest ih =>
      rw [List.findM?, exceptBind_eq_ok_iff, List.forall_mem_cons, ← ih]
      constructor
      · rintro ⟨hit, hanswer, h⟩
        cases hit with
        | false => exact ⟨hanswer, h⟩
        | true => simp [pure, Except.pure] at h
      · rintro ⟨hanswer, h⟩
        exact ⟨false, hanswer, h⟩

end Searches

namespace Metadata.Assembly

variable {asm : Assembly} {ty base t owner : TypeDefId} {m slot : MethodId} {md sd : MethodDef}
  {slots : List MethodId}

/-- Whether types list the methods that they declare, each once, and no others. -/
def MethodsListedOnce (asm : Assembly) : Prop :=
  ∀ m md, asm.method m = .ok md → ∀ ty d, asm.typeDef ty = .ok d →
    d.methods.count m = if ty = md.declaringType then 1 else 0

theorem MethodsListedOnce.listed (h : asm.MethodsListedOnce) : MethodsListed asm := by
  intro ty d m md hd hmem hmd
  have hcount := h m md hmd ty d hd
  have hpos := List.count_pos_iff.mpr hmem
  by_contra hother
  rw [if_neg (Ne.symm hother)] at hcount
  omega

theorem MethodsListedOnce.mem {d : TypeDef} (h : asm.MethodsListedOnce)
    (hmd : asm.method m = .ok md) (hd : asm.typeDef md.declaringType = .ok d) : m ∈ d.methods := by
  have hcount := h m md hmd md.declaringType d hd
  rw [if_pos rfl] at hcount
  exact List.count_pos_iff.mp (by omega)

section Slots

theorem hasMethod_of_method (hmd : asm.method m = .ok md) : asm.HasMethod m :=
  (Array.getElem?_eq_some_iff.mp (Arena.entry_eq_ok_iff.mp hmd)).1

theorem sameSignature_trans {a b c : MethodDef} (h : a.sameSignature b = true)
    (h' : b.sameSignature c = true) : a.sameSignature c = true := by
  simp only [MethodDef.sameSignature, Bool.and_eq_true, decide_eq_true_eq] at h h' ⊢
  obtain ⟨⟨hname, hresult⟩, hparams⟩ := h
  obtain ⟨⟨hname', hresult'⟩, hparams'⟩ := h'
  exact ⟨⟨hname.trans hname', hresult.trans hresult'⟩, hparams.trans hparams'⟩

theorem sameSignature_refl (a : MethodDef) : a.sameSignature a = true := by
  simp [MethodDef.sameSignature]

theorem declared_of_slotStep {step : SlotStep} (h : asm.slotStep m = .ok step) :
    ∃ md, asm.method m = .ok md ∧ asm.HasType md.declaringType := by
  simp only [slotStep, exceptBind_eq_ok_iff] at h
  obtain ⟨md, hmd, kind, hkind, -⟩ := h
  obtain ⟨d, hd, -⟩ := kindOf_eq_ok_iff.mp hkind
  exact ⟨md, hmd, hasType_of_typeDef hd⟩

theorem declared_of_slotMethod {found : Option MethodId} (h : asm.slotMethod m = .ok found) :
    ∃ md, asm.method m = .ok md ∧ asm.HasType md.declaringType := by
  simp only [slotMethod, slotAfter, exceptBind_eq_ok_iff] at h
  obtain ⟨step, hstep, -⟩ := h
  exact declared_of_slotStep hstep

theorem slotMethod_slot (h : asm.slotMethod m = .ok (some slot)) :
    asm.slotMethod slot = .ok (some slot) := by
  have hstep := slotStep_of_slotAfter h
  simp [slotMethod, slotAfter, hstep, exceptBind_eq_ok_iff]

theorem slot_of_slotAfter (hlisted : MethodsListed asm) {fuel : Nat}
    (h : asm.slotAfter fuel m = .ok (some slot)) : ∃ md sd, asm.method m = .ok md ∧
      asm.method slot = .ok sd ∧ sd.sameSignature md = true ∧
      Relation.ReflTransGen asm.HasBase md.declaringType sd.declaringType := by
  induction fuel generalizing m with
  | zero => cases h
  | succ fuel ih =>
      simp only [slotAfter, exceptBind_eq_ok_iff] at h
      obtain ⟨step, hstep, h⟩ := h
      cases step with
      | settled found =>
          obtain rfl := Except.ok.inj h
          obtain rfl := eq_of_slotStep hstep
          obtain ⟨md, hmd, -⟩ := declared_of_slotStep hstep
          exact ⟨md, md, hmd, hmd, sameSignature_refl md, .refl⟩
      | overrides base =>
          obtain ⟨md, t, d, hmd, habove, hd, hmem, bd, hbd, hsame⟩ := Overridden.listed hstep
          obtain ⟨bd', sd, hbd', hsd, hsame', habove'⟩ := ih h
          cases hbd.symm.trans hbd'
          obtain rfl := hlisted t d base bd hd hmem hbd
          exact ⟨md, sd, hmd, hsd, sameSignature_trans hsame' hsame,
            habove.to_reflTransGen.trans habove'⟩

end Slots

/-- The method that fills a slot for a type: it is in the slot, and declared at or above the type
and at or below every other such method. -/
structure FilledBy (asm : Assembly) (ty : TypeDefId) (slot m : MethodId) (md : MethodDef) :
    Prop where
  method : asm.method m = .ok md
  occupies : asm.slotMethod m = .ok (some slot)
  above : Relation.ReflTransGen asm.HasBase ty md.declaringType
  nearest : ∀ m' md', asm.method m' = .ok md' → asm.slotMethod m' = .ok (some slot) →
    Relation.ReflTransGen asm.HasBase ty md'.declaringType →
    Relation.ReflTransGen asm.HasBase md.declaringType md'.declaringType

section Fillers

variable (asm) in
/-- The first method of a type that occupies a slot. -/
def occupant? (slot : MethodId) (ty : TypeDefId) : Except Fault (Option MethodId) := do
  (← asm.typeDef ty).methods.findM? fun m => return (← asm.slotMethod m) = some slot

theorem occupies_of_occupant? (h : asm.occupant? slot ty = .ok (some m)) :
    (∃ d, asm.typeDef ty = .ok d ∧ m ∈ d.methods) ∧ asm.slotMethod m = .ok (some slot) := by
  simp only [occupant?, exceptBind_eq_ok_iff] at h
  obtain ⟨d, hd, hfind⟩ := h
  obtain ⟨hmem, hoccupies⟩ := mem_of_exceptFindM? hfind
  simp only [exceptBind_eq_ok_iff, exceptPure_eq_ok_iff] at hoccupies
  obtain ⟨found, hfound, heq⟩ := hoccupies
  obtain rfl : found = some slot := by simpa using heq.symm
  exact ⟨⟨d, hd, hmem⟩, hfound⟩

theorem method_of_occupant? (hlisted : MethodsListed asm)
    (h : asm.occupant? slot ty = .ok (some m)) :
    ∃ md, asm.method m = .ok md ∧ md.declaringType = ty ∧ asm.slotMethod m = .ok (some slot) := by
  obtain ⟨⟨d, hd, hmem⟩, hoccupies⟩ := occupies_of_occupant? h
  obtain ⟨md, hmd, -⟩ := declared_of_slotMethod hoccupies
  exact ⟨md, hmd, hlisted ty d m md hd hmem hmd, hoccupies⟩

theorem occupant?_ne_none {d : TypeDef} (hd : asm.typeDef ty = .ok d) (hmem : m ∈ d.methods)
    (hslot : asm.slotMethod m = .ok (some slot)) : asm.occupant? slot ty ≠ .ok none := by
  intro h
  simp only [occupant?, hd] at h
  have hno := exceptFindM?_eq_none_iff.mp h m hmem
  simp [hslot, bind, Except.bind, pure, Except.pure] at hno

/-- A slot of a class is filled by the first occupant on the way up. -/
theorem implementation_eq {kind : TypeKind} (hsd : asm.method slot = .ok sd)
    (hkind : asm.kindOf sd.declaringType = .ok kind) (hclass : kind ≠ .interfaceType) :
    asm.implementation ty slot = (do
      let chain ← asm.selfAndAncestors ty
      chain.findSome (asm.occupant? slot)) := by
  have hdecide : decide (kind = .interfaceType) = false := decide_eq_false hclass
  simp only [implementation, hsd, hkind, bind, Except.bind, hdecide]
  rfl

theorem findSome_eq_none {α : Type} {chain : BaseChain}
    {answer : TypeDefId → Except Fault (Option α)} (h : chain.findSome answer = .ok none)
    (ht : t ∈ chain.types) : answer t = .ok none := by
  simp only [BaseChain.findSome, exceptBind_eq_ok_iff] at h
  obtain ⟨found, hfound, h⟩ := h
  cases found with
  | some a => cases h
  | none => exact exceptFindSomeM?_eq_none_iff.mp hfound t ht

theorem findSome_eq_some {α : Type} {chain : BaseChain}
    {answer : TypeDefId → Except Fault (Option α)} {a : α}
    (h : chain.findSome answer = .ok (some a)) : ∃ before t after,
      chain.types = before ++ t :: after ∧ (∀ t' ∈ before, answer t' = .ok none) ∧
        answer t = .ok (some a) := by
  simp only [BaseChain.findSome, exceptBind_eq_ok_iff] at h
  obtain ⟨found, hfound, h⟩ := h
  cases found with
  | some a' =>
      obtain rfl := Option.some.inj (Except.ok.inj h)
      exact exceptFindSomeM?_eq_some hfound
  | none =>
      simp only [BaseChain.atEnd] at h
      split at h <;> cases h

theorem introduced_of_mem (hslots : asm.introducedSlots owner = .ok slots) (hslot : slot ∈ slots) :
    ∃ d, asm.typeDef owner = .ok d ∧ slot ∈ d.methods ∧ asm.slotMethod slot = .ok (some slot) := by
  simp only [introducedSlots, exceptBind_eq_ok_iff] at hslots
  obtain ⟨d, hd, hslots⟩ := hslots
  obtain rfl := (exceptFilterM_eq_ok_iff.mp hslots).2
  obtain ⟨hmem, hintroduces⟩ := List.mem_filter.mp hslot
  rw [decide_eq_true_eq] at hintroduces
  simp only [introducesSlot, exceptBind_eq_ok_iff, exceptPure_eq_ok_iff] at hintroduces
  obtain ⟨found, hfound, heq⟩ := hintroduces
  obtain rfl : found = some slot := by simpa using heq.symm
  exact ⟨d, hd, hmem, hfound⟩

variable (hslots : asm.introducedSlots owner = .ok slots) (hslot : slot ∈ slots)
  (habove : Relation.ReflTransGen asm.HasBase ty owner)
include hslots hslot habove

/-- A slot that a type or one above it introduces is filled, at the latest by the method that
introduces it. -/
theorem implementation_ne_none : asm.implementation ty slot ≠ .ok none := by
  intro h
  obtain ⟨d, hd, hmem, hslotMethod⟩ := introduced_of_mem hslots hslot
  simp only [implementation, exceptBind_eq_ok_iff] at h
  obtain ⟨sd, hsd, kind, hkind, chain, hchain, h⟩ := h
  have howner := (mem_chain_iff hchain).mpr ⟨habove, hasType_of_typeDef hd⟩
  have hnone := findSome_eq_none h howner
  simp only [hd, bind, Except.bind] at hnone
  have hno := exceptFindM?_eq_none_iff.mp hnone slot hmem
  cases hinterface : decide (kind = .interfaceType) with
  | false => simp [fills, hinterface, hslotMethod, bind, Except.bind, pure, Except.pure] at hno
  | true =>
      have hstep := slotStep_of_slotAfter hslotMethod
      rw [decide_eq_true_eq] at hinterface
      simp only [slotStep, hsd, hkind, hinterface, bind, Except.bind, if_true] at hstep
      have hstatic : sd.isStatic = false := by
        cases hstatic : sd.isStatic <;> simp_all [pure, Except.pure]
      simp [fills, hinterface, hsd, hstatic, sameSignature_refl, bind, Except.bind, pure,
        Except.pure] at hno

variable (hlisted : asm.MethodsListedOnce) (hclass : asm.kindOf owner ≠ .ok .interfaceType)
include hlisted hclass

/-- A slot of a class is filled by a type that is nearer than all others with a
method in the slot. -/
theorem nearest_of_implementation (h : asm.implementation ty slot = .ok (some m)) :
    ∃ t, asm.occupant? slot t = .ok (some m) ∧ Relation.ReflTransGen asm.HasBase ty t ∧
      ∀ m' md', asm.method m' = .ok md' → asm.slotMethod m' = .ok (some slot) →
        Relation.ReflTransGen asm.HasBase ty md'.declaringType →
        Relation.ReflTransGen asm.HasBase t md'.declaringType := by
  obtain ⟨d, hd, hmem, hslotMethod⟩ := introduced_of_mem hslots hslot
  obtain ⟨sd, hsd, -⟩ := declared_of_slotMethod hslotMethod
  obtain rfl := hlisted.listed owner d slot sd hd hmem hsd
  have hkind : asm.kindOf sd.declaringType = .ok d.kind := kindOf_eq_ok_iff.mpr ⟨d, hd, rfl⟩
  rw [implementation_eq hsd hkind fun heq => hclass (heq ▸ hkind), exceptBind_eq_ok_iff] at h
  obtain ⟨chain, hchain, h⟩ := h
  obtain ⟨before, t, after, htypes, hbefore, hfound⟩ := findSome_eq_some h
  have hordered := htypes ▸ ordered_chain hchain
  have hmem (t' : TypeDefId) : t' ∈ before ++ t :: after ↔
      Relation.ReflTransGen asm.HasBase ty t' ∧ asm.HasType t' := htypes ▸ mem_chain_iff hchain
  refine ⟨t, hfound, ((hmem t).mp (by simp)).1, fun m' md' hmd' hoccupies hup => ?_⟩
  obtain ⟨_, hmd'', hknown⟩ := declared_of_slotMethod hoccupies
  cases hmd'.symm.trans hmd''
  obtain ⟨d', hd'⟩ := exists_typeDef hknown
  rcases List.mem_append.mp ((hmem _).mpr ⟨hup, hknown⟩) with hearlier | hlater
  · exact absurd (hbefore _ hearlier) (occupant?_ne_none hd' (hlisted.mem hmd' hd') hoccupies)
  · rcases List.mem_cons.mp hlater with heq | hlater
    · exact heq ▸ .refl
    · exact (List.rel_of_pairwise_cons (List.pairwise_append.mp hordered).2.1
        hlater).to_reflTransGen

theorem filledBy_of_implementation (h : asm.implementation ty slot = .ok (some m)) : ∃ md,
    asm.FilledBy ty slot m md ∧ Relation.ReflTransGen asm.HasBase md.declaringType owner := by
  obtain ⟨t, hfound, hup, hnearest⟩ :=
    nearest_of_implementation hslots hslot habove hlisted hclass h
  obtain ⟨md, hmd, rfl, hoccupies⟩ := method_of_occupant? hlisted.listed hfound
  obtain ⟨d, hd, hmem, hslotMethod⟩ := introduced_of_mem hslots hslot
  obtain ⟨sd, hsd, -⟩ := declared_of_slotMethod hslotMethod
  obtain rfl := hlisted.listed owner d slot sd hd hmem hsd
  exact ⟨md, ⟨hmd, hoccupies, hup, hnearest⟩, hnearest slot sd hsd hslotMethod habove⟩

/-- A derived type keeps what fills a slot for its base, unless a type below
the base overrides it. -/
theorem implementation_of_derived (hacyclic : ∀ ty, ¬ Relation.TransGen asm.HasBase ty ty)
    {derived : TypeDefId} {m' : MethodId} (hderived : Relation.ReflTransGen asm.HasBase derived ty)
    (h : asm.implementation ty slot = .ok (some m))
    (h' : asm.implementation derived slot = .ok (some m')) :
    m' = m ∨ ∃ md, asm.method m' = .ok md ∧ Relation.TransGen asm.HasBase md.declaringType ty := by
  obtain ⟨t, hfound, hup, hnearest⟩ :=
    nearest_of_implementation hslots hslot habove hlisted hclass h
  obtain ⟨t', hfound', hup', hnearest'⟩ :=
    nearest_of_implementation hslots hslot (hderived.trans habove) hlisted hclass h'
  obtain ⟨md, hmd, rfl, hoccupies⟩ := method_of_occupant? hlisted.listed hfound
  obtain ⟨md', hmd', rfl, hoccupies'⟩ := method_of_occupant? hlisted.listed hfound'
  rcases above_or_below hderived hup' with hbetween | hbelow
  · -- Both are declared at or above `ty`, so each is nearer than the other.
    have hle := hnearest' m md hmd hoccupies (hderived.trans hup)
    have hge := hnearest m' md' hmd' hoccupies' hbetween
    have heq : md'.declaringType = md.declaringType := by
      rcases Relation.reflTransGen_iff_eq_or_transGen.mp hle with heq | hlt
      · exact heq.symm
      · exact absurd (hlt.trans_left hge) (hacyclic _)
    rw [heq, hfound] at hfound'
    exact .inl (Option.some.inj (Except.ok.inj hfound')).symm
  · exact .inr ⟨md', hmd', hbelow⟩

end Fillers

/-- Where bases come to an end and everything that is referred to exists, the search for what
fills a slot has a result. -/
theorem exists_implementation [asm.Linked] (hlisted : MethodsListed asm)
    (hacyclic : ∀ ty, ¬ Relation.TransGen asm.HasBase ty ty) (hty : asm.HasType ty)
    (hslot : asm.HasMethod slot) : ∃ filler, asm.implementation ty slot = .ok filler := by
  have hends := wellFounded_overridden hlisted (wellFounded_bases hacyclic)
  have hknown : SlotsKnownUp Fault.OfMetadata asm ty :=
    ⟨fun t _ => slotsKnown_of_end fun d _ m _ h => absurd (hends.apply m) h⟩
  have : Known asm ty := ⟨hty⟩
  have : Known asm slot := ⟨hslot⟩
  cases h : asm.implementation ty slot with
  | ok filler => exact ⟨filler, rfl⟩
  | error fault =>
      have hdangling : fault.OfMetadata :=
        (inferInstance : Faults Fault.OfMetadata (asm.implementation ty slot)).fault h
      have hsafe : fault.isDangling = false :=
        Safe.reason (inferInstance : Safe asm (asm.implementation ty slot)) h
      cases hdangling.symm.trans hsafe

end Metadata.Assembly

namespace Lowering

open Metadata.Assembly

variable {asm : Assembly}

def AnyFault (_ : Fault) : Prop := True

instance : CoversIds AnyFault := ⟨fun _ _ => trivial⟩

/-- An error other than that nothing fills a slot. -/
def NotVacant (e : LoweringError) : Prop := ∀ type method, e ≠ .methodSlotNotFound type method

instance : CoversOthers NotVacant where
  other e h _ _ heq := by
    subst heq
    cases h

/-- The tables of a class have something in every place. -/
theorem filled_tables {cls : TypeDefId} {owners : List TypeDefId}
    (howners : slotOwners asm cls = .ok owners) :
    Stops Session.Any AnyFault NotVacant (owners.mapM (classTable asm cls)) := by
  have hknown (ty : TypeDefId) : SlotsKnown AnyFault asm ty :=
    ⟨fun _ _ _ _ => ⟨fun _ _ _ _ => trivial⟩⟩
  have : SlotsKnownUp AnyFault asm cls := ⟨fun t _ => hknown t⟩
  refine Stops.mapM_of fun owner howner => stops_classTable fun slots hslots slot hslot => ?_
  obtain ⟨chain, hchain, -, hiff⟩ := slotOwners_spec howners
  have habove := ((mem_chain_iff hchain).mp ((hiff owner).mp howner).1).1
  exact stops_slotValue fun h => absurd h (implementation_ne_none hslots hslot habove)

end Lowering

open Metadata.Assembly

section Coherence

variable {asm : Assembly}

/-- Where no type is its own ancestor, the slot of a method is its own slot, has its
signature and is declared at or above its type.  What fills a slot of a class for a type is
declared by the nearest type with a method in the slot, so no table of a class lacks a
function, and a derived type keeps it or overrides it below.  That the lookup answers at all
is for programs whose ids all exist. -/
theorem slots_coherent (hlisted : asm.MethodsListedOnce)
    (hacyclic : ∀ ty, ¬ Relation.TransGen asm.HasBase ty ty) :
    (∀ m slot, asm.slotMethod m = .ok (some slot) →
      asm.slotMethod slot = .ok (some slot) ∧ ∃ md sd, asm.method m = .ok md ∧
        asm.method slot = .ok sd ∧ sd.sameSignature md = true ∧
        Relation.ReflTransGen asm.HasBase md.declaringType sd.declaringType) ∧
    (∀ ty owner slots slot, Relation.ReflTransGen asm.HasBase ty owner →
      asm.kindOf owner ≠ .ok .interfaceType → asm.introducedSlots owner = .ok slots → slot ∈ slots →
      (asm.Linked → ∃ filler, asm.implementation ty slot = .ok filler) ∧
      (∀ filler, asm.implementation ty slot = .ok filler → ∃ m md, filler = some m ∧
        asm.FilledBy ty slot m md ∧ Relation.ReflTransGen asm.HasBase md.declaringType owner) ∧
      ∀ derived, Relation.TransGen asm.HasBase derived ty → ∀ filler filler',
        asm.implementation ty slot = .ok filler → asm.implementation derived slot = .ok filler' →
        filler' = filler ∨ ∃ m md, filler' = some m ∧ asm.method m = .ok md ∧
          Relation.TransGen asm.HasBase md.declaringType ty) ∧
    ∀ cls owners s e s', slotOwners asm cls = .ok owners →
      owners.mapM (classTable asm cls) s = .error (.error e) s' →
      ∀ type method, e ≠ .methodSlotNotFound type method := by
  refine ⟨fun m slot h => ⟨slotMethod_slot h, slot_of_slotAfter hlisted.listed h⟩, ?_, ?_⟩
  · intro ty owner slots slot habove hclass hslots hslot
    have hfilled {t : TypeDefId} (ht : Relation.ReflTransGen asm.HasBase t owner)
        {filler : Option MethodId} (h : asm.implementation t slot = .ok filler) :
        ∃ m, filler = some m := by
      cases filler with
      | some m => exact ⟨m, rfl⟩
      | none => exact absurd h (implementation_ne_none hslots hslot ht)
    refine ⟨fun _ => ?_, fun filler h => ?_, fun derived hderived filler filler' h h' => ?_⟩
    · obtain ⟨d, hd, -, hslotMethod⟩ := introduced_of_mem hslots hslot
      obtain ⟨sd, hsd, -⟩ := declared_of_slotMethod hslotMethod
      have hty := hasType_of_above habove (hasType_of_typeDef hd)
      exact exists_implementation hlisted.listed hacyclic hty (hasMethod_of_method hsd)
    · obtain ⟨m, rfl⟩ := hfilled habove h
      obtain ⟨md, hfills, howner⟩ :=
        filledBy_of_implementation hslots hslot habove hlisted hclass h
      exact ⟨m, md, rfl, hfills, howner⟩
    · have hderived := hderived.to_reflTransGen
      obtain ⟨m, rfl⟩ := hfilled habove h
      obtain ⟨m', rfl⟩ := hfilled (hderived.trans habove) h'
      rcases implementation_of_derived hslots hslot habove hlisted hclass
        hacyclic hderived h h' with
        rfl | ⟨md, hmd, hbelow⟩
      · exact .inl rfl
      · exact .inr ⟨m', md, rfl, hmd, hbelow⟩
  · intro cls owners s e s' howners h
    exact (filled_tables howners).stops trivial _ _ h

end Coherence

section Example

/-- A class with two virtual methods, one that overrides the first of them, and one below it that
hides the first and overrides the second. -/
def tower : Assembly :=
  let roots := Assembly.ofName "tower"
  let method (name : String) (ty : TypeDefId) (flags : FlagWord) : MethodDef :=
    { name, declaringType := ty, returnType := .void, flags := ⟨flags⟩ }
  { roots with
    types := roots.types ++ #[
      { TypeDef.ofKind .classType "" "Base" with
        base := some ⟨0⟩
        methods := [⟨0⟩, ⟨1⟩] },
      { TypeDef.ofKind .classType "" "Middle" with
        base := some ⟨3⟩
        methods := [⟨2⟩] },
      { TypeDef.ofKind .classType "" "Top" with
        base := some ⟨4⟩
        methods := [⟨3⟩, ⟨4⟩] }]
    methods := #[
      method "M" ⟨3⟩ MethodFlags.virtual,
      method "N" ⟨3⟩ MethodFlags.virtual,
      method "M" ⟨4⟩ MethodFlags.virtual,
      method "M" ⟨5⟩ (MethodFlags.virtual ||| MethodFlags.newSlot),
      method "N" ⟨5⟩ MethodFlags.virtual] }

theorem tower_listed : tower.MethodsListedOnce := by
  intro m md hmd ty d hd
  have hfound := Arena.entry_eq_ok_iff.mp hmd
  have hlt := (Array.getElem?_eq_some_iff.mp hfound).1
  exact forall_typeDef (P := fun ty d => ∀ i < tower.methods.size, ∀ md ∈ tower.methods[i]?,
    d.methods.count ⟨i⟩ = if ty = md.declaringType then 1 else 0) (by decide +kernel) hd
    m.index hlt md hfound

theorem tower_acyclic (ty : TypeDefId) : ¬ Relation.TransGen tower.HasBase ty ty :=
  acyclic_of_rank TypeDefId.index (by decide +kernel) ty

/-- The class at the top hides a method and keeps what filled its slot below. -/
theorem tower_slots : tower.MethodsListedOnce ∧
    (∀ ty, ¬ Relation.TransGen tower.HasBase ty ty) ∧
    tower.introducedSlots ⟨3⟩ = .ok [⟨0⟩, ⟨1⟩] ∧ tower.introducedSlots ⟨5⟩ = .ok [⟨3⟩] ∧
    tower.implementation ⟨5⟩ ⟨0⟩ = .ok (some ⟨2⟩) ∧ tower.implementation ⟨5⟩ ⟨1⟩ = .ok (some ⟨4⟩) ∧
    (∃ md, tower.FilledBy ⟨5⟩ ⟨0⟩ ⟨2⟩ md) ∧
    ∃ md, tower.method ⟨4⟩ = .ok md ∧ Relation.TransGen tower.HasBase md.declaringType ⟨4⟩ := by
  have hbase : tower.HasBase ⟨4⟩ ⟨3⟩ := ⟨_, rfl, rfl⟩
  have htop : tower.HasBase ⟨5⟩ ⟨4⟩ := ⟨_, rfl, rfl⟩
  have hclass : tower.kindOf ⟨3⟩ ≠ .ok .interfaceType := by decide +kernel
  have hslots : tower.introducedSlots ⟨3⟩ = .ok [⟨0⟩, ⟨1⟩] := by decide +kernel
  have hfills : tower.implementation ⟨5⟩ ⟨0⟩ = .ok (some ⟨2⟩) := by decide +kernel
  have hfills' : tower.implementation ⟨5⟩ ⟨1⟩ = .ok (some ⟨4⟩) := by decide +kernel
  obtain ⟨-, hcoherent, -⟩ := slots_coherent tower_listed tower_acyclic
  obtain ⟨-, hfilled, -⟩ :=
    hcoherent ⟨5⟩ ⟨3⟩ _ ⟨0⟩ (.head htop (.single hbase)) hclass hslots (by simp)
  obtain ⟨-, -, hkept⟩ := hcoherent ⟨4⟩ ⟨3⟩ _ ⟨1⟩ (.single hbase) hclass hslots (by simp)
  refine ⟨tower_listed, tower_acyclic, hslots, by decide +kernel, hfills, hfills', ?_, ?_⟩
  · obtain ⟨m, md, heq, hfilled, -⟩ := hfilled _ hfills
    obtain rfl := Option.some.inj heq
    exact ⟨md, hfilled⟩
  · have hbelow := hkept ⟨5⟩ (.single htop) (some ⟨1⟩) _ (by decide +kernel) hfills'
    rcases hbelow with heq | ⟨m, md, heq, hmd, hbelow⟩
    · cases heq
    · obtain rfl := Option.some.inj heq
      exact ⟨md, hmd, hbelow⟩

end Example

end CilSsa
