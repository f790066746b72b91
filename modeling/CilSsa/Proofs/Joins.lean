import CilSsa.Proofs.Fitting
import CilSsa.Proofs.Merging
import CilSsa.Proofs.Placement
import CilSsa.Proofs.SharedTypes

/-!
The code that joins values in a block, without misuse: conversions that fit, at the end of the
blocks that pass values on, and phis at the head of the block, with entries of their types.
-/

namespace CilSsa

open Ssa Metadata Lowering

namespace Ssa

/-- Whether values of the one class can be converted to the other: numbers to numbers, and integers
and pointers to each other. -/
def TypeClass.blends : TypeClass → TypeClass → Bool
  | .int _, .int _ | .int _, .float _ | .float _, .int _ | .float _, .float _ => true
  | .int _, .pointer | .pointer, .int _ | .pointer, .pointer => true
  | _, _ => false

/-- Numbers can be converted to each other. -/
theorem TypeClass.blends_numbers {source target : TypeClass}
    (hs : (source.isInt || source.isFloat) = true) (ht : (target.isInt || target.isFloat) = true) :
    source.blends target = true := by
  cases source <;> cases target <;> simp_all [isInt, isFloat, blends]

/-- So can integers and pointers. -/
theorem TypeClass.blends_addresses {source target : TypeClass}
    (hs : (source.isInt || source.isPointer) = true)
    (ht : (target.isInt || target.isPointer) = true) : source.blends target = true := by
  cases source <;> cases target <;> simp_all [isInt, isPointer, blends]

/-- The type of a number is known by its class. -/
theorem IrType.eq_of_classify {data data' : IrType} (h : data.classify = data'.classify)
    (hnumber : (data.classify.isInt || data.classify.isFloat) = true) :
    data.isInterned = true ∧ data = data' := by
  cases data with
  | int bits | float bits => cases data' <;> simp_all [classify, isInterned]
  | _ => cases hnumber

namespace Module

variable {P : Change → Prop} {m m' : Module} {b : BlockId} {types : List TypeId}

/-- Every type that is determined by its parts is there once. -/
def Interned (m : Module) : Prop :=
  ∀ (i j : Nat) (type : IrType), type.isInterned = true → m.types[i]? = some type →
    m.types[j]? = some type → i = j

/-- So it is in every module that the builder makes. -/
theorem Reached.interned (h : m.Reached) : m.Interned := by
  obtain ⟨name, commands, hrun⟩ := h
  obtain ⟨events, -, hshared⟩ := Command.exists_chronicle hrun shared_empty
  exact fun i j type => hshared.unique

/-- Values of the one type can be brought to the other. -/
def Blends (m : Module) (own type : TypeId) : Prop :=
  own = type ∨ ∃ source target, m.classify own = .ok source ∧ m.classify type = .ok target ∧
    source.blends target = true

/-- Whether values of the types can share a slot: they have one type, or are integers and
floating-point numbers, or integers and pointers. -/
def Joinable (m : Module) (types : List TypeId) : Prop :=
  (∀ type ∈ types, ∀ type' ∈ types, type = type') ∨
    (∀ type ∈ types, ∃ cls, m.classify type = .ok cls ∧ (cls.isInt || cls.isFloat) = true) ∨
    ∀ type ∈ types, ∃ cls, m.classify type = .ok cls ∧ (cls.isInt || cls.isPointer) = true

theorem Joinable.blends {own type : TypeId} (h : m.Joinable types) (hown : own ∈ types)
    (htype : type ∈ types) : m.Blends own type := by
  rcases h with hsame | hnumbers | haddresses
  · exact .inl (hsame _ hown _ htype)
  · obtain ⟨source, hsource, hs⟩ := hnumbers _ hown
    obtain ⟨target, htarget, ht⟩ := hnumbers _ htype
    exact .inr ⟨source, target, hsource, htarget, TypeClass.blends_numbers hs ht⟩
  · obtain ⟨source, hsource, hs⟩ := haddresses _ hown
    obtain ⟨target, htarget, ht⟩ := haddresses _ htype
    exact .inr ⟨source, target, hsource, htarget, TypeClass.blends_addresses hs ht⟩

theorem Joinable.of_subset {types' : List TypeId} (h : m.Joinable types)
    (hsubset : ∀ type ∈ types', type ∈ types) : m.Joinable types' := by
  rcases h with hsame | hnumbers | haddresses
  · exact .inl fun t ht t' ht' => hsame t (hsubset t ht) t' (hsubset t' ht')
  · exact .inr (.inl fun t ht => hnumbers t (hsubset t ht))
  · exact .inr (.inr fun t ht => haddresses t (hsubset t ht))

theorem Blends.evolves {own type : TypeId} (h : m.Blends own type) (hevolves : m.Evolves P m') :
    m'.Blends own type := by
  rcases h with hsame | ⟨source, target, hsource, htarget, hblends⟩
  · exact .inl hsame
  · exact .inr ⟨source, target, hevolves.classify hsource, hevolves.classify htarget, hblends⟩

/-- An integer or floating-point type is known by its class. -/
theorem Interned.eq_of_classify {own type : TypeId} {cls : TypeClass} (h : m.Interned)
    (hown : m.classify own = .ok cls) (htype : m.classify type = .ok cls)
    (hnumber : (cls.isInt || cls.isFloat) = true) : own = type := by
  obtain ⟨data, hdata, hclass⟩ := classify_eq_ok_iff.mp hown
  obtain ⟨data', hdata', hclass'⟩ := classify_eq_ok_iff.mp htype
  subst hclass
  obtain ⟨hinterned, rfl⟩ := IrType.eq_of_classify hclass'.symm hnumber
  obtain ⟨i⟩ := own
  obtain ⟨j⟩ := type
  exact congrArg TypeId.mk (h i j data hinterned hdata hdata')

section Heads

theorem takeWhile_congr {p q : ValueId → Bool} {l : List ValueId} (h : ∀ v ∈ l, p v = q v) :
    l.takeWhile p = l.takeWhile q := by
  induction l with
  | nil => rfl
  | cons v l ih =>
      rw [List.takeWhile_cons, List.takeWhile_cons, h v List.mem_cons_self,
        ih fun w hw => h w (List.mem_cons_of_mem v hw)]

theorem takeWhile_append_singleton {p : ValueId → Bool} {l : List ValueId} {v : ValueId}
    (hv : p v = false) : (l ++ [v]).takeWhile p = l.takeWhile p := by
  induction l with
  | nil => simp [hv]
  | cons w l ih => rw [List.cons_append, List.takeWhile_cons, List.takeWhile_cons, ih]

/-- What is put behind the head of a list is the end of its head. -/
theorem takeWhile_insert {p : ValueId → Bool} {l : List ValueId} {v : ValueId} (hv : p v = true) :
    (l.takeWhile p ++ v :: l.dropWhile p).takeWhile p = l.takeWhile p ++ [v] := by
  induction l with
  | nil => simp [hv]
  | cons w l ih =>
      by_cases hw : p w = true
      · simp only [List.takeWhile_cons, List.dropWhile_cons, hw, if_true, List.cons_append, ih]
      · simp [hw, hv]

theorem heads_apply_eq {c : Change} {known : List ValueId} (hc : ∀ type, c ≠ .addPhi b type)
    (hfits : m.Fits c) (h : m.PhisIn b known) : (m.apply c).heads b = m.heads b := by
  obtain ⟨block, hblock, hknown⟩ := h
  have hphis : ∀ v ∈ block.insts, Build.isPhi (m.apply c) v = Build.isPhi m v :=
    fun v hv => isPhi_apply hfits (hknown v hv).1
  have hheads : m.heads b = block.insts.takeWhile (Build.isPhi m) := by rw [heads, hblock]
  by_cases hspares : c.Spares b
  · rw [hheads, heads, block_apply hspares hblock]
    exact takeWhile_congr hphis
  · cases c with
    | addInst place type inst =>
        obtain rfl : place = some b := by simpa [Change.Spares] using hspares
        have hblock' : (m.apply (.addInst (some b) type inst)).blocks[b.index]? =
            some (block.append ⟨m.values.size⟩) := by simp [apply, Array.getElem?_modify, hblock]
        have hnew : Build.isPhi (m.apply (.addInst (some b) type inst)) ⟨m.values.size⟩ =
            false := by
          simp [Build.isPhi, apply, pushValue, Value.inst?, hfits.2.1]
        rw [hheads, heads, hblock']
        exact (takeWhile_append_singleton hnew).trans (takeWhile_congr hphis)
    | addPhi b' type =>
        obtain rfl : b' = b := by simpa [Change.Spares] using hspares
        exact absurd rfl (hc type)
    | terminate b' terminator =>
        obtain rfl : b' = b := by simpa [Change.Spares] using hspares
        have hblock' : (m.apply (.terminate b' terminator)).blocks[b'.index]? =
            some { block with terminator := some terminator } := by
          simp [apply, Array.getElem?_modify, hblock]
        rw [hheads, heads, hblock']
        exact takeWhile_congr hphis
    | _ => exact absurd trivial hspares

/-- A new phi is the last one at the head of its block. -/
theorem heads_addPhi (type : TypeId) {known : List ValueId} (h : m.PhisIn b known) :
    (m.apply (.addPhi b type)).heads b = m.heads b ++ [⟨m.values.size⟩] := by
  obtain ⟨block, hblock, hknown⟩ := h
  let pushed := m.pushValue ⟨type, .inst (some b) (.phi [])⟩
  have hfits : m.Fits (.addPhi b type) := (Array.getElem?_eq_some_iff.mp hblock).1
  have hphis : ∀ v ∈ block.insts, Build.isPhi pushed v = Build.isPhi m v :=
    fun v hv => isPhi_apply (c := .addPhi b type) hfits (hknown v hv).1
  have hnew : Build.isPhi pushed ⟨m.values.size⟩ = true := by
    simp [Build.isPhi, pushed, pushValue, Value.inst?, Inst.isPhi]
  have hblock' : (m.apply (.addPhi b type)).blocks[b.index]? =
      some (block.insert (Build.isPhi pushed) ⟨m.values.size⟩) := by
    simp [apply, Array.getElem?_modify, hblock, pushed]
  have hheads : m.heads b = block.insts.takeWhile (Build.isPhi m) := by rw [heads, hblock]
  rw [hheads, heads, hblock', ← takeWhile_congr hphis]
  exact takeWhile_insert hnew

end Heads

section Entries

def PhisTyped (start : Nat) (m : Module) : Prop :=
  ∀ v type block entries, start ≤ v → m.values[v]? = some ⟨type, .inst block (.phi entries)⟩ →
    ∀ entry ∈ entries, m.typeOf entry.1 = .ok type

variable {start : Nat}

/-- A new phi has no entries, and other phis are left alone. -/
theorem phisTyped_apply {c : Change} (hc : c.isTame = true)
    (hentry : ∀ phi value source, c ≠ .addEntry phi value source)
    (hkept : ∀ function kept, c ≠ .keepBlocks function kept) (hfits : m.Fits c)
    (h : m.PhisTyped start) : (m.apply c).PhisTyped start := by
  intro v type block entries hv hphi entry hmem
  have hevolves : m.Evolves (fun _ => True) (m.apply c) := Evolves.one trivial hfits
  by_cases hold : v < m.values.size
  · have hleaves : c.Leaves v m.values[v] := by
      cases c with
      | addEntry phi value source => exact absurd rfl (hentry phi value source)
      | setInitial => cases hc
      | keepBlocks function kept => exact absurd rfl (hkept function kept)
      | _ => trivial
    have hsame := value_apply hleaves (Array.getElem?_eq_getElem hold)
    rw [hphi] at hsame
    have hbefore : m.values[v]? = some ⟨type, .inst block (.phi entries)⟩ := by
      rw [Array.getElem?_eq_getElem hold, ← hsame]
    exact hevolves.typeOf (h v type block entries hv hbefore entry hmem)
  · have hnone : m.values[v]? = none := Array.getElem?_eq_none (Nat.le_of_not_lt hold)
    cases c with
    | addValue value =>
        simp only [apply, pushValue, Array.getElem?_push, hnone] at hphi
        split at hphi
        · obtain rfl := Option.some.inj hphi
          cases hfits
        · cases hphi
    | addInst place type' inst =>
        have hvalue : (m.pushValue ⟨type', .inst place inst⟩).values[v]? =
            some ⟨type, .inst block (.phi entries)⟩ := by
          cases place <;> exact hphi
        simp only [pushValue, Array.getElem?_push, hnone] at hvalue
        split at hvalue
        · obtain ⟨rfl, rfl, rfl⟩ : type' = type ∧ place = block ∧ inst = .phi entries := by
            simpa using hvalue
          cases hfits.2.1
        · cases hvalue
    | addPhi place type' =>
        simp only [apply, pushValue, Array.getElem?_push, hnone] at hphi
        split at hphi
        · obtain ⟨-, -, rfl⟩ : type' = type ∧ some place = block ∧ [] = entries :=
            by simpa using hphi
          cases hmem
        · cases hphi
    | addEntry phi value source => exact absurd rfl (hentry phi value source)
    | setInitial => cases hc
    | keepBlocks function kept => exact absurd rfl (hkept function kept)
    | _ => exact absurd (hnone.symm.trans hphi) (by simp)

theorem phisTyped_addEntry {phi value : ValueId} {source : BlockId} {type : TypeId}
    (hphi : m.typeOf phi = .ok type) (hvalue : m.typeOf value = .ok type)
    (hfits : m.Fits (.addEntry phi value source)) (h : m.PhisTyped start) :
    (m.apply (.addEntry phi value source)).PhisTyped start := by
  intro v own block entries hv hentries entry hmem
  have hevolves : m.Evolves (fun _ => True) (m.apply (.addEntry phi value source)) :=
    Evolves.one trivial hfits
  obtain ⟨own', block', entries', hbefore⟩ := hfits
  by_cases hsame : phi.index = v
  · subst hsame
    obtain ⟨rfl, rfl, rfl⟩ : own' = own ∧ block' = block ∧
        entries' ++ [(value, source)] = entries := by
      simpa [apply, Array.getElem?_modify, hbefore, Value.addEntry] using hentries
    obtain rfl : own' = type := by
      simpa [Module.typeOf, Module.value, Arena.entry_eq_ok_iff, hbefore, Arena.entry] using hphi
    rcases List.mem_append.mp hmem with hmem | hmem
    · exact hevolves.typeOf (h _ _ _ _ hv hbefore entry hmem)
    · obtain rfl := List.mem_singleton.mp hmem
      exact hevolves.typeOf hvalue
  · have hkept : m.values[v]? = some ⟨own, .inst block (.phi entries)⟩ := by
      simpa [apply, Array.getElem?_modify, hsame] using hentries
    exact hevolves.typeOf (h _ _ _ _ hv hkept entry hmem)

end Entries

end Module

end Ssa

namespace Ssa.Build

open Ssa.Module

variable {m : Module} {b : BlockId} {type own : TypeId} {value : ValueId}

section Steps

/-- An instruction is added at the end of an open block. -/
theorem pushInst_open {inst : Inst} (hposition : m.position = some b) (hopen : m.OpenAt b) :
    pushInst type inst m = .ok ⟨m.values.size⟩ (m.apply (.addInst (some b) type inst)) := by
  obtain ⟨block, hblock, hnone⟩ := hopen
  rw [pushInst, getBind_eq_ok_iff, hposition]
  simp only [bind_eq_ok_iff (x := query _), query_eq_ok_iff]
  refine ⟨block, m, ⟨Arena.entry_eq_ok_iff.mpr hblock, rfl⟩, ?_⟩
  rw [if_neg (by simp [hnone])]
  rfl

theorem cast_open {op : CastOp} {source target : TypeClass} (hown : m.typeOf value = .ok own)
    (hsource : m.classify own = .ok source) (htarget : m.classify type = .ok target)
    (hfits : castFits op source target = true) (hposition : m.position = some b)
    (hopen : m.OpenAt b) :
    cast op value type m = .ok ⟨m.values.size⟩
      (m.apply (.addInst (some b) type (.cast op value))) := by
  simp only [cast, bind_eq_ok_iff, query_eq_ok_iff]
  have hclass : m.classOf value = .ok source := classOf_eq_ok_iff.mpr ⟨own, hown, hsource⟩
  refine ⟨source, m, ⟨hclass, rfl⟩, target, m, ⟨htarget, rfl⟩, ?_⟩
  rw [if_neg (by simp [hfits])]
  exact pushInst_open hposition hopen

theorem phi_eq {block : Block} (hblock : m.blocks[b.index]? = some block) :
    phi b type m = .ok ⟨m.values.size⟩ (m.apply (.addPhi b type)) := by
  obtain ⟨id, m', h⟩ : ∃ id m', phi b type m = .ok id m' := by
    simp only [phi, bind_eq_ok_iff (x := query _), bind_eq_ok_iff (x := pushValue _ _),
      query_eq_ok_iff]
    exact ⟨_, _, _, _, rfl, block, _, ⟨Arena.entry_eq_ok_iff.mpr hblock, rfl⟩, rfl⟩
  obtain ⟨rfl, rfl, -⟩ := phi_eq_ok h
  exact h

theorem addIncoming_eq {phi : ValueId} {source : BlockId} {block : Option BlockId}
    {entries : List (ValueId × BlockId)}
    (hphi : m.values[phi.index]? = some ⟨type, .inst block (.phi entries)⟩)
    (hvalue : m.typeOf value = .ok type) :
    addIncoming phi value source m = .ok () (m.apply (.addEntry phi value source)) := by
  have hown : m.typeOf phi = .ok type := typeOf_eq_ok_iff.mpr ⟨_, hphi⟩
  simp only [addIncoming, bind_eq_ok_iff (x := query _), query_eq_ok_iff]
  refine ⟨type, m, ⟨hown, rfl⟩, type, m, ⟨hvalue, rfl⟩, ?_⟩
  rw [if_neg (by simp)]
  simp only [bind_eq_ok_iff, query_eq_ok_iff]
  refine ⟨_, m, ⟨Arena.entry_eq_ok_iff.mpr hphi, rfl⟩, modify_eq_ok_iff.mpr ?_⟩
  rw [apply]
  congr 1
  exact modify_congr hphi rfl

end Steps

end Ssa.Build

namespace Lowering

variable {asm : Assembly} {m m' : Module} {b source target : BlockId} {type own : TypeId}
  {value : ValueId} {signed : Bool}

section Conversions

/-- There is a conversion that fits, unless the classes are those of one number type. -/
theorem conversion?_blends (signed : Bool) {source target : TypeClass}
    (h : source.blends target = true)
    (hne : (source.isInt || source.isFloat) = true → source ≠ target) :
    ∃ op, conversion? signed source target = some op ∧ Build.castFits op source target = true := by
  cases source <;> cases target <;> try cases h
  case int.int a c =>
    have hne : a ≠ c := fun heq => hne rfl (congrArg _ heq)
    by_cases hgt : a > c
    · exact ⟨.trunc, by simp [conversion?, hgt], by simp [Build.castFits, hgt]⟩
    · have hlt : a < c := by omega
      by_cases hsext : (signed && a > 1) = true
      · exact ⟨.sext, by rw [conversion?, if_neg hgt, if_pos hlt, if_pos hsext],
          by simp [Build.castFits, hlt]⟩
      · exact ⟨.zext, by rw [conversion?, if_neg hgt, if_pos hlt, if_neg hsext],
          by simp [Build.castFits, hlt]⟩
  case float.float a c =>
    have hne : a ≠ c := fun heq => hne rfl (congrArg _ heq)
    by_cases hlt : a < c
    · exact ⟨.fpext, by simp [conversion?, coercion?, hlt], by simp [Build.castFits, hlt]⟩
    · have hgt : c < a := by omega
      exact ⟨.fptrunc, by simp [conversion?, coercion?, hlt], by simp [Build.castFits, hgt]⟩
  case int.float => cases signed <;> exact ⟨_, rfl, rfl⟩
  case float.int => cases signed <;> exact ⟨_, rfl, rfl⟩
  all_goals exact ⟨_, rfl, rfl⟩

/-- Between types that blend, a value that does not have the type is converted at
the end of the block. -/
theorem coerce_blends (signed : Bool) (hown : m.typeOf value = .ok own)
    (hblends : m.Blends own type) (hinterned : m.Interned) (hposition : m.position = some b)
    (hopen : m.OpenAt b) :
    (own = type ∧ coerce value type signed m = .ok value m) ∨
      ∃ op, coerce value type signed m =
        .ok ⟨m.values.size⟩ (m.apply (.addInst (some b) type (.cast op value))) := by
  by_cases hsame : own = type
  · exact .inl ⟨hsame, coerce_same signed (hsame ▸ hown)⟩
  · obtain ⟨source, target, hsource, htarget, hclasses⟩ := hblends.resolve_left hsame
    obtain ⟨op, hop, hfits⟩ := conversion?_blends signed hclasses fun hnumber heq =>
      hsame (hinterned.eq_of_classify hsource (heq ▸ htarget) hnumber)
    refine .inr ⟨op, ?_⟩
    rw [coerce_eq hown hsame hsource htarget, hop]
    exact Build.cast_open hown hsource htarget hfits hposition hopen

end Conversions

end Lowering

/-- The changes of merges into a block: conversions of what blocks pass on,
and phis with entries. -/
def Ssa.Change.Joins (target : BlockId) (passed : BlockId → ValueId → Prop) : Change → Prop
  | .addInst (some b) _ (.cast _ value) => passed b value
  | .addPhi b _ => b = target
  | .addEntry .. | .moveTo _ => True
  | _ => False

namespace Ssa.Module

variable {target b : BlockId} {passed : BlockId → ValueId → Prop} {m m' m'' : Module} {c : Change}
  {start : Nat}

section Joins

theorem misuses_of_joins (h : m.Evolves (Change.Joins target passed) m') :
    m'.misuses = m.misuses := by
  refine h.preserves (I := fun m' => m'.misuses = m.misuses) (fun m₁ c hc _ ih => ?_) rfl
  cases c with
  | addInst place type inst => cases place <;> exact ih
  | record misuse => exact hc.elim
  | _ => exact ih

theorem interned_of_joins (h : m.Evolves (Change.Joins target passed) m') (hm : m.Interned) :
    m'.Interned := by
  refine h.preserves (I := Interned) (fun m₁ c hc _ ih => ?_) hm
  cases c with
  | addInst place type inst => cases place <;> exact ih
  | addType type => exact hc.elim
  | defineStruct id type => exact hc.elim
  | _ => exact ih

theorem openAt_of_joins (h : m.Evolves (Change.Joins target passed) m') (hm : m.OpenAt b) :
    m'.OpenAt b := by
  refine h.preserves (I := fun m => m.OpenAt b) (fun m₁ c hc hfits hopen => ?_) hm
  cases c with
  | moveTo => exact hopen
  | addInst | addPhi | addEntry =>
      exact Evolves.openAt (P := fun c => c.isOrderly = true) (Evolves.one rfl hfits)
        (fun _ => id) hopen
  | _ => exact hc.elim

/-- An instruction that is new in a block is a phi of the target or converts what the block passes
on. -/
theorem insts_of_joins (h : m.Evolves (Change.Joins target passed) m') {block' : Block}
    {v : ValueId} (hblock' : m'.blocks[b.index]? = some block') (hv : v ∈ block'.insts) :
    (∃ block, m.blocks[b.index]? = some block ∧ v ∈ block.insts) ∨
      (b = target ∧ m'.PhiOf target v) ∨ ∃ type op operand, passed b operand ∧
        m'.values[v.index]? = some ⟨type, .inst (some b) (.cast op operand)⟩ := by
  refine h.preserves (I := fun m' => ∀ block', m'.blocks[b.index]? = some block' →
    v ∈ block'.insts → (∃ block, m.blocks[b.index]? = some block ∧ v ∈ block.insts) ∨
      (b = target ∧ m'.PhiOf target v) ∨ ∃ type op operand, passed b operand ∧
        m'.values[v.index]? = some ⟨type, .inst (some b) (.cast op operand)⟩) ?_
    (fun block' hblock' hv => .inl ⟨block', hblock', hv⟩) block' hblock' hv
  intro m₁ c hc hfits ih block₁ hblock₁ hv
  have hevolves : m₁.Evolves (Change.Joins target passed) (m₁.apply c) := Evolves.one hc hfits
  have hlt : b.index < m₁.blocks.size := by
    have hlt := (Array.getElem?_eq_some_iff.mp hblock₁).1
    cases c with
    | addInst place type inst => cases place <;> simpa [apply, pushValue] using hlt
    | addPhi => simpa [apply, pushValue] using hlt
    | addEntry => exact hlt
    | moveTo => exact hlt
    | _ => exact hc.elim
  have hbefore := Array.getElem?_eq_getElem hlt
  have hold (hmem : v ∈ (m₁.blocks[b.index]).insts) :
      (∃ block, m.blocks[b.index]? = some block ∧ v ∈ block.insts) ∨
        (b = target ∧ (m₁.apply c).PhiOf target v) ∨ ∃ type op operand, passed b operand ∧
          (m₁.apply c).values[v.index]? = some ⟨type, .inst (some b) (.cast op operand)⟩ := by
    rcases ih _ hbefore hmem with hfirst | ⟨hb, hphi⟩ | ⟨type, op, operand, hpassed, hcast⟩
    · exact .inl hfirst
    · exact .inr (.inl ⟨hb, hevolves.phiOf hphi⟩)
    · exact .inr (.inr ⟨type, op, operand, hpassed, hevolves.cast hcast⟩)
  by_cases hspares : c.Spares b
  · obtain rfl := Option.some.inj (hblock₁.symm.trans (block_apply hspares hbefore))
    exact hold hv
  · cases c with
    | addInst place type inst =>
        obtain rfl : place = some b := by simpa [Change.Spares] using hspares
        obtain rfl : m₁.blocks[b.index].append ⟨m₁.values.size⟩ = block₁ := by
          simpa [apply, Array.getElem?_modify, hbefore] using hblock₁
        rcases List.mem_append.mp hv with hv | hv
        · exact hold hv
        · obtain rfl := List.mem_singleton.mp hv
          cases inst with
          | cast op operand =>
              exact .inr (.inr ⟨type, op, operand, hc, by simp [apply, pushValue]⟩)
          | _ => exact hc.elim
    | addPhi b' type =>
        obtain rfl : b' = b := by simpa [Change.Spares] using hspares
        obtain rfl : b' = target := hc
        obtain rfl : m₁.blocks[b'.index].insert
            (Build.isPhi (m₁.pushValue ⟨type, .inst (some b') (.phi [])⟩)) ⟨m₁.values.size⟩ =
              block₁ := by
          simpa [apply, Array.getElem?_modify, hbefore] using hblock₁
        rcases Block.mem_insert.mp hv with rfl | hv
        · exact .inr (.inl ⟨rfl, type, [], by simp [apply, pushValue]⟩)
        · exact hold hv
    | terminate => exact hc.elim
    | _ => exact absurd trivial hspares

/-- The phis of a block are at its head, and those that are new have entries of their types. -/
structure Tidy (m : Module) (start : Nat) (b : BlockId) : Prop where
  phis : m.PhisIn b (m.heads b)
  typed : m.PhisTyped start

/-- Merges into a block that have made these phis. -/
structure Joining (start : Nat) (target : BlockId) (passed : BlockId → ValueId → Prop)
    (made : List ValueId) (m m' : Module) : Prop where
  evolves : m.Evolves (Change.Joins target passed) m'
  tidy : m.Tidy start target → m'.Tidy start target ∧ m'.heads target = m.heads target ++ made

theorem Joining.refl (m : Module) : Joining start target passed [] m m where
  evolves := Relation.ReflTransGen.refl
  tidy h := ⟨h, by simp⟩

theorem Joining.trans {made made' : List ValueId} (h : Joining start target passed made m m')
    (h' : Joining start target passed made' m' m'') :
    Joining start target passed (made ++ made') m m'' where
  evolves := h.evolves.trans h'.evolves
  tidy hm := by
    obtain ⟨htidy, hheads⟩ := h.tidy hm
    obtain ⟨htidy', hheads'⟩ := h'.tidy htidy
    exact ⟨htidy', by rw [hheads', hheads, List.append_assoc]⟩

theorem joining_addPhi {type : TypeId} {block : Block}
    (hblock : m.blocks[target.index]? = some block) :
    Joining start target passed [⟨m.values.size⟩] m (m.apply (.addPhi target type)) where
  evolves := Evolves.one rfl (Array.getElem?_eq_some_iff.mp hblock).1
  tidy h := by
    have hheads := heads_addPhi type h.phis
    refine ⟨⟨?_, ?_⟩, hheads⟩
    · refine (phisIn_addPhi type h.phis).mono fun v hv => ?_
      rw [hheads, List.mem_append, List.mem_singleton]
      exact (List.mem_cons.mp hv).symm
    · exact phisTyped_apply rfl (by simp) (by simp) (Array.getElem?_eq_some_iff.mp hblock).1 h.typed

theorem joining_cast {type : TypeId} {op : CastOp} {operand : ValueId}
    (hposition : m.position = some b) (hopen : m.OpenAt b) (hpassed : passed b operand) :
    Joining start target passed [] m (m.apply (.addInst (some b) type (.cast op operand))) := by
  obtain ⟨block, hblock, -⟩ := hopen
  have hfits : m.Fits (.addInst (some b) type (.cast op operand)) := by
    refine ⟨hposition, rfl, by simp [Inst.destination?], fun b' hb' => ?_⟩
    obtain rfl := Option.some.inj hb'
    exact (Array.getElem?_eq_some_iff.mp hblock).1
  refine ⟨Evolves.one hpassed hfits, fun h => ?_⟩
  have hheads := heads_apply_eq (by simp) hfits h.phis
  rw [List.append_nil]
  refine ⟨⟨?_, phisTyped_apply rfl (by simp) (by simp) hfits h.typed⟩, hheads⟩
  rw [hheads]
  exact phisIn_apply (by simp) hfits h.phis

theorem value_addEntry {phi value : ValueId} {source : BlockId} {type : TypeId}
    {entries : List (ValueId × BlockId)} {block : Option BlockId}
    (hphi : m.values[phi.index]? = some ⟨type, .inst block (.phi entries)⟩) :
    (m.apply (.addEntry phi value source)).values[phi.index]? =
      some ⟨type, .inst block (.phi (entries ++ [(value, source)]))⟩ := by
  simp [apply, Array.getElem?_modify, hphi, Value.addEntry]

theorem joining_addEntry {phi value : ValueId} {source : BlockId} {type : TypeId}
    {entries : List (ValueId × BlockId)} {block : Option BlockId}
    (hphi : m.values[phi.index]? = some ⟨type, .inst block (.phi entries)⟩)
    (hvalue : m.typeOf value = .ok type) :
    Joining start target passed [] m (m.apply (.addEntry phi value source)) := by
  have hfits : m.Fits (.addEntry phi value source) := ⟨type, block, entries, hphi⟩
  refine ⟨Evolves.one trivial hfits, fun h => ?_⟩
  have hheads := heads_apply_eq (b := target) (by simp) hfits h.phis
  rw [List.append_nil]
  refine ⟨⟨?_, phisTyped_addEntry (typeOf_eq_ok_iff.mpr ⟨_, hphi⟩) hvalue hfits h.typed⟩, hheads⟩
  rw [hheads]
  exact phisIn_apply (by simp) hfits h.phis

end Joins

end Ssa.Module

end CilSsa
