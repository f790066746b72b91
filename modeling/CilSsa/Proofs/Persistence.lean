import CilSsa.Proofs.Changes
import CilSsa.Proofs.Success

/-!
What the life of a module never undoes: ids stay valid, values keep their types, blocks keep what
they have, phis stay at the heads of their blocks, and functions keep their signatures.
-/

namespace CilSsa.Ssa

theorem BlockId.eq_of_index {b b' : BlockId} (h : b.index = b'.index) : b = b' := by
  cases b
  cases b'
  exact congrArg BlockId.mk h

theorem ValueId.eq_of_index {v v' : ValueId} (h : v.index = v'.index) : v = v' := by
  cases v
  cases v'
  exact congrArg ValueId.mk h

def Change.Leaves (index : Nat) (v : Value) : Change → Prop
  | .addEntry phi _ _ => phi.index ≠ index
  | .setInitial global _ => global.index ≠ index
  | .keepBlocks .. => v.inst?.map Inst.isPhi ≠ some true
  | _ => True

def Change.Spares (b : BlockId) : Change → Prop
  | .addInst block _ _ => block ≠ some b
  | .addPhi block _ => block ≠ b
  | .terminate block _ => block ≠ b
  | _ => True

/-- Whether a change concerns the current block. -/
def Change.isHere : Change → Bool
  | .addInst .. | .terminate .. => true
  | _ => false

/-- Whether a change neither ends the current block nor goes on with another, and gives no function
other blocks. -/
def Change.isOrderly : Change → Bool
  | .terminate .. | .moveTo _ | .addBlock .. | .keepBlocks .. => false
  | _ => true

/-- The same type, or a struct that has got its members. -/
def IrType.Refines (type type' : IrType) : Prop :=
  type' = type ∨ ∃ name packed members packed',
    type = .struct name none packed ∧ type' = .struct name (some members) packed'

theorem IrType.Refines.trans {type type' type'' : IrType} (h : type.Refines type')
    (h' : type'.Refines type'') : type.Refines type'' := by
  rcases h with rfl | ⟨name, packed, members, packed', rfl, rfl⟩
  · exact h'
  · rcases h' with rfl | ⟨_, _, _, _, heq, -⟩
    · exact .inr ⟨name, packed, members, packed', rfl, rfl⟩
    · simp at heq

theorem IrType.Refines.classify {type type' : IrType} (h : type.Refines type') :
    type'.classify = type.classify := by
  rcases h with rfl | ⟨_, _, _, _, rfl, rfl⟩ <;> rfl

/-- A block with everything it had; instructions that are new have indices from `fresh` on. -/
structure Block.Grows (fresh : Nat) (b b' : Block) : Prop where
  name : b'.name = b.name
  function : b'.function = b.function
  terminator : ∀ t, b.terminator = some t → b'.terminator = some t
  kept : ∀ v ∈ b.insts, v ∈ b'.insts
  fresh : ∀ v ∈ b'.insts, v ∈ b.insts ∨ fresh ≤ v.index

theorem Block.Grows.refl (fresh : Nat) (b : Block) : Block.Grows fresh b b :=
  ⟨rfl, rfl, fun _ h => h, fun _ h => h, fun _ h => .inl h⟩

theorem Block.Grows.trans {fresh fresh' : Nat} {b b' b'' : Block} (hle : fresh ≤ fresh')
    (h : Block.Grows fresh b b') (h' : Block.Grows fresh' b' b'') : Block.Grows fresh b b'' where
  name := h'.name.trans h.name
  function := h'.function.trans h.function
  terminator t ht := h'.terminator t (h.terminator t ht)
  kept v hv := h'.kept v (h.kept v hv)
  fresh v hv := by
    rcases h'.fresh v hv with hold | hnew
    · exact h.fresh v hold
    · exact .inr (Nat.le_trans hle hnew)

theorem Block.grows_append (fresh : Nat) (b : Block) : Block.Grows fresh b (b.append ⟨fresh⟩) where
  name := rfl
  function := rfl
  terminator _ h := h
  kept v hv := by simp [Block.append, hv]
  fresh v hv := by
    simp only [Block.append, List.mem_append, List.mem_singleton] at hv
    rcases hv with hv | rfl
    · exact .inl hv
    · exact .inr (Nat.le_refl _)

theorem Block.mem_insert {isHead : ValueId → Bool} {id v : ValueId} {b : Block} :
    v ∈ (b.insert isHead id).insts ↔ v = id ∨ v ∈ b.insts := by
  have hsplit : v ∈ b.insts ↔ v ∈ b.insts.takeWhile isHead ∨ v ∈ b.insts.dropWhile isHead := by
    rw [← List.mem_append, List.takeWhile_append_dropWhile]
  simp only [Block.insert, List.mem_append, List.mem_cons, hsplit]
  exact or_left_comm

theorem Block.grows_insert (isHead : ValueId → Bool) (fresh : Nat) (b : Block) :
    Block.Grows fresh b (b.insert isHead ⟨fresh⟩) where
  name := rfl
  function := rfl
  terminator _ h := h
  kept v hv := Block.mem_insert.mpr (.inr hv)
  fresh v hv := by
    rcases Block.mem_insert.mp hv with rfl | hv
    · exact .inr (Nat.le_refl _)
    · exact .inl hv

/-- Kinds of values that differ at most in the entries of a phi or the initial value of a
global. -/
inductive ValueKind.Like : ValueKind → ValueKind → Prop where
  | same (kind : ValueKind) : Like kind kind
  | phi (block : Option BlockId) (incoming incoming' : List (ValueId × BlockId)) :
      Like (.inst block (.phi incoming)) (.inst block (.phi incoming'))
  | global (name : String) (content : TypeId) (initial initial' : ValueId) :
      Like (.global name content initial) (.global name content initial')

/-- Values that differ at most in the entries of a phi or the initial value of a global. -/
structure Value.Like (v v' : Value) : Prop where
  type : v'.type = v.type
  kind : v.kind.Like v'.kind

theorem Value.Like.isPhi {v v' : Value} (h : v.Like v') :
    v'.inst?.map Inst.isPhi = v.inst?.map Inst.isPhi := by
  obtain ⟨_, kind⟩ := v
  obtain ⟨_, kind'⟩ := v'
  have hkind : kind.Like kind' := h.kind
  cases hkind <;> rfl

theorem Value.Like.refl (v : Value) : v.Like v := ⟨rfl, .same _⟩

theorem Value.Like.trans {v v' v'' : Value} (h : v.Like v') (h' : v'.Like v'') : v.Like v'' := by
  refine ⟨h'.type.trans h.type, ?_⟩
  have hkind := h.kind
  have hkind' := h'.kind
  generalize v.kind = kind at hkind
  generalize v'.kind = kind' at hkind hkind'
  generalize v''.kind = kind'' at hkind'
  cases hkind with
  | same => exact hkind'
  | phi block incoming incoming' => cases hkind' <;> exact .phi ..
  | global name content initial initial' => cases hkind' <;> exact .global ..

theorem Value.like_addEntry (value : ValueId) (source : BlockId) (v : Value) :
    v.Like (v.addEntry value source) := by
  unfold Value.addEntry
  split
  · rename_i hkind
    exact ⟨rfl, hkind ▸ .phi ..⟩
  · exact Value.Like.refl v

theorem Value.like_setInitial (initial : ValueId) (v : Value) : v.Like (v.setInitial initial) := by
  unfold Value.setInitial
  split
  · rename_i hkind
    exact ⟨rfl, hkind ▸ .global ..⟩
  · exact Value.Like.refl v

theorem Value.like_pruneIncoming (kept : List BlockId) (v : Value) :
    v.Like (Module.pruneIncoming kept v) := by
  unfold Module.pruneIncoming
  split
  · rename_i hkind
    exact ⟨rfl, hkind ▸ .phi ..⟩
  · exact Value.Like.refl v

def Function.head (function : Function) : String × TypeId := (function.name, function.type)

namespace Module

variable {P : Change → Prop} {m m' : Module}

section Values

theorem value_apply {c : Change} {i : Nat} {v : Value} (hc : c.Leaves i v)
    (h : m.values[i]? = some v) : (m.apply c).values[i]? = some v := by
  have hlt := (Array.getElem?_eq_some_iff.mp h).1
  cases c with
  | addInst block type inst =>
      cases block <;> simp [apply, pushValue, Array.getElem?_push, Nat.ne_of_lt hlt, h]
  | addEntry phi value source =>
      simp only [Change.Leaves] at hc
      simp [apply, Array.getElem?_modify, hc, h]
  | setInitial global value =>
      simp only [Change.Leaves] at hc
      simp [apply, Array.getElem?_modify, hc, h]
  | keepBlocks function kept =>
      simp only [Change.Leaves] at hc
      simp only [apply, keepBlocks, prunedValues, Array.getElem?_mapIdx, h, Option.map_some]
      split
      · unfold pruneIncoming
        split
        · simp_all [Value.inst?, Inst.isPhi]
        · rfl
      · rfl
  | _ => simp [apply, pushValue, Array.getElem?_push, Nat.ne_of_lt hlt, h]

/-- A value that every permitted change leaves alone stays. -/
theorem Evolves.value {i : Nat} {v : Value} (h : m.Evolves P m')
    (hleaves : ∀ c, P c → c.Leaves i v) (hv : m.values[i]? = some v) : m'.values[i]? = some v :=
  h.preserves (I := fun m => m.values[i]? = some v) (fun _ c hc _ => value_apply (hleaves c hc)) hv

theorem like_apply {c : Change} {i : Nat} {v : Value} (h : m.values[i]? = some v) :
    ∃ v', (m.apply c).values[i]? = some v' ∧ v.Like v' := by
  by_cases hc : c.Leaves i v
  · exact ⟨v, value_apply hc h, Value.Like.refl v⟩
  · cases c with
    | addEntry phi value source =>
        simp only [Change.Leaves, ne_eq, Decidable.not_not] at hc
        exact ⟨_, by simp [apply, Array.getElem?_modify, hc, h], v.like_addEntry value source⟩
    | setInitial global value =>
        simp only [Change.Leaves, ne_eq, Decidable.not_not] at hc
        exact ⟨_, by simp [apply, Array.getElem?_modify, hc, h], v.like_setInitial value⟩
    | keepBlocks function kept =>
        simp only [apply, keepBlocks, prunedValues, Array.getElem?_mapIdx, h, Option.map_some,
          Option.some.injEq, exists_eq_left']
        split
        · exact v.like_pruneIncoming kept
        · exact Value.Like.refl v
    | _ => exact absurd trivial hc

/-- A value changes at most in the entries of a phi or the initial value of a global. -/
theorem Evolves.like {i : Nat} {v : Value} (h : m.Evolves P m') (hv : m.values[i]? = some v) :
    ∃ v', m'.values[i]? = some v' ∧ v.Like v' := by
  refine h.preserves (I := fun m => ∃ v', m.values[i]? = some v' ∧ v.Like v') ?_ ?_
  · rintro _ c _ _ ⟨v', hv', hlike⟩
    obtain ⟨v'', hv'', hlike'⟩ := like_apply (c := c) hv'
    exact ⟨v'', hv'', hlike.trans hlike'⟩
  · exact ⟨v, hv, Value.Like.refl v⟩

/-- A conversion stays as it is. -/
theorem Evolves.cast {i : Nat} {type : TypeId} {block : Option BlockId} {op : CastOp}
    {operand : ValueId} (h : m.Evolves P m')
    (hv : m.values[i]? = some ⟨type, .inst block (.cast op operand)⟩) :
    m'.values[i]? = some ⟨type, .inst block (.cast op operand)⟩ := by
  obtain ⟨⟨type', kind'⟩, hv', htype, hkind⟩ := h.like hv
  obtain rfl : type' = type := htype
  cases hkind
  exact hv'

theorem Evolves.values_le (h : m.Evolves P m') : m.values.size ≤ m'.values.size := by
  refine Nat.le_of_not_lt fun hlt => ?_
  obtain ⟨v', hv', -⟩ := h.like (Array.getElem?_eq_getElem hlt)
  simp at hv'

theorem Evolves.typeOf {id : ValueId} {type : TypeId} (h : m.Evolves P m')
    (htype : m.typeOf id = .ok type) : m'.typeOf id = .ok type := by
  simp only [Module.typeOf, Module.value, exceptBind_eq_ok_iff, Arena.entry_eq_ok_iff,
    exceptPure_eq_ok_iff] at htype ⊢
  obtain ⟨v, hv, rfl⟩ := htype
  obtain ⟨v', hv', hlike⟩ := h.like hv
  exact ⟨v', hv', hlike.type.symm⟩

theorem Evolves.isPhi {id : ValueId} (h : m.Evolves P m') (hphi : Build.isPhi m id = true) :
    Build.isPhi m' id = true := by
  unfold Build.isPhi at hphi ⊢
  cases hv : m.values[id.index]? with
  | none => simp [hv] at hphi
  | some v =>
      obtain ⟨v', hv', hlike⟩ := h.like hv
      simp only [hv] at hphi
      simpa [hv', hlike.isPhi] using hphi

end Values

section Types

theorem type_apply {c : Change} {i : Nat} {type : IrType} (hfits : m.Fits c)
    (h : m.types[i]? = some type) :
    ∃ type', (m.apply c).types[i]? = some type' ∧ type.Refines type' := by
  have hlt := (Array.getElem?_eq_some_iff.mp h).1
  cases c with
  | addType added =>
      exact ⟨type, by simp [apply, Array.getElem?_push, Nat.ne_of_lt hlt, h], .inl rfl⟩
  | defineStruct id defined =>
      by_cases hid : id.index = i
      · obtain ⟨name, packed, members, packed', hold, rfl⟩ := hfits
        subst hid
        obtain rfl : type = .struct name none packed := by simpa [h] using hold
        exact ⟨.struct name (some members) packed', by simp [apply, hlt],
          .inr ⟨name, packed, members, packed', rfl, rfl⟩⟩
      · exact ⟨type, by simp [apply, hid, h], .inl rfl⟩
  | addInst block _ inst => cases block <;> exact ⟨type, h, .inl rfl⟩
  | _ => exact ⟨type, h, .inl rfl⟩

/-- A type stays as it is, or is a struct that gets its members. -/
theorem Evolves.type {i : Nat} {type : IrType} (h : m.Evolves P m')
    (htype : m.types[i]? = some type) :
    ∃ type', m'.types[i]? = some type' ∧ type.Refines type' := by
  refine h.preserves (I := fun m => ∃ type', m.types[i]? = some type' ∧ type.Refines type') ?_ ?_
  · rintro _ c _ hfits ⟨type', htype', hrefines⟩
    obtain ⟨type'', htype'', hrefines'⟩ := type_apply hfits htype'
    exact ⟨type'', htype'', hrefines.trans hrefines'⟩
  · exact ⟨type, htype, .inl rfl⟩

theorem Evolves.classify {id : TypeId} {cls : TypeClass} (h : m.Evolves P m')
    (hcls : m.classify id = .ok cls) : m'.classify id = .ok cls := by
  simp only [Module.classify, typeData, exceptBind_eq_ok_iff, Arena.entry_eq_ok_iff,
    exceptPure_eq_ok_iff] at hcls ⊢
  obtain ⟨type, htype, rfl⟩ := hcls
  obtain ⟨type', htype', hrefines⟩ := h.type htype
  exact ⟨type', htype', hrefines.classify.symm⟩

end Types

section Blocks

theorem block_apply {c : Change} {b : BlockId} {block : Block} (hc : c.Spares b)
    (h : m.blocks[b.index]? = some block) : (m.apply c).blocks[b.index]? = some block := by
  have hlt := (Array.getElem?_eq_some_iff.mp h).1
  have hne : ∀ b' : BlockId, b' ≠ b → b'.index ≠ b.index :=
    fun b' hb heq => hb (BlockId.eq_of_index heq)
  cases c with
  | addInst place type inst =>
      cases place with
      | none => exact h
      | some b' =>
          have hb' : b' ≠ b := by
            rintro rfl
            exact hc rfl
          simp [apply, Array.getElem?_modify, hne b' hb', h]
  | addPhi b' type => simp [apply, Array.getElem?_modify, hne b' hc, h]
  | terminate b' terminator => simp [apply, Array.getElem?_modify, hne b' hc, h]
  | addBlock function name => simp [apply, Array.getElem?_push, Nat.ne_of_lt hlt, h]
  | _ => exact h

/-- A block that every permitted change spares stays as it is. -/
theorem Evolves.block {b : BlockId} {block : Block} (h : m.Evolves P m')
    (hspares : ∀ c, P c → c.Spares b) (hb : m.blocks[b.index]? = some block) :
    m'.blocks[b.index]? = some block :=
  h.preserves (I := fun m => m.blocks[b.index]? = some block)
    (fun _ c hc _ => block_apply (hspares c hc)) hb

theorem grows_apply {c : Change} {b : BlockId} {block : Block} (hfits : m.Fits c)
    (h : m.blocks[b.index]? = some block) :
    ∃ block', (m.apply c).blocks[b.index]? = some block' ∧
      Block.Grows m.values.size block block' := by
  by_cases hc : c.Spares b
  · exact ⟨block, block_apply hc h, Block.Grows.refl _ block⟩
  · cases c with
    | addInst place type inst =>
        obtain rfl : place = some b := by simpa [Change.Spares] using hc
        exact ⟨_, by simp [apply, Array.getElem?_modify, h], Block.grows_append _ block⟩
    | addPhi b' type =>
        obtain rfl : b' = b := by simpa [Change.Spares] using hc
        refine ⟨_, by simp [apply, Array.getElem?_modify, h]; rfl, Block.grows_insert _ _ block⟩
    | terminate b' terminator =>
        obtain rfl : b' = b := by simpa [Change.Spares] using hc
        obtain ⟨-, block', hblock', hopen⟩ := hfits
        obtain rfl : block = block' := by simpa [h] using hblock'
        refine ⟨{ block with terminator := some terminator }, ?_, ?_⟩
        · simp [apply, Array.getElem?_modify, h]
        · exact ⟨rfl, rfl, by simp [hopen], fun _ hv => hv, fun _ hv => .inl hv⟩
    | _ => exact absurd trivial hc

/-- A block keeps what it has. -/
theorem Evolves.grows {b : BlockId} {block : Block} (h : m.Evolves P m')
    (hb : m.blocks[b.index]? = some block) :
    ∃ block', m'.blocks[b.index]? = some block' ∧ Block.Grows m.values.size block block' := by
  induction h with
  | refl => exact ⟨block, hb, Block.Grows.refl _ block⟩
  | tail hfirst hlast ih =>
      obtain ⟨block', hblock', hgrows⟩ := ih
      obtain ⟨c, -, hfits, rfl⟩ := hlast
      obtain ⟨block'', hblock'', hgrows'⟩ := grows_apply hfits hblock'
      exact ⟨block'', hblock'', hgrows.trans (Evolves.values_le hfirst) hgrows'⟩

theorem Evolves.blocks_le (h : m.Evolves P m') : m.blocks.size ≤ m'.blocks.size := by
  refine Nat.le_of_not_lt fun hlt => ?_
  obtain ⟨block', hblock', -⟩ := h.grows (b := ⟨m'.blocks.size⟩) (Array.getElem?_eq_getElem hlt)
  simp at hblock'

def heads (m : Module) (b : BlockId) : List ValueId :=
  match m.blocks[b.index]? with
  | some block => block.insts.takeWhile (Build.isPhi m)
  | none => []

theorem mem_takeWhile_of_initial {p q : ValueId → Bool} {v : ValueId} {l l' : List ValueId}
    (hpq : ∀ x, p x = true → q x = true) (hinitial : l.takeWhile p <+: l')
    (hv : v ∈ l.takeWhile p) : v ∈ l'.takeWhile q := by
  obtain ⟨rest, rfl⟩ := hinitial
  have hall : ∀ x ∈ l.takeWhile p, q x = true := by
    intro x hx
    exact hpq x (List.all_eq_true.mp List.all_takeWhile x hx)
  rw [List.takeWhile_append_of_pos hall]
  exact List.mem_append_left _ hv

theorem heads_apply {c : Change} {b : BlockId} {phi : ValueId} (hfits : m.Fits c)
    (h : phi ∈ m.heads b) : phi ∈ (m.apply c).heads b := by
  have hisPhi : ∀ x, Build.isPhi m x = true → Build.isPhi (m.apply c) x = true :=
    fun x => Evolves.isPhi (P := fun _ => True) (Evolves.one trivial hfits)
  unfold heads at h ⊢
  cases hb : m.blocks[b.index]? with
  | none => simp [hb] at h
  | some block =>
      simp only [hb] at h
      by_cases hc : c.Spares b
      · rw [block_apply hc hb]
        exact mem_takeWhile_of_initial hisPhi (List.takeWhile_prefix _) h
      · cases c with
        | addInst place type inst =>
            obtain rfl : place = some b := by simpa [Change.Spares] using hc
            simp only [apply, Array.getElem?_modify, hb, if_true, Option.map_some]
            exact mem_takeWhile_of_initial hisPhi
              ((List.takeWhile_prefix _).trans (List.prefix_append _ _)) h
        | addPhi b' type =>
            obtain rfl : b' = b := by simpa [Change.Spares] using hc
            simp only [apply, Array.getElem?_modify, hb, if_true, Option.map_some]
            have hpushed : ∀ x, Build.isPhi m x = true →
                Build.isPhi (m.pushValue ⟨type, .inst (some b') (.phi [])⟩) x = true := hisPhi
            exact mem_takeWhile_of_initial (fun _ hx => hx) (List.prefix_append _ _)
              (mem_takeWhile_of_initial hpushed (List.takeWhile_prefix _) h)
        | terminate b' terminator =>
            obtain rfl : b' = b := by simpa [Change.Spares] using hc
            simp only [apply, Array.getElem?_modify, hb, if_true, Option.map_some]
            exact mem_takeWhile_of_initial hisPhi (List.takeWhile_prefix _) h
        | _ => exact absurd trivial hc

theorem Evolves.heads {b : BlockId} {phi : ValueId} (h : m.Evolves P m')
    (hphi : phi ∈ m.heads b) : phi ∈ m'.heads b :=
  h.preserves (I := fun m => phi ∈ m.heads b) (fun _ _ _ => heads_apply) hphi

theorem Evolves.position (h : m.Evolves P m') (hstays : ∀ c, P c → ∀ b, c ≠ .moveTo b) :
    m'.position = m.position := by
  refine h.preserves (I := fun m' => m'.position = m.position) ?_ rfl
  intro m' c hc _ heq
  cases c with
  | moveTo b => exact absurd rfl (hstays _ hc b)
  | addInst place type inst => cases place <;> exact heq
  | _ => exact heq

/-- What neither the linkage nor the blocks of a function decide stays as it is. -/
theorem Evolves.functionPart {α : Type} {part : Function → α} {i : Nat} {a : α} (h : m.Evolves P m')
    (hlinkage : ∀ function linkage, part { function with linkage } = part function)
    (hblocks : ∀ function blocks, part { function with blocks } = part function)
    (hpart : m.functions[i]?.map part = some a) : m'.functions[i]?.map part = some a := by
  refine h.preserves (I := fun m => m.functions[i]?.map part = some a) ?_ hpart
  intro m c _ _ hpart
  obtain ⟨function, hfunction, rfl⟩ := Option.map_eq_some_iff.mp hpart
  have hlt := (Array.getElem?_eq_some_iff.mp hfunction).1
  cases c with
  | addFunction added => simp [apply, Array.getElem?_push, Nat.ne_of_lt hlt, hfunction]
  | setLinkage id linkage =>
      simp [apply, Array.getElem?_modify, hfunction, apply_ite, hlinkage]
  | addBlock id name => simp [apply, Array.getElem?_modify, hfunction, apply_ite, hblocks]
  | keepBlocks id kept =>
      simp [apply, Module.keepBlocks, Array.getElem?_modify, hfunction, apply_ite, hblocks]
  | addInst place type inst => cases place <;> exact hpart
  | _ => exact hpart

/-- A function keeps its name and its type. -/
theorem Evolves.functionHead {i : Nat} {head : String × TypeId} (h : m.Evolves P m')
    (hhead : m.functions[i]?.map Function.head = some head) :
    m'.functions[i]?.map Function.head = some head :=
  h.functionPart (fun _ _ => rfl) (fun _ _ => rfl) hhead

/-- A function keeps its parameters. -/
theorem Evolves.functionParams {i : Nat} {params : List ValueId} (h : m.Evolves P m')
    (hparams : m.functions[i]?.map Function.params = some params) :
    m'.functions[i]?.map Function.params = some params :=
  h.functionPart (fun _ _ => rfl) (fun _ _ => rfl) hparams

theorem Evolves.functionName {i : Nat} {name : String} (h : m.Evolves P m')
    (hname : m.functions[i]?.map Function.name = some name) :
    m'.functions[i]?.map Function.name = some name := by
  obtain ⟨function, hfunction, rfl⟩ := Option.map_eq_some_iff.mp hname
  have hhead : m'.functions[i]?.map Function.head = some function.head :=
    h.functionHead (by simp [hfunction])
  obtain ⟨function', hfunction', hsame⟩ := Option.map_eq_some_iff.mp hhead
  simpa [hfunction', Function.head] using congrArg Prod.fst hsame

/-- Changes of the current block do not concern any other. -/
theorem spares_of_isHere {c : Change} {b : BlockId} (hfits : m.Fits c) (hhere : c.isHere = true)
    (hb : m.position ≠ some b) : c.Spares b := by
  cases c with
  | addInst place type inst =>
      rintro rfl
      exact hb hfits.1
  | terminate b' terminator =>
      rintro rfl
      exact hb hfits.1
  | _ => simp [Change.isHere] at hhere

/-- A block that is not the current one stays as it is if every permitted change spares it or
concerns the current one. -/
theorem Evolves.other {b : BlockId} {block : Block} (h : m.Evolves P m')
    (hspares : ∀ c, P c → c.isHere = true ∨ c.Spares b)
    (hstays : ∀ c, P c → ∀ b, c ≠ .moveTo b) (hposition : m.position ≠ some b)
    (hb : m.blocks[b.index]? = some block) : m'.blocks[b.index]? = some block := by
  induction h with
  | refl => exact hb
  | tail hfirst hlast ih =>
      obtain ⟨c, hc, hfits, rfl⟩ := hlast
      have hposition' := Evolves.position hfirst hstays ▸ hposition
      rcases hspares c hc with hhere | hspares
      · exact block_apply (spares_of_isHere hfits hhere hposition') ih
      · exact block_apply hspares ih

end Blocks

section Order

/-- A block that has no end yet. -/
def OpenAt (m : Module) (b : BlockId) : Prop :=
  ∃ block, m.blocks[b.index]? = some block ∧ block.terminator = none

/-- The misuse so far that is about the place of code. -/
def misplaced (m : Module) : List (Option FunctionId × Misuse) :=
  m.misuses.toList.filter (·.2.isMisplaced)

/-- Functions have the blocks that they had, and no more code is misplaced. -/
structure Orderly (m m' : Module) : Prop where
  blocks : ∀ {i : Nat} {f : Function}, m.functions[i]? = some f →
    ∃ f', m'.functions[i]? = some f' ∧ f'.blocks = f.blocks
  misplaced : m'.misplaced = m.misplaced

theorem Orderly.refl (m : Module) : m.Orderly m := ⟨fun hf => ⟨_, hf, rfl⟩, rfl⟩

theorem Orderly.trans {m'' : Module} (h : m.Orderly m') (h' : m'.Orderly m'') : m.Orderly m'' where
  blocks hf := by
    obtain ⟨f', hf', hsame⟩ := h.blocks hf
    obtain ⟨f'', hf'', hsame'⟩ := h'.blocks hf'
    exact ⟨f'', hf'', hsame'.trans hsame⟩
  misplaced := h'.misplaced.trans h.misplaced

theorem terminator_apply {c : Change} {b : BlockId} {block : Block} (hc : c.isOrderly = true)
    (h : m.blocks[b.index]? = some block) :
    ∃ block', (m.apply c).blocks[b.index]? = some block' ∧
      block'.terminator = block.terminator := by
  by_cases hspares : c.Spares b
  · exact ⟨block, block_apply hspares h, rfl⟩
  · cases c with
    | addInst place type inst =>
        obtain rfl : place = some b := by simpa [Change.Spares] using hspares
        exact ⟨block.append ⟨m.values.size⟩, by simp [apply, Array.getElem?_modify, h], rfl⟩
    | addPhi b' type =>
        obtain rfl : b' = b := by simpa [Change.Spares] using hspares
        let pushed := m.pushValue ⟨type, .inst (some b') (.phi [])⟩
        exact ⟨block.insert (Build.isPhi pushed) ⟨m.values.size⟩,
          by simp [apply, Array.getElem?_modify, h, pushed], rfl⟩
    | terminate b' terminator => exact Bool.noConfusion hc
    | _ => exact absurd trivial hspares

/-- Orderly changes end no block. -/
theorem Evolves.terminator {b : BlockId} {block : Block} (h : m.Evolves P m')
    (hP : ∀ c, P c → c.isOrderly = true) (hblock : m.blocks[b.index]? = some block) :
    ∃ block', m'.blocks[b.index]? = some block' ∧ block'.terminator = block.terminator := by
  refine h.preserves (I := fun m => ∃ block', m.blocks[b.index]? = some block' ∧
    block'.terminator = block.terminator) ?_ ⟨block, hblock, rfl⟩
  rintro m c hc - ⟨block', hblock', hsame⟩
  obtain ⟨block'', hblock'', hsame'⟩ := terminator_apply (hP c hc) hblock'
  exact ⟨block'', hblock'', hsame'.trans hsame⟩

theorem orderly_apply {c : Change} {b : BlockId} (hc : c.isOrderly = true) (hfits : m.Fits c)
    (hposition : m.position = some b) (hopen : m.OpenAt b) : m.Orderly (m.apply c) where
  blocks {i f} hf := by
    have hlt := (Array.getElem?_eq_some_iff.mp hf).1
    cases c with
    | addFunction added =>
        exact ⟨f, by simp [apply, Array.getElem?_push, Nat.ne_of_lt hlt, hf], rfl⟩
    | setLinkage id linkage =>
        by_cases hid : id.index = i
        · exact ⟨{ f with linkage }, by simp [apply, Array.getElem?_modify, hid, hf], rfl⟩
        · exact ⟨f, by simp [apply, Array.getElem?_modify, hid, hf], rfl⟩
    | addInst place type inst => cases place <;> exact ⟨f, hf, rfl⟩
    | _ => first | exact ⟨f, hf, rfl⟩ | simp [Change.isOrderly] at hc
  misplaced := by
    cases c with
    | record misuse =>
        have hplaced : misuse.2.isMisplaced = false := by
          refine Bool.eq_false_iff.mpr fun hmisplaced => ?_
          obtain ⟨block, hblock, hnone⟩ := hopen
          have hended := hfits.2 hmisplaced b block hposition hblock
          simp [hnone] at hended
        simp [apply, Module.misplaced, hplaced]
    | addInst place type inst => cases place <;> rfl
    | _ => rfl

theorem Evolves.openAt {b : BlockId} (h : m.Evolves P m') (hP : ∀ c, P c → c.isOrderly = true)
    (hopen : m.OpenAt b) : m'.OpenAt b := by
  obtain ⟨block, hblock, hnone⟩ := hopen
  obtain ⟨block', hblock', hsame⟩ := h.terminator hP hblock
  exact ⟨block', hblock', hsame.trans hnone⟩

/-- Code that is added to an open block is in its place. -/
theorem Evolves.orderly {b : BlockId} (h : m.Evolves P m') (hP : ∀ c, P c → c.isOrderly = true)
    (hposition : m.position = some b) (hopen : m.OpenAt b) : m.Orderly m' := by
  have hstays : ∀ c, P c → ∀ b, c ≠ .moveTo b := by
    rintro c hc b rfl
    exact Bool.noConfusion (hP _ hc)
  induction h with
  | refl => exact Orderly.refl m
  | tail hfirst hlast ih =>
      obtain ⟨c, hc, hfits, rfl⟩ := hlast
      have hposition' := (Evolves.position hfirst hstays).trans hposition
      exact ih.trans (orderly_apply (hP c hc) hfits hposition' (Evolves.openAt hfirst hP hopen))

end Order

section Phis

def PhisIn (m : Module) (b : BlockId) (known : List ValueId) : Prop :=
  ∃ block, m.blocks[b.index]? = some block ∧
    ∀ v ∈ block.insts, v.index < m.values.size ∧ (Build.isPhi m v = true → v ∈ known)

theorem isPhi_of_apply {c : Change} {v : ValueId} (hlt : v.index < m.values.size)
    (h : Build.isPhi (m.apply c) v = true) : Build.isPhi m v = true := by
  have hv := Array.getElem?_eq_getElem hlt
  obtain ⟨v', hv', hlike⟩ := like_apply (c := c) hv
  unfold Build.isPhi at h ⊢
  rw [hv'] at h
  rw [hv]
  simpa only [← hlike.isPhi] using h

theorem phisIn_apply {c : Change} {b : BlockId} {known : List ValueId}
    (hc : ∀ type, c ≠ .addPhi b type) (hfits : m.Fits c) (h : m.PhisIn b known) :
    (m.apply c).PhisIn b known := by
  obtain ⟨block, hblock, hknown⟩ := h
  have hle := Evolves.values_le (Evolves.one (P := fun _ => True) trivial hfits)
  have hkept (v : ValueId) (hv : v ∈ block.insts) : v.index < (m.apply c).values.size ∧
      (Build.isPhi (m.apply c) v = true → v ∈ known) := by
    obtain ⟨hlt, hphi⟩ := hknown v hv
    exact ⟨Nat.lt_of_lt_of_le hlt hle, fun h => hphi (isPhi_of_apply hlt h)⟩
  by_cases hspares : c.Spares b
  · exact ⟨block, block_apply hspares hblock, hkept⟩
  · cases c with
    | addInst place type inst =>
        obtain rfl : place = some b := by simpa [Change.Spares] using hspares
        refine ⟨block.append ⟨m.values.size⟩, by simp [apply, Array.getElem?_modify, hblock],
          fun v hv => ?_⟩
        rcases List.mem_append.mp hv with hv | hv
        · exact hkept v hv
        · obtain rfl := List.mem_singleton.mp hv
          refine ⟨by simp [apply, pushValue], fun hphi => ?_⟩
          simp [Build.isPhi, apply, pushValue, Value.inst?, hfits.2.1] at hphi
    | addPhi b' type =>
        obtain rfl : b' = b := by simpa [Change.Spares] using hspares
        exact absurd rfl (hc type)
    | terminate b' terminator =>
        obtain rfl : b' = b := by simpa [Change.Spares] using hspares
        exact ⟨{ block with terminator := some terminator },
          by simp [apply, Array.getElem?_modify, hblock], hkept⟩
    | _ => exact absurd trivial hspares

theorem Evolves.phisIn {b : BlockId} {known : List ValueId} (h : m.Evolves P m')
    (hP : ∀ c, P c → ∀ type, c ≠ .addPhi b type) (hphis : m.PhisIn b known) : m'.PhisIn b known :=
  h.preserves (I := fun m => m.PhisIn b known) (fun _ c hc => phisIn_apply (hP c hc)) hphis

theorem PhisIn.mono {b : BlockId} {known known' : List ValueId} (h : m.PhisIn b known)
    (hsubset : ∀ v ∈ known, v ∈ known') : m.PhisIn b known' := by
  obtain ⟨block, hblock, hknown⟩ := h
  exact ⟨block, hblock, fun v hv => ⟨(hknown v hv).1, fun hphi => hsubset v ((hknown v hv).2 hphi)⟩⟩

/-- A new phi is the only one. -/
theorem phisIn_addPhi {b : BlockId} (type : TypeId) {known : List ValueId} (h : m.PhisIn b known) :
    (m.apply (.addPhi b type)).PhisIn b (⟨m.values.size⟩ :: known) := by
  obtain ⟨block, hblock, hknown⟩ := h
  let pushed := m.pushValue ⟨type, .inst (some b) (.phi [])⟩
  refine ⟨block.insert (Build.isPhi pushed) ⟨m.values.size⟩,
    by simp [apply, Array.getElem?_modify, hblock, pushed], fun v hv => ?_⟩
  rcases Block.mem_insert.mp hv with rfl | hv
  · exact ⟨by simp [apply, pushValue], fun _ => List.mem_cons_self⟩
  · obtain ⟨hlt, hphi⟩ := hknown v hv
    refine ⟨by simp [apply, pushValue]; omega, fun h => ?_⟩
    exact List.mem_cons_of_mem _ (hphi (isPhi_of_apply (c := .addPhi b type) hlt h))

end Phis

end Module

end CilSsa.Ssa
