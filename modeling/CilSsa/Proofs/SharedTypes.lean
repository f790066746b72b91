import CilSsa.Proofs.Registrations
import CilSsa.Ssa.Command

/-!
Types are shared.

Every request for a type that is determined by its parts, whoever makes it, is answered with the one
id that the type has in the module, and every request for a struct with an id of its own.  What
stands behind an answer stays; only a struct that has no members gets them, once.
-/

namespace CilSsa.Ssa

/-- A request that concerns the types of a module, with its answer. -/
inductive TypeEvent where
  /-- Asks for a type that is determined by its parts. -/
  | asked (type : IrType) (id : TypeId)
  /-- Asks for a new struct. -/
  | made (name : String) (id : TypeId)
  /-- Gives a struct its members. -/
  | given (struct : TypeId) (members : List TypeId) (packed : Bool)
deriving DecidableEq, Repr

namespace TypeEvent

def answer? : TypeEvent → Option TypeId
  | asked _ id | made _ id => some id
  | given .. => none

/-- The members and the packing that a request gives to a struct. -/
def bodyFor? (struct : TypeId) : TypeEvent → Option (List TypeId × Bool)
  | given id members packed => if id = struct then some (members, packed) else none
  | _ => none

end TypeEvent

/-- A struct with the members it has got, if any. -/
def IrType.withBody (name : String) : Option (List TypeId × Bool) → IrType
  | none => .struct name none false
  | some (members, packed) => .struct name (some members) packed

section Arenas

variable {types types' : Array IrType} {event : TypeEvent} {events : List TypeEvent}

/-- What answering a request does to the types of a module. -/
inductive Served : Array IrType → TypeEvent → Array IrType → Prop
  | found {types : Array IrType} {type : IrType} {i : Nat} (interned : type.isInterned = true)
      (first : types.idxOf? type = some i) : Served types (.asked type ⟨i⟩) types
  | added {types : Array IrType} {type : IrType} (interned : type.isInterned = true)
      (new : types.idxOf? type = none) : Served types (.asked type ⟨types.size⟩) (types.push type)
  | made {types : Array IrType} (name : String) :
      Served types (.made name ⟨types.size⟩) (types.push (.struct name none false))
  | defined {types : Array IrType} {name : String} {before : Bool} {id : TypeId}
      (members : List TypeId) (packed : Bool)
      (opened : types[id.index]? = some (.struct name none before)) :
      Served types (.given id members packed)
        (types.setIfInBounds id.index (.struct name (some members) packed))
  | refused {types : Array IrType} {id : TypeId} (members : List TypeId) (packed : Bool)
      (old : id.index < types.size)
      (closed : ∀ name before, types[id.index]? ≠ some (.struct name none before)) :
      Served types (.given id members packed) types

/-- What answering requests one after the other does. -/
inductive ServedAll : Array IrType → List TypeEvent → Array IrType → Prop
  | nil (types : Array IrType) : ServedAll types [] types
  | cons {types types' types'' : Array IrType} {event : TypeEvent} {events : List TypeEvent}
      (first : Served types event types') (rest : ServedAll types' events types'') :
      ServedAll types (event :: events) types''

/-- The types of a module in which requests have been answered. -/
structure Shared (types : Array IrType) (events : List TypeEvent) : Prop where
  /-- A type that is determined by its parts is there once. -/
  unique : ∀ {i j : Nat} {type : IrType}, type.isInterned = true → types[i]? = some type →
    types[j]? = some type → i = j
  asked : ∀ {type : IrType} {id : TypeId}, .asked type id ∈ events →
    type.isInterned = true ∧ types[id.index]? = some type
  /-- A struct has the members that it was given first. -/
  made : ∀ {name : String} {id : TypeId}, .made name id ∈ events →
    types[id.index]? = some (.withBody name (events.findSome? (TypeEvent.bodyFor? id)))
  given : ∀ {id : TypeId} {members : List TypeId} {packed : Bool},
      .given id members packed ∈ events → id.index < types.size
  /-- A new struct is none of the types before it. -/
  apart : events.Pairwise fun e e' => ∀ {name : String} {id : TypeId}, e' = .made name id →
    e.answer? ≠ some id

theorem shared_empty : Shared #[] [] where
  unique _ h := by simp at h
  asked h := by simp at h
  made h := by simp at h
  given h := by simp at h
  apart := .nil

namespace Shared

theorem lt_of_answer {id : TypeId} (h : Shared types events) (hmem : event ∈ events)
    (hanswer : event.answer? = some id) : id.index < types.size := by
  cases event with
  | asked type id' =>
      obtain rfl := Option.some.inj hanswer
      exact (Array.getElem?_eq_some_iff.mp (h.asked hmem).2).1
  | made name id' =>
      obtain rfl := Option.some.inj hanswer
      exact (Array.getElem?_eq_some_iff.mp (h.made hmem)).1
  | given => simp [TypeEvent.answer?] at hanswer

/-- A request for a type adds to the types at most. -/
theorem extend (h : Shared types events) (hbody : ∀ id, event.bodyFor? id = none)
    (hkept : ∀ {i : Nat} {type : IrType}, types[i]? = some type → types'[i]? = some type)
    (hunique : ∀ {i j : Nat} {type : IrType}, type.isInterned = true → types'[i]? = some type →
      types'[j]? = some type → i = j)
    (hasked : ∀ {type id}, event = .asked type id →
      type.isInterned = true ∧ types'[id.index]? = some type)
    (hmade : ∀ {name id}, event = .made name id →
      types.size ≤ id.index ∧ types'[id.index]? = some (.struct name none false)) :
    Shared types' (events ++ [event]) where
  unique := hunique
  asked {type id} hmem := by
    rcases List.mem_append.mp hmem with hold | hnew
    · exact ⟨(h.asked hold).1, hkept (h.asked hold).2⟩
    · exact hasked (List.mem_singleton.mp hnew).symm
  made {name id} hmem := by
    rw [List.findSome?_append]
    rcases List.mem_append.mp hmem with hold | hnew
    · simpa [hbody] using hkept (h.made hold)
    · obtain ⟨hsize, hstruct⟩ := hmade (List.mem_singleton.mp hnew).symm
      have hnone : events.findSome? (TypeEvent.bodyFor? id) = none := by
        refine List.findSome?_eq_none_iff.mpr fun e he => ?_
        cases e with
        | given id' members packed =>
            have hlt := h.given he
            exact if_neg fun heq => by rw [heq] at hlt; omega
        | _ => rfl
      simpa [hbody, hnone, IrType.withBody] using hstruct
  given {id members packed} hmem := by
    rcases List.mem_append.mp hmem with hold | hnew
    · have hat := Array.getElem?_eq_getElem (h.given hold)
      exact (Array.getElem?_eq_some_iff.mp (hkept hat)).1
    · have hnone := hbody id
      rw [← List.mem_singleton.mp hnew] at hnone
      simp [TypeEvent.bodyFor?] at hnone
  apart := by
    refine List.pairwise_append.mpr ⟨h.apart, List.pairwise_singleton _ _, fun e he e' he' => ?_⟩
    obtain rfl := List.mem_singleton.mp he'
    intro name id heq hanswer
    exact absurd (h.lt_of_answer he hanswer) (Nat.not_lt.mpr (hmade heq).1)

theorem unique_push {new : IrType} (h : Shared types events)
    (hnew : new.isInterned = true → ∀ i : Nat, types[i]? ≠ some new) {i j : Nat} {type : IrType}
    (htype : type.isInterned = true) (hi : (types.push new)[i]? = some type)
    (hj : (types.push new)[j]? = some type) : i = j := by
  rw [Array.getElem?_push] at hi hj
  split at hi <;> split at hj
  · omega
  · obtain rfl := Option.some.inj hi
    exact absurd hj (hnew htype j)
  · obtain rfl := Option.some.inj hj
    exact absurd hi (hnew htype i)
  · exact h.unique htype hi hj

theorem getElem?_push_of_some {new type : IrType} {i : Nat} (h : types[i]? = some type) :
    (types.push new)[i]? = some type := by
  have hlt := (Array.getElem?_eq_some_iff.mp h).1
  rw [Array.getElem?_push, if_neg (by omega), h]

theorem define {id : TypeId} {name : String} {before packed : Bool} {members : List TypeId}
    (h : Shared types events) (hopened : types[id.index]? = some (.struct name none before)) :
    Shared (types.setIfInBounds id.index (.struct name (some members) packed))
      (events ++ [TypeEvent.given id members packed]) where
  unique {i j type} htype hi hj := by
    have hold {k : Nat} (hk : (types.setIfInBounds id.index
        (.struct name (some members) packed))[k]? = some type) : types[k]? = some type := by
      rw [Array.getElem?_setIfInBounds] at hk
      split at hk
      · split at hk
        · obtain rfl := Option.some.inj hk
          simp [IrType.isInterned] at htype
        · simp at hk
      · exact hk
    exact h.unique htype (hold hi) (hold hj)
  asked {type id'} hmem := by
    obtain ⟨htype, hat⟩ := h.asked (by simpa using hmem)
    refine ⟨htype, ?_⟩
    rw [Array.getElem?_setIfInBounds, if_neg, hat]
    intro heq
    rw [← heq, hopened] at hat
    obtain rfl := Option.some.inj hat
    simp [IrType.isInterned] at htype
  made {name' id'} hmem := by
    have hat := h.made (by simpa using hmem)
    rw [List.findSome?_append, Array.getElem?_setIfInBounds]
    by_cases heq : id.index = id'.index
    · obtain rfl : id = id' := by
        cases id
        cases id'
        exact congrArg TypeId.mk heq
      rw [hopened] at hat
      cases hbody : events.findSome? (TypeEvent.bodyFor? id) with
      | some body =>
          rw [hbody] at hat
          simp [IrType.withBody] at hat
      | none =>
          rw [hbody] at hat
          obtain ⟨rfl, -⟩ : name = name' ∧ _ := by simpa [IrType.withBody] using hat
          simp [TypeEvent.bodyFor?, IrType.withBody, (Array.getElem?_eq_some_iff.mp hopened).1]
    · have hne : id ≠ id' := fun hid => heq (congrArg TypeId.index hid)
      rw [if_neg heq, hat]
      simp [TypeEvent.bodyFor?, hne]
  given {id' members' packed'} hmem := by
    rw [Array.size_setIfInBounds]
    rcases List.mem_append.mp hmem with hold | hnew
    · exact h.given hold
    · obtain ⟨rfl, -⟩ : id' = id ∧ _ := by simpa using hnew
      exact (Array.getElem?_eq_some_iff.mp hopened).1
  apart := by
    refine List.pairwise_append.mpr ⟨h.apart, List.pairwise_singleton _ _, fun e he e' he' => ?_⟩
    obtain rfl := List.mem_singleton.mp he'
    intro name' id' heq
    simp at heq

/-- A struct that has members keeps them, and no other type can get any. -/
theorem refuse {id : TypeId} {packed : Bool} {members : List TypeId} (h : Shared types events)
    (hold : id.index < types.size)
    (hclosed : ∀ name before, types[id.index]? ≠ some (.struct name none before)) :
    Shared types (events ++ [TypeEvent.given id members packed]) where
  unique := h.unique
  asked hmem := h.asked (by simpa using hmem)
  made {name' id'} hmem := by
    have hat := h.made (by simpa using hmem)
    rw [List.findSome?_append, hat]
    cases hbody : events.findSome? (TypeEvent.bodyFor? id') with
    | some body => simp
    | none =>
        have hne : id ≠ id' := by
          rintro rfl
          rw [hbody] at hat
          exact hclosed _ _ hat
        simp [TypeEvent.bodyFor?, hne]
  given {id' members' packed'} hmem := by
    rcases List.mem_append.mp hmem with hbefore | hnew
    · exact h.given hbefore
    · obtain ⟨rfl, -⟩ : id' = id ∧ _ := by simpa using hnew
      exact hold
  apart := by
    refine List.pairwise_append.mpr ⟨h.apart, List.pairwise_singleton _ _, fun e he e' he' => ?_⟩
    obtain rfl := List.mem_singleton.mp he'
    intro name' id' heq
    simp at heq

/-- One more request is answered. -/
theorem served (h : Shared types events) (hserved : Served types event types') :
    Shared types' (events ++ [event]) := by
  cases hserved with
  | @found type i hinterned hfirst =>
      refine h.extend (fun _ => rfl) id h.unique (fun heq => ?_) (fun heq => by simp at heq)
      obtain ⟨rfl, rfl⟩ := TypeEvent.asked.inj heq
      exact ⟨hinterned, (Module.idxOf?_eq_some_iff.mp hfirst).1⟩
  | @added type hinterned hnew =>
      have habsent : ∀ i : Nat, types[i]? ≠ some type := fun i hi => by
        have hmem := Array.mem_of_getElem? hi
        simp [Array.idxOf?_eq_none_iff] at hnew
        exact hnew hmem
      refine h.extend (fun _ => rfl) getElem?_push_of_some (h.unique_push fun _ => habsent)
        (fun heq => ?_) (fun heq => by simp at heq)
      obtain ⟨rfl, rfl⟩ := TypeEvent.asked.inj heq
      exact ⟨hinterned, by simp⟩
  | made name =>
      refine h.extend (fun _ => rfl) getElem?_push_of_some
        (h.unique_push fun hinterned => by simp [IrType.isInterned] at hinterned)
        (fun heq => by simp at heq) (fun heq => ?_)
      obtain ⟨rfl, rfl⟩ := TypeEvent.made.inj heq
      exact ⟨Nat.le_refl _, by simp⟩
  | defined members packed hopened => exact h.define hopened
  | refused members packed hold hclosed => exact h.refuse hold hclosed

theorem servedAll {more : List TypeEvent} (h : Shared types events)
    (hserved : ServedAll types more types') : Shared types' (events ++ more) := by
  induction hserved generalizing events with
  | nil => simpa using h
  | cons hfirst _ ih => simpa using ih (h.served hfirst)

end Shared

end Arenas

section Structure

/-- Whether two types have the same shape and parts that are related. -/
def IrType.Agrees (R : TypeId → TypeId → Prop) : IrType → IrType → Prop
  | .void, .void => True
  | .int bits, .int bits' | .float bits, .float bits' => bits = bits'
  | .pointer pointee, .pointer pointee' => R pointee pointee'
  | .array element length, .array element' length' => R element element' ∧ length = length'
  | .function result params, .function result' params' =>
      R result result' ∧ List.Forall₂ R params params'
  | _, _ => False

/-- Whether two types have the same structure down to a depth; a struct is like itself only. -/
def AlikeTo (types : Array IrType) : Nat → TypeId → TypeId → Prop
  | 0, id, id' => id = id'
  | depth + 1, id, id' => id = id' ∨ ∃ type type', types[id.index]? = some type ∧
      types[id'.index]? = some type' ∧ type.Agrees (AlikeTo types depth) type'

/-- Whether two types have the same structure. -/
def Alike (types : Array IrType) (id id' : TypeId) : Prop := ∃ depth, AlikeTo types depth id id'

variable {R S : TypeId → TypeId → Prop} {type type' : IrType}

theorem IrType.Agrees.mono (hRS : ∀ {id id'}, R id id' → S id id') (h : type.Agrees R type') :
    type.Agrees S type' := by
  cases type <;> cases type' <;> simp only [Agrees] at h ⊢
  case int.int => exact h
  case float.float => exact h
  case pointer.pointer => exact hRS h
  case array.array => exact ⟨hRS h.1, h.2⟩
  case function.function => exact ⟨hRS h.1, h.2.imp fun _ _ => hRS⟩

theorem IrType.agrees_eq_iff :
    type.Agrees (· = ·) type' ↔ type.isInterned = true ∧ type = type' := by
  cases type <;> cases type' <;>
    simp [Agrees, isInterned, List.forall₂_eq_eq_eq]

variable {types : Array IrType} {events : List TypeEvent}

/-- Types with the same structure are the same. -/
theorem Shared.eq_of_alike {id id' : TypeId} (h : Shared types events)
    (halike : Alike types id id') :
    id = id' := by
  obtain ⟨depth, halike⟩ := halike
  induction depth generalizing id id' with
  | zero => exact halike
  | succ depth ih =>
      rcases halike with heq | ⟨type, type', htype, htype', hagrees⟩
      · exact heq
      · obtain ⟨hinterned, rfl⟩ := IrType.agrees_eq_iff.mp (hagrees.mono ih)
        have hindex := h.unique hinterned htype htype'
        cases id
        cases id'
        exact congrArg TypeId.mk hindex

/-- Requests have the same answer if and only if they ask for types of the same structure. -/
theorem Shared.answer_eq_iff {id id' : TypeId} (h : Shared types events)
    (hmem : .asked type id ∈ events) (hmem' : .asked type' id' ∈ events) :
    id = id' ↔ type.Agrees (Alike types) type' := by
  obtain ⟨hinterned, htype⟩ := h.asked hmem
  obtain ⟨-, htype'⟩ := h.asked hmem'
  constructor
  · rintro rfl
    obtain rfl := Option.some.inj (htype.symm.trans htype')
    exact (IrType.agrees_eq_iff.mpr ⟨hinterned, rfl⟩).mono fun heq => ⟨0, heq⟩
  · intro hagrees
    obtain ⟨-, rfl⟩ := IrType.agrees_eq_iff.mp (hagrees.mono h.eq_of_alike)
    have hindex := h.unique hinterned htype htype'
    cases id
    cases id'
    exact congrArg TypeId.mk hindex

end Structure

section Quiet

def Module.SameTypes (m m' : Module) : Prop := m'.types = m.types

instance : IsPreorder Module Module.SameTypes where
  refl _ := rfl
  trans _ _ _ h h' := h'.trans h

namespace Build

open Ssa.Module

variable {α : Type}

theorem sameTypes_modify {change : Module → Module} (h : ∀ m, (change m).types = m.types) :
    Keeps SameTypes (modify change : Build PUnit) where
  run {m _ _} hrun := by
    obtain rfl := modify_eq_ok_iff.mp hrun
    exact h m

instance (ask : Module → Except Fault α) : Keeps SameTypes (query ask) where
  run h := (query_eq_ok_iff.mp h).2 ▸ rfl

instance (type : TypeId) (kind : ValueKind) : Keeps SameTypes (pushValue type kind) where
  run h := by
    cases h
    rfl

instance (id : BlockId) (change : Block → Block) : Keeps SameTypes (modifyBlock id change) :=
  sameTypes_modify fun _ => rfl

instance (id : FunctionId) (change : Function → Function) :
    Keeps SameTypes (modifyFunction id change) :=
  sameTypes_modify fun _ => rfl

instance (id : ValueId) (kind : ValueKind) : Keeps SameTypes (setKind id kind) :=
  sameTypes_modify fun _ => rfl

instance (misuse : Misuse) : Keeps SameTypes (record misuse) where
  run h := by
    obtain ⟨function, -, rfl⟩ := record_eq_ok_iff.mp h
    rfl

instance (type : TypeId) (value : Int) : Keeps SameTypes (constInt type value) :=
  inferInstanceAs (Keeps SameTypes (pushValue _ _))

instance (type : TypeId) (value : Numeric.Binary64) : Keeps SameTypes (constFloat type value) :=
  inferInstanceAs (Keeps SameTypes (pushValue _ _))

instance (type : TypeId) : Keeps SameTypes (constNull type) :=
  inferInstanceAs (Keeps SameTypes (pushValue _ _))

instance (type : TypeId) (items : List ValueId) : Keeps SameTypes (constStruct type items) := by
  unfold constStruct
  refine Keeps.seq inferInstance fun body => ?_
  split <;> infer_instance

instance (global value : ValueId) : Keeps SameTypes (setInitializer global value) := by
  unfold setInitializer
  refine Keeps.seq inferInstance fun type => Keeps.seq inferInstance fun isConstant =>
    Keeps.seq inferInstance fun found => ?_
  split <;> infer_instance

instance (function : FunctionId) (index : Nat) (types : List TypeId) :
    Keeps SameTypes (pushParams function index types) where
  run h := by
    obtain ⟨values, rfl⟩ := pushParams_same h
    rfl

instance (function : FunctionId) (linkage : Linkage) :
    Keeps SameTypes (setLinkage function linkage) := by
  unfold setLinkage
  infer_instance

instance (function : FunctionId) : Keeps SameTypes (functionValue function) := by
  unfold functionValue
  infer_instance

instance (function : FunctionId) (name : String) : Keeps SameTypes (appendBlock function name) where
  run h := by
    obtain ⟨-, rfl, -⟩ := appendBlock_eq_ok h
    rfl

instance (b : BlockId) : Keeps SameTypes (positionAtEnd b) := sameTypes_modify fun _ => rfl

instance (type : TypeId) (inst : Inst) : Keeps SameTypes (pushInst type inst) := by
  unfold pushInst
  refine Keeps.seq inferInstance fun m => ?_
  split <;> infer_instance

instance (terminator : Terminator) : Keeps SameTypes (terminate terminator) := by
  unfold terminate
  refine Keeps.seq inferInstance fun m => ?_
  split <;> infer_instance

instance (op : BinaryOp) (lhs rhs : ValueId) : Keeps SameTypes (binary op lhs rhs) := by
  unfold binary
  infer_instance

instance (op : UnaryOp) (operand : ValueId) : Keeps SameTypes (unary op operand) := by
  unfold unary
  infer_instance

instance (op : CastOp) (value : ValueId) (target : TypeId) :
    Keeps SameTypes (cast op value target) := by
  unfold cast
  infer_instance

instance (value : ValueId) (target : TypeId) (signed : Bool) :
    Keeps SameTypes (intCast value target signed) :=
  intCast_of (Keeps.seq inferInstance) (fun _ => Keeps.seq inferInstance) (fun _ => inferInstance)
    inferInstance

instance (type : TypeId) (pointer : ValueId) : Keeps SameTypes (load type pointer) := by
  unfold load
  infer_instance

instance (b : BlockId) (type : TypeId) : Keeps SameTypes (phi b type) where
  run h := by
    obtain ⟨-, rfl, -⟩ := phi_eq_ok h
    rfl

instance (phi value : ValueId) (source : BlockId) :
    Keeps SameTypes (addIncoming phi value source) where
  run h := by
    obtain ⟨m₁, hfirst, hlast⟩ := addIncoming_cases h
    rcases hfirst with rfl | ⟨misuse, rfl, -⟩ <;> rcases hlast with
      ⟨misuse', rfl, -⟩ | ⟨rfl, -⟩ <;> rfl

instance (index : Nat) (args : List ValueId) (params : List TypeId) :
    Keeps SameTypes (checkArgs index args params) :=
  Keeps.composes.checkArgs (fun _ => inferInstance) (fun _ => inferInstance) index args params

instance (target : BlockId) : Keeps SameTypes (br target) :=
  inferInstanceAs (Keeps SameTypes (terminate _))

instance (cond : ValueId) (thenBlock elseBlock : BlockId) :
    Keeps SameTypes (condBr cond thenBlock elseBlock) := by
  unfold condBr
  infer_instance

instance (value : ValueId) (default : BlockId) (cases : List (Int × BlockId)) :
    Keeps SameTypes (switch value default cases) :=
  inferInstanceAs (Keeps SameTypes (terminate _))

instance (value : Option ValueId) : Keeps SameTypes (ret value) := by
  unfold ret
  refine Keeps.seq inferInstance fun function => ?_
  cases function <;> infer_instance

instance : Keeps SameTypes unreachable := inferInstanceAs (Keeps SameTypes (terminate _))

instance (function : FunctionId) (level : OptLevel) :
    Keeps SameTypes (optimize function level) where
  run h := by
    rcases optimize_cases h with rfl | ⟨kept, rfl⟩ <;> rfl

end Build

end Quiet

section Requests

namespace Build

/-- What an action answers; the module stays as it is. -/
def peek {α : Type} (x : Build α) : Build α := fun m =>
  match x m with
  | .ok a _ => .ok a m
  | .error fault _ => .error fault m

/-- Asks for a type that is determined by its parts. -/
def asking (type : IrType) : Build (List TypeEvent) := do return [.asked type (← intern type)]

def askingBytes : Build (List TypeEvent) := do
  let byte ← intern (.int 8)
  let pointer ← intern (.pointer byte)
  return [.asked (.int 8) byte, .asked (.pointer byte) pointer]

def callAsking (type : TypeId) : Build (List TypeEvent) := do
  match ← query (·.signature? type) with
  | some _ => return []
  | none => asking .void

theorem callAsking_eq {type : TypeId} {m : Module} {signature : Option (TypeId × List TypeId)}
    (h : m.signature? type = .ok signature) :
    callAsking type m = (if signature.isSome then pure [] else asking .void) m := by
  rw [callAsking, query_bind h]
  cases signature <;> rfl

end Build

/-- The requests for types that a request to the builder makes, in order, and their answers. -/
def Command.typeEvents : Command → Build (List TypeEvent)
  | voidType | store .. => Build.asking .void
  | intType bits | constIntOf bits _ => Build.asking (.int bits)
  | floatType bits => Build.asking (.float bits)
  | icmp .. | fcmp .. => Build.asking (.int 1)
  | pointerType content | addGlobal _ content | addFunction _ content _ | alloca content
  | gep content _ _ | heapAlloc content _ => Build.asking (.pointer content)
  | arrayType element length => Build.asking (.array element length)
  | constArray element items => Build.asking (.array element items.length)
  | functionType result params => Build.asking (.function result params)
  | genericPointer => Build.askingBytes
  | constString text => do
      let byte ← Build.intern (.int 8)
      let content ← Build.intern (.array byte (text.utf8ByteSize + 1))
      let pointer ← Build.intern (.pointer byte)
      return [.asked (.int 8) byte, .asked (.array byte (text.utf8ByteSize + 1)) content,
        .asked (.pointer byte) pointer]
  | structGep type _ index => do
      match ← Build.query (Build.member? type index) with
      | some member => Build.asking (.pointer member)
      | none => Build.askingBytes
  | call function _ => do Build.callAsking (← Build.query (·.function function)).type
  | callIndirect type _ _ => Build.callAsking type
  | namedStruct name => return [.made name (← Build.namedStruct name)]
  | setStructBody struct members packed => do
      Build.setStructBody struct members packed
      return [.given struct members packed]
  | _ => return []

def Module.TypedAt (m : Module) (id : TypeId) : Handle → Prop
  | .type id' => id' = id
  | .value v => ∃ kind, m.values[v.index]? = some ⟨id, kind⟩
  | .function f => ∃ function kind, m.functions[f.index]? = some function ∧
      m.values[function.value.index]? = some ⟨id, kind⟩
  | .block _ => False

/-- Whether what a request to the builder does to the types is what the requests for types do that
it makes, and what it makes has the type of the last answer. -/
def Command.Follows (c : Command) (m : Module) (made : Option Handle) (m' : Module) : Prop :=
  ∃ events t, c.typeEvents m = .ok events t ∧ t.types = m'.types ∧
    ∀ handle ∈ made, ∀ id ∈ events.getLast?.bind TypeEvent.answer?, m'.TypedAt id handle

namespace Build

open Ssa.Module

variable {α β : Type} {type : IrType} {m m' : Module} {id : TypeId}

/-- Types with the same types before them get the same answers. -/
theorem intern_congr {t : Module} (hsame : t.types = m.types) (h : intern type m = .ok id m') :
    ∃ t', intern type t = .ok id t' ∧ t'.types = m'.types := by
  unfold intern at h ⊢
  rw [hsame]
  cases hfound : m.types.idxOf? type with
  | some i =>
      rw [hfound] at h
      cases h
      exact ⟨t, rfl, hsame⟩
  | none =>
      rw [hfound] at h
      cases h
      exact ⟨_, rfl, rfl⟩

theorem asking_eq_ok (h : intern type m = .ok id m') : asking type m = .ok [.asked type id] m' := by
  simp [asking, h]

/-- Whether an action asks for one type, by its parts, and what it makes has this type. -/
class Asks (type : IrType) (typed : Module → α → TypeId → Prop) (x : Build α) : Prop where
  run : ∀ {m a m'}, x m = .ok a m' → ∃ m₁ m₂ id, m₁.types = m.types ∧ intern type m₁ = .ok id m₂ ∧
    m'.types = m₂.types ∧ typed m' a id

namespace Asks

variable {typed : Module → α → TypeId → Prop}

theorem seq {x : Build β} {f : β → Build α} (hx : Keeps SameTypes x)
    (hf : ∀ b, Asks type typed (f b)) : Asks type typed (x >>= f) where
  run h := by
    obtain ⟨b, t, hfirst, hthen⟩ := bind_eq_ok_iff.mp h
    obtain ⟨m₁, m₂, id, hsame, hrest⟩ := (hf b).run hthen
    exact ⟨m₁, m₂, id, hsame.trans (hx.run hfirst), hrest⟩

instance after (x : Build β) (f : β → Build α) [hx : Keeps SameTypes x]
    [hf : ∀ b, Asks type typed (f b)] : Asks type typed (x >>= f) :=
  seq hx hf

instance ite (c : Prop) [Decidable c] (x y : Build α) [hx : Asks type typed x]
    [hy : Asks type typed y] : Asks type typed (if c then x else y) := by
  split
  · exact hx
  · exact hy

theorem first {f : TypeId → Build α} (hf : ∀ id, Keeps SameTypes (f id))
    (htyped : ∀ {id m a m'}, f id m = .ok a m' → typed m' a id) :
    Asks type typed (intern type >>= f) where
  run h := by
    obtain ⟨id, t, hintern, hthen⟩ := bind_eq_ok_iff.mp h
    exact ⟨_, t, id, rfl, hintern, (hf id).run hthen, htyped hthen⟩

end Asks

theorem pushValue_typed {type : TypeId} {kind : ValueKind} {v : ValueId}
    (h : pushValue type kind m = .ok v m') : m'.TypedAt type (.value v) := by
  cases h
  exact ⟨kind, by simp⟩

theorem pushInst_typed {type : TypeId} {inst : Inst} {v : ValueId}
    (h : pushInst type inst m = .ok v m') : m'.TypedAt type (.value v) := by
  obtain ⟨m₁, -, rfl, rfl, -⟩ := pushInst_cases h
  cases m.position <;> exact ⟨_, by simp [apply, Module.pushValue]; rfl⟩

/-- The value that an action makes has the type. -/
abbrev Typed (m : Module) (v : ValueId) (id : TypeId) : Prop := m.TypedAt id (.value v)

instance (kind : ValueKind) : Asks type Typed (intern type >>= fun id => pushValue id kind) :=
  Asks.first (fun _ => inferInstance) pushValue_typed

instance (inst : Inst) : Asks type Typed (intern type >>= fun id => pushInst id inst) :=
  Asks.first (fun _ => inferInstance) pushInst_typed

instance (bits : Nat) (value : Int) : Asks (.int bits) Typed (constIntOf bits value) :=
  inferInstanceAs (Asks _ _ (intern (.int bits) >>= fun id => pushValue id (.constInt value)))

instance (element : TypeId) (items : List ValueId) :
    Asks (.array element items.length) Typed (constArray element items) :=
  inferInstanceAs (Asks _ _ (intern (.array element items.length) >>= fun id =>
    pushValue id (.constAggregate items)))

instance (pred : IntPredicate) (lhs rhs : ValueId) : Asks (.int 1) Typed (icmp pred lhs rhs) := by
  unfold icmp intType
  infer_instance

instance (pred : FloatPredicate) (lhs rhs : ValueId) : Asks (.int 1) Typed (fcmp pred lhs rhs) := by
  unfold fcmp intType
  dsimp only
  infer_instance

instance (type : TypeId) : Asks (.pointer type) Typed (alloca type) := by
  unfold alloca pointerType
  infer_instance

instance (element : TypeId) (pointer index : ValueId) :
    Asks (.pointer element) Typed (gep element pointer index) := by
  unfold gep pointerType
  infer_instance

instance (type : TypeId) (count : Option ValueId) :
    Asks (.pointer type) Typed (heapAlloc type count) := by
  unfold heapAlloc pointerType
  infer_instance

instance (pointer value : ValueId) (isVolatile : Bool) :
    Asks .void (fun _ _ _ => True) (store pointer value isVolatile) := by
  have hpush : Asks .void (fun _ (_ : Unit) _ => True) (do
      let _ ← pushInst (← intern .void) (.store pointer value isVolatile) : Build Unit) :=
    Asks.first (fun _ => inferInstance) fun _ => trivial
  unfold store voidType
  infer_instance

instance (name : String) (content : TypeId) :
    Asks (.pointer content) Typed (addGlobal name content) where
  run {m g m'} h := by
    obtain ⟨zero, m₁, pointer, m₂, m₃, hzero, hpointer, hpush, hlast⟩ := addGlobal_eq_ok h
    have hsame : m₁.types = m.types :=
      (inferInstance : Keeps SameTypes (constNull content)).run hzero
    have hpushed : m₃.types = m₂.types :=
      (inferInstance : Keeps SameTypes (pushValue pointer (.global name content zero))).run hpush
    obtain ⟨kind, hkind⟩ := pushValue_typed hpush
    refine ⟨m₁, m₂, pointer, hsame, hpointer, ?_⟩
    rw [← hpushed]
    rcases hlast with rfl | hrecord
    · exact ⟨rfl, kind, hkind⟩
    · obtain ⟨function, -, rfl⟩ := record_eq_ok_iff.mp hrecord
      exact ⟨rfl, kind, hkind⟩

abbrev LastTyped (m : Module) (_ : FunctionId) (id : TypeId) : Prop :=
  ∃ (others : Array Function) (function : Function) (kind : ValueKind),
    m.functions = others.push function ∧ m.values[function.value.index]? = some ⟨id, kind⟩

instance (id : FunctionId) (name : String) (type : TypeId) (linkage : Linkage)
    (types : List TypeId) :
    Asks (.pointer type) LastTyped (appendFunction id name type linkage types) where
  run {m f m'} h := by
    obtain ⟨rfl, pointer, m₁, value, m₂, params, m₃, hpointer, hpush, hparams, hlast⟩ :=
      appendFunction_eq_ok h
    have hpushed : m₂.types = m₁.types :=
      (inferInstance : Keeps SameTypes (pushValue pointer (.function f))).run hpush
    have hsame : m₃.types = m₂.types :=
      (inferInstance : Keeps SameTypes (pushParams f 0 types)).run hparams
    have hevolves : m₂.Evolves Change.Any m₃ := Keeps.run hparams
    obtain ⟨kind, hkind⟩ := pushValue_typed hpush
    obtain ⟨⟨type', kind'⟩, hv, hlike⟩ := hevolves.like hkind
    obtain rfl : type' = pointer := hlike.1
    refine ⟨m, m₁, type', rfl, hpointer, ?_⟩
    rw [← hpushed, ← hsame]
    rcases hlast with rfl | hrecord
    · exact ⟨rfl, _, _, kind', rfl, hv⟩
    · obtain ⟨function, -, rfl⟩ := record_eq_ok_iff.mp hrecord
      exact ⟨rfl, _, _, kind', rfl, hv⟩

instance (name : String) (type : TypeId) (linkage : Linkage) :
    Asks (.pointer type) LastTyped (addFunction name type linkage) := by
  have htypes : Keeps SameTypes (paramTypes name type) := by
    unfold paramTypes
    refine Keeps.seq inferInstance fun signature => ?_
    cases signature <;> infer_instance
  rw [addFunction_eq]
  infer_instance

theorem Asks.follows {typed : Module → α → TypeId → Prop} {x : Build α} {a : α} {c : Command}
    {made : Option Handle} (hx : Asks type typed x) (hc : c.typeEvents m = asking type m)
    (h : x m = .ok a m') (hmade : ∀ id, typed m' a id → ∀ handle ∈ made, m'.TypedAt id handle) :
    c.Follows m made m' := by
  obtain ⟨m₁, m₂, id, hsame, hintern, hend, htyped⟩ := hx.run h
  obtain ⟨t, ht, hsame'⟩ := intern_congr hsame.symm hintern
  refine ⟨[.asked type id], t, hc.trans (asking_eq_ok ht), hsame'.trans hend.symm, ?_⟩
  intro handle hhandle id' hid'
  obtain rfl : id = id' := by simpa [TypeEvent.answer?] using hid'
  exact hmade id htyped handle hhandle

/-- A request that asks for nothing. -/
theorem follows_of_quiet {x : Build α} {a : α} {c : Command} {made : Option Handle}
    (hx : Keeps SameTypes x) (hc : c.typeEvents m = .ok [] m) (h : x m = .ok a m') :
    c.Follows m made m' := by
  refine ⟨[], m, hc, (hx.run h).symm, fun _ _ id hid => ?_⟩
  simp at hid

theorem follows_askingBytes {c : Command} {made : Option Handle} {m₁ m₂ m₃ : Module} {byte : TypeId}
    (hc : c.typeEvents m = askingBytes m) (hsame : m₁.types = m.types)
    (hbyte : intern (.int 8) m₁ = .ok byte m₂) (hpointer : intern (.pointer byte) m₂ = .ok id m₃)
    (hend : m'.types = m₃.types) (hmade : ∀ handle ∈ made, m'.TypedAt id handle) :
    c.Follows m made m' := by
  obtain ⟨t, ht, hsame'⟩ := intern_congr hsame.symm hbyte
  obtain ⟨t', ht', hsame''⟩ := intern_congr hsame' hpointer
  refine ⟨[.asked (.int 8) byte, .asked (.pointer byte) id], t', ?_, hsame''.trans hend.symm, ?_⟩
  · rw [hc]
    simp [askingBytes, ht, ht']
  · intro handle hhandle id' hid'
    obtain rfl : id = id' := by simpa [TypeEvent.answer?] using hid'
    exact hmade handle hhandle

end Build

namespace Command

open Ssa.Module

variable {m m' : Module} {made : Option Handle}

theorem nothing_eq_ok_iff {action : Build Unit} :
    nothing action m = .ok made m' ↔ action m = .ok () m' ∧ made = none := by
  simp only [nothing, bind_eq_ok_iff, pure_eq_ok_iff]
  constructor
  · rintro ⟨_, _, h, rfl, rfl⟩
    exact ⟨h, rfl⟩
  · rintro ⟨h, rfl⟩
    exact ⟨(), m', h, rfl, rfl⟩

theorem aType_eq_ok_iff {action : Build TypeId} :
    aType action m = .ok made m' ↔ ∃ id, action m = .ok id m' ∧ made = some (.type id) := by
  simp only [aType, bind_eq_ok_iff, pure_eq_ok_iff]
  constructor
  · rintro ⟨id, _, h, rfl, rfl⟩
    exact ⟨id, h, rfl⟩
  · rintro ⟨id, h, rfl⟩
    exact ⟨id, m', h, rfl, rfl⟩

theorem aValue_eq_ok_iff {action : Build ValueId} :
    aValue action m = .ok made m' ↔ ∃ v, action m = .ok v m' ∧ made = some (.value v) := by
  simp only [aValue, bind_eq_ok_iff, pure_eq_ok_iff]
  constructor
  · rintro ⟨v, _, h, rfl, rfl⟩
    exact ⟨v, h, rfl⟩
  · rintro ⟨v, h, rfl⟩
    exact ⟨v, m', h, rfl, rfl⟩

variable {type : IrType} {c : Command}

/-- What is made has the type if the one thing that is made has it. -/
theorem typedAt_of_some {handle : Handle} {id : TypeId} (h : m'.TypedAt id handle) :
    ∀ other ∈ some handle, m'.TypedAt id other := by
  intro other hother
  obtain rfl : handle = other := Option.some.inj hother
  exact h

/-- A request for a type that is determined by its parts. -/
theorem follows_of_type (hc : c.typeEvents m = Build.asking type m)
    (h : aType (Build.intern type) m = .ok made m') : c.Follows m made m' := by
  obtain ⟨id, hintern, rfl⟩ := aType_eq_ok_iff.mp h
  refine ⟨[.asked type id], m', hc.trans (Build.asking_eq_ok hintern),
    rfl, fun handle hhandle id' hid' => ?_⟩
  obtain rfl : id = id' := Option.some.inj hid'
  have htyped : m'.TypedAt id (.type id) := rfl
  exact typedAt_of_some htyped handle hhandle

/-- A request for a value that has a type of its own. -/
theorem follows_of_value {action : Build ValueId} (hx : Build.Asks type Build.Typed action)
    (hc : c.typeEvents m = Build.asking type m) (h : aValue action m = .ok made m') :
    c.Follows m made m' := by
  obtain ⟨v, hrun, rfl⟩ := aValue_eq_ok_iff.mp h
  exact hx.follows hc hrun fun id htyped => typedAt_of_some htyped

theorem follows_genericPointer (h : run .genericPointer m = .ok made m') :
    Follows .genericPointer m made m' := by
  obtain ⟨id, hrun, rfl⟩ := aType_eq_ok_iff.mp h
  obtain ⟨byte, m₁, hbyte, hpointer⟩ := bind_eq_ok_iff.mp hrun
  exact Build.follows_askingBytes rfl rfl hbyte hpointer rfl (typedAt_of_some rfl)

theorem follows_namedStruct {name : String} (h : run (.namedStruct name) m = .ok made m') :
    Follows (.namedStruct name) m made m' := by
  obtain ⟨id, hrun, rfl⟩ := aType_eq_ok_iff.mp h
  refine ⟨[.made name id], m', ?_, rfl, fun handle hhandle id' hid' => ?_⟩
  · simp only [typeEvents, bind_eq_ok_iff, pure_eq_ok_iff]
    exact ⟨id, m', hrun, rfl, rfl⟩
  · obtain rfl : id = id' := Option.some.inj hid'
    have htyped : m'.TypedAt id (.type id) := rfl
    exact typedAt_of_some htyped handle hhandle

theorem follows_setStructBody {struct : TypeId} {members : List TypeId} {packed : Bool}
    (h : run (.setStructBody struct members packed) m = .ok made m') :
    Follows (.setStructBody struct members packed) m made m' := by
  obtain ⟨hrun, rfl⟩ := nothing_eq_ok_iff.mp h
  refine ⟨[.given struct members packed], m', ?_, rfl, fun _ hnone => by simp at hnone⟩
  simp only [typeEvents, bind_eq_ok_iff, pure_eq_ok_iff]
  exact ⟨(), m', hrun, trivial, rfl⟩

theorem follows_constString {text : String} (h : run (.constString text) m = .ok made m') :
    Follows (.constString text) m made m' := by
  obtain ⟨v, hrun, rfl⟩ := aValue_eq_ok_iff.mp h
  simp only [Build.constString, bind_eq_ok_iff, get_eq_ok_iff, modify_eq_ok_iff] at hrun
  obtain ⟨byte, m₁, hbyte, content, m₂, hcontent, bytes, m₃, hbytes, t, t', ⟨ht, ht'⟩,
    _, _, rfl, pointer, m₄, hpointer, global, m₅, hglobal, _, _, rfl, hrun⟩ := hrun
  subst t t'
  obtain ⟨rfl, rfl⟩ := pure_eq_ok_iff.mp hrun
  have hsame : SameTypes m₂ m₃ := Keeps.run hbytes
  have hend : SameTypes m₄ m₅ := Keeps.run hglobal
  have hcounted : m₂.types = ({ m₃ with stringCount := m₃.stringCount + 1 } : Module).types :=
    hsame.symm
  obtain ⟨t, ht, hsame'⟩ := Build.intern_congr hcounted hpointer
  refine ⟨[.asked (.int 8) byte, .asked (.array byte (text.utf8ByteSize + 1)) content,
    .asked (.pointer byte) pointer], t, ?_, hsame'.trans hend.symm, fun handle hhandle id hid => ?_⟩
  · simp only [typeEvents, bind_eq_ok_iff, pure_eq_ok_iff]
    exact ⟨byte, m₁, hbyte, content, m₂, hcontent, pointer, t, ht, rfl, rfl⟩
  · obtain rfl : pointer = id := Option.some.inj hid
    have htyped : m₅.TypedAt pointer (.value v) := Build.pushValue_typed hglobal
    exact typedAt_of_some htyped handle hhandle

theorem follows_addFunction {name : String} {content : TypeId} {linkage : Linkage}
    (h : run (.addFunction name content linkage) m = .ok made m') :
    Follows (.addFunction name content linkage) m made m' := by
  simp only [run, bind_eq_ok_iff, pure_eq_ok_iff] at h
  obtain ⟨f, _, hrun, rfl, rfl⟩ := h
  have hasks : Build.Asks (.pointer content) Build.LastTyped
      (Build.addFunction name content linkage) := inferInstance
  refine hasks.follows rfl hrun fun id htyped => typedAt_of_some ?_
  obtain ⟨others, function, kind, hfunctions, hkind⟩ := htyped
  obtain ⟨rfl, params, value, hadded⟩ := Build.addFunction_functions hrun
  obtain ⟨rfl, -⟩ := Array.push_eq_push.mp (hadded.symm.trans hfunctions)
  exact ⟨_, kind, by rw [hadded]; simp, hkind⟩

theorem follows_structGep {struct : TypeId} {pointer : ValueId} {index : Nat}
    (h : run (.structGep struct pointer index) m = .ok made m') :
    Follows (.structGep struct pointer index) m made m' := by
  obtain ⟨v, hrun, rfl⟩ := aValue_eq_ok_iff.mp h
  simp only [Build.structGep, bind_eq_ok_iff] at hrun
  obtain ⟨member, t, hquery, hrun⟩ := hrun
  obtain ⟨hmember, hsame⟩ := Build.query_eq_ok_iff.mp hquery
  subst t
  cases member with
  | some member =>
      have hasks : Build.Asks (.pointer member) Build.Typed
          (Build.intern (.pointer member) >>= fun id =>
            Build.pushInst id (.structGep struct pointer index)) := inferInstance
      refine hasks.follows ?_ hrun fun id htyped => typedAt_of_some htyped
      exact Build.query_bind hmember
  | none =>
      obtain ⟨_, m₁, hrecord, hrun⟩ := bind_eq_ok_iff.mp hrun
      obtain ⟨byte, m₂, hbyte, hrun⟩ := bind_eq_ok_iff.mp hrun
      obtain ⟨id, m₃, hpointer, hpush⟩ := bind_eq_ok_iff.mp hrun
      have hsame : SameTypes m m₁ := Keeps.run hrecord
      have hend : SameTypes m₃ m' := Keeps.run hpush
      refine Build.follows_askingBytes ?_ hsame hbyte hpointer hend
        (typedAt_of_some (Build.pushInst_typed hpush))
      exact Build.query_bind hmember

/-- A call of something that is no function asks for a type. -/
theorem follows_of_call {type : TypeId} {callee : Callee} {args : List ValueId}
    {result : Option ValueId} (hc : c.typeEvents m = Build.callAsking type m)
    (h : Build.buildCall type callee args m = .ok result m') :
    c.Follows m (result.map .value) m' := by
  obtain ⟨signature, _, hquery, hrun⟩ := bind_eq_ok_iff.mp h
  obtain ⟨hsignature, rfl⟩ := Build.query_eq_ok_iff.mp hquery
  cases signature with
  | some signature =>
      have hquiet : Keeps SameTypes (do
          let (result, params) := signature
          if params.length ≠ args.length then Build.record (.callArity args.length params.length)
          else Build.checkArgs 0 args params
          let value ← Build.pushInst result (.call callee args)
          return if (← Build.query (·.classify result)) = .void then none else some value :
          Build (Option ValueId)) := by
        dsimp only
        infer_instance
      refine Build.follows_of_quiet hquiet (hc.trans ?_) hrun
      exact Build.callAsking_eq hsignature
  | none =>
      have hasks : Build.Asks .void (fun _ (made : Option ValueId) _ => made = none) (do
          Build.record (.callOfNonFunctionType type)
          let _ ← Build.pushInst (← Build.intern .void) (.call callee args)
          return none : Build (Option ValueId)) := by
        refine Build.Asks.seq inferInstance fun _ => Build.Asks.first (fun _ => inferInstance) ?_
        intro id m a m' h
        obtain ⟨_, _, -, hpure⟩ := bind_eq_ok_iff.mp h
        exact (pure_eq_ok_iff.mp hpure).1
      refine hasks.follows (hc.trans ?_) hrun fun id hnone handle hhandle => ?_
      · exact Build.callAsking_eq hsignature
      · simp [hnone] at hhandle

theorem follows_call {f : FunctionId} {args : List ValueId}
    (h : run (.call f args) m = .ok made m') :
    Follows (.call f args) m made m' := by
  simp only [run, bind_eq_ok_iff, pure_eq_ok_iff] at h
  obtain ⟨result, _, hcall, rfl, rfl⟩ := h
  obtain ⟨function, _, hquery, hrun⟩ := bind_eq_ok_iff.mp hcall
  obtain ⟨hfunction, rfl⟩ := Build.query_eq_ok_iff.mp hquery
  exact follows_of_call (Build.query_bind hfunction) hrun

theorem callAsking_congr {type : TypeId} {t t' : Module} {events : List TypeEvent}
    (hsame : SameTypes m t) (h : Build.callAsking type t = .ok events t') :
    ∃ m', Build.callAsking type m = .ok events m' ∧ m'.types = t'.types := by
  obtain ⟨signature, _, hquery, hrun⟩ := bind_eq_ok_iff.mp h
  obtain ⟨hsignature, rfl⟩ := Build.query_eq_ok_iff.mp hquery
  have hsignature' : m.signature? type = .ok signature := by
    rw [← hsignature]
    simp only [signature?, typeData]
    rw [hsame]
  cases signature with
  | some signature =>
      obtain ⟨rfl, rfl⟩ := pure_eq_ok_iff.mp hrun
      exact ⟨m, Build.callAsking_eq hsignature', hsame.symm⟩
  | none =>
      simp only [Build.asking, bind_eq_ok_iff, pure_eq_ok_iff] at hrun
      obtain ⟨id, _, hintern, rfl, rfl⟩ := hrun
      obtain ⟨m', hm', hsame'⟩ := Build.intern_congr hsame.symm hintern
      exact ⟨m', (Build.callAsking_eq hsignature').trans (Build.asking_eq_ok hm'), hsame'⟩

theorem follows_callIndirect {type : TypeId} {callee : ValueId} {args : List ValueId}
    (h : run (.callIndirect type callee args) m = .ok made m') :
    Follows (.callIndirect type callee args) m made m' := by
  simp only [run, bind_eq_ok_iff, pure_eq_ok_iff] at h
  obtain ⟨result, _, hcall, rfl, rfl⟩ := h
  obtain ⟨t, hsame, hrun⟩ : ∃ t, SameTypes m t ∧
      Build.buildCall type (.indirect type callee) args t = .ok result m' := by
    simp only [Build.callIndirect, bind_eq_ok_iff] at hcall
    obtain ⟨calleeType, m₁, hcallee, pointee, m₂, hpointee, hrun⟩ := hcall
    have hfirst : SameTypes m m₁ := Keeps.run hcallee
    have hsecond : SameTypes m₁ m₂ := Keeps.run hpointee
    have hsame : SameTypes m m₂ := hsecond.trans hfirst
    split at hrun
    · obtain ⟨_, m₃, hrecord, hrun⟩ := bind_eq_ok_iff.mp hrun
      have hthird : SameTypes m₂ m₃ := Keeps.run hrecord
      exact ⟨m₃, hthird.trans hsame, hrun⟩
    · exact ⟨m₂, hsame, hrun⟩
  obtain ⟨events, t', hevents, hend, htyped⟩ :=
    follows_of_call (c := .callIndirect type callee args) rfl hrun
  obtain ⟨m₁, hm₁, hsame'⟩ := callAsking_congr hsame hevents
  exact ⟨events, m₁, hm₁, hsame'.trans hend, htyped⟩

/-- Every request does to the types what the requests for types do that it makes. -/
theorem follows_of_run (h : c.run m = .ok made m') : c.Follows m made m' := by
  cases c with
  | voidType | intType | floatType | pointerType | arrayType | functionType =>
      exact follows_of_type rfl h
  | genericPointer => exact follows_genericPointer h
  | namedStruct => exact follows_namedStruct h
  | setStructBody => exact follows_setStructBody h
  | constIntOf | constArray | addGlobal | icmp | fcmp | alloca | gep | heapAlloc =>
      exact follows_of_value inferInstance rfl h
  | constString => exact follows_constString h
  | addFunction => exact follows_addFunction h
  | structGep => exact follows_structGep h
  | store pointer value isVolatile =>
      obtain ⟨hrun, rfl⟩ := nothing_eq_ok_iff.mp h
      have hasks : Build.Asks .void (fun _ _ _ => True) (Build.store pointer value isVolatile) :=
        inferInstance
      exact hasks.follows rfl hrun fun _ _ _ hnone => by simp at hnone
  | call => exact follows_call h
  | callIndirect => exact follows_callIndirect h
  | _ =>
      refine Build.follows_of_quiet ?_ rfl h
      simp only [run, nothing, aValue]
      infer_instance

section Answers

variable {events : List TypeEvent} {id : TypeId}

theorem served_of_intern (hinterned : type.isInterned = true)
    (h : Build.intern type m = .ok id m') : Served m.types (.asked type id) m'.types := by
  rcases Build.intern_cases h with ⟨hfound, rfl⟩ | ⟨hnone, rfl, rfl⟩
  · exact .found hinterned hfound
  · exact .added hinterned hnone

theorem servedAll_of_asking (hinterned : type.isInterned = true)
    (h : Build.asking type m = .ok events m') : ServedAll m.types events m'.types := by
  simp only [Build.asking, bind_eq_ok_iff, pure_eq_ok_iff] at h
  obtain ⟨id, _, hintern, rfl, rfl⟩ := h
  exact .cons (served_of_intern hinterned hintern) (.nil _)

theorem servedAll_of_askingBytes (h : Build.askingBytes m = .ok events m') :
    ServedAll m.types events m'.types := by
  simp only [Build.askingBytes, bind_eq_ok_iff, pure_eq_ok_iff] at h
  obtain ⟨byte, m₁, hbyte, pointer, _, hpointer, rfl, rfl⟩ := h
  exact .cons (served_of_intern rfl hbyte) (.cons (served_of_intern rfl hpointer) (.nil _))

theorem servedAll_of_callAsking {type : TypeId} (h : Build.callAsking type m = .ok events m') :
    ServedAll m.types events m'.types := by
  obtain ⟨signature, _, hquery, hrun⟩ := bind_eq_ok_iff.mp h
  obtain ⟨-, rfl⟩ := Build.query_eq_ok_iff.mp hquery
  cases signature with
  | some signature =>
      obtain ⟨rfl, rfl⟩ := pure_eq_ok_iff.mp hrun
      exact .nil _
  | none => exact servedAll_of_asking rfl hrun

theorem served_of_setStructBody {struct : TypeId} {members : List TypeId} {packed : Bool} {u : Unit}
    (h : Build.setStructBody struct members packed m = .ok u m') :
    Served m.types (.given struct members packed) m'.types := by
  simp only [Build.setStructBody, bind_eq_ok_iff, Build.query_eq_ok_iff] at h
  obtain ⟨found, _, ⟨hfound, rfl⟩, h⟩ := h
  have hat := Arena.entry_eq_ok_iff.mp hfound
  have hlt := (Array.getElem?_eq_some_iff.mp hat).1
  split at h
  · obtain rfl := modify_eq_ok_iff.mp h
    exact .defined members packed hat
  · obtain ⟨function, -, rfl⟩ := Build.record_eq_ok_iff.mp h
    exact .refused members packed hlt fun name before hopened => by simp [hat] at hopened
  · rename_i hnone hsome
    obtain ⟨function, -, rfl⟩ := Build.record_eq_ok_iff.mp h
    refine .refused members packed hlt fun name before hopened => ?_
    exact hnone name before (Option.some.inj (hat.symm.trans hopened))

/-- What is done to the types when requests for types are answered. -/
theorem servedAll_of_typeEvents (h : c.typeEvents m = .ok events m') :
    ServedAll m.types events m'.types := by
  cases c with
  | voidType | store | intType | constIntOf | floatType | icmp | fcmp | pointerType | addGlobal
  | addFunction | alloca | gep | heapAlloc | arrayType | constArray | functionType =>
      exact servedAll_of_asking rfl h
  | genericPointer => exact servedAll_of_askingBytes h
  | constString =>
      simp only [typeEvents, bind_eq_ok_iff, pure_eq_ok_iff] at h
      obtain ⟨byte, m₁, hbyte, content, m₂, hcontent, pointer, _, hpointer, rfl, rfl⟩ := h
      exact .cons (served_of_intern rfl hbyte) (.cons (served_of_intern rfl hcontent)
        (.cons (served_of_intern rfl hpointer) (.nil _)))
  | structGep struct pointer index =>
      obtain ⟨member, _, hquery, hrun⟩ := bind_eq_ok_iff.mp h
      obtain ⟨-, rfl⟩ := Build.query_eq_ok_iff.mp hquery
      cases member with
      | some member => exact servedAll_of_asking rfl hrun
      | none => exact servedAll_of_askingBytes hrun
  | call =>
      obtain ⟨function, _, hquery, hrun⟩ := bind_eq_ok_iff.mp h
      obtain ⟨-, rfl⟩ := Build.query_eq_ok_iff.mp hquery
      exact servedAll_of_callAsking hrun
  | callIndirect => exact servedAll_of_callAsking h
  | namedStruct name =>
      simp only [typeEvents, bind_eq_ok_iff, pure_eq_ok_iff] at h
      obtain ⟨id, _, hmade, rfl, rfl⟩ := h
      cases hmade
      exact .cons (.made name) (.nil _)
  | setStructBody =>
      simp only [typeEvents, bind_eq_ok_iff, pure_eq_ok_iff] at h
      obtain ⟨_, _, hgiven, rfl, rfl⟩ := h
      exact .cons (served_of_setStructBody hgiven) (.nil _)
  | _ =>
      obtain ⟨rfl, rfl⟩ := pure_eq_ok_iff.mp h
      exact .nil _

end Answers

/-- Carries out requests one after the other and writes down what they ask of the types. -/
def chronicle : List Command → Build (List TypeEvent)
  | [] => return []
  | c :: rest => do
      let events ← Build.peek c.typeEvents
      let _ ← c.run
      return events ++ (← chronicle rest)

/-- Whatever is asked for, what is written down explains the types. -/
theorem exists_chronicle {commands : List Command} {events : List TypeEvent}
    (h : runAll commands m = .ok () m') (hshared : Shared m.types events) :
    ∃ more, chronicle commands m = .ok more m' ∧ Shared m'.types (events ++ more) := by
  induction commands generalizing m events with
  | nil =>
      obtain ⟨-, rfl⟩ := pure_eq_ok_iff.mp h
      exact ⟨[], rfl, by simpa using hshared⟩
  | cons c rest ih =>
      obtain ⟨_, t, hfirst, hrest⟩ := bind_eq_ok_iff.mp h
      obtain ⟨made, _, hrun, hpure⟩ := bind_eq_ok_iff.mp hfirst
      obtain ⟨-, rfl⟩ := pure_eq_ok_iff.mp hpure
      obtain ⟨served, t', hevents, hsame, -⟩ := follows_of_run hrun
      have hserved := hshared.servedAll (hsame ▸ servedAll_of_typeEvents hevents)
      obtain ⟨more, hmore, hfinal⟩ := ih hrest hserved
      refine ⟨served ++ more, ?_, by simpa using hfinal⟩
      simp only [chronicle, bind_eq_ok_iff, pure_eq_ok_iff]
      exact ⟨served, m, by simp [Build.peek, hevents], made, _, hrun, more, m', hmore, rfl, rfl⟩

/-- A struct that has its members keeps them, and the request to give it others is one misuse. -/
theorem setStructBody_again {struct : TypeId} {name : String} {first members : List TypeId}
    {packed packed' : Bool} (hat : m.types[struct.index]? = some (.struct name (some first) packed))
    (h : run (.setStructBody struct members packed') m = .ok made m') :
    ∃ function, m' = { m with misuses := m.misuses.push (function, .bodySetTwice name) } := by
  obtain ⟨hrun, -⟩ := nothing_eq_ok_iff.mp h
  simp only [Build.setStructBody, bind_eq_ok_iff, Build.query_eq_ok_iff] at hrun
  obtain ⟨found, _, ⟨hfound, rfl⟩, hrun⟩ := hrun
  obtain rfl := Option.some.inj (hat.symm.trans (Arena.entry_eq_ok_iff.mp hfound))
  obtain ⟨function, -, rfl⟩ := Build.record_eq_ok_iff.mp hrun
  exact ⟨function, rfl⟩

/-- The types of a module are shared as long as it lives.  Whatever the builder is asked for, and
whether types are asked for or needed on the way, requests have the same answer if and only if they
are for types of the same structure, and the type of an answer stays.  A new struct is none of the
types before it; it has the members that it is given first, and giving it others is a misuse that
changes nothing. -/
theorem types_shared {name : String} {commands : List Command}
    (h : runAll commands { name } = .ok () m) :
    (∀ {c t made t'}, run c t = .ok made t' → c.Follows t made t') ∧
    ∃ events, chronicle commands { name } = .ok events m ∧
      (∀ {type id type' id'}, .asked type id ∈ events → .asked type' id' ∈ events →
        (id = id' ↔ type.Agrees (Alike m.types) type')) ∧
      (∀ {type id}, .asked type id ∈ events → m.types[id.index]? = some type) ∧
      (events.Pairwise fun e e' => ∀ {name id}, e' = .made name id → e.answer? ≠ some id) ∧
      (∀ {name id}, .made name id ∈ events →
        m.types[id.index]? = some (.withBody name (events.findSome? (TypeEvent.bodyFor? id)))) ∧
      ∀ {name id members packed more packed' made m'}, .made name id ∈ events →
        .given id members packed ∈ events → run (.setStructBody id more packed') m = .ok made m' →
          ∃ function, m' = { m with misuses := m.misuses.push (function, .bodySetTwice name) } := by
  refine ⟨follows_of_run, ?_⟩
  obtain ⟨events, hevents, hshared⟩ := exists_chronicle h shared_empty
  rw [List.nil_append] at hshared
  refine ⟨events, hevents, hshared.answer_eq_iff, fun hmem => (hshared.asked hmem).2, hshared.apart,
    hshared.made, fun {name id members packed _ _ _ _} hmade hgiven hagain => ?_⟩
  have hat := hshared.made hmade
  cases hbody : events.findSome? (TypeEvent.bodyFor? id) with
  | some body =>
      rw [hbody] at hat
      exact setStructBody_again hat hagain
  | none =>
      have hnone := List.findSome?_eq_none_iff.mp hbody _ hgiven
      simp [TypeEvent.bodyFor?] at hnone

/-- A struct that is given members twice, and pointers to it that are asked for and needed. -/
def links : List Command :=
  [.namedStruct "Link", .pointerType ⟨0⟩, .setStructBody ⟨0⟩ [⟨1⟩] false, .addGlobal "first" ⟨0⟩,
    .namedStruct "Link", .constString "end", .setStructBody ⟨0⟩ [] true, .genericPointer,
    .structGep ⟨0⟩ ⟨1⟩ 0]

/-- What the builder makes of it. -/
def linked : Module := stateOf (runAll links { name := "links" })

/-- What is asked of the types on the way. -/
def linkEvents : List TypeEvent :=
  [.made "Link" ⟨0⟩, .asked (.pointer ⟨0⟩) ⟨1⟩, .given ⟨0⟩ [⟨1⟩] false, .asked (.pointer ⟨0⟩) ⟨1⟩,
    .made "Link" ⟨2⟩, .asked (.int 8) ⟨3⟩, .asked (.array ⟨3⟩ 4) ⟨4⟩, .asked (.pointer ⟨3⟩) ⟨5⟩,
    .given ⟨0⟩ [] true, .asked (.int 8) ⟨3⟩, .asked (.pointer ⟨3⟩) ⟨5⟩, .asked (.pointer ⟨1⟩) ⟨6⟩]

theorem linked_shares :
    runAll links { name := "links" } = .ok () linked ∧
      chronicle links { name := "links" } = .ok linkEvents linked ∧
      linked.types[0]? = some (.struct "Link" (some [⟨1⟩]) false) ∧
      linked.types[2]? = some (.struct "Link" none false) := by
  have h : runAll links { name := "links" } = .ok () linked := eq_ok_stateOf (by decide +kernel)
  obtain ⟨-, events, hevents, -, -, -, hmade, -⟩ := types_shared h
  have hlinks : chronicle links { name := "links" } =
      .ok linkEvents (stateOf (chronicle links { name := "links" })) :=
    eq_ok_stateOf (by decide +kernel)
  obtain ⟨rfl, -⟩ := EStateM.Result.ok.inj (hevents.symm.trans hlinks)
  have hfirst : .made "Link" ⟨0⟩ ∈ linkEvents := by decide
  have hsecond : .made "Link" ⟨2⟩ ∈ linkEvents := by decide
  exact ⟨h, hevents, hmade hfirst, hmade hsecond⟩

end Command

end Requests

end CilSsa.Ssa
