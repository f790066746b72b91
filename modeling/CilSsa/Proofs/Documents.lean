import CilSsa.Json.Decoder
import Mathlib.Algebra.Ring.Int.Defs
import Mathlib.Data.List.Nodup
import Mathlib.Order.MinMax

/-!
Documents that are decoded into what they encode.

How deep a document nests decides how many levels it takes to decode it: a decoder reads a document
as a value if it gives the value whenever there are enough levels, and nothing otherwise.  Lists,
optional values, records and variants are read so if their parts are.
-/

namespace CilSsa.Json

namespace Document

mutual

/-- How deep arrays and objects nest. -/
def depth : Document → Nat
  | .array items => 1 + depthOfItems items
  | .object members => 1 + depthOfMembers members
  | _ => 0

/-- How deep the items of an array nest. -/
def depthOfItems : List Document → Nat
  | [] => 0
  | item :: rest => max (depth item) (depthOfItems rest)

/-- How deep the members of an object nest. -/
def depthOfMembers : List (Option String × Document) → Nat
  | [] => 0
  | member :: rest => max (depthOfMember member) (depthOfMembers rest)

/-- How deep the value of a member nests. -/
def depthOfMember : Option String × Document → Nat
  | (_, value) => depth value

end

theorem depthOfItems_lt_iff {items : List Document} {levels : Nat} :
    depthOfItems items < levels + 1 ↔ ∀ item ∈ items, item.depth < levels + 1 := by
  induction items with
  | nil => simp [depthOfItems]
  | cons item rest ih => rw [depthOfItems, Nat.max_lt, ih, List.forall_mem_cons]

theorem depthOfMembers_lt_iff {members : List (Option String × Document)} {levels : Nat} :
    depthOfMembers members < levels + 1 ↔ ∀ member ∈ members, member.2.depth < levels + 1 := by
  induction members with
  | nil => simp [depthOfMembers]
  | cons member rest ih =>
    obtain ⟨key, value⟩ := member
    rw [depthOfMembers, max_lt_iff, ih, List.forall_mem_cons]
    rfl

/-- Inside of a list there is one level less. -/
theorem depth_list_lt_iff {α : Type} {write : α → Document} {items : List α} {levels : Nat} :
    (list write items).depth < levels + 2 ↔ ∀ a ∈ items, (write a).depth < levels + 1 := by
  rw [list, depth, show 1 + depthOfItems (items.map write) < levels + 2
    ↔ depthOfItems (items.map write) < levels + 1 by omega, depthOfItems_lt_iff]
  simp

/-- Inside of a record there is one level less. -/
theorem depth_record_lt_iff {members : List (String × Document)} {levels : Nat} :
    (record members).depth < levels + 2 ↔ ∀ member ∈ members, member.2.depth < levels + 1 := by
  rw [record, depth, Nat.add_comm, Nat.add_lt_add_iff_right, depthOfMembers_lt_iff,
    List.forall_mem_map]

/-- Neither an array nor an object. -/
def IsScalar (doc : Document) : Prop := doc.depth = 0

theorem isScalar_float (x : Numeric.Binary64) : (float x).IsScalar := by
  cases x <;> rfl

end Document

namespace Decoder

variable {α β : Type}

/-- Decoding gives the value if there are as many levels as the document nests, and nothing
otherwise. -/
def Reads (decode : Decoder α) (doc : Document) (a : α) : Prop :=
  ∀ levels, decode (levels + 1) doc = if doc.depth < levels + 1 then some a else none

theorem reads_of_scalar {decode : Decoder α} {doc : Document} {a : α} (scalar : doc.IsScalar)
    (h : ∀ levels, decode levels doc = some a) : Reads decode doc a := by
  intro levels
  rw [h, if_pos (by rw [scalar]; exact Nat.succ_pos levels)]

theorem map_ite {p : Prop} [Decidable p] (a : α) (f : α → β) :
    (if p then some a else none).map f = if p then some (f a) else none := by
  split <;> rfl

theorem bind_ite {p : Prop} [Decidable p] (a : α) (f : α → Option β) :
    (if p then some a else none) >>= f = if p then f a else none := by
  split <;> rfl

theorem Reads.map {decode : Decoder α} {doc : Document} {a : α} (h : Reads decode doc a)
    (f : α → β) : Reads (fun levels doc => (decode levels doc).map f) doc (f a) := by
  intro levels
  change (decode (levels + 1) doc).map f = _
  rw [h, map_ite]

theorem Reads.bind {decode : Decoder α} {doc : Document} {a : α} {b : β} (h : Reads decode doc a)
    {f : α → Option β} (built : f a = some b) :
    Reads (fun levels doc => decode levels doc >>= f) doc b := by
  intro levels
  change decode (levels + 1) doc >>= f = _
  rw [h, bind_ite, built]

theorem reads_text (s : String) : Reads text (.text s) s := reads_of_scalar rfl fun _ => rfl

theorem reads_bool (b : Bool) : Reads bool (.bool b) b := reads_of_scalar rfl fun _ => rfl

theorem reads_natBelow {bound n : Nat} (h : n < bound) : Reads (natBelow bound) (.nat n) n :=
  reads_of_scalar rfl fun _ => if_pos h

theorem reads_intOfBits {bits : Nat} {value : Int} (low : -2 ^ (bits - 1) ≤ value)
    (high : value < 2 ^ (bits - 1)) : Reads (intOfBits bits) (.int value) value := by
  refine reads_of_scalar rfl fun levels => ?_
  have power : ((2 ^ (bits - 1) : Nat) : Int) = 2 ^ (bits - 1) := by push_cast; rfl
  by_cases negative : value < 0
  · rw [Document.int, decide_eq_true negative]
    change (if 0 < value.natAbs ∧ value.natAbs ≤ 2 ^ (bits - 1) then some (-(value.natAbs : Int))
      else none) = _
    rw [if_pos (by omega)]
    congr 1
    omega
  · rw [Document.int, decide_eq_false negative]
    change (if value.natAbs < 2 ^ (bits - 1) then some (value.natAbs : Int) else none) = _
    rw [if_pos (by omega)]
    congr 1
    omega

theorem Reads.list {decode : Decoder α} {write : α → Document} {items : List α}
    (h : ∀ a ∈ items, Reads decode (write a) a) :
    Reads (Decoder.list decode) (.list write items) items := by
  have inside (levels : Nat) : (items.map write).mapM (decode (levels + 1))
      = if ∀ a ∈ items, (write a).depth < levels + 1 then some items else none := by
    induction items with
    | nil => simp
    | cons a rest ih =>
      rw [List.map_cons, List.mapM_cons, h a List.mem_cons_self,
        ih fun b hb => h b (List.mem_cons_of_mem _ hb)]
      simp only [bind_ite, List.forall_mem_cons, ite_and]
      rfl
  intro levels
  cases levels with
  | zero =>
    have deep : ¬ (Document.list write items).depth < 0 + 1 := by
      rw [Document.list, Document.depth]
      omega
    rw [if_neg deep]
    rfl
  | succ levels =>
    change (items.map write).mapM (decode (levels + 1)) = _
    rw [inside]
    exact if_congr Document.depth_list_lt_iff.symm rfl rfl

theorem Reads.opt {decode : Decoder α} {write : α → Document} {value : Option α}
    (written : ∀ a, write a ≠ .null) (h : ∀ a ∈ value, Reads decode (write a) a) :
    Reads (Decoder.opt decode) (.opt write value) value := by
  cases value with
  | none => exact reads_of_scalar rfl fun _ => rfl
  | some a =>
    have present (levels : Nat) :
        Decoder.opt decode levels (write a) = (decode levels (write a)).map some := by
      unfold Decoder.opt
      split
      · rename_i null
        exact absurd null (written a)
      · rfl
    intro levels
    rw [Document.opt, present, h a rfl, map_ite]

section Records

variable {members : List (String × Document)}

/-- A key that stands once among the members stands under one value. -/
theorem uniqueMember_of_mem (distinct : (members.map Prod.fst).Nodup) {key : String}
    {value : Document} (h : (key, value) ∈ members) :
    uniqueMember key (members.map fun (key, value) => (some key, value)) = some (some value) := by
  have once : (members.map fun (key, value) => (some key, value)).filter (fun (k, _) =>
      k = some key)
      = [(some key, value)] := by
    induction members with
    | nil => cases h
    | cons member rest ih =>
      rw [List.map_cons, List.nodup_cons] at distinct
      rcases List.mem_cons.1 h with rfl | later
      · have none : (rest.map fun (key, value) => (some key, value)).filter
            (fun (k, _) => k = some key) = [] := by
          rw [List.filter_eq_nil_iff]
          rintro ⟨k, v⟩ hm
          obtain ⟨⟨key', value'⟩, hmem, eq⟩ := List.mem_map.1 hm
          cases eq
          intro same
          simp only [decide_eq_true_eq, Option.some.injEq] at same
          subst same
          exact distinct.1 (List.mem_map.2 ⟨_, hmem, rfl⟩)
        simp [none]
      · have ne : member.1 ≠ key := by
          rintro rfl
          exact distinct.1 (List.mem_map.2 ⟨_, later, rfl⟩)
        rw [List.map_cons, List.filter_cons_of_neg (by simpa using ne)]
        exact ih distinct.2 later
  rw [uniqueMember, once]

/-- The members of a record are found under their keys. -/
theorem record_record (distinct : (members.map Prod.fst).Nodup) (levels : Nat) :
    record (members.map Prod.fst) levels (.record members)
      = (enter levels).map fun inner => (inner, members.map fun member => some member.2) := by
  have found : (members.map Prod.fst).mapM
      (fun key => uniqueMember key (members.map fun (key, value) => (some key, value)))
      = some (members.map fun member => some member.2) := by
    rw [List.mapM_map]
    have each : ∀ member ∈ members,
        uniqueMember member.1 (members.map fun (key, value) => (some key, value))
          = some (some member.2) := fun member h => uniqueMember_of_mem distinct h
    generalize (members.map fun (key, value) => (some key, value)) = all at each
    clear distinct
    induction members with
    | nil => rfl
    | cons member rest ih =>
      rw [List.mapM_cons, Function.comp_apply, each member List.mem_cons_self,
        ih fun m hm => each m (List.mem_cons_of_mem _ hm)]
      rfl
  cases entered : enter levels with
  | none => simp [Document.record, record, entered]
  | some inner =>
    simp only [Document.record, record, entered, Option.bind_eq_bind, Option.bind_some]
    rw [if_pos (by simp), found]
    rfl

theorem reads_record {build : Nat × List (Option Document) → Option α} {a : α}
    {keys : List String} (known : members.map Prod.fst = keys) (distinct : keys.Nodup)
    (built : ∀ levels, build (levels + 1, members.map fun member => some member.2)
      = if ∀ member ∈ members, member.2.depth < levels + 1 then some a else none) :
    Reads (fun levels doc => record keys levels doc >>= build) (.record members) a := by
  subst known
  intro levels
  dsimp only
  rw [record_record distinct]
  cases levels with
  | zero =>
    have deep : ¬ (Document.record members).depth < 0 + 1 := by
      rw [Document.record, Document.depth]
      omega
    rw [if_neg deep]
    rfl
  | succ levels =>
    change build (levels + 1, _) = _
    rw [built]
    exact if_congr Document.depth_record_lt_iff.symm rfl rfl

end Records

section Variants

variable {build : String × Option (Nat × Document) → Option α} {name : String} {a : α}

theorem reads_name (built : build (name, none) = some a) :
    Reads (fun levels doc => variant levels doc >>= build) (.text name) a :=
  reads_of_scalar rfl fun _ => built

theorem reads_variant {doc : Document}
    (built : ∀ levels, build (name, some (levels + 1, doc))
      = if doc.depth < levels + 1 then some a else none) :
    Reads (fun levels doc => variant levels doc >>= build) (.record [(name, doc)]) a := by
  intro levels
  cases levels with
  | zero =>
    have deep : ¬ (Document.record [(name, doc)]).depth < 0 + 1 := by
      rw [Document.record, Document.depth]
      omega
    rw [if_neg deep]
    rfl
  | succ levels =>
    change build (name, some (levels + 1, doc)) = _
    rw [built]
    refine if_congr ?_ rfl rfl
    rw [Document.depth_record_lt_iff]
    simp

/-- One of finitely many values is read from its name. -/
theorem reads_named {all : List α} {nameOf : α → String}
    (found : all.find? (fun b => nameOf b = nameOf a) = some a) :
    Reads (named all nameOf) (.text (nameOf a)) a :=
  reads_of_scalar rfl fun _ => found

end Variants

end Decoder

end CilSsa.Json
