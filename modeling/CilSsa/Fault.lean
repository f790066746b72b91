/-!
Ids are indices into arenas, and nothing in their type says that the arena is long enough.  An
operation that meets an id without an entry, or a recursion over ids that comes back to where it
started, has no result; a `Fault` says which of the two happened.
-/

namespace CilSsa

/-- The arenas that ids index. -/
inductive Arena where
  | typeDef
  | field
  | method
  | irType
  | value
  | block
  | function
  | parameter
deriving DecidableEq, Repr

/-- Why an operation on ids has no result. -/
inductive Fault where
  /-- The arena has no entry at this index. -/
  | outOfRange (arena : Arena) (index : Nat)
  /-- The recursion over ids never ends. -/
  | endless
deriving DecidableEq, Repr

def Arena.entry {α : Type} (arena : Arena) (entries : Array α) (index : Nat) : Except Fault α :=
  match entries[index]? with
  | some entry => .ok entry
  | none => .error (.outOfRange arena index)

theorem Arena.entry_eq_ok_iff {α : Type} {arena : Arena} {entries : Array α} {index : Nat}
    {entry : α} : arena.entry entries index = .ok entry ↔ entries[index]? = some entry := by
  unfold Arena.entry
  cases entries[index]? <;> simp

theorem Arena.entry_eq_error_iff {α : Type} {arena : Arena} {entries : Array α} {index : Nat}
    {fault : Fault} :
    arena.entry entries index = .error fault ↔
      entries.size ≤ index ∧ fault = .outOfRange arena index := by
  unfold Arena.entry
  cases h : entries[index]? with
  | none =>
      rw [Array.getElem?_eq_none_iff] at h
      simp [h, eq_comm]
  | some entry =>
      have hlt : index < entries.size := by
        rw [Array.getElem?_eq_some_iff] at h
        exact h.1
      simp [Nat.not_le.mpr hlt]

end CilSsa
