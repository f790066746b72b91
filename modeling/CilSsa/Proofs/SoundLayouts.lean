import Mathlib.Data.Fintype.EquivFin
import Mathlib.Tactic.IntervalCases
import CilSsa.Proofs.Containment

/-!
The data layout.

Every alignment is 1, 2, 4 or 8 and divides the size, from the scalars up through arrays and
structs, packed or not.  So members stand at multiples of their alignments, one after the other and
within their struct, and one more member makes a struct no smaller.
-/

namespace CilSsa

open Ssa

namespace Ssa.Extent

section Rounding

variable {n k align align' : Nat}

/-- Rounding up leads to the first multiple. -/
theorem roundUp_le_of_dvd (hpos : 0 < align) (hle : n ≤ k) (hdvd : align ∣ k) :
    roundUp n align ≤ k := by
  obtain ⟨q, rfl⟩ := hdvd
  rw [roundUp, Nat.mul_comm align q]
  refine Nat.mul_le_mul_right align (Nat.le_of_lt_succ ?_)
  rw [Nat.div_lt_iff_lt_mul hpos, Nat.succ_mul, Nat.mul_comm q align]
  omega

theorem roundUp_le_roundUp (hpos : 0 < align) (hpos' : 0 < align') (hle : n ≤ k)
    (hdvd : align ∣ align') : roundUp n align ≤ roundUp k align' :=
  roundUp_le_of_dvd hpos (hle.trans (le_roundUp k hpos')) (hdvd.trans (dvd_roundUp k align'))

end Rounding

section Alignments

/-- The alignments on the target. -/
def Natural (align : Nat) : Prop := align = 1 ∨ align = 2 ∨ align = 4 ∨ align = 8

variable {align align' : Nat} {members : List Extent}

theorem Natural.pos (h : Natural align) : 0 < align := by
  rcases h with rfl | rfl | rfl | rfl <;> decide

theorem Natural.dvd (h : Natural align) (h' : Natural align') (hle : align ≤ align') :
    align ∣ align' := by
  rcases h with rfl | rfl | rfl | rfl <;> rcases h' with rfl | rfl | rfl | rfl <;>
    first | decide | exact absurd hle (by decide)

theorem Natural.max (h : Natural align) (h' : Natural align') : Natural (Max.max align align') := by
  rcases Nat.le_total align align' with hle | hle
  · rwa [Nat.max_eq_right hle]
  · rwa [Nat.max_eq_left hle]

theorem foldl_max_natural {aligns : List Nat} {start : Nat} (hstart : Natural start)
    (h : ∀ align ∈ aligns, Natural align) : Natural (aligns.foldl Max.max start) := by
  induction aligns generalizing start with
  | nil => exact hstart
  | cons align rest ih =>
      obtain ⟨halign, hrest⟩ := List.forall_mem_cons.mp h
      exact ih (hstart.max halign) hrest

theorem maxAlign_natural (h : ∀ e ∈ members, Natural e.align) : Natural (maxAlign members) :=
  foldl_max_natural (.inl rfl) (by simpa using h)

theorem maxAlign_append (e : Extent) :
    maxAlign (members ++ [e]) = Max.max (maxAlign members) e.align := by
  simp [maxAlign]

end Alignments

section Sound

/-- An extent with a natural alignment, which divides the size. -/
structure Sound (e : Extent) : Prop where
  natural : Natural e.align
  dvd : e.align ∣ e.size

variable {members : List Extent} {packed : Bool}

theorem sound_empty : Sound ⟨0, 1⟩ := ⟨.inl rfl, Nat.one_dvd _⟩

theorem sound_scalar (k : Nat) : Sound (scalar (2 ^ k)) := by
  have hlarge (k : Nat) : Sound (scalar (2 ^ (k + 3))) := by
    have hle : 2 ^ 3 ≤ 2 ^ (k + 3) := Nat.pow_le_pow_right Nat.two_pos (Nat.le_add_left 3 k)
    have halign : Max.max 1 (min (2 ^ (k + 3)) 8) = 8 :=
      (congrArg (Max.max 1) (Nat.min_eq_right hle)).trans rfl
    have hscalar : scalar (2 ^ (k + 3)) = ⟨2 ^ (k + 3), 8⟩ := congrArg (Extent.mk _) halign
    rw [hscalar]
    have hdvd : 2 ^ 3 ∣ 2 ^ (k + 3) := Nat.pow_dvd_pow 2 (Nat.le_add_left 3 k)
    exact ⟨.inr (.inr (.inr rfl)), hdvd⟩
  match k with
  | 0 => exact ⟨.inl rfl, by decide⟩
  | 1 => exact ⟨.inr (.inl rfl), by decide⟩
  | 2 => exact ⟨.inr (.inr (.inl rfl)), by decide⟩
  | k + 3 => exact hlarge k

/-- Bytes of integers are rounded up to a power of two. -/
theorem exists_powerOfTwoAbove (n : Nat) : ∃ k, powerOfTwoAbove n = 2 ^ k := by
  unfold powerOfTwoAbove
  split
  · exact ⟨0, rfl⟩
  · exact ⟨_, rfl⟩

theorem Sound.repeated {e : Extent} (h : e.Sound) (length : Nat) :
    Sound ⟨e.size * length, e.align⟩ :=
  ⟨h.natural, h.dvd.mul_right length⟩

theorem Natural.inStruct (h : ∀ e ∈ members, Natural e.align) :
    ∀ e ∈ Extent.inStruct packed members, Natural e.align := by
  cases packed with
  | false => exact h
  | true =>
      intro e he
      obtain ⟨e', -, rfl⟩ := List.mem_map.mp he
      exact .inl rfl

theorem sound_ofMembers (h : ∀ e ∈ members, Natural e.align) : Sound (ofMembers members) :=
  ⟨maxAlign_natural h, dvd_roundUp _ _⟩

/-- One more member does not make a struct smaller. -/
theorem ofMembers_append_le (h : ∀ e ∈ members, Natural e.align) {e : Extent}
    (he : Natural e.align) :
    (ofMembers members).size ≤ (ofMembers (members ++ [e])).size ∧
      (ofMembers members).align ≤ (ofMembers (members ++ [e])).align := by
  have hold := maxAlign_natural h
  have hnew : Natural (maxAlign (members ++ [e])) := by
    rw [maxAlign_append]
    exact hold.max he
  have halign : maxAlign members ≤ maxAlign (members ++ [e]) := by
    rw [maxAlign_append]
    exact Nat.le_max_left _ _
  have hend : endFrom 0 members ≤ endFrom 0 (members ++ [e]) := by
    rw [endFrom_append]
    exact le_endFrom (by simpa using he.pos)
  exact ⟨roundUp_le_roundUp hold.pos hnew.pos hend (hold.dvd hnew halign), halign⟩

theorem ofMembers_inStruct_append_le (h : ∀ e ∈ members, Natural e.align) {e : Extent}
    (he : Natural e.align) :
    (ofMembers (inStruct packed members)).size ≤
        (ofMembers (inStruct packed (members ++ [e]))).size ∧
      (ofMembers (inStruct packed members)).align ≤
        (ofMembers (inStruct packed (members ++ [e]))).align := by
  rw [inStruct_append]
  cases packed with
  | false => exact ofMembers_append_le h he
  | true => exact ofMembers_append_le (Natural.inStruct h) (e := e.unaligned) (.inl rfl)

end Sound

section Places

variable {offset i o o' : Nat} {e : Extent} {members : List Extent} {packed : Bool}

/-- A member is aligned, and ends before the next one and before the end. -/
theorem place_of_offsetsFrom (hpos : ∀ e ∈ members, 0 < e.align)
    (ho : (offsetsFrom offset members)[i]? = some o) (he : members[i]? = some e) :
    e.align ∣ o ∧ (∀ o', (offsetsFrom offset members)[i + 1]? = some o' → o + e.size ≤ o') ∧
      o + e.size ≤ endFrom offset members := by
  induction members generalizing offset i with
  | nil => cases he
  | cons first rest ih =>
      obtain ⟨-, hrest⟩ := List.forall_mem_cons.mp hpos
      cases i with
      | succ i => exact ih hrest ho he
      | zero =>
          obtain rfl : first = e := by simpa using he
          obtain rfl : first.place offset = o := by simpa [offsetsFrom] using ho
          refine ⟨dvd_roundUp _ _, fun o' ho' => ?_, le_endFrom hrest⟩
          cases rest with
          | nil => cases ho'
          | cons second rest =>
              obtain rfl : second.place _ = o' := by simpa [offsetsFrom] using ho'
              exact le_roundUp _ (hrest second List.mem_cons_self)

/-- Without alignment members fill the struct. -/
theorem endFrom_map_unaligned :
    endFrom offset (members.map unaligned) = offset + (members.map Extent.size).sum := by
  induction members generalizing offset with
  | nil => rfl
  | cons e rest ih =>
      simp only [List.map_cons, endFrom, place_unaligned, ih, List.sum_cons]
      exact Nat.add_assoc _ _ _

theorem size_ofMembers_packed :
    (ofMembers (inStruct true members)).size = (members.map Extent.size).sum := by
  have halign : maxAlign (members.map unaligned) = 1 := by
    induction members with
    | nil => rfl
    | cons e rest ih => exact ih
  have hround (n : Nat) : roundUp n 1 = n := roundUp_eq_self_iff.mpr (Nat.one_dvd n)
  simp only [ofMembers, inStruct, if_true, halign, hround, endFrom_map_unaligned, Nat.zero_add]

/-- Members of a struct in the places at the given offsets. -/
structure Arranged (packed : Bool) (members : List Extent) (offsets : List Nat) (e : Extent) :
    Prop where
  length : offsets.length = members.length
  aligned : ∀ {i o : Nat} {member : Extent}, offsets[i]? = some o → members[i]? = some member →
    (if packed then 1 else member.align) ∣ o
  apart : ∀ {i o next : Nat} {member : Extent}, offsets[i]? = some o → members[i]? = some member →
    offsets[i + 1]? = some next → o + member.size ≤ next
  inside : ∀ {i o : Nat} {member : Extent}, offsets[i]? = some o → members[i]? = some member →
    o + member.size ≤ e.size
  filled : packed = true → e.size = (members.map Extent.size).sum

theorem arranged_offsetsFrom (h : ∀ e ∈ members, Natural e.align) :
    Arranged packed members (offsetsFrom 0 (inStruct packed members))
      (ofMembers (inStruct packed members)) := by
  have hpos : ∀ e ∈ inStruct packed members, 0 < e.align :=
    fun e he => (Natural.inStruct h e he).pos
  have hmember {i : Nat} {member : Extent} (hi : members[i]? = some member) :
      ∃ e, (inStruct packed members)[i]? = some e ∧ e.size = member.size ∧
        e.align = if packed then 1 else member.align := by
    cases packed with
    | false => exact ⟨member, hi, rfl, rfl⟩
    | true => exact ⟨member.unaligned, by simp [inStruct, hi], rfl, rfl⟩
  constructor
  · rw [length_offsetsFrom, length_inStruct]
  · intro i o member ho hi
    obtain ⟨e, he, -, halign⟩ := hmember hi
    exact halign ▸ (place_of_offsetsFrom hpos ho he).1
  · intro i o next member ho hi hnext
    obtain ⟨e, he, hsize, -⟩ := hmember hi
    exact hsize ▸ (place_of_offsetsFrom hpos ho he).2.1 next hnext
  · intro i o member ho hi
    obtain ⟨e, he, hsize, -⟩ := hmember hi
    rw [← hsize]
    exact (place_of_offsetsFrom hpos ho he).2.2.trans (le_roundUp _ (one_le_maxAlign _))
  · rintro rfl
    exact size_ofMembers_packed

end Places

end Ssa.Extent

namespace Ssa.Module

variable {m : Module} {id : TypeId}

/-- A type whose values have no value of their own type in them, and no floating-point numbers of
other widths than 32 and 64. -/
structure Built (m : Module) (id : TypeId) : Prop where
  exist : ∀ part, Relation.ReflTransGen m.Within part id → part.index < m.types.size
  acyclic : ∀ part, Relation.ReflTransGen m.Within part id → ¬ Relation.TransGen m.Within part part
  floats : ∀ part bits, Relation.ReflTransGen m.Within part id →
    m.types[part.index]? = some (.float bits) → bits = 32 ∨ bits = 64

theorem Built.part {part : TypeId} (h : m.Built id) (hpart : m.Within part id) : m.Built part where
  exist inner hinner := h.exist inner (hinner.tail hpart)
  acyclic inner hinner := h.acyclic inner (hinner.tail hpart)
  floats inner bits hinner := h.floats inner bits (hinner.tail hpart)

/-- Such a type has finitely many parts, since a module has finitely many types. -/
theorem Built.grounded (h : m.Built id) : m.Grounded id := by
  refine grounded_iff.mpr ⟨?_, h.exist⟩
  let Part := {part // Relation.ReflTransGen m.Within part id}
  let below (inner outer : Part) : Prop := Relation.TransGen m.Within inner.1 outer.1
  have : Finite Part := Finite.of_injective
    (fun part : Part => (⟨part.1.index, h.exist part.1 part.2⟩ : Fin m.types.size))
    fun part part' heq => Subtype.ext (TypeId.index_injective (Fin.mk.inj heq))
  have : IsTrans Part below := ⟨fun _ _ _ => Relation.TransGen.trans⟩
  have : Std.Irrefl below := ⟨fun part => h.acyclic part.1 part.2⟩
  have hwf : WellFounded below := Finite.wellFounded_of_trans_of_irrefl below
  have hacc (part : Part) : Acc m.Within part.1 := by
    induction part using hwf.induction with
    | _ part ih =>
        exact ⟨part.1, fun inner hwithin => ih ⟨inner, .head hwithin part.2⟩ (.single hwithin)⟩
  exact hacc ⟨id, .refl⟩

/-- The extents of such types are sound. -/
theorem Built.sound {fuel : Nat} {e : Extent} (hbuilt : m.Built id)
    (h : m.extentWith fuel id = .ok e) : e.Sound := by
  induction fuel generalizing id e with
  | zero => cases h
  | succ fuel ih =>
      simp only [extentWith, exceptBind_eq_ok_iff, Module.typeData, Arena.entry_eq_ok_iff] at h
      obtain ⟨type, htype, h⟩ := h
      cases type with
      | void | function result params =>
          obtain rfl := exceptPure_eq_ok_iff.mp h
          exact Extent.sound_empty
      | pointer pointee =>
          obtain rfl := exceptPure_eq_ok_iff.mp h
          exact Extent.sound_scalar 3
      | int bits =>
          obtain rfl := exceptPure_eq_ok_iff.mp h
          obtain ⟨k, hk⟩ := Extent.exists_powerOfTwoAbove ((bits + 7) / 8)
          rw [hk]
          exact Extent.sound_scalar k
      | float bits =>
          obtain rfl := exceptPure_eq_ok_iff.mp h
          rcases hbuilt.floats id bits .refl htype with rfl | rfl
          · exact Extent.sound_scalar 2
          · exact Extent.sound_scalar 3
      | array element length =>
          simp only [exceptBind_eq_ok_iff, exceptPure_eq_ok_iff] at h
          obtain ⟨e', he', rfl⟩ := h
          exact (ih (hbuilt.part (.element htype)) he').repeated length
      | struct name body packed =>
          cases body with
          | none =>
              obtain rfl := exceptPure_eq_ok_iff.mp h
              exact Extent.sound_empty
          | some body =>
              simp only [exceptBind_eq_ok_iff, exceptPure_eq_ok_iff] at h
              obtain ⟨members, hmembers, rfl⟩ := h
              refine Extent.sound_ofMembers (Extent.Natural.inStruct fun e he => ?_)
              obtain ⟨member, hmember, hextent⟩ :=
                exists_mem_of_forall₂ (exceptMapM_eq_ok_iff.mp hmembers).flip he
              exact (ih (hbuilt.part (.member htype hmember)) hextent).natural

section Structs

variable {name : String} {body : List TypeId} {packed : Bool} {members : List Extent}

theorem Built.natural (h : m.Built id)
    (htype : m.types[id.index]? = some (.struct name (some body) packed))
    (hmembers : body.mapM m.extentOf = .ok members) : ∀ e ∈ members, Extent.Natural e.align := by
  intro e he
  obtain ⟨member, hmember, hextent⟩ :=
    exists_mem_of_forall₂ (exceptMapM_eq_ok_iff.mp hmembers).flip he
  exact ((h.part (.member htype hmember)).sound hextent).natural

theorem Built.append_le {more member : TypeId} {name' : String} (h : m.Built id)
    (htype : m.types[id.index]? = some (.struct name (some body) packed))
    (hmembers : body.mapM m.extentOf = .ok members) (hmore : m.Built more)
    (htype' : m.types[more.index]? = some (.struct name' (some (body ++ [member])) packed)) :
    ∃ e', m.extentOf more = .ok e' ∧
      (Extent.ofMembers (Extent.inStruct packed members)).size ≤ e'.size ∧
      (Extent.ofMembers (Extent.inStruct packed members)).align ≤ e'.align := by
  have hlast : m.Built member := hmore.part (.member htype' (by simp))
  obtain ⟨last, hextent⟩ := hlast.grounded.exists_extentOf
  have hall : (body ++ [member]).mapM m.extentOf = .ok (members ++ [last]) :=
    exceptMapM_eq_ok_iff.mpr
      (List.rel_append (exceptMapM_eq_ok_iff.mp hmembers) (.cons hextent .nil))
  obtain ⟨e', he'⟩ := hmore.grounded.exists_extentOf
  obtain ⟨members', hmembers', rfl⟩ := extentOf_struct htype' he'
  obtain rfl := Except.ok.inj (hall.symm.trans hmembers')
  refine ⟨_, he', ?_⟩
  exact Extent.ofMembers_inStruct_append_le (h.natural htype hmembers) (hlast.sound hextent).natural

end Structs

/-- The data layout is sound.  A type whose values do not contain values of their own type has an
extent, whose alignment is 1, 2, 4 or 8 and divides the size, and the size asked for is that of the
extent unless it exceeds a word.  The members of a struct stand at multiples of their alignments, or
anywhere if it is packed, one after the other and within the struct, and a packed struct has the
size of its members.  A struct with one more member is no smaller and no less aligned. -/
theorem Built.layout_sound (h : m.Built id) :
    ∃ e, m.extentOf id = .ok e ∧
      (e.align = 1 ∨ e.align = 2 ∨ e.align = 4 ∨ e.align = 8) ∧ e.align ∣ e.size ∧
      (e.size < 2 ^ 64 → m.sizeOf id = .ok e.size) ∧
      ∀ name body packed, m.types[id.index]? = some (.struct name (some body) packed) →
        ∃ members offsets, body.mapM m.extentOf = .ok members ∧
          m.memberOffsets? id = .ok (some offsets) ∧ Extent.Arranged packed members offsets e ∧
          ∀ more member name', m.Built more →
            m.types[more.index]? = some (.struct name' (some (body ++ [member])) packed) →
            ∃ e', m.extentOf more = .ok e' ∧ e.size ≤ e'.size ∧ e.align ≤ e'.align := by
  obtain ⟨e, he⟩ := h.grounded.exists_extentOf
  have hsound := h.sound he
  refine ⟨e, he, hsound.natural, hsound.dvd, fun hlt => ?_, fun name body packed htype => ?_⟩
  · have hmod : e.size % Nat.pow 2 sizeBits = e.size := Nat.mod_eq_of_lt hlt
    rw [Module.sizeOf, exceptBind_eq_ok_iff]
    exact ⟨e, he, exceptPure_eq_ok_iff.mpr hmod.symm⟩
  · obtain ⟨members, hmembers, rfl⟩ := extentOf_struct htype he
    exact ⟨members, _, hmembers, memberOffsets_eq htype hmembers,
      Extent.arranged_offsetsFrom (h.natural htype hmembers),
      fun _ _ _ hmore htype' => h.append_le htype hmembers hmore htype'⟩

section Shelves

/-- Whether the parts of every type come before it, and its floating-point numbers have 32 or 64
bits. -/
def Stacked (m : Module) : Prop :=
  ∀ i, ∀ h : i < m.types.size, match m.types[i] with
    | .struct _ (some body) _ => ∀ member ∈ body, member.index < i
    | .array element _ => element.index < i
    | .float bits => bits = 32 ∨ bits = 64
    | _ => True

theorem Stacked.within (h : m.Stacked) {inner outer : TypeId} (hwithin : m.Within inner outer) :
    inner.index < outer.index := by
  cases hwithin with
  | member hstruct hmem =>
      obtain ⟨hlt, htype⟩ := Array.getElem?_eq_some_iff.mp hstruct
      have := h outer.index hlt
      rw [htype] at this
      exact this inner hmem
  | element harray =>
      obtain ⟨hlt, htype⟩ := Array.getElem?_eq_some_iff.mp harray
      have := h outer.index hlt
      rwa [htype] at this

theorem Stacked.built (h : m.Stacked) (hid : id.index < m.types.size) : m.Built id := by
  have hbelow {part : TypeId} (hpart : Relation.ReflTransGen m.Within part id) :
      part.index ≤ id.index := by
    induction hpart using Relation.ReflTransGen.head_induction_on with
    | refl => exact Nat.le_refl _
    | head hwithin _ ih => exact (h.within hwithin).le.trans ih
  have hcircle {part outer : TypeId} (hpath : Relation.TransGen m.Within part outer) :
      part.index < outer.index := by
    induction hpath with
    | single hwithin => exact h.within hwithin
    | tail _ hwithin ih => exact ih.trans (h.within hwithin)
  constructor
  · exact fun part hpart => (hbelow hpart).trans_lt hid
  · exact fun part _ hself => Nat.lt_irrefl _ (hcircle hself)
  · intro part bits _ hfloat
    obtain ⟨hlt, htype⟩ := Array.getElem?_eq_some_iff.mp hfloat
    have := h part.index hlt
    rwa [htype] at this

/-- Packed structs in arrays and in structs that are not packed. -/
def shelves : Module where
  name := "shelves"
  types := #[.int 8, .int 32, .float 64, .pointer ⟨0⟩, .function ⟨1⟩ [⟨3⟩],
    .struct "Tag" (some [⟨0⟩, ⟨1⟩]) false,
    .array ⟨5⟩ 3,
    .struct "Box" (some [⟨0⟩, ⟨6⟩, ⟨3⟩]) true,
    .struct "Shelf" (some [⟨7⟩, ⟨1⟩, ⟨7⟩]) false,
    .struct "Rack" (some [⟨7⟩, ⟨1⟩, ⟨7⟩, ⟨2⟩]) false]

/-- The layout of a shelf.  A rack has one more member, and is no smaller. -/
theorem shelves_sound : shelves.Built ⟨8⟩ ∧ shelves.Built ⟨9⟩ ∧
    shelves.extentOf ⟨8⟩ = .ok ⟨76, 4⟩ ∧ shelves.memberOffsets? ⟨8⟩ = .ok (some [0, 36, 40]) ∧
    Extent.Arranged false [⟨33, 1⟩, ⟨4, 4⟩, ⟨33, 1⟩] [0, 36, 40] ⟨76, 4⟩ ∧
    ∃ e, shelves.extentOf ⟨9⟩ = .ok e ∧ 76 ≤ e.size ∧ 4 ≤ e.align := by
  have hstacked : shelves.Stacked := by
    intro i h
    have hlt : i < 10 := h
    interval_cases i <;> simp [shelves]
  have hshelf : shelves.Built ⟨8⟩ := hstacked.built (by decide)
  have hrack : shelves.Built ⟨9⟩ := hstacked.built (by decide)
  have hextent : shelves.extentOf ⟨8⟩ = .ok ⟨76, 4⟩ := by decide +kernel
  obtain ⟨e, he, -, -, -, hstruct⟩ := hshelf.layout_sound
  obtain ⟨members, offsets, hmembers, hoffsets, harranged, hmore⟩ := hstruct _ _ _ rfl
  have hparts : [TypeId.mk 7, ⟨1⟩, ⟨7⟩].mapM shelves.extentOf =
      .ok [⟨33, 1⟩, ⟨4, 4⟩, ⟨33, 1⟩] := by decide +kernel
  have hplaces : shelves.memberOffsets? ⟨8⟩ = .ok (some [0, 36, 40]) := by decide +kernel
  obtain rfl := Except.ok.inj (he.symm.trans hextent)
  obtain rfl := Except.ok.inj (hmembers.symm.trans hparts)
  obtain rfl := Option.some.inj (Except.ok.inj (hoffsets.symm.trans hplaces))
  exact ⟨hshelf, hrack, hextent, hplaces, harranged, hmore ⟨9⟩ ⟨2⟩ _ hrack rfl⟩

end Shelves

end Ssa.Module

end CilSsa
