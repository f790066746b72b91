import CilSsa.Metadata.Flags
import Mathlib.Algebra.Group.Nat.Defs
import Mathlib.Data.List.Nodup
import Mathlib.Data.List.TakeWhile
import Mathlib.Order.Basic

/-!
Attribute sets read back from their text.

The pieces of a text have neither spaces nor bars in them, so cutting the text at the bars and
trimming gives the pieces back.  A name gives its bit and the number at the end gives all bits
without a name.
-/

namespace CilSsa

namespace Text

/-- The value of a run of hexadecimal digits, read on from `start`. -/
def hexValueFrom (start : Nat) (digits : List Char) : Option Nat :=
  digits.foldlM (fun n c => (hexValue? c).map (16 * n + ·)) start

theorem hexValue_digitChar : ∀ d < 16, hexValue? d.digitChar = some d := by decide

theorem hexValueFrom_toDigits (n : Nat) : hexValueFrom 0 (Nat.toDigits 16 n) = some n := by
  induction n using Nat.strongRecOn with
  | ind n ih =>
    rw [Nat.toDigits_eq_if (by decide)]
    split
    · rename_i small
      simp [hexValueFrom, hexValue_digitChar n small]
    · have smaller : n / 16 < n := by omega
      have front := ih _ smaller
      unfold hexValueFrom at front ⊢
      rw [List.foldlM_append, front]
      simp [hexValue_digitChar _ (Nat.mod_lt n (by decide))]
      omega

/-- A number reads back from its hexadecimal digits. -/
theorem hexNumber_toDigits (n : Nat) : hexNumber? (Nat.toDigits 16 n) = some n := by
  unfold hexNumber?
  split
  · rename_i none
    exact absurd none Nat.toDigits_ne_nil
  · exact hexValueFrom_toDigits n

/-- What holds of the sixteen digits holds of all characters of a number. -/
theorem forall_mem_toDigits {P : Char → Prop} (h : ∀ d < 16, P (Nat.digitChar d)) (n : Nat) :
    ∀ c ∈ Nat.toDigits 16 n, P c := by
  induction n using Nat.strongRecOn with
  | ind n ih =>
    rw [Nat.toDigits_eq_if (by decide)]
    split
    · rename_i small
      simpa using h n small
    · intro c hc
      rcases List.mem_append.1 hc with front | last
      · exact ih _ (by omega) c front
      · rw [List.mem_singleton.1 last]
        exact h _ (Nat.mod_lt n (by decide))

end Text

namespace Metadata

namespace FlagWord

section Pieces

/-- Not empty, and without spaces or bars. -/
structure Solid (cs : List Char) : Prop where
  some : cs ≠ []
  plain : ∀ c ∈ cs, isSpace c = false ∧ c ≠ '|'

theorem Solid.of_all {cs : List Char} (some : cs ≠ [])
    (plain : (cs.all fun c => !isSpace c && c != '|') = true) : Solid cs :=
  ⟨some, fun c hc => by simpa using List.all_eq_true.1 plain c hc⟩

theorem Solid.reverse {cs : List Char} (solid : Solid cs) : Solid cs.reverse :=
  ⟨by simpa using solid.some, fun c hc => solid.plain c (List.mem_reverse.1 hc)⟩

theorem Solid.dropWhile {cs : List Char} (solid : Solid cs) (rest : List Char) :
    (cs ++ rest).dropWhile isSpace = cs ++ rest := by
  obtain ⟨c, cs, rfl⟩ := List.exists_cons_of_ne_nil solid.some
  simp [(solid.plain c List.mem_cons_self).1]

/-- Trimming takes away the spaces on both sides of a piece. -/
theorem trim_pad {cs before after : List Char} (solid : Solid cs)
    (hb : ∀ c ∈ before, isSpace c = true) (ha : ∀ c ∈ after, isSpace c = true) :
    trim (before ++ cs ++ after) = cs := by
  have back : cs.reverse.dropWhile isSpace = cs.reverse := by
    simpa using solid.reverse.dropWhile []
  rw [trim, List.append_assoc, List.dropWhile_append_of_pos hb, solid.dropWhile,
    List.reverse_append,
    List.dropWhile_append_of_pos (fun c hc => ha c (List.mem_reverse.1 hc)), back,
    List.reverse_reverse]

/-- What starts with a piece is not blank. -/
theorem trim_ne_nil {cs : List Char} (solid : Solid cs) (rest : List Char) :
    trim (cs ++ rest) ≠ [] := by
  intro blank
  obtain ⟨c, cs, rfl⟩ := List.exists_cons_of_ne_nil solid.some
  rw [trim, solid.dropWhile, List.reverse_eq_nil_iff, List.dropWhile_eq_nil_iff] at blank
  have space : isSpace c = true := blank c (by simp)
  rw [(solid.plain c List.mem_cons_self).1] at space
  cases space

/-- The characters of pieces joined by bars. -/
def joined (pieces : List (List Char)) : List Char := " | ".toList.intercalate pieces

theorem joined_cons_cons (p q : List Char) (rest : List (List Char)) :
    joined (p :: q :: rest) = p ++ [' '] ++ '|' :: ([' '] ++ joined (q :: rest)) := by
  simp [joined, List.intercalate_cons_cons]

/-- Cutting joined pieces at the bars and trimming gives the pieces back. -/
theorem trim_splitBars_joined {pieces : List (List Char)} (some : pieces ≠ [])
    (solid : ∀ p ∈ pieces, Solid p) : (splitBars (joined pieces)).map trim = pieces := by
  have padded : ∀ before : List Char, (∀ c ∈ before, isSpace c = true ∧ c ≠ '|') →
      (splitBars (before ++ joined pieces)).map trim = pieces := by
    induction pieces with
    | nil => exact absurd rfl some
    | cons p rest ih =>
      intro before hb
      have piece := solid p List.mem_cons_self
      have bar {after : List Char} (ha : ∀ c ∈ after, isSpace c = true ∧ c ≠ '|') :
          List.splitOnP (· == '|') (before ++ p ++ after) = [before ++ p ++ after] := by
        refine List.splitOnP_eq_singleton fun c hc => ?_
        simp only [List.mem_append] at hc
        rcases hc with (hc | hc) | hc
        · simpa using (hb c hc).2
        · simpa using (piece.plain c hc).2
        · simpa using (ha c hc).2
      have trimmed {after : List Char} (ha : ∀ c ∈ after, isSpace c = true ∧ c ≠ '|') :
          trim (before ++ p ++ after) = p :=
        trim_pad piece (fun c hc => (hb c hc).1) fun c hc => (ha c hc).1
      match rest with
      | [] =>
        have none : ∀ c ∈ ([] : List Char), isSpace c = true ∧ c ≠ '|' := by simp
        have cut := bar none
        have trimmed := trimmed none
        rw [List.append_nil] at cut trimmed
        simp [splitBars, List.splitOn, joined, cut, trimmed]
      | q :: rest =>
        have space : ∀ c ∈ [' '], isSpace c = true ∧ c ≠ '|' := by
          rw [List.forall_mem_singleton]
          decide
        have later := ih (by simp) (fun p hp => solid p (List.mem_cons_of_mem _ hp)) [' '] space
        rw [splitBars, joined_cons_cons, ← List.append_assoc, ← List.append_assoc, List.splitOn,
          List.splitOnP_append_cons _ _ (by rfl), bar space, List.map_append, List.map_singleton,
          trimmed space]
        exact congrArg (p :: ·) later
  simpa using padded [] (by simp)

theorem trim_joined_ne_nil {pieces : List (List Char)} (some : pieces ≠ [])
    (solid : ∀ p ∈ pieces, Solid p) : trim (joined pieces) ≠ [] := by
  obtain ⟨p, rest, rfl⟩ := List.exists_cons_of_ne_nil some
  have piece := solid p List.mem_cons_self
  match rest with
  | [] => simpa [joined] using trim_ne_nil piece []
  | q :: rest =>
    rw [joined_cons_cons, List.append_assoc]
    exact trim_ne_nil piece _

end Pieces

section Words

variable {names : List String}

/-- Names that can be told from each other and from numbers in a text. -/
structure Readable (names : List String) : Prop where
  distinct : names.Nodup
  solid : ∀ name ∈ names, Solid name.toList
  named : ∀ name ∈ names, name.toList.take 2 ≠ ['0', 'x']
  fit : names.length ≤ flagBits

theorem Readable.piece_name (readable : Readable names) {position : Nat}
    (h : position < names.length) :
    piece? names (names[position]).toList = some (BitVec.twoPow flagBits position) := by
  have member : names[position] ∈ names := List.getElem_mem h
  have solid := readable.solid _ member
  have named := readable.named _ member
  have found : names.idxOf? names[position] = some position :=
    List.idxOf?_eq_some_iff.2 ⟨h, rfl, fun j hj eq =>
      absurd ((readable.distinct.getElem_inj_iff).1 eq) (by omega)⟩
  unfold piece?
  split
  · rename_i none
    exact absurd none solid.some
  · rename_i digits eq
    rw [eq] at named
    exact absurd rfl named
  · simp [found]

theorem piece_number (names : List String) {n : Nat} (h : n < 2 ^ flagBits) :
    piece? names ("0x" ++ Text.hexDigits n).toList = some (BitVec.ofNat flagBits n) := by
  have digits : unsignedHex? (Nat.toDigits 16 n) = some n := by
    unfold unsignedHex?
    split
    · rename_i cs eq
      have plain := Text.forall_mem_toDigits (P := (· ≠ '+')) (by decide) n
      rw [eq] at plain
      exact absurd rfl (plain _ List.mem_cons_self)
    · exact Text.hexNumber_toDigits n
  have text : ("0x" ++ Text.hexDigits n).toList = '0' :: 'x' :: Nat.toDigits 16 n := by
    simp [Text.hexDigits]
  rw [text]
  simp only [piece?, digits, Option.bind_eq_bind, Option.bind_some, Nat.pow_eq, if_pos h]

theorem solid_number (n : Nat) : Solid ("0x" ++ Text.hexDigits n).toList := by
  have text : ("0x" ++ Text.hexDigits n).toList = '0' :: 'x' :: Nat.toDigits 16 n := by
    simp [Text.hexDigits]
  rw [text]
  refine ⟨by simp, fun c hc => ?_⟩
  simp only [List.mem_cons] at hc
  rcases hc with rfl | rfl | hc
  · decide
  · decide
  · exact Text.forall_mem_toDigits (P := fun c => isSpace c = false ∧ c ≠ '|') (by decide) n c hc

/-- The names of a set give the bits that they name. -/
theorem Readable.names_read (readable : Readable names) (word : FlagWord) (done rest : List String)
    (split : names = done ++ rest) :
    ∃ words, (word.namesFrom done.length rest).mapM (fun name => piece? names name.toList)
        = some words
      ∧ ∀ acc i, (words.foldl (· ||| ·) acc).getLsbD i
        = (acc.getLsbD i
          || (decide (done.length ≤ i ∧ i < done.length + rest.length) && word.getLsbD i)) := by
  induction rest generalizing done with
  | nil =>
    refine ⟨[], rfl, fun acc i => ?_⟩
    have none : ¬ (done.length ≤ i ∧ i < done.length + ([] : List String).length) := by
      rw [List.length_nil]
      omega
    rw [decide_eq_false none, Bool.false_and, Bool.or_false, List.foldl_nil]
  | cons name rest ih =>
    obtain ⟨words, read, bits⟩ := ih (done ++ [name]) (by simp [split])
    rw [List.length_append, List.length_singleton] at read bits
    have here : done.length < names.length := by simp [split]
    have fit := readable.fit
    have piece := readable.piece_name here
    have this : names[done.length] = name := by simp [split]
    rw [this] at piece
    have range {i : Nat} (ne : done.length ≠ i) :
        (done.length + 1 ≤ i ∧ i < done.length + 1 + rest.length)
          ↔ (done.length ≤ i ∧ i < done.length + (name :: rest).length) := by
      rw [List.length_cons]
      omega
    by_cases set : word.getLsbD done.length = true
    · refine ⟨BitVec.twoPow flagBits done.length :: words, ?_, fun acc i => ?_⟩
      · simp [namesFrom, set, piece, read]
      · rw [List.foldl_cons, bits, BitVec.getLsbD_or, BitVec.getLsbD_twoPow]
        rcases eq_or_ne done.length i with rfl | ne
        · simp [set, here.trans_le fit]
        · simp only [range ne, ne, decide_false, Bool.and_false, Bool.or_false]
    · refine ⟨words, by simp [namesFrom, set, read], fun acc i => ?_⟩
      rw [bits]
      rcases eq_or_ne done.length i with rfl | ne
      · simp [set]
      · simp only [range ne]

/-- The bits of a set are the named ones and the others. -/
theorem getLsbD_unnamed (word : FlagWord) (names : List String) (i : Nat) :
    (word.unnamed names).testBit i = (decide (names.length ≤ i) && word.getLsbD i) := by
  rw [unnamed, Nat.pow_eq, Nat.testBit_mul_two_pow, Nat.testBit_div_two_pow]
  by_cases h : names.length ≤ i
  · rw [Nat.sub_add_cancel h]
    rfl
  · simp [h]

/-- The pieces that a set is written as. -/
def pieces (names : List String) (word : FlagWord) : List String :=
  word.namesFrom 0 names
    ++ (if word.unnamed names = 0 then [] else ["0x" ++ Text.hexDigits (word.unnamed names)])

theorem render_toList (names : List String) (word : FlagWord) :
    (render names word).toList = joined ((pieces names word).map String.toList) := by
  rw [render, String.toList_intercalate]
  rfl

/-- The pieces of a set give its bits. -/
theorem Readable.pieces_read (readable : Readable names) (word : FlagWord) :
    ∃ words, (pieces names word).mapM (fun piece => piece? names piece.toList) = some words
      ∧ words.foldl (· ||| ·) 0 = word := by
  obtain ⟨words, read, bits⟩ := readable.names_read word [] names rfl
  rw [List.length_nil] at read bits
  by_cases none : word.unnamed names = 0
  · refine ⟨words, by rw [pieces, if_pos none, List.append_nil, read], ?_⟩
    refine BitVec.eq_of_getLsbD_eq fun i hi => ?_
    have high := getLsbD_unnamed word names i
    rw [none, Nat.zero_testBit] at high
    rw [bits]
    by_cases named : names.length ≤ i
    · simp_all
    · simp [Nat.lt_of_not_le named]
  · have small : word.unnamed names < 2 ^ flagBits :=
      (Nat.div_mul_le_self _ _).trans_lt word.isLt
    refine ⟨words ++ [BitVec.ofNat flagBits (word.unnamed names)], ?_, ?_⟩
    · rw [pieces, if_neg none, List.mapM_append, read, List.mapM_cons, List.mapM_nil,
        piece_number names small]
      rfl
    · refine BitVec.eq_of_getLsbD_eq fun i hi => ?_
      rw [List.foldl_append, List.foldl_cons, List.foldl_nil, BitVec.getLsbD_or, bits,
        BitVec.getLsbD_ofNat, getLsbD_unnamed]
      by_cases named : names.length ≤ i
      · simp [named, hi]
      · simp [named, Nat.lt_of_not_le named]

theorem namesFrom_subset (word : FlagWord) (position : Nat) (names : List String) :
    word.namesFrom position names ⊆ names := by
  induction names generalizing position with
  | nil => exact List.Subset.refl _
  | cons name rest ih =>
    unfold namesFrom
    split
    · exact List.cons_subset_cons name (ih _)
    · exact List.subset_cons_of_subset name (ih _)

theorem Readable.solid_pieces (readable : Readable names) (word : FlagWord) :
    ∀ p ∈ (pieces names word).map String.toList, Solid p := by
  intro p hp
  obtain ⟨piece, hpiece, rfl⟩ := List.mem_map.1 hp
  rw [pieces, List.mem_append] at hpiece
  rcases hpiece with named | number
  · exact readable.solid _ (namesFrom_subset word 0 names named)
  · split at number
    · cases number
    · rw [List.mem_singleton.1 number]
      exact solid_number _

/-- A set reads back from its text. -/
theorem Readable.parse_render (readable : Readable names) (word : FlagWord) :
    parse? names (render names word) = some word := by
  obtain ⟨words, read, whole⟩ := readable.pieces_read word
  unfold parse?
  rw [render_toList]
  by_cases none : pieces names word = []
  · rw [none, List.mapM_nil] at read
    cases read
    rw [none]
    exact congrArg _ whole
  · have some : (pieces names word).map String.toList ≠ [] := by simpa using none
    have solid := readable.solid_pieces word
    have cut : (splitBars (joined ((pieces names word).map String.toList))).mapM
        (fun piece => piece? names (trim piece)) = .some words := by
      calc _ = ((splitBars (joined ((pieces names word).map String.toList))).map trim).mapM
            (piece? names) := List.mapM_map.symm
        _ = ((pieces names word).map String.toList).mapM (piece? names) := by
            rw [trim_splitBars_joined some solid]
        _ = .some words := List.mapM_map.trans read
    simp only [List.isEmpty_iff, if_neg (trim_joined_ne_nil some solid), cut]
    exact congrArg _ whole

end Words

end FlagWord

/-- The names of the attributes of types and of methods can be told apart in a text. -/
theorem TypeFlags.readable_names : FlagWord.Readable names :=
  ⟨by decide, fun name h => .of_all (by revert name; decide +kernel)
    (by revert name; decide +kernel), by decide +kernel, by decide⟩

theorem MethodFlags.readable_names : FlagWord.Readable names :=
  ⟨by decide, fun name h => .of_all (by revert name; decide +kernel)
    (by revert name; decide +kernel), by decide +kernel, by decide⟩

end Metadata

end CilSsa
