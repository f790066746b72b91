import CilSsa.Proofs.ObjectMembers
import CilSsa.Proofs.Success

/-!
Assemblies put together by additions.

Each addition goes to the end of an arena and is noted where it belongs.  So a type lists exactly
the methods that it declares, and the roots stay what they were.
-/

namespace CilSsa.Metadata.Assembly

/-- An assembly that began with the roots and got everything else by additions. -/
inductive Built : Assembly → Prop
  | roots (name : String) : Built (ofName name)
  | addType {asm : Assembly} {d : TypeDef} (built : Built asm) (fields : d.fields = [])
      (methods : d.methods = []) : Built (asm.addType d).1
  | addField {asm asm' : Assembly} {ty : TypeDefId} {d : FieldDef} {f : FieldId}
      (built : Built asm) (added : asm.addField ty d = .ok (asm', f)) : Built asm'
  | addMethod {asm asm' : Assembly} {ty : TypeDefId} {d : MethodDef} {m : MethodId}
      (built : Built asm) (added : asm.addMethod ty d = .ok (asm', m)) : Built asm'
  | setBody {asm asm' : Assembly} {m : MethodId} {body : Option MethodBody}
      (built : Built asm) (set : asm.setBody m body = .ok asm') : Built asm'

/-- What additions keep up. -/
structure Ordered (asm : Assembly) : Prop where
  /-- The roots are classes without bases but roots. -/
  roots : ∀ {ty : TypeDefId} {d : TypeDef}, asm.types[ty.index]? = some d → isRoot ty = true →
    d.kind = .classType ∧ ∀ base, d.base = some base → isRoot base = true
  rooted : 3 ≤ asm.types.size
  /-- Methods are declared by types that there are, -/
  declared : ∀ {m : MethodId} {md : MethodDef}, asm.methods[m.index]? = some md →
    md.declaringType.index < asm.types.size
  /-- and these list them, -/
  listed : ∀ {m : MethodId} {md : MethodDef} {d : TypeDef}, asm.methods[m.index]? = some md →
    asm.types[md.declaringType.index]? = some d → m ∈ d.methods
  /-- and no others. -/
  declares : ∀ {ty : TypeDefId} {d : TypeDef} {m : MethodId}, asm.types[ty.index]? = some d →
    m ∈ d.methods → ∃ md, asm.methods[m.index]? = some md ∧ md.declaringType = ty

/-- The roots are plain classes. -/
theorem root_of_ofName {name : String} {i : Nat} {d : TypeDef}
    (hd : (ofName name).types[i]? = some d) :
    d.kind = .classType ∧ (d.base = none ∨ d.base = some valueType) ∧ d.methods = [] := by
  have hmem : d ∈ (ofName name).types := Array.mem_of_getElem? hd
  simp only [ofName, List.mem_toArray, List.mem_cons, List.not_mem_nil, or_false] at hmem
  rcases hmem with rfl | rfl | rfl <;> decide

theorem ordered_ofName (name : String) : (ofName name).Ordered where
  roots hd _ := by
    obtain ⟨hkind, hbase, -⟩ := root_of_ofName hd
    refine ⟨hkind, fun base hsome => ?_⟩
    rcases hbase with hnone | hvalue
    · simp [hnone] at hsome
    · obtain rfl := Option.some.inj (hvalue.symm.trans hsome)
      rfl
  rooted := Nat.le_refl _
  declared hm := by simp [ofName] at hm
  listed hm := by simp [ofName] at hm
  declares hd hmem := by simp [(root_of_ofName hd).2.2] at hmem

variable {asm asm' : Assembly}

theorem isRoot_iff {ty : TypeDefId} : isRoot ty = true ↔ ty.index < 3 := by
  simp [isRoot, roots]

theorem Ordered.addType {d : TypeDef} (h : asm.Ordered) (hmethods : d.methods = []) :
    (asm.addType d).1.Ordered := by
  have htype {ty : TypeDefId} {d' : TypeDef} (hd : (asm.addType d).1.types[ty.index]? = some d') :
      (ty.index < asm.types.size ∧ asm.types[ty.index]? = some d') ∨
        (ty.index = asm.types.size ∧ d'.methods = []) := by
    change (asm.types.push _)[ty.index]? = some d' at hd
    rw [Array.getElem?_push] at hd
    split at hd
    · rename_i hty
      cases hd
      exact .inr ⟨hty, hmethods⟩
    · exact .inl ⟨(Array.getElem?_eq_some_iff.mp hd).1, hd⟩
  have hsize : (asm.addType d).1.types.size = asm.types.size + 1 := by simp [Assembly.addType]
  have hrooted := h.rooted
  refine ⟨fun {ty d'} hd hroot => ?_, by omega, fun {m md} hm => ?_, fun {m md d'} hm hd => ?_,
    fun {ty d' m} hd hmem => ?_⟩
  · rcases htype hd with ⟨-, hd⟩ | ⟨hty, -⟩
    · exact h.roots hd hroot
    · have := isRoot_iff.mp hroot
      omega
  · have := h.declared hm
    omega
  · have hlt := h.declared hm
    rcases htype hd with ⟨-, hd⟩ | ⟨hty, -⟩
    · exact h.listed hm hd
    · omega
  · rcases htype hd with ⟨-, hd⟩ | ⟨-, hnone⟩
    · exact h.declares hd hmem
    · simp [hnone] at hmem

/-- What is in an arena after one of its entries was replaced. -/
theorem getElem?_replaced {α : Type} {entries : Array α} {i j : Nat} {new found : α}
    (h : (entries.setIfInBounds i new)[j]? = some found) :
    (i = j ∧ found = new ∧ i < entries.size) ∨ (i ≠ j ∧ entries[j]? = some found) := by
  rw [Array.getElem?_setIfInBounds] at h
  split at h
  · rename_i heq
    split at h
    · rename_i hlt
      cases h
      exact .inl ⟨heq, rfl, heq ▸ hlt⟩
    · cases h
  · rename_i hne
    exact .inr ⟨hne, h⟩

theorem Ordered.addField {ty : TypeDefId} {d : FieldDef} {f : FieldId} (h : asm.Ordered)
    (hadd : asm.addField ty d = .ok (asm', f)) : asm'.Ordered := by
  simp only [Assembly.addField, exceptBind_eq_ok_iff, exceptPure_eq_ok_iff, typeDef,
    Arena.entry_eq_ok_iff, Prod.mk.injEq] at hadd
  obtain ⟨owner, howner, rfl, -⟩ := hadd
  have htype {ty' : TypeDefId} {d' : TypeDef}
      (hd : (asm.types.setIfInBounds ty.index { owner with
        fields := owner.fields ++ [⟨asm.fields.size⟩] })[ty'.index]? = some d') :
      ∃ d₀, asm.types[ty'.index]? = some d₀ ∧ d'.kind = d₀.kind ∧ d'.base = d₀.base ∧
        d'.methods = d₀.methods := by
    rcases getElem?_replaced hd with ⟨heq, rfl, -⟩ | ⟨-, hd⟩
    · exact ⟨owner, heq ▸ howner, rfl, rfl, rfl⟩
    · exact ⟨d', hd, rfl, rfl, rfl⟩
  refine ⟨fun hd hroot => ?_, by simpa using h.rooted, fun hm => by simpa using h.declared hm,
    fun hm hd => ?_, fun hd hmem => ?_⟩
  · obtain ⟨d₀, hd₀, hkind, hbase, -⟩ := htype hd
    rw [hkind, hbase]
    exact h.roots hd₀ hroot
  · obtain ⟨d₀, hd₀, -, -, hmethods⟩ := htype hd
    rw [hmethods]
    exact h.listed hm hd₀
  · obtain ⟨d₀, hd₀, -, -, hmethods⟩ := htype hd
    rw [hmethods] at hmem
    exact h.declares hd₀ hmem

theorem Ordered.addMethod {ty : TypeDefId} {d : MethodDef} {m : MethodId} (h : asm.Ordered)
    (hadd : asm.addMethod ty d = .ok (asm', m)) : asm'.Ordered := by
  simp only [Assembly.addMethod, exceptBind_eq_ok_iff, exceptPure_eq_ok_iff, typeDef,
    Arena.entry_eq_ok_iff, Prod.mk.injEq] at hadd
  obtain ⟨owner, howner, rfl, -⟩ := hadd
  have hlt := (Array.getElem?_eq_some_iff.mp howner).1
  have htype {ty' : TypeDefId} {d' : TypeDef}
      (hd : (asm.types.setIfInBounds ty.index { owner with
        methods := owner.methods ++ [⟨asm.methods.size⟩] })[ty'.index]? = some d') :
      ∃ d₀, asm.types[ty'.index]? = some d₀ ∧ d'.kind = d₀.kind ∧ d'.base = d₀.base ∧
        d'.methods = d₀.methods ++ if ty' = ty then [⟨asm.methods.size⟩] else [] := by
    rcases getElem?_replaced hd with ⟨heq, rfl, -⟩ | ⟨hne, hd⟩
    · obtain rfl : ty = ty' := congrArg TypeDefId.mk heq
      exact ⟨owner, howner, rfl, rfl, by simp⟩
    · have hty : ty' ≠ ty := fun heq => hne (heq ▸ rfl)
      exact ⟨d', hd, rfl, rfl, by simp [hty]⟩
  have hmethod {m' : MethodId} {md : MethodDef}
      (hm : (asm.methods.push { d with declaringType := ty })[m'.index]? = some md) :
      (m' = ⟨asm.methods.size⟩ ∧ md.declaringType = ty) ∨ asm.methods[m'.index]? = some md := by
    rw [Array.getElem?_push] at hm
    split at hm
    · rename_i hm'
      cases hm
      exact .inl ⟨congrArg MethodId.mk hm', rfl⟩
    · exact .inr hm
  refine ⟨fun hd hroot => ?_, by simpa using h.rooted, fun {m' md} hm => ?_,
    fun {m' md d'} hm hd => ?_, fun {ty' d' m'} hd hmem => ?_⟩
  · obtain ⟨d₀, hd₀, hkind, hbase, -⟩ := htype hd
    rw [hkind, hbase]
    exact h.roots hd₀ hroot
  · simp only [Array.size_setIfInBounds]
    rcases hmethod hm with ⟨-, hty⟩ | hm
    · rwa [hty]
    · exact h.declared hm
  · obtain ⟨d₀, hd₀, -, -, hmethods⟩ := htype hd
    rw [hmethods, List.mem_append]
    rcases hmethod hm with ⟨rfl, hty⟩ | hm
    · exact .inr (by simp [hty])
    · exact .inl (h.listed hm hd₀)
  · obtain ⟨d₀, hd₀, -, -, hmethods⟩ := htype hd
    rw [hmethods, List.mem_append] at hmem
    rcases hmem with hold | hnew
    · obtain ⟨md, hmd, hty⟩ := h.declares hd₀ hold
      have hm' := (Array.getElem?_eq_some_iff.mp hmd).1
      exact ⟨md, by simp [Array.getElem?_push, Nat.ne_of_lt hm', hmd], hty⟩
    · split at hnew
      · rename_i heq
        obtain rfl := List.mem_singleton.mp hnew
        exact ⟨{ d with declaringType := ty }, by simp, heq.symm⟩
      · simp at hnew

theorem Ordered.setBody {m : MethodId} {body : Option MethodBody} (h : asm.Ordered)
    (hset : asm.setBody m body = .ok asm') : asm'.Ordered := by
  simp only [Assembly.setBody, exceptBind_eq_ok_iff, exceptPure_eq_ok_iff, method,
    Arena.entry_eq_ok_iff] at hset
  obtain ⟨d, hd, rfl⟩ := hset
  have hmethod {m' : MethodId} {md : MethodDef}
      (hm : (asm.methods.setIfInBounds m.index { d with body })[m'.index]? = some md) :
      ∃ md₀, asm.methods[m'.index]? = some md₀ ∧ md.declaringType = md₀.declaringType := by
    rcases getElem?_replaced hm with ⟨heq, rfl, -⟩ | ⟨-, hm⟩
    · exact ⟨d, heq ▸ hd, rfl⟩
    · exact ⟨md, hm, rfl⟩
  refine ⟨h.roots, h.rooted, fun hm => ?_, fun hm hty => ?_, fun {ty d' m'} hd' hmem => ?_⟩
  · obtain ⟨md₀, hm₀, hty⟩ := hmethod hm
    rw [hty]
    exact h.declared hm₀
  · obtain ⟨md₀, hm₀, hsame⟩ := hmethod hm
    rw [hsame] at hty
    exact h.listed hm₀ hty
  · obtain ⟨md, hmd, hty⟩ := h.declares hd' hmem
    by_cases heq : m.index = m'.index
    · obtain rfl := Option.some.inj (hd.symm.trans (heq ▸ hmd))
      have hlt := (Array.getElem?_eq_some_iff.mp hmd).1
      exact ⟨{ d with body }, by simp [heq, hlt], hty⟩
    · exact ⟨md, by simp [heq, hmd], hty⟩

theorem Built.ordered (h : Built asm) : asm.Ordered := by
  induction h with
  | roots name => exact ordered_ofName name
  | addType _ _ hmethods ih => exact ih.addType hmethods
  | addField _ hadd ih => exact ih.addField hadd
  | addMethod _ hadd ih => exact ih.addMethod hadd
  | setBody _ hset ih => exact ih.setBody hset

end CilSsa.Metadata.Assembly
