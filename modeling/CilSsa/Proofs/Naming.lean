import CilSsa.Metadata.Validation
import CilSsa.Proofs.Later

/-!
Which methods share a function.

Functions are registered under mangled names, so two methods share one exactly if their names are
mangled to the same text.  A mangled name can be read back if no type name begins with another and
the names of methods are free of the characters that separate the parts; otherwise different methods
can meet in one function.
-/

namespace CilSsa

open Ssa Metadata Lowering

section Marks

/-- The type that arrays, pointers and references are made of in the end. -/
def Metadata.TypeSig.root : TypeSig → TypeSig
  | .pointer inner | .byRef inner | .array inner => inner.root
  | sig => sig

/-- What stands behind the name of the root in a mangled name. -/
def Metadata.TypeSig.marks : TypeSig → List Char
  | .pointer inner => inner.marks ++ ['*']
  | .byRef inner => inner.marks ++ ['&']
  | .array inner => inner.marks ++ ['_', '_']
  | _ => []

def Metadata.MethodDef.mentioned (d : MethodDef) : List TypeSig :=
  .named d.declaringType :: d.returnType :: d.params.map Param.sig

/-- The characters that marks are made of. -/
def isMark (c : Char) : Bool := c = '_' || c = '*' || c = '&'

theorem isMark_of_mem_marks {sig : TypeSig} {c : Char} (h : c ∈ sig.marks) : isMark c = true := by
  induction sig with
  | pointer inner ih | byRef inner ih | array inner ih =>
      rcases List.mem_append.mp h with h | h
      · exact ih h
      · rw [isMark]
        simp_all
  | _ => simp [TypeSig.marks] at h

theorem root_of_unmarked {sig : TypeSig} (h : sig.marks = []) : sig.root = sig := by
  cases sig with
  | pointer inner | byRef inner | array inner => simp [TypeSig.marks] at h
  | _ => rfl

/-- Marks say how a signature is made from its root. -/
theorem eq_of_marks {s t : TypeSig} (hroot : s.root = t.root) (hmarks : s.marks = t.marks) :
    s = t := by
  -- The last mark tells the outermost constructor.
  have hlast := congrArg List.getLast? hmarks
  induction s generalizing t with
  | pointer inner ih =>
      cases t with
      | pointer inner' =>
          have hinner := List.append_cancel_right hmarks
          exact congrArg _ (ih hroot hinner (congrArg _ hinner))
      | _ => simp [TypeSig.marks] at hlast
  | byRef inner ih =>
      cases t with
      | byRef inner' =>
          have hinner := List.append_cancel_right hmarks
          exact congrArg _ (ih hroot hinner (congrArg _ hinner))
      | _ => simp [TypeSig.marks] at hlast
  | array inner ih =>
      cases t with
      | array inner' =>
          have hinner := List.append_cancel_right hmarks
          exact congrArg _ (ih hroot hinner (congrArg _ hinner))
      | _ => simp [TypeSig.marks] at hlast
  | _ => exact hroot.trans (root_of_unmarked hmarks.symm)

/-- Characters of one kind end where one of another kind begins. -/
theorem span_append_inj {p : Char → Bool} {x y u v : List Char} (hx : ∀ c ∈ x, p c = true)
    (hy : ∀ c ∈ y, p c = true) (hu : ∀ c ∈ u.head?, p c = false)
    (hv : ∀ c ∈ v.head?, p c = false) (h : x ++ u = y ++ v) : x = y ∧ u = v := by
  induction x generalizing y with
  | nil =>
      cases y with
      | nil => exact ⟨rfl, h⟩
      | cons c y =>
          have hfalse := hu c (by rw [List.nil_append] at h; simp [h])
          simp [hy c List.mem_cons_self] at hfalse
  | cons c x ih =>
      cases y with
      | nil =>
          have hfalse := hv c (by rw [List.nil_append] at h; simp [← h])
          simp [hx c List.mem_cons_self] at hfalse
      | cons c' y =>
          obtain ⟨rfl, hrest⟩ := List.cons.inj h
          obtain ⟨rfl, rfl⟩ := ih (fun c hc => hx c (List.mem_cons_of_mem _ hc))
            (fun c hc => hy c (List.mem_cons_of_mem _ hc)) hrest
          exact ⟨rfl, rfl⟩

end Marks

namespace Lowering

section Codes

variable {asm : Assembly}

theorem toList_mangle (name : String) : (mangle name).toList = name.toList.map mangleChar := by
  simp [mangle]

/-- The characters of a signature in mangled names. -/
def sigCode (asm : Assembly) (sig : TypeSig) : List Char :=
  match Names.sig asm sig with
  | .ok name => name.toList
  | .error _ => []

theorem sigCode_of_ok {sig : TypeSig} {name : String} (h : Names.sig asm sig = .ok name) :
    sigCode asm sig = name.toList := by
  simp [sigCode, h]

theorem sig_eq_root {sig : TypeSig} {name : String} (h : Names.sig asm sig = .ok name) :
    ∃ rootName, Names.sig asm sig.root = .ok rootName ∧
      name.toList = rootName.toList ++ sig.marks := by
  induction sig generalizing name with
  | pointer inner ih | byRef inner ih | array inner ih =>
      simp only [Names.sig, Assembly.sigName, exceptBind_eq_ok_iff, exceptPure_eq_ok_iff] at h
      obtain ⟨_, ⟨innerName, hinner, rfl⟩, rfl⟩ := h
      have hmangled : Names.sig asm inner = .ok (mangle innerName) := by
        rw [Names.sig, hinner]
        rfl
      obtain ⟨rootName, hroot, hname⟩ := ih hmangled
      refine ⟨rootName, hroot, ?_⟩
      rw [toList_mangle] at hname ⊢
      rw [String.toList_append, List.map_append, hname, List.append_assoc]
      rfl
  | _ => exact ⟨name, h, by simp [TypeSig.marks]⟩

theorem method_eq_ok {m : MethodId} {name : String} (h : Names.method asm m = .ok name) :
    ∃ d result owner params, asm.method m = .ok d ∧ Names.sig asm d.returnType = .ok result ∧
      Names.sig asm (.named d.declaringType) = .ok owner ∧
      (d.params.map Param.sig).mapM (Names.sig asm) = .ok params ∧
      name.toList = result.toList ++ ('_' :: owner.toList ++
        ('_' :: (d.name.toList.map mangleChar ++ '_' :: params.flatMap String.toList))) := by
  simp only [Names.method, exceptBind_eq_ok_iff, exceptPure_eq_ok_iff] at h
  obtain ⟨d, hd, result, hresult, owner, howner, params, hparams, rfl⟩ := h
  refine ⟨d, result, owner, params, hd, hresult, howner, by rw [List.mapM_map]; exact hparams, ?_⟩
  simp [String.toList_append, String.toList_join, toList_mangle]

end Codes

section Legible

/-- Names with no separator in them; only the first character may be a dot. -/
def isLegibleName : List Char → Bool
  | [] => false
  | c :: rest => decide (c ∉ ['_', '[', ']']) && rest.all fun c => mangleChar c ≠ '_'

/-- Whether mangled names of methods can be read back. -/
structure Legible (asm : Assembly) : Prop where
  /-- No type name begins with another. -/
  apart : ∀ d ∈ asm.methods.toList, ∀ e ∈ asm.methods.toList, ∀ s ∈ d.mentioned, ∀ t ∈ e.mentioned,
    sigCode asm s.root <+: sigCode asm t.root → s.root = t.root
  /-- No type name begins with a mark. -/
  initial : ∀ d ∈ asm.methods.toList, ∀ s ∈ d.mentioned,
    (sigCode asm s.root).head?.any (fun c => !isMark c) = true
  names : ∀ d ∈ asm.methods.toList, isLegibleName d.name.toList = true

variable {asm : Assembly} {u v : List Char}

theorem map_mangleChar {rest : List Char} (h : ∀ c ∈ rest, mangleChar c ≠ '_') :
    rest.map mangleChar = rest := by
  induction rest with
  | nil => rfl
  | cons c rest ih =>
      have hc := h c List.mem_cons_self
      have hsame : mangleChar c = c := by
        unfold mangleChar at hc ⊢
        split <;> simp_all
      rw [List.map_cons, hsame, ih fun c hc => h c (List.mem_cons_of_mem _ hc)]

theorem mangleChar_inj {c c' : Char} (hc : c ∉ ['_', '[', ']']) (hc' : c' ∉ ['_', '[', ']'])
    (h : mangleChar c = mangleChar c') : c = c' := by
  have hkeep {c : Char} (hc : c ∉ ['_', '[', ']']) : mangleChar c = if c = '.' then '_' else c := by
    simp_all [mangleChar]
  rw [hkeep hc, hkeep hc'] at h
  grind

/-- The name of a method ends at the next separator. -/
theorem legibleName_append_inj {x y : List Char} (hx : isLegibleName x = true)
    (hy : isLegibleName y = true)
    (h : x.map mangleChar ++ '_' :: u = y.map mangleChar ++ '_' :: v) : x = y ∧ u = v := by
  cases x with
  | nil => simp [isLegibleName] at hx
  | cons c x =>
      cases y with
      | nil => simp [isLegibleName] at hy
      | cons c' y =>
          simp only [isLegibleName, Bool.and_eq_true, decide_eq_true_eq, List.all_eq_true] at hx hy
          obtain ⟨hfirst, hrest⟩ := List.cons.inj h
          rw [map_mangleChar hx.2, map_mangleChar hy.2] at hrest
          have hno {rest : List Char} (hrest : ∀ c ∈ rest, mangleChar c ≠ '_') :
              ∀ c ∈ rest, decide (c ≠ '_') = true := by
            intro c hc
            rw [decide_eq_true_eq]
            rintro rfl
            exact hrest '_' hc rfl
          obtain ⟨rfl, htail⟩ := span_append_inj (hno hx.2) (hno hy.2) (by simp) (by simp) hrest
          obtain ⟨-, rfl⟩ := List.cons.inj htail
          rw [mangleChar_inj hx.1 hy.1 hfirst]
          exact ⟨rfl, rfl⟩

variable {d e : MethodDef} {s t : TypeSig} {x y : String}

/-- The name of a root ends where it ends. -/
theorem Legible.root_append_inj (h : Legible asm) (hd : d ∈ asm.methods.toList)
    (he : e ∈ asm.methods.toList) (hs : s ∈ d.mentioned) (ht : t ∈ e.mentioned)
    (hx : Names.sig asm s.root = .ok x) (hy : Names.sig asm t.root = .ok y)
    (heq : x.toList ++ u = y.toList ++ v) : s.root = t.root ∧ u = v := by
  have hroot : s.root = t.root := by
    have hfirst := List.prefix_append x.toList u
    rw [heq] at hfirst
    have hor := List.prefix_or_prefix_of_prefix hfirst (List.prefix_append y.toList v)
    rw [← sigCode_of_ok hx, ← sigCode_of_ok hy] at hor
    rcases hor with hless | hless
    · exact h.apart d hd e he s hs t ht hless
    · exact (h.apart e he d hd t ht s hs hless).symm
  obtain rfl : x = y := by
    rw [hroot, hy] at hx
    exact (Except.ok.inj hx).symm
  exact ⟨hroot, List.append_cancel_left heq⟩

/-- The name of a type ends where no mark follows. -/
theorem Legible.sig_append_inj (h : Legible asm) (hd : d ∈ asm.methods.toList)
    (he : e ∈ asm.methods.toList) (hs : s ∈ d.mentioned) (ht : t ∈ e.mentioned)
    (hx : Names.sig asm s = .ok x) (hy : Names.sig asm t = .ok y) (marks : List Char)
    (hmarks : ∀ c ∈ marks, isMark c = true) (hu : ∀ c ∈ u.head?, isMark c = false)
    (hv : ∀ c ∈ v.head?, isMark c = false)
    (heq : x.toList ++ (marks ++ u) = y.toList ++ (marks ++ v)) : s = t ∧ u = v := by
  obtain ⟨x', hx', hxroot⟩ := sig_eq_root hx
  obtain ⟨y', hy', hyroot⟩ := sig_eq_root hy
  rw [hxroot, hyroot, List.append_assoc, List.append_assoc] at heq
  obtain ⟨hroot, hrest⟩ := h.root_append_inj hd he hs ht hx' hy' heq
  rw [← List.append_assoc, ← List.append_assoc] at hrest
  have hall {sig : TypeSig} : ∀ c ∈ sig.marks ++ marks, isMark c = true := by
    intro c hc
    rcases List.mem_append.mp hc with hc | hc
    · exact isMark_of_mem_marks hc
    · exact hmarks c hc
  obtain ⟨hsame, rfl⟩ := span_append_inj hall hall hu hv hrest
  exact ⟨eq_of_marks hroot (List.append_cancel_right hsame), rfl⟩

/-- Behind a separator stands the name of a type, which is no mark. -/
theorem Legible.head_of_ok (h : Legible asm) (hd : d ∈ asm.methods.toList) (hs : s ∈ d.mentioned)
    (hx : Names.sig asm s = .ok x) (rest : List Char) :
    ∃ c cs, x.toList ++ rest = c :: cs ∧ isMark c = false := by
  obtain ⟨x', hx', hxroot⟩ := sig_eq_root hx
  obtain ⟨c, hc, hmark⟩ := Option.any_eq_true _ _ |>.mp (h.initial d hd s hs)
  rw [sigCode_of_ok hx'] at hc
  obtain ⟨cs, hcs⟩ := List.head?_eq_some_iff.mp hc
  exact ⟨c, cs ++ s.marks ++ rest, by simp [hxroot, hcs], by simpa using hmark⟩

/-- The parameters, if there are any, do not start with the mark of an array or a pointer. -/
theorem Legible.head_of_params (h : Legible asm) (hd : d ∈ asm.methods.toList) {ss : List TypeSig}
    (hss : ∀ s ∈ ss, s ∈ d.mentioned) {xs : List String}
    (hxs : ss.mapM (Names.sig asm) = .ok xs) :
    ∀ c ∈ (xs.flatMap String.toList).head?, isMark c = false := by
  cases ss with
  | nil =>
      rw [List.mapM_nil, exceptPure_eq_ok_iff] at hxs
      simp [hxs]
  | cons s ss =>
      simp only [List.mapM_cons, exceptBind_eq_ok_iff, exceptPure_eq_ok_iff] at hxs
      obtain ⟨x, hx, xs, -, rfl⟩ := hxs
      intro c hc
      obtain ⟨c', cs, hcs, hmark⟩ :=
        h.head_of_ok hd (hss s List.mem_cons_self) hx (xs.flatMap String.toList)
      rw [List.flatMap_cons, hcs] at hc
      obtain rfl : c' = c := by simpa using hc
      exact hmark

theorem Legible.params_eq_nil (h : Legible asm) (hd : d ∈ asm.methods.toList) {ss : List TypeSig}
    (hss : ∀ s ∈ ss, s ∈ d.mentioned) {xs : List String}
    (hxs : ss.mapM (Names.sig asm) = .ok xs) (hnil : xs.flatMap String.toList = []) : ss = [] := by
  cases ss with
  | nil => rfl
  | cons s ss =>
      simp only [List.mapM_cons, exceptBind_eq_ok_iff, exceptPure_eq_ok_iff] at hxs
      obtain ⟨x, hx, xs, -, rfl⟩ := hxs
      obtain ⟨c, cs, hcs, -⟩ :=
        h.head_of_ok hd (hss s List.mem_cons_self) hx (xs.flatMap String.toList)
      rw [List.flatMap_cons, hcs] at hnil
      cases hnil

/-- The parameters can be read back. -/
theorem Legible.params_inj (h : Legible asm) (hd : d ∈ asm.methods.toList)
    (he : e ∈ asm.methods.toList) {ss ts : List TypeSig} (hss : ∀ s ∈ ss, s ∈ d.mentioned)
    (hts : ∀ t ∈ ts, t ∈ e.mentioned) {xs ys : List String}
    (hxs : ss.mapM (Names.sig asm) = .ok xs) (hys : ts.mapM (Names.sig asm) = .ok ys)
    (heq : xs.flatMap String.toList = ys.flatMap String.toList) : ss = ts := by
  induction ss generalizing ts xs ys with
  | nil =>
      rw [List.mapM_nil, exceptPure_eq_ok_iff] at hxs
      subst hxs
      exact (h.params_eq_nil he hts hys heq.symm).symm
  | cons s ss ih =>
      cases ts with
      | nil =>
          rw [List.mapM_nil, exceptPure_eq_ok_iff] at hys
          subst hys
          exact h.params_eq_nil hd hss hxs heq
      | cons t ts =>
          simp only [List.mapM_cons, exceptBind_eq_ok_iff, exceptPure_eq_ok_iff] at hxs hys
          obtain ⟨x, hx, xs, hxs, rfl⟩ := hxs
          obtain ⟨y, hy, ys, hys, rfl⟩ := hys
          have hss' : ∀ s ∈ ss, s ∈ d.mentioned := fun s hs => hss s (List.mem_cons_of_mem _ hs)
          have hts' : ∀ t ∈ ts, t ∈ e.mentioned := fun t ht => hts t (List.mem_cons_of_mem _ ht)
          rw [List.flatMap_cons, List.flatMap_cons] at heq
          obtain ⟨rfl, hrest⟩ := h.sig_append_inj hd he (hss s List.mem_cons_self)
            (hts t List.mem_cons_self) hx hy [] (by simp) (h.head_of_params hd hss' hxs)
            (h.head_of_params he hts' hys) heq
          rw [ih hss' hts' hxs hys hrest]

theorem Legible.same_of_name (h : Legible asm) {a b : MethodId} {name : String}
    (hd : asm.method a = .ok d) (he : asm.method b = .ok e) (ha : Names.method asm a = .ok name)
    (hb : Names.method asm b = .ok name) :
    d.declaringType = e.declaringType ∧ d.sameSignature e = true := by
  obtain ⟨d', r, o, ps, hd', hr, ho, hps, hname⟩ := method_eq_ok ha
  obtain ⟨e', r', o', ps', he', hr', ho', hps', hname'⟩ := method_eq_ok hb
  obtain rfl : d = d' := Except.ok.inj (hd.symm.trans hd')
  obtain rfl : e = e' := Except.ok.inj (he.symm.trans he')
  have hmem {m : MethodId} {d : MethodDef} (h : asm.method m = .ok d) : d ∈ asm.methods.toList := by
    rw [Assembly.method, Arena.entry_eq_ok_iff] at h
    exact Array.mem_toList_iff.mpr (Array.mem_of_getElem? h)
  have hhead {d : MethodDef} (hd : d ∈ asm.methods.toList) {o : String}
      (ho : Names.sig asm (.named d.declaringType) = .ok o) (rest : List Char) :
      ∀ c ∈ (o.toList ++ rest).head?, isMark c = false := by
    obtain ⟨c, cs, hcs, hmark⟩ := h.head_of_ok hd List.mem_cons_self ho rest
    simp [hcs, hmark]
  have hresult {d : MethodDef} : d.returnType ∈ d.mentioned := by simp [MethodDef.mentioned]
  have howner {d : MethodDef} : .named d.declaringType ∈ d.mentioned := List.mem_cons_self
  have hparams {d : MethodDef} : ∀ s ∈ d.params.map Param.sig, s ∈ d.mentioned :=
    fun s hs => List.mem_cons_of_mem _ (List.mem_cons_of_mem _ hs)
  rw [hname] at hname'
  obtain ⟨hsame, hrest⟩ := h.sig_append_inj (hmem hd) (hmem he) hresult hresult hr hr' ['_']
    (List.forall_mem_singleton.mpr rfl) (hhead (hmem hd) ho _) (hhead (hmem he) ho' _) hname'
  obtain ⟨htype, hrest⟩ := h.root_append_inj (hmem hd) (hmem he) howner howner ho ho' hrest
  obtain ⟨hmethod, hrest⟩ := legibleName_append_inj (h.names d (hmem hd)) (h.names e (hmem he))
    (List.cons.inj hrest).2
  have hsigs := h.params_inj (hmem hd) (hmem he) hparams hparams hps hps' hrest
  refine ⟨TypeSig.named.inj htype, ?_⟩
  simp [MethodDef.sameSignature, hsame, hsigs, String.toList_injective hmethod]

theorem name_of_same {a b : MethodId} {name name' : String} (hd : asm.method a = .ok d)
    (he : asm.method b = .ok e) (ha : Names.method asm a = .ok name)
    (hb : Names.method asm b = .ok name') (htype : d.declaringType = e.declaringType)
    (hsame : d.sameSignature e = true) : name = name' := by
  simp only [MethodDef.sameSignature, Bool.and_eq_true, decide_eq_true_eq] at hsame
  obtain ⟨⟨hmethod, hresult⟩, hparams⟩ := hsame
  obtain ⟨d', r, o, ps, hd', hr, ho, hps, hname⟩ := method_eq_ok ha
  obtain ⟨e', r', o', ps', he', hr', ho', hps', hname'⟩ := method_eq_ok hb
  obtain rfl : d = d' := Except.ok.inj (hd.symm.trans hd')
  obtain rfl : e = e' := Except.ok.inj (he.symm.trans he')
  rw [hresult, hr', Except.ok.injEq] at hr
  rw [htype, ho', Except.ok.injEq] at ho
  rw [hparams, hps', Except.ok.injEq] at hps
  apply String.toList_injective
  rw [hname, hname', hr, ho, hps, hmethod]

end Legible

section Functions

variable {asm : Assembly}

/-- Two methods share a function if and only if they have the same mangled name, however much is
compiled between the two requests.  With legible names they are then the same method, as far as
declaring type and signature go. -/
theorem declared_alike_iff {a b : MethodId} {d e : MethodDef} (hd : asm.method a = .ok d)
    (he : asm.method b = .ok e) {s s₁ t t₁ : Session} {f g : FunctionId} (hs : s.FunctionsSound)
    (hf : declareFunction asm a s = .ok f s₁) (hlater : Session.Later asm s₁ t)
    (hg : declareFunction asm b t = .ok g t₁) :
    (f = g ↔ Names.method asm a = Names.method asm b) ∧
      (Legible asm → (f = g ↔
        d.declaringType = e.declaringType ∧ d.sameSignature e = true)) := by
  have hkeeps (m : MethodId) : Keeps (Session.Later asm) (declareFunction asm m) := inferInstance
  obtain ⟨name, hname, hfound⟩ := declareFunction_registered hf
  obtain ⟨name', hname', hfound'⟩ := declareFunction_registered hg
  have hrest : Session.Later asm s₁ t₁ := IsTrans.trans _ _ _ hlater ((hkeeps b).run hg)
  have hsound : t₁.FunctionsSound := hrest.functions (((hkeeps a).run hf).functions hs)
  have hkept : t₁.registry.function? name = some f := hrest.registry.functions hfound
  have hnames : f = g ↔ Names.method asm a = Names.method asm b := by
    rw [hname, hname', Except.ok.injEq]
    constructor
    · rintro rfl
      exact Option.some.inj ((hsound hkept).symm.trans (hsound hfound'))
    · rintro rfl
      exact Option.some.inj (hkept.symm.trans hfound')
  refine ⟨hnames, fun hlegible => ?_⟩
  rw [hnames]
  constructor
  · intro heq
    exact hlegible.same_of_name hd he hname (heq ▸ hname)
  · rintro ⟨htype, hsame⟩
    rw [hname, hname', name_of_same hd he hname hname' htype hsame]

/-- A module to which nothing is added yet. -/
def emptySession : Session := { module := { name := "module" } }

theorem functionsSound_emptySession : emptySession.FunctionsSound := by
  intro name f hf
  simp [emptySession, Registry.function?] at hf

/-- A class with overloads of a method. -/
def overloads : Assembly :=
  let list : TypeDef := { TypeDef.ofKind .classType "Demo" "List" with methods := [⟨0⟩, ⟨1⟩] }
  let add (params : List Param) : MethodDef :=
    { name := "Add", declaringType := ⟨3⟩, returnType := .void, params,
      flags := ⟨MethodFlags.static⟩ }
  { Assembly.ofName "overloads" with
    types := (Assembly.ofName "overloads").types.push list
    methods := #[add [⟨"all", .array .i4⟩], add [⟨"at", .pointer .i4⟩, ⟨"item", .i4⟩]] }

theorem overloads_apart : overloads.validate = .ok () ∧ Legible overloads ∧ ∃ f g s t,
    declareFunction overloads ⟨0⟩ emptySession = .ok f s ∧
      declareFunction overloads ⟨1⟩ s = .ok g t ∧ f ≠ g := by
  have hlegible : Legible overloads := ⟨by decide +kernel, by decide +kernel, by decide +kernel⟩
  let s := stateOf (declareFunction overloads ⟨0⟩ emptySession)
  have hf : declareFunction overloads ⟨0⟩ emptySession = .ok ⟨0⟩ s :=
    outcome?_eq_some_iff.mp (by decide +kernel)
  have hg : declareFunction overloads ⟨1⟩ s = .ok ⟨1⟩ (stateOf (declareFunction overloads ⟨1⟩ s)) :=
    outcome?_eq_some_iff.mp (by decide +kernel)
  have hiff := (declared_alike_iff rfl rfl functionsSound_emptySession hf (Std.Refl.refl _) hg).2
    hlegible
  refine ⟨rfl, hlegible, _, _, _, _, hf, hg, fun heq => ?_⟩
  exact absurd (hiff.mp heq).2 (by decide +kernel)

/-- Two types whose full names differ in a dot and an underscore. -/
def twins : Assembly :=
  let start (owner : TypeDefId) : MethodDef :=
    { name := "Start", declaringType := owner, returnType := .void,
      flags := ⟨MethodFlags.static⟩, body := some { instructions := [{ opcode := .ret }] } }
  { Assembly.ofName "twins" with
    types := (Assembly.ofName "twins").types ++ #[
      { TypeDef.ofKind .classType "Net" "Client" with base := some ⟨0⟩, methods := [⟨0⟩] },
      { TypeDef.ofKind .classType "" "Net_Client" with base := some ⟨0⟩, methods := [⟨1⟩] }]
    methods := #[start ⟨3⟩, start ⟨4⟩] }

theorem twins_share : twins.validate = .ok () ∧ ∃ d e f s t,
    twins.method ⟨0⟩ = .ok d ∧ twins.method ⟨1⟩ = .ok e ∧ d.declaringType ≠ e.declaringType ∧
      declareFunction twins ⟨0⟩ emptySession = .ok f s ∧ declareFunction twins ⟨1⟩ s = .ok f t := by
  refine ⟨rfl, _, _, ⟨0⟩, stateOf (declareFunction twins ⟨0⟩ emptySession),
    stateOf (declareFunction twins ⟨0⟩ emptySession), rfl, rfl, by decide, ?_, ?_⟩
  · exact outcome?_eq_some_iff.mp (by decide +kernel)
  · exact outcome?_eq_some_iff.mp (by decide +kernel)

end Functions

end Lowering

end CilSsa
