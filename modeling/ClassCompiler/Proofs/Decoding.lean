import ClassCompiler.ClassTable
import ClassCompiler.Proofs.Evolution

/-!
# Descriptors can be told apart

The descriptor of a method is the descriptors of its parameters, one behind the other, between
parentheses, and that of its result. Nothing separates the parameters. But the text of a type ends
where its letter, its semicolon or the text of its element ends, so it is no beginning of another
one, and a method descriptor stands for one list of parameters and one result. Whatever classes
and arrays a registry knows, two methods of a class that differ in a type do not clash.

* `TypeText.append_cancel`: no text of a type is a beginning of another one
* `Registry.Legible`: a registry whose names are texts of types
* `Registry.descriptors_decode`
-/

namespace ClassCompiler

/-! ## Texts of types -/

/-- What stands for a type in a descriptor. The letters are those of the primitives, with that of
`void` among them. -/
inductive TypeText : List Char → Prop
  | letter {c : Char} (h : c ∉ ['L', '[', ')']) : TypeText [c]
  | object {name : List Char} (h : ';' ∉ name) : TypeText ('L' :: (name ++ [';']))
  | array {element : List Char} (h : TypeText element) : TypeText ('[' :: element)

/-- A name ends with the first semicolon. -/
theorem name_cancel {one two u v : List Char} (h : ';' ∉ one) (h' : ';' ∉ two)
    (heq : one ++ ';' :: u = two ++ ';' :: v) : one = two ∧ u = v := by
  induction one generalizing two with
  | nil =>
    cases two with
    | nil => exact ⟨rfl, (List.cons.inj heq).2⟩
    | cons c two => exact absurd ((List.cons.inj heq).1 ▸ List.mem_cons_self) h'
  | cons c one ih =>
    cases two with
    | nil => exact absurd ((List.cons.inj heq).1 ▸ List.mem_cons_self) h
    | cons d two =>
      obtain ⟨hhead, htail⟩ := List.cons.inj heq
      obtain ⟨hname, hrest⟩ := ih (fun hmem => h (List.mem_cons_of_mem c hmem))
        (fun hmem => h' (List.mem_cons_of_mem d hmem)) htail
      exact ⟨by rw [hhead, hname], hrest⟩

namespace TypeText

variable {one two u v : List Char}

theorem of_prim (p : Prim) : TypeText p.letter.toList := by
  obtain ⟨c, hc, hL, harray, hclose⟩ := p.exists_letter
  rw [hc]
  exact .letter (by simp [hL, harray, hclose])

/-- The text of a type can be taken off, and what is behind it stays. -/
theorem append_cancel (h : TypeText one) (h' : TypeText two) (heq : one ++ u = two ++ v) :
    one = two ∧ u = v := by
  induction h generalizing two with
  | @letter c hc =>
    cases h' with
    | letter hd =>
      obtain ⟨rfl, htail⟩ := List.cons.inj heq
      exact ⟨rfl, htail⟩
    | object hname => exact absurd (List.cons.inj heq).1 (fun hL => hc (by simp [hL]))
    | array helement => exact absurd (List.cons.inj heq).1 (fun harray => hc (by simp [harray]))
  | @object name hname =>
    cases h' with
    | letter hd => exact absurd (List.cons.inj heq).1.symm (fun hL => hd (by simp [hL]))
    | @object name' hname' =>
      have hnames : name ++ ';' :: u = name' ++ ';' :: v := by
        simpa using (List.cons.inj heq).2
      obtain ⟨rfl, hrest⟩ := name_cancel hname hname' hnames
      exact ⟨rfl, hrest⟩
    | array helement => exact absurd (List.cons.inj heq).1 (by decide)
  | array helement ih =>
    cases h' with
    | letter hd => exact absurd (List.cons.inj heq).1.symm (fun harray => hd (by simp [harray]))
    | object hname => exact absurd (List.cons.inj heq).1 (by decide)
    | array helement' =>
      obtain ⟨rfl, hrest⟩ := ih helement' (List.cons.inj heq).2
      exact ⟨rfl, hrest⟩

theorem append_ne_close (h : TypeText one) : one ++ u ≠ ')' :: v := by
  intro heq
  cases h with
  | letter hc => exact hc (by simp [(List.cons.inj heq).1])
  | object hname => exact absurd (List.cons.inj heq).1 (by decide)
  | array helement => exact absurd (List.cons.inj heq).1 (by decide)

/-- Texts in a row, up to a parenthesis, are read one by one. -/
theorem flatten_cancel {texts others : List (List Char)} (h : ∀ text ∈ texts, TypeText text)
    (h' : ∀ text ∈ others, TypeText text)
    (heq : texts.flatten ++ ')' :: u = others.flatten ++ ')' :: v) : texts = others ∧ u = v := by
  induction texts generalizing others with
  | nil =>
    cases others with
    | nil => exact ⟨rfl, (List.cons.inj heq).2⟩
    | cons first rest =>
      rw [List.flatten_cons, List.append_assoc] at heq
      exact absurd heq.symm (h' first List.mem_cons_self).append_ne_close
  | cons first rest ih =>
    rw [List.flatten_cons, List.append_assoc] at heq
    cases others with
    | nil => exact absurd heq (h first List.mem_cons_self).append_ne_close
    | cons first' rest' =>
      rw [List.flatten_cons, List.append_assoc] at heq
      obtain ⟨hfirst, htail⟩ :=
        (h first List.mem_cons_self).append_cancel (h' first' List.mem_cons_self) heq
      obtain ⟨hrest, hend⟩ := ih (fun text hmem => h text (List.mem_cons_of_mem _ hmem))
        (fun text hmem => h' text (List.mem_cons_of_mem _ hmem)) htail
      exact ⟨by rw [hfirst, hrest], hend⟩

end TypeText

/-! ## Legible registries -/

namespace Registry

/-- The names of arrays are texts of types, and those of classes can stand in one. -/
structure Legible (registry : Registry) : Prop extends registry.Written where
  arrays : ∀ ty name element, registry.shown? ty = some (name, .array element) →
    TypeText name.toList
  classes : ∀ ty name kind, registry.shown? ty = some (name, kind) →
    (kind = .plainClass ∨ kind = .interface) → ';' ∉ name.toList

/-- What is registered is a class or an interface, without a semicolon in its name. -/
def Change.IsLegible : Change → Prop
  | .register entry => (entry.kind = .plainClass ∨ entry.kind = .interface)
      ∧ ';' ∉ entry.internalName.toList
  | _ => True

variable {registry s t : Registry}

theorem Change.IsLegible.isOrdinary {change : Change} (h : change.IsLegible) :
    change.IsOrdinary := by
  cases change with
  | register entry => exact h.1
  | _ => trivial

theorem Legible.typeText (h : s.Legible) (ty : Ty) : TypeText (s.descriptor ty).toList := by
  have hobject : ∀ name : String, ';' ∉ name.toList →
      TypeText ("L" ++ name ++ ";").toList := by
    intro name hname
    have htext := TypeText.object hname
    simpa using htext
  cases hprim : ty.prim? with
  | some p =>
    rw [Ty.prim?_eq_some_iff.mp hprim, descriptor_prim]
    exact .of_prim p
  | none =>
    have hother : s.descriptor ty = "Ljava/lang/Object;" → TypeText (s.descriptor ty).toList := by
      intro hdescriptor
      rw [hdescriptor]
      exact hobject "java/lang/Object" (by decide)
    cases hshown : s.shown? ty with
    | none => exact hother (descriptor_other hprim (by simp [hshown]))
    | some pair =>
      obtain ⟨name, kind⟩ := pair
      cases kind with
      | array element =>
        rw [descriptor_array hprim hshown]
        exact h.arrays ty name element hshown
      | plainClass =>
        rw [descriptor_class hprim hshown (.inl rfl)]
        exact hobject name (h.classes ty name _ hshown (.inl rfl))
      | interface =>
        rw [descriptor_class hprim hshown (.inr rfl)]
        exact hobject name (h.classes ty name _ hshown (.inr rfl))
      | primitive | null | any => exact hother (descriptor_other hprim (by simp [hshown]))

theorem legible_builtin : builtin.Legible := by
  have hentries : ∀ pair ∈ builtin.entries.pairs, ';' ∉ pair.2.internalName.toList
      ∧ pair.2.kind ∈ [.primitive, .null, .any, .plainClass] := by decide +kernel
  have hshown : ∀ ty name kind, builtin.shown? ty = some (name, kind) → ';' ∉ name.toList
      ∧ kind ∈ [.primitive, .null, .any, .plainClass] := by
    intro ty name kind h
    obtain ⟨entry, hentry, heq⟩ := Option.map_eq_some_iff.mp h
    cases heq
    exact hentries _ (Table.mem_of_get? hentry)
  refine ⟨written_builtin, fun ty name element h => ?_, fun ty name kind h _ => (hshown _ _ _ h).1⟩
  have hkind := (hshown ty name _ h).2
  simp at hkind

theorem Legible.change (h : s.Legible) {change : Change} (hlegible : change.IsLegible) :
    (s.change change).Legible := by
  refine ⟨h.toWritten.change hlegible.isOrdinary, fun ty name element hty => ?_,
    fun ty name kind hty hclass => ?_⟩
  · obtain hold | ⟨_, rfl, -, -, hkind⟩ | ⟨made, -, -, rfl, -⟩ := shown?_change_cases hty
    · exact h.arrays ty name element hold
    · exact absurd hkind.symm (hlegible.isOrdinary.not_special.2.2.2 element)
    · have htext := (h.typeText made).array
      simpa using htext
  · obtain hold | ⟨_, rfl, -, rfl, -⟩ | ⟨_, -, -, -, rfl⟩ := shown?_change_cases hty
    · exact h.classes ty name kind hold hclass
    · exact hlegible.2
    · rcases hclass with hkind | hkind <;> cases hkind

theorem Evolves.legible (h : Evolves (fun _ change => change.IsLegible) builtin registry) :
    registry.Legible :=
  h.preserves legible_builtin fun _ _ hlegible hchange => hlegible.change hchange

/-! ## Method descriptors -/

theorem toList_methodDescriptor (registry : Registry) (params : List Ty) (returnTy : Ty) :
    (registry.methodDescriptor params returnTy).toList
      = '(' :: ((params.map fun ty => (registry.descriptor ty).toList).flatten
          ++ ')' :: (registry.descriptor returnTy).toList) := by
  have hjoin : ∀ texts : List String,
      (String.join texts).toList = (texts.map String.toList).flatten := by
    intro texts
    induction texts with
    | nil => rfl
    | cons first rest ih => simp [String.join_cons, ih]
  unfold methodDescriptor
  simp [hjoin, List.map_map, Function.comp_def]

theorem Legible.methodDescriptor_cancel (h : registry.Legible) {params params' : List Ty}
    {returnTy returnTy' : Ty} (hone : ∀ ty ∈ returnTy :: params, registry.Denotes ty)
    (htwo : ∀ ty ∈ returnTy' :: params', registry.Denotes ty)
    (heq : registry.methodDescriptor params returnTy
      = registry.methodDescriptor params' returnTy') :
    params = params' ∧ returnTy = returnTy' := by
  have hlists := congrArg String.toList heq
  rw [toList_methodDescriptor, toList_methodDescriptor] at hlists
  have htexts : ∀ types : List Ty, ∀ text ∈ types.map fun ty => (registry.descriptor ty).toList,
      TypeText text := by
    intro types text hmem
    obtain ⟨ty, -, rfl⟩ := List.mem_map.mp hmem
    exact h.typeText ty
  obtain ⟨hparams, hreturn⟩ :=
    TypeText.flatten_cancel (htexts params) (htexts params') (List.cons.inj hlists).2
  have hsame : ∀ one ∈ params, ∀ two ∈ params',
      (registry.descriptor one).toList = (registry.descriptor two).toList → one = two := by
    intro one hmem two hmem' hdescriptors
    exact h.eq_of_descriptor_eq (hone one (List.mem_cons_of_mem _ hmem))
      (htwo two (List.mem_cons_of_mem _ hmem')) (String.toList_inj.mp hdescriptors)
  refine ⟨?_, h.eq_of_descriptor_eq (hone _ List.mem_cons_self) (htwo _ List.mem_cons_self)
    (String.toList_inj.mp hreturn)⟩
  clear heq hlists hone htwo hreturn
  induction params generalizing params' with
  | nil =>
    cases params' with
    | nil => rfl
    | cons first' rest' => cases hparams
  | cons first rest ih =>
    cases params' with
    | nil => cases hparams
    | cons first' rest' =>
      obtain ⟨hfirst, hrest⟩ := List.cons.inj hparams
      have hhead := hsame first List.mem_cons_self first' List.mem_cons_self hfirst
      have htail := ih hrest fun one hmem two hmem' =>
        hsame one (List.mem_cons_of_mem _ hmem) two (List.mem_cons_of_mem _ hmem')
      rw [hhead, htail]

end Registry

/-! ## Methods of one class -/

/-- The types of a method are registered, and its descriptor is theirs. -/
structure MethodEntry.Describes (registry : Registry) (method : MethodEntry) : Prop where
  types : ∀ ty ∈ method.returnTy :: method.params, registry.Denotes ty
  descriptor : method.descriptor = registry.methodDescriptor method.params method.returnTy

/-- Methods with different names or descriptors have different keys. -/
def MethodEntry.KeysApart (owner : Ty) (methods : List MethodEntry) : Prop :=
  ∀ one ∈ methods, ∀ two ∈ methods,
    methodKey owner one.name one.descriptor = methodKey owner two.name two.descriptor →
      one.name = two.name ∧ one.descriptor = two.descriptor

theorem ClassInfo.addMethod_error_iff {info : ClassInfo} {method : MethodEntry}
    (hkeys : MethodEntry.KeysApart info.ty (method :: info.methods)) :
    (∃ error, info.addMethod method = .error error)
      ↔ ∃ known ∈ info.methods, known.name = method.name
        ∧ known.descriptor = method.descriptor := by
  have hclash : info.hasMethod method.name method.descriptor = true
      ↔ ∃ known ∈ info.methods, known.name = method.name
        ∧ known.descriptor = method.descriptor := by
    unfold hasMethod
    rw [List.any_eq_true]
    constructor
    · rintro ⟨known, hknown, hkey⟩
      exact ⟨known, hknown, hkeys known (List.mem_cons_of_mem _ hknown) method List.mem_cons_self
        (beq_iff_eq.mp hkey)⟩
    · rintro ⟨known, hknown, hname, hdescriptor⟩
      refine ⟨known, hknown, ?_⟩
      rw [hname, hdescriptor]
      exact beq_self_eq_true _
  rw [← hclash]
  unfold addMethod
  split
  · next h => exact iff_of_true ⟨_, rfl⟩ h
  · next h => exact iff_of_false (by simp) h

namespace Registry

/-- A method descriptor stands for one list of parameters and one result. So a class refuses a method
just if it has one of the same name, parameters and result. -/
theorem descriptors_decode {registry : Registry}
    (h : Evolves (fun _ change => change.IsLegible) builtin registry) :
    (∀ params params' returnTy returnTy',
      (∀ ty ∈ returnTy :: params, registry.Denotes ty) →
      (∀ ty ∈ returnTy' :: params', registry.Denotes ty) →
      (registry.methodDescriptor params returnTy = registry.methodDescriptor params' returnTy'
        ↔ params = params' ∧ returnTy = returnTy'))
    ∧ ∀ (info : ClassInfo) (method : MethodEntry),
      (∀ known ∈ method :: info.methods, known.Describes registry) →
      MethodEntry.KeysApart info.ty (method :: info.methods) →
      ((∃ error, info.addMethod method = .error error)
        ↔ ∃ known ∈ info.methods, known.name = method.name ∧ known.params = method.params
          ∧ known.returnTy = method.returnTy) := by
  have hlegible := h.legible
  constructor
  · intro params params' returnTy returnTy' hone htwo
    constructor
    · exact hlegible.methodDescriptor_cancel hone htwo
    · rintro ⟨rfl, rfl⟩
      rfl
  · intro info method hdescribed hkeys
    rw [ClassInfo.addMethod_error_iff hkeys]
    have hmethod := hdescribed method List.mem_cons_self
    constructor
    · rintro ⟨known, hknown, hname, hdescriptor⟩
      have hold := hdescribed known (List.mem_cons_of_mem _ hknown)
      rw [hold.descriptor, hmethod.descriptor] at hdescriptor
      exact ⟨known, hknown, hname,
        hlegible.methodDescriptor_cancel hold.types hmethod.types hdescriptor⟩
    · rintro ⟨known, hknown, hname, hparams, hreturn⟩
      have hold := hdescribed known (List.mem_cons_of_mem _ hknown)
      refine ⟨known, hknown, hname, ?_⟩
      rw [hold.descriptor, hmethod.descriptor, hparams, hreturn]

/-- The builtin types with a class `Point` and arrays of it and of `int`. -/
def pointArrays : Registry :=
  ((builtin.change (.register { internalName := "Point", kind := .plainClass })).change
    (.arrayOf (Ty.named "Point"))).change (.arrayOf .int)

/-- `void draw(Point, Point[], int)` -/
def drawPoint : MethodEntry where
  name := "draw"
  params := [Ty.named "Point", Ty.named "[LPoint;", .int]
  returnTy := .void
  exceptions := []
  mods := .accPublic
  descriptor := "(LPoint;[LPoint;I)V"
  line := 1

/-- `void draw(Point, Point[], int[])` -/
def drawPoints : MethodEntry :=
  { drawPoint with
    params := [Ty.named "Point", Ty.named "[LPoint;", Ty.named "[I"]
    descriptor := "(LPoint;[LPoint;[I)V"
    line := 2 }

/-- The class `Point` with the first of the two methods. -/
def pointClass : ClassInfo where
  ty := Ty.named "Point"
  name := "Point"
  internalName := "Point"
  isInterface := false
  mods := .accPublic
  methods := [drawPoint]

theorem descriptors_decode_point :
    Evolves (fun _ change => change.IsLegible) builtin pointArrays
      ∧ (∀ method ∈ drawPoints :: pointClass.methods, method.Describes pointArrays)
      ∧ MethodEntry.KeysApart pointClass.ty (drawPoints :: pointClass.methods)
      ∧ pointArrays.methodDescriptor drawPoint.params .void
        ≠ pointArrays.methodDescriptor drawPoints.params .void
      ∧ ¬ ∃ error, pointClass.addMethod drawPoints = .error error := by
  have hevolves : Evolves (fun _ change => change.IsLegible) builtin pointArrays :=
    ((Evolves.refl.step (.register { internalName := "Point", kind := .plainClass })
      ⟨.inl rfl, by decide⟩).step (.arrayOf (Ty.named "Point")) trivial).step (.arrayOf .int) trivial
  have htypes : ∀ method ∈ [drawPoints, drawPoint],
      ∀ ty ∈ method.returnTy :: method.params, pointArrays.Denotes ty := by
    have hkinds : ∀ method ∈ [drawPoints, drawPoint], ∀ ty ∈ method.returnTy :: method.params,
        (pointArrays.shown? ty).any (fun pair => pair.2 ≠ .null ∧ pair.2 ≠ .any) = true := by
      decide +kernel
    intro method hmethod ty hty
    obtain ⟨pair, hpair, hkind⟩ := (Option.any_eq_true _ _).mp (hkinds method hmethod ty hty)
    exact ⟨pair.1, pair.2, hpair, by simpa using hkind⟩
  have hdescribed : ∀ method ∈ [drawPoints, drawPoint], method.Describes pointArrays := by
    have hdescriptors : ∀ method ∈ [drawPoints, drawPoint],
        method.descriptor = pointArrays.methodDescriptor method.params method.returnTy := by
      decide +kernel
    exact fun method hmethod => ⟨htypes method hmethod, hdescriptors method hmethod⟩
  have hkeys : MethodEntry.KeysApart pointClass.ty (drawPoints :: pointClass.methods) := by
    unfold MethodEntry.KeysApart
    decide +kernel
  obtain ⟨hparams, hclash⟩ := descriptors_decode hevolves
  refine ⟨hevolves, hdescribed, hkeys, fun heq => ?_, fun herror => ?_⟩
  · have hsame := (hparams _ _ _ _ (htypes drawPoint (by simp)) (htypes drawPoints (by simp))).mp heq
    exact absurd hsame.1 (by decide +kernel)
  · obtain ⟨known, hknown, -, hsame, -⟩ :=
      (hclash pointClass drawPoints hdescribed hkeys).mp herror
    rw [List.mem_singleton.mp hknown] at hsame
    exact absurd hsame (by decide +kernel)

end Registry

end ClassCompiler
