import ClassCompiler.Proofs.Unit.Analysis

/-!
# Methods of an analyzed unit

Where the methods of an analyzed unit come from: each is what the analysis of a stubbed method
answers with, and stubs leave the bodies alone. What the analysis of one method does thus holds of
all methods of a unit, with errors or without.

* `MethodDecl.CheckedFrom`
* `Compiler.analyze_have`, `Compiler.analyze_methods`
-/

namespace ClassCompiler

open Check

namespace MethodDecl

/-- A method that is ready for its analysis, its body as it was parsed. -/
structure StubOf (parsed method : MethodDecl) : Prop where
  isStubbed : method.state = .stubbed
  signature : ∃ signature, method.signature = some signature
  body_eq : method.body = parsed.body

/-- The outcome of an analysis that reported some of the errors. -/
def CheckedFrom (parsed : MethodDecl) (errors : List CompileError) (method : MethodDecl) : Prop :=
  ∃ given, parsed.StubOf given ∧ ∃ (site : Site) (registry : Registry),
    method = ((given.check site).run registry).value
      ∧ ((given.check site).run registry).errors ⊆ errors

theorem CheckedFrom.mono {parsed method : MethodDecl} {errors more : List CompileError}
    (h : parsed.CheckedFrom errors method) (hsub : errors ⊆ more) :
    parsed.CheckedFrom more method := by
  obtain ⟨given, hgiven, site, registry, hvalue, herrors⟩ := h
  exact ⟨given, hgiven, site, registry, hvalue, fun _ herror => hsub (herrors herror)⟩

theorem stub_gives (method : MethodDecl) : method.stub.Gives method.StubOf := by
  unfold stub
  exact gives_then fun _ => gives_then fun _ => gives_then fun signature => gives_then fun _ =>
    gives_then fun _ => gives_then fun _ => gives_pure ⟨rfl, ⟨signature, rfl⟩, rfl⟩

end MethodDecl

/-! ## Stubs -/

/-- What holds of the methods among the members. -/
def MethodsHave (P : MethodDecl → Prop) (members : List Member) : Prop :=
  ∀ method, .method method ∈ members → P method

section

variable {P Q : MethodDecl → Prop} {members rest : List Member}

theorem methodsHave_nil : MethodsHave P [] := fun _ h => (List.not_mem_nil h).elim

theorem methodsHave_field {field : FieldDecl} (h : MethodsHave P rest) :
    MethodsHave P (.field field :: rest) := by
  intro method hmethod
  rcases List.mem_cons.mp hmethod with heq | hmethod
  · cases heq
  · exact h method hmethod

theorem methodsHave_method {method : MethodDecl} (hmethod : P method) (h : MethodsHave P rest) :
    MethodsHave P (.method method :: rest) := by
  intro other hother
  rcases List.mem_cons.mp hother with heq | hother
  · cases heq
    exact hmethod
  · exact h other hother

theorem MethodsHave.tail {first : Member} (h : MethodsHave P (first :: rest)) :
    MethodsHave P rest := fun method hmethod => h method (List.mem_cons_of_mem _ hmethod)

theorem MethodsHave.mono (h : MethodsHave P members) (himp : ∀ method, P method → Q method) :
    MethodsHave Q members := fun method hmethod => himp method (h method hmethod)

theorem stubFields_have (h : MethodsHave P members) : (stubFields members).Gives (MethodsHave P) := by
  induction members with
  | nil => exact gives_pure methodsHave_nil
  | cons first rest ih =>
    cases first with
    | field field =>
      exact gives_then fun field => gives_bind (ih h.tail) fun out hout =>
        gives_pure (methodsHave_field hout)
    | method method =>
      exact gives_bind (ih h.tail) fun out hout =>
        gives_pure (methodsHave_method (h method List.mem_cons_self) hout)

theorem stubMethods_have (hstub : ∀ method, P method → method.stub.Gives Q)
    (h : MethodsHave P members) : (stubMethods members).Gives (MethodsHave Q) := by
  induction members with
  | nil => exact gives_pure methodsHave_nil
  | cons first rest ih =>
    cases first with
    | field field =>
      exact gives_bind (ih h.tail) fun out hout => gives_pure (methodsHave_field hout)
    | method method =>
      exact gives_bind (hstub method (h method List.mem_cons_self)) fun one hone =>
        gives_bind (ih h.tail) fun out hout => gives_pure (methodsHave_method hone hout)

end

/-- A declared class with methods that satisfy a property. -/
def ClassDecl.Has (P : MethodDecl → Prop) (decl : ClassDecl) : Prop :=
  decl.ty.isSome = true ∧ MethodsHave P decl.members

section

variable {P Q : MethodDecl → Prop} (options : Options)
  (hstub : ∀ method, P method → method.stub.Gives Q)

include hstub

theorem ClassDecl.stub_have (ty : Ty) {decl : ClassDecl} (h : decl.Has P) :
    (decl.stub options ty).Gives fun out => out.1.Has Q := by
  have hmembers : (stubMembers options decl.members).Gives (MethodsHave Q) :=
    gives_bind (stubFields_have h.2) fun members hmembers => gives_then fun _ =>
      stubMethods_have hstub hmembers
  unfold stub
  exact gives_then fun supertypes => gives_then fun _ state => ⟨h.1, hmembers _⟩

theorem stubClasses_have {decls : List ClassDecl} (h : ∀ decl ∈ decls, decl.Has P) :
    (stubClasses options decls).Gives fun out => ∀ decl ∈ out.1, decl.Has Q := by
  induction decls with
  | nil => exact gives_pure fun decl hdecl => (List.not_mem_nil hdecl).elim
  | cons first rest ih =>
    have hfirst := h first List.mem_cons_self
    obtain ⟨ty, hty⟩ := Option.isSome_iff_exists.mp hfirst.1
    unfold stubClasses
    rw [hty]
    refine gives_bind (ClassDecl.stub_have options hstub ty hfirst) fun one hone =>
      gives_bind (ih fun decl hdecl => h decl (List.mem_cons_of_mem _ hdecl)) fun out hout =>
      gives_pure fun decl hdecl => ?_
    rcases List.mem_cons.mp hdecl with rfl | hdecl
    · exact hone
    · exact hout decl hdecl

end

/-! ## Bodies -/

section

variable {parsed : List MethodDecl}

/-- The method comes from one of the parsed ones. -/
def FromStub (parsed : List MethodDecl) (method : MethodDecl) : Prop :=
  ∃ origin ∈ parsed, origin.StubOf method

/-- The method has been analyzed, and comes from one of the parsed ones. -/
def FromCheck (parsed : List MethodDecl) (errors : List CompileError) (method : MethodDecl) : Prop :=
  ∃ origin ∈ parsed, origin.CheckedFrom errors method

theorem FromCheck.mono {errors more : List CompileError} {method : MethodDecl}
    (h : FromCheck parsed errors method) (hsub : errors ⊆ more) : FromCheck parsed more method := by
  obtain ⟨origin, horigin, hchecked⟩ := h
  exact ⟨origin, horigin, hchecked.mono hsub⟩

theorem Member.checkList_from (site : Site) {members : List Member}
    (h : MethodsHave (FromStub parsed) members) (registry : Registry) :
    MethodsHave (FromCheck parsed ((checkList site members).run registry).errors)
      ((checkList site members).run registry).value := by
  induction members generalizing registry with
  | nil => exact methodsHave_nil
  | cons first rest ih =>
    have hrest := ih h.tail ((first.check site).run registry).state
    have hrest' : MethodsHave
        (FromCheck parsed ((checkList site (first :: rest)).run registry).errors) _ :=
      hrest.mono fun method hmethod => hmethod.mono fun error herror =>
        List.mem_append_right _ (List.mem_append_left _ herror)
    cases first with
    | field field => exact methodsHave_field hrest'
    | method method =>
      obtain ⟨origin, horigin, hstub⟩ := h method List.mem_cons_self
      have hcheck : Member.check site (.method method) = .method <$> method.check site :=
        if_pos hstub.isStubbed
      have hfirst : FromCheck parsed ((checkList site (.method method :: rest)).run registry).errors
          ((method.check site).run registry).value := by
        refine ⟨origin, horigin, method, hstub, site, registry, rfl, fun error herror => ?_⟩
        refine List.mem_append_left _ ?_
        rw [hcheck]
        exact List.mem_append_left _ herror
      have hvalue : ((Member.check site (.method method)).run registry).value
          = .method ((method.check site).run registry).value := by rw [hcheck]; rfl
      show MethodsHave _ (_ :: _)
      rw [hvalue]
      exact methodsHave_method hfirst hrest'

theorem ClassDecl.checkList_from (classes : ClassTable) {decls : List ClassDecl}
    (h : ∀ decl ∈ decls, decl.Has (FromStub parsed)) (registry : Registry) :
    ∀ decl ∈ ((checkList classes decls).run registry).value,
      MethodsHave (FromCheck parsed ((checkList classes decls).run registry).errors)
        decl.members := by
  induction decls generalizing registry with
  | nil => exact fun decl hdecl => (List.not_mem_nil hdecl).elim
  | cons first rest ih =>
    intro decl hdecl
    obtain ⟨hsome, hmembers⟩ := h first List.mem_cons_self
    obtain ⟨owner, howner⟩ := Option.isSome_iff_exists.mp hsome
    rcases List.mem_cons.mp hdecl with rfl | hdecl
    · have hcheck : first.check classes = (do
          let members ← Member.checkList { classes, owner } first.members
          return { first with members }) := by
        unfold check
        rw [howner]
      have hfirst := Member.checkList_from ⟨classes, owner⟩ hmembers registry
      rw [hcheck]
      refine hfirst.mono fun method hmethod => hmethod.mono fun error herror => ?_
      refine List.mem_append_left _ ?_
      rw [hcheck]
      exact List.mem_append_left _ herror
    · exact (ih (fun decl hdecl => h decl (List.mem_cons_of_mem _ hdecl)) _ decl hdecl).mono
        fun method hmethod => hmethod.mono fun error herror =>
          List.mem_append_right _ (List.mem_append_left _ herror)

end

/-! What every analysis of a stubbed method leads to, whatever the registry. -/

section

variable {P Q : MethodDecl → Prop} (hstubbed : ∀ method, P method → method.state = .stubbed)

include hstubbed

theorem Member.checkList_have (site : Site) {members : List Member}
    (hcheck : ∀ method, P method → (method.check site).Gives Q) (h : MethodsHave P members) :
    (checkList site members).Gives (MethodsHave Q) := by
  have hone : ∀ member ∈ members, (member.check site).Gives
      fun out => ∀ method, out = .method method → Q method := by
    intro member hmember
    cases member with
    | field field => exact gives_pure fun method heq => by cases heq
    | method method =>
      have hmethod := h method hmember
      rw [show Member.check site (.method method) = .method <$> method.check site from
        if_pos (hstubbed method hmethod)]
      refine gives_map ((hcheck method hmethod).mono fun out hout other heq => ?_)
      cases heq
      exact hout
  clear h hcheck
  induction members with
  | nil => exact gives_pure methodsHave_nil
  | cons first rest ih =>
    unfold checkList
    refine gives_bind (hone first List.mem_cons_self) fun out hout => gives_bind
      (ih fun member hmember => hone member (List.mem_cons_of_mem _ hmember)) fun others hothers =>
      gives_pure fun method hmethod => ?_
    rcases List.mem_cons.mp hmethod with heq | hmethod
    · exact hout method heq.symm
    · exact hothers method hmethod

theorem ClassDecl.checkList_have (classes : ClassTable) {decls : List ClassDecl}
    (hcheck : ∀ owner method, P method → (method.check ⟨classes, owner⟩).Gives Q)
    (h : ∀ decl ∈ decls, decl.Has P) :
    (checkList classes decls).Gives fun out => ∀ decl ∈ out, MethodsHave Q decl.members := by
  induction decls with
  | nil => exact gives_pure fun decl hdecl => (List.not_mem_nil hdecl).elim
  | cons first rest ih =>
    obtain ⟨hsome, hmembers⟩ := h first List.mem_cons_self
    obtain ⟨owner, howner⟩ := Option.isSome_iff_exists.mp hsome
    have hfirst : (first.check classes).Gives fun out => MethodsHave Q out.members := by
      unfold check
      rw [howner]
      exact gives_bind (Member.checkList_have hstubbed ⟨classes, owner⟩ (hcheck owner) hmembers)
        fun out hout => gives_pure hout
    unfold checkList
    refine gives_bind hfirst fun one hone => gives_bind
      (ih fun decl hdecl => h decl (List.mem_cons_of_mem _ hdecl)) fun out hout =>
      gives_pure fun decl hdecl => ?_
    rcases List.mem_cons.mp hdecl with rfl | hdecl
    · exact hone
    · exact hout decl hdecl

end

/-! ## Units -/

namespace Compiler

/-- The methods of an analyzed unit have what their analysis among its classes gives them. -/
theorem analyze_have (options : Options) (unit : CompilationUnit) (registry : Registry)
    {Q : MethodDecl → Prop} (hcheck : ∀ owner (parsed method : MethodDecl), parsed.StubOf method →
      (method.check ⟨((analyze options unit).run registry).value.2.classes, owner⟩).Gives Q) :
    ∀ method ∈ ((analyze options unit).run registry).value.1.methods, Q method := by
  have hdeclared : ∀ decl ∈ declaredTypes unit, decl.Has fun _ => True := by
    intro decl hdecl
    obtain ⟨given, -, rfl⟩ := List.mem_map.mp hdecl
    exact ⟨rfl, fun _ _ => trivial⟩
  have hstubs : (stubClasses options (declaredTypes unit)).Gives fun out =>
      ∀ decl ∈ out.1, decl.Has fun method => ∃ parsed : MethodDecl, parsed.StubOf method :=
    stubClasses_have options (fun parsed _ => (MethodDecl.stub_gives parsed).mono
      fun method hmethod => ⟨parsed, hmethod⟩) hdeclared
  intro method hmethod
  rw [value_analyze] at hmethod hcheck
  obtain ⟨decl, hdecl, hmember⟩ := CompilationUnit.mem_methods.mp hmethod
  exact ClassDecl.checkList_have (fun _ ⟨_, hstub⟩ => hstub.isStubbed) _
    (fun owner method ⟨parsed, hstub⟩ => hcheck owner parsed method hstub)
    (hstubs _) _ decl hdecl method hmember

/-- Every method of an analyzed unit comes from a method of the unit. -/
theorem analyze_methods (options : Options) (unit : CompilationUnit) (registry : Registry) :
    ∀ method ∈ ((analyze options unit).run registry).value.1.methods,
      FromCheck unit.methods ((analyze options unit).run registry).errors method := by
  have hdeclared : ∀ decl ∈ declaredTypes unit, decl.Has (· ∈ unit.methods) := by
    intro decl hdecl
    obtain ⟨given, hgiven, rfl⟩ := List.mem_map.mp hdecl
    exact ⟨rfl, fun method hmethod => CompilationUnit.mem_methods.mpr ⟨given, hgiven, hmethod⟩⟩
  have hstubs : (stubClasses options (declaredTypes unit)).Gives fun out =>
      ∀ decl ∈ out.1, decl.Has (FromStub unit.methods) :=
    stubClasses_have options (fun parsed hparsed => (MethodDecl.stub_gives parsed).mono
      fun method hmethod => ⟨parsed, hparsed, hmethod⟩) hdeclared
  intro method hmethod
  rw [value_analyze] at hmethod
  rw [errors_analyze]
  obtain ⟨decl, hdecl, hmember⟩ := CompilationUnit.mem_methods.mp hmethod
  refine (ClassDecl.checkList_from _ (hstubs _) _ decl hdecl method hmember).mono
    fun error herror => List.mem_append_right _ (List.mem_append_right _ ?_)
  exact List.mem_append_right _ (List.mem_append_left _ herror)

end Compiler

end ClassCompiler
