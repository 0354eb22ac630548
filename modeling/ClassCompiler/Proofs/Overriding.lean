import ClassCompiler.Proofs.ClassTable
import ClassCompiler.Proofs.Inheritance

/-!
# Methods that override the one that a call means

The look-up takes the first method that fits in the order of the search, and the search exhausts
the superclass before it turns to the interfaces. A type between the receiver and the owner of the
method may declare the method anew and still come later, where some path of supertypes goes around
it. Classes lie on one path, so a method that is found in a class is never overridden; one that is
found in an interface can be.

* `ClassTable.Overrides`: a class that declares a method anew below its owner
* `ClassTable.lookup_bypasses`: what overrides a method that was found is bypassed
* `diamond_overridden`: such a method in a class with two interfaces
-/

namespace ClassCompiler

variable {table : ClassTable} {registry : Registry} {ty : Ty} {name : String}

namespace ClassTable

/-! ## The class of a candidate -/

/-- Classes that come before the one with the first candidate of a kind have no such candidate. -/
theorem find_candidates {arity : Nat} {fits : MethodEntry → Bool} {info : ClassInfo}
    {method : MethodEntry}
    (h : (table.candidates registry ty name arity).find? (fun candidate => fits candidate.2)
      = some (info, method)) :
    ∃ before after, registry.ancestors ty = before ++ info.ty :: after
      ∧ table.class? info.ty = some info
      ∧ ∀ sub ∈ before, ∀ other, table.class? sub = some other →
        ∀ found ∈ other.methods, found.name = name → found.params.length = arity →
          fits found = false := by
  unfold candidates at h
  rw [List.find?_flatMap, List.findSome?_eq_some_iff] at h
  obtain ⟨earlier, owner, later, hhierarchy, hfirst, hnone⟩ := h
  have howner : owner = info := by
    have hmem := List.mem_of_find?_eq_some hfirst
    obtain ⟨_, -, heq⟩ := List.mem_map.mp hmem
    cases heq
    rfl
  subst howner
  unfold hierarchy at hhierarchy
  obtain ⟨skipped, rest, hancestors, hskipped, hrest⟩ := List.filterMap_eq_append_iff.mp hhierarchy
  obtain ⟨outside, found, after, rfl, houtside, hclass, -⟩ := List.filterMap_eq_cons_iff.mp hrest
  have hty := (mem_of_class? hclass).2
  subst hty
  refine ⟨skipped ++ outside, after, by rw [hancestors, List.append_assoc], hclass, ?_⟩
  intro sub hsub other hother method hmethod hname harity
  have hearlier : other ∈ earlier := by
    rw [← hskipped]
    rcases List.mem_append.mp hsub with hsub | hsub
    · exact List.mem_filterMap.mpr ⟨sub, hsub, hother⟩
    · rw [houtside sub hsub] at hother
      cases hother
  have hcandidate : (other, method) ∈
      ((other.methodsNamed name).filter fun method => method.params.length == arity).map
        fun method => (other, method) := by
    simp [ClassInfo.methodsNamed, hmethod, hname, harity]
  have hfits := List.find?_eq_none.mp (hnone other hearlier) _ hcandidate
  simpa using hfits

/-! ## Overriding -/

/-- The class of a type between the receiver and the owner declares a method with the same name and
parameters. -/
structure Overrides (table : ClassTable) (registry : Registry) (receiver owner : Ty)
    (method : MethodEntry) (sub : Ty) : Prop where
  declares : ∃ other, table.class? sub = some other
    ∧ ∃ found ∈ other.methods, found.name = method.name ∧ found.params = method.params
  ne : sub ≠ owner
  receiver : registry.Inherits receiver sub
  owner : registry.Inherits sub owner

/-- The class and the method that a look-up answers with. -/
structure Finds (table : ClassTable) (ref : MethodRef) (name : String) (method : MethodEntry) :
    Prop where
  declares : ∃ info, table.class? ref.owner = some info ∧ method ∈ info.methods
  name : method.name = name
  ref : ref.descriptor = method.descriptor ∧ ref.returnTy = method.returnTy
    ∧ ref.isStatic = method.isStatic

/-- The search comes to the owner of the method around everything that overrides the method; where
every class has one superclass, the owner is then no class but `Object` or an interface. -/
theorem lookup_bypasses {args : List Ty} {ref : MethodRef}
    (h : table.lookupMethod? registry ty name args = some ref) :
    ∃ method, table.Finds ref name method
      ∧ ∀ sub, table.Overrides registry ty ref.owner method sub →
        registry.Bypasses sub ty ref.owner
          ∧ (registry.Regular → ¬registry.IsProperClass ref.owner) := by
  unfold lookupMethod? at h
  obtain ⟨⟨info, method⟩, hchosen, rfl⟩ := Option.map_eq_some_iff.mp h
  -- both searches test the parameters alone, so what overrides the method would have passed, too
  obtain ⟨fits, hparams, hfirst⟩ : ∃ fits : MethodEntry → Bool,
      (∀ one two, one.params = two.params → fits one = fits two)
      ∧ (table.candidates registry ty name args.length).find? (fun candidate => fits candidate.2)
        = some (info, method) := by
    rcases Option.or_eq_some_iff.mp hchosen with hexact | ⟨-, hwidened⟩
    · refine ⟨fun method => method.acceptsExactly args, fun one two heq => ?_, hexact⟩
      simp only [MethodEntry.acceptsExactly, heq]
    · refine ⟨fun method => method.acceptsWidened registry args, fun one two heq => ?_, hwidened⟩
      simp only [MethodEntry.acceptsWidened, heq]
  have hcandidate := List.mem_of_find?_eq_some hfirst
  obtain ⟨-, hmethod, harity⟩ := mem_candidates hcandidate
  have hname : method.name = name := by
    obtain ⟨other, -, hmem⟩ := List.mem_flatMap.mp hcandidate
    obtain ⟨found, hfound, heq⟩ := List.mem_map.mp hmem
    cases heq
    exact beq_iff_eq.mp (List.mem_filter.mp (List.mem_filter.mp hfound).1).2
  have hfits : fits method = true := by simpa using List.find?_some hfirst
  obtain ⟨before, after, hancestors, hclass, hbefore⟩ := find_candidates hfirst
  refine ⟨method, ⟨⟨info, hclass, hmethod⟩, hname, rfl, rfl, rfl⟩, fun sub hsub => ?_⟩
  obtain ⟨other, hother, found, hfound, hsame, hsameParams⟩ := hsub.declares
  have hlater : sub ∉ before := by
    intro hmem
    have hrefused := hbefore sub hmem other hother found hfound (hsame.trans hname)
      (by rw [hsameParams, harity])
    rw [hparams found method hsameParams, hfits] at hrefused
    cases hrefused
  have hpath := Registry.bypasses_of_ancestors hancestors hsub.ne hlater
  exact ⟨hpath, fun hregular hproper =>
    hregular.not_bypasses hproper hsub.receiver hsub.owner hsub.ne hpath⟩

end ClassTable

/-! ## An interface that is bypassed -/

/-- `J` extends the interface `I`, and the class `C` implements `J` and extends a class that
implements `I`. -/
def diamond : Registry :=
  let declared (registry : Registry) (internalName : String) (kind : TypeKind) (superclass : Ty)
      (interfaces : List Ty) : Registry :=
    registry.register { internalName, kind, superclass := some superclass, interfaces }
  let one := declared .builtin "I" .interface .object []
  let two := declared one "J" .interface .object [.named "I"]
  let base := declared two "B" .plainClass .object [.named "I"]
  declared base "C" .plainClass (.named "B") [.named "J"]

/-- A method `m` without parameters. -/
def diamondMethod : MethodEntry where
  name := "m"
  params := []
  returnTy := .int
  exceptions := []
  mods := Modifiers.accAbstract
  descriptor := "()I"
  line := 1

/-- Both interfaces declare `m`. -/
def diamondTable : ClassTable where
  classes := ["I", "J"].map fun name =>
    { ty := .named name
      name := name
      internalName := name
      isInterface := true
      mods := Modifiers.accAbstract
      methods := [diamondMethod] }

theorem regular_diamond : diamond.Regular := by
  apply Registry.regular_of_entries <;> decide +kernel

theorem overrides_diamond :
    diamondTable.Overrides diamond (.named "C") (.named "I") diamondMethod (.named "J") := by
  refine ⟨?_, by decide +kernel, .link .self (by decide +kernel), .link .self (by decide +kernel)⟩
  obtain ⟨info, hinfo⟩ := Option.isSome_iff_exists.mp
    (show (diamondTable.class? (.named "J")).isSome = true by decide +kernel)
  refine ⟨info, hinfo, diamondMethod, ?_, rfl, rfl⟩
  have hmethods : ∀ info ∈ diamondTable.classes, diamondMethod ∈ info.methods := by decide +kernel
  exact hmethods info (ClassTable.mem_of_class? hinfo).1

/-- The method of `I` is found in `C`, though `J` comes between them and declares it anew. -/
theorem diamond_overridden :
    diamond.Regular
      ∧ ((diamondTable.lookupMethod? diamond (.named "C") "m" []).map MethodRef.owner
        = some (.named "I"))
      ∧ diamondTable.Overrides diamond (.named "C") (.named "I") diamondMethod (.named "J") :=
  ⟨regular_diamond, by decide +kernel, overrides_diamond⟩

theorem lookup_bypasses_diamond :
    ∃ ref, diamondTable.lookupMethod? diamond (.named "C") "m" [] = some ref
      ∧ ref.owner = .named "I"
      ∧ diamond.Bypasses (.named "J") (.named "C") (.named "I")
      ∧ ¬diamond.IsProperClass (.named "I") := by
  obtain ⟨ref, href⟩ := Option.isSome_iff_exists.mp
    (show (diamondTable.lookupMethod? diamond (.named "C") "m" []).isSome = true by decide +kernel)
  have howner : ref.owner = .named "I" := by
    have hfound : (diamondTable.lookupMethod? diamond (.named "C") "m" []).map MethodRef.owner
        = some (.named "I") := by decide +kernel
    rw [href] at hfound
    exact Option.some.inj hfound
  obtain ⟨method, ⟨⟨info, hinfo, hmethod⟩, -, -⟩, hbypasses⟩ := ClassTable.lookup_bypasses href
  rw [howner] at hinfo hbypasses
  have hmethods : ∀ info ∈ diamondTable.classes, ∀ method ∈ info.methods,
      method = diamondMethod := by decide +kernel
  obtain rfl := hmethods info (ClassTable.mem_of_class? hinfo).1 method hmethod
  obtain ⟨hpath, hinterface⟩ := hbypasses _ overrides_diamond
  exact ⟨ref, href, howner, hpath, hinterface regular_diamond⟩

end ClassCompiler
