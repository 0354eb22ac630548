import Mathlib.Data.List.Forall2
import ClassCompiler.ClassTable
import ClassCompiler.Proofs.Registry

/-!
# Sound class tables

The members of the classes of a unit have types that code can be generated for, and a member that a
look-up finds is one of them. The search goes along the ancestry, which of a primitive is the
primitive alone; so only references have members.

* `ClassTable.Sound`
* `ClassTable.Sound.field`, `ClassTable.Sound.method`: what a look-up finds
-/

namespace ClassCompiler

/-! ## Soundness -/

/-- The descriptor of a method was written for these types in a sound registry. -/
def Describes (descriptor : String) (params : List Ty) (returnTy : Ty) : Prop :=
  ∃ registry : Registry, registry.Sound ∧ descriptor = registry.methodDescriptor params returnTy

structure MethodEntry.Sound (method : MethodEntry) : Prop where
  params : ∀ ty ∈ method.params, ty.IsValue
  returnTy : method.returnTy ≠ .any
  descriptor : Describes method.descriptor method.params method.returnTy

structure ClassInfo.Sound (info : ClassInfo) : Prop where
  ty : info.ty.isReference = true
  fields : ∀ field ∈ info.fields, field.ty.IsValue
  methods : ∀ method ∈ info.methods, method.Sound

def ClassTable.Sound (table : ClassTable) : Prop := ∀ info ∈ table.classes, info.Sound

/-- A resolved method can be called with arguments of these types. -/
structure MethodRef.Takes (method : MethodRef) (params args : List Ty) : Prop where
  values : ∀ ty ∈ params, ty.IsValue
  stores : List.Forall₂ Ty.Stores params args
  returnTy : method.returnTy ≠ .any
  descriptor : Describes method.descriptor params method.returnTy

theorem MethodRef.Takes.args_isValue {method : MethodRef} {params args : List Ty}
    (h : method.Takes params args) : ∀ ty ∈ args, ty.IsValue := by
  obtain ⟨hvalues, hstores, -, -⟩ := h
  induction hstores with
  | nil => exact fun _ hty => (List.not_mem_nil hty).elim
  | cons hfirst _ ih =>
    intro ty hty
    rcases List.mem_cons.mp hty with rfl | hty
    · exact hfirst.isValue (hvalues _ List.mem_cons_self)
    · exact ih (fun ty hty => hvalues ty (List.mem_cons_of_mem _ hty)) ty hty

/-- An argument has the kind of its parameter. -/
theorem MethodRef.Takes.kinds_eq {method : MethodRef} {params args : List Ty}
    (h : method.Takes params args) : args.map Ty.kind = params.map Ty.kind := by
  have hstores := h.stores
  clear h
  induction hstores with
  | nil => rfl
  | cons hstores _ ih => rw [List.map_cons, List.map_cons, hstores.kind_eq, ih]

/-! ## Ancestry -/

theorem Registry.Sound.ancestors_prim {registry : Registry} (h : registry.Sound) (p : Prim) :
    registry.ancestors (.prim p) = [.prim p] := by
  unfold Registry.ancestors Registry.visitBound
  rw [Nat.add_comm]
  unfold Registry.visit
  rw [if_neg (by simp), h.prim_supertypes p]
  generalize (registry.entries.values.flatMap fun entry => entry.supertypes).length = fuel
  cases fuel <;> rfl

namespace ClassTable

variable {table : ClassTable} {registry : Registry} {ty : Ty} {name : String}

theorem mem_of_class? {info : ClassInfo} (h : table.class? ty = some info) :
    info ∈ table.classes ∧ info.ty = ty := by
  refine ⟨List.mem_of_find?_eq_some h, ?_⟩
  have := List.find?_some h
  exact beq_iff_eq.mp this

/-- A class that a search along the ancestry meets. -/
theorem Sound.of_mem_hierarchy (h : table.Sound) (hr : registry.Sound) (hty : ty ≠ .any)
    {info : ClassInfo} (hinfo : info ∈ table.hierarchy registry ty) :
    info.Sound ∧ ty.isReference = true := by
  obtain ⟨ancestor, hancestor, hclass⟩ := List.mem_filterMap.mp hinfo
  obtain ⟨hmem, rfl⟩ := mem_of_class? hclass
  have hsound := h info hmem
  refine ⟨hsound, ?_⟩
  rcases ty.cases with ⟨p, rfl⟩ | href | hany
  · rw [hr.ancestors_prim p, List.mem_singleton] at hancestor
    have := hsound.ty
    rw [hancestor, Ty.isReference_prim] at this
    cases this
  · exact href
  · exact absurd hany hty

theorem Sound.field (h : table.Sound) (hr : registry.Sound) (hty : ty ≠ .any) {ref : FieldRef}
    (hf : table.lookupField? registry ty name = some ref) :
    ref.ty.IsValue ∧ ty.isReference = true := by
  obtain ⟨info, hinfo, hfield⟩ := List.exists_of_findSome?_eq_some hf
  obtain ⟨hsound, href⟩ := h.of_mem_hierarchy hr hty hinfo
  obtain ⟨field, hfound, rfl⟩ := Option.map_eq_some_iff.mp hfield
  exact ⟨hsound.fields field (List.mem_of_find?_eq_some hfound), href⟩

/-! ## Methods -/

theorem mem_candidates {arity : Nat} {info : ClassInfo} {method : MethodEntry}
    (h : (info, method) ∈ table.candidates registry ty name arity) :
    info ∈ table.hierarchy registry ty ∧ method ∈ info.methods ∧ method.params.length = arity := by
  obtain ⟨info', hinfo, hmethod⟩ := List.mem_flatMap.mp h
  obtain ⟨method', hmem, heq⟩ := List.mem_map.mp hmethod
  cases heq
  obtain ⟨hnamed, hlength⟩ := List.mem_filter.mp hmem
  exact ⟨hinfo, (List.mem_filter.mp hnamed).1, beq_iff_eq.mp hlength⟩

theorem stores_of_accepts {method : MethodEntry} {args : List Ty}
    (hparams : ∀ ty ∈ method.params, ty.IsValue) (hargs : ∀ ty ∈ args, ty ≠ .any)
    (hlength : method.params.length = args.length)
    (h : method.acceptsExactly args = true ∨ method.acceptsWidened registry args = true) :
    List.Forall₂ Ty.Stores method.params args := by
  rw [List.forall₂_iff_zip]
  refine ⟨hlength, fun {param arg} hmem => ?_⟩
  have hparam := (hparams param (List.of_mem_zip hmem).1).1
  have harg := hargs arg (List.of_mem_zip hmem).2
  rcases h with h | h
  · exact Ty.stores_of_matchesExpected hparam harg (List.all_eq_true.mp h _ hmem)
  · exact Ty.stores_of_assignable hparam harg (List.all_eq_true.mp h _ hmem)

theorem Sound.method (h : table.Sound) (hr : registry.Sound) (hty : ty ≠ .any) {args : List Ty}
    (hargs : ∀ ty ∈ args, ty ≠ .any) {ref : MethodRef}
    (hm : table.lookupMethod? registry ty name args = some ref) :
    (∃ params, ref.Takes params args) ∧ ty.isReference = true := by
  unfold lookupMethod? at hm
  obtain ⟨⟨info, method⟩, hchosen, rfl⟩ := Option.map_eq_some_iff.mp hm
  have haccepts : (info, method) ∈ table.candidates registry ty name args.length
      ∧ (method.acceptsExactly args = true ∨ method.acceptsWidened registry args = true) := by
    rcases Option.or_eq_some_iff.mp hchosen with hexact | ⟨-, hwidened⟩
    · have haccept := List.find?_some hexact
      exact ⟨List.mem_of_find?_eq_some hexact, .inl haccept⟩
    · have haccept := List.find?_some hwidened
      exact ⟨List.mem_of_find?_eq_some hwidened, .inr haccept⟩
  obtain ⟨hmem, haccepts⟩ := haccepts
  obtain ⟨hinfo, hmethod, hlength⟩ := mem_candidates hmem
  obtain ⟨hsound, href⟩ := h.of_mem_hierarchy hr hty hinfo
  have hentry := hsound.methods method hmethod
  refine ⟨⟨method.params, hentry.params, ?_, hentry.returnTy, hentry.descriptor⟩, href⟩
  exact stores_of_accepts hentry.params hargs hlength haccepts

end ClassTable

end ClassCompiler
