import ClassCompiler.Compiler
import ClassCompiler.Proofs.Body.Method
import ClassCompiler.Proofs.Growth

/-!
# Steps that resolve names

Between the declaration of the classes of a unit and the end of its analysis, names are resolved and
supertypes are set; no step changes the registry in any other way. So a relation of registries that
goes along with every name that is resolved goes along with members and bodies, whatever they look
like and whatever is wrong with them.

* `Registry.Resolving`: such a relation
* `stubMembers_along`, `ClassDecl.resolveSupertypes_along`, `ClassDecl.checkList_along`
-/

namespace ClassCompiler

open Check BodyState

/-! ## Relations -/

/-- A relation of registries that goes along with every name that is resolved. -/
class Registry.Resolving (R : Registry → Registry → Prop) : Prop extends IsPreorder Registry R where
  resolve : ∀ {registry later : Registry} {name : TypeName} {ty : Ty},
    registry.resolve name = .ok (ty, later) → R registry later

namespace Check

variable {σ α β : Type} [Knows σ] {R : Registry → Registry → Prop}

/-- The registries of two states are related. -/
def Along (R : Registry → Registry → Prop) (s e : σ) : Prop :=
  R (Knows.registry s) (Knows.registry e)

variable [Registry.Resolving R]

instance : IsPreorder σ (Along R) where
  refl s := refl_of R (Knows.registry s)
  trans _ _ _ h h' := trans_of R h h'

theorem along_of_registry_eq {step : Check σ α}
    (h : ∀ state, Knows.registry (step.run state).state = Knows.registry state) :
    step.Keeps (Along R) := fun state => by
  unfold Along
  rw [h]
  exact refl_of R _

theorem along_optional {step : α → Check σ β} (part : Option α)
    (h : ∀ a, part = some a → (step a).Keeps (Along R)) :
    (optional step part).Keeps (Along R) := by
  cases part with
  | none => exact keeps_pure _
  | some a => exact keeps_map _ (h a rfl)

end Check

variable {R : Registry → Registry → Prop} [Registry.Resolving R]

theorem Registry.along_resolveOrAny (registry : Registry) (valueOnly : Bool) (name : TypeName) :
    R registry (registry.resolveOrAny valueOnly name).2.1 := by
  unfold resolveOrAny
  split
  · next ty resolved hok =>
    split at hok
    · exact Resolving.resolve (resolveValue_eq_ok_iff.mp hok).1
    · exact Resolving.resolve hok
  · exact refl_of R registry

/-! ## Stubs -/

theorem resolveName_along (valueOnly : Bool) (name : TypeName) :
    (resolveName valueOnly name).Keeps (Along R) := fun registry =>
  Registry.along_resolveOrAny (R := R) registry valueOnly name

theorem resolveParams_along (params : List FormalParam) :
    (resolveParams params).Keeps (Along R) := by
  induction params with
  | nil => exact keeps_pure _
  | cons first rest ih =>
    exact keeps_bind (resolveName_along _ _) fun _ => keeps_bind ih fun _ => keeps_pure _

theorem resolveExceptions_along (line : Nat) (names : List TypeName) :
    (resolveExceptions line names).Keeps (Along R) := by
  induction names with
  | nil => exact keeps_pure _
  | cons first rest ih =>
    exact keeps_bind (resolveName_along _ _) fun _ => keeps_bind (keeps_read _) fun _ =>
      keeps_bind (keeps_note _ _) fun _ => keeps_bind ih fun _ => keeps_pure _

namespace StubState

omit [Registry.Resolving R] in
theorem onRegistry_along {α : Type} {step : Check Registry α} (h : step.Keeps (Along R)) :
    (onRegistry step).Keeps (Along R) := fun state => h state.registry

theorem addField_along (field : FieldEntry) (descriptor : String) :
    (addField field descriptor).Keeps (Along R) := by
  refine along_of_registry_eq fun state => ?_
  unfold addField Check.run
  dsimp only
  split <;> rfl

end StubState

open StubState

theorem FieldDecl.stub_along (field : FieldDecl) : field.stub.Keeps (Along R) := by
  unfold stub
  exact keeps_bind (onRegistry_along (resolveName_along _ _)) fun _ =>
    keeps_bind (keeps_read _) fun _ => keeps_bind (keeps_read _) fun _ =>
    keeps_bind (keeps_forM _ fun _ => addField_along _ _) fun _ => keeps_pure _

theorem MethodDecl.stub_along (method : MethodDecl) : method.stub.Keeps (Along R) := by
  have hsignature : method.resolveSignature.Keeps (Along R) := by
    unfold resolveSignature
    exact keeps_bind (resolveExceptions_along _ _) fun _ =>
      keeps_bind (resolveParams_along _) fun _ =>
      keeps_bind (resolveName_along _ _) fun _ =>
      keeps_bind (keeps_read _) fun _ => keeps_pure _
  unfold stub
  exact keeps_bind (keeps_read _) fun _ => keeps_bind (keeps_note _ _) fun _ =>
    keeps_bind (onRegistry_along hsignature) fun _ => keeps_bind (keeps_note _ _) fun _ =>
    keeps_bind (keeps_read _) fun _ =>
    keeps_bind (along_of_registry_eq fun _ => rfl) fun _ => keeps_pure _

theorem stubFields_along (members : List Member) : (stubFields members).Keeps (Along R) := by
  induction members with
  | nil => exact keeps_pure _
  | cons first rest ih =>
    cases first with
    | field field =>
      exact keeps_bind field.stub_along fun _ => keeps_bind ih fun _ => keeps_pure _
    | method method => exact keeps_bind ih fun _ => keeps_pure _

theorem stubMethods_along (members : List Member) : (stubMethods members).Keeps (Along R) := by
  induction members with
  | nil => exact keeps_pure _
  | cons first rest ih =>
    cases first with
    | field field => exact keeps_bind ih fun _ => keeps_pure _
    | method method =>
      exact keeps_bind method.stub_along fun _ => keeps_bind ih fun _ => keeps_pure _

theorem stubMembers_along (options : Options) (members : List Member) :
    (stubMembers options members).Keeps (Along R) := by
  unfold stubMembers
  refine keeps_bind (stubFields_along members) fun fields =>
    keeps_bind (along_of_registry_eq fun state => ?_) fun _ => stubMethods_along fields
  rw [run_modify]
  dsimp only
  split <;> rfl

/-! ## Supertypes -/

theorem resolveSupertype_along (interfaceWanted : Bool) (name : TypeName) :
    (resolveSupertype interfaceWanted name).Keeps (Along R) := by
  intro registry
  unfold resolveSupertype Check.run
  dsimp only
  split
  · exact refl_of R registry
  · next ty resolved hresolve =>
    generalize (if interfaceWanted then TypeKind.interface else .plainClass) = wanted
    split <;> exact Registry.Resolving.resolve (R := R) hresolve

theorem resolveInterfaces_along (names : List TypeName) :
    (resolveInterfaces names).Keeps (Along R) := by
  induction names with
  | nil => exact keeps_pure _
  | cons first rest ih =>
    exact keeps_bind (resolveSupertype_along true first) fun _ => keeps_bind ih fun _ =>
      keeps_pure _

theorem ClassDecl.resolveSupertypes_along (decl : ClassDecl) :
    decl.resolveSupertypes.Keeps (Along R) := by
  unfold resolveSupertypes
  dsimp only
  split
  · exact keeps_bind (resolveSupertype_along false _) fun _ =>
      keeps_bind (resolveInterfaces_along _) fun _ => keeps_pure _
  · exact keeps_bind (keeps_pure _) fun _ =>
      keeps_bind (resolveInterfaces_along _) fun _ => keeps_pure _

/-! ## Bodies -/

section

variable (site : Site)

theorem onScope_along {α : Type} (step : ExprEnv → Check Scope α) :
    (onScope site step).Keeps (Along R) := along_of_registry_eq fun _ => rfl

theorem changeScope_along (change : Scope → Scope) : (changeScope change).Keeps (Along R) :=
  along_of_registry_eq fun _ => rfl

theorem Expr.checkStatements_along (es : List Expr) :
    (Expr.checkStatements site es).Keeps (Along R) := by
  induction es with
  | nil => exact keeps_pure _
  | cons first rest ih =>
    exact keeps_bind (onScope_along site _) fun _ => keeps_bind ih fun _ => keeps_pure _

theorem Declarator.check_along (ty : Ty) (declarator : Declarator) :
    (declarator.check site ty).Keeps (Along R) := by
  unfold check
  refine keeps_bind (along_of_registry_eq fun state => ?_) fun slot => ?_
  · unfold declareLocal Check.run
    dsimp only
    split <;> rfl
  · dsimp only
    split
    · exact keeps_pure _
    · exact keeps_bind (onScope_along site _) fun _ => keeps_pure _

theorem Declarator.checkList_along (ty : Ty) (declarators : List Declarator) :
    (checkList site ty declarators).Keeps (Along R) := by
  induction declarators with
  | nil => exact keeps_pure _
  | cons first rest ih =>
    exact keeps_bind (first.check_along site ty) fun _ => keeps_bind ih fun _ => keeps_pure _

theorem LocalDecl.check_along (decl : LocalDecl) : (decl.check site).Keeps (Along R) :=
  keeps_bind (fun state => Registry.along_resolveOrAny (R := R) state.registry true decl.type) fun ty =>
    keeps_bind (Declarator.checkList_along site ty _) fun _ => keeps_pure _

theorem ForInit.check_along (init : ForInit) : (init.check site).Keeps (Along R) := by
  cases init with
  | exprs es => exact keeps_map _ (Expr.checkStatements_along site es)
  | decl d => exact keeps_map _ (d.check_along site)

namespace Stmt

theorem checkList_along {stmts : List Stmt} (h : ∀ s ∈ stmts, (s.check site).Keeps (Along R)) :
    (checkList site stmts).Keeps (Along R) := by
  induction stmts with
  | nil => exact keeps_pure _
  | cons first rest ih =>
    exact keeps_bind (h first List.mem_cons_self) fun _ =>
      keeps_bind (ih fun s hs => h s (List.mem_cons_of_mem _ hs)) fun _ => keeps_pure _

theorem check_along (s : Stmt) : (s.check site).Keeps (Along R) := by
  induction s using Stmt.induction with
  | block stmts line ih =>
    unfold check
    exact keeps_bind (changeScope_along _) fun _ =>
      keeps_bind (checkList_along site ih) fun _ =>
      keeps_bind (changeScope_along _) fun _ => keeps_pure _
  | declare decl =>
    unfold check
    exact keeps_map _ (decl.check_along site)
  | expr e line =>
    unfold check
    exact keeps_bind (onScope_along site _) fun _ => keeps_pure _
  | branch condition onTrue onFalse line ihTrue ihFalse =>
    rw [check_branch]
    exact keeps_bind (onScope_along site _) fun _ => keeps_bind (keeps_read _) fun _ =>
      keeps_bind ihTrue fun _ => keeps_bind (keeps_read _) fun _ =>
      keeps_bind (changeScope_along _) fun _ =>
      keeps_bind (along_optional onFalse ihFalse) fun _ => keeps_bind (keeps_read _) fun _ =>
      keeps_bind (changeScope_along _) fun _ => keeps_pure _
  | whileLoop condition body line ih =>
    unfold check
    exact keeps_bind (onScope_along site _) fun _ => keeps_bind (keeps_read _) fun _ =>
      keeps_bind (changeScope_along _) fun _ => keeps_bind ih fun _ =>
      keeps_bind (along_of_registry_eq fun _ => rfl) fun _ =>
      keeps_bind (changeScope_along _) fun _ => keeps_pure _
  | forLoop init condition update body line ih =>
    rw [check_forLoop]
    exact keeps_bind (changeScope_along _) fun _ =>
      keeps_bind (along_optional init fun i _ => i.check_along site) fun _ =>
      keeps_bind (along_optional condition fun _ _ => onScope_along site _) fun _ =>
      keeps_bind (keeps_read _) fun _ => keeps_bind (changeScope_along _) fun _ =>
      keeps_bind ih fun _ => keeps_bind (along_of_registry_eq fun _ => rfl) fun _ =>
      keeps_bind (Expr.checkStatements_along site update) fun _ =>
      keeps_bind (changeScope_along _) fun _ =>
      keeps_bind (changeScope_along _) fun _ => keeps_pure _
  | ret value line =>
    unfold check checkReturn
    exact keeps_bind (keeps_bind (onScope_along site _) fun _ =>
      keeps_bind (changeScope_along _) fun _ => keeps_pure _) fun _ => keeps_pure _
  | breakOut line =>
    unfold check
    refine keeps_bind (along_of_registry_eq fun state => ?_) fun _ => keeps_pure _
    unfold checkBreak Check.run
    dsimp only
    split <;> rfl
  | continueOn line =>
    unfold check checkContinue
    exact keeps_bind (keeps_bind (keeps_read _) fun _ => keeps_note _ _) fun _ => keeps_pure _
  | empty line =>
    unfold check
    exact keeps_pure _

end Stmt

theorem declareParams_along (params : List (FormalParam × Ty)) :
    (declareParams params).Keeps (Along R) := by
  induction params with
  | nil => exact keeps_pure _
  | cons first rest ih =>
    refine keeps_bind (along_of_registry_eq fun state => ?_) fun _ => ih
    unfold declareParam Check.run
    dsimp only
    split <;> rfl

theorem MethodDecl.check_along (method : MethodDecl) : (method.check site).Keeps (Along R) := by
  intro registry
  cases hsignature : method.signature with
  | none =>
    unfold check Check.run
    rw [hsignature]
    exact refl_of R registry
  | some signature =>
    have hbody : (method.checkBody site signature).Keeps (Along R) := by
      rw [checkBody_eq]
      refine keeps_bind (declareParams_along _) fun _ =>
        keeps_bind (along_optional method.body fun body _ => ?_) fun _ =>
        keeps_bind (keeps_read _) fun _ => keeps_pure _
      unfold Block.check
      exact keeps_bind (Stmt.checkList_along site fun s _ => s.check_along site)
        fun _ => keeps_bind (keeps_read _) fun _ => keeps_note _ _
    rw [run_check site hsignature]
    exact hbody ⟨registry, _⟩

theorem Member.checkList_along (members : List Member) :
    (checkList site members).Keeps (Along R) := by
  induction members with
  | nil => exact keeps_pure _
  | cons first rest ih =>
    refine keeps_bind ?_ fun _ => keeps_bind ih fun _ => keeps_pure _
    cases first with
    | field decl => exact keeps_pure _
    | method decl =>
      show (if decl.state = .stubbed then method <$> decl.check site
        else pure (method decl)).Keeps (Along R)
      split
      · exact keeps_map _ (decl.check_along site)
      · exact keeps_pure _

end

theorem ClassDecl.checkList_along (classes : ClassTable) (decls : List ClassDecl) :
    (checkList classes decls).Keeps (Along R) := by
  induction decls with
  | nil => exact keeps_pure _
  | cons first rest ih =>
    refine keeps_bind ?_ fun _ => keeps_bind ih fun _ => keeps_pure _
    unfold check
    split
    · exact keeps_pure _
    · exact keeps_bind (Member.checkList_along _ _) fun _ => keeps_pure _

end ClassCompiler
