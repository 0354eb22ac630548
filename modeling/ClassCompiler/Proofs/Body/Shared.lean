import ClassCompiler.Proofs.Agreement
import ClassCompiler.Proofs.Ancestry
import ClassCompiler.Proofs.Body.Links
import Mathlib.Data.List.Find

/-!
# Bodies among registries that agree

Two registries may know different types and still say the same of every type that both know. The
analysis of a body cannot tell them apart, as long as the names in it mean the same in both: all
types that it comes across are types that both know.

* `Registry.Share`, `Registry.Agree`
* `Expr.check_same`: an expression among the locals and the classes that both registries know
-/

namespace ClassCompiler

open Check BodyState

/-! ## Registries that agree -/

namespace Registry

/-- Both registries know the type. -/
def Share (s t : Registry) (ty : Ty) : Prop := s.contains ty = true ∧ t.contains ty = true

/-- What is asked of the types that both registries know has the same answer in both, and the names
of a kind mean the same. -/
structure Agree (known : String → Prop) (s t : Registry) : Prop where
  prim : ∀ p, s.Share t (.prim p)
  fixed : ∀ ty ∈ [Ty.any, .null, .string], s.Share t ty
  names : ∀ name, known name → t.lookup? name = s.lookup? name
    ∧ ∀ ty, s.lookup? name = some ty → s.Share t ty
  kind? : ∀ ty, s.Share t ty → t.kind? ty = s.kind? ty
  element : ∀ ty element, s.Share t ty → s.elementType? ty = some element → s.Share t element
  displayName : ∀ ty, s.Share t ty → t.displayName ty = s.displayName ty
  ancestors : ∀ ty, s.Share t ty → t.ancestors ty = s.ancestors ty
  isAssignableFrom : ∀ target source, s.Share t target → s.Share t source →
    t.isAssignableFrom target source = s.isAssignableFrom target source

variable {known : String → Prop} {s t : Registry} {ty : Ty}

namespace Agree

theorem any (h : s.Agree known t) : s.Share t .any := h.fixed _ (by simp)

theorem string (h : s.Agree known t) : s.Share t .string := h.fixed _ (by simp)

theorem boolean (h : s.Agree known t) : s.Share t .boolean := h.prim .boolean

theorem elementType? (h : s.Agree known t) (hty : s.Share t ty) :
    t.elementType? ty = s.elementType? ty := by
  unfold Registry.elementType?
  rw [h.kind? ty hty]

theorem isArray (h : s.Agree known t) (hty : s.Share t ty) : t.isArray ty = s.isArray ty := by
  unfold Registry.isArray
  rw [h.elementType? hty]

theorem map_displayName (h : s.Agree known t) {types : List Ty}
    (htypes : ∀ ty ∈ types, s.Share t ty) :
    types.map t.displayName = types.map s.displayName :=
  List.map_congr_left fun ty hty => h.displayName ty (htypes ty hty)

end Agree

end Registry

variable {known : String → Prop} {s t : Registry}

/-! ## Typing -/

/-- Both registries know the type of the expression. -/
abbrev Expr.Shared (s t : Registry) (e : Expr) : Prop := s.Share t e.tyOrAny

section

variable (h : s.Agree known t)

include h

theorem expectType_agree {actual expected : Ty} (ha : s.Share t actual) (he : s.Share t expected)
    (line : Nat) : expectType t actual expected line = expectType s actual expected line := by
  unfold expectType
  rw [h.displayName actual ha, h.displayName expected he]

theorem expectOneOf_agree {actual : Ty} {expected : List Ty} (ha : s.Share t actual)
    (he : ∀ ty ∈ expected, s.Share t ty) (line : Nat) :
    expectOneOf t actual expected line = expectOneOf s actual expected line := by
  unfold expectOneOf
  rw [h.displayName actual ha, h.map_displayName he]

theorem refuseOperands_agree (symbol : String) {operands : List Ty}
    (ho : ∀ ty ∈ operands, s.Share t ty) (line : Nat) :
    refuseOperands t symbol operands line = refuseOperands s symbol operands line := by
  unfold refuseOperands
  rw [h.map_displayName ho]

theorem expectBoolean_agree {operand : Expr} (ho : operand.Shared s t) :
    expectBoolean t operand = expectBoolean s operand := expectType_agree h ho h.boolean _

theorem share_prims {types : List Ty} (htypes : ∀ ty ∈ types, ty.isPrimitive = true) :
    ∀ ty ∈ types, s.Share t ty := by
  intro ty hty
  obtain ⟨p, hp⟩ := Option.isSome_iff_exists.mp (htypes ty hty)
  rw [Ty.prim?_eq_some_iff.mp hp]
  exact h.prim p

theorem judgeElement_agree {array : Expr} (ha : array.Shared s t) (line : Nat) :
    judgeElement t array line = judgeElement s array line
      ∧ s.Share t ((judgeElement s array line).ty.getD .any) := by
  unfold judgeElement
  dsimp only
  rw [h.elementType? ha, h.displayName _ ha]
  split
  · exact ⟨rfl, h.any⟩
  · cases helement : s.elementType? array.tyOrAny with
    | none => exact ⟨rfl, h.any⟩
    | some element => exact ⟨rfl, h.element _ _ ha helement⟩

theorem judgeIndex_agree {array position : Expr} (ha : array.Shared s t)
    (hp : position.Shared s t) (line : Nat) :
    judgeIndex t array position line = judgeIndex s array position line
      ∧ s.Share t ((judgeIndex s array position line).ty.getD .any) := by
  obtain ⟨heq, hty⟩ := judgeElement_agree h ha line
  have hindex : ∀ ty ∈ indexTypes, s.Share t ty := share_prims h (by decide)
  unfold judgeIndex
  dsimp only
  rw [heq, expectOneOf_agree h hp hindex]
  exact ⟨rfl, hty⟩

theorem judgeLength_agree {array : Expr} (ha : array.Shared s t) (line : Nat) :
    judgeLength t array line = judgeLength s array line := by
  unfold judgeLength
  rw [(judgeElement_agree h ha line).1]

theorem judgeUnary_agree (op : UnaryOp) {operand : Expr} (ho : operand.Shared s t) (line : Nat) :
    judgeUnary t op operand line = judgeUnary s op operand line
      ∧ s.Share t ((judgeUnary s op operand line).ty.getD .any) := by
  have hoperands : ∀ ty ∈ [operand.tyOrAny], s.Share t ty := by simpa using ho
  have hrefuse := refuseOperands_agree h op.symbol hoperands line
  unfold judgeUnary
  dsimp only
  rw [hrefuse]
  refine ⟨rfl, ?_⟩
  split
  · exact h.any
  · split
    · exact h.any
    · cases hpromoted : unaryPromotion? operand.tyOrAny with
      | none => exact h.any
      | some promoted =>
        obtain ⟨-, p, -, -, rfl⟩ := unaryPromotion?_eq_some_iff.mp hpromoted
        exact h.prim p

theorem judgeBinary_agree (op : BinaryOp) {lhs rhs : Expr} (hl : lhs.Shared s t)
    (hr : rhs.Shared s t) (line : Nat) :
    judgeBinary t op lhs rhs line = judgeBinary s op lhs rhs line
      ∧ s.Share t ((judgeBinary s op lhs rhs line).ty.getD .any) := by
  have hoperands : ∀ ty ∈ [lhs.tyOrAny, rhs.tyOrAny], s.Share t ty := by
    intro ty hty
    rcases List.mem_pair.mp hty with rfl | rfl
    · exact hl
    · exact hr
  unfold judgeBinary
  dsimp only
  rw [refuseOperands_agree h op.symbol hoperands]
  refine ⟨rfl, ?_⟩
  split
  · exact h.any
  · cases hrule : resolveBinary? op lhs.tyOrAny rhs.tyOrAny with
    | none => exact h.any
    | some rule =>
      have hresult : ∃ p, rule.result = .prim p := by
        rcases resolveBinary?_eq_some hrule with ⟨-, -, rfl⟩ | ⟨p, -, -, -, -, -, rfl⟩
          | ⟨p, -, -, -, -, rfl⟩
        · exact ⟨.boolean, rfl⟩
        · exact ⟨p, rfl⟩
        · exact ⟨p, rfl⟩
      obtain ⟨p, hp⟩ := hresult
      dsimp only [Option.getD]
      rw [hp]
      exact h.prim p

theorem judgeIncrement_agree (op : IncrementOp) {operand : Expr} (ho : operand.Shared s t)
    (line : Nat) : judgeIncrement t op operand line = judgeIncrement s op operand line
      ∧ s.Share t ((judgeIncrement s op operand line).ty.getD .any) := by
  have hoperands : ∀ ty ∈ [operand.tyOrAny], s.Share t ty := by simpa using ho
  have hrefuse := refuseOperands_agree h op.symbol hoperands line
  unfold judgeIncrement
  dsimp only
  rw [hrefuse]
  refine ⟨rfl, ?_⟩
  split
  · exact ho
  · exact h.any

theorem judgeCompare_agree {lhs rhs : Expr} (hl : lhs.Shared s t) (hr : rhs.Shared s t) :
    judgeCompare t lhs rhs = judgeCompare s lhs rhs := by
  have hcomparable : ∀ ty ∈ comparableTypes, s.Share t ty := share_prims h (by decide)
  unfold judgeCompare
  dsimp only
  rw [expectType_agree h hr hl, expectOneOf_agree h hl hcomparable]

theorem judgeEquality_agree {lhs rhs : Expr} (hl : lhs.Shared s t) (hr : rhs.Shared s t)
    (line : Nat) : judgeEquality t lhs rhs line = judgeEquality s lhs rhs line := by
  unfold judgeEquality
  dsimp only
  rw [h.displayName _ hl, h.displayName _ hr]

theorem judgeLogical_agree {lhs rhs : Expr} (hl : lhs.Shared s t) (hr : rhs.Shared s t) :
    judgeLogical t lhs rhs = judgeLogical s lhs rhs := by
  unfold judgeLogical
  rw [expectBoolean_agree h hl, expectBoolean_agree h hr]

theorem checkAssignment_agree (op : AssignOp) {left right : Ty} (hl : s.Share t left)
    (hr : s.Share t right) : checkAssignment t op left right = checkAssignment s op left right := by
  unfold checkAssignment checkPlain
  rw [h.isAssignableFrom left right hl hr]

theorem ty_of_checkAssignment (op : AssignOp) {left right ty : Ty} (hl : s.Share t left)
    (hok : checkAssignment s op left right = .ok ty) : s.Share t ty := by
  have hcases : ty = .any ∨ ty = left := by
    unfold checkAssignment checkPlain checkCompound at hok
    grind
  rcases hcases with rfl | rfl
  · exact h.any
  · exact hl

theorem judgeAssign_agree (op : AssignOp) {lhs rhs : Expr} (hl : lhs.Shared s t)
    (hr : rhs.Shared s t) (line : Nat) :
    judgeAssign t op lhs rhs line = judgeAssign s op lhs rhs line
      ∧ s.Share t ((judgeAssign s op lhs rhs line).2.ty.getD .any) := by
  have hoperands : ∀ ty ∈ op.rightOperands, s.Share t ty := by
    refine share_prims h ?_
    cases op with
    | plain => decide
    | compound op => cases op <;> decide
  unfold judgeAssign
  dsimp only
  rw [checkAssignment_agree h op hl hr, h.displayName _ hl, expectType_agree h hr hl,
    expectOneOf_agree h hr hoperands]
  refine ⟨rfl, ?_⟩
  cases hok : checkAssignment s op lhs.tyOrAny rhs.tyOrAny with
  | ok ty => exact ty_of_checkAssignment h op hl hok
  | concat => exact h.string
  | badLeft => exact h.any
  | badRight => cases op <;> exact h.any

theorem returnErrors_agree {returnTy : Ty} (hreturn : s.Share t returnTy) {value : Option Expr}
    (hvalue : ∀ e, value = some e → e.Shared s t) (line : Nat) :
    returnErrors t returnTy value line = returnErrors s returnTy value line := by
  cases value with
  | none => rfl
  | some value =>
    have hshared := hvalue value rfl
    unfold returnErrors
    dsimp only
    rw [checkAssignment_agree h .plain hreturn hshared, expectType_agree h hshared hreturn]

theorem share_literal (value : Literal) : s.Share t value.ty := by
  cases value with
  | int => exact h.prim .int
  | long => exact h.prim .long
  | float => exact h.prim .float
  | double => exact h.prim .double
  | bool => exact h.prim .boolean
  | char => exact h.prim .char
  | string => exact h.string
  | null => exact h.fixed .null (by simp)

end

/-! ## Members -/

/-- All types that a class shows are of a kind. -/
structure ClassInfo.Among (P : Ty → Prop) (info : ClassInfo) : Prop where
  ty : P info.ty
  fields : ∀ field ∈ info.fields, P field.ty
  params : ∀ method ∈ info.methods, ∀ ty ∈ method.params, P ty
  results : ∀ method ∈ info.methods, P method.returnTy

/-- The types of a place of analysis: the class that it is in, and all classes that it sees. -/
structure Site.Among (P : Ty → Prop) (site : Site) : Prop where
  classes : ∀ info ∈ site.classes.classes, info.Among P
  owner : P site.owner

namespace ClassTable

variable {table : ClassTable} (h : s.Agree known t)
  (htable : ∀ info ∈ table.classes, info.Among (s.Share t)) {ty : Ty} (hty : s.Share t ty)

include h hty

theorem hierarchy_agree : table.hierarchy t ty = table.hierarchy s ty := by
  unfold hierarchy
  rw [h.ancestors ty hty]

theorem lookupField?_agree (name : String) :
    table.lookupField? t ty name = table.lookupField? s ty name := by
  unfold lookupField?
  rw [hierarchy_agree h hty]

include htable

theorem lookupMethod?_agree (name : String) {args : List Ty} (hargs : ∀ a ∈ args, s.Share t a) :
    table.lookupMethod? t ty name args = table.lookupMethod? s ty name args := by
  have hcandidates : table.candidates t ty name args.length
      = table.candidates s ty name args.length := by
    unfold candidates
    rw [hierarchy_agree h hty]
  have hwidened : ∀ found ∈ table.candidates s ty name args.length,
      found.2.acceptsWidened t args = found.2.acceptsWidened s args := by
    intro found hfound
    obtain ⟨hinfo, hmethod, -⟩ := mem_candidates hfound
    have hparams := (htable _ (mem_of_mem_hierarchy hinfo)).params _ hmethod
    unfold MethodEntry.acceptsWidened
    rw [Bool.eq_iff_iff, List.all_eq_true, List.all_eq_true]
    refine forall₂_congr fun ⟨param, arg⟩ hpair => ?_
    obtain ⟨hparam, harg⟩ := List.of_mem_zip hpair
    dsimp only
    rw [h.isAssignableFrom param arg (hparams param hparam) (hargs arg harg)]
  unfold lookupMethod?
  dsimp only
  rw [hcandidates, List.find?_congr hwidened]

end ClassTable

theorem FieldRef.IsOf.among {P : Ty → Prop} {table : ClassTable} {name : String} {ref : FieldRef}
    (h : ref.IsOf table name) (htable : ∀ info ∈ table.classes, info.Among P) :
    P ref.owner ∧ P ref.ty := by
  obtain ⟨info, hinfo, field, hfield, -, rfl⟩ := h
  exact ⟨(htable info hinfo).ty, (htable info hinfo).fields field hfield⟩

theorem MethodRef.IsOf.among {P : Ty → Prop} {table : ClassTable} {name : String}
    {ref : MethodRef} (h : ref.IsOf table name) (htable : ∀ info ∈ table.classes, info.Among P) :
    P ref.owner ∧ P ref.returnTy := by
  obtain ⟨info, hinfo, method, hmethod, -, rfl⟩ := h
  exact ⟨(htable info hinfo).ty, (htable info hinfo).results method hmethod⟩

/-! ## Names -/

/-- The types of a scope, of its variables and of the declared result. -/
structure Scope.Among (P : Ty → Prop) (scope : Scope) : Prop extends
    scope.Holds fun var => P var.ty where
  returnTy : P scope.returnTy

namespace ExprEnv

theorem field?_agree (h : s.Agree known t) (site : Site) {ty : Ty} (hty : s.Share t ty)
    (name : String) : (ExprEnv.mk site t).field? ty name = (ExprEnv.mk site s).field? ty name :=
  ClassTable.lookupField?_agree h hty name

variable (h : s.Agree known t) {site : Site} (hsite : site.Among (s.Share t)) {scope : Scope}
  (n : Node) (text : String)

include hsite

theorem field?_among {ty : Ty} {name : String} {ref : FieldRef}
    (hfound : (ExprEnv.mk site s).field? ty name = some ref) : s.Share t ref.ty :=
  ((ClassTable.lookupField?_isOf hfound).among hsite.classes).2

include h

theorem bindName_agree (hscope : scope.Among (s.Share t)) :
    (ExprEnv.mk site t).bindName scope n text = (ExprEnv.mk site s).bindName scope n text
      ∧ ((ExprEnv.mk site s).bindName scope n text).1.Shared s t := by
  have hfield := field?_agree h site hsite.owner text
  unfold bindName
  cases hvar : scope.lookup? text with
  | some var => exact ⟨rfl, hscope.lookup? hvar⟩
  | none =>
    dsimp only at hfield ⊢
    rw [hfield]
    cases hfound : (ExprEnv.mk site s).field? site.owner text with
    | some ref => exact ⟨rfl, field?_among hsite hfound⟩
    | none => exact ⟨rfl, h.any⟩

theorem readName_agree (hscope : scope.Among (s.Share t)) :
    (ExprEnv.mk site t).readName scope n text = (ExprEnv.mk site s).readName scope n text
      ∧ ((ExprEnv.mk site s).readName scope n text).1.Shared s t := by
  obtain ⟨heq, hshared⟩ := bindName_agree h hsite n text hscope
  unfold readName
  rw [heq]
  exact ⟨rfl, hshared⟩

theorem staticField_agree {owner : Ty} (howner : s.Share t owner) :
    (ExprEnv.mk site t).staticField owner n text = (ExprEnv.mk site s).staticField owner n text
      ∧ ((ExprEnv.mk site s).staticField owner n text).1.Shared s t := by
  unfold staticField
  dsimp only
  rw [field?_agree h site howner text, h.displayName owner howner]
  cases hfound : (ExprEnv.mk site s).field? owner text with
  | some ref => exact ⟨rfl, field?_among hsite hfound⟩
  | none => exact ⟨rfl, h.any⟩

theorem selectField_agree {target : Expr} (htarget : target.Shared s t) :
    (ExprEnv.mk site t).selectField n target text = (ExprEnv.mk site s).selectField n target text
      ∧ ((ExprEnv.mk site s).selectField n target text).1.Shared s t := by
  unfold selectField
  dsimp only
  rw [field?_agree h site htarget text, h.displayName _ htarget, h.isArray htarget]
  refine ⟨rfl, ?_⟩
  split
  · exact h.any
  · split
    · exact h.prim .int
    · cases hfound : (ExprEnv.mk site s).field? target.tyOrAny text with
      | none => exact h.any
      | some ref =>
        dsimp only
        split <;> exact field?_among hsite hfound

theorem selectMethod_agree {receiver : Receiver} (hreceiver : s.Share t receiver.ty)
    (target : Option Expr) {args : List Expr} (hargs : ∀ a ∈ args, a.Shared s t) :
    (ExprEnv.mk site t).selectMethod receiver n target text args
        = (ExprEnv.mk site s).selectMethod receiver n target text args
      ∧ ((ExprEnv.mk site s).selectMethod receiver n target text args).1.Shared s t := by
  have htypes : ∀ ty ∈ args.map Expr.tyOrAny, s.Share t ty := by
    intro ty hty
    obtain ⟨a, ha, rfl⟩ := List.mem_map.mp hty
    exact hargs a ha
  have hmethod : (ExprEnv.mk site t).method? receiver.ty text (args.map Expr.tyOrAny)
      = (ExprEnv.mk site s).method? receiver.ty text (args.map Expr.tyOrAny) :=
    ClassTable.lookupMethod?_agree h hsite.classes hreceiver text htypes
  unfold selectMethod
  dsimp only
  rw [hmethod, h.map_displayName htypes]
  refine ⟨rfl, ?_⟩
  split
  · exact h.any
  · cases hfound : (ExprEnv.mk site s).method? receiver.ty text (args.map Expr.tyOrAny) with
    | none => exact h.any
    | some ref => exact ((ClassTable.lookupMethod?_isOf hfound).among hsite.classes).2

/-- A chain of names stands for a class in both, or in neither. -/
theorem typeQualifier?_agree (scope : Scope) {e : Expr}
    (he : ∀ name, e.qualifiedName? = some name → known name) :
    (ExprEnv.mk site t).typeQualifier? scope e = (ExprEnv.mk site s).typeQualifier? scope e
      ∧ ∀ ty, (ExprEnv.mk site s).typeQualifier? scope e = some ty → s.Share t ty := by
  unfold typeQualifier?
  cases hname : e.qualifiedName? with
  | none => exact ⟨rfl, fun ty hty => by cases hty⟩
  | some name =>
    obtain ⟨hlookup, hshare⟩ := h.names name (he name hname)
    have hfield := field?_agree h site hsite.owner (headOf name)
    simp only [Option.bind_eq_bind, Option.bind_some]
    rw [hfield, hlookup]
    split
    · exact ⟨rfl, fun ty hty => by cases hty⟩
    · cases hfound : s.lookup? name with
      | none => exact ⟨rfl, fun ty hty => by cases hty⟩
      | some ty =>
        have hty := hshare ty hfound
        simp only [Option.bind_some]
        rw [h.kind? ty hty]
        refine ⟨rfl, fun ty' hty' => ?_⟩
        split at hty' <;> cases hty' <;> exact hty

end ExprEnv

/-! ## Expressions -/

theorem Scope.Among.markInitialized {P : Ty → Prop} {scope : Scope} (h : scope.Among P)
    (name : String) : (scope.markInitialized name).Among P :=
  ⟨h.toHolds.markInitialized (fun _ hvar => hvar) name, h.returnTy⟩

namespace Expr

/-- The chain of names in front of a member, which may stand for a class. -/
def qualifier? : Expr → Option String
  | field _ target _ _ => target.qualifiedName?
  | call _ target _ _ _ => target.bind qualifiedName?
  | _ => none

/-- All chains of names in an expression are of a kind. -/
abbrev QualifiedBy (known : String → Prop) : Expr → Prop :=
  Everywhere fun d => ∀ name, d.qualifier? = some name → known name

theorem QualifiedBy.withNode {e : Expr} (he : e.QualifiedBy known) (n : Node) :
    (e.withNode n).QualifiedBy known := by
  refine everywhere_of_children (fun name hname => ?_) fun c hc => ?_
  · have hsame : (e.withNode n).qualifier? = e.qualifier? := by cases e <;> rfl
    exact he e (mem_nodes_self e) name (hsame ▸ hname)
  · rw [children_withNode] at hc
    exact he.child hc

section

variable (h : s.Agree known t) {site : Site} (hsite : site.Among (s.Share t))

theorem markAssigned_same (target : Expr) :
    target.markAssigned.Same target.markAssigned (Scope.Among (s.Share t)) fun _ => True := by
  unfold markAssigned
  split
  · exact same_modify fun scope hscope => hscope.markInitialized _
  · exact same_pure trivial

include h hsite

theorem checkTarget_same {e : Expr}
    (he : (e.check ⟨site, s⟩).Same (e.check ⟨site, t⟩) (Scope.Among (s.Share t)) (Shared s t)) :
    (checkTarget ⟨site, s⟩ e).Same (checkTarget ⟨site, t⟩ e) (Scope.Among (s.Share t))
      (Shared s t) := by
  unfold checkTarget
  split
  · next text _ =>
    exact same_bind (V := fun found => found.1.Shared s t)
      (same_read fun scope hscope => ExprEnv.bindName_agree h hsite _ text hscope)
      fun found hbound => same_note hbound
  · refine same_map (he.mono fun out hout => ?_)
    unfold asTarget markStatement Shared tyOrAny Expr.ty
    split
    · rw [node_withNode]
      exact hout
    · exact hout

omit h hsite in
theorem checkList_same {args : List Expr} (hargs : ∀ a ∈ args,
      (a.check ⟨site, s⟩).Same (a.check ⟨site, t⟩) (Scope.Among (s.Share t)) (Shared s t)) :
    (checkList ⟨site, s⟩ args).Same (checkList ⟨site, t⟩ args) (Scope.Among (s.Share t))
      fun out => ∀ a ∈ out, a.Shared s t := by
  induction args with
  | nil => exact same_pure fun a ha => (List.not_mem_nil ha).elim
  | cons first rest ih =>
    unfold checkList
    refine same_bind (hargs first List.mem_cons_self) fun one hone =>
      same_bind (ih fun a ha => hargs a (List.mem_cons_of_mem _ ha)) fun others hothers =>
      same_pure fun a ha => ?_
    rcases List.mem_cons.mp ha with rfl | ha
    · exact hone
    · exact hothers a ha

theorem checkReceiver_same {target : Option Expr}
    (hqualifier : ∀ e, target = some e → ∀ name, e.qualifiedName? = some name → known name)
    (htarget : ∀ e, target = some e →
      (e.check ⟨site, s⟩).Same (e.check ⟨site, t⟩) (Scope.Among (s.Share t)) (Shared s t)) :
    (checkReceiver ⟨site, s⟩ target).Same (checkReceiver ⟨site, t⟩ target)
      (Scope.Among (s.Share t)) fun receiver => s.Share t receiver.2.ty := by
  cases target with
  | none =>
    exact same_bind (V := fun _ => True) (same_read fun _ _ => ⟨rfl, trivial⟩)
      fun _ _ => same_pure hsite.owner
  | some target =>
    refine same_bind (V := fun found => ∀ ty, found = some ty → s.Share t ty)
      (same_read fun scope _ => ExprEnv.typeQualifier?_agree h hsite scope (hqualifier _ rfl))
      fun found hfound => ?_
    cases found with
    | some owner => exact same_pure (hfound owner rfl)
    | none => exact same_bind (htarget target rfl) fun out hout => same_pure hout

/-- The analysis of an expression does not depend on what only one of the registries knows. -/
theorem check_same (e : Expr) (he : e.QualifiedBy known) :
    (e.check ⟨site, s⟩).Same (e.check ⟨site, t⟩) (Scope.Among (s.Share t)) (Shared s t) := by
  induction e using Expr.induction with
  | literal n value => exact same_pure (share_literal h value)
  | name n text binding =>
    unfold check
    exact same_bind (V := fun found => found.1.Shared s t)
      (same_read fun scope hscope => ExprEnv.readName_agree h hsite n text hscope)
      fun found hbound => same_note hbound
  | self n =>
    unfold check
    exact same_bind (V := fun _ => True) (same_read fun _ _ => ⟨rfl, trivial⟩)
      fun _ _ => same_note hsite.owner
  | field n target text ref ih =>
    have hqualifier := he _ (mem_nodes_self _)
    unfold check
    refine same_bind (V := fun found => ∀ ty, found = some ty → s.Share t ty)
      (same_read fun scope _ => ExprEnv.typeQualifier?_agree h hsite scope hqualifier)
      fun found hfound => ?_
    cases found with
    | some owner =>
      obtain ⟨heq, hshared⟩ := ExprEnv.staticField_agree h hsite n text (hfound owner rfl)
      dsimp only
      rw [heq]
      exact same_note hshared
    | none =>
      refine same_bind (ih (he.child List.mem_cons_self)) fun target htarget => ?_
      obtain ⟨heq, hshared⟩ := ExprEnv.selectField_agree h hsite n text htarget
      dsimp only
      rw [heq]
      exact same_note hshared
  | index n array position iha ihp =>
    unfold check
    refine same_bind (iha (he.child (by simp [children]))) fun a ha =>
      same_bind (ihp (he.child (by simp [children]))) fun p hp => ?_
    obtain ⟨heq, hshared⟩ := judgeIndex_agree h ha hp n.line
    dsimp only
    rw [heq]
    exact same_note hshared
  | length n array ih =>
    unfold check
    refine same_bind (ih (he.child List.mem_cons_self)) fun a ha => ?_
    dsimp only
    rw [judgeLength_agree h ha]
    exact same_note (h.prim .int)
  | unary n op operand ih =>
    unfold check
    refine same_bind (ih (he.child List.mem_cons_self)) fun a ha => ?_
    obtain ⟨heq, hshared⟩ := judgeUnary_agree h op ha n.line
    dsimp only
    rw [heq]
    exact same_note hshared
  | not n operand ih =>
    unfold check
    refine same_bind (ih (he.child List.mem_cons_self)) fun a ha => ?_
    dsimp only
    rw [expectBoolean_agree h ha]
    exact same_note h.boolean
  | binary n op lhs rhs ihl ihr =>
    unfold check
    refine same_bind (ihl (he.child (by simp [children]))) fun l hl =>
      same_bind (ihr (he.child (by simp [children]))) fun r hr => ?_
    obtain ⟨heq, hshared⟩ := judgeBinary_agree h op hl hr n.line
    dsimp only
    rw [heq]
    split
    · exact same_note h.string
    · exact same_note hshared
  | compare n op lhs rhs ihl ihr =>
    unfold check
    refine same_bind (ihl (he.child (by simp [children]))) fun l hl =>
      same_bind (ihr (he.child (by simp [children]))) fun r hr => ?_
    dsimp only
    rw [judgeCompare_agree h hl hr]
    exact same_note h.boolean
  | equality n op lhs rhs ihl ihr =>
    unfold check
    refine same_bind (ihl (he.child (by simp [children]))) fun l hl =>
      same_bind (ihr (he.child (by simp [children]))) fun r hr => ?_
    dsimp only
    rw [judgeEquality_agree h hl hr]
    exact same_note h.boolean
  | logical n op lhs rhs ihl ihr =>
    unfold check
    refine same_bind (ihl (he.child (by simp [children]))) fun l hl =>
      same_bind (ihr (he.child (by simp [children]))) fun r hr => ?_
    dsimp only
    rw [judgeLogical_agree h hl hr]
    exact same_note h.boolean
  | concat n lhs rhs ihl ihr =>
    unfold check
    exact same_bind (ihl (he.child (by simp [children]))) fun l hl =>
      same_bind (ihr (he.child (by simp [children]))) fun r hr => same_note h.string
  | assign n op lhs rhs ihl ihr =>
    rw [check_assign, check_assign]
    refine same_bind (checkTarget_same h hsite (ihl (he.child (by simp [children])))) fun l hl => ?_
    have hright := ihr (he.child (by simp [children]))
    split
    · refine same_bind hright fun r hr => same_bind (markAssigned_same l) fun _ _ => ?_
      obtain ⟨heq, hshared⟩ := judgeAssign_agree h op hl hr n.line
      dsimp only
      rw [heq]
      exact same_note hshared
    · exact same_bind (V := fun _ => True) (same_note trivial) fun _ _ =>
        same_bind hright fun r hr => same_pure h.any
  | increment n op operand ih =>
    rw [check_increment, check_increment]
    refine same_bind (checkTarget_same h hsite (ih (he.child List.mem_cons_self))) fun a ha => ?_
    split
    · obtain ⟨heq, hshared⟩ := judgeIncrement_agree h op ha n.line
      dsimp only
      rw [heq]
      exact same_note hshared
    · exact same_note h.any
  | call n target text args method ihtarget ihargs =>
    have hchild : ∀ c ∈ target.toList ++ args, c.QualifiedBy known := fun c hc => he.child hc
    have hqualifier : ∀ e, target = some e → ∀ name, e.qualifiedName? = some name → known name := by
      rintro e rfl
      exact he _ (mem_nodes_self _)
    rw [check_call, check_call]
    refine same_bind (checkReceiver_same h hsite hqualifier fun e hsome => ihtarget e hsome
        (hchild e (List.mem_append_left _ (Option.mem_toList.mpr hsome)))) fun receiver hreceiver =>
      same_bind (checkList_same fun a ha => ihargs a ha
        (hchild a (List.mem_append_right _ ha))) fun args hargs => ?_
    obtain ⟨heq, hshared⟩ := ExprEnv.selectMethod_agree h hsite n text hreceiver receiver.1 hargs
    dsimp only
    rw [heq]
    exact same_note hshared

end

end Expr

end ClassCompiler
