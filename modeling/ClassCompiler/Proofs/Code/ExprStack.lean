import ClassCompiler.Proofs.Body.Marks
import ClassCompiler.Proofs.Code.Instructions

/-!
# Expressions on the stack

What the code of an accepted expression does to the stack, in each of its uses: its value is one
value of the kind of its type, on top of whatever was there; a jump on its value leaves the stack
alone on both ways, even in the middle of another expression; the operands of a place stay below
until the store takes them; a part of a concatenation leaves the string builder.

* `Place.operandKinds`, `Place.turns_load`, `Place.turns_keep`, `Place.turns_store`
* `Expr.leaves`: what the code of an expression leaves
* `Expr.Used`: an operand that stands for its value; `Expr.turns_code_index` and the like, form by form
* `Expr.Accepted.turns`
-/

namespace ClassCompiler

open Emit

variable {ctx : BodyCtx} {targets : List (Label × List Kind)} {stack : List Kind}
  {registry : Registry}

/-! ## Places -/

namespace Place

/-- What a place keeps on the stack, the top first. -/
def operandKinds : Place → List Kind
  | slot _ | static .. => []
  | member .. => [.reference]
  | element => [.int, .reference]

/-- The place holds values of the type. -/
def Holds (ctx : BodyCtx) (ty : Ty) : Place → Prop
  | slot index => ⟨index, ty⟩ ∈ ctx.locals
  | static ref _ | member ref _ => ref.ty = ty
  | element => True

variable {place : Place} {ty : Ty}

theorem turns_load (hregistry : registry.Sound) (hvalue : ty.IsValue) (h : place.Holds ctx ty) :
    (place.load registry ty).Turns ctx targets (place.operandKinds ++ stack)
      (ty.kind :: (place.operandKinds ++ stack)) := by
  cases place with
  | slot index => exact Emit.turns_load hvalue h
  | static ref name =>
    cases h
    exact turns_getstatic hregistry hvalue name
  | member ref name =>
    cases h
    exact turns_bind turns_dupReceiver (turns_getfield hregistry hvalue name)
  | element => exact turns_bind turns_dupElement (turns_arrayLoad hvalue)

theorem turns_keep (place : Place) (ty : Ty) :
    (place.keep ty).Turns ctx targets (ty.kind :: (place.operandKinds ++ stack))
      (ty.kind :: (place.operandKinds ++ ty.kind :: stack)) := by
  cases place with
  | slot | static => exact turns_dup ty
  | member => exact turns_dupX1 ty
  | element => exact turns_dupX2 ty

theorem turns_store (hregistry : registry.Sound) (hvalue : ty.IsValue) (h : place.Holds ctx ty) :
    (place.store registry ty).Turns ctx targets (ty.kind :: (place.operandKinds ++ stack))
      stack := by
  cases place with
  | slot index => exact Emit.turns_store hvalue h
  | static ref name =>
    cases h
    exact turns_putstatic hregistry hvalue name
  | member ref name =>
    cases h
    exact turns_putfield hregistry hvalue name
  | element => exact turns_arrayStore hvalue

end Place

theorem Expr.Accepted.place_holds {e : Expr} {ty : Ty} (h : e.Accepted ctx ty) {place : Place}
    (hplace : e.place = .ok place) : place.Holds ctx ty := by
  cases h with
  | slot _ hlocal =>
    cases hplace
    exact hlocal
  | @ownField _ _ ref =>
    cases hplace
    cases ref.isStatic <;> rfl
  | field | index =>
    cases hplace
    trivial
  | _ => cases hplace

theorem Expr.isAssignable_of_place {e : Expr} {place : Place} (h : e.place = .ok place) :
    e.isAssignable = true := by
  cases e <;> first | rfl | cases h

/-! ## Operators -/

namespace Emit

theorem turns_optionally {test : Bool} {piece : Emit Unit} {before after : List Kind}
    (htrue : test = true → piece.Turns ctx targets before after)
    (hfalse : test = false → before = after) :
    (optionally test piece).Turns ctx targets before after := by
  unfold optionally
  split
  · next h => exact htrue h
  · next h =>
    rw [hfalse (Bool.not_eq_true _ ▸ h)]
    exact turns_pure

/-- A promoted operand can be converted to every type that is computed in. -/
theorem converts_of_promotion {ty : Ty} {p : Prim} (h : unaryPromotion? ty = some (.prim p)) :
    ty.IsValue ∧ p ∈ Prim.computed ∧ ∀ q ∈ Prim.computed, ty.ConvertsTo (.prim q) := by
  obtain ⟨q, r, rfl, hq, hr⟩ := unaryPromotion?_eq_some_iff.mp h
  cases Ty.prim_injective hr
  refine ⟨Ty.isValue_prim ?_, Prim.mem_computed_of_promoted? hq,
    fun s hs => .computed (Prim.isNumeric_of_promoted? hq) hs⟩
  rintro rfl
  cases hq

/-- The instructions that a binary operator is resolved to. -/
theorem turns_rule (ctx : BodyCtx) {op : BinaryOp} {left right : Ty} {rule : BinaryRule}
    (h : resolveBinary? op left right = some rule) :
    left.IsValue ∧ right.IsValue ∧ rule.result.IsValue ∧ ∃ a b : Kind,
      (∀ stack, (ops rule.left).Turns ctx [] (left.kind :: stack) (a :: stack))
      ∧ (∀ stack, (ops rule.right).Turns ctx [] (right.kind :: stack) (b :: stack))
      ∧ ∀ stack, (Emit.op rule.op).Turns ctx [] (b :: a :: stack)
        (rule.result.kind :: stack) := by
  rcases resolveBinary?_eq_some h with ⟨rfl, rfl, rfl⟩
    | ⟨p, code, hshift, hintegral, hleft, hcode, rfl⟩ | ⟨p, code, hshift, hboth, hcode, rfl⟩
  · have hop : ∀ stack, (Emit.op op.onInt).Turns ctx [] (rightKind op .boolean :: .int :: stack)
        (.int :: stack) := fun _ => turns_arithmetic (arithmeticOp?_prim op .boolean)
    have hright : rightKind op .boolean = .int := by unfold rightKind; split <;> rfl
    rw [hright] at hop
    refine ⟨Ty.isValue_boolean, Ty.isValue_boolean, Ty.isValue_boolean, .int, .int, fun _ => ?_, fun _ => ?_, fun stack => ?_⟩
    · rw [Ty.kind_boolean]
      exact turns_pure
    · rw [Ty.kind_boolean]
      exact turns_pure
    · rw [Ty.kind_boolean]
      exact hop stack
  · obtain ⟨hvalue, hp, hconverts⟩ := converts_of_promotion hleft
    obtain ⟨q, rfl, hq⟩ := Ty.exists_prim_of_any hintegral
    have hnumeric : q.isNumeric = true := by cases q <;> first | rfl | cases hq
    have hop : ∀ stack, (Emit.op code).Turns ctx [] (rightKind op p :: p.kind :: stack)
        (p.kind :: stack) := fun _ => turns_arithmetic hcode
    have hright : rightKind op p = .int := if_pos hshift
    rw [hright] at hop
    refine ⟨hvalue, Ty.isValue_prim ?_, Ty.isValue_prim (Prim.ne_void_of_mem_computed hp),
      (Ty.prim p).kind, Ty.int.kind, fun _ => turns_conversion (hconverts p hp),
      fun _ => turns_conversion (.computed (q := .int) hnumeric (by decide)), fun stack => ?_⟩
    · rintro rfl
      cases hq
    · rw [Ty.kind_prim, show Ty.int.kind = .int from Ty.kind_prim .int]
      exact hop stack
  · obtain ⟨l, r, hl, hr, hcommon⟩ := binaryPromotion?_eq_some_iff.mp hboth
    cases Ty.prim_injective hcommon
    obtain ⟨hleft, -, hconverts⟩ := converts_of_promotion hl
    obtain ⟨hright, -, hconverts'⟩ := converts_of_promotion hr
    have hmem := Prim.common_mem_computed l r
    have hop : ∀ stack, (Emit.op code).Turns ctx []
        (rightKind op (l.common r) :: (l.common r).kind :: stack) ((l.common r).kind :: stack) :=
      fun _ => turns_arithmetic hcode
    have hkind : rightKind op (l.common r) = (l.common r).kind :=
      if_neg (Bool.eq_false_iff.mp hshift)
    rw [hkind] at hop
    refine ⟨hleft, hright, Ty.isValue_prim (Prim.ne_void_of_mem_computed hmem),
      (Ty.prim (l.common r)).kind, (Ty.prim (l.common r)).kind,
      fun _ => turns_conversion (hconverts _ hmem), fun _ => turns_conversion (hconverts' _ hmem),
      fun stack => ?_⟩
    rw [Ty.kind_prim]
    exact hop stack

end Emit

/-! ## Expressions -/

/-- What the code of an expression leaves on the stack: the value, if there is one. Assignments and
increments that are statements leave none. -/
def Expr.leaves (e : Expr) (ty : Ty) : List Kind :=
  match e with
  | assign n .. | increment n .. => if n.isStatement then [] else ty.results
  | _ => ty.results

theorem Expr.leaves_of_not_isStatement {e : Expr} (h : e.isStatement = false) (ty : Ty) :
    e.leaves ty = ty.results := by
  cases e with
  | assign | increment => exact if_neg (Bool.eq_false_iff.mp h)
  | _ => rfl

theorem Expr.leaves_of_assignment {e : Expr} (h : e.isAssignment = true)
    (hmark : e.isStatement = true) (ty : Ty) : e.leaves ty = [] := by
  cases e with
  | assign => exact if_pos hmark
  | _ => cases h

namespace ExprCode

/-- What the code of an expression does to the stack in each of its uses. -/
structure Turns (ctx : BodyCtx) (e : Expr) (ty : Ty) (code : ExprCode) : Prop where
  value : ∀ stack, code.value.Turns ctx [] stack (e.leaves ty ++ stack)
  branch : e.isStatement = false → ty = .boolean → ∀ target onTrue stack,
    (code.branch target onTrue).Turns ctx [(target, stack)] stack stack
  operands : ∀ place, e.place = .ok place → ∀ stack,
    code.operands.Turns ctx [] stack (place.operandKinds ++ stack)
  append : e.isStatement = false → ty.IsValue → ∀ stack,
    code.append.Turns ctx [] (.reference :: stack) (.reference :: stack)

variable {e : Expr} {ty : Ty} {value : Emit Unit}

theorem turns_branchOnValue (h : ∀ stack, value.Turns ctx [] stack (.int :: stack))
    (target : Label) (onTrue : Bool) (stack : List Kind) :
    (branchOnValue value target onTrue).Turns ctx [(target, stack)] stack stack := by
  have htested : (valueBranch onTrue).tested? = some [.int] := by cases onTrue <;> rfl
  exact turns_bind (h stack).closed (turns_jump htested List.mem_cons_self)

theorem turns_appendOnce (he : e.Accepted ctx ty) (hvalue : ty.IsValue)
    (h : ∀ stack, value.Turns ctx [] stack (ty.kind :: stack)) (stack : List Kind) :
    (appendOnce e value).Turns ctx [] (.reference :: stack) (.reference :: stack) := by
  rw [appendOnce_eq he]
  exact turns_bind (h _) (turns_append hvalue)

theorem turns_valueOfBranch {branch : Label → Bool → Emit Unit}
    (h : ∀ target onTrue stack, (branch target onTrue).Turns ctx [(target, stack)] stack stack)
    (stack : List Kind) : (valueOfBranch branch).Turns ctx [] stack (.int :: stack) := by
  -- A jump to the end brings the value along; the other jump comes without one.
  refine turns_newLabel stack fun onFalse => turns_newLabel (.int :: stack) fun done => ?_
  have hfalse : (onFalse, stack) ∈ [(done, .int :: stack), (onFalse, stack)] :=
    List.mem_cons_of_mem _ List.mem_cons_self
  refine turns_bind ((h onFalse false stack).widen ?_) (turns_bind (turns_push rfl rfl rfl)
    (turns_bind (turns_goto List.mem_cons_self) (turns_bind (turns_place hfalse)
    (turns_bind (turns_push rfl rfl rfl) (turns_place List.mem_cons_self)))))
  exact List.cons_subset.mpr ⟨hfalse, List.nil_subset _⟩

theorem turns_concatValue {parts : Emit Unit} (h : ∀ stack,
      parts.Turns ctx [] (.reference :: stack) (.reference :: stack)) (stack : List Kind) :
    (concatValue parts).Turns ctx [] stack (.reference :: stack) := by
  have hdone : FieldDescriptor .reference "Ljava/lang/String;" :=
    FieldDescriptor.object "java/lang/String" (by decide)
  have hinit : Descriptor.method? "()V" = some ([], []) := Descriptor.method?_void .nil
  have hstring : Descriptor.method? "()Ljava/lang/String;" = some ([], [.reference]) :=
    Descriptor.method?_value .nil hdone
  refine turns_bind (turns_push rfl rfl rfl) (turns_bind turns_dupReceiver
    (turns_bind (turns_member (t := ([.reference], [])) rfl ?_)
    (turns_bind (h stack) (turns_member (t := ([.reference], [.reference])) rfl ?_))))
  · simp only [OpCode.memberTransfer?, hinit]
    rfl
  · simp only [OpCode.memberTransfer?, hstring]
    rfl

theorem turns_logicalJump (op : LogicalOp) {left right : Label → Bool → Emit Unit}
    (hl : ∀ target onTrue stack, (left target onTrue).Turns ctx [(target, stack)] stack stack)
    (hr : ∀ target onTrue stack, (right target onTrue).Turns ctx [(target, stack)] stack stack)
    (target : Label) (onTrue : Bool) (stack : List Kind) :
    (logicalJump op left right target onTrue).Turns ctx [(target, stack)] stack stack := by
  unfold logicalJump
  split
  · exact turns_bind (hl target onTrue stack) (hr target onTrue stack)
  · refine turns_newLabel stack fun skip => turns_bind ((hl skip (!onTrue) stack).widen ?_)
      (turns_bind ((hr target onTrue stack).widen ?_) (turns_place List.mem_cons_self))
    · exact List.cons_subset.mpr ⟨List.mem_cons_self, List.nil_subset _⟩
    · exact List.subset_cons_self _ _

/-- An expression with a value of its own, which is no place. -/
theorem turns_ofValue (he : e.Accepted ctx ty) (hplace : e.isAssignable = false)
    (h : ∀ stack, value.Turns ctx [] stack (e.leaves ty ++ stack)) :
    (ofValue e value).Turns ctx e ty := by
  have hkind : e.isStatement = false → ty.IsValue → ∀ stack,
      value.Turns ctx [] stack (ty.kind :: stack) := by
    intro hmark hvalue stack
    have := h stack
    rwa [Expr.leaves_of_not_isStatement hmark, Ty.results_of_isValue hvalue] at this
  refine ⟨h, fun hmark hty => ?_, fun place hok => ?_, fun hmark hvalue =>
    turns_appendOnce he hvalue (hkind hmark hvalue)⟩
  · subst hty
    have hint := hkind hmark Ty.isValue_boolean
    rw [Ty.kind_boolean] at hint
    exact turns_branchOnValue hint
  · rw [Expr.isAssignable_of_place hok] at hplace
    cases hplace

/-- A condition. -/
theorem turns_ofBranch {branch : Label → Bool → Emit Unit} (he : e.Accepted ctx .boolean)
    (hplace : e.isAssignable = false) (hleaves : e.leaves .boolean = Ty.boolean.results)
    (h : ∀ target onTrue stack, (branch target onTrue).Turns ctx [(target, stack)] stack stack) :
    (ofBranch e branch).Turns ctx e .boolean := by
  have hvalue : ∀ stack, (valueOfBranch branch).Turns ctx [] stack
      (e.leaves .boolean ++ stack) := by
    intro stack
    rw [hleaves, Ty.results_of_isValue Ty.isValue_boolean, Ty.kind_boolean]
    exact turns_valueOfBranch h stack
  have hof := turns_ofValue he hplace hvalue
  exact ⟨hof.value, fun _ _ => h, hof.operands, hof.append⟩

/-- A place. -/
theorem turns_ofPlace {operands : Emit Unit} {p : Place} (he : e.Accepted ctx ty)
    (hplace : e.place = .ok p) (hvalue : ty.IsValue) (hleaves : e.leaves ty = ty.results)
    (ho : ∀ stack, operands.Turns ctx [] stack (p.operandKinds ++ stack))
    (h : ∀ stack, value.Turns ctx [] stack (ty.kind :: stack)) :
    (ofPlace e operands value).Turns ctx e ty := by
  refine ⟨fun stack => ?_, fun _ hty => ?_, fun other hother => ?_, fun _ _ =>
    turns_appendOnce he hvalue h⟩
  · rw [hleaves, Ty.results_of_isValue hvalue]
    exact h stack
  · subst hty
    rw [Ty.kind_boolean] at h
    exact turns_branchOnValue h
  · rw [hplace] at hother
    cases hother
    exact ho

/-! ## Assignments -/

theorem turns_newValue (hregistry : registry.Sound) {op : AssignOp} {place : Place}
    {left right : Ty} {r : Emit Unit} (hvalue : left.IsValue) (hplace : place.Holds ctx left)
    (hfits : op.Fits left right)
    (hr : right.IsValue → ∀ stack, r.Turns ctx [] stack (right.kind :: stack))
    (stack : List Kind) :
    (newValue registry op place left right r).Turns ctx [] (place.operandKinds ++ stack)
      (left.kind :: (place.operandKinds ++ stack)) := by
  unfold newValue
  cases op with
  | plain =>
    have hstores : left.Stores right := hfits
    have hkind := hr (hstores.isValue hvalue) (place.operandKinds ++ stack)
    rwa [hstores.kind_eq] at hkind
  | compound op =>
    dsimp only
    have hstring : Ty.string.IsValue := Ty.isValue_of_isReference Ty.isReference_string
    rcases hfits with ⟨rfl, rfl, rfl⟩ | ⟨hleft, hright⟩
    · rw [if_pos ⟨rfl, rfl⟩]
      exact hr hstring _
    · obtain ⟨code, hcode⟩ := arithmeticOp?_isSome hleft
      obtain ⟨p, hp, rfl⟩ := exists_computed_of_mem_compoundOperands hleft
      obtain ⟨q, hq, rfl⟩ := exists_computed_of_mem_compoundOperands hright
      have hnumeric : q.isNumeric = true := Prim.isNumeric_of_mem_computed hq
      have hne : ¬(op = .add ∧ Ty.prim p = .string) := fun h =>
        Ty.prim_ne_fixed p (by simp) h.2
      rw [if_neg hne, hcode]
      refine turns_bind (Place.turns_load hregistry hvalue hplace)
        (turns_bind (hr (Ty.isValue_prim (Prim.ne_void_of_mem_computed hq)) _)
        (turns_bind (m := rightKind op p :: (Ty.prim p).kind :: (place.operandKinds ++ stack))
          ?_ ?_))
      · unfold rightKind
        split
        · exact turns_conversion (.computed (q := .int) hnumeric (by decide))
        · rw [← Ty.kind_prim p]
          exact turns_conversion (.computed hnumeric hp)
      · rw [Ty.kind_prim]
        exact turns_arithmetic hcode

/-! ## Increments -/

/-- The kinds that an increment leaves: the old value or the new one is kept, or none. -/
def kept (keepOld keepNew : Bool) (ty : Ty) : List Kind :=
  if keepOld || keepNew then [ty.kind] else []

theorem turns_incrementLocal {slot : Nat} (h : ⟨slot, .int⟩ ∈ ctx.locals) (op : IncrementOp)
    {keepOld keepNew : Bool} (hkeep : ¬(keepOld = true ∧ keepNew = true)) (stack : List Kind) :
    (incrementLocal op .int slot keepOld keepNew).Turns ctx [] stack
      (kept keepOld keepNew .int ++ stack) := by
  rw [incrementLocal_eq]
  have hload : ∀ stack, (instr (.load .int slot)).Turns ctx [] stack (Ty.int.kind :: stack) :=
    fun _ => Emit.turns_load (Ty.isValue_prim (p := .int) (by decide)) h
  refine turns_bind (m := (if keepOld then [Ty.int.kind] else []) ++ stack)
    (turns_optionally (fun hold => ?_) fun hold => ?_) (turns_bind (turns_iinc h op.delta)
    (turns_optionally (fun hnew => ?_) fun hnew => ?_))
  · rw [if_pos hold]
    exact hload stack
  · rw [hold]
    rfl
  · have hold : keepOld = false := by
      by_contra hold
      exact hkeep ⟨Bool.not_eq_false _ ▸ hold, hnew⟩
    rw [hold, hnew]
    exact hload stack
  · unfold kept
    rw [hnew, Bool.or_false]

theorem turns_incrementPlace (hregistry : registry.Sound) {operand : Expr} {place : Place}
    {operands : Emit Unit} {op : IncrementOp} (hoperand : operand.Accepted ctx ty)
    (hplace : operand.place = .ok place) (hnumeric : ty.isNumeric = true)
    (ho : ∀ stack, operands.Turns ctx [] stack (place.operandKinds ++ stack))
    {keepOld keepNew : Bool} (hkeep : ¬(keepOld = true ∧ keepNew = true)) (line : Nat)
    (stack : List Kind) :
    (incrementPlace registry op line operand ty operands keepOld keepNew).Turns ctx [] stack
      (kept keepOld keepNew ty ++ stack) := by
  obtain ⟨p, code, hpromoted, hcode⟩ := exists_incrementOp hnumeric op
  obtain ⟨q, r, rfl, hq, hr⟩ := unaryPromotion?_eq_some_iff.mp hpromoted
  cases Ty.prim_injective hr
  have hvalue := hoperand.isValue_of_isAssignable (Expr.isAssignable_of_place hplace)
  have hholds := hoperand.place_holds hplace
  have hcomputed := Prim.mem_computed_of_promoted? hq
  have hforth : (Ty.prim q).kind = p.kind := by
    rw [Ty.kind_prim]
    cases q <;> cases hq <;> rfl
  have hright : rightKind (if 0 < op.delta then .add else .sub) p = p.kind := by
    unfold rightKind
    split <;> split <;> first | rfl | cases ‹BinaryOp.isShift _ = true›
  have hop : ∀ stack, (Emit.op code).Turns ctx []
      (rightKind (if 0 < op.delta then .add else .sub) p :: p.kind :: stack) (p.kind :: stack) :=
    fun _ => turns_arithmetic hcode
  rw [hright] at hop
  rw [incrementPlace_eq hoperand hplace hpromoted hcode]
  -- The kept value lies below the operands, whether it is the old one or the new one.
  let old : List Kind := kept keepOld false (.prim q) ++ stack
  have hstore : ∀ after, (place.store registry (.prim q)).Turns ctx []
      ((Ty.prim q).kind :: (place.operandKinds ++ after)) after :=
    fun _ => Place.turns_store hregistry hvalue hholds
  refine turns_bind (ho stack) (turns_bind (Place.turns_load hregistry hvalue hholds)
    (turns_bind (m := (Ty.prim q).kind :: (place.operandKinds ++ old))
      (turns_optionally (fun hold => ?_) fun hold => ?_)
    (turns_bind (turns_pushOne hcomputed) (turns_bind (m := p.kind :: (place.operandKinds ++ old))
      ?_ (turns_bind (m := (Ty.prim q).kind :: (place.operandKinds ++ old)) ?_
    (turns_bind (turns_optionally (fun hnew => ?_) fun hnew => ?_) (hstore _)))))))
  · have hlist : old = (Ty.prim q).kind :: stack := by
      show kept keepOld false (.prim q) ++ stack = _
      rw [hold]
      rfl
    rw [hlist]
    exact Place.turns_keep place (.prim q)
  · have hlist : old = stack := by
      show kept keepOld false (.prim q) ++ stack = _
      rw [hold]
      rfl
    rw [hlist]
  · rw [hforth]
    exact hop _
  · have hback : (ops (conversion (.prim p) (.prim q))).Turns ctx []
        ((Ty.prim p).kind :: (place.operandKinds ++ old))
        ((Ty.prim q).kind :: (place.operandKinds ++ old)) := turns_conversion (.demoted hq)
    rwa [Ty.kind_prim p] at hback
  · have hold : keepOld = false := by
      by_contra hold
      exact hkeep ⟨Bool.not_eq_false _ ▸ hold, hnew⟩
    show Emit.Turns ctx [] (_ :: (_ ++ (kept keepOld false (.prim q) ++ stack))) _ _
    rw [hold, hnew]
    exact Place.turns_keep place (.prim q)
  · show _ :: (_ ++ (kept keepOld false (.prim q) ++ stack)) = _
    rw [hnew]

/-! ## Calls -/

theorem Turns.kind {code : ExprCode} (h : code.Turns ctx e ty) (hmark : e.isStatement = false)
    (hvalue : ty.IsValue) (stack : List Kind) :
    code.value.Turns ctx [] stack (ty.kind :: stack) := by
  have := h.value stack
  rwa [Expr.leaves_of_not_isStatement hmark, Ty.results_of_isValue hvalue] at this

theorem turns_args {args : List Expr} (h : ∀ a ∈ args, ∀ stack,
      (a.code registry).value.Turns ctx [] stack (a.tyOrAny.kind :: stack)) (stack : List Kind) :
    (Expr.argsCode registry args).Turns ctx [] stack
      (((args.map Expr.tyOrAny).map Ty.kind).reverse ++ stack) := by
  induction args generalizing stack with
  | nil => exact turns_pure
  | cons first rest ih =>
    have hrest := ih (fun a ha => h a (List.mem_cons_of_mem _ ha)) (first.tyOrAny.kind :: stack)
    rw [List.map_cons, List.map_cons, List.reverse_cons, List.append_assoc]
    exact turns_bind (h first List.mem_cons_self stack) hrest

end ExprCode

/-! ## All forms -/

open ExprCode

theorem Ty.isValue_of_mem_indexTypes {ty : Ty} (h : ty ∈ indexTypes) :
    ty.IsValue ∧ ty.kind = .int := by
  simp only [indexTypes, List.mem_cons, List.not_mem_nil, or_false] at h
  rcases h with rfl | rfl | rfl | rfl
  · exact ⟨Ty.isValue_prim (p := .int) (by decide), Ty.kind_prim .int⟩
  · exact ⟨Ty.isValue_prim (p := .char) (by decide), Ty.kind_prim .char⟩
  · exact ⟨Ty.isValue_prim (p := .short) (by decide), Ty.kind_prim .short⟩
  · exact ⟨Ty.isValue_prim (p := .byte) (by decide), Ty.kind_prim .byte⟩

theorem Ty.isValue_of_mem_comparableTypes {ty : Ty} (h : ty ∈ comparableTypes) : ty.IsValue := by
  rcases List.mem_pair.mp h with rfl | rfl
  · exact Ty.isValue_prim (p := .int) (by decide)
  · exact Ty.isValue_prim (p := .double) (by decide)

/-- An accepted operand that stands for its value. -/
structure Expr.Used (ctx : BodyCtx) (registry : Registry) (e : Expr) (ty : Ty) : Prop where
  accepted : e.Accepted ctx ty
  unmarked : e.isStatement = false
  turns : (e.code registry).Turns ctx e ty

namespace Expr

variable {n : Node} {ty : Ty}

theorem Used.kind {e : Expr} (h : e.Used ctx registry ty) (hvalue : ty.IsValue)
    (stack : List Kind) :
    (e.code registry).value.Turns ctx [] stack (ty.kind :: stack) :=
  h.turns.kind h.unmarked hvalue stack

theorem Used.reference {e : Expr} (h : e.Used ctx registry ty) (href : ty.isReference = true)
    (stack : List Kind) :
    (e.code registry).value.Turns ctx [] stack (.reference :: stack) := by
  have hkind := h.kind (Ty.isValue_of_isReference href) stack
  rwa [Ty.kind_of_isReference href] at hkind

/-! ### Leaves and places -/

theorem turns_code_literal {value : Literal} (he : (literal n value).Accepted ctx value.ty) :
    ((literal n value).code registry).Turns ctx (literal n value) value.ty := by
  have hpush : ∀ stack, (instr (literalInstr value)).Turns ctx [] stack
      (leaves (literal n value) value.ty ++ stack) := by
    intro stack
    rw [show leaves (literal n value) value.ty = value.ty.results from rfl,
      Ty.results_of_isValue (Literal.ty_isValue value)]
    exact turns_literal value
  have hsimple := turns_ofValue he rfl hpush
  cases value with
  | bool value =>
    refine ⟨hsimple.value, fun _ _ target onTrue stack => ?_, hsimple.operands, hsimple.append⟩
    show (literalBranch value target onTrue).Turns ctx _ _ _
    unfold literalBranch
    split
    · exact turns_goto List.mem_cons_self
    · exact turns_pure
  | _ => exact hsimple

/-- A field by its own name, of the class or of the receiver. -/
theorem turns_code_ownField (hregistry : registry.Sound) (hthis : ctx.HasReceiver) {text : String}
    {ref : FieldRef} (he : (name n text (some (.field ref))).Accepted ctx ref.ty)
    (hvalue : ref.ty.IsValue) (hown : ref.isStatic = true ∨ ctx.isStatic = false) :
    ((name n text (some (.field ref))).code registry).Turns ctx (name n text (some (.field ref)))
      ref.ty := by
  obtain ⟨owner, ty, isStatic⟩ := ref
  cases isStatic with
  | true =>
    exact turns_ofPlace (p := .static _ text) he rfl hvalue rfl (fun _ => turns_pure)
      fun _ => turns_getstatic hregistry hvalue text
  | false =>
    have hinstance : ctx.isStatic = false := hown.resolve_left Bool.false_ne_true
    have hself : ∀ stack, (Emit.op .aload0).Turns ctx [] stack (.reference :: stack) :=
      fun _ => turns_receiver hthis hinstance
    exact turns_ofPlace (p := .member _ text) he rfl hvalue rfl hself fun stack =>
      turns_bind (hself stack) (turns_getfield hregistry hvalue text)

theorem turns_code_index {array position : Expr} {arrayTy indexTy : Ty}
    (he : (index n array position).Accepted ctx ty) (hvalue : ty.IsValue)
    (harray : array.Used ctx registry arrayTy) (href : arrayTy.isReference = true)
    (hposition : position.Used ctx registry indexTy) (hindex : indexTy ∈ indexTypes) :
    ((index n array position).code registry).Turns ctx (index n array position) ty := by
  obtain ⟨hint, hkind⟩ := Ty.isValue_of_mem_indexTypes hindex
  have hnumber := hposition.kind hint
  rw [hkind] at hnumber
  have hoperands : ∀ stack, (do
      (array.code registry).value
      (position.code registry).value).Turns ctx [] stack (.int :: .reference :: stack) :=
    fun stack => turns_bind (harray.reference href stack) (hnumber (.reference :: stack))
  refine turns_ofPlace he rfl hvalue rfl hoperands fun stack => ?_
  rw [he.provenTy, Emit.pure_bind]
  exact turns_bind (hoperands stack) (turns_arrayLoad hvalue)

/-! ### Operators -/

theorem turns_code_unary {op : UnaryOp} {operand : Expr} {operandTy : Ty}
    (he : (unary n op operand).Accepted ctx ty) (hoperand : operand.Used ctx registry operandTy)
    (hpromoted : unaryPromotion? operandTy = some ty)
    (hintegral : op = .bitNot → operandTy.isIntegral = true) :
    ((unary n op operand).code registry).Turns ctx (unary n op operand) ty := by
  obtain ⟨q, p, rfl, hq, rfl⟩ := unaryPromotion?_eq_some_iff.mp hpromoted
  obtain ⟨hvalue, hp, hconverts⟩ := converts_of_promotion hpromoted
  refine turns_ofValue he rfl fun stack => ?_
  rw [show leaves (unary n op operand) (.prim p) = (Ty.prim p).results from rfl,
    Ty.results_of_isValue (Ty.isValue_prim (Prim.ne_void_of_mem_computed hp)),
    unaryValue_eq he hoperand.accepted]
  refine turns_bind (hoperand.kind hvalue stack) (turns_bind
    (turns_conversion (hconverts p hp)) ?_)
  rw [Ty.kind_prim]
  refine turns_unaryOps hp fun hop => ?_
  have hwhole := hintegral hop
  rw [Ty.isIntegral_prim] at hwhole
  cases q <;> cases hq <;> first | rfl | cases hwhole

theorem turns_code_binary {op : BinaryOp} {lhs rhs : Expr} {left right : Ty} {rule : BinaryRule}
    (he : (binary n op lhs rhs).Accepted ctx rule.result) (hlhs : lhs.Used ctx registry left)
    (hrhs : rhs.Used ctx registry right) (hrule : resolveBinary? op left right = some rule) :
    ((binary n op lhs rhs).code registry).Turns ctx (binary n op lhs rhs) rule.result := by
  obtain ⟨hleft, hright, hresult, a, b, hleftOps, hrightOps, hop⟩ := turns_rule ctx hrule
  refine turns_ofValue he rfl fun stack => ?_
  rw [show leaves (binary n op lhs rhs) rule.result = rule.result.results from rfl,
    Ty.results_of_isValue hresult, binaryValue_eq hlhs.accepted hrhs.accepted hrule]
  exact turns_bind (hlhs.kind hleft stack) (turns_bind (hleftOps stack)
    (turns_bind (hrhs.kind hright _) (turns_bind (hrightOps _) (hop stack))))

theorem turns_code_compare {op : CompareOp} {lhs rhs : Expr} {operand : Ty}
    (he : (compare n op lhs rhs).Accepted ctx .boolean) (hlhs : lhs.Used ctx registry operand)
    (hrhs : rhs.Used ctx registry operand) (hoperand : operand ∈ comparableTypes) :
    ((compare n op lhs rhs).code registry).Turns ctx (compare n op lhs rhs) .boolean := by
  have hvalue := Ty.isValue_of_mem_comparableTypes hoperand
  refine turns_ofBranch he rfl rfl fun target onTrue stack => ?_
  obtain ⟨selected, hselected⟩ := compareBranch?_isSome op hoperand onTrue
  rw [compareJump_eq hlhs.accepted hselected]
  exact turns_bind (hlhs.kind hvalue stack).closed (turns_bind
    (hrhs.kind hvalue _).closed (turns_test (tests_compareBranch? hselected) List.mem_cons_self))

theorem turns_code_equality {op : EqualityOp} {lhs rhs : Expr} {left right : Ty}
    {kind : EqualityKind} (he : (equality n op lhs rhs).Accepted ctx .boolean)
    (hlhs : lhs.Used ctx registry left) (hrhs : rhs.Used ctx registry right)
    (hkind : equalityKind? left right = some kind) :
    ((equality n op lhs rhs).code registry).Turns ctx (equality n op lhs rhs) .boolean := by
  obtain ⟨hleft, hright, htests⟩ := equality_converts hkind
  refine turns_ofBranch he rfl rfl fun target onTrue stack => ?_
  rw [equalityJump_eq hlhs.accepted hrhs.accepted hkind]
  exact turns_bind (hlhs.kind hleft.isValue stack).closed (turns_bind
    (turns_conversion hleft) (turns_bind (hrhs.kind hright.isValue _).closed
    (turns_bind (turns_conversion hright) (turns_test (htests op onTrue) List.mem_cons_self))))

/-- A concatenation, on its own or as a part of another one. -/
theorem turns_code_concat {lhs rhs : Expr} {left right : Ty}
    (he : (concat n lhs rhs).Accepted ctx .string) (hlhs : lhs.Used ctx registry left)
    (hleft : left ≠ .void) (hrhs : rhs.Used ctx registry right) (hright : right ≠ .void) :
    ((concat n lhs rhs).code registry).Turns ctx (concat n lhs rhs) .string := by
  have hparts : ∀ stack, (do
      (lhs.code registry).append
      (rhs.code registry).append).Turns ctx [] (.reference :: stack) (.reference :: stack) :=
    fun stack => turns_bind (hlhs.turns.append hlhs.unmarked ⟨hlhs.accepted.ne_any, hleft⟩ stack)
      (hrhs.turns.append hrhs.unmarked ⟨hrhs.accepted.ne_any, hright⟩ stack)
  have hvalue := turns_ofValue he rfl fun stack => by
    rw [show leaves (concat n lhs rhs) .string = Ty.string.results from rfl,
      Ty.results_of_isValue (Ty.isValue_of_isReference Ty.isReference_string),
      Ty.kind_of_isReference Ty.isReference_string]
    exact turns_concatValue hparts stack
  exact ⟨hvalue.value, hvalue.branch, hvalue.operands, fun _ _ => hparts⟩

/-! ### Updates and calls -/

theorem turns_code_assign (hregistry : registry.Sound) {op : AssignOp} {lhs rhs : Expr}
    {left right : Ty} (he : (assign n op lhs rhs).Accepted ctx left)
    (hplace : lhs.isAssignable = true) (hlhs : lhs.Used ctx registry left)
    (hrhs : rhs.Used ctx registry right) (hfits : op.Fits left right) :
    ((assign n op lhs rhs).code registry).Turns ctx (assign n op lhs rhs) left := by
  obtain ⟨place, hplaced⟩ := hlhs.accepted.exists_place hplace
  have hvalue := hlhs.accepted.isValue_of_isAssignable hplace
  have hholds := hlhs.accepted.place_holds hplaced
  refine turns_ofValue he rfl fun stack => ?_
  rw [assignValue_eq hlhs.accepted hrhs.accepted hplaced hfits]
  refine turns_bind (hlhs.turns.operands place hplaced stack) (turns_bind
    (turns_newValue hregistry hvalue hholds hfits hrhs.kind stack)
    (turns_bind (turns_optionally (fun hkeep => ?_) fun hkeep => ?_)
      (Place.turns_store hregistry hvalue hholds)))
  · have hleaves : leaves (assign n op lhs rhs) left = [left.kind] := by
      rw [leaves_of_not_isStatement (Bool.not_eq_true' _ ▸ hkeep), Ty.results_of_isValue hvalue]
    rw [hleaves]
    exact Place.turns_keep place left
  · have hleaves : leaves (assign n op lhs rhs) left = [] :=
      if_pos (Bool.not_eq_false' _ ▸ hkeep)
    rw [hleaves]
    rfl

/-- An increment keeps the old value or the new one, or none as a statement. -/
theorem leaves_increment {op : IncrementOp} {operand : Expr} (hvalue : ty.IsValue) :
    leaves (increment n op operand) ty
      = kept (!n.isStatement && !op.isPre) (!n.isStatement && op.isPre) ty := by
  unfold leaves kept
  dsimp only
  rw [Ty.results_of_isValue hvalue]
  cases n.isStatement <;> cases op.isPre <;> rfl

theorem turns_code_increment (hregistry : registry.Sound) {op : IncrementOp} {operand : Expr}
    (he : (increment n op operand).Accepted ctx ty) (hplace : operand.isAssignable = true)
    (hoperand : operand.Used ctx registry ty) (hnumeric : ty.isNumeric = true) :
    ((increment n op operand).code registry).Turns ctx (increment n op operand) ty := by
  obtain ⟨place, hplaced⟩ := hoperand.accepted.exists_place hplace
  have hvalue := hoperand.accepted.isValue_of_isAssignable hplace
  have hholds := hoperand.accepted.place_holds hplaced
  have hkeep : ¬((!n.isStatement && !op.isPre) = true ∧ (!n.isStatement && op.isPre) = true) := by
    cases n.isStatement <;> cases op.isPre <;> decide
  refine turns_ofValue he rfl fun stack => ?_
  rw [leaves_increment hvalue, incrementValue_eq hoperand.accepted hplaced]
  split
  · next slot hslot =>
    unfold intSlot? at hslot
    split at hslot
    · split at hslot
      · next hint =>
        cases hslot
        subst hint
        exact turns_incrementLocal hholds op hkeep stack
      · cases hslot
    · cases hslot
  · exact turns_incrementPlace hregistry hoperand.accepted hplaced hnumeric
      (hoperand.turns.operands place hplaced) hkeep n.line stack

theorem turns_code_call (hthis : ctx.HasReceiver) {target : Option Expr} {text : String}
    {args : List Expr} {method : MethodRef} {params : List Ty}
    (he : (call n target text args (some method)).Accepted ctx method.returnTy)
    (htarget : ∀ e, target = some e → e.Used ctx registry e.tyOrAny)
    (href : ∀ e, target = some e → e.tyOrAny.isReference = true)
    (hown : target = none → method.isStatic = true ∨ ctx.isStatic = false)
    (hargs : ∀ a ∈ args, a.Used ctx registry a.tyOrAny)
    (htakes : method.Takes params (args.map tyOrAny)) :
    ((call n target text args (some method)).code registry).Turns ctx
      (call n target text args (some method)) method.returnTy := by
  have hargsCode : ∀ a ∈ args, ∀ stack,
      (a.code registry).value.Turns ctx [] stack (a.tyOrAny.kind :: stack) := fun a ha =>
    (hargs a ha).kind (htakes.args_isValue _ (List.mem_map_of_mem ha))
  rw [code_call]
  refine turns_ofValue he rfl fun stack => ?_
  rw [callValue_eq]
  refine turns_bind (m := receiverKinds method ++ stack) (turns_optionally (fun hvirtual => ?_)
    fun hstatic => ?_) (turns_bind (turns_args hargsCode _) (turns_call htakes _ text))
  · have hinstance : method.isStatic = false := Bool.not_eq_true' _ ▸ hvirtual
    have hreceiver : receiverKinds method = [.reference] :=
      if_neg (Bool.eq_false_iff.mp hinstance)
    rw [hreceiver]
    cases target with
    | none => exact turns_receiver hthis ((hown rfl).resolve_left (Bool.eq_false_iff.mp hinstance))
    | some target => exact (htarget target rfl).reference (href target rfl) stack
  · have hreceiver : receiverKinds method = [] := if_pos (Bool.not_eq_false' _ ▸ hstatic)
    rw [hreceiver]
    rfl

end Expr

/-- The code of an accepted expression keeps to the stack, whatever is on it. -/
theorem Expr.Accepted.turns (hregistry : registry.Sound) (hthis : ctx.HasReceiver) {e : Expr}
    {ty : Ty} (h : e.Accepted ctx ty) :
    (∀ c ∈ e.children, c.Unmarked) → (e.code registry).Turns ctx e ty := by
  -- What a child does, seen from its parent: the child is not marked.
  have huse : ∀ {c : Expr} {ty : Ty}, c.Accepted ctx ty → c.Unmarked →
      (c.Accepted ctx ty → (∀ d ∈ c.children, d.Unmarked) → (c.code registry).Turns ctx c ty) →
      c.Used ctx registry ty := fun hchild hc ih => ⟨hchild, hc.marked.node, ih hchild hc.marked.below⟩
  have he := h
  induction h with
  | literal =>
    intro _
    exact turns_code_literal he
  | slot _ hlocal hvalue =>
    intro _
    refine turns_ofPlace he rfl hvalue rfl (fun _ => turns_pure) fun stack => ?_
    unfold nameValue
    dsimp only
    rw [he.provenTy, Emit.pure_bind]
    exact Emit.turns_load hvalue hlocal
  | ownField _ hvalue hown =>
    intro _
    exact turns_code_ownField hregistry hthis he hvalue hown
  | @self n ty _ href hinstance =>
    intro _
    refine turns_ofValue he rfl fun stack => ?_
    rw [show Expr.leaves (.self n) ty = ty.results from rfl,
      Ty.results_of_isValue (Ty.isValue_of_isReference href), Ty.kind_of_isReference href]
    exact turns_receiver hthis hinstance
  | field _ hvalue _ htarget href ih =>
    intro hbelow
    have hreference := (huse htarget (hbelow _ List.mem_cons_self) ih).reference href
    exact turns_ofPlace he rfl hvalue rfl hreference fun stack =>
      turns_bind (hreference stack) (turns_getfield hregistry hvalue _)
  | index _ hvalue harray href hposition hindex iharray ihposition =>
    intro hbelow
    exact turns_code_index he hvalue (huse harray (hbelow _ List.mem_cons_self) iharray) href
      (huse hposition (hbelow _ (List.mem_cons_of_mem _ List.mem_cons_self)) ihposition) hindex
  | length _ harray href ih =>
    intro hbelow
    have hreference := (huse harray (hbelow _ List.mem_cons_self) ih).reference href
    refine turns_ofValue he rfl fun stack => turns_bind (hreference stack) ?_
    exact turns_op (t := ([.reference], [.int])) rfl rfl rfl
  | unary _ hoperand hpromoted hintegral ih =>
    intro hbelow
    exact turns_code_unary he (huse hoperand (hbelow _ List.mem_cons_self) ih) hpromoted hintegral
  | not _ hoperand ih =>
    intro hbelow
    have hused := huse hoperand (hbelow _ List.mem_cons_self) ih
    exact turns_ofBranch he rfl rfl fun target onTrue stack =>
      hused.turns.branch hused.unmarked rfl target (!onTrue) stack
  | binary _ hlhs hrhs hrule ihl ihr =>
    intro hbelow
    exact turns_code_binary he (huse hlhs (hbelow _ List.mem_cons_self) ihl)
      (huse hrhs (hbelow _ (List.mem_cons_of_mem _ List.mem_cons_self)) ihr) hrule
  | compare _ hlhs hrhs hoperand ihl ihr =>
    intro hbelow
    exact turns_code_compare he (huse hlhs (hbelow _ List.mem_cons_self) ihl)
      (huse hrhs (hbelow _ (List.mem_cons_of_mem _ List.mem_cons_self)) ihr) hoperand
  | equality _ hlhs hrhs hkind ihl ihr =>
    intro hbelow
    exact turns_code_equality he (huse hlhs (hbelow _ List.mem_cons_self) ihl)
      (huse hrhs (hbelow _ (List.mem_cons_of_mem _ List.mem_cons_self)) ihr) hkind
  | logical _ hlhs hrhs ihl ihr =>
    intro hbelow
    have hl := huse hlhs (hbelow _ List.mem_cons_self) ihl
    have hr := huse hrhs (hbelow _ (List.mem_cons_of_mem _ List.mem_cons_self)) ihr
    exact turns_ofBranch he rfl rfl
      (turns_logicalJump _ (hl.turns.branch hl.unmarked rfl) (hr.turns.branch hr.unmarked rfl))
  | concat _ hlhs hleft hrhs hright ihl ihr =>
    intro hbelow
    exact turns_code_concat he (huse hlhs (hbelow _ List.mem_cons_self) ihl) hleft
      (huse hrhs (hbelow _ (List.mem_cons_of_mem _ List.mem_cons_self)) ihr) hright
  | assign _ hplace hlhs hrhs hfits ihl ihr =>
    intro hbelow
    exact turns_code_assign hregistry he hplace (huse hlhs (hbelow _ List.mem_cons_self) ihl)
      (huse hrhs (hbelow _ (List.mem_cons_of_mem _ List.mem_cons_self)) ihr) hfits
  | increment _ hplace hoperand hnumeric ih =>
    intro hbelow
    exact turns_code_increment hregistry he hplace
      (huse hoperand (hbelow _ List.mem_cons_self) ih) hnumeric
  | call _ htarget href hown hargs htakes ihtarget ihargs =>
    intro hbelow
    refine turns_code_call hthis he (fun e hsome => ?_) href hown (fun a ha => ?_) htakes
    · subst hsome
      exact huse (htarget e rfl) (hbelow e List.mem_cons_self) (ihtarget e rfl)
    · exact huse (hargs a ha) (hbelow a (List.mem_append_right _ ha)) (ihargs a ha)

end ClassCompiler
