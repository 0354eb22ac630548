import ClassCompiler.Proofs.Body.Expr
import ClassCompiler.Proofs.Code.Places
import ClassCompiler.Proofs.Compiler

/-!
# Appending to a string

`target += operand` on a `String` becomes the assignment of a concatenation whose first part is the
target once more. The old value is read before the operand is evaluated, and the string that is stored
is the old one with the string form of the operand behind it.

The operands of the target are evaluated twice, for the store and for the old value. Where they have no
effects this cannot be seen: what is read is what is stored to.

* `Expr.Spells`: the string form of an evaluated expression
* `Expr.takes_append`: the two evaluations of a target
* `Expr.appends`
-/

namespace ClassCompiler

open Emit ExprCode

/-! ## String forms -/

namespace Expr

/-- Is it a concatenation, whose parts are appended one by one? -/
def isConcat : Expr → Bool
  | concat .. => true
  | _ => false

/-- The expression is evaluated, from one store to another, and this is its string form. -/
inductive Spells (outside : Outside) (registry : Registry) : Expr → Store → String → Store → Prop
  | value {e : Expr} {v : Value} {before middle after : Store} {text : String}
    (hparts : e.isConcat = false)
    (hvalue : ∀ stack, (e.code registry).value.Takes outside stack before (.value v :: stack) middle)
    (hform : outside.formOf (appendDescriptor e.tyOrAny) v middle = some (text, after)) :
    Spells outside registry e before text after
  | concat {n : Node} {lhs rhs : Expr} {before middle after : Store} {one two : String}
    (hlhs : Spells outside registry lhs before one middle)
    (hrhs : Spells outside registry rhs middle two after) :
    Spells outside registry (.concat n lhs rhs) before (one ++ two) after

end Expr

variable {ctx : BodyCtx} {outside : Outside} {registry : Registry} {store before middle after : Store}
  {stack rest : List Item}

theorem takes_appendValue {ty : Ty} {v : Value} {part text : String}
    (h : outside.formOf (appendDescriptor ty) v store = some (text, after)) :
    (instr (appendValue ty)).Takes outside (.value v :: .builder part :: stack) store
      (.builder (part ++ text) :: stack) after := by
  refine takes_act ?_
  show (if builderName = builderName then
    (outside.formOf (appendDescriptor ty) v store).map _ else none) = _
  rw [if_pos rfl, h]
  rfl

theorem Expr.append_of_isConcat {e : Expr} (h : e.isConcat = false) :
    (e.code registry).append = appendOnce e (e.code registry).value := by
  cases e with
  | concat => cases h
  | literal n value => cases value <;> rfl
  | call n target text args method =>
    rw [code_call]
    rfl
  | _ => rfl

/-- The code of a part appends the string form. -/
theorem Expr.Spells.takes {e : Expr} {ty : Ty} {text : String} (he : e.Accepted ctx ty)
    (h : e.Spells outside registry before text after) (part : String) (stack : List Item) :
    (e.code registry).append.Takes outside (.builder part :: stack) before
      (.builder (part ++ text) :: stack) after := by
  induction h generalizing ty part with
  | value hparts hvalue hform =>
    rw [append_of_isConcat hparts, appendOnce_eq he]
    rw [he.tyOrAny_eq] at hform
    exact leads_then (hvalue _) (he.succeeds registry).value.completes (takes_appendValue hform)
  | concat _ _ ihl ihr =>
    cases he with
    | concat _ hlhs _ hrhs =>
      rw [← String.append_assoc]
      exact leads_then (ihl hlhs part) (hlhs.succeeds registry).append.completes (ihr hrhs _)

/-- A new builder, its parts, and the string that they make. -/
theorem takes_concatValue {parts : Emit Unit} {text : String} (hcompletes : parts.Completes)
    (h : parts.Takes outside (.builder "" :: stack) before (.builder text :: stack) after) :
    (concatValue parts).Takes outside stack before
      (.value (.reference (some after.free)) :: stack) (after.alloc text) := by
  have hnew : (instr (.reference .newObject builderName)).Takes outside stack before
      (.builder "" :: stack) before := takes_act rfl
  have hcopy : (op .dup).Takes outside (.builder "" :: stack) before
      (.builder "" :: .builder "" :: stack) before := takes_act rfl
  have hinit : (instr (.member .invokespecial builderName "<init>" "()V")).Takes outside
      (.builder "" :: .builder "" :: stack) before (.builder "" :: stack) before :=
    takes_act rfl
  have hstring : (instr (.member .invokevirtual builderName "toString"
      "()Ljava/lang/String;")).Takes outside (.builder text :: stack) after
      (.value (.reference (some after.free)) :: stack) (after.alloc text) := takes_act rfl
  exact leads_then hnew (completes_instr _) (leads_then hcopy (completes_instr _)
    (leads_then hinit (completes_instr _) (leads_then h hcompletes hstring)))

/-! ## Assignments -/

/-- The operands of a place are evaluated, from one store to another, and this is its location. -/
structure Expr.Locates (outside : Outside) (registry : Registry) (e : Expr) (before : Store)
    (location : Location) (after : Store) : Prop where
  operands : ∀ stack, (e.code registry).operands.Takes outside stack before
    (location.operands ++ stack) after
  place : ∃ place, e.place = .ok place ∧ place.Denotes registry location

/-- What `+=` stores: the old string with another one behind it. It is a new string, and it is left on
the stack if the assignment is used for its value. -/
def Expr.Stores (outside : Outside) (registry : Registry) (e : Expr) (before : Store)
    (location : Location) (text : String) (after : Store) : Prop :=
  ∀ stack, (e.code registry).value.Takes outside stack before
    ((if e.isStatement then [] else [.value (.reference (some after.free))]) ++ stack)
    ((after.alloc text).write location (.reference (some after.free)))

/-- The two evaluations of a target: the first gives the location that is stored to, and the second the
old value. -/
theorem Expr.takes_append {n : Node} {target value : Expr} {ty : Ty} {location : Location}
    {first : Store} {old : Option Nat} {text : String}
    (he : (Expr.assign n (.compound .add) target (appendedValue target value)).Accepted ctx .string)
    (htarget : target.Accepted ctx .string) (hassignable : target.isAssignable = true)
    (hvalue : value.Accepted ctx ty) (hfirst : target.Locates outside registry before location first)
    (hsecond : ∀ stack, (target.code registry).value.Takes outside stack first
      (.value (.reference old) :: stack) middle)
    (hspells : value.Spells outside registry middle text after)
    (hpresent : (after.read location).isSome = true) :
    (Expr.assign n (.compound .add) target (appendedValue target value)).Stores outside registry before
      location (middle.text old ++ text) after := by
  obtain ⟨place, hplace, hdenotes⟩ := hfirst.place
  obtain ⟨present, hpresent⟩ := Option.isSome_iff_exists.mp hpresent
  intro stack
  have hparts : target.isConcat = false := by
    cases target <;> first | rfl | cases hassignable
  cases he with
  | assign _ _ _ hrhs hfits =>
    have hold : (target.code registry).append.Takes outside (.builder "" :: (location.operands ++ stack))
        first (.builder (middle.text old) :: (location.operands ++ stack)) middle := by
      rw [append_of_isConcat hparts, appendOnce_eq htarget, ← String.empty_append (s := middle.text old)]
      exact leads_then (hsecond _) (htarget.succeeds registry).value.completes
        (takes_appendValue (if_pos rfl))
    have hjoined : ((appendedValue target value).code registry).value.Takes outside
        (location.operands ++ stack) first
        (.value (.reference (some after.free)) :: (location.operands ++ stack))
        (after.alloc (middle.text old ++ text)) := by
      refine takes_concatValue (completes_bind (htarget.succeeds registry).append.completes
        (hvalue.succeeds registry).append.completes) ?_
      exact leads_then hold (htarget.succeeds registry).append.completes (hspells.takes hvalue _ _)
    have hkept : (Emit.optionally (!n.isStatement) (place.keep .string)).Takes outside
        (.value (.reference (some after.free)) :: (location.operands ++ stack))
        (after.alloc (middle.text old ++ text))
        (.value (.reference (some after.free)) :: (location.operands
          ++ ((if n.isStatement then [] else [.value (.reference (some after.free))]) ++ stack)))
        (after.alloc (middle.text old ++ text)) := by
      unfold Emit.optionally
      cases n.isStatement with
      | true => exact leads_pure _
      | false => exact Place.takes_keep hdenotes
    show (assignValue registry n (.compound .add) target (appendedValue target value)
      (target.code registry).operands ((appendedValue target value).code registry).value).Takes
        _ _ _ _ _
    rw [assignValue_eq htarget hrhs hplace hfits, newValue, if_pos ⟨rfl, rfl⟩]
    have hoperands := ((htarget.succeeds registry).operands hassignable).completes
    have hcompletes := (hrhs.succeeds registry).value.completes
    have hkeeps := (Emit.succeeds_optionally (!n.isStatement) (place.keep_succeeds .string)).completes
    exact leads_then (hfirst.operands stack) hoperands (leads_then hjoined hcompletes
      (leads_then hkept hkeeps (Place.takes_store hdenotes hpresent)))

namespace Expr

/-- The analyzed target of an assignment. -/
def checkedTarget (env : ExprEnv) (scope : Scope) (target : Expr) : Expr :=
  ((checkTarget env target).run scope).value

/-- The analyzed right side of an assignment. -/
def checkedOperand (env : ExprEnv) (scope : Scope) (target operand : Expr) : Expr :=
  ((operand.check env).run ((checkTarget env target).run scope).state).value

variable {env : ExprEnv} {scope : Scope} {n : Node} {target operand : Expr}

theorem isAssignable_of_check {op : AssignOp}
    (hclean : (((assign n op target operand).check env).run scope).errors = []) :
    (checkedTarget env scope target).isAssignable = true := by
  rw [check_assign, Check.run_bind] at hclean
  by_contra hplace
  have hnot : (checkedTarget env scope target).isAssignable ≠ true := hplace
  unfold checkedTarget at hnot
  rw [if_neg hnot, Check.run_bind, Check.run_report] at hclean
  have hfound := (List.append_eq_nil_iff.mp (List.append_eq_nil_iff.mp hclean).2).1
  cases hfound

/-- The right side of `+=` on a `String` is a concatenation after the analysis. -/
theorem value_check_append
    (hplace : (checkedTarget env scope target).isAssignable = true)
    (hty : (checkedTarget env scope target).ty = some .string) :
    (((assign n (.compound .add) target operand).check env).run scope).value
      = assign { n with ty := some .string } (.compound .add) (checkedTarget env scope target)
        (appendedValue (checkedTarget env scope target)
          (checkedOperand env scope target operand)) := by
  have hjudged : judgeAssign env.registry (.compound .add) (checkedTarget env scope target)
      (checkedOperand env scope target operand) n.line
      = (appendedValue (checkedTarget env scope target) (checkedOperand env scope target operand),
        ⟨some .string, expectConcatenable (checkedOperand env scope target operand)⟩) := by
    have hleft : (checkedTarget env scope target).tyOrAny = .string := by
      unfold tyOrAny
      rw [hty]
      rfl
    unfold judgeAssign checkAssignment
    simp only [hleft, if_neg Ty.string_ne_any]
    rfl
  rw [check_assign, Check.run_bind]
  change (Check.run (if (checkedTarget env scope target).isAssignable = true then _ else _) _).value = _
  rw [if_pos hplace]
  simp only [Check.run_bind]
  change (Check.run (Check.note (assign (judged n (judgeAssign env.registry (.compound .add)
    (checkedTarget env scope target) (checkedOperand env scope target operand) n.line).2) _ _
    (judgeAssign env.registry (.compound .add) (checkedTarget env scope target)
      (checkedOperand env scope target operand) n.line).1) _) _).value = _
  rw [hjudged, Check.run_note]
  rfl

/-- What `target += operand` does on a `String`, if it is analyzed without an error. The operands of the
target are evaluated twice; the old value is read where the second evaluation leads, then the operand is
evaluated, and the string is stored where the first evaluation leads. If the operands of the target have
no effects, both lead to the same place. -/
theorem appends (henv : env.Sound) (hscope : scope.Within ctx)
    (hclean : (((assign n (.compound .add) target operand).check env).run scope).errors = [])
    (hty : (checkedTarget env scope target).ty = some .string) (outside : Outside)
    (registry : Registry) (before : Store) :
    (∀ location first old middle text after,
      (checkedTarget env scope target).Locates outside registry before location first →
      (∀ stack, ((checkedTarget env scope target).code registry).value.Takes outside stack first
        (.value (.reference old) :: stack) middle) →
      (checkedOperand env scope target operand).Spells outside registry middle text after →
      (after.read location).isSome = true →
      (((assign n (.compound .add) target operand).check env).run scope).value.Stores outside registry
        before location (middle.text old ++ text) after)
    ∧ (∀ location old text after,
      (checkedTarget env scope target).location? outside registry before = some location →
      before.read location = some (.reference old) →
      (checkedOperand env scope target operand).Spells outside registry before text after →
      (after.read location).isSome = true →
      (((assign n (.compound .add) target operand).check env).run scope).value.Stores outside registry
        before location (before.text old ++ text) after) := by
  have hplace := isAssignable_of_check hclean
  have hsettled := (check_clean henv _ scope hscope hclean).accepted
  rw [value_check_append hplace hty] at hsettled ⊢
  have hstored : Accepted ctx _ .string := hsettled
  cases hsettled with
  | assign _ _ hlhs hrhs hfits =>
    have htarget : (checkedTarget env scope target).Accepted ctx .string := by
      have heq := hlhs.ty_eq
      rw [hty] at heq
      cases heq
      exact hlhs
    cases hrhs with
    | concat _ _ _ hvalue _ =>
      constructor
      · intro location first old middle text after hfirst hsecond hspells hpresent
        exact takes_append hstored htarget hplace hvalue hfirst hsecond hspells hpresent
      · intro location old text after hlocation hold hspells hpresent
        obtain ⟨place, hfound⟩ := htarget.exists_place hplace
        have hfirst : (checkedTarget env scope target).Locates outside registry before location
            before := ⟨htarget.takes_operands hlocation, place, hfound, denotes hfound hlocation⟩
        have hpeek := (peek?_of_location? hlocation).trans hold
        exact takes_append hstored htarget hplace hvalue hfirst (htarget.takes_peek hpeek) hspells
          hpresent

end Expr

/-! ## An array of strings -/

/-- The array type over `String`, in a registry that has it. -/
def stringArray : Ty × Registry := Registry.builtin.arrayOfDims .string 1

theorem sound_stringArray : stringArray.2.Sound := by
  have hcontains : Registry.builtin.contains .string = true := by decide +kernel
  have hvoid : Ty.string ≠ .void := by decide +kernel
  have hapart : HandlesApart (reservedNames ++ stringArray.2.arrayNames) := by decide +kernel
  have harrays : stringArray.2.Apart :=
    hapart.arrays (List.subset_append_left _ _) (List.subset_append_right _ _)
  unfold stringArray at harrays ⊢
  exact (Registry.sound_builtin.arrayOfDims hcontains 1 harrays Ty.string_ne_any fun _ => hvoid).1

/-- A class `Main` in a program that uses arrays of strings. -/
def arrayEnv : ExprEnv where
  classes := {}
  owner := Ty.named "Main"
  registry := stringArray.2

theorem sound_arrayEnv : arrayEnv.Sound := by
  have howner : (Ty.named "Main").isReference = true := by decide +kernel
  have hregistry : arrayEnv.registry = stringArray.2 := by
    simp only [arrayEnv]
  exact ⟨fun _ h => (List.not_mem_nil h).elim, hregistry ▸ sound_stringArray, howner⟩

/-- The locals of a static method with the parameters `String[] a` and `int i`. -/
def arrayCtx : BodyCtx where
  isStatic := true
  returnTy := .void
  locals := [⟨0, stringArray.1⟩, ⟨1, .int⟩]

def arrayScope : Scope :=
  (((Scope.start .void [] true).allocate "a" stringArray.1 true 2).2.allocate "i" .int true 2).2

theorem within_arrayScope : arrayScope.Within arrayCtx where
  isStatic := rfl
  returnTy := rfl
  visible := by
    have hvisible : ∀ pair ∈ arrayScope.visible.pairs,
        pair.2.owned ∈ arrayCtx.locals ∧ pair.2.ty ≠ .any ∧ pair.2.ty ≠ .void := by decide +kernel
    exact hvisible
  shadowed := fun _ h => (List.not_mem_nil h).elim

/-- `a[position] += "x"` as a statement. -/
def appendAt (position : Expr) : Expr :=
  .assign { line := 3, isStatement := true } (.compound .add)
    (.index { line := 3 } (.name { line := 3 } "a" none) position)
    (.literal { line := 3 } (.string "x"))

/-- An outside without operators and calls, and the string `x` at address 20. -/
def plainOutside : Outside where
  constant _ := 20
  unary _ _ := none
  binary _ _ _ := none
  form _ _ _ := none
  other _ _ := none

/-- The array `a` at address 5 holds `p` and `q`, and `i` is zero. -/
def arrayStore : Store where
  cells
    | .slot 0 => some (.reference (some 5))
    | .slot 1 => some (.int 0)
    | .element 5 0 => some (.reference (some 10))
    | .element 5 1 => some (.reference (some 11))
    | _ => none
  lengths address := if address = 5 then some 2 else none
  texts
    | 10 => "p"
    | 11 => "q"
    | _ => "x"
  free := 30

/-- The variable `i`. -/
def indexName : Expr := .name { line := 3 } "i" none

theorem appends_element :
    arrayEnv.Sound ∧ arrayScope.Within arrayCtx
      ∧ (((appendAt indexName).check arrayEnv).run arrayScope).errors = []
      ∧ arrayStore.read (.element 5 0) = some (.reference (some 10)) ∧ arrayStore.text (some 10) = "p"
      ∧ (((appendAt indexName).check arrayEnv).run arrayScope).value.Stores plainOutside
        arrayEnv.registry arrayStore (.element 5 0) "px" arrayStore := by
  have hclean : (((appendAt indexName).check arrayEnv).run arrayScope).errors = [] := by
    decide +kernel
  have hty : (Expr.checkedTarget arrayEnv arrayScope
      (.index { line := 3 } (.name { line := 3 } "a" none) indexName)).ty = some .string := by
    decide +kernel
  have hlocation : (Expr.checkedTarget arrayEnv arrayScope
      (.index { line := 3 } (.name { line := 3 } "a" none) indexName)).location? plainOutside
        arrayEnv.registry arrayStore = some (.element 5 0) := by decide +kernel
  have hspells : (Expr.literal { line := 3, ty := some .string } (.string "x")).Spells plainOutside
      arrayEnv.registry arrayStore "x" arrayStore :=
    .value (v := .reference (some 20)) rfl (fun _ => takes_constant rfl rfl) (if_pos rfl)
  have happends := Expr.appends sound_arrayEnv within_arrayScope hclean hty plainOutside
    arrayEnv.registry arrayStore
  exact ⟨sound_arrayEnv, within_arrayScope, hclean, rfl, rfl,
    happends.2 (.element 5 0) (some 10) "x" arrayStore hlocation rfl hspells rfl⟩

/-- The code of `a[i++] += "x"`. -/
def advancingCode : List Instr :=
  (((((appendAt (.increment { line := 3 } .postIncrement indexName)).check arrayEnv).run
    arrayScope).value.code arrayEnv.registry).value.run 0).code

/-- With `i++` for the index, the string in `a[1]` is read and the longer one is stored in `a[0]`. -/
theorem appends_advancing :
    (((appendAt (.increment { line := 3 } .postIncrement indexName)).check arrayEnv).run
        arrayScope).errors = []
      ∧ arrayStore.read (.element 5 0) = some (.reference (some 10)) ∧ arrayStore.text (some 10) = "p"
      ∧ ∃ n last, (storeMachine plainOutside).Runs advancingCode n
          (.running advancingCode ⟨[], arrayStore⟩) (.running [] ⟨[], last⟩)
        ∧ last.read (.slot 1) = some (.int 2)
        ∧ last.read (.element 5 0) = some (.reference (some 30)) ∧ last.text (some 30) = "qx" := by
  have hdone : (plainOutside.actAll? advancingCode [] arrayStore).any (fun done => done.1 == []
      && done.2.read (.slot 1) == some (.int 2)
      && done.2.read (.element 5 0) == some (.reference (some 30))
      && done.2.text (some 30) == "qx") = true := by decide +kernel
  cases hact : plainOutside.actAll? advancingCode [] arrayStore with
  | none =>
    rw [hact] at hdone
    cases hdone
  | some done =>
    rw [hact] at hdone
    simp only [Option.any_some, Bool.and_eq_true, beq_iff_eq] at hdone
    obtain ⟨⟨⟨hempty, hslot⟩, helement⟩, htext⟩ := hdone
    have hruns := Outside.runs_actAll advancingCode hact
    rw [hempty] at hruns
    exact ⟨by decide +kernel, rfl, rfl, _, done.2, hruns, hslot, helement, htext⟩

end ClassCompiler
