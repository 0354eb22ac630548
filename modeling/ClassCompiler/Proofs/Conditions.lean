import ClassCompiler.Proofs.Code.Evaluation
import ClassCompiler.Proofs.Compiler

/-!
# Conditions of a unit

In a unit that is analyzed without an error, every condition on literals, locals and static calls jumps
as its value says, in whatever code it stands, and for all that the calls may answer. `NaN` is no
exception: the relations with it are false, and so their negations jump.

* `ExprCode.Tests`: what the code of a condition with a given value does
* `Compiler.conditions_test`
-/

namespace ClassCompiler

open Emit

/-- The code of a condition can be generated. It jumps to a label if the value is the given one, and
goes on behind itself otherwise; or it pushes the value. The calls that are made are those after the
evaluation, and the rest of the stack stays. -/
structure ExprCode.Tests (world : World) (locals : Nat → Value) (calls : List Call)
    (code : ExprCode) (b : Bool) (after : List Call) : Prop where
  branch_completes : ∀ target onTrue, (code.branch target onTrue).Completes
  branch : ∀ target onTrue stack, (code.branch target onTrue).Leads (valueMachine world)
    ⟨stack, locals, calls⟩ (.done (if b = onTrue then .jump target ⟨stack, locals, after⟩
      else .next ⟨stack, locals, after⟩))
  value_completes : code.value.Completes
  value : ∀ stack, code.value.Leads (valueMachine world) ⟨stack, locals, calls⟩
    (.done (.next ⟨.int (if b then 1 else 0) :: stack, locals, after⟩))

theorem Expr.Accepted.tests {ctx : BodyCtx} {e : Expr} (h : e.Accepted ctx .boolean)
    (hsimple : e.isSimple = true) {locals : Nat → Value} (hheld : e.HeldBy locals)
    (registry : Registry) (world : World) (calls : List Call) :
    ∃ b, (e.eval registry world locals calls).1 = .bool b
      ∧ (e.code registry).Tests world locals calls b (e.eval registry world locals calls).2 := by
  have hcomputes := h.computes hsimple hheld registry world calls
  have hsucceeds := h.succeeds registry
  obtain ⟨b, hb⟩ := (hcomputes.fits Ty.isValue_boolean.2).bool
  have hvalue := hcomputes.push Ty.isValue_boolean.2
  rw [hb] at hvalue
  refine ⟨b, hb, fun target onTrue => (hsucceeds.branch target onTrue).completes,
    fun target onTrue stack => ?_, hsucceeds.value.completes, hvalue⟩
  have hjumps := hcomputes.jumpsOn hb target onTrue stack
  unfold Effect.branch at hjumps
  simpa only [beq_iff_eq] using hjumps

namespace Compiler

variable {compiler : Compiler} {unit : CompilationUnit}

/-- The code of the conditions in a unit that is analyzed without an error does what they mean. -/
theorem conditions_test (hreach : compiler.registry.Reachable)
    (hnames : unit.NamesApart (compiler.analysis unit).state)
    (herrors : (compiler.analysis unit).errors = []) :
    ∀ method ∈ (compiler.analysis unit).value.1.methods, ∀ e ∈ method.nodes,
      e.isSimple = true → e.ty = some .boolean →
      ∀ registry world locals calls, e.HeldBy locals →
        ∃ b, (e.eval registry world locals calls).1 = .bool b
          ∧ (e.code registry).Tests world locals calls b
            (e.eval registry world locals calls).2 := by
  intro method hmethod e he hsimple hty registry world locals calls hheld
  obtain ⟨decl, hdecl, hmember⟩ := CompilationUnit.mem_methods.mp hmethod
  obtain ⟨signature, frame, hanalyzed⟩ :=
    ((accepts_analysis hreach hnames herrors).types decl hdecl).members method hmember
  obtain ⟨ty, haccepted⟩ := hanalyzed.nodes e he
  rw [haccepted.ty_eq] at hty
  cases hty
  exact haccepted.tests hsimple hheld registry world calls

end Compiler

/-- The unit `class Main { static double at(int i) { return 0.0; } static boolean near(double x, boolean
b) { return !(b && at(1) < x) || x != at(2); } }`. -/
def nearUnit : CompilationUnit where
  file := "Main.java"
  package := none
  imports := []
  types :=
    [{ line := 1
       mods := .accPublic
       name := "Main"
       isInterface := false
       superclass := none
       interfaces := []
       members :=
        [.method
          { line := 2
            mods := .accStatic
            name := "at"
            returnType := ⟨"double", 0, 2⟩
            params := [⟨2, "i", ⟨"int", 0, 2⟩⟩]
            exceptions := []
            body := some ⟨[.ret (some (.literal { line := 2 } (.double .zero))) 2], 2⟩ },
         .method
          { line := 3
            mods := .accStatic
            name := "near"
            returnType := ⟨"boolean", 0, 3⟩
            params := [⟨3, "x", ⟨"double", 0, 3⟩⟩, ⟨3, "b", ⟨"boolean", 0, 3⟩⟩]
            exceptions := []
            body := some
              ⟨[.ret (some (.logical { line := 3 } .or
                  (.not { line := 3 } (.logical { line := 3 } .and (.name { line := 3 } "b" none)
                    (.compare { line := 3 } .less
                      (.call { line := 3 } none "at" [.literal { line := 3 } (.int 1)] none)
                      (.name { line := 3 } "x" none))))
                  (.equality { line := 3 } .notEqual (.name { line := 3 } "x" none)
                    (.call { line := 3 } none "at" [.literal { line := 3 } (.int 2)] none)))) 3],
                3⟩ }] }]

/-- The locals of the second method, the first of them not a number. -/
def nearLocals : Nat → Value
  | 0 => .double ⟨0x7ff8000000000000⟩
  | _ => .bool true

theorem conditions_test_near :
    Registry.builtin.Reachable ∧ nearUnit.NamesApart (Compiler.analysis {} nearUnit).state
      ∧ (Compiler.analysis {} nearUnit).errors = []
      ∧ ∃ method ∈ (Compiler.analysis {} nearUnit).value.1.methods, ∃ e ∈ method.nodes,
        e.isSimple = true ∧ e.ty = some .boolean ∧ e.HeldBy nearLocals
        ∧ ∃ call, (e.code (Compiler.analysis {} nearUnit).state).Tests .zeros nearLocals [] true
          [call] := by
  have hnames : nearUnit.NamesApart (Compiler.analysis {} nearUnit).state :=
    ⟨by decide +kernel, by decide +kernel, by decide +kernel⟩
  have hclean : (Compiler.analysis {} nearUnit).errors = [] := by decide +kernel
  have hcondition : ∃ method ∈ (Compiler.analysis {} nearUnit).value.1.methods,
      ∃ e ∈ method.nodes, e.isSimple = true ∧ e.ty = some .boolean
        ∧ (∀ d ∈ e.nodes, d.namedLocal?.all (· ∈ [⟨0, .double⟩, ⟨2, .boolean⟩]) = true)
        ∧ (e.eval (Compiler.analysis {} nearUnit).state .zeros nearLocals []).1 = .bool true
        ∧ (e.eval (Compiler.analysis {} nearUnit).state .zeros nearLocals []).2.length = 1 := by
    decide +kernel
  obtain ⟨method, hmethod, e, he, hsimple, hty, hlocals, hvalue, hcalls⟩ := hcondition
  have hheld : e.HeldBy nearLocals := by
    intro d hd named hnamed
    have hmem := hlocals d hd
    rw [hnamed] at hmem
    rcases List.mem_pair.mp (of_decide_eq_true hmem) with rfl | rfl
    · exact Value.fits_prim (p := .double) (by decide) rfl
    · exact Value.fits_bool true
  obtain ⟨b, hb, htests⟩ := Compiler.conditions_test .builtin hnames hclean method hmethod e he
    hsimple hty (Compiler.analysis {} nearUnit).state .zeros nearLocals [] hheld
  obtain ⟨call, hcall⟩ := List.length_eq_one_iff.mp hcalls
  rw [hvalue] at hb
  have hb : b = true := by
    cases b
    · cases hb
    · rfl
  rw [hb, hcall] at htests
  exact ⟨.builtin, hnames, hclean, method, hmethod, e, he, hsimple, hty, hheld, call, htests⟩

end ClassCompiler
