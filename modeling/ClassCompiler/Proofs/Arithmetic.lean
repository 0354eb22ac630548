import ClassCompiler.Proofs.Code.Arithmetic
import ClassCompiler.Proofs.Compiler

/-!
# Integral expressions of a unit

In a unit that is analyzed without an error, every expression of integral literals, locals and
operators computes the integer that it means: operands are promoted, results wrap around, distances
lose their high bits, and a division by zero raises an exception where it stands.

* `Compiler.arithmetic_computes`
-/

namespace ClassCompiler

open Emit

namespace Compiler

variable {compiler : Compiler} {unit : CompilationUnit}

/-- The code of an integral expression leaves the value of the expression, in the kind of its type,
above an unchanged stack; or it ends in a division by zero while the same operands wait. -/
theorem arithmetic_computes (hreach : compiler.registry.Reachable)
    (hnames : unit.NamesApart (compiler.analysis unit).state)
    (herrors : (compiler.analysis unit).errors = []) :
    ∀ method ∈ (compiler.analysis unit).value.1.methods, ∀ e ∈ method.nodes,
      e.isArithmetic = true → ∀ registry host memory, e.HeldIn memory →
        (e.code registry).value.Completes ∧ ∃ ty computed, e.ty = some ty
          ∧ e.scalar? memory = some computed
          ∧ (e.code registry).value.Yields host memory [] ty computed := by
  intro method hmethod e he hform registry host memory hheld
  obtain ⟨decl, hdecl, hmember⟩ := CompilationUnit.mem_methods.mp hmethod
  obtain ⟨signature, frame, hanalyzed⟩ :=
    ((accepts_analysis hreach hnames herrors).types decl hdecl).members method hmember
  obtain ⟨ty, haccepted⟩ := hanalyzed.nodes e he
  obtain ⟨computed, hcomputed, hyields⟩ := haccepted.yields hform hheld registry host
  exact ⟨(haccepted.succeeds registry).value.completes, ty, computed, haccepted.ty_eq, hcomputed,
    hyields⟩

end Compiler

/-- The unit `class Main { static long mix(int i, long d, char c) { return (~i >>> d) * 1000000007L
- c / (i + i); } }`. -/
def mixUnit : CompilationUnit where
  file := "Main.java"
  package := none
  imports := []
  types :=
    [{ line := 1
       mods := .accPublic
       name := "Main"
       isInterface := false
       superclass := none
       interfaces := []
       members :=
        [.method
          { line := 2
            mods := .accStatic
            name := "mix"
            returnType := ⟨"long", 0, 2⟩
            params := [⟨2, "i", ⟨"int", 0, 2⟩⟩, ⟨2, "d", ⟨"long", 0, 2⟩⟩, ⟨2, "c", ⟨"char", 0, 2⟩⟩]
            exceptions := []
            body := some
              ⟨[.ret (some (.binary { line := 2 } .sub
                  (.binary { line := 2 } .mul
                    (.binary { line := 2 } .ushr
                      (.unary { line := 2 } .bitNot (.name { line := 2 } "i" none))
                      (.name { line := 2 } "d" none))
                    (.literal { line := 2 } (.long 1000000007)))
                  (.binary { line := 2 } .div (.name { line := 2 } "c" none)
                    (.binary { line := 2 } .add (.name { line := 2 } "i" none)
                      (.name { line := 2 } "i" none))))) 2],
                2⟩ }] }]

/-- The least number of the width, a long distance, and a character. -/
def mixMemory : Memory where
  store :=
    { cells := fun
        | .slot 0 => some (.int (-2147483648))
        | .slot 1 => some (.long 33)
        | .slot 3 => some (.int 97)
        | _ => none
      lengths := fun _ => none
      texts := fun _ => ""
      free := 0 }
  written := []

/-- The distance loses its high bits, and the divisor wraps around to zero. -/
theorem arithmetic_computes_mix :
    Registry.builtin.Reachable ∧ mixUnit.NamesApart (Compiler.analysis {} mixUnit).state
      ∧ (Compiler.analysis {} mixUnit).errors = []
      ∧ ∃ method ∈ (Compiler.analysis {} mixUnit).value.1.methods, ∃ e ∈ method.nodes,
        ∃ whole ∈ method.nodes, e.isArithmetic = true ∧ whole.isArithmetic = true
        ∧ e.HeldIn mixMemory ∧ whole.HeldIn mixMemory
        ∧ (e.code (Compiler.analysis {} mixUnit).state).value.Yields .zeros mixMemory [] .long
          (.value (.number .long 1073741830516192761))
        ∧ (whole.code (Compiler.analysis {} mixUnit).state).value.Yields .zeros mixMemory [] .long
          (.raises [0, 97, 1073741830516192761]) := by
  have hnames : mixUnit.NamesApart (Compiler.analysis {} mixUnit).state :=
    ⟨by decide +kernel, by decide +kernel, by decide +kernel⟩
  have hclean : (Compiler.analysis {} mixUnit).errors = [] := by decide +kernel
  have hnodes : ∃ method ∈ (Compiler.analysis {} mixUnit).value.1.methods, ∃ e ∈ method.nodes,
      ∃ whole ∈ method.nodes, e.isArithmetic = true ∧ whole.isArithmetic = true
        ∧ (∀ d ∈ e.nodes, d.namedLocal?.all (· ∈ [⟨0, .int⟩, ⟨1, .long⟩, ⟨3, .char⟩]) = true)
        ∧ (∀ d ∈ whole.nodes, d.namedLocal?.all (· ∈ [⟨0, .int⟩, ⟨1, .long⟩, ⟨3, .char⟩]) = true)
        ∧ e.ty = some .long ∧ whole.ty = some .long
        ∧ e.scalar? mixMemory = some (.value (.number .long 1073741830516192761))
        ∧ whole.scalar? mixMemory = some (.raises [0, 97, 1073741830516192761]) := by
    decide +kernel
  obtain ⟨method, hmethod, e, he, whole, hwhole, hform, hformWhole, hlocals, hlocalsWhole, hty,
    htyWhole, hvalue, hraises⟩ := hnodes
  have hheld : ∀ e : Expr,
      (∀ d ∈ e.nodes, d.namedLocal?.all (· ∈ [⟨0, .int⟩, ⟨1, .long⟩, ⟨3, .char⟩]) = true) →
      e.HeldIn mixMemory := by
    intro e hlocals d hd named hnamed
    have hmem := hlocals d hd
    rw [hnamed] at hmem
    have hcases := of_decide_eq_true hmem
    simp only [List.mem_cons, List.not_mem_nil, or_false] at hcases
    rcases hcases with rfl | rfl | rfl
    · exact ⟨_, rfl, Value.fits_prim (p := .int) (by decide) rfl⟩
    · exact ⟨_, rfl, Value.fits_prim (p := .long) (by decide) rfl⟩
    · exact ⟨_, rfl, Value.fits_prim (p := .char) (by decide) rfl⟩
  obtain ⟨-, ty, computed, hsome, hcomputed, hyields⟩ :=
    Compiler.arithmetic_computes .builtin hnames hclean method hmethod e he hform
      (Compiler.analysis {} mixUnit).state .zeros mixMemory (hheld e hlocals)
  obtain ⟨-, tyWhole, computedWhole, hsomeWhole, hcomputedWhole, hyieldsWhole⟩ :=
    Compiler.arithmetic_computes .builtin hnames hclean method hmethod whole hwhole hformWhole
      (Compiler.analysis {} mixUnit).state .zeros mixMemory (hheld whole hlocalsWhole)
  obtain rfl := Option.some.inj (hty.symm.trans hsome)
  obtain rfl := Option.some.inj (htyWhole.symm.trans hsomeWhole)
  obtain rfl := Option.some.inj (hvalue.symm.trans hcomputed)
  obtain rfl := Option.some.inj (hraises.symm.trans hcomputedWhole)
  exact ⟨.builtin, hnames, hclean, method, hmethod, e, he, whole, hwhole, hform, hformWhole,
    hheld e hlocals, hheld whole hlocalsWhole, hyields, hyieldsWhole⟩

end ClassCompiler
