import ClassCompiler.Proofs.Body.Assigned
import ClassCompiler.Proofs.Generation
import ClassCompiler.Proofs.JumpTargets

/-!
# Definite assignment

Code that reads a local only behind a store to its slot, on every path. The analysis guarantees this
for methods whose locals have initializers. Without initializers it does not: the mark of a local that
only one arm of a branch assigns is set behind the branch.

* `ReadsInitialized`
* `Compiler.definite_assignment`
* `maybe_reads_unstored`: a method that is accepted, and a path on which it reads a slot too early
-/

namespace ClassCompiler

/-- On every path that starts with some slots stored to, an instruction that reads a slot comes
behind one that stores to it, or the slot is one of those from the start. -/
def ReadsInitialized (entry : List Nat) (code : List Instr) : Prop :=
  ∀ n i rest slots, slotMachine.Runs code n (.running code { s | s ∈ entry })
    (.running (i :: rest) slots) → i.ReadsStored slots

namespace MethodDecl

variable {parsed method : MethodDecl} {signature : MethodSignature} {registry : Registry}
  {owner : Ty} {frame : FrameInfo}

theorem CheckedFrom.reads (h : parsed.CheckedFrom [] method)
    (hsignature : method.signature = some signature) (hinits : parsed.initsLocals = true) :
    method.Reads { s | s ∈ method.entrySlots } := by
  obtain ⟨given, hgiven, site, registry, rfl, herrors⟩ := h
  rw [signature_check] at hsignature
  have hgivenInits : given.initsLocals = true := by
    unfold initsLocals at hinits ⊢
    rwa [hgiven.body_eq]
  exact check_reads hsignature hgivenInits registry (List.subset_nil.mp herrors)

theorem Analyzed.readsInitialized (h : method.Analyzed registry owner signature frame)
    (hchecked : parsed.CheckedFrom [] method) (hinits : parsed.initsLocals = true) :
    ReadsInitialized method.entrySlots
      ((method.bodyCode { registry, returnTy := signature.returnTy }).run 0).code :=
  (h.slotSafe registry (hchecked.reads h.signature_eq hinits)).ok

end MethodDecl

/-! ## Units -/

namespace Compiler

variable {compiler : Compiler} {unit : CompilationUnit}

/-- In a unit that is analyzed without an error, and whose locals all have initializers, no code reads
a local before a store to it. Parameters and the receiver are stored to from the start. -/
theorem definite_assignment (hreach : compiler.registry.Reachable)
    (hnames : unit.NamesApart (compiler.analysis unit).state)
    (herrors : (compiler.analysis unit).errors = [])
    (hinits : ∀ method ∈ unit.methods, method.initsLocals = true) :
    compiler.Generates unit fun method _ code => ReadsInitialized method.entrySlots code := by
  refine generates hreach hnames herrors fun method owner signature frame _ hanalyzed hfrom => ?_
  obtain ⟨parsed, hparsed, hchecked⟩ := hfrom
  exact hanalyzed.readsInitialized hchecked (hinits parsed hparsed)

end Compiler

/-- The unit `class Main { static int count(boolean b) { int x = 1; while (b) { int y = x; x += y; }
return x; } }`. -/
def countUnit : CompilationUnit where
  file := "Main.java"
  package := none
  imports := []
  types :=
    [{ line := 1
       mods := .accPublic
       name := "Main"
       isInterface := false
       superclass := none
       interfaces := []
       members :=
        [.method
          { line := 2
            mods := .accStatic
            name := "count"
            returnType := ⟨"int", 0, 2⟩
            params := [⟨2, "b", ⟨"boolean", 0, 2⟩⟩]
            exceptions := []
            body := some
              ⟨[.declare
                  { type := ⟨"int", 0, 3⟩
                    declarators :=
                      [{ name := "x", init := some (.literal { line := 3 } (.int 1)), line := 3 }]
                    line := 3 },
                .whileLoop (.name { line := 4 } "b" none)
                  (.block
                    [.declare
                      { type := ⟨"int", 0, 4⟩
                        declarators :=
                          [{ name := "y", init := some (.name { line := 4 } "x" none), line := 4 }]
                        line := 4 },
                     .expr (.assign { line := 4 } (.compound .add) (.name { line := 4 } "x" none)
                       (.name { line := 4 } "y" none)) 4] 4) 4,
                .ret (some (.name { line := 5 } "x" none)) 5], 2⟩ }] }]

theorem definite_assignment_count :
    Registry.builtin.Reachable ∧ countUnit.NamesApart (Compiler.analysis {} countUnit).state
      ∧ (Compiler.analysis {} countUnit).errors = []
      ∧ (∀ method ∈ countUnit.methods, method.initsLocals = true)
      ∧ Compiler.Generates {} countUnit fun method _ code =>
        ReadsInitialized method.entrySlots code := by
  have hnames : countUnit.NamesApart (Compiler.analysis {} countUnit).state :=
    ⟨by decide +kernel, by decide +kernel, by decide +kernel⟩
  have hclean : (Compiler.analysis {} countUnit).errors = [] := by decide +kernel
  have hinits : ∀ method ∈ countUnit.methods, method.initsLocals = true := by decide +kernel
  exact ⟨.builtin, hnames, hclean, hinits,
    Compiler.definite_assignment .builtin hnames hclean hinits⟩

/-! ## A local that one arm assigns -/

/-- `class Main { static int maybe(boolean b) { int x; if (b) { x = 1; } return x; } }` -/
def maybeUnit : CompilationUnit where
  file := "Main.java"
  package := none
  imports := []
  types :=
    [{ line := 1
       mods := .accPublic
       name := "Main"
       isInterface := false
       superclass := none
       interfaces := []
       members :=
        [.method
          { line := 2
            mods := .accStatic
            name := "maybe"
            returnType := ⟨"int", 0, 2⟩
            params := [⟨2, "b", ⟨"boolean", 0, 2⟩⟩]
            exceptions := []
            body := some
              ⟨[.declare
                  { type := ⟨"int", 0, 3⟩
                    declarators := [{ name := "x", init := none, line := 3 }]
                    line := 3 },
                .branch (.name { line := 4 } "b" none)
                  (.block [.expr (.assign { line := 4 } .plain (.name { line := 4 } "x" none)
                    (.literal { line := 4 } (.int 1))) 4] 4) none 4,
                .ret (some (.name { line := 5 } "x" none)) 5], 2⟩ }] }]

/-- The code of the method. Its local is in slot one. -/
def maybeCode : List Instr :=
  [.noArg .iload0, .branch .ifeq ⟨0⟩, .noArg .iconst1, .noArg .istore1, .label ⟨0⟩,
    .noArg .iload1, .noArg .ireturn]

/-- The path around the arm reads the local without a store to it. -/
theorem maybe_reads_unstored : (Compiler.analysis {} maybeUnit).errors = []
    ∧ ∃ code ∈ Compiler.generatedCode {} maybeUnit, ¬ ReadsInitialized [0] code := by
  refine ⟨by decide +kernel, maybeCode, by decide +kernel, fun h => ?_⟩
  let entry : Set Nat := { s | s ∈ [0] }
  have hload : slotMachine (.noArg .iload0) entry (.next entry) := ⟨entry, rfl, rfl, rfl⟩
  have hjump : slotMachine (.branch .ifeq ⟨0⟩) entry (.jump ⟨0⟩ entry) :=
    ⟨entry, rfl, ⟨.ifeq, rfl⟩, rfl⟩
  have hreads : (Instr.noArg .iload1).ReadsStored entry :=
    h 2 _ [.noArg .ireturn] _ (.step (.instr hload) (.step (.instr hjump) (.refl _)))
  have hmem : 1 ∈ entry := hreads _ rfl (by decide)
  simp [entry] at hmem

end ClassCompiler
