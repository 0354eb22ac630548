import ClassCompiler.Error

/-!
# Diagnostics

The errors reported for one unit. With a limit, errors past it are counted and not kept.

* `Diagnostics.report`, `Diagnostics.reportAll`
* `errorCount_reportAll`: every report counts, kept or not
-/

namespace ClassCompiler

structure Diagnostics where
  errors : List CompileError := []
  limit : Option Nat := none
  suppressed : Nat := 0
  deriving Inhabited

namespace Diagnostics

def withLimit (limit : Option Nat) : Diagnostics := { limit }

def report (sink : Diagnostics) (error : CompileError) : Diagnostics :=
  match sink.limit with
  | some limit =>
    if limit ≤ sink.errors.length then { sink with suppressed := sink.suppressed + 1 }
    else { sink with errors := sink.errors ++ [error] }
  | none => { sink with errors := sink.errors ++ [error] }

def reportAll (sink : Diagnostics) (errors : List CompileError) : Diagnostics :=
  errors.foldl report sink

/-- Every error that was reported, the suppressed ones too. -/
def errorCount (sink : Diagnostics) : Nat := sink.errors.length + sink.suppressed

def hasErrors (sink : Diagnostics) : Bool := 0 < sink.errorCount

/-- How many of the errors kept are of a kind. -/
def count (sink : Diagnostics) (kind : ErrorKind) : Nat :=
  sink.errors.countP fun error => error.kind == kind

/-- One line per error kept, and a last one for those that were not. -/
def text (sink : Diagnostics) : String :=
  String.join (sink.errors.map fun error => "error: " ++ error.message ++ "\n")
    ++ if 0 < sink.suppressed then "... and " ++ toString sink.suppressed ++ " more error(s)\n"
      else ""

/-! ## Counting -/

@[simp] theorem limit_report (sink : Diagnostics) (error : CompileError) :
    (sink.report error).limit = sink.limit := by
  unfold report
  split
  · split <;> rfl
  · rfl

@[simp] theorem errorCount_report (sink : Diagnostics) (error : CompileError) :
    (sink.report error).errorCount = sink.errorCount + 1 := by
  unfold report
  split
  · split
    · simp only [errorCount]; omega
    · simp only [errorCount, List.length_append, List.length_singleton]; omega
  · simp only [errorCount, List.length_append, List.length_singleton]; omega

theorem errorCount_reportAll (sink : Diagnostics) (errors : List CompileError) :
    (sink.reportAll errors).errorCount = sink.errorCount + errors.length := by
  induction errors generalizing sink with
  | nil => rfl
  | cons error rest ih =>
    simp only [reportAll, List.foldl_cons, List.length_cons] at ih ⊢
    rw [ih, errorCount_report]
    omega

end Diagnostics

end ClassCompiler
