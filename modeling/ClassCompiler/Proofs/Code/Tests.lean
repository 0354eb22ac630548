import ClassCompiler.Proofs.Code.Accepted
import ClassCompiler.Proofs.Code.Instructions
import ClassCompiler.Proofs.Machine.OneRun
import ClassCompiler.Proofs.Machine.Values
import Mathlib.Data.Int.Order.Basic

/-!
# Tests of operands

What relations and equalities say of two values, and the instructions that find it out: operands are
converted to one kind, compared if the kind has a comparison of its own, and a jump is taken or not.
A relation with a value that is not a number does not hold, whether the jump is taken where it holds or
where it fails.

* `CompareOp.holds`, `EqualityOp.holds`, `World.same`
* `leads_exec`: single instructions
* `BranchTest.Decides`, `decides_compare`
* `ComparesIn`, `equality_decides`: the kind in which an equality compares its operands
-/

namespace ClassCompiler

/-! ## Relations -/

/-- Does the relation hold of operands in that order? Without an order, none does. -/
def CompareOp.holds (op : CompareOp) (order : Option Ordering) : Bool :=
  match op, order with
  | .greater, some .gt | .less, some .lt => true
  | .lessEqual, some .lt | .lessEqual, some .eq => true
  | .greaterEqual, some .gt | .greaterEqual, some .eq => true
  | _, _ => false

def EqualityOp.holds : EqualityOp → Bool → Bool
  | equal, same => same
  | notEqual, same => !same

/-- The kind in which two numbers are compared. -/
def Kind.common (one two : Kind) : Kind :=
  if one = double ∨ two = double then double
  else if one = float ∨ two = float then float
  else if one = long ∨ two = long then long
  else int

namespace World

variable (world : World)

def literal : Literal → Value
  | .int v => .int v
  | .long v => .long v
  | .float v => .float v
  | .double v => .double v
  | .bool v => .bool v
  | .char unit => .int unit.toNat.toInt32
  | .string v => .reference (some (world.text v))
  | .null => .reference none

def promote (kind : Kind) (v : Value) : Value :=
  if v.kind = kind then v else world.widen v.kind kind v

/-- Equality of two references, or of two numbers in their common kind. -/
def same : Value → Value → Bool
  | .reference v, .reference w => v == w
  | v, w =>
    let kind := v.kind.common w.kind
    (world.promote kind v).compare? (world.promote kind w) == some .eq

end World

/-! ## Instructions -/

/-- A jump that is taken or not. -/
def Effect.branch {σ : Type} (taken : Bool) (target : Label) (state : σ) : Effect σ :=
  if taken then .jump target state else .next state

open Emit

variable {world : World} {stack : List Value} {locals : Nat → Value} {calls : List Call}

theorem leads_exec {i : Instr} {frame : Frame} {effect : Effect Frame}
    (h : i.exec world frame = some effect) :
    (instr i).Leads (valueMachine world) frame (.done effect) := leads_instr h

/-- Behind a label, the data are the same. -/
theorem exec_label (label : Label) (frame : Frame) :
    valueMachine world (.label label) frame (.next frame) := rfl

theorem leads_goto (target : Label) (frame : Frame) :
    (goto target).Leads (valueMachine world) frame (.done (.jump target frame)) := leads_exec rfl

namespace Instr

variable {frame : Frame}

theorem exec_pushInt (v : Int32) :
    (pushInt v).exec world frame = some (.next (frame.push (.int v))) := by
  have hv : ∀ k, v.toInt = k → v = Int32.ofInt k := fun k h => h ▸ (Int32.ofInt_toInt v).symm
  have hlong : some (Effect.next (frame.push (.int (.ofInt v.toInt))))
      = some (.next (frame.push (.int v))) := by rw [Int32.ofInt_toInt]
  unfold pushInt
  dsimp only
  repeat' split
  all_goals first
    | exact hlong
    | rfl
    | next h => exact hv _ h ▸ rfl

theorem exec_pushLong (v : Int64) :
    (pushLong v).exec world frame = some (.next (frame.push (.long v))) := by
  unfold pushLong
  repeat' split
  all_goals first
    | rfl
    | next h => exact h ▸ rfl

theorem exec_pushFloat (v : Number.Binary32) :
    (pushFloat v).exec world frame = some (.next (frame.push (.float v))) := by
  unfold pushFloat
  repeat' split
  all_goals first
    | rfl
    | next h => exact h ▸ rfl

theorem exec_pushDouble (v : Number.Binary64) :
    (pushDouble v).exec world frame = some (.next (frame.push (.double v))) := by
  unfold pushDouble
  repeat' split
  all_goals first
    | rfl
    | next h => exact h ▸ rfl

theorem exec_literal (value : Literal) : (ExprCode.literalInstr value).exec world frame
    = some (.next (frame.push (world.literal value))) := by
  cases value with
  | int => exact exec_pushInt _
  | long => exact exec_pushLong _
  | float => exact exec_pushFloat _
  | double => exact exec_pushDouble _
  | bool => exact exec_pushInt _
  | char => exact exec_pushInt _
  | string | null => rfl

theorem exec_load {ty : Ty} {slot : Nat} (h : (frame.locals slot).kind = ty.kind) :
    (load ty slot).exec world frame = some (.next (frame.push (frame.locals slot))) := by
  unfold exec
  rw [access?_load]
  exact if_pos h

end Instr

/-! ## Values of a type -/

namespace Value

variable {v w : Value} {ty : Ty}

theorem fits_bool (b : Bool) : (bool b).Fits .boolean := 
  ⟨Ty.kind_boolean.symm, fun _ => ⟨b, rfl⟩⟩

theorem fits_prim {p : Prim} (hne : p ≠ .boolean) (h : v.kind = p.kind) : v.Fits (.prim p) :=
  ⟨h.trans (Ty.kind_prim p).symm, fun heq =>
    (hne (Ty.prim_injective (p := p) (q := .boolean) heq)).elim⟩

theorem fits_reference (hty : ty.isReference = true) (h : v.kind = .reference) : v.Fits ty := by
  refine ⟨h.trans (Ty.kind_of_isReference hty).symm, fun heq => ?_⟩
  rw [heq, show Ty.boolean = .prim .boolean from rfl, Ty.isReference_prim] at hty
  cases hty

theorem Fits.bool (h : v.Fits .boolean) : ∃ b, v = bool b := h.truth rfl

@[simp] theorem bool_beq (a b : Bool) : (Value.bool a == Value.bool b) = (a == b) := by
  cases a <;> cases b <;> rfl

theorem eq_int (h : v.kind = .int) : ∃ n, v = int n := by
  cases v <;> first | exact ⟨_, rfl⟩ | cases h

theorem eq_long (h : v.kind = .long) : ∃ n, v = long n := by
  cases v <;> first | exact ⟨_, rfl⟩ | cases h

theorem eq_double (h : v.kind = .double) : ∃ n, v = double n := by
  cases v <;> first | exact ⟨_, rfl⟩ | cases h

theorem eq_reference (h : v.kind = .reference) : ∃ address, v = reference address := by
  cases v <;> first | exact ⟨_, rfl⟩ | cases h

end Value

theorem fits_literal (value : Literal) : (world.literal value).Fits value.ty := by
  cases value with
  | int => exact Value.fits_prim (p := .int) (by decide) rfl
  | long => exact Value.fits_prim (p := .long) (by decide) rfl
  | float => exact Value.fits_prim (p := .float) (by decide) rfl
  | double => exact Value.fits_prim (p := .double) (by decide) rfl
  | bool v => exact Value.fits_bool v
  | char => exact Value.fits_prim (p := .char) (by decide) rfl
  | string => exact Value.fits_reference Ty.isReference_string rfl
  | null => exact Value.fits_reference Ty.isReference_null rfl

/-! ## Tests -/

/-- The comparison and the jump take two operands off any stack, and jump or not. -/
def BranchTest.Decides (test : BranchTest) (v w : Value) (taken : Bool) : Prop :=
  ∀ stack, match test.compare with
    | none => test.jump.jump? (w :: v :: stack) = some (taken, stack)
    | some code => ∃ n, code.isReturn = false ∧ code.shortAccess? = none
      ∧ (∀ world : World, world.operate code (w :: v :: stack) = some (.int n :: stack))
      ∧ test.jump.jump? (.int n :: stack) = some (taken, stack)

theorem leads_jump {code : OpCode} {taken : Bool} {operands : List Value}
    (h : code.jump? operands = some (taken, stack)) (target : Label) :
    (instr (.branch code target)).Leads (valueMachine world) ⟨operands, locals, calls⟩
      (.done (.branch taken target ⟨stack, locals, calls⟩)) := by
  refine leads_exec ?_
  show (code.jump? operands).map _ = _
  rw [h]
  rfl

theorem leads_op {code : OpCode} {operands : List Value} (hreturn : code.isReturn = false)
    (haccess : code.shortAccess? = none) (h : world.operate code operands = some stack) :
    (op code).Leads (valueMachine world) ⟨operands, locals, calls⟩
      (.done (.next ⟨stack, locals, calls⟩)) := by
  refine leads_exec ?_
  unfold Instr.exec
  rw [show (Instr.noArg code).access? = none from haccess]
  dsimp only
  rw [hreturn, h]
  rfl

theorem holds_compare (op : CompareOp) (v w : Int) :
    op.onInts.relation?.map (fun relation => relation v w) = some (op.holds (some (compare v w)))
      ∧ op.negate.onInts.relation?.map (fun relation => relation v w)
        = some (!op.holds (some (compare v w))) := by
  rcases lt_trichotomy v w with h | h | h
  · have hcompare : compare v w = .lt := compare_lt_iff_lt.mpr h
    rw [hcompare]
    cases op <;> simp [CompareOp.onInts, CompareOp.negate, OpCode.relation?, CompareOp.holds] <;> omega
  · subst h
    have hcompare : compare v v = .eq := compare_eq_iff_eq.mpr rfl
    rw [hcompare]
    cases op <;> simp [CompareOp.onInts, CompareOp.negate, OpCode.relation?, CompareOp.holds]
  · have hcompare : compare v w = .gt := compare_gt_iff_gt.mpr h
    rw [hcompare]
    cases op <;> simp [CompareOp.onInts, CompareOp.negate, OpCode.relation?, CompareOp.holds] <;> omega

theorem jump?_onInts (op : CompareOp) (a b : Int32) :
    op.onInts.jump? (.int b :: .int a :: stack)
      = op.onInts.relation?.map fun relation => (relation a.toInt b.toInt, stack) := by
  cases op <;> rfl

theorem decides_ints (op : CompareOp) (a b : Int32) (onTrue : Bool) :
    BranchTest.Decides ⟨none, (if onTrue then op else op.negate).onInts⟩ (.int a) (.int b)
      (op.holds (Value.compare? (.int a) (.int b)) == onTrue) := by
  intro stack
  obtain ⟨htrue, hfalse⟩ := holds_compare op a.toInt b.toInt
  have hpair : ∀ (relation : Option (Int → Int → Bool)) (r : Bool),
      relation.map (fun relation => relation a.toInt b.toInt) = some r →
      relation.map (fun relation => (relation a.toInt b.toInt, stack)) = some (r, stack) := by
    intro relation r h
    obtain ⟨f, rfl, rfl⟩ := Option.map_eq_some_iff.mp h
    rfl
  refine (jump?_onInts _ a b).trans ?_
  cases onTrue with
  | true => exact (hpair _ _ htrue).trans (by rw [beq_true]; rfl)
  | false => exact (hpair _ _ hfalse).trans (by rw [beq_false]; rfl)

theorem decides_doubles (op : CompareOp) (a b : Number.Binary64) (onTrue : Bool) :
    BranchTest.Decides ⟨some op.onDoubles, (if onTrue then op else op.negate).onSign⟩ (.double a)
      (.double b) (op.holds (Value.compare? (.double a) (.double b)) == onTrue) := by
  intro stack
  have hjump : ∀ order, ∃ unordered, op.onDoubles.compared? = some (.double, unordered)
      ∧ (if onTrue then op else op.negate).onSign.jump?
        (.int (orderNumber unordered order) :: stack) = some (op.holds order == onTrue, stack) := by
    intro order
    cases op <;> refine ⟨_, rfl, ?_⟩ <;> cases onTrue <;> rcases order with _ | _ | _ | _ <;> rfl
  obtain ⟨unordered, hcompared, hjump⟩ := hjump (a.value.compare? b.value)
  refine ⟨_, ?_, ?_, fun world => ?_, hjump⟩
  · cases op <;> rfl
  · cases op <;> rfl
  · cases op <;> cases hcompared <;> rfl

theorem decides_compare {op : CompareOp} {operand : Ty} {onTrue : Bool} {selected : BranchTest}
    (h : compareBranch? op operand onTrue = some selected) {v w : Value} (hv : v.kind = operand.kind)
    (hw : w.kind = operand.kind) : selected.Decides v w (op.holds (v.compare? w) == onTrue) := by
  unfold compareBranch? at h
  dsimp only at h
  split at h
  · next hint =>
    cases h
    rw [hint, show Ty.int.kind = .int from Ty.kind_prim .int] at hv hw
    obtain ⟨a, rfl⟩ := Value.eq_int hv
    obtain ⟨b, rfl⟩ := Value.eq_int hw
    exact decides_ints op a b onTrue
  · split at h
    · next hdouble =>
      cases h
      rw [hdouble, show Ty.double.kind = .double from Ty.kind_prim .double] at hv hw
      obtain ⟨a, rfl⟩ := Value.eq_double hv
      obtain ⟨b, rfl⟩ := Value.eq_double hw
      exact decides_doubles op a b onTrue
    · cases h

/-! ### Equality -/

theorem eq_compare (a b : Int) : (a == b) = (some (compare a b) == some .eq) := by
  rw [Bool.eq_iff_iff, beq_iff_eq, beq_iff_eq, Option.some_inj, compare_eq_iff_eq]

theorem operate_compared {code : OpCode} {kind : Kind} {unordered : Int32}
    (h : code.compared? = some (kind, unordered)) {v w : Value} (hv : v.kind = kind)
    (hw : w.kind = kind) : world.operate code (w :: v :: stack)
      = some (.int (orderNumber unordered (v.compare? w)) :: stack) := by
  have hother : code.pushed? = none ∧ code.widened? = none := by
    cases code <;> cases h <;> exact ⟨rfl, rfl⟩
  unfold World.operate World.widen? OpCode.compare?
  rw [hother.1, hother.2, h]
  simp [hv, hw]

/-- Numbers are equal if their comparison gives zero. Only integers have no other answer. -/
theorem decides_order {code : OpCode} {kind : Kind} {unordered : Int32}
    (hcompared : code.compared? = some (kind, unordered)) {op : EqualityOp} {onTrue : Bool}
    {v w : Value} (hv : v.kind = kind) (hw : w.kind = kind) :
    BranchTest.Decides ⟨some code, if (op == .equal) == onTrue then .ifeq else .ifne⟩ v w
      (op.holds (v.compare? w == some .eq) == onTrue) := by
  intro stack
  have hplain : code.isReturn = false ∧ code.shortAccess? = none := by
    cases code <;> cases hcompared <;> exact ⟨rfl, rfl⟩
  refine ⟨_, hplain.1, hplain.2, fun world => operate_compared hcompared hv hw, ?_⟩
  have hzero : ((orderNumber unordered (v.compare? w)).toInt == 0) = (v.compare? w == some .eq) := by
    cases horder : v.compare? w with
    | some order => cases order <;> rfl
    | none =>
      have hne : unordered = -1 ∨ unordered = 1 := by
        by_contra hnot
        have hlong : kind = .long := by
          cases code <;> cases hcompared <;> first | rfl | exact (hnot (by decide)).elim
        obtain ⟨a, rfl⟩ := Value.eq_long (hv.trans hlong)
        obtain ⟨b, rfl⟩ := Value.eq_long (hw.trans hlong)
        cases horder
      rcases hne with rfl | rfl <;> rfl
  rw [← hzero]
  cases op <;> cases onTrue <;> simp [EqualityOp.holds, OpCode.jump?, OpCode.relation?, bne]

theorem decides_numeric {p : Prim} (h : p ∈ Prim.computed) (op : EqualityOp) (onTrue : Bool)
    {v w : Value} (hv : v.kind = p.kind) (hw : w.kind = p.kind) :
    (equalityBranch (.numeric (.prim p)) op onTrue).Decides v w
      (op.holds (v.compare? w == some .eq) == onTrue) := by
  have heq : ∀ a b : Prim, Ty.prim a = .prim b ↔ a = b :=
    fun a b => ⟨Ty.prim_injective, congrArg Ty.prim⟩
  unfold equalityBranch EqualityKind.forms
  simp only [show Ty.int = .prim .int from rfl, show Ty.long = .prim .long from rfl,
    show Ty.float = .prim .float from rfl, heq]
  simp only [Prim.computed, List.mem_cons, List.not_mem_nil, or_false] at h
  rcases h with rfl | rfl | rfl | rfl
  · obtain ⟨a, rfl⟩ := Value.eq_int hv
    obtain ⟨b, rfl⟩ := Value.eq_int hw
    intro stack
    show _ = some (op.holds (some (compare a.toInt b.toInt) == some .eq) == onTrue, stack)
    rw [← eq_compare]
    cases op <;> cases onTrue <;>
      simp [EqualityOp.holds, OpCode.jump?, OpCode.relation?, bne]
  · exact decides_order (show OpCode.lcmp.compared? = _ from rfl) hv hw
  · exact decides_order (show OpCode.fcmpl.compared? = _ from rfl) hv hw
  · exact decides_order (show OpCode.dcmpl.compared? = _ from rfl) hv hw

theorem decides_references (op : EqualityOp) (onTrue : Bool) {v w : Value}
    (hv : v.kind = .reference) (hw : w.kind = .reference) :
    (equalityBranch .reference op onTrue).Decides v w (op.holds (world.same v w) == onTrue) := by
  obtain ⟨a, rfl⟩ := Value.eq_reference hv
  obtain ⟨b, rfl⟩ := Value.eq_reference hw
  intro stack
  show _ = some (op.holds (a == b) == onTrue, stack)
  cases op <;> cases onTrue <;>
    simp [equalityBranch, EqualityKind.forms, EqualityOp.holds, OpCode.jump?, bne]

/-! ### Conversions -/

namespace World

theorem promote_self {v : Value} {kind : Kind} (h : v.kind = kind) : world.promote kind v = v :=
  if_pos h

theorem kind_promote (kind : Kind) (v : Value) : (world.promote kind v).kind = kind := by
  unfold promote
  split
  · assumption
  · exact world.widen_kind _ _ v

theorem same_eq {v w : Value} (h : v.kind ≠ .reference) :
    world.same v w = ((world.promote (v.kind.common w.kind) v).compare?
      (world.promote (v.kind.common w.kind) w) == some .eq) := by
  cases v <;> cases w <;> first | rfl | exact (h rfl).elim

end World

theorem leads_widen {code : OpCode} {source target : Kind} {v : Value}
    (hcode : code.widened? = some (source, target)) (hv : v.kind = source) :
    (ops [code]).Leads (valueMachine world) ⟨v :: stack, locals, calls⟩
      (.done (.next ⟨world.widen source target v :: stack, locals, calls⟩)) := by
  have hother : code.isReturn = false ∧ code.shortAccess? = none ∧ code.pushed? = none := by
    cases code <;> cases hcode <;> exact ⟨rfl, rfl, rfl⟩
  have hoperate : world.operate code (v :: stack) = some (world.widen source target v :: stack) := by
    unfold World.operate World.widen?
    rw [hother.2.2, hcode]
    simp [hv]
  exact leads_then (leads_op hother.1 hother.2.1 hoperate) (completes_instr _) (leads_pure _)

/-- The conversion of an operand of a type to a type that is computed in. -/
theorem leads_conversion {p q : Prim} (hq : q ∈ Prim.computed) (hp : p.isNumeric = true)
    (hwidens : p.kind.common q.kind = q.kind) {v : Value} (hv : v.kind = p.kind) :
    (ops (conversion (.prim p) (.prim q))).Leads (valueMachine world) ⟨v :: stack, locals, calls⟩
      (.done (.next ⟨world.promote q.kind v :: stack, locals, calls⟩)) := by
  have hops : (p.kind = q.kind ∧ conversion (.prim p) (.prim q) = [])
      ∨ ∃ code : OpCode, p.kind ≠ q.kind ∧ code.widened? = some (p.kind, q.kind)
        ∧ conversion (.prim p) (.prim q) = [code] := by
    unfold conversion
    rw [Ty.kind_prim, Ty.prim?_prim]
    simp only [Prim.computed, List.mem_cons, List.not_mem_nil, or_false] at hq
    rcases hq with rfl | rfl | rfl | rfl <;> cases p <;>
      first
      | exact .inl ⟨rfl, rfl⟩
      | exact .inr ⟨_, by decide, rfl, rfl⟩
      | exact absurd hp (by decide)
      | exact absurd hwidens (by decide)
  rcases hops with ⟨hkind, hops⟩ | ⟨code, hkind, hcode, hops⟩
  · rw [hops, World.promote_self (hv.trans hkind)]
    exact leads_pure _
  · rw [hops, show world.promote q.kind v = world.widen p.kind q.kind v from hv ▸ if_neg (hv ▸ hkind)]
    exact leads_widen hcode hv

/-- Both operands of an equality are promoted to the kind, and its jumps compare them there. -/
structure ComparesIn (world : World) (kind : EqualityKind) (left right : Ty) (v w : Value)
    (common : Kind) : Prop where
  first : ∀ stack locals calls, (ops (conversion left (ExprCode.equalityOperand kind left))).Leads
    (valueMachine world) ⟨v :: stack, locals, calls⟩
    (.done (.next ⟨world.promote common v :: stack, locals, calls⟩))
  second : ∀ stack locals calls, (ops (conversion right (ExprCode.equalityOperand kind left))).Leads
    (valueMachine world) ⟨w :: stack, locals, calls⟩
    (.done (.next ⟨world.promote common w :: stack, locals, calls⟩))
  jump : ∀ op onTrue, (equalityBranch kind op onTrue).Decides (world.promote common v)
    (world.promote common w) (op.holds (world.same v w) == onTrue)

/-- Truth values are compared as integers. -/
theorem comparesIn_boolean {v w : Value} (hv : v.Fits .boolean) (hw : w.Fits .boolean) :
    ComparesIn world .boolean .boolean .boolean v w .int := by
  have hv := hv.kind.trans Ty.kind_boolean
  have hw := hw.kind.trans Ty.kind_boolean
  have hnone : conversion .boolean .boolean = [] := by
    unfold conversion
    rw [Ty.kind_boolean, show Ty.boolean.prim? = some .boolean from Ty.prim?_prim .boolean]
  refine ⟨?_, ?_, fun op onTrue => ?_⟩
  · rw [World.promote_self hv]
    exact fun _ _ _ => hnone ▸ leads_pure _
  · rw [World.promote_self hw]
    exact fun _ _ _ => hnone ▸ leads_pure _
  · have hsame : world.same v w = (v.compare? w == some .eq) := by
      rw [World.same_eq (by rw [hv]; exact Kind.noConfusion), hv, hw]
      exact (congrArg₂ (fun a b => Value.compare? a b == some .eq) (World.promote_self hv)
        (World.promote_self hw))
    rw [World.promote_self hv, World.promote_self hw, hsame]
    have hform : equalityBranch .boolean op onTrue
        = equalityBranch (.numeric (.prim .int)) op onTrue := by
      unfold equalityBranch EqualityKind.forms
      rfl
    rw [hform]
    exact decides_numeric (p := .int) (by decide) op onTrue hv hw

theorem comparesIn_numeric {left right : Ty} {p q : Prim}
    (hp : unaryPromotion? left = some (.prim p)) (hq : unaryPromotion? right = some (.prim q))
    {v w : Value} (hv : v.Fits left) (hw : w.Fits right) :
    ComparesIn world (.numeric (.prim (p.common q))) left right v w (p.common q).kind := by
  obtain ⟨l, _, rfl, hl, heq⟩ := unaryPromotion?_eq_some_iff.mp hp
  cases Ty.prim_injective heq
  obtain ⟨r, _, rfl, hr, heq⟩ := unaryPromotion?_eq_some_iff.mp hq
  cases Ty.prim_injective heq
  have hcommon := Prim.common_mem_computed p q
  have hkinds : l.kind.common r.kind = (p.common q).kind := by
    cases l <;> cases hl <;> cases r <;> cases hr <;> rfl
  have hleft : l.kind.common (p.common q).kind = (p.common q).kind := by
    cases l <;> cases hl <;> cases r <;> cases hr <;> rfl
  have hright : r.kind.common (p.common q).kind = (p.common q).kind := by
    cases l <;> cases hl <;> cases r <;> cases hr <;> rfl
  have hv := hv.kind.trans (Ty.kind_prim l)
  have hw := hw.kind.trans (Ty.kind_prim r)
  have hnumber : v.kind ≠ .reference := by
    rw [hv]
    cases l <;> first | exact Kind.noConfusion | cases hl
  refine ⟨fun _ _ _ => leads_conversion hcommon (Prim.isNumeric_of_promoted? hl) hleft hv,
    fun _ _ _ => leads_conversion hcommon (Prim.isNumeric_of_promoted? hr) hright hw,
    fun op onTrue => ?_⟩
  rw [World.same_eq hnumber, hv, hw, hkinds]
  exact decides_numeric hcommon op onTrue (World.kind_promote _ _) (World.kind_promote _ _)

theorem comparesIn_references {left right : Ty} (hleft : left.isReference = true)
    (hright : right.isReference = true) {v w : Value} (hv : v.Fits left) (hw : w.Fits right) :
    ComparesIn world .reference left right v w .reference := by
  have hnone : ∀ ty : Ty, ty.isReference = true → conversion ty left = [] := by
    intro ty hty
    unfold conversion
    rw [Ty.kind_of_isReference hty]
  have hv := hv.kind.trans (Ty.kind_of_isReference hleft)
  have hw := hw.kind.trans (Ty.kind_of_isReference hright)
  refine ⟨?_, ?_, fun op onTrue => ?_⟩
  · rw [World.promote_self hv]
    exact fun _ _ _ => (hnone left hleft).symm ▸ leads_pure _
  · rw [World.promote_self hw]
    exact fun _ _ _ => (hnone right hright).symm ▸ leads_pure _
  · rw [World.promote_self hv, World.promote_self hw]
    exact decides_references op onTrue hv hw

/-- Operands of an equality are converted to one type, and the test compares them there. -/
theorem equality_decides {left right : Ty} {kind : EqualityKind}
    (h : equalityKind? left right = some kind) {v w : Value} (hv : v.Fits left)
    (hw : w.Fits right) : ∃ common, ComparesIn world kind left right v w common := by
  unfold equalityKind? at h
  split at h
  · next hboolean =>
    cases h
    obtain ⟨rfl, rfl⟩ := hboolean
    exact ⟨_, comparesIn_boolean hv hw⟩
  · split at h
    · next promoted hpromoted =>
      cases h
      obtain ⟨p, q, hp, hq, rfl⟩ := binaryPromotion?_eq_some_iff.mp hpromoted
      exact ⟨_, comparesIn_numeric hp hq hv hw⟩
    · split at h
      · next href =>
        cases h
        obtain ⟨hleft, hright⟩ := Bool.and_eq_true_iff.mp href
        exact ⟨_, comparesIn_references hleft hright hv hw⟩
      · cases h

end ClassCompiler
