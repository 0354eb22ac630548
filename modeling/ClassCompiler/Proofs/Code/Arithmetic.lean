import ClassCompiler.Proofs.Code.Computing
import ClassCompiler.Proofs.Code.Evaluation
import ClassCompiler.Proofs.Machine.Integers

/-!
# Code of integral expressions

The integer or the truth value that an expression of literals, locals and operators stands for. The
code of such an expression pushes it, or ends in the exception of a division by zero while the same
operands wait.

* `Scalar`, `Expr.scalar?`: the meaning
* `Emit.Yields`: what the code does
* `Expr.Accepted.yields`
-/

namespace ClassCompiler

open Emit ExprCode

/-! ## Meaning -/

inductive Scalar
  | number (width : Width) (value : Int)
  | truth (value : Bool)
  deriving DecidableEq

/-- What an expression comes to. -/
inductive Computed
  | value (scalar : Scalar)
  /-- A division by zero, with the operands that wait on the stack: the divisor, the dividend, and
  the left operands of the operators around, from the innermost to the outermost. -/
  | raises (waiting : List Int)
  deriving DecidableEq

/-- The number that waits for a value; truth values are zero and one. -/
def Scalar.waiting : Scalar → Int
  | number _ z => z
  | truth b => if b then 1 else 0

def UnaryOp.onScalar? (op : UnaryOp) : Scalar → Option Scalar
  | .number width x => some (.number width (op.onNumber width x))
  | .truth _ => none

def BinaryOp.onTruths? : BinaryOp → Bool → Bool → Option Bool
  | bitAnd, a, b => some (a && b)
  | bitOr, a, b => some (a || b)
  | bitXor, a, b => some (a != b)
  | _, _, _ => none

/-- The width that an operator computes in: the wider one of its operands, and for a shift that of
its left operand. -/
def BinaryOp.width (op : BinaryOp) (left right : Width) : Width :=
  if op.isShift then left else left.common right

def BinaryOp.onScalars? (op : BinaryOp) : Scalar → Scalar → Option Computed
  | .number left x, .number right y =>
    match op.onNumbers? (op.width left right) x y with
    | some z => some (.value (.number (op.width left right) z))
    | none => some (.raises [y, x])
  | .truth a, .truth b => (op.onTruths? a b).map fun c => .value (.truth c)
  | _, _ => none

def UnaryOp.onComputed? (op : UnaryOp) : Computed → Option Computed
  | .value scalar => (op.onScalar? scalar).map .value
  | .raises waiting => some (.raises waiting)

/-- The left operand is evaluated first, and waits for the right one. -/
def BinaryOp.onComputed? (op : BinaryOp) : Computed → Computed → Option Computed
  | .value left, .value right => op.onScalars? left right
  | .value left, .raises waiting => some (.raises (waiting ++ [left.waiting]))
  | .raises waiting, _ => some (.raises waiting)

/-- A value as one of a type. -/
def Value.scalar? (ty : Ty) (v : Value) : Option Scalar :=
  if ty = .boolean then
    if v = .bool true then some (.truth true)
    else if v = .bool false then some (.truth false)
    else none
  else v.number?.map fun (width, z) => .number width z

namespace Expr

/-- The types of the locals that integral expressions read. -/
def arithmeticLocals : List Ty := [.int, .long, .char, .byte, .short, .boolean]

/-- The expression is made of literals, locals and operators on numbers and truth values. -/
def isArithmetic : Expr → Bool
  | literal _ (.int _) | literal _ (.long _) | literal _ (.char _) => true
  | name n _ (some (.slot _)) => n.ty.any fun ty => ty ∈ arithmeticLocals
  | unary _ _ operand => operand.isArithmetic
  | binary _ _ lhs rhs => lhs.isArithmetic && rhs.isArithmetic
  | _ => false

/-- What such an expression comes to. -/
def scalar? (memory : Memory) : Expr → Option Computed
  | literal _ (.int v) => some (.value (.number .int v.toInt))
  | literal _ (.long v) => some (.value (.number .long v.toInt))
  | literal _ (.char unit) => some (.value (.number .int unit.toNat))
  | name n _ (some (.slot slot)) =>
    n.ty.bind fun ty => (memory.read (.slot slot)).bind fun v => (v.scalar? ty).map .value
  | unary _ op operand => (operand.scalar? memory).bind op.onComputed?
  | binary _ op lhs rhs =>
    (lhs.scalar? memory).bind fun left => (rhs.scalar? memory).bind fun right =>
      op.onComputed? left right
  | _ => none

/-- Every local that the expression names holds a value of its type. -/
def HeldIn (memory : Memory) (e : Expr) : Prop :=
  ∀ d ∈ e.nodes, ∀ named, d.namedLocal? = some named →
    ∃ v, memory.read (.slot named.slot) = some v ∧ v.Fits named.ty

theorem HeldIn.child {memory : Memory} {e c : Expr} (h : e.HeldIn memory) (hc : c ∈ e.children) :
    c.HeldIn memory := fun d hd => h d (mem_nodes.mpr (.inr ⟨c, hc, hd⟩))

end Expr

/-! ## Values -/

/-- The number on the stack for an operand that waits. -/
def Value.waiting? (v : Value) : Option Int := v.number?.map Prod.snd

namespace Value

variable {v : Value} {ty : Ty}

theorem cases_scalar? {scalar : Scalar} (h : v.scalar? ty = some scalar) :
    (ty = .boolean ∧ ∃ b, v = .bool b ∧ scalar = .truth b)
      ∨ ty ≠ .boolean ∧ ∃ width x, v.number? = some (width, x) ∧ scalar = .number width x := by
  unfold scalar? at h
  split at h
  · next hty =>
    split at h
    · next hv => exact .inl ⟨hty, true, hv, (Option.some.inj h).symm⟩
    · split at h
      · next hv => exact .inl ⟨hty, false, hv, (Option.some.inj h).symm⟩
      · cases h
  · next hty =>
    obtain ⟨⟨width, x⟩, hnumber, hscalar⟩ := Option.map_eq_some_iff.mp h
    exact .inr ⟨hty, width, x, hnumber, hscalar.symm⟩

/-- The value is a scalar of a type. -/
structure Is (ty : Ty) (scalar : Scalar) (v : Value) : Prop where
  scalar : v.scalar? ty = some scalar
  kind : v.kind = ty.kind

theorem is_bool (b : Bool) : (bool b).Is .boolean (.truth b) := by
  refine ⟨?_, Ty.kind_boolean.symm⟩
  cases b <;> rfl

theorem waiting?_of_number? {width : Width} {x : Int} (h : v.number? = some (width, x)) :
    v.waiting? = some x := by
  unfold waiting?
  rw [h]
  rfl

theorem Is.waiting {scalar : Scalar} (h : v.Is ty scalar) : v.waiting? = some scalar.waiting := by
  rcases cases_scalar? h.scalar with ⟨-, b, rfl, rfl⟩ | ⟨-, width, x, hnumber, rfl⟩
  · cases b <;> rfl
  · exact waiting?_of_number? hnumber

end Value

/-! ## Types -/

/-- The types that integral expressions have. -/
def Ty.IsArithmetic (ty : Ty) : Prop :=
  ty = .boolean ∨ ∃ width, unaryPromotion? ty = some (.prim (Width.prim width))

theorem arithmeticOp?_width (op : BinaryOp) (width : Width) :
    arithmeticOp? op (.prim width.prim) = some (op.onWidth width) := by
  rw [arithmeticOp?_prim]
  cases width <;> rfl

theorem unaryPromotion?_width (width : Width) :
    unaryPromotion? (.prim width.prim) = some (.prim width.prim) := by
  rw [unaryPromotion?_prim]
  cases width <;> rfl

namespace Ty

variable {ty : Ty}

theorem ne_boolean_of_unaryPromotion? {result : Ty} (h : unaryPromotion? ty = some result) :
    ty ≠ .boolean := by
  rintro rfl
  rw [show boolean = prim .boolean from rfl, unaryPromotion?_prim] at h
  cases h

theorem kind_of_unaryPromotion? {width : Width}
    (h : unaryPromotion? ty = some (.prim width.prim)) : ty.kind = width.prim.kind := by
  obtain ⟨p, q, rfl, hq, hwidth⟩ := unaryPromotion?_eq_some_iff.mp h
  obtain rfl := prim_injective hwidth
  rw [kind_prim]
  cases p <;> cases width <;> first | rfl | cases hq

end Ty

namespace Value

variable {v : Value} {ty : Ty} {scalar : Scalar}

theorem Is.truth (h : v.Is .boolean scalar) : ∃ b, v = .bool b ∧ scalar = .truth b := by
  rcases cases_scalar? h.scalar with ⟨-, htruth⟩ | ⟨hne, -⟩
  · exact htruth
  · exact absurd rfl hne

theorem Is.number (h : v.Is ty scalar) {width : Width}
    (hp : unaryPromotion? ty = some (.prim width.prim)) :
    ∃ x, v.number? = some (width, x) ∧ scalar = .number width x := by
  rcases cases_scalar? h.scalar with ⟨hboolean, -⟩ | ⟨-, other, x, hnumber, rfl⟩
  · exact absurd hboolean (Ty.ne_boolean_of_unaryPromotion? hp)
  · have hkind : other.prim.kind = width.prim.kind := by
      rw [← kind_of_number? hnumber, h.kind, Ty.kind_of_unaryPromotion? hp]
    obtain rfl : other = width := by cases other <;> cases width <;> first | rfl | cases hkind
    exact ⟨x, hnumber, rfl⟩

theorem is_number {width : Width} {x : Int} (hp : unaryPromotion? ty = some (.prim width.prim))
    (h : v.number? = some (width, x)) : v.Is ty (.number width x) := by
  constructor
  · unfold scalar?
    rw [if_neg (Ty.ne_boolean_of_unaryPromotion? hp), h]
    rfl
  · rw [Ty.kind_of_unaryPromotion? hp, kind_of_number? h]

theorem is_fixed {width : Width} {x : Int} (h : v.number? = some (width, x)) :
    v.Is (.prim width.prim) (.number width x) := is_number (unaryPromotion?_width width) h

/-- A local that holds a value of an integral type or a truth value. -/
theorem Fits.exists_scalar (h : v.Fits ty) (hty : ty.IsArithmetic) :
    ∃ scalar, v.Is ty scalar := by
  rcases hty with rfl | ⟨width, hwidth⟩
  · obtain ⟨b, rfl⟩ := h.truth rfl
    exact ⟨_, is_bool b⟩
  · have hkind : v.kind = width.prim.kind := h.kind.trans (Ty.kind_of_unaryPromotion? hwidth)
    obtain ⟨x, hx⟩ := exists_number? hkind
    exact ⟨_, is_number hwidth hx⟩

end Value

namespace Ty.IsArithmetic

variable {ty left right : Ty}

theorem exists_width (h : ty.IsArithmetic) {p : Prim} (hp : unaryPromotion? ty = some (.prim p)) :
    ∃ width, p = Width.prim width ∧ unaryPromotion? ty = some (.prim (Width.prim width)) := by
  rcases h with hboolean | ⟨width, hwidth⟩
  · exact absurd hboolean (ne_boolean_of_unaryPromotion? hp)
  · exact ⟨width, prim_injective (Option.some.inj (hp.symm.trans hwidth)), hwidth⟩

/-- An operator on two such types is one on truth values, or computes in a width. -/
theorem resolve (hl : left.IsArithmetic) (hr : right.IsArithmetic) {op : BinaryOp}
    {rule : BinaryRule} (h : resolveBinary? op left right = some rule) :
    (left = .boolean ∧ right = .boolean ∧ op.isBitwise = true
        ∧ rule = ⟨op.onInt, [], [], .boolean⟩)
      ∨ ∃ v w, unaryPromotion? left = some (.prim (Width.prim v))
        ∧ unaryPromotion? right = some (.prim (Width.prim w))
        ∧ rule = ⟨op.onWidth (op.width v w), conversion left (.prim (op.width v w).prim),
          conversion right (if op.isShift then .int else .prim (op.width v w).prim),
          .prim (op.width v w).prim⟩ := by
  rcases resolveBinary?_eq_some h with ⟨rfl, rfl, rfl⟩ | ⟨p, code, hshift, hint, hp, hcode, rfl⟩
    | ⟨p, code, hshift, hp, hcode, rfl⟩
  · refine .inl ⟨rfl, rfl, ?_, rfl⟩
    cases op <;> first | rfl | exact absurd h (by decide +kernel)
  · right
    obtain ⟨v, rfl, hv⟩ := hl.exists_width hp
    have hw : ∃ w, unaryPromotion? right = some (.prim (Width.prim w)) := by
      rcases hr with rfl | hw
      · rw [show boolean = prim .boolean from rfl, isIntegral_prim] at hint
        cases hint
      · exact hw
    obtain ⟨w, hw⟩ := hw
    rw [arithmeticOp?_width] at hcode
    cases hcode
    have hwidth : op.width v w = v := if_pos hshift
    exact ⟨v, w, hv, hw, by rw [hwidth, if_pos hshift]⟩
  · right
    obtain ⟨p, q, hleft, hright, hcommon⟩ := binaryPromotion?_eq_some_iff.mp hp
    obtain ⟨v, rfl, hv⟩ := hl.exists_width hleft
    obtain ⟨w, rfl, hw⟩ := hr.exists_width hright
    obtain rfl := prim_injective hcommon
    have hwidth : op.width v w = v.common w := if_neg (by simp [hshift])
    rw [Width.common_prim, arithmeticOp?_width] at hcode
    cases hcode
    exact ⟨v, w, hv, hw, by rw [hwidth, Width.common_prim, if_neg (by simp [hshift])]⟩

end Ty.IsArithmetic

theorem Expr.Accepted.isArithmetic {ctx : BodyCtx} {e : Expr} {ty : Ty} (h : e.Accepted ctx ty)
    (hform : e.isArithmetic = true) : ty.IsArithmetic := by
  induction h with
  | @literal n value hty =>
    cases value with
    | int => exact .inr ⟨.int, unaryPromotion?_prim .int⟩
    | long => exact .inr ⟨.long, unaryPromotion?_prim .long⟩
    | char => exact .inr ⟨.int, unaryPromotion?_prim .char⟩
    | _ => cases hform
  | @slot n text index ty hty =>
    have hmem : ty ∈ arithmeticLocals := by
      unfold Expr.isArithmetic at hform
      rw [hty] at hform
      exact of_decide_eq_true hform
    have hall : ∀ ty ∈ arithmeticLocals, ty = .boolean
        ∨ unaryPromotion? ty = some (.prim (Width.prim .int))
        ∨ unaryPromotion? ty = some (.prim (Width.prim .long)) := by decide +kernel
    rcases hall ty hmem with hboolean | hint | hlong
    · exact .inl hboolean
    · exact .inr ⟨.int, hint⟩
    · exact .inr ⟨.long, hlong⟩
  | @unary n op operand operandTy ty hty hoperand hpromoted hintegral ih =>
    obtain ⟨-, p, -, -, rfl⟩ := unaryPromotion?_eq_some_iff.mp hpromoted
    obtain ⟨width, rfl, -⟩ := (ih hform).exists_width hpromoted
    exact .inr ⟨width, unaryPromotion?_width width⟩
  | @binary n op lhs rhs left right rule hty hlhs hrhs hrule ihl ihr =>
    obtain ⟨hl, hr⟩ := Bool.and_eq_true_iff.mp hform
    rcases (ihl hl).resolve (ihr hr) hrule with ⟨-, -, -, rfl⟩ | ⟨v, w, -, -, rfl⟩
    · exact .inl rfl
    · exact .inr ⟨op.width v w, unaryPromotion?_width _⟩
  | _ => cases hform

/-! ## Conversions -/

section

variable (host : Host) {source : Ty} {u : Value} {v w : Width} {x y : Int}

theorem convert?_widen (hsource : source.kind = v.prim.kind) (hu : u.number? = some (v, x))
    (w : Width) : ∃ u', host.convert? (conversion source (.prim (v.common w).prim)) u = some u'
      ∧ u'.number? = some (v.common w, x) := by
  unfold conversion
  rw [hsource, Ty.prim?_prim]
  cases u <;> cases hu
  · next u =>
    cases w
    · exact ⟨.int u, rfl, rfl⟩
    · refine ⟨.long u.toInt64, rfl, ?_⟩
      rw [Value.number?, Int32.toInt_toInt64]
      rfl
  · next u => exact ⟨.long u, rfl, rfl⟩

theorem convert?_distance (hsource : source.kind = v.prim.kind) (hu : u.number? = some (v, x))
    (w : Width) : ∃ u' y, host.convert? (conversion source .int) u = some u'
      ∧ u'.number? = some (.int, y) ∧ w.distance y = w.distance x := by
  unfold conversion
  rw [hsource, show Ty.int = .prim .int from rfl, Ty.prim?_prim]
  cases u <;> cases hu
  · next u => exact ⟨.int u, u.toInt, rfl, rfl, rfl⟩
  · next u =>
    refine ⟨.int u.toInt32, u.toInt32.toInt, rfl, rfl, ?_⟩
    rw [Int64.toInt_toInt32, w.distance_bmod (by decide)]

/-- The left operand in the width that an operator computes in. -/
theorem convert?_left (op : BinaryOp) (hsource : source.kind = v.prim.kind)
    (hu : u.number? = some (v, x)) (w : Width) :
    ∃ u', host.convert? (conversion source (.prim (op.width v w).prim)) u = some u'
      ∧ u'.number? = some (op.width v w, x) := by
  unfold BinaryOp.width
  split
  · have hself : v.common v = v := by cases v <;> rfl
    have hwiden := convert?_widen host hsource hu v
    rwa [hself] at hwiden
  · exact convert?_widen host hsource hu w

/-- The right operand in the form that the instruction takes, and what it computes. -/
theorem binary?_right (op : BinaryOp) (hsource : source.kind = w.prim.kind)
    (hu : u.number? = some (w, y)) (v : Width) :
    ∃ u', host.convert? (conversion source
          (if op.isShift then .int else .prim (op.width v w).prim)) u = some u'
      ∧ (op.isShift = false → u'.number? = some (op.width v w, y))
      ∧ ∀ {t x}, t.number? = some (op.width v w, x) →
        (host.binary? (op.onWidth (op.width v w)) t u').map (Option.map Value.number?)
          = some ((op.onNumbers? (op.width v w) x y).map fun z => some (op.width v w, z)) := by
  by_cases hshift : op.isShift = true
  · obtain ⟨u', z, hconvert, hnumber, hdistance⟩ :=
      convert?_distance host hsource hu (op.width v w)
    rw [if_pos hshift]
    refine ⟨u', hconvert, fun hno => ?_, fun ht => ?_⟩
    · rw [hshift] at hno
      cases hno
    · rw [← BinaryOp.onNumbers?_shift hshift _ hdistance]
      exact host.binary?_shift op hshift ht hnumber
  · have hno : op.isShift = false := Bool.not_eq_true _ ▸ hshift
    have hwidth : op.width v w = w.common v := by
      unfold BinaryOp.width
      rw [if_neg hshift]
      cases v <;> cases w <;> rfl
    obtain ⟨u', hconvert, hnumber⟩ := convert?_widen host hsource hu v
    rw [← hwidth] at hconvert hnumber
    rw [if_neg hshift]
    exact ⟨u', hconvert, fun _ => hnumber, fun ht => host.binary?_number op hno ht hnumber⟩

/-- The bitwise operators on truth values. -/
theorem binary?_truths {op : BinaryOp} (hop : op.isBitwise = true) (a b : Bool) :
    ∃ c, op.onTruths? a b = some c
      ∧ host.binary? op.onInt (.bool a) (.bool b) = some (some (.bool c)) := by
  cases op with
  | bitAnd | bitOr | bitXor => cases a <;> cases b <;> exact ⟨_, rfl, rfl⟩
  | _ => cases hop

end

/-! ## Operators -/

/-- The piece takes its operands and leaves what an expression of a type comes to above the stack,
and the memory as it is. An exception leaves the operands that wait. -/
def Emit.Yields (host : Host) (memory : Memory) (piece : Emit Unit) (operands : List Value)
    (ty : Ty) : Computed → Prop
  | .value scalar => ∃ v : Value, v.Is ty scalar
      ∧ ∀ stack, piece.Moves host (operands ++ stack) memory (v :: stack) memory
  | .raises waiting => ∃ values : List Value, values.map Value.waiting? = waiting.map some
      ∧ ∀ stack, piece.Throws host (operands ++ stack) memory .division (values ++ stack) memory

section

variable {host : Host} {memory : Memory}

theorem yields_then {first : Emit Unit} {rest : Unit → Emit Unit} {before : List Value} {ty : Ty}
    {computed : Computed} (operands : List Value) (hcompletes : first.Completes)
    (hmoves : ∀ stack, first.Moves host (before ++ stack) memory (operands ++ stack) memory)
    (hrest : (rest ()).Yields host memory operands ty computed) :
    (first >>= rest).Yields host memory before ty computed := by
  cases computed with
  | value scalar =>
    obtain ⟨v, hv, hrest⟩ := hrest
    exact ⟨v, hv, fun stack => leads_then (hmoves stack) hcompletes (hrest stack)⟩
  | raises waiting =>
    obtain ⟨values, hvalues, hrest⟩ := hrest
    exact ⟨values, hvalues, fun stack => leads_then (hmoves stack) hcompletes (hrest stack)⟩

theorem yields_unaryOps (op : UnaryOp) {u : Value} {width : Width} {x : Int}
    (hu : u.number? = some (width, x)) :
    ((unaryOps op (.prim width.prim)).forM instr).Yields host memory [u] (.prim width.prim)
      (.value (.number width (op.onNumber width x))) := by
  cases op with
  | plus => exact ⟨u, Value.is_fixed hu, fun stack => leads_pure _⟩
  | neg =>
    have hneg : ∃ code, code.isUnary = true ∧ unaryOps .neg (.prim width.prim) = [.noArg code]
        ∧ ∃ u', host.unary? code u = some u'
          ∧ u'.number? = some (width, UnaryOp.neg.onNumber width x) := by
      unfold unaryOps
      rw [Ty.prim?_prim]
      cases u <;> cases hu
      · next u =>
        refine ⟨.ineg, rfl, rfl, .int (-u), rfl, ?_⟩
        rw [Value.number?, Int32.toInt_neg]
        rfl
      · next u =>
        refine ⟨.lneg, rfl, rfl, .long (-u), rfl, ?_⟩
        rw [Value.number?, Int64.toInt_neg]
        rfl
    obtain ⟨code, hcode, hops, u', hvalue, hnumber⟩ := hneg
    rw [hops]
    exact ⟨u', Value.is_fixed hnumber, fun stack =>
      leads_then (moves_unary hcode hvalue) (completes_instr _) (leads_pure _)⟩
  | bitNot =>
    have hnot : ∃ push ones, unaryOps .bitNot (.prim width.prim)
          = [push, .noArg (BinaryOp.bitXor.onWidth width)]
        ∧ push.access? = none ∧ host.constant? push = some ones
        ∧ ones.number? = some (width, -1) := by
      unfold unaryOps
      cases width with
      | int =>
        have hint : Ty.prim Width.int.prim ≠ .prim .long := fun h => by
          cases Ty.prim_injective h
        refine ⟨_, .int (-1), if_neg hint, rfl, rfl, rfl⟩
      | long =>
        refine ⟨_, .long (-1), if_pos rfl, access?_literalInstr (.long (-1)),
          host.constant?_pushLong _, rfl⟩
    obtain ⟨push, ones, hops, haccess, hpush, hones⟩ := hnot
    obtain ⟨word, rfl⟩ := Value.exists_word hu
    have hvalue := host.binary?_number .bitXor rfl hu hones
    rw [BinaryOp.onNumbers?_bitXor_ones] at hvalue
    obtain ⟨result, hu', hresult⟩ := Option.map_eq_some_iff.mp hvalue
    obtain ⟨u', rfl, hnumber⟩ := Option.map_eq_some_iff.mp hresult
    rw [hops]
    refine ⟨u', Value.is_fixed hnumber, fun stack => ?_⟩
    exact leads_then (moves_constant haccess hpush) (completes_instr _)
      (leads_then (moves_binary (by cases width <;> rfl) hu') (completes_instr _) (leads_pure _))

variable {left right : Ty} {op : BinaryOp} {rule : BinaryRule} {v w : Value} {a b : Scalar}

/-- The left operand, as it waits for the right one. -/
theorem exists_waiting (host : Host) (hl : left.IsArithmetic) (hr : right.IsArithmetic)
    (hrule : resolveBinary? op left right = some rule) (hv : v.Is left a) :
    ∃ v', host.convert? rule.left v = some v' ∧ v'.waiting? = some a.waiting := by
  rcases hl.resolve hr hrule with ⟨-, -, -, rfl⟩ | ⟨m, n, hm, -, rfl⟩
  · exact ⟨v, rfl, hv.waiting⟩
  · obtain ⟨x, hnumber, rfl⟩ := hv.number hm
    obtain ⟨v', hconvert, hv'⟩ :=
      convert?_left host op (Ty.kind_of_unaryPromotion? hm) hnumber n
    exact ⟨v', hconvert, Value.waiting?_of_number? hv'⟩

/-- The instruction on both operands gives the value of the operator, or throws where there is
none. -/
theorem exists_operands (hl : left.IsArithmetic) (hr : right.IsArithmetic)
    (hrule : resolveBinary? op left right = some rule) (hv : v.Is left a) (hw : w.Is right b) :
    ∃ v' w', host.convert? rule.left v = some v' ∧ host.convert? rule.right w = some w'
      ∧ ∃ computed, op.onScalars? a b = some computed
        ∧ (Emit.op rule.op).Yields host memory [w', v'] rule.result computed := by
  have hbinary := OpCode.isBinary_of_resolveBinary? hrule
  rcases hl.resolve hr hrule with ⟨rfl, rfl, hop, rfl⟩ | ⟨m, n, hm, hn, rfl⟩
  · obtain ⟨x, rfl, rfl⟩ := hv.truth
    obtain ⟨y, rfl, rfl⟩ := hw.truth
    obtain ⟨c, hc, hvalue⟩ := binary?_truths host hop x y
    refine ⟨_, _, rfl, rfl, .value (.truth c), ?_, .bool c, Value.is_bool c, fun stack => ?_⟩
    · exact congrArg (Option.map _) hc
    · exact moves_binary hbinary hvalue
  · obtain ⟨x, hx, rfl⟩ := hv.number hm
    obtain ⟨y, hy, rfl⟩ := hw.number hn
    obtain ⟨v', hleft, hv'⟩ :=
      convert?_left host op (Ty.kind_of_unaryPromotion? hm) hx n
    obtain ⟨w', hright, hw', hoperate⟩ :=
      binary?_right host op (Ty.kind_of_unaryPromotion? hn) hy m
    refine ⟨v', w', hleft, hright, ?_⟩
    have hresult := hoperate hv'
    cases hz : op.onNumbers? (op.width m n) x y with
    | some z =>
      rw [hz] at hresult
      obtain ⟨result, hu, hresult⟩ := Option.map_eq_some_iff.mp hresult
      obtain ⟨u, rfl, hnumber⟩ := Option.map_eq_some_iff.mp hresult
      refine ⟨.value (.number _ z), ?_, u, Value.is_fixed hnumber, fun stack =>
        moves_binary hbinary hu⟩
      simp only [BinaryOp.onScalars?, hz]
    | none =>
      rw [hz] at hresult
      obtain ⟨u, hu, hnone⟩ := Option.map_eq_some_iff.mp hresult
      obtain rfl := Option.map_eq_none_iff.mp hnone
      have hno := (BinaryOp.eq_zero_of_onNumbers? hz).2
      refine ⟨.raises [y, x], ?_, [w', v'], ?_, fun stack => throws_binary hbinary hu⟩
      · simp only [BinaryOp.onScalars?, hz]
      · rw [List.map_cons, List.map_cons, Value.waiting?_of_number? (hw' hno),
          Value.waiting?_of_number? hv']
        rfl

/-- A unary operator behind its operand. -/
theorem yields_unary {operand ty : Ty} (op : UnaryOp) (hoperand : operand.IsArithmetic)
    (hp : unaryPromotion? operand = some ty) {piece : Emit Unit} (hcompletes : piece.Completes)
    {computed : Computed} (h : piece.Yields host memory [] operand computed) :
    ∃ result, op.onComputed? computed = some result ∧ (do
      piece
      ops (conversion operand ty)
      (unaryOps op ty).forM instr : Emit Unit).Yields host memory [] ty result := by
  cases computed with
  | raises waiting =>
    obtain ⟨values, hvalues, hthrows⟩ := h
    exact ⟨.raises waiting, rfl, values, hvalues, fun stack => leads_stop (hthrows stack) rfl⟩
  | value scalar =>
    obtain ⟨v, hv, hmoves⟩ := h
    obtain ⟨-, p, -, -, rfl⟩ := unaryPromotion?_eq_some_iff.mp hp
    obtain ⟨width, rfl, hwidth⟩ := hoperand.exists_width hp
    obtain ⟨x, hnumber, rfl⟩ := hv.number hwidth
    obtain ⟨v', hconvert, hv'⟩ :=
      convert?_widen host (Ty.kind_of_unaryPromotion? hwidth) hnumber width
    rw [Width.common_self] at hconvert hv'
    refine ⟨_, rfl, ?_⟩
    refine yields_then [v] hcompletes hmoves ?_
    refine yields_then [v'] (succeeds_ops _).completes (fun stack => moves_conversion hconvert) ?_
    exact yields_unaryOps op hv'

/-- A binary operator behind its operands. -/
theorem yields_binary (hl : left.IsArithmetic) (hr : right.IsArithmetic)
    (hrule : resolveBinary? op left right = some rule) {l r : Emit Unit} (hlc : l.Completes)
    (hrc : r.Completes) {cl cr : Computed} (hleft : l.Yields host memory [] left cl)
    (hright : r.Yields host memory [] right cr) :
    ∃ result, op.onComputed? cl cr = some result ∧ (do
      l
      ops rule.left
      r
      ops rule.right
      Emit.op rule.op : Emit Unit).Yields host memory [] rule.result result := by
  obtain ⟨hunaryLeft, hunaryRight⟩ := OpCode.isUnary_of_mem_rule hrule
  cases cl with
  | raises waiting =>
    obtain ⟨values, hvalues, hthrows⟩ := hleft
    exact ⟨.raises waiting, rfl, values, hvalues, fun stack => leads_stop (hthrows stack) rfl⟩
  | value a =>
    obtain ⟨v, hv, hmovesLeft⟩ := hleft
    cases cr with
    | raises waiting =>
      obtain ⟨values, hvalues, hthrows⟩ := hright
      obtain ⟨v', hconvert, hwaiting⟩ := exists_waiting host hl hr hrule hv
      refine ⟨.raises (waiting ++ [a.waiting]), rfl, ?_⟩
      refine yields_then [v] hlc hmovesLeft ?_
      refine yields_then [v'] (succeeds_ops _).completes
        (fun stack => moves_ops hunaryLeft hconvert) ?_
      refine ⟨values ++ [v'], ?_, fun stack => ?_⟩
      · rw [List.map_append, List.map_append, hvalues, List.map_singleton, hwaiting]
        rfl
      · rw [List.append_assoc]
        exact leads_stop (hthrows _) rfl
    | value b =>
      obtain ⟨w, hw, hmovesRight⟩ := hright
      obtain ⟨v', w', hconvertLeft, hconvertRight, computed, hcomputed, hoperate⟩ :=
        exists_operands hl hr hrule hv hw
      refine ⟨computed, hcomputed, ?_⟩
      refine yields_then [v] hlc hmovesLeft ?_
      refine yields_then [v'] (succeeds_ops _).completes
        (fun stack => moves_ops hunaryLeft hconvertLeft) ?_
      refine yields_then [w, v'] hrc (fun stack => hmovesRight _) ?_
      refine yields_then [w', v'] (succeeds_ops _).completes
        (fun stack => moves_ops hunaryRight hconvertRight) ?_
      exact hoperate

end

/-! ## Expressions -/

theorem Expr.Accepted.yields {ctx : BodyCtx} {e : Expr} {ty : Ty} (h : e.Accepted ctx ty)
    (hform : e.isArithmetic = true) {memory : Memory} (hheld : e.HeldIn memory)
    (registry : Registry) (host : Host) : ∃ computed, e.scalar? memory = some computed
      ∧ (e.code registry).value.Yields host memory [] ty computed := by
  induction h with
  | @literal n value hty =>
    have hpush : ∀ v : Value, host.constant? (literalInstr value) = some v → ∀ stack,
        (instr (literalInstr value)).Moves host stack memory (v :: stack) memory :=
      fun v hv stack => moves_constant (access?_literalInstr value) hv
    cases value with
    | int v =>
      exact ⟨_, rfl, .int v, Value.is_number (unaryPromotion?_prim .int) rfl,
        hpush _ (host.constant?_pushInt v)⟩
    | long v =>
      exact ⟨_, rfl, .long v, Value.is_number (unaryPromotion?_prim .long) rfl,
        hpush _ (host.constant?_pushLong v)⟩
    | char unit =>
      have hunit : (unit.toNat.toInt32).toInt = unit.toNat :=
        Int32.toInt_ofNat_of_lt (by have hlt := unit.toNat_lt; omega)
      refine ⟨_, rfl, .int unit.toNat.toInt32, ?_, hpush _ (host.constant?_pushInt _)⟩
      exact Value.is_number (unaryPromotion?_prim .char) (by rw [Value.number?, hunit])
    | _ => cases hform
  | @slot n text index ty hty hlocal hvalue =>
    have he : (Expr.name n text (some (.slot index))).Accepted ctx ty := .slot hty hlocal hvalue
    obtain ⟨v, hread, hfits⟩ := hheld _ (Expr.mem_nodes_self _) ⟨index, ty⟩
      (by rw [Expr.namedLocal?, hty]; rfl)
    obtain ⟨scalar, hv⟩ := hfits.exists_scalar (he.isArithmetic hform)
    refine ⟨.value scalar, ?_, v, hv, fun stack => ?_⟩
    · simp only [Expr.scalar?, hty, hread, hv.scalar, Option.bind_some, Option.map_some]
    · show (nameValue registry n text (some (.slot index))).Moves host stack memory _ memory
      simp only [nameValue, he.provenTy, pure_bind]
      exact moves_load hread hv.kind
  | @unary n op operand operandTy ty hty hoperand hpromoted hintegral ih =>
    have hform : operand.isArithmetic = true := hform
    obtain ⟨computed, hcomputed, hyields⟩ := ih hform (hheld.child List.mem_cons_self)
    obtain ⟨result, hresult, hcode⟩ := yields_unary op (hoperand.isArithmetic hform) hpromoted
      (hoperand.succeeds registry).value.completes hyields
    refine ⟨result, ?_, ?_⟩
    · rw [Expr.scalar?, hcomputed]
      exact hresult
    · have he : (Expr.unary n op operand).Accepted ctx ty := .unary hty hoperand hpromoted hintegral
      show (unaryValue op _ operand _).Yields host memory [] ty result
      rw [unaryValue_eq he hoperand]
      exact hcode
  | @binary n op lhs rhs left right rule hty hlhs hrhs hrule ihl ihr =>
    obtain ⟨hformLeft, hformRight⟩ := Bool.and_eq_true_iff.mp hform
    obtain ⟨cl, hcl, hleft⟩ := ihl hformLeft (hheld.child List.mem_cons_self)
    obtain ⟨cr, hcr, hright⟩ :=
      ihr hformRight (hheld.child (List.mem_cons_of_mem _ List.mem_cons_self))
    obtain ⟨result, hresult, hcode⟩ := yields_binary (hlhs.isArithmetic hformLeft)
      (hrhs.isArithmetic hformRight) hrule (hlhs.succeeds registry).value.completes
      (hrhs.succeeds registry).value.completes hleft hright
    refine ⟨result, ?_, ?_⟩
    · rw [Expr.scalar?, hcl, hcr]
      exact hresult
    · show (binaryValue op n.line lhs rhs _ _).Yields host memory [] rule.result result
      rw [binaryValue_eq hlhs hrhs hrule]
      exact hcode
  | _ => cases hform

end ClassCompiler
