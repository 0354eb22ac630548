import ClassCompiler.Proofs.Code.PlaceSteps

/-!
# Code of assignments and increments

An update evaluates the operands of its place, reads the old value if it needs one, evaluates its
right side, and stores the new value. These steps are taken once each and in this order, whatever
the operands and the right side do; the place and the value may be of any type.

* `Expr.Points`: the evaluation of a place
* `Expr.Updates`: what an update does
* `Expr.Accepted.does_update`
-/

namespace ClassCompiler

open Emit ExprCode

/-! ## Updates -/

/-- The evaluation of an expression. -/
def Expr.Evaluates (registry : Registry) (host : Host) (e : Expr) (before : Memory)
    (r : Result Value) : Prop :=
  (e.code registry).value.Does host [] before (r.map fun v => [v])

/-- The value of an update, which is dropped if the update is a statement. -/
def Node.leaves (n : Node) (v : Value) : List Value := if n.isStatement then [] else [v]

namespace Host

variable (host : Host)

/-- The new value of a compound assignment: the instruction of the operator takes the old value and
the right one, which is converted to the type of the place, or to `int` as a shift distance. There
is none where it divides by zero. -/
def combined? (op : BinaryOp) (left right : Ty) (old w : Value) : Option Value :=
  (arithmeticOp? op left).bind fun code =>
    (host.convert? (conversion right (if op.isShift then .int else left)) w).bind fun w =>
      (host.binary? code old w).join

/-- The new value of an increment: one is added or subtracted in the promoted type, and the result
is converted back. -/
def stepped? (op : IncrementOp) (ty : Ty) (old : Value) : Option Value :=
  (unaryPromotion? ty).bind fun promoted =>
    (arithmeticOp? (if 0 < op.delta then .add else .sub) promoted).bind fun code =>
      (host.constant? (.pushOne promoted)).bind fun one =>
        (host.binary? code old one).join.bind (host.convert? (conversion promoted ty))

end Host

namespace Expr

variable (registry : Registry) (host : Host)

/-- The operands of a place: the receiver of a field, or the array and the index of an element, each
evaluated once and from left to right. -/
inductive Points : Expr → Memory → Result (List Value) → Prop
  | slot {n : Node} {text : String} {index : Nat} {before : Memory} :
    Points (.name n text (some (.slot index))) before (.done [] before)
  | static {n : Node} {text : String} {ref : FieldRef} {before : Memory}
    (hstatic : ref.isStatic = true) :
    Points (.name n text (some (.field ref))) before (.done [] before)
  | own {n : Node} {text : String} {ref : FieldRef} {before : Memory} {object : Option Nat}
    (hinstance : ref.isStatic = false)
    (hthis : before.read (.slot 0) = some (.reference object)) :
    Points (.name n text (some (.field ref))) before (.done [.reference object] before)
  | receiver {n : Node} {text : String} {ref : FieldRef} {target : Expr} {before : Memory}
    {r : Result (Option Nat)} (htarget : target.Evaluates registry host before (r.map .reference)) :
    Points (.field n target text (some ref)) before (r.map fun object => [.reference object])
  | array {n : Node} {array position : Expr} {before after : Memory} {fault : Fault}
    (harray : array.Evaluates registry host before (.raised fault after)) :
    Points (.index n array position) before (.raised fault after)
  | element {n : Node} {array position : Expr} {before middle : Memory} {address : Option Nat}
    {r : Result Int32}
    (harray : array.Evaluates registry host before (.done (.reference address) middle))
    (hposition : position.Evaluates registry host middle (r.map .int)) :
    Points (.index n array position) before (r.map fun i => [.int i, .reference address])

/-- What an assignment or an increment does, `+=` on a `String` apart. The operands of the place
come first. The old value is read next if there is need of it, then the right side is evaluated, and
then the new value is stored. -/
inductive Updates : Expr → Memory → Result (List Value) → Prop
  | assignRaised {n : Node} {op : AssignOp} {lhs rhs : Expr} {before after : Memory} {fault : Fault}
    (hlhs : lhs.Points registry host before (.raised fault after)) :
    Updates (.assign n op lhs rhs) before (.raised fault after)
  | plain {n : Node} {lhs rhs : Expr} {before middle : Memory} {operands : List Value}
    {place : Place} {r : Result Value}
    (hlhs : lhs.Points registry host before (.done operands middle))
    (hplace : lhs.place = .ok place)
    (hrhs : rhs.Evaluates registry host middle r) (hr : r.Gives rhs.tyOrAny) :
    Updates (.assign n .plain lhs rhs) before (r.andThen fun v after =>
      host.store (place.location? registry operands) v (n.leaves v) after)
  | compoundMissing {n : Node} {op : BinaryOp} {lhs rhs : Expr} {before middle : Memory}
    {operands : List Value} {place : Place}
    (hlhs : lhs.Points registry host before (.done operands middle))
    (hplace : lhs.place = .ok place)
    (hmissing : middle.Lacks (place.location? registry operands)) :
    Updates (.assign n (.compound op) lhs rhs) before (.raised .access middle)
  | compound {n : Node} {op : BinaryOp} {lhs rhs : Expr} {before middle : Memory}
    {operands : List Value} {place : Place} {old : Value} {r : Result Value}
    (hlhs : lhs.Points registry host before (.done operands middle))
    (hplace : lhs.place = .ok place)
    (hold : middle.Has (place.location? registry operands) old)
    (hty : lhs.tyOrAny.holds old = true)
    (hrhs : rhs.Evaluates registry host middle r) (hr : r.Gives rhs.tyOrAny) :
    Updates (.assign n (.compound op) lhs rhs) before (r.andThen fun w after =>
      match host.combined? op lhs.tyOrAny rhs.tyOrAny old w with
      | some new => host.store (place.location? registry operands) new (n.leaves new) after
      | none => .raised .division after)
  | incrementRaised {n : Node} {op : IncrementOp} {target : Expr} {before after : Memory}
    {fault : Fault} (htarget : target.Points registry host before (.raised fault after)) :
    Updates (.increment n op target) before (.raised fault after)
  | incrementMissing {n : Node} {op : IncrementOp} {target : Expr} {before middle : Memory}
    {operands : List Value} {place : Place}
    (htarget : target.Points registry host before (.done operands middle))
    (hplace : target.place = .ok place)
    (hmissing : middle.Lacks (place.location? registry operands)) :
    Updates (.increment n op target) before (.raised .access middle)
  | increment {n : Node} {op : IncrementOp} {target : Expr} {before middle : Memory}
    {operands : List Value} {place : Place} {old new : Value}
    (htarget : target.Points registry host before (.done operands middle))
    (hplace : target.place = .ok place)
    (hold : middle.Has (place.location? registry operands) old)
    (hty : target.tyOrAny.holds old = true)
    (hnew : host.stepped? op target.tyOrAny old = some new) :
    Updates (.increment n op target) before (host.store (place.location? registry operands) new
      (n.leaves (if op.isPre then new else old)) middle)

/-- The assignments and increments that are no concatenation. -/
def isUpdate : Expr → Bool
  | assign _ .plain _ _ => true
  | assign _ (.compound op) lhs _ => !(op == .add && lhs.tyOrAny == .string)
  | increment .. => true
  | _ => false

variable {registry host} {ctx : BodyCtx} {e : Expr} {ty : Ty} {before : Memory}
  {r : Result (List Value)}

theorem Points.takes (h : e.Points registry host before r) {operands : List Value} {middle : Memory}
    (hr : r = .done operands middle) {place : Place} (hplace : e.place = .ok place) :
    place.Takes operands := by
  cases h with
  | slot =>
    cases hplace
    cases hr
    rfl
  | static hstatic =>
    cases hr
    simp only [Expr.place, hstatic, if_true] at hplace
    cases hplace
    rfl
  | @own _ _ _ _ object hinstance =>
    cases hr
    simp only [Expr.place, hinstance, Bool.false_eq_true, if_false] at hplace
    cases hplace
    exact ⟨object, rfl⟩
  | @receiver _ _ _ _ _ result =>
    cases hplace
    cases result <;> cases hr
    exact ⟨_, rfl⟩
  | array => cases hr
  | @element _ _ _ _ _ address result =>
    cases hplace
    cases result <;> cases hr
    exact ⟨_, address, rfl⟩

theorem Points.does (h : e.Points registry host before r) (he : e.Accepted ctx ty) :
    (e.code registry).operands.Does host [] before r := by
  cases h with
  | slot => exact does_pure [] before
  | @static n text ref _ hstatic =>
    show (nameOperands n text (some (.field ref))).Does host [] before _
    simp only [nameOperands, hstatic, if_true]
    exact does_pure [] before
  | @own n text ref _ object hinstance hthis =>
    show (nameOperands n text (some (.field ref))).Does host [] before _
    simp only [nameOperands, hinstance, Bool.false_eq_true, if_false]
    exact fun stack => moves_aload0 hthis
  | @receiver _ _ _ _ _ result htarget => cases result <;> exact htarget
  | array harray => exact does_stop harray
  | @element _ array position _ middle address result harray hposition =>
    have hcompletes : (array.code registry).value.Completes := by
      cases he with
      | index _ _ harray _ _ _ => exact (harray.succeeds registry).value.completes
    refine does_then hcompletes harray ?_
    cases result with
    | done i after => exact fun stack => hposition (.reference address :: stack)
    | raised fault after => exact fun stack => hposition (.reference address :: stack)

end Expr

/-! ## Code of updates -/

section

variable {registry : Registry} {host : Host} {place : Place} {ty left right : Ty}
  {operands : List Value} {memory : Memory} {v old : Value}

/-- A value that is kept if the test says so. -/
theorem does_keepIf (host : Host) (memory : Memory) (test : Bool) (h : place.Takes operands)
    (hkind : v.kind = ty.kind) (kept : List Value) :
    (optionally test (place.keep ty)).Does host (v :: (operands ++ kept)) memory
      (.done (v :: (operands ++ ((if test then [v] else []) ++ kept))) memory) := by
  cases test with
  | false => exact does_pure _ _
  | true =>
    have hkeep := (Place.does_keep host memory h hkind).frame kept
    simpa [optionally] using hkeep

/-- The end of an update: the value is kept if it is used, and stored. -/
theorem does_keepAndStore (registry : Registry) (host : Host) (memory : Memory) (test : Bool)
    (h : place.Takes operands) (hv : ty.holds v = true)
    (kept : List Value) : (do
      optionally test (place.keep ty)
      place.store registry ty : Emit Unit).Does host (v :: (operands ++ kept)) memory
        (host.store (place.location? registry operands) v ((if test then [v] else []) ++ kept)
          memory) :=
  does_then (succeeds_optionally test (place.keep_succeeds ty)).completes
    (does_keepIf host memory test h (Ty.kind_of_holds hv) kept)
    (Place.does_store host memory registry h hv _)

theorem does_finish (h : place.Takes operands) (hv : ty.holds v = true) (n : Node) :
    (do
      optionally (!n.isStatement) (place.keep ty)
      place.store registry ty : Emit Unit).Does host (v :: operands) memory
        (host.store (place.location? registry operands) v (n.leaves v) memory) := by
  have hstore := does_keepAndStore registry host memory (!n.isStatement) h hv []
  have hleaves : (if !n.isStatement then [v] else []) ++ [] = n.leaves v := by
    unfold Node.leaves
    cases n.isStatement <;> rfl
  rwa [hleaves, List.append_nil] at hstore

/-- A compound assignment combines values of its types, but for a division by zero. -/
theorem combined?_typed (host : Host) {op : BinaryOp} (hleft : left ∈ compoundOperands op)
    (hright : right ∈ compoundOperands op) {w : Value} (hold : left.holds old = true)
    (hw : right.holds w = true) : ∃ code w', arithmeticOp? op left = some code
      ∧ code.isBinary = true
      ∧ host.convert? (conversion right (if op.isShift then .int else left)) w = some w'
      ∧ host.binary? code old w' = some (host.combined? op left right old w)
      ∧ (∀ u, host.combined? op left right old w = some u → left.holds u = true)
      ∧ (host.combined? op left right old w = none → op = .div ∨ op = .rem) := by
  obtain ⟨p, hp, rfl⟩ := exists_computed_of_mem_compoundOperands hleft
  obtain ⟨q, hq, rfl⟩ := exists_computed_of_mem_compoundOperands hright
  obtain ⟨code, hcode⟩ := arithmeticOp?_isSome hleft
  have hkind := Ty.kind_of_holds hw
  have hnumber : w.kind ≠ .reference := by
    rw [hkind, Ty.kind_prim]
    exact Prim.kind_ne_reference hq
  have htarget : ∃ t ∈ Prim.computed, (if op.isShift then Ty.int else .prim p) = .prim t
      ∧ t.kind = if op.isShift then Kind.int else p.kind := by
    cases op.isShift with
    | true => exact ⟨.int, by decide, rfl, rfl⟩
    | false => exact ⟨p, hp, rfl, rfl⟩
  obtain ⟨t, ht, hty, htkind⟩ := htarget
  obtain ⟨w', hconvert, hw'⟩ := host.exists_convert hkind.symm hnumber ht
  rw [Ty.holds_prim] at hold
  obtain ⟨result, hbinary, hresult, hnone⟩ :=
    host.exists_binary hp hcode (Prim.kind_of_holds hold) (hw'.trans htkind)
  rw [← hty] at hconvert
  have hcombined : host.combined? op (.prim p) (.prim q) old w = result := by
    unfold Host.combined?
    rw [hcode, Option.bind_some, hconvert, Option.bind_some, hbinary, Option.join_some]
  refine ⟨code, w', hcode, OpCode.isBinary_of_arithmeticOp? hcode, hconvert, ?_, fun u hu => ?_,
    fun hu => hnone (hcombined.symm.trans hu)⟩
  · rw [hcombined, hbinary]
  · rw [Ty.holds_prim]
    exact Prim.holds_of_kind hp (hresult u (hcombined.symm.trans hu))

theorem stepped?_typed (host : Host) (op : IncrementOp) (hnumeric : ty.isNumeric = true)
    (hold : ty.holds old = true) : ∃ p code one sum new, unaryPromotion? ty = some (.prim p)
      ∧ arithmeticOp? (if 0 < op.delta then .add else .sub) (.prim p) = some code
      ∧ host.constant? (.pushOne (.prim p)) = some one
      ∧ code.isBinary = true ∧ host.binary? code old one = some (some sum)
      ∧ host.convert? (conversion (.prim p) ty) sum = some new
      ∧ host.stepped? op ty old = some new ∧ ty.holds new = true := by
  obtain ⟨p, code, hpromoted, hcode⟩ := exists_incrementOp hnumeric op
  obtain ⟨q, p', rfl, hq, hprim⟩ := unaryPromotion?_eq_some_iff.mp hpromoted
  obtain rfl := Ty.prim_injective hprim
  have hp := Prim.mem_computed_of_promoted? hq
  rw [Ty.holds_prim] at hold
  have hkind : old.kind = p.kind := by
    rw [Prim.kind_of_holds hold]
    cases q <;> cases hq <;> rfl
  have hone : ∃ one, host.constant? (.pushOne (.prim p)) = some one ∧ one.kind = p.kind := by
    unfold Instr.pushOne
    rw [Ty.kind_prim]
    cases q <;> cases hq <;> exact ⟨_, rfl, rfl⟩
  obtain ⟨one, hone, hkindOne⟩ := hone
  have hop : ∀ op' : BinaryOp, op' = (if 0 < op.delta then .add else .sub) →
      op'.isShift = false ∧ op' ≠ .div ∧ op' ≠ .rem := by
    rintro op' rfl
    split <;> exact ⟨rfl, by decide, by decide⟩
  obtain ⟨hshift, hdiv, hrem⟩ := hop _ rfl
  obtain ⟨result, hbinary, hresult, hnone⟩ := host.exists_binary hp hcode hkind
    (by rw [hshift]; exact hkindOne)
  cases result with
  | none => exact ((hnone rfl).elim hdiv hrem).elim
  | some sum =>
    obtain ⟨new, hconvert, hnew⟩ := host.exists_narrow hq (hresult sum rfl)
    refine ⟨p, code, one, sum, new, hpromoted, hcode, hone, OpCode.isBinary_of_arithmeticOp? hcode,
      hbinary, hconvert, ?_, (Ty.holds_prim q new).trans hnew⟩
    simp only [Host.stepped?, hpromoted, hcode, hone, hbinary, hconvert, Option.bind_some,
      Option.join_some]

/-- The new value of a compound assignment, above the operands of the place. -/
theorem does_newValue {op : BinaryOp} (h : place.Takes operands)
    (hread : memory.Has (place.location? registry operands) old) (hold : left.holds old = true)
    (hleft : left ∈ compoundOperands op) (hright : right ∈ compoundOperands op) {value : Emit Unit}
    (hcompletes : value.Completes) {r : Result Value}
    (hvalue : value.Does host [] memory (r.map fun v => [v])) (hr : r.Gives right) :
    (do
      place.load registry left
      value
      ops (conversion right (if op.isShift then .int else left))
      Emit.op ((arithmeticOp? op left).getD .nop) : Emit Unit).Does host operands memory
        (r.andThen fun w after => match host.combined? op left right old w with
          | some new => .done (new :: operands) after
          | none => .raised .division after) := by
  refine does_then (place.load_succeeds registry left).completes (Place.does_load h hread hold) ?_
  have hvalue := hvalue.above (old :: operands)
  cases r with
  | raised fault after => exact does_stop hvalue
  | done w after =>
    obtain ⟨code, w', hcode, hbinaryCode, hconvert, hbinary, -⟩ :=
      combined?_typed host hleft hright hold hr
    refine does_then hcompletes hvalue ?_
    have hconverts : (ops (conversion right (if op.isShift then .int else left))).Does host
        (w :: old :: operands) after (.done (w' :: old :: operands) after) :=
      fun stack => moves_conversion hconvert
    refine does_then (succeeds_ops _).completes hconverts ?_
    rw [hcode]
    simp only [Result.andThen]
    cases hresult : host.combined? op left right old w with
    | some new =>
      rw [hresult] at hbinary
      exact fun stack => moves_binary hbinaryCode hbinary
    | none =>
      rw [hresult] at hbinary
      exact fun stack => ⟨_, throws_binary hbinaryCode hbinary⟩

/-- The value of a type is one of the place that stores it. -/
theorem Ty.Stores.holds (h : left.Stores right) (hv : right.holds v = true) :
    left.holds v = true := by
  rcases h with rfl | ⟨hleft, hright⟩
  · exact hv
  · have hprim := (Ty.isReference_iff.mp hleft).1
    have hkind := (Ty.kind_of_holds hv).trans (Ty.kind_of_isReference hright)
    simp only [Ty.holds, hprim, Prim.holds?, hkind]
    rfl

end

/-- The operand types of a compound assignment that is no concatenation. -/
theorem AssignOp.Fits.compound {op : BinaryOp} {left right : Ty}
    (h : (AssignOp.compound op).Fits left right) {n : Node} {lhs rhs : Expr}
    (hform : (Expr.assign n (.compound op) lhs rhs).isUpdate = true) (hty : lhs.tyOrAny = left) :
    left ∈ compoundOperands op ∧ right ∈ compoundOperands op := by
  rcases h with ⟨rfl, rfl, -⟩ | h
  · simp [Expr.isUpdate, hty] at hform
  · exact h

namespace Expr

variable {registry : Registry} {host : Host} {ctx : BodyCtx} {before : Memory}
  {r : Result (List Value)}

/-- The new value of a compound assignment that is no concatenation. -/
theorem newValue_compound {n : Node} {op : BinaryOp} {lhs rhs : Expr} {left right : Ty}
    (hform : (Expr.assign n (.compound op) lhs rhs).isUpdate = true) (hty : lhs.tyOrAny = left)
    (registry : Registry) (place : Place) (value : Emit Unit) :
    newValue registry (.compound op) place left right value = (do
      place.load registry left
      value
      ops (conversion right (if op.isShift then .int else left))
      Emit.op ((arithmeticOp? op left).getD .nop)) := by
  unfold newValue
  apply if_neg
  rintro ⟨rfl, hstring⟩
  simp [isUpdate, hty, hstring] at hform

theorem Accepted.does_assign {n : Node} {op : AssignOp} {lhs rhs : Expr} {left right : Ty}
    (hlhs : lhs.Accepted ctx left) (hplace : lhs.isAssignable = true)
    (hrhs : rhs.Accepted ctx right) (hfits : op.Fits left right)
    (hform : (Expr.assign n op lhs rhs).isUpdate = true)
    (h : (Expr.assign n op lhs rhs).Updates registry host before r) :
    (assignValue registry n op lhs rhs (lhs.code registry).operands
      (rhs.code registry).value).Does host [] before r := by
  obtain ⟨place, hp⟩ := hlhs.exists_place hplace
  rw [assignValue_eq hlhs hrhs hp hfits]
  have hoperands : (lhs.code registry).operands.Completes :=
    ((hlhs.succeeds registry).operands hplace).completes
  have hvalue : (rhs.code registry).value.Completes := (hrhs.succeeds registry).value.completes
  cases h with
  | assignRaised hraised => exact does_stop (hraised.does hlhs)
  | @plain _ _ _ _ middle operands place' result hpoints hplace' hevaluates hgives =>
    obtain rfl := Except.ok.inj (hp.symm.trans hplace')
    have htakes := hpoints.takes rfl hp
    rw [hrhs.tyOrAny_eq] at hgives
    have hright := Emit.Does.above operands hevaluates
    refine does_then hoperands (hpoints.does hlhs) ?_
    cases result with
    | raised fault after => exact does_stop hright
    | done v after => exact does_then hvalue hright (does_finish htakes (hfits.holds hgives) n)
  | @compoundMissing _ op _ _ _ middle operands place' hpoints hplace' hmissing =>
    obtain rfl := Except.ok.inj (hp.symm.trans hplace')
    have htakes := hpoints.takes rfl hp
    refine does_then hoperands (hpoints.does hlhs) (does_stop ?_)
    rw [newValue_compound hform hlhs.tyOrAny_eq]
    exact does_stop (Place.does_load_missing htakes hmissing)
  | @compound _ op _ _ _ middle operands place' old result hpoints hplace' hold hty hevaluates
      hgives =>
    obtain rfl := Except.ok.inj (hp.symm.trans hplace')
    have htakes := hpoints.takes rfl hp
    rw [hlhs.tyOrAny_eq] at hty ⊢
    rw [hrhs.tyOrAny_eq] at hgives ⊢
    obtain ⟨hleftOperand, hrightOperand⟩ := hfits.compound hform hlhs.tyOrAny_eq
    have hnewValue :=
      does_newValue htakes hold hty hleftOperand hrightOperand hvalue hevaluates hgives
    have hcompletes := (succeeds_newValue registry (.compound op) place left right
      (hrhs.succeeds registry).value).completes
    refine does_then hoperands (hpoints.does hlhs) ?_
    rw [newValue_compound hform hlhs.tyOrAny_eq] at hcompletes ⊢
    cases result with
    | raised fault after => exact does_stop hnewValue
    | done w after =>
      obtain ⟨-, -, -, -, -, -, hnew, -⟩ :=
        combined?_typed host hleftOperand hrightOperand hty hgives
      simp only [Result.andThen] at hnewValue ⊢
      cases hresult : host.combined? op left right old w with
      | some new =>
        rw [hresult] at hnewValue
        exact does_then hcompletes hnewValue (does_finish htakes (hnew new hresult) n)
      | none =>
        rw [hresult] at hnewValue
        exact does_stop hnewValue

end Expr

/-! ## Increments -/

section

variable {registry : Registry} {host : Host} {ctx : BodyCtx} {place : Place} {operand : Expr}
  {ty : Ty} {before middle : Memory} {operands : List Value} {old new : Value}

/-- The new value, or the old one, or none. -/
theorem Node.leaves_increment (n : Node) (op : IncrementOp) (old new : Value) :
    n.leaves (if op.isPre then new else old)
      = (if !n.isStatement && op.isPre then [new] else [])
        ++ if !n.isStatement && !op.isPre then [old] else [] := by
  unfold leaves
  cases n.isStatement <;> cases op.isPre <;> rfl

/-- The code that updates any place. -/
theorem does_incrementPlace (he : operand.Accepted ctx ty) (hplace : operand.place = .ok place)
    (hnumeric : ty.isNumeric = true) {piece : Emit Unit} (hcompletes : piece.Completes)
    (hoperands : piece.Does host [] before (.done operands middle)) (h : place.Takes operands)
    (hread : middle.Has (place.location? registry operands) old) (hold : ty.holds old = true)
    {op : IncrementOp} (hnew : host.stepped? op ty old = some new) (n : Node) (line : Nat) :
    (incrementPlace registry op line operand ty piece (!n.isStatement && !op.isPre)
      (!n.isStatement && op.isPre)).Does host [] before
        (host.store (place.location? registry operands) new
          (n.leaves (if op.isPre then new else old)) middle) := by
  obtain ⟨p, code, one, sum, new', hpromoted, hcode, hone, hbinaryCode, hbinary, hconvert, hstepped,
    hholds⟩ := stepped?_typed host op hnumeric hold
  obtain rfl := Option.some.inj (hnew.symm.trans hstepped)
  rw [incrementPlace_eq he hplace hpromoted hcode, n.leaves_increment]
  generalize hkept : (if !n.isStatement && !op.isPre then [old] else []) = kept
  have hkeep : (optionally (!n.isStatement && !op.isPre) (place.keep ty)).Does host
      (old :: operands) middle (.done (old :: (operands ++ kept)) middle) := by
    have hkeep := does_keepIf host middle (!n.isStatement && !op.isPre) h
      (Ty.kind_of_holds hold) []
    rwa [List.append_nil, List.append_nil, hkept] at hkeep
  have haccess : (Instr.pushOne (.prim p)).access? = none := by
    unfold Instr.pushOne
    cases (Ty.prim p).kind <;> rfl
  have hpush : (instr (.pushOne (.prim p))).Does host (old :: (operands ++ kept)) middle
      (.done (one :: old :: (operands ++ kept)) middle) := fun stack => moves_constant haccess hone
  have hstep : (Emit.op code).Does host (one :: old :: (operands ++ kept)) middle
      (.done (sum :: (operands ++ kept)) middle) := fun stack => moves_binary hbinaryCode hbinary
  have hback : (ops (conversion (.prim p) ty)).Does host (sum :: (operands ++ kept)) middle
      (.done (new :: (operands ++ kept)) middle) := fun stack => moves_conversion hconvert
  refine does_then hcompletes hoperands ?_
  refine does_then (place.load_succeeds registry ty).completes (Place.does_load h hread hold) ?_
  refine does_then (succeeds_optionally _ (place.keep_succeeds ty)).completes hkeep ?_
  refine does_then (completes_instr _) hpush (does_then (completes_instr _) hstep ?_)
  refine does_then (succeeds_ops _).completes hback ?_
  exact does_keepAndStore registry host middle _ h hholds kept

theorem stepped?_int (host : Host) (op : IncrementOp) (v : Int32) :
    host.stepped? op .int (.int v) = some (.int (v + .ofInt op.delta)) := by
  have hpromoted : unaryPromotion? .int = some .int := unaryPromotion?_prim .int
  have hcode : ∀ op : BinaryOp, arithmeticOp? op .int = some op.onInt :=
    fun op => arithmeticOp?_prim op .int
  have hone : host.constant? (.pushOne .int) = some (.int 1) := by
    unfold Instr.pushOne
    rw [show Ty.int.kind = .int from Ty.kind_prim .int]
    rfl
  have hconvert : ∀ u, host.convert? (conversion .int .int) u = some u := by
    intro u
    unfold conversion
    rw [show Ty.int = .prim .int from rfl, Ty.kind_prim, Ty.prim?_prim]
    rfl
  unfold Host.stepped?
  simp only [hpromoted, hcode, hone, Option.bind_some]
  cases op with
  | preIncrement | postIncrement => exact hconvert _
  | preDecrement | postDecrement =>
    have hsub : v + .ofInt (-1) = v - 1 := (Int32.sub_eq_add_neg (a := v) (b := 1)).symm
    show _ = some (Value.int (v + .ofInt (-1)))
    rw [hsub]
    exact hconvert _

/-- The instruction that updates an `int` local has the effect of the code for any place. -/
theorem does_incrementLocal {slot : Nat} (hread : before.read (.slot slot) = some old)
    (hold : Ty.int.holds old = true) {op : IncrementOp}
    (hnew : host.stepped? op .int old = some new) (n : Node) :
    (incrementLocal op .int slot (!n.isStatement && !op.isPre)
      (!n.isStatement && op.isPre)).Does host [] before
        (host.store (some (.slot slot)) new (n.leaves (if op.isPre then new else old)) before) := by
  have hint : ∃ v, old = .int v := by
    have hkind := (Ty.kind_of_holds hold).trans (Ty.kind_prim .int)
    cases old with
    | int v => exact ⟨v, rfl⟩
    | _ => cases hkind
  obtain ⟨v, rfl⟩ := hint
  have hvalue : new = .int (v + .ofInt op.delta) :=
    Option.some.inj (hnew.symm.trans (stepped?_int host op v))
  have hkind : new.kind = Ty.int.kind := by
    rw [hvalue]
    exact (Ty.kind_prim .int).symm
  rw [incrementLocal_eq, n.leaves_increment]
  generalize hkept : (if !n.isStatement && !op.isPre then [Value.int v] else []) = kept
  have hload : (optionally (!n.isStatement && !op.isPre) (instr (.load .int slot))).Does host []
      before (.done kept before) := by
    rw [← hkept]
    cases !n.isStatement && !op.isPre with
    | false => exact does_pure _ _
    | true => exact fun stack => moves_load hread (Ty.kind_of_holds hold)
  have hstep : (instr (.iinc slot op.delta)).Does host kept before
      (.done kept (before.write (.slot slot) new)) := by
    intro stack
    apply moves_act
    simp only [Host.act?, Instr.access?, hread, hvalue]
  have hagain : (optionally (!n.isStatement && op.isPre) (instr (.load .int slot))).Does host kept
      (before.write (.slot slot) new) (.done ((if !n.isStatement && op.isPre then [new] else [])
        ++ kept) (before.write (.slot slot) new)) := by
    cases !n.isStatement && op.isPre with
    | false => exact does_pure _ _
    | true => exact fun stack => moves_load (before.read_write_self _ _) hkind
  have hcompletes := succeeds_instr (Instr.defined?_localAccess Ty.int.kind.loads slot)
  exact does_then (succeeds_optionally _ hcompletes).completes hload
    (does_then (completes_instr _) hstep hagain)

end

/-! ## All updates -/

namespace Expr

variable {registry : Registry} {host : Host} {ctx : BodyCtx} {before : Memory}
  {r : Result (List Value)} {n : Node} {op : IncrementOp} {operand : Expr} {ty : Ty}

/-- The operands of a local are none. -/
theorem Points.of_slot (h : operand.Points registry host before r) {slot : Nat}
    (hplace : operand.place = .ok (.slot slot)) : r = .done [] before := by
  cases h with
  | slot => rfl
  | static hstatic =>
    simp only [Expr.place, hstatic, if_true] at hplace
    cases hplace
  | own hinstance =>
    simp only [Expr.place, hinstance, Bool.false_eq_true, if_false] at hplace
    cases hplace
  | receiver | array | element => cases hplace

/-- The code for any place updates the place of every increment. -/
theorem Accepted.does_incrementPlace (he : operand.Accepted ctx ty)
    (hassignable : operand.isAssignable = true) (hnumeric : ty.isNumeric = true)
    (h : (Expr.increment n op operand).Updates registry host before r) :
    (ExprCode.incrementPlace registry op n.line operand ty (operand.code registry).operands
      (!n.isStatement && !op.isPre) (!n.isStatement && op.isPre)).Does host [] before r := by
  obtain ⟨place, hp⟩ := he.exists_place hassignable
  have hoperands : (operand.code registry).operands.Completes :=
    ((he.succeeds registry).operands hassignable).completes
  obtain ⟨p, code, hpromoted, hcode⟩ := exists_incrementOp hnumeric op
  cases h with
  | incrementRaised hraised =>
    rw [incrementPlace_eq he hp hpromoted hcode]
    exact does_stop (hraised.does he)
  | @incrementMissing _ _ _ _ middle operands place' hpoints hplace' hmissing =>
    obtain rfl := Except.ok.inj (hp.symm.trans hplace')
    rw [incrementPlace_eq he hp hpromoted hcode]
    refine does_then hoperands (hpoints.does he) (does_stop ?_)
    exact Place.does_load_missing (hpoints.takes rfl hp) hmissing
  | @increment _ _ _ _ middle operands place' old new hpoints hplace' hold hty hnew =>
    obtain rfl := Except.ok.inj (hp.symm.trans hplace')
    rw [he.tyOrAny_eq] at hty hnew
    exact ClassCompiler.does_incrementPlace he hp hnumeric hoperands (hpoints.does he)
      (hpoints.takes rfl hp) hold hty hnew n n.line

theorem Accepted.does_increment (he : operand.Accepted ctx ty)
    (hassignable : operand.isAssignable = true) (hnumeric : ty.isNumeric = true)
    (h : (Expr.increment n op operand).Updates registry host before r) :
    (incrementValue registry n op operand (operand.code registry).operands).Does host [] before
      r := by
  obtain ⟨place, hp⟩ := he.exists_place hassignable
  rw [incrementValue_eq he hp]
  cases hslot : intSlot? ty place with
  | none => exact he.does_incrementPlace hassignable hnumeric h
  | some slot =>
    have hlocal : place = .slot slot ∧ ty = .int := by
      cases place with
      | slot index =>
        by_cases hint : ty = .int
        · exact ⟨congrArg Place.slot (Option.some.inj ((if_pos hint).symm.trans hslot)), hint⟩
        · cases (if_neg hint).symm.trans hslot
      | _ => cases hslot
    obtain ⟨rfl, rfl⟩ := hlocal
    cases h with
    | incrementRaised hraised => cases hraised.of_slot hp
    | @incrementMissing _ _ _ _ middle operands place' hpoints hplace' hmissing =>
      cases hpoints.of_slot hp
      obtain rfl := Except.ok.inj (hp.symm.trans hplace')
      exact absurd rfl (hmissing.2 slot)
    | @increment _ _ _ _ middle operands place' old new hpoints hplace' hold hty hnew =>
      cases hpoints.of_slot hp
      obtain rfl := Except.ok.inj (hp.symm.trans hplace')
      rw [he.tyOrAny_eq] at hty hnew
      exact does_incrementLocal hold hty hnew n

/-- The code of an update does what the update does. -/
theorem Accepted.does_update {e : Expr} (he : e.Accepted ctx ty) (hform : e.isUpdate = true)
    (h : e.Updates registry host before r) : (e.code registry).value.Does host [] before r := by
  cases he with
  | assign _ hplace hlhs hrhs hfits => exact hlhs.does_assign hplace hrhs hfits hform h
  | increment _ hplace hoperand hnumeric => exact hoperand.does_increment hplace hnumeric h
  | _ => cases hform

/-- The code of an update that treats its place like any other: an `int` local is loaded and stored,
too. -/
def placeCode (registry : Registry) : Expr → Emit Unit
  | increment n op operand =>
    ExprCode.incrementPlace registry op n.line operand operand.tyOrAny
      (operand.code registry).operands (!n.isStatement && !op.isPre) (!n.isStatement && op.isPre)
  | e => (e.code registry).value

theorem Accepted.does_placeCode {e : Expr} (he : e.Accepted ctx ty) (hform : e.isUpdate = true)
    (h : e.Updates registry host before r) : (e.placeCode registry).Does host [] before r := by
  cases he with
  | assign _ hplace hlhs hrhs hfits => exact hlhs.does_assign hplace hrhs hfits hform h
  | increment _ hplace hoperand hnumeric =>
    have hdoes := hoperand.does_incrementPlace hplace hnumeric h
    rwa [← hoperand.tyOrAny_eq] at hdoes
  | _ => cases hform

/-- There is a new value of the type of the place for all values of the types of the operands, but
for a division by zero. -/
def HasNewValue (host : Host) : Expr → Prop
  | assign _ (.compound op) lhs rhs => ∀ old w, lhs.tyOrAny.holds old = true →
    rhs.tyOrAny.holds w = true →
      match host.combined? op lhs.tyOrAny rhs.tyOrAny old w with
      | some new => lhs.tyOrAny.holds new = true
      | none => op = .div ∨ op = .rem
  | increment _ op operand => ∀ old, operand.tyOrAny.holds old = true →
    ∃ new, host.stepped? op operand.tyOrAny old = some new ∧ operand.tyOrAny.holds new = true
  | _ => True

theorem Accepted.hasNewValue {e : Expr} (he : e.Accepted ctx ty) (hform : e.isUpdate = true) :
    e.HasNewValue host := by
  cases he with
  | @assign _ op _ _ _ _ _ _ hlhs hrhs hfits =>
    cases op with
    | plain => trivial
    | compound op =>
      intro old w hold hw
      obtain ⟨hleft, hright⟩ := hfits.compound hform hlhs.tyOrAny_eq
      rw [hlhs.tyOrAny_eq] at hold ⊢
      rw [hrhs.tyOrAny_eq] at hw ⊢
      obtain ⟨-, -, -, -, -, -, hnew, hnone⟩ := combined?_typed host hleft hright hold hw
      split
      · next new hresult => exact hnew new hresult
      · next hresult => exact hnone hresult
  | increment _ _ hoperand hnumeric =>
    intro old hold
    rw [hoperand.tyOrAny_eq] at hold ⊢
    obtain ⟨-, -, -, -, new, -, -, -, -, -, -, hnew, hholds⟩ :=
      stepped?_typed host _ hnumeric hold
    exact ⟨new, hnew, hholds⟩
  | _ => cases hform

/-- The value of a local. -/
theorem evaluates_slot {n : Node} {ty : Ty} (hty : n.ty = some ty) (hvalue : ty ≠ .any)
    (text : String) {slot : Nat} {v : Value} (hread : before.read (.slot slot) = some v)
    (hkind : v.kind = ty.kind) :
    (name n text (some (.slot slot))).Evaluates registry host before (.done v before) := by
  have hproven : Emit.provenTy (name n text (some (.slot slot))) = pure ty :=
    Emit.provenTy_eq hty hvalue
  show (nameValue registry n text (some (.slot slot))).Does host [] before (.done [v] before)
  simp only [nameValue, hproven, pure_bind]
  exact fun stack => moves_load hread hkind

end Expr

end ClassCompiler
