import ClassCompiler.Proofs.Code.Instructions
import ClassCompiler.Proofs.Code.Success
import ClassCompiler.Proofs.Machine.Memory

/-!
# Values and places without effects

What an expression without calls, assignments and increments means in a store: its value, and the
location that it names if it is a place. The code of such an expression pushes the value, or the
operands of the location, and leaves the store as it is.

* `Expr.peek?`, `Expr.location?`
* `Expr.Accepted.leads_peek`, `Expr.Accepted.leads_operands`
* `Place.Denotes`: the location of a place whose operands are on the stack
-/

namespace ClassCompiler

open Emit ExprCode

/-! ## Locations -/

/-- The field that an access to it names. -/
def Registry.fieldKey (registry : Registry) (ref : FieldRef) (name : String) : FieldKey :=
  ⟨registry.internalName ref.owner, name, registry.descriptor ref.ty⟩

namespace Location

/-- A field of an object. There is none of `null`. -/
def member? (field : FieldKey) : Value → Option Location
  | .reference (some address) => some (.member address field)
  | _ => none

/-- A position of an array. -/
def element? : Value → Value → Option Location
  | .reference (some address), .int position => some (.element address position)
  | _, _ => none

/-- What lies on the stack for a location, the topmost item first. -/
def operands : Location → List Item
  | slot _ | static _ => []
  | member address _ => [.value (.reference (some address))]
  | element address position => [.value (.int position), .value (.reference (some address))]

end Location

/-- The location of a simple name. -/
def Binding.location? (registry : Registry) (store : Store) (text : String) :
    Binding → Option Location
  | slot index => some (.slot index)
  | field ref =>
    if ref.isStatic then some (.static (registry.fieldKey ref text))
    else (store.read (.slot 0)).bind (Location.member? (registry.fieldKey ref text))

/-! ## Operators -/

namespace OpCode

/-- Conversions and negations. -/
def isUnary : OpCode → Bool
  | ineg | lneg | fneg | dneg | i2l | i2f | i2d | i2b | i2c | i2s | l2i | l2f | l2d | f2i | f2l
  | f2d | d2i | d2l | d2f => true
  | _ => false

def isBinary : OpCode → Bool
  | iadd | isub | imul | idiv | irem | iand | ior | ixor | ishl | ishr | iushr
  | ladd | lsub | lmul | ldiv | lrem | land | lor | lxor | lshl | lshr | lushr
  | fadd | fsub | fmul | fdiv | frem | dadd | dsub | dmul | ddiv | drem => true
  | _ => false

theorem isUnary_of_mem_conversion {source target : Ty} {code : OpCode}
    (h : code ∈ conversion source target) : code.isUnary = true := by
  unfold conversion at h
  split at h <;> simp only [List.mem_cons, List.not_mem_nil, or_false] at h
  all_goals first | (subst h; rfl) | (rcases h with rfl | rfl <;> rfl)

theorem isUnary_of_mem_rule {op : BinaryOp} {left right : Ty} {rule : BinaryRule}
    (h : resolveBinary? op left right = some rule) :
    (∀ code ∈ rule.left, code.isUnary = true) ∧ ∀ code ∈ rule.right, code.isUnary = true := by
  rcases resolveBinary?_eq_some h with ⟨-, -, rfl⟩ | ⟨_, _, -, -, -, -, rfl⟩ | ⟨_, _, -, -, -, rfl⟩
  · exact ⟨fun _ h => (List.not_mem_nil h).elim, fun _ h => (List.not_mem_nil h).elim⟩
  · exact ⟨fun _ => isUnary_of_mem_conversion, fun _ => isUnary_of_mem_conversion⟩
  · exact ⟨fun _ => isUnary_of_mem_conversion, fun _ => isUnary_of_mem_conversion⟩

theorem isBinary_onInt (op : BinaryOp) : op.onInt.isBinary = true := by
  cases op <;> rfl

theorem isBinary_of_arithmeticOp? {op : BinaryOp} {p : Prim} {code : OpCode}
    (h : arithmeticOp? op (.prim p) = some code) : code.isBinary = true := by
  rw [arithmeticOp?_prim] at h
  cases p <;> cases op <;> cases h <;> rfl

theorem isBinary_of_resolveBinary? {op : BinaryOp} {left right : Ty} {rule : BinaryRule}
    (h : resolveBinary? op left right = some rule) : rule.op.isBinary = true := by
  rcases resolveBinary?_eq_some h with
    ⟨-, -, rfl⟩ | ⟨p, code, -, -, -, hcode, rfl⟩ | ⟨p, code, -, -, hcode, rfl⟩
  · exact isBinary_onInt op
  · exact isBinary_of_arithmeticOp? hcode
  · exact isBinary_of_arithmeticOp? hcode

end OpCode

namespace Outside

variable (outside : Outside)

/-- A value after some conversions. -/
def convert (codes : List OpCode) (v : Value) : Option Value :=
  codes.foldlM (fun v code => outside.unary code v) v

/-- A value after the instructions of a unary operator. -/
def finish : List Instr → Value → Option Value
  | [], v => some v
  | [.noArg code], v => outside.unary code v
  | [push, .noArg code], v =>
    (push.constant? outside.constant).bind fun w => outside.binary code v w
  | _, _ => none

theorem finish_pair (push : Instr) (code : OpCode) (v : Value) :
    outside.finish [push, .noArg code] v
      = (push.constant? outside.constant).bind fun w => outside.binary code v w := by
  cases push <;> rfl

end Outside

/-! ## Meaning -/

namespace Expr

section

variable (outside : Outside) (registry : Registry) (store : Store)

/-- The value of an expression without calls, assignments and increments, as far as it has one. The
operators of conditions and concatenations are left out: no place has them in its operands. -/
def peek? : Expr → Option Value
  | literal _ value => (literalInstr value).constant? outside.constant
  | name _ text (some binding) => (binding.location? registry store text).bind store.read
  | self _ => store.read (.slot 0)
  | field _ target text (some ref) =>
    target.peek?.bind fun v =>
      (Location.member? (registry.fieldKey ref text) v).bind store.read
  | index _ array position =>
    array.peek?.bind fun v => position.peek?.bind fun w => (Location.element? v w).bind store.read
  | length _ array =>
    array.peek?.bind fun
      | .reference (some address) => (store.lengths address).map .int
      | _ => none
  | unary n op operand =>
    operand.peek?.bind fun v =>
      (outside.convert (conversion operand.tyOrAny (n.ty.getD .any)) v).bind
        (outside.finish (unaryOps op (n.ty.getD .any)))
  | binary _ op lhs rhs =>
    (resolveBinary? op lhs.tyOrAny rhs.tyOrAny).bind fun rule =>
      (lhs.peek?.bind (outside.convert rule.left)).bind fun v =>
        (rhs.peek?.bind (outside.convert rule.right)).bind fun w => outside.binary rule.op v w
  | _ => none

/-- The location of a place whose operands are such expressions. -/
def location? : Expr → Option Location
  | name _ text (some binding) => binding.location? registry store text
  | field _ target text (some ref) =>
    (target.peek? outside registry store).bind (Location.member? (registry.fieldKey ref text))
  | index _ array position =>
    (array.peek? outside registry store).bind fun v =>
      (position.peek? outside registry store).bind fun w => Location.element? v w
  | _ => none

end

variable {outside : Outside} {registry : Registry} {store : Store}

/-- The value of a place is what is stored at its location. -/
theorem peek?_of_location? {e : Expr} {location : Location}
    (h : e.location? outside registry store = some location) :
    e.peek? outside registry store = store.read location := by
  cases e with
  | name n text binding =>
    cases binding with
    | none => cases h
    | some binding =>
      unfold peek?
      rw [show binding.location? registry store text = some location from h]
      rfl
  | field n target text ref =>
    cases ref with
    | none => cases h
    | some ref =>
      obtain ⟨v, hv, hlocation⟩ := Option.bind_eq_some_iff.mp h
      unfold peek?
      rw [hv, Option.bind_some, hlocation, Option.bind_some]
  | index n array position =>
    obtain ⟨v, hv, h⟩ := Option.bind_eq_some_iff.mp h
    obtain ⟨w, hw, hlocation⟩ := Option.bind_eq_some_iff.mp h
    unfold peek?
    rw [hv, hw, Option.bind_some, Option.bind_some, hlocation, Option.bind_some]
  | _ => cases h

end Expr

/-! ## Instructions -/

variable {outside : Outside} {registry : Registry} {store after : Store} {stack rest : List Item}

/-- The piece takes the machine on, from one stack and store to others. -/
abbrev Emit.Takes (outside : Outside) (piece : Emit Unit) (stack : List Item) (store : Store)
    (rest : List Item) (after : Store) : Prop :=
  piece.Leads (storeMachine outside) ⟨stack, store⟩ (.done (.next ⟨rest, after⟩))

theorem takes_act {i : Instr} (h : outside.act? i stack store = some (rest, after)) :
    (instr i).Takes outside stack store rest after := by
  refine leads_instr ?_
  show outside.exec i ⟨stack, store⟩ = _
  unfold Outside.exec
  rw [h]

theorem takes_load {ty : Ty} {slot : Nat} {v : Value} (h : store.read (.slot slot) = some v) :
    (instr (.load ty slot)).Takes outside stack store (.value v :: stack) store := by
  refine takes_act ?_
  unfold Outside.act?
  rw [Instr.access?_load]
  dsimp only
  rw [h]
  rfl

theorem takes_aload0 {v : Value} (h : store.read (.slot 0) = some v) :
    (op .aload0).Takes outside stack store (.value v :: stack) store := by
  refine takes_act ?_
  show (store.read (.slot 0)).map _ = _
  rw [h]
  rfl

theorem takes_constant {i : Instr} {v : Value} (haccess : i.access? = none)
    (h : i.constant? outside.constant = some v) :
    (instr i).Takes outside stack store (.value v :: stack) store := by
  refine takes_act ?_
  unfold Outside.act?
  rw [haccess, h]

theorem takes_unary {code : OpCode} (hcode : code.isUnary = true) {v w : Value}
    (h : outside.unary code v = some w) :
    (op code).Takes outside (.value v :: stack) store (.value w :: stack) store := by
  have hact : outside.act? (.noArg code) (.value v :: stack) store
      = ((outside.unary code v).map fun v => .value v :: stack).map fun stack => (stack, store) := by
    cases code <;> first | rfl | cases hcode
  refine takes_act (hact.trans ?_)
  rw [h]
  rfl

theorem takes_binary {code : OpCode} (hcode : code.isBinary = true) {u v w : Value}
    (h : outside.binary code v w = some u) :
    (op code).Takes outside (.value w :: .value v :: stack) store (.value u :: stack) store := by
  have hact : outside.act? (.noArg code) (.value w :: .value v :: stack) store
      = ((outside.binary code v w).map fun v => .value v :: stack).map fun stack =>
        (stack, store) := by
    cases code <;> first | rfl | cases hcode
  refine takes_act (hact.trans ?_)
  rw [h]
  rfl

theorem takes_arrayLoad {ty : Ty} {address : Nat} {position : Int32} {v : Value}
    (h : store.read (.element address position) = some v) :
    (instr (.arrayLoad ty)).Takes outside
      (.value (.int position) :: .value (.reference (some address)) :: stack) store
      (.value v :: stack) store := by
  have hact : outside.act? (.arrayLoad ty)
      (.value (.int position) :: .value (.reference (some address)) :: stack) store
      = (store.read (.element address position)).map fun v => (.value v :: stack, store) := by
    unfold Instr.arrayLoad
    split <;> rfl
  refine takes_act (hact.trans ?_)
  rw [h]
  rfl

theorem takes_getfield {ref : FieldRef} {text : String} {u v : Value} {location : Location}
    (hlocation : Location.member? (registry.fieldKey ref text) u = some location)
    (h : store.read location = some v) :
    (Emit.field registry .getfield ref text).Takes outside (.value u :: stack) store
      (.value v :: stack) store := by
  unfold Location.member? at hlocation
  split at hlocation
  · cases hlocation
    refine takes_act ?_
    show (store.read (.member _ (registry.fieldKey ref text))).map _ = _
    rw [h]
    rfl
  · cases hlocation

theorem takes_getstatic {ref : FieldRef} {text : String} {v : Value}
    (h : store.read (.static (registry.fieldKey ref text)) = some v) :
    (Emit.field registry .getstatic ref text).Takes outside stack store (.value v :: stack)
      store := by
  refine takes_act ?_
  show (store.read (.static (registry.fieldKey ref text))).map _ = _
  rw [h]
  rfl

/-! ## Operators on the stack -/

theorem ops_cons (code : OpCode) (codes : List OpCode) : ops (code :: codes) = (do
    op code
    ops codes) := Emit.ext fun _ => rfl

theorem takes_ops {codes : List OpCode} (hcodes : ∀ code ∈ codes, code.isUnary = true) {v w : Value}
    (h : outside.convert codes v = some w) :
    (ops codes).Takes outside (.value v :: stack) store (.value w :: stack) store := by
  induction codes generalizing v with
  | nil =>
    cases h
    exact leads_pure _
  | cons code rest ih =>
    obtain ⟨u, hu, hrest⟩ := Option.bind_eq_some_iff.mp h
    rw [ops_cons]
    exact leads_then (takes_unary (hcodes code List.mem_cons_self) hu) (completes_instr _)
      (ih (fun c hc => hcodes c (List.mem_cons_of_mem _ hc)) hrest)

theorem takes_conversion {source target : Ty} {v w : Value}
    (h : outside.convert (conversion source target) v = some w) :
    (ops (conversion source target)).Takes outside (.value v :: stack) store (.value w :: stack)
      store := takes_ops (fun _ => OpCode.isUnary_of_mem_conversion) h

theorem access?_literalInstr (value : Literal) : (literalInstr value).access? = none := by
  have hint : ∀ v, (Instr.pushInt v).access? = none := by
    intro v
    unfold Instr.pushInt
    dsimp only
    repeat' split
    all_goals rfl
  cases value with
  | int | bool | char => exact hint _
  | string | null => rfl
  | long v =>
    show (Instr.pushLong v).access? = none
    unfold Instr.pushLong
    repeat' split
    all_goals rfl
  | float v =>
    show (Instr.pushFloat v).access? = none
    unfold Instr.pushFloat
    repeat' split
    all_goals rfl
  | double v =>
    show (Instr.pushDouble v).access? = none
    unfold Instr.pushDouble
    repeat' split
    all_goals rfl

theorem takes_unaryOps {op : UnaryOp} {ty : Ty} {v w : Value}
    (h : outside.finish (unaryOps op ty) v = some w) :
    ((unaryOps op ty).forM instr).Takes outside (.value v :: stack) store (.value w :: stack)
      store := by
  unfold unaryOps at h ⊢
  cases op with
  | plus =>
    cases h
    exact leads_pure _
  | neg =>
    refine leads_then (takes_unary ?_ h) (completes_instr _) (leads_pure _)
    split <;> rfl
  | bitNot =>
    dsimp only at h ⊢
    split at h
    · next hlong =>
      rw [if_pos hlong]
      rw [Outside.finish_pair] at h
      obtain ⟨u, hu, h⟩ := Option.bind_eq_some_iff.mp h
      exact leads_then (takes_constant (access?_literalInstr (.long (-1))) hu) (completes_instr _)
        (leads_then (takes_binary rfl h) (completes_instr _) (leads_pure _))
    · next hlong =>
      rw [if_neg hlong]
      rw [Outside.finish_pair] at h
      obtain ⟨u, hu, h⟩ := Option.bind_eq_some_iff.mp h
      exact leads_then (takes_constant rfl hu) (completes_instr _)
        (leads_then (takes_binary rfl h) (completes_instr _) (leads_pure _))

/-! ## Expressions -/

section

variable {ctx : BodyCtx} {e : Expr} {ty : Ty}

theorem takes_nameValue {n : Node} {text : String} {binding : Binding} {location : Location}
    {v : Value} (he : (Expr.name n text (some binding)).Accepted ctx ty)
    (hlocation : binding.location? registry store text = some location)
    (h : store.read location = some v) :
    (nameValue registry n text (some binding)).Takes outside stack store (.value v :: stack)
      store := by
  unfold nameValue
  cases binding with
  | slot index =>
    cases hlocation
    dsimp only
    rw [he.provenTy, Emit.pure_bind]
    exact takes_load h
  | field ref =>
    unfold Binding.location? at hlocation
    dsimp only at hlocation ⊢
    split at hlocation
    · next hstatic =>
      cases hlocation
      rw [if_pos hstatic]
      exact takes_getstatic h
    · next hstatic =>
      obtain ⟨u, hu, hlocation⟩ := Option.bind_eq_some_iff.mp hlocation
      rw [if_neg hstatic]
      exact leads_then (takes_aload0 hu) (completes_instr _) (takes_getfield hlocation h)

/-- The operands of an element, and its load. -/
theorem takes_element {u w : Value} {location : Location} {v : Value}
    (hlocation : Location.element? u w = some location) (h : store.read location = some v) :
    (instr (.arrayLoad ty)).Takes outside (.value w :: .value u :: stack) store
      (.value v :: stack) store := by
  unfold Location.element? at hlocation
  split at hlocation
  · cases hlocation
    exact takes_arrayLoad h
  · cases hlocation

/-- The code of an expression without effects pushes its value. -/
theorem Expr.Accepted.takes_peek (h : e.Accepted ctx ty) {v : Value}
    (hpeek : e.peek? outside registry store = some v) (stack : List Item) :
    (e.code registry).value.Takes outside stack store (.value v :: stack) store := by
  have he := h
  induction h generalizing v stack with
  | @literal n value =>
    have hvalue : ((Expr.literal n value).code registry).value = instr (literalInstr value) := by
      cases value <;> rfl
    rw [hvalue]
    exact takes_constant (access?_literalInstr value) hpeek
  | slot =>
    obtain ⟨location, hlocation, hread⟩ := Option.bind_eq_some_iff.mp hpeek
    exact takes_nameValue he hlocation hread
  | ownField =>
    obtain ⟨location, hlocation, hread⟩ := Option.bind_eq_some_iff.mp hpeek
    exact takes_nameValue he hlocation hread
  | self => exact takes_aload0 hpeek
  | field _ _ _ htarget _ ih =>
    obtain ⟨u, hu, hpeek⟩ := Option.bind_eq_some_iff.mp hpeek
    obtain ⟨location, hlocation, hread⟩ := Option.bind_eq_some_iff.mp hpeek
    exact leads_then (ih hu stack htarget) (htarget.succeeds registry).value.completes
      (takes_getfield hlocation hread)
  | index _ _ harray _ hposition _ iharray ihposition =>
    obtain ⟨u, hu, hpeek⟩ := Option.bind_eq_some_iff.mp hpeek
    obtain ⟨w, hw, hpeek⟩ := Option.bind_eq_some_iff.mp hpeek
    obtain ⟨location, hlocation, hread⟩ := Option.bind_eq_some_iff.mp hpeek
    have hcompletes := (harray.succeeds registry).value.completes
    have hcompletes' := (hposition.succeeds registry).value.completes
    show Emit.Takes outside (Emit.provenTy _ >>= _) _ _ _ _
    rw [he.provenTy, Emit.pure_bind]
    exact leads_then (leads_then (iharray hu stack harray) hcompletes
      (ihposition hw _ hposition)) (completes_bind hcompletes hcompletes')
      (takes_element hlocation hread)
  | length _ harray _ ih =>
    obtain ⟨u, hu, hpeek⟩ := Option.bind_eq_some_iff.mp hpeek
    refine leads_then (ih hu stack harray) (harray.succeeds registry).value.completes ?_
    split at hpeek
    · refine takes_act ?_
      obtain ⟨length, hlength, rfl⟩ := Option.map_eq_some_iff.mp hpeek
      show (store.lengths _).map _ = _
      rw [hlength]
      rfl
    · cases hpeek
  | unary hty hoperand _ _ ih =>
    obtain ⟨u, hu, hpeek⟩ := Option.bind_eq_some_iff.mp hpeek
    obtain ⟨w, hw, hpeek⟩ := Option.bind_eq_some_iff.mp hpeek
    rw [hoperand.tyOrAny_eq, hty, Option.getD_some] at hw
    rw [hty, Option.getD_some] at hpeek
    show Emit.Takes outside (unaryValue _ _ _ _) _ _ _ _
    rw [unaryValue_eq he hoperand]
    exact leads_then (ih hu stack hoperand) (hoperand.succeeds registry).value.completes
      (leads_then (takes_conversion hw) (succeeds_ops _).completes (takes_unaryOps hpeek))
  | @binary _ _ _ _ _ _ rule _ hlhs hrhs hrule ihl ihr =>
    obtain ⟨found, hfound, hpeek⟩ := Option.bind_eq_some_iff.mp hpeek
    rw [hlhs.tyOrAny_eq, hrhs.tyOrAny_eq, hrule] at hfound
    cases hfound
    obtain ⟨w, hw, hpeek⟩ := Option.bind_eq_some_iff.mp hpeek
    obtain ⟨w', hw', hpeek⟩ := Option.bind_eq_some_iff.mp hpeek
    obtain ⟨u, hu, hw⟩ := Option.bind_eq_some_iff.mp hw
    obtain ⟨u', hu', hw'⟩ := Option.bind_eq_some_iff.mp hw'
    obtain ⟨hleft, hright⟩ := OpCode.isUnary_of_mem_rule hrule
    show Emit.Takes outside (binaryValue _ _ _ _ _ _) _ _ _ _
    rw [binaryValue_eq hlhs hrhs hrule]
    exact leads_then (ihl hu stack hlhs) (hlhs.succeeds registry).value.completes
      (leads_then (takes_ops hleft hw) (succeeds_ops _).completes
      (leads_then (ihr hu' _ hrhs) (hrhs.succeeds registry).value.completes
      (leads_then (takes_ops hright hw') (succeeds_ops _).completes
        (takes_binary (OpCode.isBinary_of_resolveBinary? hrule) hpeek))))
  | _ => cases hpeek

/-- The code of a place without effects pushes the operands of its location. -/
theorem Expr.Accepted.takes_operands (h : e.Accepted ctx ty) {location : Location}
    (hlocation : e.location? outside registry store = some location) (stack : List Item) :
    (e.code registry).operands.Takes outside stack store (location.operands ++ stack) store := by
  cases h with
  | slot =>
    cases hlocation
    exact leads_pure _
  | @ownField n text ref =>
    show Emit.Takes outside (if _ then _ else _) _ _ _ _
    change Binding.location? registry store text (.field ref) = _ at hlocation
    unfold Binding.location? at hlocation
    dsimp only at hlocation
    split at hlocation
    · next hstatic =>
      cases hlocation
      rw [if_pos hstatic]
      exact leads_pure _
    · next hstatic =>
      obtain ⟨u, hu, hmember⟩ := Option.bind_eq_some_iff.mp hlocation
      rw [if_neg hstatic]
      unfold Location.member? at hmember
      split at hmember
      · cases hmember
        exact takes_aload0 hu
      · cases hmember
  | field _ _ _ htarget =>
    obtain ⟨u, hu, hmember⟩ := Option.bind_eq_some_iff.mp hlocation
    unfold Location.member? at hmember
    split at hmember
    · cases hmember
      exact htarget.takes_peek hu stack
    · cases hmember
  | index _ _ harray _ hposition =>
    obtain ⟨u, hu, hlocation⟩ := Option.bind_eq_some_iff.mp hlocation
    obtain ⟨w, hw, helement⟩ := Option.bind_eq_some_iff.mp hlocation
    unfold Location.element? at helement
    split at helement
    · cases helement
      exact leads_then (harray.takes_peek hu stack) (harray.succeeds registry).value.completes
        (hposition.takes_peek hw _)
    · cases helement
  | _ => cases hlocation

end

/-! ## Steps on a place -/

/-- The place is at the location as soon as its operands are on the stack. -/
def Place.Denotes (registry : Registry) : Place → Location → Prop
  | slot index, .slot other => index = other
  | static ref text, .static field => field = registry.fieldKey ref text
  | member ref text, .member _ field => field = registry.fieldKey ref text
  | element, .element _ _ => True
  | _, _ => False

theorem Location.eq_of_member? {field : FieldKey} {v : Value} {location : Location}
    (h : member? field v = some location) : ∃ address, location = .member address field := by
  unfold member? at h
  split at h
  · exact ⟨_, (Option.some.inj h).symm⟩
  · cases h

theorem Expr.denotes {e : Expr} {place : Place} {location : Location} (hplace : e.place = .ok place)
    (hlocation : e.location? outside registry store = some location) :
    place.Denotes registry location := by
  cases e with
  | name n text binding =>
    cases binding with
    | none => cases hplace
    | some binding =>
      change binding.location? registry store text = some location at hlocation
      cases binding with
      | slot index =>
        cases hplace
        cases hlocation
        rfl
      | field ref =>
        cases hplace
        unfold Binding.location? at hlocation
        dsimp only at hlocation
        split at hlocation
        · next hstatic =>
          cases hlocation
          rw [if_pos hstatic]
          rfl
        · next hstatic =>
          obtain ⟨u, -, hmember⟩ := Option.bind_eq_some_iff.mp hlocation
          obtain ⟨address, rfl⟩ := Location.eq_of_member? hmember
          rw [if_neg hstatic]
          rfl
  | field n target text ref =>
    cases ref with
    | none => cases hplace
    | some ref =>
      cases hplace
      obtain ⟨u, -, hmember⟩ := Option.bind_eq_some_iff.mp hlocation
      obtain ⟨address, rfl⟩ := Location.eq_of_member? hmember
      rfl
  | index n array position =>
    cases hplace
    obtain ⟨u, -, hlocation⟩ := Option.bind_eq_some_iff.mp hlocation
    obtain ⟨w, -, helement⟩ := Option.bind_eq_some_iff.mp hlocation
    unfold Location.element? at helement
    split at helement
    · cases helement
      exact trivial
    · cases helement
  | _ => cases hlocation

namespace Place

variable {place : Place} {location : Location} {v : Value}

/-- A copy of a string below the operands of its location. -/
theorem takes_keep (h : place.Denotes registry location) :
    (place.keep .string).Takes outside (.value v :: (location.operands ++ stack)) store
      (.value v :: (location.operands ++ .value v :: stack)) store := by
  cases place <;> cases location <;> try cases h
  all_goals exact takes_act rfl

/-- The store of a string. -/
theorem takes_store (h : place.Denotes registry location) {old : Value}
    (hold : store.read location = some old) :
    (place.store registry .string).Takes outside (.value v :: (location.operands ++ stack)) store
      stack (store.write location v) := by
  cases place with
  | slot index =>
    cases location <;> cases h
    refine takes_act ?_
    unfold Outside.act?
    rw [Instr.access?_store]
    rfl
  | static ref text =>
    cases location <;> cases h
    refine takes_act ?_
    show (store.read (.static (registry.fieldKey ref text))).map _ = _
    rw [hold]
    rfl
  | member ref text =>
    cases location <;> cases h
    refine takes_act ?_
    show (store.read (.member _ (registry.fieldKey ref text))).map _ = _
    rw [hold]
    rfl
  | element =>
    cases location <;> cases h
    refine takes_act ?_
    show (store.read (.element _ _)).map _ = _
    rw [hold]
    rfl

end Place

end ClassCompiler
