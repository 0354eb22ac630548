import ClassCompiler.Proofs.Code.Accepted
import ClassCompiler.Proofs.Machine.Descriptors
import ClassCompiler.Proofs.Machine.StackRules

/-!
# Instructions of a type on the stack

The instructions that are chosen by a type turn stacks as the type says: a load adds a value of its
kind, a conversion leads from the kind of one type to that of another, a call takes its arguments and
leaves its result.

* `turns_load`, `turns_store`, `turns_ret`
* `turns_dup`, `turns_dupX1`, `turns_dupX2`, `turns_pop`
* `turns_conversion`, `turns_arithmetic`, `turns_test`
* `turns_field`, `turns_call`, `turns_append`
-/

namespace ClassCompiler

/-- The methods of an instance have their receiver in slot zero. -/
def BodyCtx.HasReceiver (ctx : BodyCtx) : Prop :=
  ctx.isStatic = false → ∃ ty : Ty, ty.isReference = true ∧ ⟨0, ty⟩ ∈ ctx.locals

/-! ## Local slots -/

namespace Instr

theorem access?_load (ty : Ty) (slot : Nat) :
    (load ty slot).access? = some ⟨.load, ty.kind, slot⟩ := by
  unfold load
  cases ty.kind <;> match slot with
    | 0 | 1 | 2 | 3 | _ + 4 => rfl

theorem access?_store (ty : Ty) (slot : Nat) :
    (store ty slot).access? = some ⟨.store, ty.kind, slot⟩ := by
  unfold store
  cases ty.kind <;> match slot with
    | 0 | 1 | 2 | 3 | _ + 4 => rfl

/-- An instruction that uses a slot does nothing else. -/
theorem plain_of_access {i : Instr} {access : Access} (h : i.access? = some access) :
    i.onWords? = none ∧ i.fallsThrough = true := by
  unfold access? at h
  split at h
  · next code => cases code <;> first | exact ⟨rfl, rfl⟩ | cases h
  · next code slot => cases code <;> first | exact ⟨rfl, rfl⟩ | cases h
  · exact ⟨rfl, rfl⟩
  · cases h

end Instr

namespace Emit

variable {ctx : BodyCtx} {targets : List (Label × List Kind)} {stack : List Kind}

theorem turns_access {i : Instr} {a : Access} (h : i.access? = some a) (hlocal : ctx.Owns a) :
    (instr i).Turns ctx targets (a.transfer.1 ++ stack) (a.transfer.2 ++ stack) := by
  obtain ⟨hwords, hfalls⟩ := Instr.plain_of_access h
  have htransfer : i.transfer? = some a.transfer := by
    unfold Instr.transfer?
    rw [h]
  have hact := Instr.act_of_transfer hwords htransfer stack
  refine turns_instr ?_ ⟨by rw [hact]; rfl, fun found hfound => ?_, fun hreturns => ?_⟩ hact ?_
    fun _ => rfl
  · rintro target rfl
    cases h
  · rw [h] at hfound
    cases hfound
    exact hlocal
  · rw [Instr.returns_of_fallsThrough hfalls] at hreturns
    cases hreturns
  · rintro code target rfl
    cases h

theorem turns_load {slot : Nat} {ty : Ty} (hvalue : ty.IsValue) (h : ⟨slot, ty⟩ ∈ ctx.locals) :
    (instr (.load ty slot)).Turns ctx targets stack (ty.kind :: stack) :=
  turns_access (Instr.access?_load ty slot) ⟨ty, hvalue, h, rfl⟩

theorem turns_store {slot : Nat} {ty : Ty} (hvalue : ty.IsValue) (h : ⟨slot, ty⟩ ∈ ctx.locals) :
    (instr (.store ty slot)).Turns ctx targets (ty.kind :: stack) stack :=
  turns_access (Instr.access?_store ty slot) ⟨ty, hvalue, h, rfl⟩

theorem turns_iinc {slot : Nat} (h : ⟨slot, .int⟩ ∈ ctx.locals) (delta : Int) :
    (instr (.iinc slot delta)).Turns ctx targets stack stack := by
  have hvalue : Ty.int.IsValue := Ty.isValue_prim (p := .int) (by decide)
  exact turns_access (i := .iinc slot delta) (a := ⟨.step, .int, slot⟩) rfl
    ⟨.int, hvalue, h, Ty.kind_prim .int⟩

theorem turns_receiver (h : ctx.HasReceiver) (hthis : ctx.isStatic = false) :
    (op .aload0).Turns ctx targets stack (.reference :: stack) := by
  obtain ⟨ty, href, hlocal⟩ := h hthis
  exact turns_access (i := .noArg .aload0) (a := ⟨.load, .reference, 0⟩) rfl
    ⟨ty, Ty.isValue_of_isReference href, hlocal, Ty.kind_of_isReference href⟩

/-! ## Constants -/

theorem turns_push {i : Instr} {k : Kind} (hplain : i.isPlain = true)
    (hwords : i.onWords? = none) (h : i.transfer? = some ([], [k])) :
    (instr i).Turns ctx targets stack (k :: stack) := turns_transfer hplain hwords h

theorem turns_pushInt (value : Int32) :
    (instr (.pushInt value)).Turns ctx targets stack (.int :: stack) := by
  unfold Instr.pushInt
  dsimp only
  repeat' split
  all_goals exact turns_push rfl rfl rfl

theorem turns_pushLong (value : Int64) :
    (instr (.pushLong value)).Turns ctx targets stack (.long :: stack) := by
  unfold Instr.pushLong
  repeat' split
  all_goals exact turns_push rfl rfl rfl

theorem turns_literal (value : Literal) :
    (instr (ExprCode.literalInstr value)).Turns ctx targets stack (value.ty.kind :: stack) := by
  cases value with
  | int value =>
    rw [show (Literal.int value).ty.kind = .int from Ty.kind_prim .int]
    exact turns_pushInt value
  | long value =>
    rw [show (Literal.long value).ty.kind = .long from Ty.kind_prim .long]
    exact turns_pushLong value
  | float value =>
    rw [show (Literal.float value).ty.kind = .float from Ty.kind_prim .float]
    dsimp only [ExprCode.literalInstr, Instr.pushFloat]
    repeat' split
    all_goals exact turns_push rfl rfl rfl
  | double value =>
    rw [show (Literal.double value).ty.kind = .double from Ty.kind_prim .double]
    dsimp only [ExprCode.literalInstr, Instr.pushDouble]
    repeat' split
    all_goals exact turns_push rfl rfl rfl
  | bool value =>
    rw [show (Literal.bool value).ty.kind = .int from Ty.kind_boolean]
    exact turns_pushInt _
  | char unit =>
    rw [show (Literal.char unit).ty.kind = .int from Ty.kind_prim .char]
    exact turns_pushInt _
  | string value =>
    rw [show (Literal.string value).ty.kind = .reference from
      Ty.kind_of_isReference Ty.isReference_string]
    exact turns_push rfl rfl rfl
  | null =>
    rw [show Literal.null.ty.kind = .reference from Ty.kind_of_isReference Ty.isReference_null]
    exact turns_push rfl rfl rfl

theorem turns_pushOne {p : Prim} (h : p ∈ Prim.computed) :
    (instr (.pushOne (.prim p))).Turns ctx targets stack (p.kind :: stack) := by
  unfold Instr.pushOne
  rw [Ty.kind_prim]
  simp only [Prim.computed, List.mem_cons, List.not_mem_nil, or_false] at h
  rcases h with rfl | rfl | rfl | rfl <;> exact turns_push rfl rfl rfl

/-! ## Copies -/

theorem split?_zero (stack : List Kind) : split? 0 stack = some ([], stack) := by
  cases stack <;> rfl

theorem split?_kind (kind : Kind) (stack : List Kind) :
    split? kind.words (kind :: stack) = some ([kind], stack) := by
  cases kind <;> simp [split?, Kind.words, split?_zero]

/-- A value is copied below what takes a number of words. -/
theorem copy?_kind {k : Kind} {below : Nat} {u stack : List Kind}
    (h : split? below (u ++ stack) = some (u, stack)) :
    copy? k.words below (k :: (u ++ stack)) = some (k :: (u ++ k :: stack)) := by
  unfold copy?
  rw [split?_kind]
  simp [h]

theorem turns_dup (ty : Ty) :
    (instr (.dup ty)).Turns ctx targets (ty.kind :: stack) (ty.kind :: ty.kind :: stack) := by
  have hcopy := copy?_kind (k := ty.kind) (u := []) (split?_zero stack)
  refine turns_plain (by unfold Instr.dup; split <;> rfl) ?_
  unfold Instr.dup
  split
  · next hwide =>
    rw [Ty.words_of_isWide hwide] at hcopy
    exact hcopy
  · next hwide =>
    rw [Ty.words_of_not_isWide hwide] at hcopy
    exact hcopy

theorem turns_dupX1 (ty : Ty) :
    (instr (.dupX1 ty)).Turns ctx targets (ty.kind :: .reference :: stack)
      (ty.kind :: .reference :: ty.kind :: stack) := by
  have hcopy := copy?_kind (k := ty.kind) (u := [.reference])
    (split?_kind .reference stack)
  refine turns_plain (by unfold Instr.dupX1; split <;> rfl) ?_
  unfold Instr.dupX1
  split
  · next hwide =>
    rw [Ty.words_of_isWide hwide] at hcopy
    exact hcopy
  · next hwide =>
    rw [Ty.words_of_not_isWide hwide] at hcopy
    exact hcopy

theorem split?_element (stack : List Kind) :
    split? 2 (.int :: .reference :: stack) = some ([.int, .reference], stack) := by
  simp [split?, Kind.words, split?_zero]

theorem turns_dupX2 (ty : Ty) :
    (instr (.dupX2 ty)).Turns ctx targets (ty.kind :: .int :: .reference :: stack)
      (ty.kind :: .int :: .reference :: ty.kind :: stack) := by
  have hcopy := copy?_kind (k := ty.kind) (u := [.int, .reference]) (split?_element stack)
  refine turns_plain (by unfold Instr.dupX2; split <;> rfl) ?_
  unfold Instr.dupX2
  split
  · next hwide =>
    rw [Ty.words_of_isWide hwide] at hcopy
    exact hcopy
  · next hwide =>
    rw [Ty.words_of_not_isWide hwide] at hcopy
    exact hcopy

/-- The receiver of a field is copied for a look at the field. -/
theorem turns_dupReceiver :
    (op .dup).Turns ctx targets (.reference :: stack) (.reference :: .reference :: stack) :=
  turns_plain rfl (copy?_kind (k := .reference) (u := []) (split?_zero stack))

theorem turns_dupElement :
    (op .dup2).Turns ctx targets (.int :: .reference :: stack)
      (.int :: .reference :: .int :: .reference :: stack) := by
  refine turns_plain rfl ?_
  show copy? 2 0 _ = _
  unfold copy?
  rw [split?_element]
  simp [split?_zero]

theorem turns_pop {ty : Ty} :
    ((Instr.pop? ty).toList.forM instr).Turns ctx targets (ty.results ++ stack) stack := by
  unfold Instr.pop? Ty.results
  split
  · exact turns_pure
  · refine turns_bind (turns_plain (by split <;> rfl) ?_) turns_pure
    have hsplit := split?_kind ty.kind stack
    split
    · next hwide =>
      rw [Ty.words_of_isWide hwide] at hsplit
      show (split? 2 _).map (·.2) = _
      rw [List.singleton_append, hsplit]
      rfl
    · next hwide =>
      rw [Ty.words_of_not_isWide hwide] at hsplit
      show (split? 1 _).map (·.2) = _
      rw [List.singleton_append, hsplit]
      rfl

/-! ## Arrays -/

theorem turns_arrayLoad {element : Ty} (h : element.IsValue) :
    (instr (.arrayLoad element)).Turns ctx targets (.int :: .reference :: stack)
      (element.kind :: stack) := by
  rcases element.cases with ⟨p, rfl⟩ | href | rfl
  · unfold Instr.arrayLoad
    rw [Ty.kind_prim, Ty.prim?_prim]
    cases p <;> exact turns_transfer (t := ([_, _], [_])) rfl rfl rfl
  · unfold Instr.arrayLoad
    rw [Ty.kind_of_isReference href, (Ty.isReference_iff.mp href).1]
    exact turns_transfer (t := ([_, _], [_])) rfl rfl rfl
  · exact absurd rfl h.1

theorem turns_arrayStore {element : Ty} (h : element.IsValue) :
    (instr (.arrayStore element)).Turns ctx targets
      (element.kind :: .int :: .reference :: stack) stack := by
  rcases element.cases with ⟨p, rfl⟩ | href | rfl
  · unfold Instr.arrayStore
    rw [Ty.kind_prim, Ty.prim?_prim]
    cases p <;> exact turns_transfer (t := ([_, _, _], [])) rfl rfl rfl
  · unfold Instr.arrayStore
    rw [Ty.kind_of_isReference href, (Ty.isReference_iff.mp href).1]
    exact turns_transfer (t := ([_, _, _], [])) rfl rfl rfl
  · exact absurd rfl h.1

/-! ## Members -/

section

variable {registry : Registry} {ref : FieldRef}

theorem turns_member {code : OpCode} {t : Transfer} {owner name descriptor : String}
    (hplain : (Instr.member code owner name descriptor).isPlain = true)
    (h : code.memberTransfer? descriptor = some t) :
    (instr (.member code owner name descriptor)).Turns ctx targets (t.1 ++ stack)
      (t.2 ++ stack) := turns_transfer hplain rfl h

theorem turns_getstatic (h : registry.Sound) (hvalue : ref.ty.IsValue) (name : String) :
    (field registry .getstatic ref name).Turns ctx targets stack (ref.ty.kind :: stack) := by
  refine turns_member (t := ([], [ref.ty.kind])) rfl ?_
  show (Descriptor.field? _).map _ = _
  rw [h.field?_descriptor hvalue]
  rfl

theorem turns_putstatic (h : registry.Sound) (hvalue : ref.ty.IsValue) (name : String) :
    (field registry .putstatic ref name).Turns ctx targets (ref.ty.kind :: stack) stack := by
  refine turns_member (t := ([ref.ty.kind], [])) rfl ?_
  show (Descriptor.field? _).map _ = _
  rw [h.field?_descriptor hvalue]
  rfl

theorem turns_getfield (h : registry.Sound) (hvalue : ref.ty.IsValue) (name : String) :
    (field registry .getfield ref name).Turns ctx targets (.reference :: stack)
      (ref.ty.kind :: stack) := by
  refine turns_member (t := ([.reference], [ref.ty.kind])) rfl ?_
  show (Descriptor.field? _).map _ = _
  rw [h.field?_descriptor hvalue]
  rfl

theorem turns_putfield (h : registry.Sound) (hvalue : ref.ty.IsValue) (name : String) :
    (field registry .putfield ref name).Turns ctx targets (ref.ty.kind :: .reference :: stack)
      stack := by
  refine turns_member (t := ([ref.ty.kind, .reference], [])) rfl ?_
  show (Descriptor.field? _).map _ = _
  rw [h.field?_descriptor hvalue]
  rfl

end

/-- What a call finds under its arguments. -/
def receiverKinds (method : MethodRef) : List Kind := if method.isStatic then [] else [.reference]

theorem turns_call {method : MethodRef} {params args : List Ty} (h : method.Takes params args)
    (owner name : String) :
    (instr (.member (ExprCode.invokeOp method) owner name method.descriptor)).Turns ctx targets
      ((args.map Ty.kind).reverse ++ (receiverKinds method ++ stack))
      (method.returnTy.results ++ stack) := by
  have hread := h.descriptor.method?_eq h.values h.returnTy
  rw [h.kinds_eq, ← List.append_assoc]
  unfold ExprCode.invokeOp receiverKinds
  refine turns_member (t := ((params.map Ty.kind).reverse ++ _, method.returnTy.results))
    ?_ ?_
  · split
    · rfl
    · split
      · rfl
      · split <;> rfl
  · split
    · show (Descriptor.method? _).map _ = _
      rw [hread, List.append_nil]
      rfl
    · split
      · show (Descriptor.method? _).map _ = _
        rw [hread]
        rfl
      · split
        · show (Descriptor.method? _).map _ = _
          rw [hread]
          rfl
        · show (Descriptor.method? _).map _ = _
          rw [hread]
          rfl

/-! ## Concatenation -/

theorem fieldDescriptor_appendParam {ty : Ty} (h : ty.IsValue) :
    FieldDescriptor ty.kind (ExprCode.appendParam ty) := by
  rcases ty.cases with ⟨p, rfl⟩ | href | rfl
  · unfold ExprCode.appendParam
    rw [Ty.prim?_prim, Ty.kind_prim]
    have hint := FieldDescriptor.prim .int (by decide)
    have hchar := FieldDescriptor.prim .char (by decide)
    have hboolean := FieldDescriptor.prim .boolean (by decide)
    have hlong := FieldDescriptor.prim .long (by decide)
    have hfloat := FieldDescriptor.prim .float (by decide)
    have hdouble := FieldDescriptor.prim .double (by decide)
    rw [Ty.kind_prim] at hint hchar hboolean hlong hfloat hdouble
    cases p <;> first | assumption | exact absurd rfl h.2
  · unfold ExprCode.appendParam
    rw [Ty.kind_of_isReference href, (Ty.isReference_iff.mp href).1]
    dsimp only
    split
    · exact FieldDescriptor.object "java/lang/String" (by decide)
    · exact FieldDescriptor.object "java/lang/Object" (by decide)
  · exact absurd rfl h.1

theorem turns_append {ty : Ty} (h : ty.IsValue) :
    (instr (ExprCode.appendValue ty)).Turns ctx targets (ty.kind :: .reference :: stack)
      (.reference :: stack) := by
  have hresult : FieldDescriptor .reference "Ljava/lang/StringBuilder;" :=
    FieldDescriptor.object "java/lang/StringBuilder" (by decide)
  have hread := Descriptor.method?_value (List.Forall₂.cons (fieldDescriptor_appendParam h) .nil)
    hresult
  refine turns_member (t := ([ty.kind, .reference], [.reference])) rfl ?_
  show (Descriptor.method? _).map _ = _
  have htext : "(" ++ ExprCode.appendParam ty ++ ")Ljava/lang/StringBuilder;"
      = "(" ++ String.join [ExprCode.appendParam ty] ++ ")" ++ "Ljava/lang/StringBuilder;" := by
    rw [show ")Ljava/lang/StringBuilder;" = ")" ++ "Ljava/lang/StringBuilder;" from rfl]
    simp [String.append_assoc]
  rw [htext, hread]
  rfl

/-! ## Returns -/

theorem turns_ret {last : List Kind} :
    (instr (.ret ctx.returnTy)).Turns ctx targets (ctx.returnTy.results ++ stack) last := by
  have hact : (Instr.ret ctx.returnTy).act (ctx.returnTy.results ++ stack) = some stack := by
    unfold Instr.ret Ty.results
    split
    · exact Instr.act_of_transfer (t := ([], [])) rfl rfl stack
    · cases ctx.returnTy.kind <;>
        exact Instr.act_of_transfer (t := ([_], [])) rfl rfl stack
  have hends : (Instr.ret ctx.returnTy).fallsThrough = false := by
    unfold Instr.ret
    split
    · rfl
    · cases ctx.returnTy.kind <;> rfl
  have haccess : (Instr.ret ctx.returnTy).access? = none := by
    unfold Instr.ret
    split
    · rfl
    · cases ctx.returnTy.kind <;> rfl
  refine turns_instr (fun _ => by unfold Instr.ret; rintro ⟨⟩)
    ⟨by rw [hact]; rfl, fun access h => ?_, fun _ => rfl⟩ hact
    (fun _ _ => by unfold Instr.ret; rintro ⟨⟩) fun h => ?_
  · rw [haccess] at h
    cases h
  · rw [hends] at h
    cases h

/-! ## Sequences of instructions -/

theorem turns_op {code : OpCode} {t : Transfer} (hplain : (Instr.noArg code).isPlain = true)
    (hwords : code.onWords? = none) (h : (Instr.noArg code).transfer? = some t) :
    (op code).Turns ctx targets (t.1 ++ stack) (t.2 ++ stack) :=
  turns_transfer hplain hwords h

theorem turns_ops_one {code : OpCode} {source target : Kind}
    (hplain : (Instr.noArg code).isPlain = true) (hwords : code.onWords? = none)
    (h : (Instr.noArg code).transfer? = some ([source], [target])) :
    (ops [code]).Turns ctx targets (source :: stack) (target :: stack) :=
  turns_bind (turns_op hplain hwords h) turns_pure

/-! ## Conversions -/

end Emit

/-- The conversions that code generation makes. -/
inductive Ty.ConvertsTo : Ty → Ty → Prop
  /-- To a type that is computed in. -/
  | computed {p q : Prim} (hp : p.isNumeric = true) (hq : q ∈ Prim.computed) :
    ConvertsTo (.prim p) (.prim q)
  /-- Back to a type whose promotion it is. -/
  | demoted {p q : Prim} (h : q.promoted? = some p) : ConvertsTo (.prim p) (.prim q)
  | boolean : ConvertsTo .boolean .boolean
  | reference {source target : Ty} (hs : source.isReference = true)
    (ht : target.isReference = true) : ConvertsTo source target

theorem Ty.ConvertsTo.isValue {source target : Ty} (h : source.ConvertsTo target) :
    source.IsValue := by
  cases h with
  | @computed p q hp => exact Ty.isValue_prim (by rintro rfl; cases hp)
  | @demoted p q h =>
    exact Ty.isValue_prim (Prim.ne_void_of_mem_computed (Prim.mem_computed_of_promoted? h))
  | boolean => exact Ty.isValue_boolean
  | reference hs => exact Ty.isValue_of_isReference hs

namespace Emit

theorem turns_conversion {source target : Ty} (h : source.ConvertsTo target) :
    (ops (conversion source target)).Turns ctx targets (source.kind :: stack)
      (target.kind :: stack) := by
  cases h with
  | @computed p q hp hq =>
    unfold conversion
    rw [Ty.kind_prim, Ty.kind_prim, Ty.prim?_prim]
    simp only [Prim.computed, List.mem_cons, List.not_mem_nil, or_false] at hq
    rcases hq with rfl | rfl | rfl | rfl <;> cases p <;>
      first | exact turns_pure | exact turns_ops_one rfl rfl rfl | cases hp
  | @demoted p q h =>
    unfold conversion
    rw [Ty.kind_prim, Ty.kind_prim, Ty.prim?_prim]
    cases q <;> cases h <;> first | exact turns_pure | exact turns_ops_one rfl rfl rfl
  | boolean =>
    rw [show Ty.boolean = .prim .boolean from rfl]
    unfold conversion
    rw [Ty.kind_prim, Ty.prim?_prim]
    exact turns_pure
  | reference hs ht =>
    unfold conversion
    rw [Ty.kind_of_isReference hs, Ty.kind_of_isReference ht]
    exact turns_pure

/-! ## Arithmetic -/

/-- The kind of the right operand: a shift distance is an `int`. -/
def rightKind (op : BinaryOp) (p : Prim) : Kind := if op.isShift then .int else p.kind

theorem turns_arithmetic {op : BinaryOp} {p : Prim} {code : OpCode}
    (h : arithmeticOp? op (.prim p) = some code) :
    (Emit.op code).Turns ctx targets (rightKind op p :: p.kind :: stack) (p.kind :: stack) := by
  rw [arithmeticOp?_prim] at h
  cases p <;> cases op <;> cases h <;> exact turns_op (t := ([_, _], [_])) rfl rfl rfl

theorem turns_unaryOps {op : UnaryOp} {p : Prim} (h : p ∈ Prim.computed)
    (hintegral : op = .bitNot → p.isIntegral = true) :
    ((ExprCode.unaryOps op (.prim p)).forM instr).Turns ctx targets (p.kind :: stack)
      (p.kind :: stack) := by
  unfold ExprCode.unaryOps
  cases op with
  | plus => exact turns_pure
  | neg =>
    dsimp only
    rw [Ty.prim?_prim]
    simp only [Prim.computed, List.mem_cons, List.not_mem_nil, or_false] at h
    rcases h with rfl | rfl | rfl | rfl <;>
      exact turns_bind (turns_transfer (t := ([_], [_])) rfl rfl rfl) turns_pure
  | bitNot =>
    have hcases : p = .int ∨ p = .long := by
      simp only [Prim.computed, List.mem_cons, List.not_mem_nil, or_false] at h
      have := hintegral rfl
      rcases h with rfl | rfl | rfl | rfl <;> first | exact .inl rfl | exact .inr rfl | cases this
    rcases hcases with rfl | rfl
    · have hne : Ty.prim .int ≠ .long := fun heq => by
        cases Ty.prim_injective (p := .int) (q := .long) heq
      dsimp only
      rw [if_neg hne]
      exact turns_bind (turns_push (k := .int) rfl rfl rfl)
        (turns_bind (turns_transfer (t := ([_, _], [_])) rfl rfl rfl) turns_pure)
    · dsimp only
      rw [if_pos (show Ty.prim .long = .long from rfl)]
      exact turns_bind (turns_pushLong (-1))
        (turns_bind (turns_transfer (t := ([_, _], [_])) rfl rfl rfl) turns_pure)

/-! ## Tests -/

/-- The test compares two values of the kind. -/
def Tests (selected : BranchTest) (kind : Kind) : Prop :=
  match selected.compare with
  | none => selected.jump.tested? = some [kind, kind]
  | some code => (Instr.noArg code).isPlain = true ∧ code.onWords? = none
      ∧ (Instr.noArg code).transfer? = some ([kind, kind], [.int])
      ∧ selected.jump.tested? = some [.int]

theorem turns_test {selected : BranchTest} {kind : Kind} {target : Label}
    (h : Tests selected kind) (hmem : (target, stack) ∈ targets) :
    (ExprCode.test selected target).Turns ctx targets (kind :: kind :: stack) stack := by
  unfold ExprCode.test
  unfold Tests at h
  cases hcompare : selected.compare with
  | none =>
    rw [hcompare] at h
    exact turns_bind turns_pure (turns_jump (k := [kind, kind]) h hmem)
  | some code =>
    rw [hcompare] at h
    obtain ⟨hplain, hwords, htransfer, hjump⟩ := h
    refine turns_bind ?_ (turns_jump (k := [.int]) hjump hmem)
    exact turns_bind (turns_op (t := ([kind, kind], [.int])) hplain hwords htransfer)
      turns_pure

theorem tests_compareBranch? {op : CompareOp} {operand : Ty} {onTrue : Bool}
    {selected : BranchTest} (h : compareBranch? op operand onTrue = some selected) :
    Tests selected operand.kind := by
  unfold compareBranch? at h
  dsimp only at h
  split at h
  · next hint =>
    cases h
    rw [hint, show Ty.int.kind = .int from Ty.kind_prim .int]
    generalize (if onTrue = true then op else op.negate) = tested
    cases tested <;> rfl
  · split at h
    · next hdouble =>
      cases h
      rw [hdouble, show Ty.double.kind = .double from Ty.kind_prim .double]
      generalize (if onTrue = true then op else op.negate) = tested
      cases op <;> cases tested <;> exact ⟨rfl, rfl, rfl, rfl⟩
    · cases h

theorem tests_numeric {p : Prim} (h : p ∈ Prim.computed) (op : EqualityOp) (onTrue : Bool) :
    Tests (equalityBranch (.numeric (.prim p)) op onTrue) p.kind := by
  have heq : ∀ a b : Prim, Ty.prim a = .prim b ↔ a = b :=
    fun a b => ⟨Ty.prim_injective, congrArg Ty.prim⟩
  unfold equalityBranch EqualityKind.forms
  simp only [show Ty.int = .prim .int from rfl, show Ty.long = .prim .long from rfl,
    show Ty.float = .prim .float from rfl, heq]
  simp only [Prim.computed, List.mem_cons, List.not_mem_nil, or_false] at h
  rcases h with rfl | rfl | rfl | rfl <;> cases op <;> cases onTrue <;>
    first | rfl | exact ⟨rfl, rfl, rfl, rfl⟩

/-- Both operands of an equality are converted to one type before they are compared. -/
theorem equality_converts {left right : Ty} {kind : EqualityKind}
    (h : equalityKind? left right = some kind) :
    left.ConvertsTo (ExprCode.equalityOperand kind left)
      ∧ right.ConvertsTo (ExprCode.equalityOperand kind left)
      ∧ ∀ op onTrue, Tests (equalityBranch kind op onTrue)
        (ExprCode.equalityOperand kind left).kind := by
  unfold equalityKind? at h
  split at h
  · next hboolean =>
    cases h
    obtain ⟨rfl, rfl⟩ := hboolean
    refine ⟨.boolean, .boolean, fun op onTrue => ?_⟩
    show Tests _ Ty.boolean.kind
    rw [Ty.kind_boolean]
    cases op <;> cases onTrue <;> rfl
  · split at h
    · next promoted hpromoted =>
      cases h
      obtain ⟨p, q, hp, hq, rfl⟩ := binaryPromotion?_eq_some_iff.mp hpromoted
      obtain ⟨l, _, rfl, hl, -⟩ := unaryPromotion?_eq_some_iff.mp hp
      obtain ⟨r, _, rfl, hr, -⟩ := unaryPromotion?_eq_some_iff.mp hq
      have hcommon := Prim.common_mem_computed p q
      refine ⟨.computed (Prim.isNumeric_of_promoted? hl) hcommon,
        .computed (Prim.isNumeric_of_promoted? hr) hcommon, fun op onTrue => ?_⟩
      show Tests _ (Ty.prim (p.common q)).kind
      rw [Ty.kind_prim]
      exact tests_numeric hcommon op onTrue
    · split at h
      · next href =>
        cases h
        rw [Bool.and_eq_true] at href
        refine ⟨.reference href.1 href.1, .reference href.2 href.1, fun op onTrue => ?_⟩
        show Tests _ left.kind
        rw [Ty.kind_of_isReference href.1]
        cases op <;> cases onTrue <;> rfl
      · cases h

end Emit

end ClassCompiler
