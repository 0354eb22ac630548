import ClassCompiler.Proofs.Accepted

/-!
# Judgements without errors

What an operator's judgement says of the operand types when it has no error and no operand is of
the recovery type. There is one lemma per operator, and each gives what the rule of that operator
asks for.
-/

namespace ClassCompiler

variable {registry : Registry} {line : Nat}

/-! ## Expectations -/

theorem matches_of_expectType {actual expected : Ty}
    (h : expectType registry actual expected line = []) :
    actual.matchesExpected expected = true := by
  unfold expectType at h
  split at h
  · assumption
  · cases h

theorem mem_of_expectOneOf {actual : Ty} {expected : List Ty} (hany : actual ≠ .any)
    (h : expectOneOf registry actual expected line = []) : actual ∈ expected := by
  unfold expectOneOf at h
  split at h
  · exact Ty.mem_of_matchesOneOf hany (by assumption)
  · cases h

theorem eq_boolean_of_expectBoolean {operand : Expr} (hany : operand.tyOrAny ≠ .any)
    (h : expectBoolean registry operand = []) : operand.tyOrAny = .boolean :=
  Ty.matchesExpected_prim (p := .boolean) hany (matches_of_expectType h)

theorem ne_void_of_expectConcatenable {operand : Expr} {ty : Ty} (hty : operand.ty = some ty)
    (h : expectConcatenable operand = []) : ty ≠ .void := by
  rintro rfl
  unfold expectConcatenable at h
  rw [if_pos hty] at h
  cases h

/-! ## Arrays -/

theorem judgeElement_clean (hr : registry.Sound) {array : Expr} (hany : array.tyOrAny ≠ .any)
    (h : (judgeElement registry array line).errors = []) :
    array.tyOrAny.isReference = true
      ∧ ∃ ty, (judgeElement registry array line).ty = some ty ∧ ty.IsValue := by
  unfold judgeElement at h ⊢
  simp only [if_neg hany] at h ⊢
  split at h
  · next element he =>
    obtain ⟨href, hvalue⟩ := hr.elementType? he
    exact ⟨href, element, rfl, hvalue⟩
  · cases h

theorem judgeIndex_clean (hr : registry.Sound) {array position : Expr}
    (harray : array.tyOrAny ≠ .any) (hposition : position.tyOrAny ≠ .any)
    (h : (judgeIndex registry array position line).errors = []) :
    array.tyOrAny.isReference = true ∧ position.tyOrAny ∈ indexTypes
      ∧ ∃ ty, (judgeIndex registry array position line).ty = some ty ∧ ty.IsValue := by
  obtain ⟨helement, hindex⟩ := List.append_eq_nil_iff.mp h
  obtain ⟨href, hty⟩ := judgeElement_clean hr harray helement
  exact ⟨href, mem_of_expectOneOf hposition hindex, hty⟩

/-! ## Operators -/

theorem judgeUnary_clean {op : UnaryOp} {operand : Expr} (hany : operand.tyOrAny ≠ .any)
    (h : (judgeUnary registry op operand line).errors = []) :
    ∃ ty, (judgeUnary registry op operand line).ty = some ty
      ∧ unaryPromotion? operand.tyOrAny = some ty
      ∧ (op = .bitNot → operand.tyOrAny.isIntegral = true) := by
  unfold judgeUnary at h ⊢
  simp only [if_neg hany] at h ⊢
  split at h
  · cases h
  · next hbit =>
    rw [if_neg hbit]
    split at h
    · next promoted hp =>
      simp only [hp]
      refine ⟨promoted, rfl, rfl, fun hop => ?_⟩
      by_contra hint
      exact hbit ⟨hop, by simpa using hint⟩
    · cases h

theorem judgeBinary_clean {op : BinaryOp} {lhs rhs : Expr} (hlhs : lhs.tyOrAny ≠ .any)
    (hrhs : rhs.tyOrAny ≠ .any) (h : (judgeBinary registry op lhs rhs line).errors = []) :
    ∃ rule, resolveBinary? op lhs.tyOrAny rhs.tyOrAny = some rule
      ∧ (judgeBinary registry op lhs rhs line).ty = some rule.result := by
  have hneither : ¬ (lhs.tyOrAny = .any ∨ rhs.tyOrAny = .any) := by simp [hlhs, hrhs]
  unfold judgeBinary at h ⊢
  simp only [if_neg hneither] at h ⊢
  split at h
  · next rule hrule =>
    simp only [hrule]
    exact ⟨rule, rfl, rfl⟩
  · cases h

theorem judgeIncrement_clean {op : IncrementOp} {operand : Expr} (hany : operand.tyOrAny ≠ .any)
    (h : (judgeIncrement registry op operand line).errors = []) :
    (judgeIncrement registry op operand line).ty = some operand.tyOrAny
      ∧ operand.tyOrAny.isNumeric = true := by
  unfold judgeIncrement at h ⊢
  simp only [hany, false_or] at h ⊢
  split at h
  · next hnumeric =>
    rw [if_pos hnumeric]
    exact ⟨rfl, hnumeric⟩
  · cases h

/-! ## Conditions -/

theorem exists_prim_of_comparable {ty : Ty} (h : ty ∈ comparableTypes) : ∃ p, ty = .prim p := by
  rcases List.mem_pair.mp h with rfl | rfl
  · exact ⟨.int, rfl⟩
  · exact ⟨.double, rfl⟩

theorem judgeCompare_clean {lhs rhs : Expr} (hlhs : lhs.tyOrAny ≠ .any)
    (hrhs : rhs.tyOrAny ≠ .any) (h : (judgeCompare registry lhs rhs).errors = []) :
    lhs.tyOrAny ∈ comparableTypes ∧ rhs.tyOrAny = lhs.tyOrAny := by
  have hneither : ¬ (lhs.tyOrAny = .any ∨ rhs.tyOrAny = .any) := by simp [hlhs, hrhs]
  unfold judgeCompare at h
  simp only [if_neg hneither] at h
  split at h
  · next hone =>
    have hmem := Ty.mem_of_matchesOneOf hlhs hone
    obtain ⟨p, hp⟩ := exists_prim_of_comparable hmem
    refine ⟨hmem, ?_⟩
    rw [hp] at h ⊢
    exact Ty.matchesExpected_prim hrhs (matches_of_expectType h)
  · next hone =>
    have hmem := mem_of_expectOneOf hlhs h
    exact absurd (by simp [Ty.matchesOneOf, hmem]) hone

theorem judgeEquality_clean {lhs rhs : Expr} (hlhs : lhs.tyOrAny ≠ .any)
    (hrhs : rhs.tyOrAny ≠ .any) (h : (judgeEquality registry lhs rhs line).errors = []) :
    ∃ kind, equalityKind? lhs.tyOrAny rhs.tyOrAny = some kind := by
  unfold judgeEquality at h
  simp only [hlhs, hrhs, false_or] at h
  split at h
  · next hsome => exact Option.isSome_iff_exists.mp hsome
  · cases h

theorem judgeLogical_clean {lhs rhs : Expr} (hlhs : lhs.tyOrAny ≠ .any)
    (hrhs : rhs.tyOrAny ≠ .any) (h : (judgeLogical registry lhs rhs).errors = []) :
    lhs.tyOrAny = .boolean ∧ rhs.tyOrAny = .boolean := by
  obtain ⟨hleft, hright⟩ := List.append_eq_nil_iff.mp h
  exact ⟨eq_boolean_of_expectBoolean hlhs hleft, eq_boolean_of_expectBoolean hrhs hright⟩

/-! ## Assignment -/

theorem checkCompound_ok {op : BinaryOp} {left right ty : Ty} (hright : right ≠ .any)
    (h : checkCompound op left right = .ok ty) :
    ty = left ∧ left ∈ compoundOperands op ∧ right ∈ compoundOperands op := by
  unfold checkCompound at h
  split at h
  · cases h
  · split at h
    · cases h
    · next hl =>
      split at h
      · cases h
      · next hr =>
        cases h
        refine ⟨rfl, by simpa using hl, ?_⟩
        exact Ty.mem_of_matchesOneOf hright (by simpa using hr)

theorem checkAssignment_ok {op : AssignOp} {left right ty : Ty} (hleft : left ≠ .any)
    (hright : right ≠ .any) (h : checkAssignment registry op left right = .ok ty) :
    ty = left ∧ op.Fits left right := by
  unfold checkAssignment at h
  rw [if_neg hleft] at h
  cases op with
  | plain =>
    obtain ⟨hstores, rfl⟩ := Ty.stores_of_checkPlain hleft hright h
    exact ⟨rfl, hstores⟩
  | compound op =>
    obtain ⟨rfl, hl, hr⟩ := checkCompound_ok hright h
    exact ⟨rfl, .inr ⟨hl, hr⟩⟩

theorem checkAssignment_concat {op : AssignOp} {left right : Ty}
    (h : checkAssignment registry op left right = .concat) :
    op = .compound .add ∧ left = .string := by
  unfold checkAssignment at h
  split at h
  · cases h
  · cases op with
    | plain =>
      simp only [checkPlain] at h
      split at h <;> cases h
    | compound op =>
      simp only [checkCompound] at h
      split at h
      · next hop => exact ⟨congrArg AssignOp.compound hop.1, hop.2⟩
      · split at h
        · cases h
        · split at h <;> cases h

/-- An assignment is refused for its right side only when that is an error of its own. -/
theorem checkAssignment_badRight {op : AssignOp} {left right : Ty}
    (h : checkAssignment registry op left right = .badRight) :
    (op = .plain ∧ right.matchesExpected left = false)
      ∨ ∃ binary, op = .compound binary ∧ right.matchesOneOf (compoundOperands binary) = false := by
  unfold checkAssignment at h
  split at h
  · cases h
  · cases op with
    | plain =>
      simp only [checkPlain] at h
      split at h
      · cases h
      · next hbad =>
        exact .inl ⟨rfl, (Bool.or_eq_false_iff.mp (Bool.eq_false_iff.mpr hbad)).1⟩
    | compound op =>
      simp only [checkCompound] at h
      split at h
      · cases h
      · split at h
        · cases h
        · split at h
          · next hbad => exact .inr ⟨op, rfl, by simpa using hbad⟩
          · cases h

/-- An assignment of accepted sides: what is stored is accepted, too, and fits the left side. -/
theorem judgeAssign_clean {ctx : BodyCtx} {op : AssignOp} {lhs rhs : Expr} {left right : Ty}
    (hplace : lhs.isAssignable = true) (hlhs : lhs.Accepted ctx left)
    (hrhs : rhs.Accepted ctx right)
    (h : (judgeAssign registry op lhs rhs line).2.errors = []) :
    (judgeAssign registry op lhs rhs line).2.ty = some left
      ∧ ∃ stored, (judgeAssign registry op lhs rhs line).1.Accepted ctx stored
        ∧ op.Fits left stored := by
  have hvalue := hlhs.isValue_of_isAssignable hplace
  unfold judgeAssign at h ⊢
  simp only [hlhs.tyOrAny_eq, hrhs.tyOrAny_eq] at h ⊢
  cases hcheck : checkAssignment registry op left right with
  | ok ty =>
    obtain ⟨rfl, hfits⟩ := checkAssignment_ok hvalue.1 hrhs.ne_any hcheck
    exact ⟨rfl, right, hrhs, hfits⟩
  | concat =>
    obtain ⟨rfl, rfl⟩ := checkAssignment_concat hcheck
    rw [hcheck] at h
    refine ⟨rfl, .string, ?_, .inl ⟨rfl, rfl, rfl⟩⟩
    exact .concat rfl hlhs hvalue.2 hrhs (ne_void_of_expectConcatenable hrhs.ty_eq h)
  | badLeft =>
    rw [hcheck] at h
    cases h
  | badRight =>
    rw [hcheck] at h
    rcases checkAssignment_badRight hcheck with ⟨rfl, hbad⟩ | ⟨binary, rfl, hbad⟩
    · rw [matches_of_expectType h] at hbad
      cases hbad
    · have hmem := mem_of_expectOneOf hrhs.ne_any h
      have hmatches : right.matchesOneOf (compoundOperands binary) = true :=
        Bool.or_eq_true_iff.mpr (.inr (List.contains_iff_mem.mpr hmem))
      rw [hmatches] at hbad
      cases hbad

theorem returnErrors_none {ctx : BodyCtx} (hreturn : ctx.returnTy ≠ .any)
    (h : returnErrors registry ctx.returnTy none line = []) : ReturnAccepted ctx none := by
  unfold returnErrors at h
  simp only [hreturn, or_false] at h
  split at h
  · assumption
  · cases h

theorem returnErrors_some {ctx : BodyCtx} (hreturn : ctx.returnTy ≠ .any) {value : Expr} {ty : Ty}
    (hvalue : value.Accepted ctx ty)
    (h : returnErrors registry ctx.returnTy (some value) line = []) :
    ReturnAccepted ctx (some value) := by
  unfold returnErrors at h
  simp only [hvalue.tyOrAny_eq] at h
  split at h
  · cases h
  · next hvoid =>
    refine ⟨hvoid, ty, hvalue, ?_⟩
    unfold checkAssignment at h
    rw [if_neg hreturn] at h
    split at h
    · next hok => exact (Ty.stores_of_checkPlain hreturn hvalue.ne_any hok).1
    · exact Ty.stores_of_matchesExpected hreturn hvalue.ne_any (matches_of_expectType h)

end ClassCompiler
