import ClassCompiler.Proofs.Body.Typing
import ClassCompiler.Proofs.ClassTable
import ClassCompiler.Body.Names
import Mathlib.Data.List.Forall2

/-!
# Operands of the recovery type

What becomes of a judgement without errors when an operand gets the recovery type in place of its
own. No operator complains, and its type is the one that it had, or the recovery type. A look-up of a
method finds one, too, though it need not be the same.

* `Expr.Weaker`, `Judgement.Weaker`: as before, or of the recovery type
* `judgeBinary_weaker`, `judgeAssign_weaker`, ...: one lemma for each operator
* `ClassTable.Uniform`: overloads among which it does not matter which is chosen
-/

namespace ClassCompiler

/-! ## Weaker operands -/

namespace Expr

/-- An analyzed expression in the place of another: its type is the same or `any`, and it is a place
where the other was one. -/
structure Weaker (one two : Expr) : Prop where
  ty : two.ty = one.ty ∨ two.ty = some .any
  isAssignable : one.isAssignable = true → two.isAssignable = true

theorem Weaker.refl (e : Expr) : e.Weaker e := ⟨.inl rfl, id⟩

theorem Weaker.tyOrAny {one two : Expr} (h : one.Weaker two) :
    two.tyOrAny = one.tyOrAny ∨ two.tyOrAny = .any := by
  unfold Expr.tyOrAny
  rcases h.ty with hty | hty
  · exact .inl (by rw [hty])
  · exact .inr (by rw [hty]; rfl)

end Expr

/-- A judgement in the place of one without errors. -/
def Judgement.Weaker (one two : Judgement) : Prop :=
  one.errors = [] → two.errors = [] ∧ (two.ty = one.ty ∨ two.ty = some .any)

theorem Judgement.Weaker.of_eq {one two : Judgement} (h : two = one) : one.Weaker two := by
  intro herrors
  rw [h]
  exact ⟨herrors, .inl rfl⟩

/-! ## Expectations -/

variable {registry : Registry} {line : Nat}

theorem expectType_eq_nil {actual expected : Ty} :
    expectType registry actual expected line = [] ↔ actual.matchesExpected expected = true := by
  unfold expectType
  split
  · next h => simp [h]
  · next h => simp [h]

theorem expectOneOf_eq_nil {actual : Ty} {expected : List Ty} :
    expectOneOf registry actual expected line = [] ↔ actual.matchesOneOf expected = true := by
  unfold expectOneOf
  split
  · next h => simp [h]
  · next h => simp [h]

theorem Ty.matchesExpected_any (expected : Ty) : any.matchesExpected expected = true := by
  simp [matchesExpected]

theorem Ty.matchesOneOf_any (expected : List Ty) : any.matchesOneOf expected = true := by
  simp [matchesOneOf]

section

variable {one two : Expr} (h : one.Weaker two)

include h

theorem expectOneOf_weaker {expected : List Ty} {line' : Nat}
    (hone : expectOneOf registry one.tyOrAny expected line = []) :
    expectOneOf registry two.tyOrAny expected line' = [] := by
  rw [expectOneOf_eq_nil] at hone ⊢
  rcases h.tyOrAny with hty | hty
  · rw [hty]
    exact hone
  · rw [hty]
    exact Ty.matchesOneOf_any expected

theorem expectType_weaker {expected : Ty} {line' : Nat}
    (hone : expectType registry one.tyOrAny expected line = []) :
    expectType registry two.tyOrAny expected line' = [] := by
  rw [expectType_eq_nil] at hone ⊢
  rcases h.tyOrAny with hty | hty
  · rw [hty]
    exact hone
  · rw [hty]
    exact Ty.matchesExpected_any expected

theorem expectBoolean_weaker (hone : expectBoolean registry one = []) :
    expectBoolean registry two = [] := expectType_weaker h hone

theorem expectConcatenable_weaker (hone : expectConcatenable one = []) :
    expectConcatenable two = [] := by
  have hvoid : one.ty ≠ some .void := fun hty => ne_void_of_expectConcatenable hty hone rfl
  have hvoid' : two.ty ≠ some .void := by
    rcases h.ty with hty | hty
    · rw [hty]
      exact hvoid
    · rw [hty]
      exact fun heq => Ty.prim_ne_any .void (Option.some.inj heq).symm
  exact if_neg hvoid'

/-! ## Operators -/

theorem judgeElement_weaker :
    (judgeElement registry one line).Weaker (judgeElement registry two line) := by
  rcases h.tyOrAny with hty | hty
  · refine .of_eq ?_
    unfold judgeElement
    rw [hty]
  · intro _
    unfold judgeElement
    rw [hty]
    exact ⟨rfl, .inr rfl⟩

theorem judgeLength_weaker :
    (judgeLength registry one line).Weaker (judgeLength registry two line) := fun herrors =>
  ⟨(judgeElement_weaker h herrors).1, .inl rfl⟩

theorem judgeUnary_weaker (op : UnaryOp) :
    (judgeUnary registry op one line).Weaker (judgeUnary registry op two line) := by
  rcases h.tyOrAny with hty | hty
  · refine .of_eq ?_
    unfold judgeUnary
    rw [hty]
  · intro _
    unfold judgeUnary
    rw [hty]
    exact ⟨rfl, .inr rfl⟩

theorem judgeIncrement_weaker (op : IncrementOp) :
    (judgeIncrement registry op one line).Weaker (judgeIncrement registry op two line) := by
  rcases h.tyOrAny with hty | hty
  · refine .of_eq ?_
    unfold judgeIncrement
    rw [hty]
  · intro _
    unfold judgeIncrement
    rw [hty]
    exact ⟨rfl, .inr rfl⟩

end

section

variable {lhs rhs lhs' rhs' : Expr} (hl : lhs.Weaker lhs') (hr : rhs.Weaker rhs')

include hl hr

theorem judgeIndex_weaker :
    (judgeIndex registry lhs rhs line).Weaker (judgeIndex registry lhs' rhs' line) := by
  intro herrors
  obtain ⟨helement, hindex⟩ := List.append_eq_nil_iff.mp herrors
  obtain ⟨helement', hty⟩ := judgeElement_weaker hl helement
  exact ⟨List.append_eq_nil_iff.mpr ⟨helement', expectOneOf_weaker hr hindex⟩, hty⟩

theorem judgeConcat_weaker : (judgeConcat lhs rhs).Weaker (judgeConcat lhs' rhs') := by
  intro herrors
  obtain ⟨hleft, hright⟩ := List.append_eq_nil_iff.mp herrors
  exact ⟨List.append_eq_nil_iff.mpr
    ⟨expectConcatenable_weaker hl hleft, expectConcatenable_weaker hr hright⟩, .inl rfl⟩

theorem judgeLogical_weaker :
    (judgeLogical registry lhs rhs).Weaker (judgeLogical registry lhs' rhs') := by
  intro herrors
  obtain ⟨hleft, hright⟩ := List.append_eq_nil_iff.mp herrors
  exact ⟨List.append_eq_nil_iff.mpr
    ⟨expectBoolean_weaker hl hleft, expectBoolean_weaker hr hright⟩, .inl rfl⟩

/-- The operands have their types, or one of them has the recovery type. -/
theorem tyOrAny_cases : (lhs'.tyOrAny = lhs.tyOrAny ∧ rhs'.tyOrAny = rhs.tyOrAny)
    ∨ lhs'.tyOrAny = .any ∨ rhs'.tyOrAny = .any := by
  rcases hl.tyOrAny with hleft | hleft
  · rcases hr.tyOrAny with hright | hright
    · exact .inl ⟨hleft, hright⟩
    · exact .inr (.inr hright)
  · exact .inr (.inl hleft)

theorem judgeBinary_weaker (op : BinaryOp) :
    (judgeBinary registry op lhs rhs line).Weaker (judgeBinary registry op lhs' rhs' line) := by
  rcases tyOrAny_cases hl hr with ⟨hleft, hright⟩ | hany
  · refine .of_eq ?_
    unfold judgeBinary
    rw [hleft, hright]
  · intro _
    unfold judgeBinary
    dsimp only
    rw [if_pos hany]
    exact ⟨rfl, .inr rfl⟩

theorem judgeCompare_weaker :
    (judgeCompare registry lhs rhs).Weaker (judgeCompare registry lhs' rhs') := by
  intro herrors
  refine ⟨?_, .inl rfl⟩
  by_cases hany' : lhs'.tyOrAny = .any ∨ rhs'.tyOrAny = .any
  · exact if_pos hany'
  · obtain ⟨hleft, hright⟩ := (tyOrAny_cases hl hr).resolve_right hany'
    have hany : ¬ (lhs.tyOrAny = .any ∨ rhs.tyOrAny = .any) := by rwa [← hleft, ← hright]
    unfold judgeCompare at herrors ⊢
    dsimp only at herrors ⊢
    rw [if_neg hany] at herrors
    rw [if_neg hany', hleft]
    by_cases hcomparable : lhs.tyOrAny.matchesOneOf comparableTypes = true
    · rw [if_pos hcomparable] at herrors ⊢
      exact expectType_weaker hr herrors
    · rw [if_neg hcomparable] at herrors
      exact absurd (expectOneOf_eq_nil.mp herrors) hcomparable

theorem judgeEquality_weaker :
    (judgeEquality registry lhs rhs line).Weaker (judgeEquality registry lhs' rhs' line) := by
  rcases tyOrAny_cases hl hr with ⟨hleft, hright⟩ | hany
  · refine .of_eq ?_
    unfold judgeEquality
    rw [hleft, hright]
  · intro _
    refine ⟨if_pos ?_, .inl rfl⟩
    rcases hany with hany | hany
    · exact .inl hany
    · exact .inr (.inl hany)

/-- Where a concatenation was, there may be a sum with an operand of the recovery type. -/
theorem isConcatenation_weaker {op : BinaryOp} (hsum : isConcatenation op lhs rhs = true)
    (hplain : isConcatenation op lhs' rhs' = false) :
    lhs'.tyOrAny = .any ∨ rhs'.tyOrAny = .any := by
  refine (tyOrAny_cases hl hr).resolve_left fun ⟨hleft, hright⟩ => ?_
  unfold isConcatenation at hsum hplain
  rw [hleft, hright, hsum] at hplain
  cases hplain

theorem isConcatenation_of_weaker {op : BinaryOp} (hplain : isConcatenation op lhs rhs = false) :
    isConcatenation op lhs' rhs' = false := by
  have hstring := Ty.string_ne_any
  rw [← Bool.not_eq_true] at hplain ⊢
  refine fun hsum => hplain ?_
  unfold isConcatenation at hsum ⊢
  rw [decide_eq_true_iff] at hsum ⊢
  obtain ⟨hop, hside⟩ := hsum
  refine ⟨hop, hside.imp (fun hleft => ?_) fun hright => ?_⟩
  · rcases hl.tyOrAny with hty | hty
    · rwa [hty] at hleft
    · exact absurd (hleft.symm.trans hty) hstring
  · rcases hr.tyOrAny with hty | hty
    · rwa [hty] at hright
    · exact absurd (hright.symm.trans hty) hstring

end

/-! ## Assignments -/

/-- A right side of the recovery type is accepted wherever any right side is, and alike. -/
theorem checkAssignment_any {op : AssignOp} {left right : Ty}
    (h : checkAssignment registry op left right ≠ .badRight) :
    checkAssignment registry op left .any = checkAssignment registry op left right := by
  unfold checkAssignment at h ⊢
  by_cases hany : left = .any
  · rw [if_pos hany, if_pos hany]
  · rw [if_neg hany] at h ⊢
    rw [if_neg hany]
    cases op with
    | plain =>
      have hleft : checkPlain registry left .any = .ok left := by
        unfold checkPlain
        rw [Ty.matchesExpected_any, Bool.true_or, if_pos rfl]
      dsimp only at h ⊢
      rw [hleft]
      unfold checkPlain at h ⊢
      split
      · rfl
      · next hbad => exact (h (if_neg hbad)).elim
    | compound op =>
      dsimp only at h ⊢
      unfold checkCompound at h ⊢
      by_cases hconcat : op = .add ∧ left = .string
      · rw [if_pos hconcat, if_pos hconcat]
      · rw [if_neg hconcat] at h ⊢
        rw [if_neg hconcat]
        by_cases hleft : (!(compoundOperands op).contains left) = true
        · rw [if_pos hleft, if_pos hleft]
        · rw [if_neg hleft] at h ⊢
          rw [if_neg hleft, Ty.matchesOneOf_any]
          split at h
          · exact (h rfl).elim
          · next hright => rw [if_neg hright]; rfl

section

variable {lhs rhs lhs' rhs' : Expr} (hl : lhs.Weaker lhs') (hr : rhs.Weaker rhs')

include hl hr

theorem judgeAssign_weaker (op : AssignOp) :
    (judgeAssign registry op lhs rhs line).2.Weaker
      (judgeAssign registry op lhs' rhs' line).2 := by
  intro herrors
  rcases hl.tyOrAny with hleft | hleft
  · have hcheck : checkAssignment registry op lhs.tyOrAny rhs.tyOrAny ≠ .badRight := by
      intro hbad
      unfold judgeAssign at herrors
      dsimp only at herrors
      rw [hbad] at herrors
      rcases checkAssignment_badRight hbad with ⟨rfl, hfalse⟩ | ⟨binary, rfl, hfalse⟩
      · rw [expectType_eq_nil.mp herrors] at hfalse
        cases hfalse
      · have hmatches : rhs.tyOrAny.matchesOneOf (compoundOperands binary) = true :=
          expectOneOf_eq_nil.mp herrors
        rw [hmatches] at hfalse
        cases hfalse
    have hsame : checkAssignment registry op lhs'.tyOrAny rhs'.tyOrAny
        = checkAssignment registry op lhs.tyOrAny rhs.tyOrAny := by
      rw [hleft]
      rcases hr.tyOrAny with hright | hright
      · rw [hright]
      · rw [hright]
        exact checkAssignment_any hcheck
    unfold judgeAssign at herrors ⊢
    dsimp only at herrors ⊢
    rw [hsame]
    cases hfound : checkAssignment registry op lhs.tyOrAny rhs.tyOrAny with
    | ok ty => exact ⟨rfl, .inl rfl⟩
    | concat =>
      rw [hfound] at herrors
      exact ⟨expectConcatenable_weaker hr herrors, .inl rfl⟩
    | badLeft =>
      rw [hfound] at herrors
      cases herrors
    | badRight => exact (hcheck hfound).elim
  · unfold judgeAssign
    dsimp only
    rw [hleft, show checkAssignment registry op .any rhs'.tyOrAny = .ok .any from if_pos rfl]
    exact ⟨rfl, .inr rfl⟩

end

/-! ## Fields -/

namespace ExprEnv

variable (env : ExprEnv) {one two : Expr}

/-- A field of a target of the recovery type. -/
theorem selectField_any (node : Node) (name : String) (h : two.tyOrAny = .any) :
    env.selectField node two name = (.field { node with ty := some .any } two name none, []) := by
  unfold selectField
  dsimp only
  exact if_pos h

theorem selectField_weaker (node : Node) (name : String) (h : one.Weaker two)
    (herrors : (env.selectField node one name).2 = []) :
    (env.selectField node two name).2 = []
      ∧ (env.selectField node one name).1.Weaker (env.selectField node two name).1 := by
  rcases h.tyOrAny with hty | hty
  · unfold selectField at herrors ⊢
    rw [hty]
    dsimp only at herrors ⊢
    by_cases hany : one.tyOrAny = .any
    · rw [if_pos hany, if_pos hany]
      exact ⟨rfl, .inl rfl, id⟩
    · rw [if_neg hany] at herrors ⊢
      rw [if_neg hany]
      by_cases hlength : (name == "length" && env.registry.isArray one.tyOrAny) = true
      · rw [if_pos hlength, if_pos hlength]
        exact ⟨rfl, .inl rfl, id⟩
      · rw [if_neg hlength] at herrors ⊢
        rw [if_neg hlength]
        cases hfield : env.field? one.tyOrAny name with
        | none =>
          rw [hfield] at herrors
          cases herrors
        | some field =>
          dsimp only
          by_cases hstatic : field.isStatic = true
          · rw [if_pos hstatic, if_pos hstatic]
            exact ⟨rfl, .refl _⟩
          · rw [if_neg hstatic, if_neg hstatic]
            exact ⟨rfl, .inl rfl, id⟩
  · rw [env.selectField_any node name hty]
    exact ⟨rfl, .inr rfl, fun _ => rfl⟩

end ExprEnv

/-! ## Methods -/

/-- All methods of a name and an arity that a receiver may have return the same type, and all of
them are static or none is. -/
def ClassTable.Uniform (table : ClassTable) (registry : Registry) (name : String) (arity : Nat) :
    Prop :=
  ∀ ty, ∀ one ∈ table.candidates registry ty name arity,
    ∀ two ∈ table.candidates registry ty name arity,
      two.2.returnTy = one.2.returnTy ∧ two.2.isStatic = one.2.isStatic

/-- A name is uniform if the methods of all classes agree on it. -/
theorem ClassTable.uniform_of_classes {table : ClassTable} {name : String}
    (h : ∀ one ∈ table.classes.flatMap ClassInfo.methods,
      ∀ two ∈ table.classes.flatMap ClassInfo.methods, one.name = name → two.name = name →
        two.returnTy = one.returnTy ∧ two.isStatic = one.isStatic) (arity : Nat) :
    table.Uniform registry name arity := by
  have hmem : ∀ ty, ∀ pair ∈ table.candidates registry ty name arity,
      pair.2 ∈ table.classes.flatMap ClassInfo.methods ∧ pair.2.name = name := by
    intro ty pair hpair
    obtain ⟨info, hinfo, hmethod⟩ := List.mem_flatMap.mp hpair
    obtain ⟨method, hnamed, rfl⟩ := List.mem_map.mp hmethod
    obtain ⟨hlisted, hname⟩ := List.mem_filter.mp (List.mem_filter.mp hnamed).1
    obtain ⟨ancestor, -, hclass⟩ := List.mem_filterMap.mp hinfo
    exact ⟨List.mem_flatMap.mpr ⟨info, (mem_of_class? hclass).1, hlisted⟩, beq_iff_eq.mp hname⟩
  intro ty one hone two htwo
  obtain ⟨hlisted, hname⟩ := hmem ty one hone
  obtain ⟨hlisted', hname'⟩ := hmem ty two htwo
  exact h one.2 hlisted two.2 hlisted' hname hname'

/-- Types of which some have become the recovery type. -/
def WeakerTypes (one two : List Ty) : Prop :=
  List.Forall₂ (fun ty ty' => ty' = ty ∨ ty' = Ty.any) one two

section

variable {args args' : List Ty}

theorem acceptsExactly_weaker (h : WeakerTypes args args') {method : MethodEntry}
    (haccepts : method.acceptsExactly args = true) : method.acceptsExactly args' = true := by
  unfold MethodEntry.acceptsExactly at haccepts ⊢
  generalize method.params = params at haccepts ⊢
  induction h generalizing params with
  | nil => exact haccepts
  | cons hfirst _ ih =>
    cases params with
    | nil => rfl
    | cons param params =>
      simp only [List.zip_cons_cons, List.all_cons, Bool.and_eq_true] at haccepts ⊢
      refine ⟨?_, ih _ haccepts.2⟩
      rcases hfirst with rfl | rfl
      · exact haccepts.1
      · exact Ty.matchesExpected_any param

theorem Registry.isAssignableFrom_any (registry : Registry) (target : Ty) :
    registry.isAssignableFrom target .any = true := by
  unfold isAssignableFrom isAssignableWithin
  exact if_pos (.inr (.inr rfl))

theorem acceptsWidened_weaker (h : WeakerTypes args args') {method : MethodEntry}
    (haccepts : method.acceptsWidened registry args = true) :
    method.acceptsWidened registry args' = true := by
  unfold MethodEntry.acceptsWidened at haccepts ⊢
  generalize method.params = params at haccepts ⊢
  induction h generalizing params with
  | nil => exact haccepts
  | cons hfirst _ ih =>
    cases params with
    | nil => rfl
    | cons param params =>
      simp only [List.zip_cons_cons, List.all_cons, Bool.and_eq_true] at haccepts ⊢
      refine ⟨?_, ih _ haccepts.2⟩
      rcases hfirst with rfl | rfl
      · exact haccepts.1
      · exact registry.isAssignableFrom_any param

/-- A look-up with weaker arguments finds a method, and one like the method that it found before if
all candidates are alike. -/
theorem ClassTable.lookupMethod?_weaker (table : ClassTable) {ty : Ty} {name : String}
    {method : MethodRef} (h : WeakerTypes args args')
    (huniform : table.Uniform registry name args.length)
    (hfound : table.lookupMethod? registry ty name args = some method) :
    ∃ other, table.lookupMethod? registry ty name args' = some other
      ∧ other.returnTy = method.returnTy ∧ other.isStatic = method.isStatic := by
  have hlength : args'.length = args.length := h.length_eq.symm
  unfold lookupMethod? at hfound ⊢
  rw [hlength]
  dsimp only at hfound ⊢
  generalize hlist : table.candidates registry ty name args.length = candidates at hfound ⊢
  obtain ⟨chosen, hchosen, rfl⟩ := Option.map_eq_some_iff.mp hfound
  have hmem : chosen ∈ candidates := by
    rcases Option.or_eq_some_iff.mp hchosen with hexact | ⟨-, hwidened⟩
    · exact List.mem_of_find?_eq_some hexact
    · exact List.mem_of_find?_eq_some hwidened
  have hsome : ((candidates.find? fun pair => pair.2.acceptsExactly args').or
      (candidates.find? fun pair => pair.2.acceptsWidened registry args')).isSome = true := by
    rw [Option.isSome_or, Bool.or_eq_true, List.find?_isSome, List.find?_isSome]
    rcases Option.or_eq_some_iff.mp hchosen with hexact | ⟨-, hwidened⟩
    · have haccepts := List.find?_some hexact
      exact .inl ⟨chosen, hmem, acceptsExactly_weaker h haccepts⟩
    · have haccepts := List.find?_some hwidened
      exact .inr ⟨chosen, hmem, acceptsWidened_weaker h haccepts⟩
  obtain ⟨other, hother⟩ := Option.isSome_iff_exists.mp hsome
  have hmem' : other ∈ candidates := by
    rcases Option.or_eq_some_iff.mp hother with hexact | ⟨-, hwidened⟩
    · exact List.mem_of_find?_eq_some hexact
    · exact List.mem_of_find?_eq_some hwidened
  subst hlist
  obtain ⟨hreturn, hstatic⟩ := huniform ty chosen hmem other hmem'
  refine ⟨_, Option.map_eq_some_iff.mpr ⟨other, hother, rfl⟩, hreturn, hstatic⟩

end

namespace ExprEnv

variable (env : ExprEnv)

/-- A call on a receiver of the recovery type. -/
theorem selectMethod_any (receiver : Receiver) (node : Node) (target : Option Expr) (name : String)
    (args : List Expr) (h : receiver.ty = .any) :
    env.selectMethod receiver node target name args
      = (.call { node with ty := some .any } target name args none, []) := if_pos h

/-- A call whose arguments have become weaker, on the same receiver. The types of the arguments are
the same, or all methods of the name and the arity are alike. -/
theorem selectMethod_weaker {receiver : Receiver} {node : Node} {target target' : Option Expr}
    {name : String} {args args' : List Expr}
    (htypes : args'.map Expr.tyOrAny = args.map Expr.tyOrAny
      ∨ WeakerTypes (args.map Expr.tyOrAny) (args'.map Expr.tyOrAny)
        ∧ env.classes.Uniform env.registry name args.length)
    (herrors : (env.selectMethod receiver node target name args).2 = []) :
    (env.selectMethod receiver node target' name args').2 = []
      ∧ (env.selectMethod receiver node target name args).1.Weaker
        (env.selectMethod receiver node target' name args').1 := by
  unfold selectMethod at herrors ⊢
  by_cases hany : receiver.ty = .any
  · rw [if_pos hany, if_pos hany]
    exact ⟨rfl, .inl rfl, id⟩
  · rw [if_neg hany] at herrors ⊢
    rw [if_neg hany]
    dsimp only at herrors ⊢
    cases hmethod : env.method? receiver.ty name (args.map Expr.tyOrAny) with
    | none =>
      rw [hmethod] at herrors
      cases herrors
    | some method =>
      have hother : ∃ other, env.method? receiver.ty name (args'.map Expr.tyOrAny) = some other
          ∧ other.returnTy = method.returnTy ∧ other.isStatic = method.isStatic := by
        rcases htypes with htypes | ⟨hweaker, huniform⟩
        · exact ⟨method, htypes ▸ hmethod, rfl, rfl⟩
        · refine env.classes.lookupMethod?_weaker hweaker ?_ hmethod
          rwa [List.length_map]
      obtain ⟨other, hfound, hreturn, hstatic⟩ := hother
      rw [hmethod] at herrors
      rw [hfound]
      dsimp only at herrors ⊢
      rw [hreturn, hstatic]
      refine ⟨?_, .inl rfl, id⟩
      split
      · next hbad =>
        rw [if_pos hbad] at herrors
        cases herrors
      · rfl

end ExprEnv

end ClassCompiler
