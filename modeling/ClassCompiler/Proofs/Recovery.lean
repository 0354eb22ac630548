import ClassCompiler.Proofs.Body.Returns
import ClassCompiler.Proofs.Body.Weaker
import ClassCompiler.Proofs.Compiler

/-!
# Recovery from a mistake

A name that cannot be resolved is reported, and its type is `any` from there on. The expression
around it is analyzed as if nothing had happened: its type is the one that it would have had, or
`any` in turn. The one rule that may go astray is the choice between overloads, since an argument of
type `any` fits the first of them.

* `Expr.Misread`: an expression with a misspelt name
* `Check.Adds`: a step that reports more than another one, and does the same
* `Expr.one_error`
-/

namespace ClassCompiler

open Check

/-! ## Steps that report more -/

namespace Check

variable {σ α β : Type}

/-- Where the first step reports nothing, the second one reports these errors, leaves the same
state, and answers with a related value. The states are those that satisfy `P`, which goes on. -/
def Adds (errors : List CompileError) (P : σ → Prop) (R : α → α → Prop) (one two : Check σ α) :
    Prop :=
  ∀ state, P state → (one.run state).errors = [] →
    (two.run state).errors = errors ∧ (two.run state).state = (one.run state).state
      ∧ P (one.run state).state ∧ R (one.run state).value (two.run state).value

variable {errors : List CompileError} {P : σ → Prop} {R : α → α → Prop} {S : β → β → Prop}

theorem adds_note {a b : α} {found found' : List CompileError}
    (h : found = [] → found' = [] ∧ R a b) :
    Adds [] P R (note a found : Check σ α) (note b found') := by
  intro state hstate hclean
  obtain ⟨hfound, hrel⟩ := h hclean
  exact ⟨hfound, rfl, hstate, hrel⟩

theorem adds_pure {a b : α} (h : R a b) : Adds [] P R (pure a : Check σ α) (pure b) :=
  fun _ hstate _ => ⟨rfl, rfl, hstate, h⟩

/-- The errors come from the first of two steps. -/
theorem adds_bind {first first' : Check σ α} {next next' : α → Check σ β}
    (h : Adds errors P R first first') (hnext : ∀ a b, R a b → Adds [] P S (next a) (next' b)) :
    Adds errors P S (first >>= next) (first' >>= next') := by
  intro state hstate hclean
  rw [run_bind] at hclean
  obtain ⟨hone, htwo⟩ := List.append_eq_nil_iff.mp hclean
  obtain ⟨herrors, hsame, hlater, hrel⟩ := h state hstate hone
  obtain ⟨herrors', hsame', hlast, hrel'⟩ := hnext _ _ hrel _ hlater htwo
  rw [run_bind, run_bind, hsame]
  refine ⟨?_, hsame', hlast, hrel'⟩
  rw [herrors, herrors', List.append_nil]

/-- The errors come from what follows a step. -/
theorem adds_then {step : Check σ α} {next next' : α → Check σ β}
    (hkeeps : ∀ state, P state → P (step.run state).state)
    (hnext : ∀ a, Adds errors P S (next a) (next' a)) :
    Adds errors P S (step >>= next) (step >>= next') := by
  intro state hstate hclean
  rw [run_bind] at hclean
  obtain ⟨hone, htwo⟩ := List.append_eq_nil_iff.mp hclean
  obtain ⟨herrors, hsame, hlast, hrel⟩ := hnext _ _ (hkeeps state hstate) htwo
  rw [run_bind, run_bind]
  refine ⟨?_, hsame, hlast, hrel⟩
  rw [hone, herrors, List.nil_append]

/-- Where the first condition fails, the first step reports an error. -/
theorem adds_ite {p q : Prop} [Decidable p] [Decidable q] {one two other other' : Check σ α}
    (hpq : p → q) (h : p → Adds errors P R one two)
    (hother : ∀ state, (other.run state).errors ≠ []) :
    Adds errors P R (if p then one else other) (if q then two else other') := by
  by_cases hp : p
  · rw [if_pos hp, if_pos (hpq hp)]
    exact h hp
  · rw [if_neg hp]
    exact fun state _ hclean => absurd hclean (hother state)

end Check

/-! ## Misspelt names -/

namespace Expr

/-- The second expression is the first one with `text` in place of a name whose value is read, on
the given line. `calls` are the calls that have the name in an argument, with their names and the
numbers of their arguments. The name that an assignment or `++` writes to is not read. -/
inductive Misread (text : String) (line : Nat) :
    List (String × Nat) → Expr → Expr → Prop
  | name {n : Node} (known : String) (binding : Option Binding) (h : n.line = line) :
      Misread text line [] (.name n known binding) (.name n text binding)
  | field {calls e e'} (n : Node) (name : String) (ref : Option FieldRef)
      (h : Misread text line calls e e') :
      Misread text line calls (.field n e name ref) (.field n e' name ref)
  | array {calls e e'} (n : Node) (position : Expr) (h : Misread text line calls e e') :
      Misread text line calls (.index n e position) (.index n e' position)
  | position {calls e e'} (n : Node) (array : Expr) (h : Misread text line calls e e') :
      Misread text line calls (.index n array e) (.index n array e')
  | length {calls e e'} (n : Node) (h : Misread text line calls e e') :
      Misread text line calls (.length n e) (.length n e')
  | unary {calls e e'} (n : Node) (op : UnaryOp) (h : Misread text line calls e e') :
      Misread text line calls (.unary n op e) (.unary n op e')
  | not {calls e e'} (n : Node) (h : Misread text line calls e e') :
      Misread text line calls (.not n e) (.not n e')
  | binaryLeft {calls e e'} (n : Node) (op : BinaryOp) (rhs : Expr)
      (h : Misread text line calls e e') :
      Misread text line calls (.binary n op e rhs) (.binary n op e' rhs)
  | binaryRight {calls e e'} (n : Node) (op : BinaryOp) (lhs : Expr)
      (h : Misread text line calls e e') :
      Misread text line calls (.binary n op lhs e) (.binary n op lhs e')
  | compareLeft {calls e e'} (n : Node) (op : CompareOp) (rhs : Expr)
      (h : Misread text line calls e e') :
      Misread text line calls (.compare n op e rhs) (.compare n op e' rhs)
  | compareRight {calls e e'} (n : Node) (op : CompareOp) (lhs : Expr)
      (h : Misread text line calls e e') :
      Misread text line calls (.compare n op lhs e) (.compare n op lhs e')
  | equalityLeft {calls e e'} (n : Node) (op : EqualityOp) (rhs : Expr)
      (h : Misread text line calls e e') :
      Misread text line calls (.equality n op e rhs) (.equality n op e' rhs)
  | equalityRight {calls e e'} (n : Node) (op : EqualityOp) (lhs : Expr)
      (h : Misread text line calls e e') :
      Misread text line calls (.equality n op lhs e) (.equality n op lhs e')
  | logicalLeft {calls e e'} (n : Node) (op : LogicalOp) (rhs : Expr)
      (h : Misread text line calls e e') :
      Misread text line calls (.logical n op e rhs) (.logical n op e' rhs)
  | logicalRight {calls e e'} (n : Node) (op : LogicalOp) (lhs : Expr)
      (h : Misread text line calls e e') :
      Misread text line calls (.logical n op lhs e) (.logical n op lhs e')
  | concatLeft {calls e e'} (n : Node) (rhs : Expr) (h : Misread text line calls e e') :
      Misread text line calls (.concat n e rhs) (.concat n e' rhs)
  | concatRight {calls e e'} (n : Node) (lhs : Expr) (h : Misread text line calls e e') :
      Misread text line calls (.concat n lhs e) (.concat n lhs e')
  | assigned {calls e e'} (n : Node) (op : AssignOp) (rhs : Expr)
      (h : Misread text line calls e e') (hpart : e.simpleName? = none) :
      Misread text line calls (.assign n op e rhs) (.assign n op e' rhs)
  | value {calls e e'} (n : Node) (op : AssignOp) (lhs : Expr)
      (h : Misread text line calls e e') :
      Misread text line calls (.assign n op lhs e) (.assign n op lhs e')
  | increment {calls e e'} (n : Node) (op : IncrementOp) (h : Misread text line calls e e')
      (hpart : e.simpleName? = none) :
      Misread text line calls (.increment n op e) (.increment n op e')
  | receiver {calls e e'} (n : Node) (name : String) (args : List Expr)
      (method : Option MethodRef) (h : Misread text line calls e e') :
      Misread text line calls (.call n (some e) name args method)
        (.call n (some e') name args method)
  | argument {calls e e'} (n : Node) (target : Option Expr) (name : String)
      (before after : List Expr) (method : Option MethodRef)
      (h : Misread text line calls e e') :
      Misread text line ((name, (before ++ e :: after).length) :: calls)
        (.call n target name (before ++ e :: after) method)
        (.call n target name (before ++ e' :: after) method)

variable {env : ExprEnv} {text : String} {line : Nat} {calls : List (String × Nat)} {e e' : Expr}

/-! ## Chains of names -/

theorem headOf_append (name rest : String) :
    ExprEnv.headOf (name ++ "." ++ rest) = ExprEnv.headOf name := by
  have htake : ∀ l r : List Char,
      (l ++ '.' :: r).takeWhile (fun c => c ≠ '.') = l.takeWhile fun c => c ≠ '.' := by
    intro l r
    induction l with
    | nil => simp
    | cons first rest ih => rw [List.cons_append, List.takeWhile_cons, List.takeWhile_cons, ih]
  unfold ExprEnv.headOf
  rw [String.toList_append, String.toList_append, List.append_assoc]
  exact congrArg String.ofList (htake name.toList rest.toList)

/-- A chain of names with a misspelt name begins with it. -/
theorem Misread.headOf_chain (h : Misread text line calls e e') {chain : String}
    (hchain : e'.qualifiedName? = some chain) : ExprEnv.headOf chain = ExprEnv.headOf text := by
  induction h generalizing chain with
  | name known binding =>
    cases binding with
    | none =>
      cases hchain
      rfl
    | some binding => cases hchain
  | field n name ref _ ih =>
    obtain ⟨inner, hinner, rfl⟩ := Option.map_eq_some_iff.mp hchain
    rw [headOf_append]
    exact ih hinner
  | _ => cases hchain

/-- No chain of names in the expression that begins with the text names a class. -/
def NoType (env : ExprEnv) (text : String) (e : Expr) : Prop :=
  ∀ d ∈ e.nodes, ∀ chain ∈ d.qualifiedName?,
    ExprEnv.headOf chain = ExprEnv.headOf text → env.registry.lookup? chain = none

instance : Decidable (NoType env text e) := List.decidableBAll _ _

theorem NoType.child {c : Expr} (h : NoType env text e) (hc : c ∈ e.children) :
    NoType env text c := fun d hd => h d (mem_nodes.mpr (.inr ⟨c, hc, hd⟩))

theorem Misread.typeQualifier? (h : Misread text line calls e e') (htype : NoType env text e')
    (scope : Scope) : env.typeQualifier? scope e' = none := by
  unfold ExprEnv.typeQualifier?
  cases hchain : e'.qualifiedName? with
  | none => rfl
  | some chain =>
    have hlookup := htype e' (mem_nodes_self e') chain hchain (h.headOf_chain hchain)
    simp only [Option.bind_eq_bind, Option.bind_some, hlookup, Option.bind_none, ite_self]

theorem tyOrAny_eq_any {t : Expr} (h : t.ty = some .any) : t.tyOrAny = .any := by
  unfold tyOrAny
  rw [h]
  rfl

/-- A misspelt name is reported. -/
theorem check_unknown (hfield : env.field? env.owner text = none) (n : Node)
    (binding : Option Binding) {scope : Scope} (hscope : scope.lookup? text = none) :
    ((name n text binding).check env).run scope
      = { value := ExprEnv.unboundName n text, state := scope
          errors := [.unknownVariable text n.line] } := by
  unfold check ExprEnv.readName ExprEnv.bindName ExprEnv.uninitializedErrors
  simp only [run_bind, run_read, run_note, hscope, hfield, List.nil_append, List.append_nil]

/-- A misspelt chain of names is reported once, whatever it was before. -/
theorem Misread.check_chain (hfield : env.field? env.owner text = none)
    (h : Misread text line calls e e') (htype : NoType env text e')
    (hchain : e.qualifiedName?.isSome = true) {scope : Scope}
    (hscope : scope.lookup? text = none) :
    ((e'.check env).run scope).errors = [.unknownVariable text line]
      ∧ ((e'.check env).run scope).state = scope
      ∧ ((e'.check env).run scope).value.ty = some .any := by
  induction h with
  | name known binding hline =>
    rw [check_unknown hfield _ binding hscope, hline]
    exact ⟨rfl, rfl, rfl⟩
  | @field _ inner inner' n name ref h ih =>
    have htype' := htype.child (c := inner') List.mem_cons_self
    have hinner : inner.qualifiedName?.isSome = true := by
      unfold qualifiedName? at hchain
      rwa [Option.isSome_map] at hchain
    obtain ⟨herrors, hstate, hty⟩ := ih htype' hinner
    unfold check
    rw [run_bind, run_read, h.typeQualifier? htype' scope]
    simp only [run_bind, run_note, env.selectField_any n name (tyOrAny_eq_any hty)]
    exact ⟨by rw [herrors]; rfl, hstate, rfl⟩
  | _ => cases hchain

/-! ## Scopes -/

def StaysUnknown (text : String) (before after : Scope) : Prop :=
  before.lookup? text = none → after.lookup? text = none

instance : IsPreorder Scope (StaysUnknown text) where
  refl _ := id
  trans _ _ _ h h' := h' ∘ h

theorem staysUnknown_mark (scope : Scope) (name : String) :
    StaysUnknown text scope (scope.markInitialized name) := by
  intro hscope
  unfold Scope.lookup? Scope.markInitialized at *
  rw [Table.get?_modify]
  split
  · rw [hscope]
    rfl
  · exact hscope

theorem check_staysUnknown (env : ExprEnv) (e : Expr) :
    (e.check env).Keeps (StaysUnknown text) := check_keeps staysUnknown_mark env e

theorem markAssigned_staysUnknown (target : Expr) :
    target.markAssigned.Keeps (StaysUnknown text) := by
  unfold markAssigned
  split
  · next name _ => exact fun scope => staysUnknown_mark scope name
  · exact keeps_pure _

/-! ## Targets -/

theorem Weaker.asTarget {a a' given given' : Expr} (h : a.Weaker a') :
    (asTarget given a).Weaker (asTarget given' a') := by
  have hty : ∀ (given a : Expr), (Expr.asTarget given a).ty = a.ty := by
    intro given a
    unfold Expr.asTarget markStatement Expr.ty
    split
    · rw [node_withNode]
    · rfl
  have hplace : ∀ (given a : Expr), (Expr.asTarget given a).isAssignable = a.isAssignable := by
    intro given a
    unfold Expr.asTarget markStatement
    split
    · cases a <;> rfl
    · rfl
  refine ⟨?_, ?_⟩
  · rw [hty, hty]
    exact h.ty
  · rw [hplace, hplace]
    exact h.isAssignable

theorem Misread.simpleName? (h : Misread text line calls e e') (hpart : e.simpleName? = none) :
    e'.simpleName? = none := by
  cases h with
  | name => cases hpart
  | _ => rfl

/-! ## Expressions with a misspelt name -/

/-- The analysis of the second expression adds one error to that of the first one. -/
abbrev AddsError (text : String) (line : Nat) (one two : Check Scope Expr) : Prop :=
  Adds [.unknownVariable text line] (fun scope => scope.lookup? text = none) Weaker one two

/-- The two have the same errors. -/
abbrev AddsNothing (text : String) (one two : Check Scope Expr) : Prop :=
  Adds [] (fun scope => scope.lookup? text = none) Weaker one two

section

variable {l l' r r' : Expr} {join join' : Expr → Expr → Check Scope Expr}

/-- An operator with a misspelt name on its left side. -/
theorem addsError_left (h : AddsError text line (l.check env) (l'.check env))
    (hjoin : ∀ a a' b b', Weaker a a' → Weaker b b' → AddsNothing text (join a b) (join' a' b')) :
    AddsError text line (do let l ← l.check env; let r ← r.check env; join l r)
      (do let l ← l'.check env; let r ← r.check env; join' l r) := by
  refine adds_bind h fun a a' ha => adds_then (check_staysUnknown env r) fun b => ?_
  exact hjoin a a' b b ha (.refl b)

/-- An operator with a misspelt name on its right side. -/
theorem addsError_right (h : AddsError text line (r.check env) (r'.check env))
    (hjoin : ∀ a a' b b', Weaker a a' → Weaker b b' → AddsNothing text (join a b) (join' a' b')) :
    AddsError text line (do let l ← l.check env; let r ← r.check env; join l r)
      (do let l ← l.check env; let r ← r'.check env; join' l r) := by
  refine adds_then (check_staysUnknown env l) fun a => adds_bind h fun b b' hb => ?_
  exact hjoin a a b b' (.refl a) hb

end

/-- A judged node on top of operands that have become weaker. -/
theorem adds_judged {one two : Judgement} {a b : Expr} (h : one.Weaker two) (hone : a.ty = one.ty)
    (htwo : b.ty = two.ty) (hplace : a.isAssignable = true → b.isAssignable = true) :
    AddsNothing text (Check.note a one.errors) (Check.note b two.errors) := by
  refine adds_note fun herrors => ?_
  obtain ⟨herrors', hty⟩ := h herrors
  rw [← hone, ← htwo] at hty
  exact ⟨herrors', hty, hplace⟩

/-- `+` on operands that have become weaker, which need not be a concatenation any more. -/
theorem adds_binary (n : Node) (op : BinaryOp) {a a' b b' : Expr} (ha : Weaker a a')
    (hb : Weaker b b') :
    AddsNothing text
      (if isConcatenation op a b then
        Check.note (concat (judged n (judgeConcat a b)) a b) (judgeConcat a b).errors
      else Check.note (binary (judged n (judgeBinary env.registry op a b n.line)) op a b)
        (judgeBinary env.registry op a b n.line).errors)
      (if isConcatenation op a' b' then
        Check.note (concat (judged n (judgeConcat a' b')) a' b') (judgeConcat a' b').errors
      else Check.note (binary (judged n (judgeBinary env.registry op a' b' n.line)) op a' b')
        (judgeBinary env.registry op a' b' n.line).errors) := by
  cases hsum : isConcatenation op a b with
  | false =>
    rw [isConcatenation_of_weaker ha hb hsum]
    exact adds_judged (judgeBinary_weaker ha hb op) rfl rfl id
  | true =>
    cases hsum' : isConcatenation op a' b' with
    | true =>
      exact adds_judged (judgeConcat_weaker ha hb) rfl rfl id
    | false =>
      have hany := isConcatenation_weaker ha hb hsum hsum'
      have hjudge : judgeBinary env.registry op a' b' n.line = ⟨some .any, []⟩ := if_pos hany
      refine adds_note fun _ => ?_
      rw [hjudge]
      exact ⟨rfl, .inr rfl, fun h => by cases h⟩

/-- A part that may be a class name: with a misspelt name in it, it is none, and is analyzed. -/
theorem addsError_part {β : Type} {S : β → β → Prop} {next : Ty → Check Scope β}
    {join join' : Expr → Check Scope β} (hfield : env.field? env.owner text = none)
    (h : Misread text line calls e e') (htype : NoType env text e')
    (hcheck : AddsError text line (e.check env) (e'.check env))
    (hnext : ∀ owner t, t.ty = some Ty.any →
      Adds [] (fun scope => scope.lookup? text = none) S (next owner) (join' t))
    (hjoin : ∀ t t', Weaker t t' →
      Adds [] (fun scope => scope.lookup? text = none) S (join t) (join' t')) :
    Adds [.unknownVariable text line] (fun scope => scope.lookup? text = none) S
      (do
        match ← Check.read fun scope => env.typeQualifier? scope e with
        | some owner => next owner
        | none => do let t ← e.check env; join t)
      (do
        match ← Check.read fun scope => env.typeQualifier? scope e' with
        | some owner => next owner
        | none => do let t ← e'.check env; join' t) := by
  intro scope hscope hclean
  have hnone := h.typeQualifier? htype scope
  rw [run_bind, run_read] at hclean
  rw [run_bind, run_read, run_bind, run_read, hnone]
  dsimp only [List.nil_append] at hclean ⊢
  cases hfound : env.typeQualifier? scope e with
  | none =>
    rw [hfound] at hclean
    exact adds_bind hcheck hjoin scope hscope hclean
  | some owner =>
    have hchain : e.qualifiedName?.isSome = true := by
      unfold ExprEnv.typeQualifier? at hfound
      obtain ⟨chain, hchain, -⟩ := Option.bind_eq_some_iff.mp hfound
      rw [hchain]
      rfl
    obtain ⟨herrors, hstate, hty⟩ := h.check_chain hfield htype hchain hscope
    rw [hfound] at hclean
    obtain ⟨herrors', hrest⟩ := hnext owner _ hty scope hscope hclean
    dsimp only
    rw [run_bind, hstate]
    refine ⟨?_, hrest⟩
    rw [herrors, herrors', List.append_nil]

/-- The target of an assignment or `++`, with a misspelt name inside it. -/
theorem addsError_target (h : Misread text line calls e e') (hpart : e.simpleName? = none)
    (hcheck : AddsError text line (e.check env) (e'.check env)) :
    Adds [.unknownVariable text line] (fun scope => scope.lookup? text = none)
      (fun l l' => Weaker l l' ∧ l.local? = none ∧ l'.local? = none)
      (checkTarget env e) (checkTarget env e') := by
  have hlocal : ∀ (given : Expr), given.simpleName? = none → ∀ scope,
      (asTarget given ((given.check env).run scope).value).local? = none := by
    intro given hgiven scope
    unfold asTarget markStatement
    split
    · rw [local?_withNode]
      exact local?_check hgiven scope
    · exact local?_check hgiven scope
  unfold checkTarget
  rw [hpart, h.simpleName? hpart]
  intro scope hscope hclean
  rw [← bind_pure_comp, run_bind, run_pure] at hclean
  obtain ⟨herrors, hstate, hlater, hweaker⟩ :=
    hcheck scope hscope (List.append_eq_nil_iff.mp hclean).1
  rw [← bind_pure_comp, ← bind_pure_comp, run_bind, run_bind, run_pure, run_pure]
  refine ⟨by rw [herrors, List.append_nil], hstate, hlater, hweaker.asTarget, hlocal e hpart scope,
    hlocal e' (h.simpleName? hpart) scope⟩

/-- A list of arguments with a misspelt name in one of them. -/
theorem addsError_list (before after : List Expr)
    (hcheck : AddsError text line (e.check env) (e'.check env)) :
    Adds [.unknownVariable text line] (fun scope => scope.lookup? text = none)
      (fun args args' => List.Forall₂ Weaker args args'
        ∧ args.length = (before ++ e :: after).length)
      (checkList env (before ++ e :: after)) (checkList env (before ++ e' :: after)) := by
  have hrest : ∀ es : List Expr, Adds [] (fun scope : Scope => scope.lookup? text = none)
      (fun args args' => List.Forall₂ Weaker args args' ∧ args.length = es.length)
      (checkList env es) (checkList env es) := by
    intro es
    induction es with
    | nil => exact adds_pure ⟨.nil, rfl⟩
    | cons first rest ih =>
      exact adds_then (check_staysUnknown env first) fun a => adds_bind ih fun args args' h =>
        adds_pure ⟨.cons (.refl a) h.1, congrArg (· + 1) h.2⟩
  induction before with
  | nil =>
    exact adds_bind hcheck fun a a' ha => adds_bind (hrest after) fun args args' h =>
      adds_pure ⟨.cons ha h.1, congrArg (· + 1) h.2⟩
  | cons first rest ih =>
    exact adds_then (check_staysUnknown env first) fun a => adds_bind ih fun args args' h =>
      adds_pure ⟨.cons (.refl a) h.1, congrArg (· + 1) h.2⟩

theorem weakerTypes_of_weaker {args args' : List Expr} (h : List.Forall₂ Weaker args args') :
    WeakerTypes (args.map tyOrAny) (args'.map tyOrAny) := by
  unfold WeakerTypes
  rw [List.forall₂_map_left_iff, List.forall₂_map_right_iff]
  exact h.imp fun _ _ hweaker => hweaker.tyOrAny

/-- The field of a part with a misspelt name. -/
theorem addsError_field (hfield : env.field? env.owner text = none)
    (h : Misread text line calls e e') (htype : NoType env text e')
    (hcheck : AddsError text line (e.check env) (e'.check env)) (n : Node) (name : String)
    (ref : Option FieldRef) :
    AddsError text line ((field n e name ref).check env) ((field n e' name ref).check env) := by
  rw [check_field, check_field]
  refine addsError_part hfield h htype hcheck (fun owner t hty => ?_) fun t t' ht =>
    adds_note fun herrors => env.selectField_weaker n name ht herrors
  rw [env.selectField_any n name (tyOrAny_eq_any hty)]
  exact adds_note fun _ => ⟨rfl, .inr rfl, fun _ => rfl⟩

/-- An assignment to a place with a misspelt name inside it. -/
theorem addsError_assigned (h : Misread text line calls e e') (hpart : e.simpleName? = none)
    (hcheck : AddsError text line (e.check env) (e'.check env)) (n : Node) (op : AssignOp)
    (rhs : Expr) :
    AddsError text line ((assign n op e rhs).check env) ((assign n op e' rhs).check env) := by
  rw [check_assign, check_assign]
  refine adds_bind (addsError_target h hpart hcheck) ?_
  rintro l l' ⟨hl, hlocal, hlocal'⟩
  refine adds_ite hl.isAssignable (fun _ => ?_) fun _ hclean => by cases hclean
  refine adds_then (check_staysUnknown env rhs) fun r => ?_
  unfold markAssigned
  rw [hlocal, hlocal']
  refine adds_then (fun _ hscope => hscope) fun _ => adds_note fun herrors => ?_
  obtain ⟨herrors', hty⟩ := judgeAssign_weaker hl (.refl r) op herrors
  exact ⟨herrors', hty, id⟩

/-- An assignment of a value with a misspelt name. -/
theorem addsError_value (hcheck : AddsError text line (e.check env) (e'.check env)) (n : Node)
    (op : AssignOp) (lhs : Expr) :
    AddsError text line ((assign n op lhs e).check env) ((assign n op lhs e').check env) := by
  rw [check_assign, check_assign]
  refine adds_then (checkTarget_keeps (check_staysUnknown env lhs)) fun l => ?_
  refine adds_ite id (fun _ => adds_bind hcheck fun r r' hr => ?_) fun _ hclean => by cases hclean
  refine adds_then (markAssigned_staysUnknown l) fun _ => adds_note fun herrors => ?_
  obtain ⟨herrors', hty⟩ := judgeAssign_weaker (.refl l) hr op herrors
  exact ⟨herrors', hty, id⟩

/-- An increment of a place with a misspelt name inside it. -/
theorem addsError_increment (h : Misread text line calls e e') (hpart : e.simpleName? = none)
    (hcheck : AddsError text line (e.check env) (e'.check env)) (n : Node) (op : IncrementOp) :
    AddsError text line ((increment n op e).check env) ((increment n op e').check env) := by
  rw [check_increment, check_increment]
  refine adds_bind (addsError_target h hpart hcheck) ?_
  rintro l l' ⟨hl, -, -⟩
  exact adds_ite hl.isAssignable (fun _ => adds_judged (judgeIncrement_weaker hl op) rfl rfl id)
    fun _ hclean => by cases hclean

theorem isAssignable_selectMethod (env : ExprEnv) (receiver : ExprEnv.Receiver) (n : Node)
    (target : Option Expr) (name : String) (args : List Expr) :
    (env.selectMethod receiver n target name args).1.isAssignable = false := by
  unfold ExprEnv.selectMethod
  dsimp only
  split
  · rfl
  · split <;> rfl

/-- A call on a receiver with a misspelt name. -/
theorem addsError_receiver (hfield : env.field? env.owner text = none)
    (h : Misread text line calls e e') (htype : NoType env text e')
    (hcheck : AddsError text line (e.check env) (e'.check env)) (n : Node) (name : String)
    (args : List Expr) (method : Option MethodRef) :
    AddsError text line ((call n (some e) name args method).check env)
      ((call n (some e') name args method).check env) := by
  rw [check_call, check_call]
  have hreceiver : Adds [.unknownVariable text line] (fun scope => scope.lookup? text = none)
      (fun one two => two.2.ty = Ty.any ∨ two.2 = one.2)
      (checkReceiver env (some e)) (checkReceiver env (some e')) := by
    refine addsError_part hfield h htype hcheck
      (fun owner t hty => adds_pure (.inl (tyOrAny_eq_any hty))) fun t t' ht => adds_pure ?_
    rcases ht.tyOrAny with hty | hty
    · exact .inr (by rw [hty])
    · exact .inl hty
  refine adds_bind hreceiver fun one two hrel =>
    adds_then (checkList_keeps fun a _ => check_staysUnknown env a) fun args => ?_
  refine adds_note fun herrors => ?_
  rcases hrel with hany | hsame
  · refine ⟨?_, ?_, fun hplace => ?_⟩
    · rw [env.selectMethod_any two.2 n two.1 name args hany]
    · rw [env.selectMethod_any two.2 n two.1 name args hany]
      exact .inr rfl
    · rw [isAssignable_selectMethod] at hplace
      cases hplace
  · rw [hsame]
    exact env.selectMethod_weaker (.inl rfl) herrors

/-- A call with an argument that has a misspelt name. -/
theorem addsError_argument (hcheck : AddsError text line (e.check env) (e'.check env)) (n : Node)
    (target : Option Expr) (name : String) (before after : List Expr) (method : Option MethodRef)
    (huniform : env.classes.Uniform env.registry name (before ++ e :: after).length) :
    AddsError text line ((call n target name (before ++ e :: after) method).check env)
      ((call n target name (before ++ e' :: after) method).check env) := by
  rw [check_call, check_call]
  refine adds_then (checkReceiver_keeps fun t _ => check_staysUnknown env t) fun receiver => ?_
  refine adds_bind (addsError_list before after hcheck) ?_
  rintro args args' ⟨hargs, hlength⟩
  refine adds_note fun herrors => env.selectMethod_weaker (.inr ⟨weakerTypes_of_weaker hargs, ?_⟩)
    herrors
  rw [hlength]
  exact huniform

/-- A misspelt name is the only error of an expression that was analyzed without one, if the calls
around it have uniform candidates. -/
theorem Misread.addsError (hfield : env.field? env.owner text = none)
    (h : Misread text line calls e e') (htype : NoType env text e')
    (hcalls : ∀ call ∈ calls, env.classes.Uniform env.registry call.1 call.2) :
    AddsError text line (e.check env) (e'.check env) := by
  induction h with
  | name known binding hline =>
    intro scope hscope hclean
    rw [check_unknown hfield _ binding hscope, hline]
    unfold check at hclean ⊢
    exact ⟨rfl, rfl, hscope, .inr rfl, fun _ => rfl⟩
  | @field _ e e' n name ref h ih =>
    have htype' : NoType env text e' := htype.child List.mem_cons_self
    exact addsError_field hfield h htype' (ih htype' hcalls) n name ref
  | array n position _ ih =>
    unfold check
    exact addsError_left (ih (htype.child List.mem_cons_self) hcalls) fun a a' b b' ha hb =>
      adds_judged (judgeIndex_weaker ha hb) rfl rfl fun _ => rfl
  | position n array _ ih =>
    unfold check
    exact addsError_right (ih (htype.child (by simp [children])) hcalls) fun a a' b b' ha hb =>
      adds_judged (judgeIndex_weaker ha hb) rfl rfl fun _ => rfl
  | length n _ ih =>
    unfold check
    exact adds_bind (ih (htype.child List.mem_cons_self) hcalls) fun a a' ha =>
      adds_judged (judgeLength_weaker ha) rfl rfl id
  | unary n op _ ih =>
    unfold check
    exact adds_bind (ih (htype.child List.mem_cons_self) hcalls) fun a a' ha =>
      adds_judged (judgeUnary_weaker ha op) rfl rfl id
  | not n _ ih =>
    unfold check
    exact adds_bind (ih (htype.child List.mem_cons_self) hcalls) fun a a' ha =>
      adds_note fun herrors => ⟨expectBoolean_weaker ha herrors, .inl rfl, id⟩
  | binaryLeft n op rhs _ ih =>
    unfold check
    exact addsError_left (ih (htype.child List.mem_cons_self) hcalls) fun a a' b b' ha hb =>
      adds_binary n op ha hb
  | binaryRight n op lhs _ ih =>
    unfold check
    exact addsError_right (ih (htype.child (by simp [children])) hcalls) fun a a' b b' ha hb =>
      adds_binary n op ha hb
  | compareLeft n op rhs _ ih =>
    unfold check
    exact addsError_left (ih (htype.child List.mem_cons_self) hcalls) fun a a' b b' ha hb =>
      adds_judged (judgeCompare_weaker ha hb) rfl rfl id
  | compareRight n op lhs _ ih =>
    unfold check
    exact addsError_right (ih (htype.child (by simp [children])) hcalls) fun a a' b b' ha hb =>
      adds_judged (judgeCompare_weaker ha hb) rfl rfl id
  | equalityLeft n op rhs _ ih =>
    unfold check
    exact addsError_left (ih (htype.child List.mem_cons_self) hcalls) fun a a' b b' ha hb =>
      adds_judged (judgeEquality_weaker ha hb) rfl rfl id
  | equalityRight n op lhs _ ih =>
    unfold check
    exact addsError_right (ih (htype.child (by simp [children])) hcalls) fun a a' b b' ha hb =>
      adds_judged (judgeEquality_weaker ha hb) rfl rfl id
  | logicalLeft n op rhs _ ih =>
    unfold check
    exact addsError_left (ih (htype.child List.mem_cons_self) hcalls) fun a a' b b' ha hb =>
      adds_judged (judgeLogical_weaker ha hb) rfl rfl id
  | logicalRight n op lhs _ ih =>
    unfold check
    exact addsError_right (ih (htype.child (by simp [children])) hcalls) fun a a' b b' ha hb =>
      adds_judged (judgeLogical_weaker ha hb) rfl rfl id
  | concatLeft n rhs _ ih =>
    unfold check
    exact addsError_left (ih (htype.child List.mem_cons_self) hcalls) fun a a' b b' ha hb =>
      adds_judged (judgeConcat_weaker ha hb) rfl rfl id
  | concatRight n lhs _ ih =>
    unfold check
    exact addsError_right (ih (htype.child (by simp [children])) hcalls) fun a a' b b' ha hb =>
      adds_judged (judgeConcat_weaker ha hb) rfl rfl id
  | assigned n op rhs h hpart ih =>
    exact addsError_assigned h hpart (ih (htype.child List.mem_cons_self) hcalls) n op rhs
  | value n op lhs _ ih =>
    exact addsError_value (ih (htype.child (by simp [children])) hcalls) n op lhs
  | increment n op h hpart ih =>
    exact addsError_increment h hpart (ih (htype.child List.mem_cons_self) hcalls) n op
  | @receiver _ e e' n name args method h ih =>
    have htype' : NoType env text e' := htype.child (by simp [children])
    exact addsError_receiver hfield h htype' (ih htype' hcalls) n name args method
  | @argument calls e e' n target name before after method h ih =>
    have htype' : NoType env text e' := htype.child (by simp [children])
    have hinner := ih htype' fun call hcall => hcalls call (List.mem_cons_of_mem _ hcall)
    exact addsError_argument hinner n target name before after method
      (hcalls _ List.mem_cons_self)

/-- A name that is no local, no field and no type, in the place of a name that is read: the
expression had no error before, and now it has one. Where the name stands in an argument of a call,
the methods that the call may mean are taken to agree on what they return and on being static. -/
theorem one_error (env : ExprEnv) (scope : Scope) (e e' : Expr) (text : String) (line : Nat)
    (calls : List (String × Nat)) (hclean : ((e.check env).run scope).errors = [])
    (hmisread : Misread text line calls e e') (hlocal : scope.lookup? text = none)
    (hfield : env.field? env.owner text = none) (htype : NoType env text e')
    (hcalls : ∀ call ∈ calls, env.classes.Uniform env.registry call.1 call.2) :
    ((e'.check env).run scope).errors = [.unknownVariable text line] :=
  (hmisread.addsError hfield htype hcalls scope hlocal hclean).1

end Expr

/-! ## A call in a sum -/

/-- `1 + method(text)` -/
def callSum (method text : String) : Expr :=
  .binary { line := 5 } .add (.literal { line := 5 } (.int 1))
    (.call { line := 5 } none method [.name { line := 5 } text none] none)

theorem misread_callSum (method known text : String) :
    Expr.Misread text 5 [(method, 1)] (callSum method known) (callSum method text) :=
  .binaryRight _ _ _ (.argument _ none method [] [] none (.name known none rfl))

/-- A static method of `Main` with one parameter of type `int`. -/
def parameterScope (name : String) : Scope := ((Scope.start .int [] true).allocate name .int true 4).2

/-- The surroundings of a body in the class `Main` of a unit. -/
def mainEnv (unit : CompilationUnit) : ExprEnv where
  classes := (Compiler.analysis {} unit).value.2.classes
  owner := Ty.named "Main"
  registry := (Compiler.analysis {} unit).state

theorem one_error_twice :
    (((callSum "twice" "i").check (mainEnv twiceUnit)).run (parameterScope "i")).errors = []
      ∧ Expr.Misread "z" 5 [("twice", 1)] (callSum "twice" "i") (callSum "twice" "z")
      ∧ (parameterScope "i").lookup? "z" = none
      ∧ (mainEnv twiceUnit).field? (mainEnv twiceUnit).owner "z" = none
      ∧ Expr.NoType (mainEnv twiceUnit) "z" (callSum "twice" "z")
      ∧ (∀ call ∈ [("twice", 1)], (mainEnv twiceUnit).classes.Uniform (mainEnv twiceUnit).registry
        call.1 call.2)
      ∧ (((callSum "twice" "z").check (mainEnv twiceUnit)).run (parameterScope "i")).errors
        = [.unknownVariable "z" 5] := by
  have hclean : (((callSum "twice" "i").check (mainEnv twiceUnit)).run
      (parameterScope "i")).errors = [] := by decide +kernel
  have hlocal : (parameterScope "i").lookup? "z" = none := by decide +kernel
  have hfield : (mainEnv twiceUnit).field? (mainEnv twiceUnit).owner "z" = none := by
    decide +kernel
  have htype : Expr.NoType (mainEnv twiceUnit) "z" (callSum "twice" "z") := by decide +kernel
  have hcalls : ∀ call ∈ [("twice", 1)], (mainEnv twiceUnit).classes.Uniform
      (mainEnv twiceUnit).registry call.1 call.2 := by
    intro call hcall
    rw [List.mem_singleton.mp hcall]
    exact ClassTable.uniform_of_classes (by decide +kernel) 1
  exact ⟨hclean, misread_callSum _ _ _, hlocal, hfield, htype, hcalls,
    Expr.one_error _ _ _ _ _ _ _ hclean (misread_callSum _ _ _) hlocal hfield htype hcalls⟩

/-- Two overloads that return different types, the one for `boolean` first:
`class Main { static boolean f(boolean b) { return b; } static int f(int n) { return n; } }` -/
def overloadUnit : CompilationUnit where
  file := "Main.java"
  package := none
  imports := []
  types :=
    [{ line := 1
       mods := .accPublic
       name := "Main"
       isInterface := false
       superclass := none
       interfaces := []
       members :=
        [.method
          { line := 2
            mods := .accStatic
            name := "f"
            returnType := ⟨"boolean", 0, 2⟩
            params := [⟨2, "b", ⟨"boolean", 0, 2⟩⟩]
            exceptions := []
            body := some ⟨[.ret (some (.name { line := 2 } "b" none)) 2], 2⟩ },
         .method
          { line := 3
            mods := .accStatic
            name := "f"
            returnType := ⟨"int", 0, 3⟩
            params := [⟨3, "n", ⟨"int", 0, 3⟩⟩]
            exceptions := []
            body := some ⟨[.ret (some (.name { line := 3 } "n" none)) 3], 3⟩ }] }]

/-- A misspelt argument selects the first overload, and the sum around it is refused as well. -/
theorem overload_adds_error :
    (((callSum "f" "i").check (mainEnv overloadUnit)).run (parameterScope "i")).errors = []
      ∧ Expr.Misread "z" 5 [("f", 1)] (callSum "f" "i") (callSum "f" "z")
      ∧ (parameterScope "i").lookup? "z" = none
      ∧ (mainEnv overloadUnit).field? (mainEnv overloadUnit).owner "z" = none
      ∧ (mainEnv overloadUnit).registry.lookup? "z" = none
      ∧ (((callSum "f" "z").check (mainEnv overloadUnit)).run (parameterScope "i")).errors
        = [.unknownVariable "z" 5, .inapplicableOperator "+" ["int", "boolean"] 5] :=
  ⟨by decide +kernel, misread_callSum _ _ _, by decide +kernel, by decide +kernel,
    by decide +kernel, by decide +kernel⟩

end ClassCompiler
