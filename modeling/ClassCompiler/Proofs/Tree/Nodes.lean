import ClassCompiler.Tree.Decl

/-!
# The nodes of a tree

Induction over expressions and statements, and the lists of all expressions that stand in a tree.
An expression nests in an option and in a list, so the induction principles give the hypothesis for
a receiver and for each argument; those of statements for each statement of a block and for an
`else`.

* `Expr.induction`, `Stmt.induction`
* `Expr.nodes`, `Stmt.nodes`, `MethodDecl.nodes`: every expression, the nested ones included
* `Expr.children`, `Expr.mem_nodes`: an expression with what stands directly in it
* `Stmt.roots`, `Stmt.children`, `Stmt.mem_nodes`: the same for a statement
* `Expr.Everywhere`, `Stmt.Everywhere`: a property of all expressions
* `Stmt.Inside`: a statement and all statements inside it
* `Stmt.decls`: every local declaration
-/

namespace ClassCompiler

/-! ## Induction -/

theorem Expr.induction {P : Expr → Prop}
    (literal : ∀ n value, P (.literal n value))
    (name : ∀ n text binding, P (.name n text binding))
    (self : ∀ n, P (.self n))
    (field : ∀ n target text ref, P target → P (.field n target text ref))
    (index : ∀ n array position, P array → P position → P (.index n array position))
    (length : ∀ n array, P array → P (.length n array))
    (unary : ∀ n op operand, P operand → P (.unary n op operand))
    (not : ∀ n operand, P operand → P (.not n operand))
    (binary : ∀ n op lhs rhs, P lhs → P rhs → P (.binary n op lhs rhs))
    (compare : ∀ n op lhs rhs, P lhs → P rhs → P (.compare n op lhs rhs))
    (equality : ∀ n op lhs rhs, P lhs → P rhs → P (.equality n op lhs rhs))
    (logical : ∀ n op lhs rhs, P lhs → P rhs → P (.logical n op lhs rhs))
    (concat : ∀ n lhs rhs, P lhs → P rhs → P (.concat n lhs rhs))
    (assign : ∀ n op lhs rhs, P lhs → P rhs → P (.assign n op lhs rhs))
    (increment : ∀ n op operand, P operand → P (.increment n op operand))
    (call : ∀ n target text args method, (∀ t, target = some t → P t) → (∀ a ∈ args, P a) →
      P (.call n target text args method))
    (e : Expr) : P e := by
  refine @Expr.rec P (fun target => ∀ t, target = some t → P t) (fun args => ∀ a ∈ args, P a)
    literal name self field index length unary not binary compare equality logical concat assign
    increment call ?_ ?_ ?_ ?_ e
  · intro t ht
    cases ht
  · intro t ih t' ht
    cases ht
    exact ih
  · intro a ha
    cases ha
  · intro first rest ihFirst ihRest a ha
    rcases List.mem_cons.mp ha with rfl | ha
    · exact ihFirst
    · exact ihRest a ha

theorem Stmt.induction {P : Stmt → Prop}
    (block : ∀ stmts line, (∀ s ∈ stmts, P s) → P (.block stmts line))
    (declare : ∀ decl, P (.declare decl))
    (expr : ∀ e line, P (.expr e line))
    (branch : ∀ condition onTrue onFalse line, P onTrue → (∀ s, onFalse = some s → P s) →
      P (.branch condition onTrue onFalse line))
    (whileLoop : ∀ condition body line, P body → P (.whileLoop condition body line))
    (forLoop : ∀ init condition update body line, P body →
      P (.forLoop init condition update body line))
    (ret : ∀ value line, P (.ret value line))
    (breakOut : ∀ line, P (.break line))
    (continueOn : ∀ line, P (.continue line))
    (empty : ∀ line, P (.empty line))
    (s : Stmt) : P s := by
  refine @Stmt.rec P (fun stmts => ∀ s ∈ stmts, P s) (fun stmt => ∀ s, stmt = some s → P s)
    block declare expr branch whileLoop forLoop ret breakOut continueOn empty ?_ ?_ ?_ ?_ s
  · intro s hs
    cases hs
  · intro first rest ihFirst ihRest s hs
    rcases List.mem_cons.mp hs with rfl | hs
    · exact ihFirst
    · exact ihRest s hs
  · intro s hs
    cases hs
  · intro s ih s' hs
    cases hs
    exact ih

/-! ## Nodes -/

namespace Expr

mutual

/-- The expression and all expressions inside it. -/
def nodes : Expr → List Expr
  | e@(literal _ _) => [e]
  | e@(name _ _ _) => [e]
  | e@(self _) => [e]
  | e@(field _ target _ _) => e :: target.nodes
  | e@(index _ array position) => e :: (array.nodes ++ position.nodes)
  | e@(length _ array) => e :: array.nodes
  | e@(unary _ _ operand) => e :: operand.nodes
  | e@(not _ operand) => e :: operand.nodes
  | e@(binary _ _ lhs rhs) => e :: (lhs.nodes ++ rhs.nodes)
  | e@(compare _ _ lhs rhs) => e :: (lhs.nodes ++ rhs.nodes)
  | e@(equality _ _ lhs rhs) => e :: (lhs.nodes ++ rhs.nodes)
  | e@(logical _ _ lhs rhs) => e :: (lhs.nodes ++ rhs.nodes)
  | e@(concat _ lhs rhs) => e :: (lhs.nodes ++ rhs.nodes)
  | e@(assign _ _ lhs rhs) => e :: (lhs.nodes ++ rhs.nodes)
  | e@(increment _ _ operand) => e :: operand.nodes
  | e@(call _ target _ args _) =>
    let receiver := match target with
      | none => []
      | some target => target.nodes
    e :: (receiver ++ nodesList args)

def nodesList : List Expr → List Expr
  | [] => []
  | first :: rest => first.nodes ++ nodesList rest

end

def isAssignment : Expr → Bool
  | assign .. => true
  | _ => false

theorem mem_nodesList {d : Expr} {es : List Expr} :
    d ∈ nodesList es ↔ ∃ e ∈ es, d ∈ e.nodes := by
  induction es with
  | nil => simp [nodesList]
  | cons first rest ih => simp [nodesList, ih]

/-- The expressions that stand directly in an expression. -/
def children : Expr → List Expr
  | literal _ _ | name _ _ _ | self _ => []
  | field _ target _ _ => [target]
  | length _ array => [array]
  | unary _ _ operand | not _ operand | increment _ _ operand => [operand]
  | index _ lhs rhs | binary _ _ lhs rhs | compare _ _ lhs rhs | equality _ _ lhs rhs
  | logical _ _ lhs rhs | concat _ lhs rhs | assign _ _ lhs rhs => [lhs, rhs]
  | call _ target _ args _ => target.toList ++ args

theorem children_withNode (n : Node) (e : Expr) : (e.withNode n).children = e.children := by
  cases e <;> rfl

theorem mem_nodes {d e : Expr} : d ∈ e.nodes ↔ d = e ∨ ∃ c ∈ e.children, d ∈ c.nodes := by
  cases e with
  | call n target text args method =>
    conv => lhs; unfold nodes
    cases target <;> simp [children, mem_nodesList]
  | _ => simp [nodes, children]

theorem mem_nodes_self (e : Expr) : e ∈ e.nodes := mem_nodes.mpr (.inl rfl)

/-- Induction that has the hypothesis for every child. -/
theorem induction_children {P : Expr → Prop} (h : ∀ e, (∀ c ∈ e.children, P c) → P e)
    (e : Expr) : P e := by
  have hone : ∀ a : Expr, P a → ∀ c ∈ [a], P c := by
    intro a ha c hc
    rw [List.mem_singleton.mp hc]
    exact ha
  have htwo : ∀ a b : Expr, P a → P b → ∀ c ∈ [a, b], P c := by
    intro a b ha hb c hc
    rcases List.mem_cons.mp hc with rfl | hc
    · exact ha
    · rw [List.mem_singleton.mp hc]
      exact hb
  induction e using Expr.induction with
  | literal | name | self => exact h _ fun _ hc => (List.not_mem_nil hc).elim
  | field _ _ _ _ ih | length _ _ ih | unary _ _ _ ih | not _ _ ih | increment _ _ _ ih =>
    exact h _ (hone _ ih)
  | index _ _ _ ihl ihr | binary _ _ _ _ ihl ihr | compare _ _ _ _ ihl ihr
  | equality _ _ _ _ ihl ihr | logical _ _ _ _ ihl ihr | concat _ _ _ ihl ihr
  | assign _ _ _ _ ihl ihr => exact h _ (htwo _ _ ihl ihr)
  | call n target text args method ihtarget ihargs =>
    refine h _ fun c hc => ?_
    rcases List.mem_append.mp hc with hc | hc
    · exact ihtarget c (Option.mem_toList.mp hc)
    · exact ihargs c hc

theorem nodes_subset {d e : Expr} (h : d ∈ e.nodes) : d.nodes ⊆ e.nodes := by
  induction e using induction_children with
  | h e ih =>
    rcases mem_nodes.mp h with rfl | ⟨c, hc, hd⟩
    · exact fun _ hx => hx
    · exact fun x hx => mem_nodes.mpr (.inr ⟨c, hc, ih c hc hd hx⟩)

end Expr

def LocalDecl.nodes (decl : LocalDecl) : List Expr :=
  decl.declarators.flatMap (fun declarator => Expr.nodesList declarator.init.toList)
    ++ Expr.nodesList decl.initializers

def ForInit.nodes : ForInit → List Expr
  | exprs es => Expr.nodesList es
  | decl d => d.nodes

namespace Stmt

mutual

/-- All expressions in a statement. -/
def nodes : Stmt → List Expr
  | block stmts _ => nodesList stmts
  | declare decl => decl.nodes
  | expr e _ => e.nodes
  | branch condition onTrue onFalse _ =>
    let otherwise := match onFalse with
      | none => []
      | some stmt => stmt.nodes
    condition.nodes ++ onTrue.nodes ++ otherwise
  | whileLoop condition body _ => condition.nodes ++ body.nodes
  | forLoop init condition update body _ =>
    init.toList.flatMap ForInit.nodes ++ Expr.nodesList condition.toList ++ Expr.nodesList update
      ++ body.nodes
  | ret value _ => Expr.nodesList value.toList
  | .break _ => []
  | .continue _ => []
  | empty _ => []

def nodesList : List Stmt → List Expr
  | [] => []
  | first :: rest => first.nodes ++ nodesList rest

end

theorem mem_nodesList {d : Expr} {stmts : List Stmt} :
    d ∈ nodesList stmts ↔ ∃ s ∈ stmts, d ∈ s.nodes := by
  induction stmts with
  | nil => simp [nodesList]
  | cons first rest ih => simp [nodesList, ih]

end Stmt

/-! ## Statements in statements -/

def LocalDecl.roots (decl : LocalDecl) : List Expr :=
  decl.declarators.flatMap (fun declarator => declarator.init.toList) ++ decl.initializers

def ForInit.roots : ForInit → List Expr
  | exprs es => es
  | decl d => d.roots

namespace Stmt

/-- The expressions that stand directly in a statement. -/
def roots : Stmt → List Expr
  | declare decl => decl.roots
  | expr e _ => [e]
  | branch condition _ _ _ | whileLoop condition _ _ => [condition]
  | forLoop init condition update _ _ =>
    init.toList.flatMap ForInit.roots ++ condition.toList ++ update
  | ret value _ => value.toList
  | block _ _ | .break _ | .continue _ | empty _ => []

/-- The statements that stand directly in a statement. -/
def children : Stmt → List Stmt
  | block stmts _ => stmts
  | branch _ onTrue onFalse _ => onTrue :: onFalse.toList
  | whileLoop _ body _ | forLoop _ _ _ body _ => [body]
  | declare _ | expr _ _ | ret _ _ | .break _ | .continue _ | empty _ => []

def isLoop : Stmt → Bool
  | whileLoop .. | forLoop .. => true
  | _ => false

/-- A statement and all statements inside it, each with whether a loop is around it. -/
inductive Inside (inLoop : Bool) (s : Stmt) : Bool → Stmt → Prop
  | self : Inside inLoop s inLoop s
  | child {around : Bool} {t t' : Stmt} (h : Inside inLoop s around t) (hchild : t' ∈ t.children) :
    Inside inLoop s (around || t.isLoop) t'

/-- Induction that has the hypothesis for every child. -/
theorem induction_children {P : Stmt → Prop} (h : ∀ s, (∀ t ∈ s.children, P t) → P s)
    (s : Stmt) : P s := by
  induction s using Stmt.induction with
  | block stmts line ih => exact h _ ih
  | branch condition onTrue onFalse line ihTrue ihFalse =>
    refine h _ fun t ht => ?_
    rcases List.mem_cons.mp ht with rfl | ht
    · exact ihTrue
    · exact ihFalse t (Option.mem_toList.mp ht)
  | whileLoop _ _ _ ih | forLoop _ _ _ _ _ ih =>
    refine h _ fun t ht => ?_
    rw [List.mem_singleton.mp ht]
    exact ih
  | declare | expr | ret | breakOut | continueOn | empty =>
    exact h _ fun t ht => (List.not_mem_nil ht).elim

end Stmt

theorem LocalDecl.mem_nodes {d : Expr} {decl : LocalDecl} :
    d ∈ decl.nodes ↔ ∃ e ∈ decl.roots, d ∈ e.nodes := by
  simp only [LocalDecl.nodes, LocalDecl.roots, List.mem_append, Expr.mem_nodesList,
    List.mem_flatMap, Option.mem_toList, or_and_right, exists_or]
  refine or_congr ⟨?_, ?_⟩ Iff.rfl
  · rintro ⟨declarator, hdeclarator, e, he, hd⟩
    exact ⟨e, ⟨declarator, hdeclarator, he⟩, hd⟩
  · rintro ⟨e, ⟨declarator, hdeclarator, he⟩, hd⟩
    exact ⟨declarator, hdeclarator, e, he, hd⟩

theorem ForInit.mem_nodes {d : Expr} {init : ForInit} :
    d ∈ init.nodes ↔ ∃ e ∈ init.roots, d ∈ e.nodes := by
  cases init with
  | exprs => exact Expr.mem_nodesList
  | decl => exact LocalDecl.mem_nodes

theorem Stmt.mem_nodes {d : Expr} {s : Stmt} :
    d ∈ s.nodes ↔ (∃ e ∈ s.roots, d ∈ e.nodes) ∨ ∃ t ∈ s.children, d ∈ t.nodes := by
  cases s with
  | block => simp [nodes, roots, children, mem_nodesList]
  | declare => simp [nodes, roots, children, LocalDecl.mem_nodes]
  | branch _ _ onFalse => cases onFalse <;> simp [nodes, roots, children]
  | forLoop =>
    simp only [nodes, roots, children, List.mem_append, List.mem_flatMap, Option.mem_toList,
      Expr.mem_nodesList, ForInit.mem_nodes, or_and_right, exists_or, List.mem_singleton,
      exists_eq_left]
    refine or_congr (or_congr (or_congr ⟨?_, ?_⟩ Iff.rfl) Iff.rfl) Iff.rfl
    · rintro ⟨init, hinit, e, he, hd⟩
      exact ⟨e, ⟨init, hinit, he⟩, hd⟩
    · rintro ⟨e, ⟨init, hinit, he⟩, hd⟩
      exact ⟨init, hinit, e, he, hd⟩
  | _ => simp [nodes, roots, children, Expr.mem_nodesList]

theorem Stmt.nodes_subset {d : Expr} {s : Stmt} (h : d ∈ s.nodes) : d.nodes ⊆ s.nodes := by
  induction s using induction_children with
  | h s ih =>
    intro x hx
    rcases mem_nodes.mp h with ⟨e, he, hd⟩ | ⟨t, ht, hd⟩
    · exact mem_nodes.mpr (.inl ⟨e, he, Expr.nodes_subset hd hx⟩)
    · exact mem_nodes.mpr (.inr ⟨t, ht, ih t ht hd hx⟩)

/-! ## Properties of all nodes -/

/-- All expressions in it have the property. -/
def Expr.Everywhere (P : Expr → Prop) (e : Expr) : Prop := ∀ d ∈ e.nodes, P d

def Stmt.Everywhere (P : Expr → Prop) (s : Stmt) : Prop := ∀ d ∈ s.nodes, P d

section

variable {P : Expr → Prop}

theorem Expr.everywhere_of_children {e : Expr} (hself : P e)
    (h : ∀ c ∈ e.children, c.Everywhere P) : e.Everywhere P := by
  intro d hd
  rcases mem_nodes.mp hd with rfl | ⟨c, hc, hd⟩
  · exact hself
  · exact h c hc d hd

theorem Expr.everywhere_leaf {e : Expr} (hself : P e) (hchildren : e.children = []) :
    e.Everywhere P := by
  refine everywhere_of_children hself fun c hc => ?_
  rw [hchildren] at hc
  exact (List.not_mem_nil hc).elim

theorem Expr.everywhere_one {e a : Expr} (hself : P e) (hchildren : e.children = [a])
    (ha : a.Everywhere P) : e.Everywhere P := by
  refine everywhere_of_children hself fun c hc => ?_
  rw [hchildren] at hc
  rw [List.mem_singleton.mp hc]
  exact ha

theorem Expr.everywhere_two {e a b : Expr} (hself : P e) (hchildren : e.children = [a, b])
    (ha : a.Everywhere P) (hb : b.Everywhere P) : e.Everywhere P := by
  refine everywhere_of_children hself fun c hc => ?_
  rw [hchildren] at hc
  rcases List.mem_cons.mp hc with rfl | hc
  · exact ha
  · rw [List.mem_singleton.mp hc]
    exact hb

theorem Expr.Everywhere.child {e c : Expr} (h : e.Everywhere P) (hc : c ∈ e.children) :
    c.Everywhere P := fun d hd => h d (mem_nodes.mpr (.inr ⟨c, hc, hd⟩))

theorem Stmt.everywhere_of {s : Stmt} (hroots : ∀ e ∈ s.roots, e.Everywhere P)
    (h : ∀ t ∈ s.children, t.Everywhere P) : s.Everywhere P := by
  intro d hd
  rcases mem_nodes.mp hd with ⟨e, he, hd⟩ | ⟨t, ht, hd⟩
  · exact hroots e he d hd
  · exact h t ht d hd

theorem Stmt.Everywhere.root {s : Stmt} {e : Expr} (h : s.Everywhere P) (he : e ∈ s.roots) :
    e.Everywhere P := fun d hd => h d (mem_nodes.mpr (.inl ⟨e, he, hd⟩))

theorem Stmt.Everywhere.child {s t : Stmt} (h : s.Everywhere P) (ht : t ∈ s.children) :
    t.Everywhere P := fun d hd => h d (mem_nodes.mpr (.inr ⟨t, ht, hd⟩))

end

namespace Stmt

theorem Inside.of_child {inLoop around : Bool} {s t u : Stmt} (hchild : t ∈ s.children)
    (h : t.Inside (inLoop || s.isLoop) around u) : s.Inside inLoop around u := by
  induction h with
  | self => exact .child .self hchild
  | child _ hnext ih => exact .child ih hnext

/-- Every expression in a statement stands somewhere under an expression of a statement inside. -/
theorem exists_inside {d : Expr} {s : Stmt} (h : d ∈ s.nodes) (inLoop : Bool) :
    ∃ around t, s.Inside inLoop around t ∧ ∃ e ∈ t.roots, d ∈ e.nodes := by
  induction s using induction_children generalizing inLoop with
  | h s ih =>
    rcases mem_nodes.mp h with hroot | ⟨t, hchild, hd⟩
    · exact ⟨inLoop, s, .self, hroot⟩
    · obtain ⟨around, u, hinside, hroot⟩ := ih t hchild hd (inLoop || s.isLoop)
      exact ⟨around, u, hinside.of_child hchild, hroot⟩

end Stmt

/-! ## Declarations -/

def ForInit.decls : ForInit → List LocalDecl
  | exprs _ => []
  | decl d => [d]

namespace Stmt

mutual

/-- The local declarations in a statement, in the order of the slots that they take. -/
def decls : Stmt → List LocalDecl
  | block stmts _ => declsList stmts
  | declare decl => [decl]
  | expr _ _ => []
  | branch _ onTrue onFalse _ =>
    let otherwise := match onFalse with
      | none => []
      | some stmt => stmt.decls
    onTrue.decls ++ otherwise
  | whileLoop _ body _ => body.decls
  | forLoop init _ _ body _ => init.toList.flatMap ForInit.decls ++ body.decls
  | ret _ _ => []
  | .break _ => []
  | .continue _ => []
  | empty _ => []

def declsList : List Stmt → List LocalDecl
  | [] => []
  | first :: rest => first.decls ++ declsList rest

end

theorem mem_declsList {d : LocalDecl} {stmts : List Stmt} :
    d ∈ declsList stmts ↔ ∃ s ∈ stmts, d ∈ s.decls := by
  induction stmts with
  | nil => simp [declsList]
  | cons first rest ih => simp [declsList, ih]

theorem decls_branch (condition : Expr) (onTrue : Stmt) (onFalse : Option Stmt) (line : Nat) :
    (branch condition onTrue onFalse line).decls = onTrue.decls ++ onFalse.elim [] decls := by
  cases onFalse <;> simp [decls]

end Stmt

/-! ## Methods -/

/-- A statement in the body of a method, at any depth, and whether a loop is around it. -/
def MethodDecl.Has (method : MethodDecl) (inLoop : Bool) (s : Stmt) : Prop :=
  ∃ body, method.body = some body ∧ ∃ top ∈ body.stmts, top.Inside false inLoop s

/-- All expressions in the body of a method. -/
def MethodDecl.nodes (method : MethodDecl) : List Expr :=
  method.body.toList.flatMap fun body => Stmt.nodesList body.stmts

theorem MethodDecl.nodes_subset {method : MethodDecl} {d : Expr} (h : d ∈ method.nodes) :
    d.nodes ⊆ method.nodes := by
  intro x hx
  obtain ⟨body, hbody, hd⟩ := List.mem_flatMap.mp h
  obtain ⟨top, htop, hd⟩ := Stmt.mem_nodesList.mp hd
  exact List.mem_flatMap.mpr
    ⟨body, hbody, Stmt.mem_nodesList.mpr ⟨top, htop, Stmt.nodes_subset hd hx⟩⟩

theorem MethodDecl.exists_has {method : MethodDecl} {d : Expr} (h : d ∈ method.nodes) :
    ∃ inLoop s, method.Has inLoop s ∧ ∃ e ∈ s.roots, d ∈ e.nodes := by
  obtain ⟨body, hbody, hd⟩ := List.mem_flatMap.mp h
  obtain ⟨top, htop, hd⟩ := Stmt.mem_nodesList.mp hd
  obtain ⟨inLoop, s, hinside, hroot⟩ := Stmt.exists_inside hd false
  exact ⟨inLoop, s, ⟨body, Option.mem_toList.mp hbody, top, htop, hinside⟩, hroot⟩

end ClassCompiler
