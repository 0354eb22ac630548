import ClassCompiler.Proofs.Body.Method

/-!
# Resolved trees

An accepted tree has no gaps: every expression in it has a type that is not the recovery type, and
every name, field access and call is bound.

* `Expr.Accepted.nodes`, `Stmt.Accepted.inside`: what stands in an accepted tree is accepted
* `Expr.IsResolved`
* `MethodDecl.Analyzed.resolved`
-/

namespace ClassCompiler

namespace Expr

/-- Is a name, a field access or a call bound to what it means? -/
def IsBound : Expr → Prop
  | name _ _ binding => binding.isSome
  | field _ _ _ ref => ref.isSome
  | call _ _ _ _ method => method.isSome
  | _ => True

structure IsResolved (e : Expr) : Prop where
  typed : ∃ ty, e.ty = some ty ∧ ty ≠ .any
  bound : e.IsBound

variable {ctx : BodyCtx} {e : Expr} {ty : Ty}

theorem Accepted.isResolved (h : e.Accepted ctx ty) : e.IsResolved := by
  refine ⟨⟨ty, h.ty_eq, h.ne_any⟩, ?_⟩
  cases h <;> trivial

theorem Accepted.children (h : e.Accepted ctx ty) :
    ∀ c ∈ e.children, ∃ ty, c.Accepted ctx ty := by
  have hone : ∀ {a : Expr} {left : Ty}, a.Accepted ctx left →
      ∀ c ∈ [a], ∃ ty, c.Accepted ctx ty := by
    intro a left ha c hc
    rw [List.mem_singleton.mp hc]
    exact ⟨_, ha⟩
  have htwo : ∀ {a b : Expr} {left right : Ty}, a.Accepted ctx left → b.Accepted ctx right →
      ∀ c ∈ [a, b], ∃ ty, c.Accepted ctx ty := by
    intro a b left right ha hb c hc
    rcases List.mem_pair.mp hc with rfl | rfl
    · exact ⟨_, ha⟩
    · exact ⟨_, hb⟩
  cases h with
  | literal | slot | ownField | self => exact fun _ hc => (List.not_mem_nil hc).elim
  | field _ _ _ hoperand _ | length _ hoperand _ | unary _ hoperand _ _ | not _ hoperand
  | increment _ _ hoperand _ => exact hone hoperand
  | index _ _ hlhs _ hrhs _ | binary _ hlhs hrhs _ | compare _ hlhs hrhs _
  | equality _ hlhs hrhs _ | logical _ hlhs hrhs | concat _ hlhs _ hrhs _
  | assign _ _ hlhs hrhs _ => exact htwo hlhs hrhs
  | call _ htarget _ _ hargs _ =>
    intro c hc
    rcases List.mem_append.mp hc with hc | hc
    · exact ⟨_, htarget c (Option.mem_toList.mp hc)⟩
    · exact ⟨_, hargs c hc⟩

theorem Accepted.nodes (h : e.Accepted ctx ty) : ∀ d ∈ e.nodes, ∃ ty, d.Accepted ctx ty := by
  induction e using induction_children generalizing ty with
  | h e ih =>
    intro d hd
    rcases mem_nodes.mp hd with rfl | ⟨c, hc, hd⟩
    · exact ⟨ty, h⟩
    · obtain ⟨_, hchild⟩ := h.children c hc
      exact ih c hc hchild d hd

end Expr

section

variable {ctx : BodyCtx}

theorem LocalDecl.Accepted.roots {decl : LocalDecl} (h : decl.Accepted ctx) :
    ∀ e ∈ decl.roots, ∃ ty, e.Accepted ctx ty := by
  intro e he
  rcases List.mem_append.mp he with he | he
  · obtain ⟨declarator, hdeclarator, he⟩ := List.mem_flatMap.mp he
    rw [h.moved declarator hdeclarator] at he
    exact (List.not_mem_nil he).elim
  · exact (h.initializers e he).2

theorem ForInit.Accepted.roots {init : ForInit} (h : init.Accepted ctx) :
    ∀ e ∈ init.roots, ∃ ty, e.Accepted ctx ty := by
  cases init with
  | exprs es => exact fun e he => (h e he).2
  | decl d => exact LocalDecl.Accepted.roots h

namespace Stmt.Accepted

variable {inLoop around : Bool} {s t : Stmt}

theorem children (h : s.Accepted ctx inLoop) :
    ∀ t ∈ s.children, t.Accepted ctx (inLoop || s.isLoop) := by
  cases h with
  | block hstmts =>
    intro t ht
    rw [show (Stmt.block _ _).isLoop = false from rfl, Bool.or_false]
    exact hstmts t ht
  | branch _ htrue hfalse =>
    intro t ht
    rw [show (Stmt.branch _ _ _ _).isLoop = false from rfl, Bool.or_false]
    rcases List.mem_cons.mp ht with rfl | ht
    · exact htrue
    · exact hfalse t (Option.mem_toList.mp ht)
  | whileLoop _ hbody | forLoop _ _ hbody =>
    intro t ht
    rw [List.mem_singleton.mp ht, show Stmt.isLoop _ = true from rfl, Bool.or_true]
    exact hbody
  | declare | expr | ret | breakOut | continueOn | empty =>
    exact fun t ht => (List.not_mem_nil ht).elim

theorem inside (h : s.Accepted ctx inLoop) (hinside : s.Inside inLoop around t) :
    t.Accepted ctx around := by
  induction hinside with
  | self => exact h
  | child _ hchild ih => exact ih.children _ hchild

theorem roots (h : s.Accepted ctx inLoop) : ∀ e ∈ s.roots, ∃ ty, e.Accepted ctx ty := by
  cases h with
  | declare hdecl => exact hdecl.roots
  | expr he =>
    intro e hroot
    rw [List.mem_singleton.mp hroot]
    exact he.2
  | branch hcondition | whileLoop hcondition =>
    intro e hroot
    rw [List.mem_singleton.mp hroot]
    exact ⟨_, hcondition⟩
  | forLoop hinit hcondition _ hupdate =>
    intro e hroot
    rcases List.mem_append.mp hroot with hroot | hroot
    · rcases List.mem_append.mp hroot with hroot | hroot
      · obtain ⟨i, hi, hroot⟩ := List.mem_flatMap.mp hroot
        exact (hinit i (Option.mem_toList.mp hi)).roots e hroot
      · exact ⟨_, hcondition e (Option.mem_toList.mp hroot)⟩
    · exact (hupdate e hroot).2
  | ret hvalue =>
    intro e hroot
    cases Option.mem_toList.mp hroot
    obtain ⟨-, ty, haccepted, -⟩ := hvalue
    exact ⟨ty, haccepted⟩
  | block | breakOut | continueOn | empty => exact fun e he => (List.not_mem_nil he).elim

end Stmt.Accepted

end

section

variable {registry : Registry} {owner : Ty} {method : MethodDecl} {signature : MethodSignature}
  {frame : FrameInfo}

theorem MethodDecl.Analyzed.has (h : method.Analyzed registry owner signature frame)
    {inLoop : Bool} {s : Stmt} (hs : method.Has inLoop s) :
    s.Accepted (method.ctx registry owner signature.returnTy) inLoop := by
  obtain ⟨body, hbody, top, htop, hinside⟩ := hs
  exact (h.body body hbody top htop).inside hinside

theorem MethodDecl.Analyzed.nodes (h : method.Analyzed registry owner signature frame) :
    ∀ d ∈ method.nodes, ∃ ty, d.Accepted (method.ctx registry owner signature.returnTy) ty := by
  intro d hd
  obtain ⟨inLoop, s, hs, e, he, hd⟩ := MethodDecl.exists_has hd
  obtain ⟨ty, haccepted⟩ := (h.has hs).roots e he
  exact haccepted.nodes d hd

theorem MethodDecl.Analyzed.resolved (h : method.Analyzed registry owner signature frame) :
    ∀ d ∈ method.nodes, d.IsResolved := by
  intro d hd
  obtain ⟨ty, haccepted⟩ := h.nodes d hd
  exact haccepted.isResolved

end

end ClassCompiler
