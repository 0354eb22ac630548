import ClassCompiler.Body.Method
import ClassCompiler.Proofs.Body.Stmt

/-!
# Analysis of methods accepts

The locals of a method are its receiver, its parameters and what its body declares, in the order of
their slots. A stubbed method whose analysis reports nothing is accepted against these locals, and
its frame holds them side by side.

* `MethodDecl.locals`
* `MethodDecl.Analyzed`: what is known of a method after its analysis
* `MethodDecl.check_grows`
-/

namespace ClassCompiler

open Check BodyState

/-! ## Signatures -/

/-- A signature that an analysis may start from. -/
structure MethodSignature.Sound (signature : MethodSignature) (params : List FormalParam) :
    Prop where
  length : params.length = signature.params.length
  values : ∀ ty ∈ signature.params, ty.IsValue
  ne_any : signature.returnTy ≠ .any
  descriptor : Describes signature.descriptor signature.params signature.returnTy

/-! ## Locals of a method -/

/-- Parameters in consecutive slots. -/
def paramLocals : Nat → List Ty → List Local
  | _, [] => []
  | slot, ty :: rest => ⟨slot, ty⟩ :: paramLocals (min Scope.maxSlot (slot + max 1 ty.slots)) rest

namespace MethodDecl

def receiver (owner : Ty) (method : MethodDecl) : List Local :=
  if method.mods.isStatic then [] else [⟨0, owner⟩]

def paramTypes (method : MethodDecl) : List Ty :=
  (method.signature.map MethodSignature.params).getD []

/-- Receiver and parameters, which have values from the start. -/
def entryLocals (owner : Ty) (method : MethodDecl) : List Local :=
  method.receiver owner ++ paramLocals (method.receiver owner).length method.paramTypes

/-- All locals of a method, those of its body with the types that a registry gives them. -/
def locals (registry : Registry) (owner : Ty) (method : MethodDecl) : List Local :=
  method.entryLocals owner
    ++ method.body.toList.flatMap fun body =>
      (Stmt.declsList body.stmts).flatMap (LocalDecl.locals registry)

/-- What the rules depend on in the body of a method. -/
def ctx (registry : Registry) (owner returnTy : Ty) (method : MethodDecl) : BodyCtx where
  isStatic := method.mods.isStatic
  returnTy
  locals := method.locals registry owner

/-- A method after an analysis without errors. -/
structure Analyzed (registry : Registry) (owner : Ty) (method : MethodDecl)
    (signature : MethodSignature) (frame : FrameInfo) : Prop where
  isAnalyzed : method.state = .analyzed
  signature_eq : method.signature = some signature
  frame_eq : method.frame = some frame
  sound : signature.Sound method.params
  body : ∀ body, method.body = some body → ∀ s ∈ body.stmts,
    s.Accepted (method.ctx registry owner signature.returnTy) false
  layout : frame.maxLocals < Scope.maxSlot →
    (∀ v ∈ method.locals registry owner, v.slot + v.ty.slots ≤ frame.maxLocals)
      ∧ (method.locals registry owner).Pairwise fun v w => v.slot + v.ty.slots ≤ w.slot

end MethodDecl

/-! ## Parameters -/

variable (site : Site) (ctx : BodyCtx) {last : Registry}

theorem grows_declareParam (name : String) (ty : Ty) (line : Nat) :
    (declareParam name ty line).Grows last fun s _ e =>
      e.scope.nextSlot = min Scope.maxSlot (s.scope.nextSlot + max 1 ty.slots)
        ∧ (ty.IsValue → Steps site ctx [⟨s.scope.nextSlot, ty⟩] True s e) := by
  intro state
  unfold declareParam Check.run
  dsimp only
  split
  · next slot scope hok =>
    obtain ⟨-, hnext, hloops, -⟩ := Scope.declareParam_ok hok
    refine ⟨Registry.Below.refl _, fun _ _ => ⟨hnext, fun hty hlocals hgood => ?_⟩⟩
    refine ⟨hgood.change hgood.registry
        (hgood.scope.declareParam hok (hlocals List.mem_cons_self) hty),
      congrArg List.length hloops, fun owned howned => ?_, trivial⟩
    exact howned.allocate hnext
  · exact ⟨Registry.Below.refl _, fun he => by cases he⟩

theorem declareParams_grows (params : List (FormalParam × Ty)) :
    (declareParams params).Grows last fun s _ e => (∀ pair ∈ params, pair.2.IsValue) →
      Steps site ctx (paramLocals s.scope.nextSlot (params.map Prod.snd)) True s e := by
  induction params with
  | nil =>
    refine (grows_pure _).mono ?_
    rintro s _ _ ⟨-, rfl⟩ _
    exact Steps.refl
  | cons first rest ih =>
    obtain ⟨param, ty⟩ := first
    refine (grows_bind (grows_declareParam site ctx param.name ty param.line) fun _ => ih).mono ?_
    rintro s _ e ⟨_, m, ⟨hnext, hfirst⟩, hrest⟩ hvalues
    rw [hnext] at hrest
    have hrest' := hrest fun pair hpair => hvalues pair (List.mem_cons_of_mem _ hpair)
    exact ((hfirst (hvalues _ List.mem_cons_self)).trans hrest').mono fun _ => trivial

/-! ## Bodies -/

theorem Block.check_grows (hapart : last.Apart) (name : String) (line : Nat) (body : Block) :
    (body.check site name line).Grows last fun s out e =>
      (∀ decl ∈ Stmt.declsList body.stmts, decl.type.Ordinary) →
      Steps site ctx ((Stmt.declsList out.stmts).flatMap (LocalDecl.locals last))
        (∀ stmt ∈ out.stmts, stmt.Accepted ctx s.scope.inLoop) s e := by
  unfold check
  refine (grows_bind (Stmt.checkList_grows site ctx fun s _ => Stmt.check_grows site ctx hapart s)
    fun out => grows_bind (grows_read _) fun errors => grows_note _ _).mono ?_
  rintro s _ _ ⟨out, m, hout, errors, _, ⟨-, rfl⟩, rfl, rfl, -⟩
  exact hout

namespace MethodDecl

theorem checkBody_eq (signature : MethodSignature) (method : MethodDecl) :
    method.checkBody site signature = (do
      declareParams (method.params.zip signature.params)
      let body ← Check.optional (Block.check site method.name method.line) method.body
      let frame ← Check.read fun state =>
        FrameInfo.mk state.scope.frameSize state.scope.hasReturned
      return { method with body, frame := some frame, state := .analyzed }) := by
  unfold checkBody
  obtain ⟨_, _, _, _, _, _, body, _, _, _⟩ := method
  cases body <;> rfl

/-- The type names in the body of a method are ordinary. -/
def BodyOrdinary (method : MethodDecl) : Prop :=
  ∀ body, method.body = some body → ∀ decl ∈ Stmt.declsList body.stmts, decl.type.Ordinary

theorem checkBody_grows (hapart : last.Apart) (method : MethodDecl) (signature : MethodSignature) :
    (method.checkBody site signature).Grows last fun s out e => ∃ body frame,
      out = { method with body, frame := some frame, state := .analyzed }
        ∧ frame.maxLocals = e.scope.nextSlot
        ∧ (signature.Sound method.params → method.BodyOrdinary →
          Steps site ctx (paramLocals s.scope.nextSlot signature.params
              ++ body.elim [] fun body =>
                (Stmt.declsList body.stmts).flatMap (LocalDecl.locals last))
            (∀ b, body = some b → ∀ stmt ∈ b.stmts, stmt.Accepted ctx s.scope.inLoop) s e) := by
  rw [checkBody_eq]
  have hbody : (Check.optional (Block.check site method.name method.line) method.body).Grows last _ :=
    grows_optional method.body fun body _ =>
      Block.check_grows site ctx hapart method.name method.line body
  refine (grows_bind (declareParams_grows site ctx _) fun _ => grows_bind hbody fun out =>
    grows_bind (grows_read _) fun frame => grows_pure _).mono ?_
  rintro s _ _ ⟨_, m, hparams, out, m', hout, frame, _, ⟨rfl, rfl⟩, rfl, rfl⟩
  refine ⟨out, _, rfl, rfl, fun hsignature hnames => ?_⟩
  have hparams' := hparams fun pair hpair => hsignature.values _ (List.of_mem_zip hpair).2
  rw [List.map_snd_zip (Nat.le_of_eq hsignature.length.symm)] at hparams'
  have hstmts := Steps.optional
    (fun body : Block => (Stmt.declsList body.stmts).flatMap (LocalDecl.locals last)) hout
    fun a b ha hb => hb (hnames a ha)
  exact (hparams'.trans_inLoop (q := fun inLoop => ∀ b, out = some b → ∀ stmt ∈ b.stmts,
    stmt.Accepted ctx inLoop) hstmts).mono And.right

theorem nextSlot_start (method : MethodDecl) (owner returnTy : Ty) (exceptions : List Ty) :
    (Scope.start returnTy exceptions method.mods.isStatic).nextSlot
      = (method.receiver owner).length := by
  unfold Scope.start receiver
  dsimp only
  split <;> rfl

/-- The receiver fills the slots of a fresh scope. -/
theorem laid_start (method : MethodDecl) {owner : Ty} (howner : owner.isReference = true)
    (returnTy : Ty) (exceptions : List Ty) :
    (Scope.start returnTy exceptions method.mods.isStatic).Laid (method.receiver owner) := by
  intro _
  rw [nextSlot_start method owner]
  have hslots : owner.slots = 1 := by
    rw [Ty.slots_of_ne_void (Ty.ne_void_of_isReference howner), Ty.kind_of_isReference howner]
    rfl
  unfold receiver
  split
  · exact ⟨by simp, List.Pairwise.nil⟩
  · refine ⟨fun v hv => ?_, List.pairwise_singleton _ _⟩
    rw [List.mem_singleton.mp hv, hslots]
    exact Nat.le_refl 1

theorem within_start (ctx : BodyCtx) (returnTy : Ty) (exceptions : List Ty)
    (hreturn : returnTy = ctx.returnTy) :
    (Scope.start returnTy exceptions ctx.isStatic).Within ctx :=
  ⟨Scope.holds_start _ _ _, rfl, hreturn⟩

theorem run_check {method : MethodDecl} {signature : MethodSignature}
    (hsignature : method.signature = some signature) (registry : Registry) :
    (method.check site).run registry
      = let scope := Scope.start signature.returnTy signature.exceptions method.mods.isStatic
        let done := (method.checkBody site signature).run { registry, scope }
        { value := done.value, state := done.state.registry, errors := done.errors } := by
  unfold check Check.run
  rw [hsignature]

/-- A method that is ready for its analysis. -/
structure Stubbed (method : MethodDecl) (signature : MethodSignature) : Prop where
  isStubbed : method.state = .stubbed
  signature_eq : method.signature = some signature
  sound : signature.Sound method.params
  names : method.BodyOrdinary

/-- A stubbed method that is analyzed without an error. -/
theorem check_grows (hapart : last.Apart) (method : MethodDecl) :
    (method.check site).Grows last fun s out e => ∀ signature, method.Stubbed signature →
      site.Sound → s.Sound →
      e.Sound ∧ ∃ frame, out.Analyzed last site.owner signature frame := by
  intro registry
  cases hsignature : method.signature with
  | none =>
    unfold check Check.run
    rw [hsignature]
    exact ⟨Registry.Below.refl _, fun he => by cases he⟩
  | some signature =>
    rw [run_check site hsignature]
    dsimp only
    have hbody := fun ctx => checkBody_grows site ctx hapart method signature
      { registry, scope := Scope.start signature.returnTy signature.exceptions method.mods.isStatic }
    refine ⟨(hbody default).1, fun he hlast signature' hstubbed hsite hsound => ?_⟩
    obtain rfl : signature' = signature := by
      have := hstubbed.signature_eq
      rw [hsignature] at this
      exact (Option.some.inj this).symm
    -- The locals of the body are known once the analysis is done.
    generalize hdone : (method.checkBody site signature').run _ = done at he hlast ⊢
    let ctx := done.value.ctx last site.owner signature'.returnTy
    have hrun := (hbody ctx).2
    rw [hdone] at hrun
    obtain ⟨body, frame, hout, hframe, hsteps⟩ := hrun he hlast
    have hmods : done.value.mods = method.mods := by rw [hout]
    have hlocals : ctx.locals = method.receiver site.owner
        ++ (paramLocals (method.receiver site.owner).length signature'.params
          ++ body.elim [] fun body =>
            (Stmt.declsList body.stmts).flatMap (LocalDecl.locals last)) := by
      show done.value.locals last site.owner = _
      rw [hout]
      unfold locals entryLocals paramTypes receiver
      rw [hsignature, List.append_assoc]
      cases body <;> simp
    rw [nextSlot_start method site.owner] at hsteps
    have hwithin : (Scope.start signature'.returnTy signature'.exceptions
        method.mods.isStatic).Within ctx := by
      rw [← hmods]
      exact within_start ctx signature'.returnTy signature'.exceptions rfl
    have hsig := hstubbed.sound
    have hstepped := hsteps hsig hstubbed.names (hlocals ▸ List.subset_append_right _ _)
      ⟨hsite, hsig.ne_any, hsound, hwithin⟩
    refine ⟨hstepped.good.registry, frame, by rw [hout], by rw [hout]; exact hsignature,
      by rw [hout], by rw [hout]; exact hsig, fun b hb => ?_, ?_⟩
    · refine hstepped.accepted b ?_
      rw [← hb, hout]
    · have hlaid := hstepped.laid _ (laid_start method hsite.owner signature'.returnTy
        signature'.exceptions)
      rw [← hlocals] at hlaid
      unfold Scope.Laid at hlaid
      rwa [← hframe] at hlaid

end MethodDecl

end ClassCompiler
