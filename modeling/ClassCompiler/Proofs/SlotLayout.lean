import ClassCompiler.Proofs.Frames
import ClassCompiler.Proofs.Scope
import ClassCompiler.Proofs.Spans

/-!
# Layout of slots

The variables that a scope declares lie one behind the other, in the order of their declarations and
behind the receiver, whatever frames are entered and left between and whatever declarations fail: a
slot is never used twice, as long as all of them fit below the last slot number.

Behind that number nothing keeps variables apart: the next slot stays where it is, and every
variable that is still declared gets the same one.

* `Local.span`: the slots of a variable
* `Scope.declared`: all variables that operations declare, visible or not
* `Scope.adjoining_declared`: each of them begins where the one before it ends
* `Scope.slots_apart`, `Scope.last_slot_shared`
-/

namespace ClassCompiler

/-! ## Slots of a variable -/

/-- Two slots for `long` and `double`, and one for all other types. -/
def Local.span (v : Local) : Span where
  first := v.slot
  width := if v.ty = .long ∨ v.ty = .double then 2 else 1

theorem Ty.isWide_iff {ty : Ty} : ty.isWide = true ↔ ty = .long ∨ ty = .double := by
  constructor
  · intro h
    unfold isWide at h
    cases hp : ty.prim? with
    | none =>
      rw [hp] at h
      cases h
    | some p =>
      rw [hp] at h
      rw [prim?_eq_some_iff.mp hp]
      cases p with
      | long => exact .inl rfl
      | double => exact .inr rfl
      | _ => cases h
  · rintro (rfl | rfl)
    · rfl
    · rfl

/-- A variable takes its slots, and one at least. -/
theorem Local.width_span (v : Local) : v.span.width = max 1 v.ty.slots := by
  unfold span Ty.slots
  dsimp only
  by_cases hvoid : v.ty = .void
  · have hother : ¬ (v.ty = .long ∨ v.ty = .double) := by
      rw [hvoid]
      decide
    rw [if_neg hother, if_pos hvoid]
    rfl
  · by_cases hwide : v.ty.isWide = true
    · rw [if_pos (Ty.isWide_iff.mp hwide), if_neg hvoid, if_pos hwide]
      rfl
    · rw [if_neg (mt Ty.isWide_iff.mpr hwide), if_neg hvoid, if_neg hwide]
      rfl

namespace Scope

/-! ## Declared variables -/

/-- The variable of a declaration that succeeds. -/
def taken? (ty : Ty) : Except CompileError (Nat × Scope) → Option Local
  | .ok (slot, _) => some ⟨slot, ty⟩
  | .error _ => none

/-- The variable that an operation declares, if it is a declaration and succeeds. -/
def declared? (scope : Scope) : Op → Option Local
  | .declareLocal name ty line => taken? ty (scope.declareLocal name ty line)
  | .declareParam name ty line => taken? ty (scope.declareParam name ty line)
  | _ => none

/-- The variables that operations declare, in the order of their declarations. -/
def declared (scope : Scope) : List Op → List Local
  | [] => []
  | op :: rest => (scope.declared? op).toList ++ (scope.perform op).declared rest

variable {scope : Scope} {op : Op} {v : Local}

/-- What an operation does: it takes no slot, or the next ones for a variable. What is kept by marks
and holds of all variables that the scope can name holds afterwards, if it does of the new one. -/
inductive Allots (scope after : Scope) : Option Local → Prop
  | nothing (next : after.nextSlot = scope.nextSlot)
      (holds : ∀ P, (∀ var, P var → P { var with isInitialized := true }) → scope.Holds P →
        after.Holds P) : Allots scope after none
  | takes (v : Local) (slot : v.slot = scope.nextSlot)
      (next : after.nextSlot = min maxSlot (scope.nextSlot + v.span.width))
      (holds : ∀ P, scope.Holds P → (∀ var : Variable, var.owned = v → P var) → after.Holds P) :
      Allots scope after (some v)

theorem Allots.unchanged (scope : Scope) : scope.Allots scope none :=
  .nothing rfl fun _ _ h => h

theorem allots (scope : Scope) (op : Op) :
    scope.Allots (scope.perform op) (scope.declared? op) := by
  cases op with
  | declareLocal name ty line =>
    unfold perform declared?
    dsimp only
    cases hdeclare : scope.declareLocal name ty line with
    | error => exact .unchanged scope
    | ok result =>
      obtain ⟨slot, after⟩ := result
      obtain ⟨rfl, hnext, -, -, -, hholds⟩ := declareLocal_ok hdeclare
      exact .takes _ rfl (by rw [Local.width_span]; exact hnext) hholds
  | declareParam name ty line =>
    unfold perform declared?
    dsimp only
    cases hdeclare : scope.declareParam name ty line with
    | error => exact .unchanged scope
    | ok result =>
      obtain ⟨slot, after⟩ := result
      obtain ⟨rfl, hnext, -, -, -, hholds⟩ := declareParam_ok hdeclare
      exact .takes _ rfl (by rw [Local.width_span]; exact hnext) hholds
  | popFrame => exact .nothing rfl fun P _ h => h.popFrame
  | markInitialized name => exact .nothing rfl fun P hmark h => h.markInitialized hmark name
  | noteBreak =>
    obtain ⟨hvisible, hshadowed, -, hnext⟩ := perform_noteBreak scope
    refine .nothing hnext fun P _ h => ⟨?_, ?_⟩
    · rw [hvisible]
      exact h.visible
    · rw [hshadowed]
      exact h.shadowed
  | pushFrame | setReturned | enterLoop | exitLoop =>
    exact .nothing rfl fun P _ h => ⟨h.visible, h.shadowed⟩

/-! ## Layout -/

/-- The variables that operations declare lie one behind the other, and the next slot is behind the
last of them. -/
theorem adjoining_declared (scope : Scope) (ops : List Op)
    (hroom : scope.nextSlot + Span.total ((scope.declared ops).map Local.span) ≤ maxSlot) :
    Span.Adjoining scope.nextSlot ((scope.declared ops).map Local.span)
      ∧ (scope.performAll ops).nextSlot
        = scope.nextSlot + Span.total ((scope.declared ops).map Local.span) := by
  induction ops generalizing scope with
  | nil => exact ⟨trivial, rfl⟩
  | cons op rest ih =>
    have hrun : scope.performAll (op :: rest) = (scope.perform op).performAll rest := rfl
    have hallots := scope.allots op
    rw [declared] at hroom ⊢
    rw [hrun]
    cases hop : scope.declared? op with
    | none =>
      rw [hop] at hallots hroom
      cases hallots with
      | nothing hsame _ =>
        rw [Option.toList_none, List.nil_append, ← hsame] at hroom ⊢
        exact ih _ hroom
    | some v =>
      rw [hop] at hallots hroom
      cases hallots with
      | takes _ hslot hnext _ =>
        rw [Option.toList_some, List.singleton_append, List.map_cons, Span.total_cons] at hroom ⊢
        -- The slots fit, so the counter is not held back.
        have hbehind : (scope.perform op).nextSlot = scope.nextSlot + v.span.width := by omega
        obtain ⟨hrest, hlast⟩ := ih (scope.perform op) (by omega)
        rw [hbehind] at hrest
        exact ⟨⟨hslot, hrest⟩, by omega⟩

/-- Every variable that a scope can name lies in the slots that it was declared in. -/
theorem holds_declared (scope : Scope) (ops : List Op) (earlier : List Local)
    (h : scope.Holds fun var => var.owned ∈ earlier) :
    (scope.performAll ops).Holds fun var => var.owned ∈ earlier ++ scope.declared ops := by
  induction ops generalizing scope earlier with
  | nil =>
    rw [declared, List.append_nil]
    exact h
  | cons op rest ih =>
    have hstep : (scope.perform op).Holds
        fun var => var.owned ∈ earlier ++ (scope.declared? op).toList := by
      have hallots := scope.allots op
      cases hop : scope.declared? op with
      | none =>
        rw [hop] at hallots
        cases hallots with
        | nothing _ hholds =>
          rw [Option.toList_none, List.append_nil]
          exact hholds _ (fun _ hvar => hvar) h
      | some v =>
        rw [hop] at hallots
        cases hallots with
        | takes _ _ _ hholds =>
          refine hholds _ ⟨fun pair hpair => ?_, fun entry hentry => ?_⟩ fun var hvar => ?_
          · exact List.mem_append_left _ (h.visible pair hpair)
          · exact List.mem_append_left _ (h.shadowed entry hentry)
          · rw [hvar]
            exact List.mem_append_right _ List.mem_cons_self
    have hrest := ih (scope.perform op) _ hstep
    rw [List.append_assoc] at hrest
    exact hrest

/-- As long as the slots that a method asks for fit below the last slot number, any two variables
that were declared in it, visible or not, own slots of their own: two for `long` and `double`, one
for all others. None of them is the receiver's, all of them lie below the frame size, and each
variable that the scope can name is one of those that were declared. -/
theorem slots_apart (returnTy : Ty) (exceptions : List Ty) (isStatic : Bool) (ops : List Op)
    (hroom : (start returnTy exceptions isStatic).frameSize
      + Span.total (((start returnTy exceptions isStatic).declared ops).map Local.span)
        ≤ maxSlot) :
    let vars := (start returnTy exceptions isStatic).declared ops
    let scope := (start returnTy exceptions isStatic).performAll ops
    (vars.Pairwise fun v w => v.span.Apart w.span)
      ∧ (isStatic = false → ∀ v ∈ vars, 0 ∉ v.span)
      ∧ (∀ v ∈ vars, ∀ slot ∈ v.span, slot < scope.frameSize)
      ∧ ∀ name var, scope.lookup? name = some var → var.owned ∈ vars := by
  intro vars scope
  obtain ⟨hadjoining, hnext⟩ := adjoining_declared (start returnTy exceptions isStatic) ops hroom
  have hbounds : ∀ v ∈ vars, (start returnTy exceptions isStatic).nextSlot ≤ v.slot
      ∧ v.slot + v.span.width
        ≤ (start returnTy exceptions isStatic).nextSlot + Span.total (vars.map Local.span) :=
    fun v hv => hadjoining.bounds v.span (List.mem_map_of_mem hv)
  have hapart := hadjoining.apart
  rw [List.pairwise_map] at hapart
  refine ⟨hapart, ?_, ?_, ?_⟩
  · intro hinstance v hv hzero
    have hfirst := (hbounds v hv).1
    have hreceiver : (start returnTy exceptions isStatic).nextSlot = 1 := by
      rw [hinstance]
      rfl
    have hle : v.slot ≤ 0 := hzero.1
    omega
  · intro v hv slot hslot
    calc slot < v.slot + v.span.width := hslot.2
      _ ≤ (start returnTy exceptions isStatic).nextSlot + Span.total (vars.map Local.span) :=
        (hbounds v hv).2
      _ = scope.frameSize := hnext.symm
  · intro name var hvar
    have hholds := holds_declared (start returnTy exceptions isStatic) ops []
      (holds_start returnTy exceptions isStatic)
    exact hholds.lookup? hvar

/-- An instance method with a wide parameter, a local of a block that is left, one declared twice in
a frame, and one that shadows the parameter. -/
def mixedOps : List Op :=
  [.declareParam "x" .long 1, .pushFrame, .declareLocal "y" .double 2, .declareLocal "y" .int 3,
    .popFrame, .pushFrame, .declareLocal "x" .int 4, .declareLocal "z" .double 5]

theorem slots_apart_mixed :
    (start .void [] false).declared mixedOps
        = [⟨1, .long⟩, ⟨3, .double⟩, ⟨5, .int⟩, ⟨6, .double⟩]
      ∧ (start .void [] false).frameSize
        + Span.total (((start .void [] false).declared mixedOps).map Local.span) ≤ maxSlot
      ∧ ((start .void [] false).declared mixedOps).Pairwise
        (fun v w => v.span.Apart w.span) := by
  have hroom : (start .void [] false).frameSize
      + Span.total (((start .void [] false).declared mixedOps).map Local.span) ≤ maxSlot := by
    decide
  exact ⟨by decide, hroom, (slots_apart .void [] false mixedOps hroom).1⟩

/-! ## The last slot -/

/-- A block with one wide local. -/
def wideBlock : List Op := [.pushFrame, .declareLocal "d" .double 1, .popFrame]

/-- As many wide locals as there are pairs of slots, each in a block of its own, and three more
locals. -/
def crowdedOps : List Op :=
  (List.replicate 32767 wideBlock).flatten
    ++ [.declareLocal "a" .int 2, .declareLocal "b" .int 3, .declareLocal "c" .int 4]

/-- The scope at the start of a static method, with some slots used before. -/
def startAt (slot : Nat) : Scope := { start .int [] true with nextSlot := slot }

theorem declared_append (scope : Scope) (one two : List Op) :
    scope.declared (one ++ two) = scope.declared one ++ (scope.performAll one).declared two := by
  induction one generalizing scope with
  | nil => rfl
  | cons op rest ih =>
    rw [List.cons_append, declared, declared, ih, List.append_assoc]
    rfl

/-- Each block leaves two more slots used, and nothing else. -/
theorem performAll_wideBlocks (n slot : Nat) (h : slot + 2 * n ≤ maxSlot) :
    (startAt slot).performAll (List.replicate n wideBlock).flatten = startAt (slot + 2 * n) := by
  induction n generalizing slot with
  | zero => rfl
  | succ n ih =>
    have hblock : (startAt slot).performAll wideBlock = startAt (min maxSlot (slot + 2)) := rfl
    have hfit : min maxSlot (slot + 2) = slot + 2 := by omega
    rw [List.replicate_succ, List.flatten_cons]
    unfold performAll at hblock ih ⊢
    rw [List.foldl_append, hblock, hfit, ih (slot + 2) (by omega)]
    congr 1
    omega

/-- Two of the last locals share a slot. -/
theorem last_slot_shared : ¬ ((start .int [] true).declared crowdedOps).Pairwise
    fun v w => v.span.Apart w.span := by
  intro h
  have hstart : start .int [] true = startAt 0 := rfl
  have hlast : (startAt 65534).declared [.declareLocal "a" .int 2, .declareLocal "b" .int 3,
      .declareLocal "c" .int 4] = [⟨65534, .int⟩, ⟨65535, .int⟩, ⟨65535, .int⟩] := by decide
  unfold crowdedOps at h
  rw [declared_append, hstart, performAll_wideBlocks 32767 0 (by decide), hlast] at h
  have hpair := (List.pairwise_append.mp h).2.1
  have hapart : (Local.span ⟨65535, .int⟩).Apart (Local.span ⟨65535, .int⟩) := by
    simpa using (List.pairwise_cons.mp (List.pairwise_cons.mp hpair).2).1
  have hmem : 65535 ∈ Local.span ⟨65535, .int⟩ := ⟨Nat.le_refl _, by decide⟩
  exact hapart 65535 hmem hmem

end Scope

end ClassCompiler
