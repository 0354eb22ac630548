import ClassCompiler.Proofs.Ty

/-!
# Rules of operators

The rules compare handles; here they are read by the primitives behind the handles, where every
question is about a finite type. Promotion leads to one of four primitives and keeps the kind of its
operand.

* `unaryPromotion?_eq_some_iff`, `binaryPromotion?_eq_some_iff`
* `resolveBinary?_eq_some`: the three ways to resolve a binary operator
* `arithmeticOp?_isSome`: a compound assignment has an instruction for every legal left side
-/

namespace ClassCompiler

/-! ## Promotion -/

namespace Prim

/-- The primitive that arithmetic on one operand computes in. -/
def promoted? : Prim → Option Prim
  | byte | short | char | int => int
  | long => long
  | float => float
  | double => double
  | boolean | void => none

/-- The primitives that arithmetic computes in. -/
def computed : List Prim := [int, long, float, double]

/-- The primitive that arithmetic on two promoted operands computes in. -/
def common (p q : Prim) : Prim :=
  if p = double ∨ q = double then double
  else if p = float ∨ q = float then float
  else if p = long ∨ q = long then long
  else int

theorem mem_computed_of_promoted? {p q : Prim} (h : p.promoted? = some q) : q ∈ computed := by
  cases p <;> cases h <;> decide

theorem isNumeric_of_promoted? {p q : Prim} (h : p.promoted? = some q) : p.isNumeric = true := by
  cases p <;> first | rfl | cases h

theorem common_mem_computed (p q : Prim) : p.common q ∈ computed := by
  unfold common
  split
  · decide
  · split
    · decide
    · split <;> decide

theorem isNumeric_of_mem_computed {p : Prim} (h : p ∈ computed) : p.isNumeric = true := by
  cases p <;> first | rfl | exact absurd h (by decide)

theorem ne_void_of_mem_computed {p : Prim} (h : p ∈ computed) : p ≠ void := by
  rintro rfl
  exact absurd h (by decide)

end Prim

theorem Ty.isIntegral_prim (p : Prim) : (Ty.prim p).isIntegral = p.isIntegral := by
  unfold Ty.isIntegral
  rw [Ty.prim?_prim]
  rfl

theorem Ty.exists_prim_of_any {ty : Ty} {test : Prim → Bool} (h : ty.prim?.any test = true) :
    ∃ p, ty = .prim p ∧ test p = true := by
  cases hp : ty.prim? with
  | none =>
    rw [hp] at h
    cases h
  | some p =>
    rw [hp] at h
    exact ⟨p, Ty.prim?_eq_some_iff.mp hp, h⟩

theorem unaryPromotion?_prim (p : Prim) : unaryPromotion? (.prim p) = p.promoted?.map Ty.prim := by
  unfold unaryPromotion?
  rw [Ty.prim?_prim]
  cases p <;> rfl

theorem unaryPromotion?_eq_some_iff {ty result : Ty} :
    unaryPromotion? ty = some result
      ↔ ∃ p q, ty = .prim p ∧ p.promoted? = some q ∧ result = .prim q := by
  constructor
  · intro h
    cases hp : ty.prim? with
    | none =>
      unfold unaryPromotion? at h
      rw [hp] at h
      cases h
    | some p =>
      obtain rfl := Ty.prim?_eq_some_iff.mp hp
      rw [unaryPromotion?_prim] at h
      obtain ⟨q, hq, rfl⟩ := Option.map_eq_some_iff.mp h
      exact ⟨p, q, rfl, hq, rfl⟩
  · rintro ⟨p, q, rfl, hq, rfl⟩
    rw [unaryPromotion?_prim, hq]
    rfl

theorem binaryPromotion?_eq_some_iff {left right result : Ty} :
    binaryPromotion? left right = some result
      ↔ ∃ p q, unaryPromotion? left = some (.prim p) ∧ unaryPromotion? right = some (.prim q)
        ∧ result = .prim (p.common q) := by
  have hcommon : ∀ p q : Prim,
      (if Ty.prim p = .double ∨ Ty.prim q = .double then some Ty.double
        else if Ty.prim p = .float ∨ Ty.prim q = .float then some Ty.float
        else if Ty.prim p = .long ∨ Ty.prim q = .long then some Ty.long
        else some Ty.int) = some (.prim (p.common q)) := by
    intro p q
    have heq : ∀ a b : Prim, Ty.prim a = .prim b ↔ a = b :=
      fun a b => ⟨Ty.prim_injective, congrArg Ty.prim⟩
    simp only [show Ty.double = .prim .double from rfl, show Ty.float = .prim .float from rfl,
      show Ty.long = .prim .long from rfl, show Ty.int = .prim .int from rfl, heq, Prim.common]
    split
    · rfl
    · split
      · rfl
      · split <;> rfl
  constructor
  · intro h
    unfold binaryPromotion? at h
    split at h
    · next l r hl hr =>
      obtain ⟨-, p, -, -, rfl⟩ := unaryPromotion?_eq_some_iff.mp hl
      obtain ⟨-, q, -, -, rfl⟩ := unaryPromotion?_eq_some_iff.mp hr
      rw [hcommon] at h
      cases h
      exact ⟨p, q, hl, hr, rfl⟩
    · cases h
  · rintro ⟨p, q, hl, hr, rfl⟩
    unfold binaryPromotion?
    rw [hl, hr]
    exact hcommon p q

/-! ## Binary operators -/

/-- The three ways to resolve a binary operator: a bitwise operator on booleans, a shift in the
type of its left operand, and an operator in the common type of both operands. -/
theorem resolveBinary?_eq_some {op : BinaryOp} {left right : Ty} {rule : BinaryRule}
    (h : resolveBinary? op left right = some rule) :
    (left = .boolean ∧ right = .boolean ∧ rule = ⟨op.onInt, [], [], .boolean⟩)
    ∨ (∃ p code, op.isShift = true ∧ right.isIntegral = true
        ∧ unaryPromotion? left = some (.prim p) ∧ arithmeticOp? op (.prim p) = some code
        ∧ rule = ⟨code, conversion left (.prim p), conversion right .int, .prim p⟩)
    ∨ (∃ p code, op.isShift = false ∧ binaryPromotion? left right = some (.prim p)
        ∧ arithmeticOp? op (.prim p) = some code
        ∧ rule = ⟨code, conversion left (.prim p), conversion right (.prim p), .prim p⟩) := by
  unfold resolveBinary? at h
  split at h
  · next hboolean =>
    cases h
    exact .inl ⟨hboolean.2.1, hboolean.2.2, rfl⟩
  · split at h
    · next hshift =>
      split at h
      · next hintegral =>
        rw [Bool.and_eq_true] at hintegral
        obtain ⟨result, hresult, hrest⟩ := Option.bind_eq_some_iff.mp h
        obtain ⟨code, hcode, hrule⟩ := Option.bind_eq_some_iff.mp hrest
        obtain ⟨-, p, -, -, rfl⟩ := unaryPromotion?_eq_some_iff.mp hresult
        cases hrule
        exact .inr (.inl ⟨p, code, hshift, hintegral.2, hresult, hcode, rfl⟩)
      · cases h
    · next hshift =>
      split at h
      · cases h
      · obtain ⟨result, hresult, hrest⟩ := Option.bind_eq_some_iff.mp h
        obtain ⟨code, hcode, hrule⟩ := Option.bind_eq_some_iff.mp hrest
        obtain ⟨p, q, -, -, rfl⟩ := binaryPromotion?_eq_some_iff.mp hresult
        cases hrule
        exact .inr (.inr ⟨_, code, Bool.not_eq_true _ ▸ hshift, hresult, hcode, rfl⟩)

theorem unaryPromotion?_ne_any {ty result : Ty} (h : unaryPromotion? ty = some result) :
    result ≠ .any := by
  obtain ⟨-, q, -, -, rfl⟩ := unaryPromotion?_eq_some_iff.mp h
  exact Ty.prim_ne_any q

theorem resolveBinary?_ne_any {op : BinaryOp} {left right : Ty} {rule : BinaryRule}
    (h : resolveBinary? op left right = some rule) : rule.result ≠ .any := by
  rcases resolveBinary?_eq_some h with ⟨-, -, rfl⟩ | ⟨p, -, -, -, -, -, rfl⟩ | ⟨p, -, -, -, -, rfl⟩
  · exact Ty.prim_ne_any .boolean
  · exact Ty.prim_ne_any p
  · exact Ty.prim_ne_any p

theorem arithmeticOp?_prim (op : BinaryOp) (p : Prim) : arithmeticOp? op (.prim p)
    = match p with
      | .int | .boolean => some op.onInt
      | .long => some op.onLong
      | .float => op.onFloat?
      | .double => op.onDouble?
      | _ => none := by
  unfold arithmeticOp?
  rw [Ty.prim?_prim]
  cases p <;> rfl

/-- Compound assignments compute in the types of their sides. -/
theorem exists_computed_of_mem_compoundOperands {op : BinaryOp} {ty : Ty}
    (h : ty ∈ compoundOperands op) : ∃ p ∈ Prim.computed, ty = .prim p := by
  have hnumeric : ty ∈ numericOperands := by
    unfold compoundOperands at h
    split at h
    · rcases List.mem_pair.mp h with rfl | rfl
      · exact List.mem_cons_self
      · exact List.mem_cons_of_mem _ List.mem_cons_self
    · exact h
  simp only [numericOperands, List.mem_cons, List.not_mem_nil, or_false] at hnumeric
  rcases hnumeric with rfl | rfl | rfl | rfl
  · exact ⟨.int, by decide, rfl⟩
  · exact ⟨.long, by decide, rfl⟩
  · exact ⟨.double, by decide, rfl⟩
  · exact ⟨.float, by decide, rfl⟩

/-- Every legal left side of a compound assignment has an instruction. -/
theorem arithmeticOp?_isSome {op : BinaryOp} {ty : Ty} (h : ty ∈ compoundOperands op) :
    ∃ code, arithmeticOp? op ty = some code := by
  have hint : ∃ code, arithmeticOp? op .int = some code :=
    ⟨op.onInt, arithmeticOp?_prim op .int⟩
  have hlong : ∃ code, arithmeticOp? op .long = some code :=
    ⟨op.onLong, arithmeticOp?_prim op .long⟩
  unfold compoundOperands at h
  split at h
  · rcases List.mem_pair.mp h with rfl | rfl
    · exact hint
    · exact hlong
  · next hnumeric =>
    have hfloat : ∃ code, arithmeticOp? op .float = some code := by
      rw [show Ty.float = .prim .float from rfl, arithmeticOp?_prim]
      cases op <;> first | exact ⟨_, rfl⟩ | exact absurd rfl hnumeric
    have hdouble : ∃ code, arithmeticOp? op .double = some code := by
      rw [show Ty.double = .prim .double from rfl, arithmeticOp?_prim]
      cases op <;> first | exact ⟨_, rfl⟩ | exact absurd rfl hnumeric
    simp only [numericOperands, List.mem_cons, List.not_mem_nil, or_false] at h
    rcases h with rfl | rfl | rfl | rfl
    · exact hint
    · exact hlong
    · exact hdouble
    · exact hfloat

end ClassCompiler
