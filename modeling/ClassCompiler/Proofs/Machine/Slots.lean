import ClassCompiler.Code.Place
import ClassCompiler.Proofs.Machine.Stack
import Mathlib.Data.Set.Insert

/-!
# Stored slots

A machine that remembers which local slots have been stored to, and nothing else of the data. It may
go both ways at every conditional jump, so its runs are those of any machine and more.

A piece is confined if it reads given slots only and jumps to given labels or to labels of its own.
What holds of all sets with these slots in them is then kept by the piece, wherever it is left.

* `slotMachine`, `Instr.ReadsStored`
* `Emit.Confined`
* `Emit.Confined.meets`: what a confined piece keeps
-/

namespace ClassCompiler

/-! ## The machine -/

namespace Instr

/-- The slots that have been stored to, after an instruction. -/
def stored (i : Instr) (slots : Set Nat) : Set Nat :=
  match i.access? with
  | some access => if access.mode = .load then slots else insert access.slot slots
  | none => slots

/-- A slot that the instruction reads has been stored to. -/
def ReadsStored (i : Instr) (slots : Set Nat) : Prop :=
  ∀ access, i.access? = some access → access.mode ≠ .store → access.slot ∈ slots

end Instr

/-- The machine that knows which slots have been stored to. -/
def slotMachine : Machine (Set Nat) := Machine.ofData fun i slots => some (i.stored slots)

namespace Instr

variable {i : Instr} {S slots : Set Nat}

theorem subset_stored (i : Instr) (slots : Set Nat) : slots ⊆ i.stored slots := by
  unfold stored
  split
  · split
    · exact subset_rfl
    · exact Set.subset_insert _ _
  · exact subset_rfl

theorem ReadsStored.mono (h : i.ReadsStored S) (hsub : S ⊆ slots) : i.ReadsStored slots :=
  fun access haccess hmode => hsub (h access haccess hmode)

theorem readsStored_of_access (h : i.access? = none) : i.ReadsStored S := by
  intro access haccess
  rw [h] at haccess
  cases haccess

end Instr

/-! ## Confined pieces -/

/-- The jump leads to one of the targets, or to one of the labels between two numbers. -/
def Instr.JumpsWithin (targets : List Label) (first last : Nat) (i : Instr) : Prop :=
  ∀ code target, i = .branch code target →
    target ∈ targets ∨ (first ≤ target.id ∧ target.id < last)

namespace Emit

variable {α β : Type} {S : Set Nat} {targets : List Label}

/-- The piece reads slots of the set only, and jumps to the targets or to labels that it takes. -/
def Confined (S : Set Nat) (targets : List Label) (piece : Emit α) : Prop :=
  ∀ next, next ≤ (piece.run next).next ∧ ∀ i ∈ (piece.run next).code,
    i.ReadsStored S ∧ i.JumpsWithin targets next (piece.run next).next

theorem Confined.widen {piece : Emit α} {more : List Label} (h : piece.Confined S targets)
    (hsub : targets ⊆ more) : piece.Confined S more := by
  intro next
  obtain ⟨hle, hcode⟩ := h next
  exact ⟨hle, fun i hi => ⟨(hcode i hi).1, fun code target heq =>
    ((hcode i hi).2 code target heq).imp_left fun hmem => hsub hmem⟩⟩

theorem confined_of_code {piece : Emit α} {code : List Instr}
    (hrun : ∀ next, (piece.run next).code = code ∧ (piece.run next).next = next)
    (h : ∀ i ∈ code, i.ReadsStored S ∧ ∀ op target, i = .branch op target → target ∈ targets) :
    piece.Confined S targets := by
  intro next
  obtain ⟨hcode, hnext⟩ := hrun next
  rw [hcode, hnext]
  exact ⟨Nat.le_refl next, fun i hi => ⟨(h i hi).1, fun op target heq =>
    .inl ((h i hi).2 op target heq)⟩⟩

theorem confined_nil {piece : Emit α}
    (hrun : ∀ next, (piece.run next).code = [] ∧ (piece.run next).next = next) :
    piece.Confined S targets :=
  confined_of_code hrun fun _ hi => (List.not_mem_nil hi).elim

theorem confined_pure (a : α) : (pure a : Emit α).Confined S targets :=
  confined_nil fun _ => ⟨rfl, rfl⟩

theorem confined_fail (error : CompileError) : (fail error : Emit α).Confined S targets :=
  confined_nil fun _ => ⟨rfl, rfl⟩

theorem confined_ofExcept (result : Except CompileError α) :
    (ofExcept result).Confined S targets := confined_nil fun _ => ⟨rfl, rfl⟩

theorem confined_ofOption (value : Option α) (error : CompileError) :
    (ofOption value error).Confined S targets := by
  cases value with
  | none => exact confined_fail error
  | some a => exact confined_pure a

theorem confined_bind {first : Emit α} {rest : α → Emit β} (h : first.Confined S targets)
    (hrest : ∀ a, (rest a).Confined S targets) : (first >>= rest).Confined S targets := by
  intro next
  obtain ⟨hle, hcode⟩ := h next
  cases hresult : (first.run next).result with
  | error e =>
    rw [run_bind_error hresult]
    exact ⟨hle, hcode⟩
  | ok a =>
    rw [run_bind_ok hresult]
    obtain ⟨hle', hcode'⟩ := hrest a (first.run next).next
    refine ⟨Nat.le_trans hle hle', fun i hi => ?_⟩
    rcases List.mem_append.mp hi with hi | hi
    · exact ⟨(hcode i hi).1, fun op target heq => ((hcode i hi).2 op target heq).imp_right
        fun h => ⟨h.1, Nat.lt_of_lt_of_le h.2 hle'⟩⟩
    · exact ⟨(hcode' i hi).1, fun op target heq => ((hcode' i hi).2 op target heq).imp_right
        fun h => ⟨Nat.le_trans hle h.1, h.2⟩⟩

/-- A piece may jump to a label that it takes. -/
theorem confined_newLabel {rest : Label → Emit β}
    (h : ∀ label, (rest label).Confined S (label :: targets)) :
    (newLabel >>= rest).Confined S targets := by
  intro next
  have hrun : (newLabel >>= rest).run next = (rest ⟨next⟩).run (next + 1) := by
    rw [run_bind_ok rfl]
    rfl
  obtain ⟨hle, hcode⟩ := h ⟨next⟩ (next + 1)
  rw [hrun]
  refine ⟨by omega, fun i hi => ⟨(hcode i hi).1, fun op target heq => ?_⟩⟩
  rcases (hcode i hi).2 op target heq with hmem | ⟨hlow, hhigh⟩
  · rcases List.mem_cons.mp hmem with rfl | hmem
    · exact .inr ⟨Nat.le_refl next, hle⟩
    · exact .inl hmem
  · exact .inr ⟨by omega, hhigh⟩

theorem confined_instr {i : Instr} (h : i.ReadsStored S)
    (hjump : ∀ op target, i = .branch op target → target ∈ targets) :
    (instr i).Confined S targets := by
  have hrun : ∀ next, ((instr i).run next).code = [i] ∧ ((instr i).run next).next = next :=
    fun _ => ⟨rfl, rfl⟩
  refine confined_of_code hrun fun j hj => ?_
  rw [List.mem_singleton.mp hj]
  exact ⟨h, hjump⟩

theorem confined_place (label : Label) : (place label).Confined S targets :=
  confined_instr (Instr.readsStored_of_access rfl) fun _ _ h => by cases h

theorem confined_branch {op : OpCode} {target : Label} (h : target ∈ targets) :
    (instr (.branch op target)).Confined S targets :=
  confined_instr (Instr.readsStored_of_access rfl) fun _ _ heq => by cases heq; exact h

theorem confined_goto {target : Label} (h : target ∈ targets) :
    (goto target).Confined S targets := confined_branch h

/-- An operation on the stack. -/
theorem confined_op {op : OpCode} (h : op.shortAccess? = none) :
    (Emit.op op).Confined S targets :=
  confined_instr (Instr.readsStored_of_access h) fun _ _ heq => by cases heq

theorem confined_ops {codes : List OpCode} (h : ∀ op ∈ codes, op.shortAccess? = none) :
    (ops codes).Confined S targets := by
  have hrun : ∀ next, ((ops codes).run next).code = codes.map Instr.noArg
      ∧ ((ops codes).run next).next = next := fun _ => ⟨rfl, rfl⟩
  refine confined_of_code hrun fun i hi => ?_
  obtain ⟨op, hop, rfl⟩ := List.mem_map.mp hi
  exact ⟨Instr.readsStored_of_access (h op hop), fun _ _ heq => by cases heq⟩

theorem confined_member (op : OpCode) (owner name descriptor : String) :
    (instr (.member op owner name descriptor)).Confined S targets :=
  confined_instr (Instr.readsStored_of_access rfl) fun _ _ heq => by cases heq

theorem confined_ite {p : Prop} [Decidable p] {one two : Emit α} (h : p → one.Confined S targets)
    (h' : ¬ p → two.Confined S targets) : (if p then one else two).Confined S targets := by
  split
  · next hp => exact h hp
  · next hp => exact h' hp

theorem confined_forM {step : α → Emit PUnit} {l : List α}
    (h : ∀ a ∈ l, (step a).Confined S targets) : (l.forM step).Confined S targets := by
  induction l with
  | nil => exact confined_pure _
  | cons a rest ih =>
    exact confined_bind (h a List.mem_cons_self) fun _ =>
      ih fun b hb => h b (List.mem_cons_of_mem _ hb)

/-! ## What a confined piece keeps -/

/-- Code that reads stored slots only and jumps where the condition is enough keeps it. -/
theorem flows_of_invariant {spec : Label → Set Nat → Prop}
    {I : Set Nat → Prop} {code : List Instr}
    (hstored : ∀ i slots, I slots → I (Instr.stored i slots))
    (hreads : ∀ i ∈ code, ∀ slots, I slots → i.ReadsStored slots)
    (hjumps : ∀ i ∈ code, ∀ op target, i = .branch op target → ∀ slots, I slots → spec target slots)
    (hlabels : ∀ target, .label target ∈ code → ∀ slots, spec target slots → I slots) :
    Flows slotMachine Instr.ReadsStored spec I I code := by
  induction code with
  | nil => exact .nil fun _ h => h
  | cons i rest ih =>
    have hrest := ih (fun j hj => hreads j (List.mem_cons_of_mem _ hj))
      (fun j hj => hjumps j (List.mem_cons_of_mem _ hj))
      fun target ht => hlabels target (List.mem_cons_of_mem _ ht)
    refine .cons (fun slots hslots => ⟨hreads i List.mem_cons_self slots hslots, ?_⟩) ?_ hrest
    · rintro effect ⟨after, hafter, hpermits⟩
      obtain rfl := Option.some.inj hafter
      have hkept := hstored i slots hslots
      cases effect with
      | next => exact hpermits.2 ▸ hkept
      | jump target =>
        obtain ⟨⟨op, hop⟩, rfl⟩ := hpermits
        exact hjumps i List.mem_cons_self op target hop _ hkept
      | leave => trivial
    · rintro target rfl
      exact hlabels target List.mem_cons_self

/-- A confined piece keeps every condition that is about more stored slots only. -/
theorem Confined.meets {piece : Emit Unit} {targets : Targets (Set Nat)} {I : Set Nat → Prop}
    (h : piece.Confined S (targets.map Prod.fst)) (hpiece : piece.Succeeds)
    (hS : ∀ slots, I slots → S ⊆ slots) (hmono : ∀ slots more, I slots → slots ⊆ more → I more)
    (htargets : ∀ t ∈ targets, ∀ slots, I slots → t.2 slots) :
    piece.Meets slotMachine Instr.ReadsStored targets I I := by
  intro next spec hspec
  obtain ⟨hle, hcode⟩ := h next
  refine ⟨hpiece.result next, hle,
    fun label => if next ≤ label.id then I else spec label, fun label hlabel => ?_,
    fun full hfull => flows_of_invariant ?_ ?_ ?_ ?_⟩
  · exact if_neg (by omega)
  · exact fun i slots hslots => hmono slots _ hslots (i.subset_stored slots)
  · exact fun i hi slots hslots => (hcode i hi).1.mono (hS slots hslots)
  · intro i hi op target heq slots hslots
    rcases (hcode i hi).2 op target heq with hmem | ⟨hlow, hhigh⟩
    · obtain ⟨t, ht, rfl⟩ := List.mem_map.mp hmem
      obtain ⟨hlt, hcondition⟩ := hspec t ht
      rw [hfull _ (Nat.lt_of_lt_of_le hlt hle)]
      dsimp only
      rw [if_neg (by omega), hcondition]
      exact htargets t ht slots hslots
    · rw [hfull _ hhigh]
      dsimp only
      rwa [if_pos hlow]
  · intro target htarget slots hslots
    obtain ⟨hlow, hhigh⟩ := (hpiece.mem_labels next).mp (mem_labels.mpr htarget)
    rwa [hfull _ hhigh, if_pos hlow] at hslots

end Emit

end ClassCompiler
