import ClassCompiler.Code.Emission
import Mathlib.Data.List.Nodup

/-!
# Labels

A label stands for the place behind its definition. The pieces of a method take their labels in
order and define each of them once, so no two definitions in a method are of one label.

* `afterLabel?`: the code behind the definition of a label
* `Emit.Defines`, `Emit.Succeeds`: a piece that can be generated, with the labels that it defines
* `Emit.Succeeds.nodup_labels`
-/

namespace ClassCompiler

/-! ## Definitions -/

/-- The code behind the definition of a label. -/
def afterLabel? (target : Label) : List Instr → Option (List Instr)
  | [] => none
  | i :: rest => if i = .label target then some rest else afterLabel? target rest

/-- The label that an instruction defines. -/
def Instr.defined? : Instr → Option Label
  | label name => some name
  | _ => none

/-- The labels that a piece of code defines. -/
def labels (code : List Instr) : List Label := code.filterMap Instr.defined?

theorem labels_append (one two : List Instr) : labels (one ++ two) = labels one ++ labels two :=
  List.filterMap_append

theorem mem_labels {code : List Instr} {target : Label} :
    target ∈ labels code ↔ .label target ∈ code := by
  unfold labels
  rw [List.mem_filterMap]
  constructor
  · rintro ⟨i, hi, hdefined⟩
    cases i with
    | label name =>
      cases hdefined
      exact hi
    | _ => cases hdefined
  · exact fun h => ⟨_, h, rfl⟩

theorem afterLabel?_eq_none {code : List Instr} {target : Label} :
    afterLabel? target code = none ↔ target ∉ labels code := by
  rw [mem_labels]
  induction code with
  | nil => simp [afterLabel?]
  | cons i rest ih =>
    unfold afterLabel?
    split
    · next h => simp [h]
    · next h => simp [ih, Ne.symm h]

theorem afterLabel?_suffix {code rest : List Instr} {target : Label}
    (h : afterLabel? target code = some rest) : .label target :: rest <:+ code := by
  induction code with
  | nil => cases h
  | cons i code ih =>
    unfold afterLabel? at h
    split at h
    · next hi =>
      cases h
      exact hi ▸ List.suffix_refl _
    · exact (ih h).trans (List.suffix_cons i code)

/-- Where no label is defined twice, a jump lands behind the only definition. -/
theorem afterLabel?_of_suffix {code rest : List Instr} {target : Label}
    (hnodup : (labels code).Nodup) (h : .label target :: rest <:+ code) :
    afterLabel? target code = some rest := by
  obtain ⟨before, rfl⟩ := h
  rw [labels_append, List.nodup_append] at hnodup
  obtain ⟨-, -, hdisjoint⟩ := hnodup
  have hbefore : Instr.label target ∉ before := by
    intro hmem
    have hafter : target ∈ labels (.label target :: rest) :=
      mem_labels.mpr List.mem_cons_self
    exact hdisjoint target (mem_labels.mpr hmem) target hafter rfl
  clear hdisjoint
  induction before with
  | nil => exact if_pos rfl
  | cons i before ih =>
    have hi : i ≠ .label target := fun h => hbefore (h ▸ List.mem_cons_self)
    have hrest : Instr.label target ∉ before := fun h => hbefore (List.mem_cons_of_mem _ h)
    rw [List.cons_append, afterLabel?, if_neg hi]
    exact ih hrest

/-! ## Pieces -/

namespace Emit

variable {α β : Type}

/-- A piece that can be generated. It defines the labels that it takes, and beside them the given
ones, each once. -/
def Defines (outer : List Label) (piece : Emit α) : Prop := ∀ next,
  (∃ a, (piece.run next).result = .ok a) ∧ next ≤ (piece.run next).next
    ∧ (labels (piece.run next).code).Perm
      (outer ++ (List.range' next ((piece.run next).next - next)).map Label.mk)

/-- A piece that defines the labels that it takes, and no others. -/
abbrev Succeeds (piece : Emit α) : Prop := piece.Defines []

theorem defines_of_eq {piece : Emit α} {outer : List Label} {code : List Instr} {a : α}
    (h : ∀ next, piece.run next = ⟨code, next, .ok a⟩) (hlabels : labels code = outer) :
    piece.Defines outer := by
  intro next
  rw [h next]
  refine ⟨⟨a, rfl⟩, Nat.le_refl next, ?_⟩
  rw [hlabels, Nat.sub_self]
  simp

theorem succeeds_pure (a : α) : (pure a : Emit α).Succeeds := defines_of_eq (fun _ => rfl) rfl

theorem defines_bind {outer : List Label} {first : Emit α} {rest : α → Emit β}
    (h : first.Succeeds) (hrest : ∀ a, (rest a).Defines outer) : (first >>= rest).Defines outer := by
  intro next
  obtain ⟨⟨a, ha⟩, hle, hperm⟩ := h next
  obtain ⟨⟨b, hb⟩, hle', hperm'⟩ := hrest a (first.run next).next
  rw [run_bind_ok ha]
  refine ⟨⟨b, hb⟩, Nat.le_trans hle hle', ?_⟩
  dsimp only
  generalize (first.run next).next = mid at *
  generalize ((rest a).run mid).next = last at *
  have hrange : List.range' next (mid - next) ++ List.range' mid (last - mid)
      = List.range' next (last - next) := by
    have := List.range'_append_1 (s := next) (m := mid - next) (n := last - mid)
    rwa [show next + (mid - next) = mid by omega,
      show mid - next + (last - mid) = last - next by omega] at this
  rw [labels_append, ← hrange, List.map_append]
  have hone := hperm.append hperm'
  rw [List.nil_append] at hone
  refine hone.trans ?_
  rw [← List.append_assoc, ← List.append_assoc]
  exact List.perm_append_comm.append_right _

/-- What follows a new label has to define it. -/
theorem defines_newLabel {outer : List Label} {rest : Label → Emit β}
    (h : ∀ label, (rest label).Defines (outer ++ [label])) : (newLabel >>= rest).Defines outer := by
  intro next
  obtain ⟨hok, hle, hperm⟩ := h ⟨next⟩ (next + 1)
  have hrun : (newLabel >>= rest).run next = (rest ⟨next⟩).run (next + 1) := by
    rw [run_bind_ok rfl]
    rfl
  rw [hrun]
  refine ⟨hok, by omega, hperm.trans ?_⟩
  generalize ((rest ⟨next⟩).run (next + 1)).next = last at *
  have hrange : List.range' next (last - next)
      = next :: List.range' (next + 1) (last - (next + 1)) := by
    rw [show last - next = last - (next + 1) + 1 by omega, List.range'_succ]
  rw [hrange, List.append_assoc]
  exact List.Perm.refl _

theorem defines_place (label : Label) : (place label).Defines [label] :=
  defines_of_eq (fun _ => rfl) rfl

theorem defines_place_bind {outer : List Label} (label : Label) {rest : Unit → Emit β}
    (hrest : (rest ()).Defines outer) : (place label >>= rest).Defines (label :: outer) := by
  intro next
  obtain ⟨hok, hle, hperm⟩ := hrest next
  exact ⟨hok, hle, hperm.cons label⟩

theorem succeeds_bind {first : Emit α} {rest : α → Emit β} (h : first.Succeeds)
    (hrest : ∀ a, (rest a).Succeeds) : (first >>= rest).Succeeds := defines_bind h hrest

theorem succeeds_instr {i : Instr} (h : i.defined? = none) : (instr i).Succeeds :=
  defines_of_eq (fun _ => rfl) (by unfold labels; rw [List.filterMap_cons_none h]; rfl)

theorem succeeds_ops (codes : List OpCode) : (ops codes).Succeeds := by
  refine defines_of_eq (fun _ => rfl) ?_
  induction codes with
  | nil => rfl
  | cons first rest ih => exact ih

theorem succeeds_ite {p : Prop} [Decidable p] {one two : Emit α} (h : one.Succeeds)
    (h' : two.Succeeds) : (if p then one else two).Succeeds := by
  split
  · exact h
  · exact h'

theorem succeeds_forM {step : α → Emit PUnit} {l : List α} (h : ∀ a ∈ l, (step a).Succeeds) :
    (l.forM step).Succeeds := by
  induction l with
  | nil => exact succeeds_pure _
  | cons a rest ih =>
    exact succeeds_bind (h a List.mem_cons_self) fun _ =>
      ih fun b hb => h b (List.mem_cons_of_mem _ hb)

end Emit

namespace Emit

variable {piece : Emit Unit}

theorem Succeeds.result (h : piece.Succeeds) (next : Nat) :
    (piece.run next).result = .ok () := (h next).1.choose_spec

theorem Succeeds.mem_labels (h : piece.Succeeds) (next : Nat) {label : Label} :
    label ∈ labels (piece.run next).code ↔ next ≤ label.id ∧ label.id < (piece.run next).next := by
  obtain ⟨-, hle, hperm⟩ := h next
  rw [hperm.mem_iff, List.nil_append, List.mem_map]
  constructor
  · rintro ⟨id, hid, rfl⟩
    rw [List.mem_range'_1] at hid
    exact ⟨hid.1, by dsimp only; omega⟩
  · rintro ⟨hlow, hhigh⟩
    exact ⟨label.id, List.mem_range'_1.mpr ⟨hlow, by omega⟩, rfl⟩

theorem Succeeds.nodup_labels (h : piece.Succeeds) (next : Nat) :
    (labels (piece.run next).code).Nodup := by
  obtain ⟨-, -, hperm⟩ := h next
  rw [hperm.nodup_iff, List.nil_append]
  refine List.Nodup.map (fun one two heq => ?_) List.nodup_range'
  cases heq
  rfl

end Emit

end ClassCompiler
