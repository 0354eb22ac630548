/-!
# Spans

Some numbers in a row, such as the slots of a variable or the indices of a constant. Spans that lie
one behind the other share no number.

* `Span.Adjoining`: each span begins where the one before it ends
* `Span.Adjoining.bounds`, `Span.Adjoining.apart`
-/

namespace ClassCompiler

structure Span where
  first : Nat
  width : Nat
  deriving DecidableEq

namespace Span

instance : Membership Nat Span where
  mem span number := span.first ≤ number ∧ number < span.first + span.width

/-- The spans share no number. -/
def Apart (s t : Span) : Prop := ∀ number ∈ s, number ∉ t

/-- The sum of the widths. -/
def total : List Span → Nat
  | [] => 0
  | span :: rest => span.width + total rest

/-- Each span begins where the one before it ends, the first one at `base`. -/
def Adjoining : Nat → List Span → Prop
  | _, [] => True
  | base, span :: rest => span.first = base ∧ Adjoining (base + span.width) rest

theorem Apart.symm {s t : Span} (h : s.Apart t) : t.Apart s :=
  fun number ht hs => h number hs ht

theorem total_cons (span : Span) (rest : List Span) :
    total (span :: rest) = span.width + total rest := rfl

theorem total_append (one two : List Span) : total (one ++ two) = total one + total two := by
  induction one with
  | nil => exact (Nat.zero_add _).symm
  | cons span rest ih => rw [List.cons_append, total_cons, total_cons, ih, Nat.add_assoc]

namespace Adjoining

variable {base : Nat} {spans : List Span}

theorem bounds (h : Adjoining base spans) :
    ∀ span ∈ spans, base ≤ span.first ∧ span.first + span.width ≤ base + total spans := by
  induction spans generalizing base with
  | nil => intro span hspan; cases hspan
  | cons first rest ih =>
    obtain ⟨hfirst, hrest⟩ := h
    intro span hspan
    rw [total_cons]
    rcases List.mem_cons.mp hspan with rfl | hspan
    · omega
    · have hbounds := ih hrest span hspan
      omega

theorem apart (h : Adjoining base spans) : spans.Pairwise Apart := by
  induction spans generalizing base with
  | nil => exact List.Pairwise.nil
  | cons first rest ih =>
    obtain ⟨hfirst, hrest⟩ := h
    refine List.Pairwise.cons ?_ (ih hrest)
    -- The first span ends where all others begin or before.
    rintro span hspan number ⟨-, hlt⟩ ⟨hle, -⟩
    have hbehind := (hrest.bounds span hspan).1
    omega

/-- A span that begins behind all others. -/
theorem concat {span : Span} (h : Adjoining base spans) (hspan : span.first = base + total spans) :
    Adjoining base (spans ++ [span]) := by
  induction spans generalizing base with
  | nil => exact ⟨hspan, trivial⟩
  | cons first rest ih =>
    obtain ⟨hfirst, hrest⟩ := h
    rw [total_cons] at hspan
    exact ⟨hfirst, ih hrest (by omega)⟩

end Adjoining

end Span

end ClassCompiler
