import ClassCompiler.Proofs.ClassTable
import ClassCompiler.Proofs.Machine.Stack

/-!
# Descriptors are read as they were written

A sound registry writes descriptors that can be read back: a field gives the kind of its type, a
method the kinds of its parameters and of its result.

* `Registry.Sound.field?_descriptor`
* `Describes.method?_eq`
-/

namespace ClassCompiler

/-- The kinds of the values that a type stands for on the stack: `void` leaves none. -/
def Ty.results (ty : Ty) : List Kind := if ty = .void then [] else [ty.kind]

theorem Ty.results_of_isValue {ty : Ty} (h : ty.IsValue) : ty.results = [ty.kind] := if_neg h.2

namespace Descriptor

/-- One more kind in front of those that were read. -/
def push (kind : Kind) (read : List Kind × List Char) : List Kind × List Char :=
  (kind :: read.1, read.2)

theorem types?_name {name : List Char} (h : ';' ∉ name) (rest : List Char) :
    types? .name (name ++ ';' :: rest) = (types? .start rest).map (push .reference) := by
  induction name with
  | nil => rfl
  | cons c name ih =>
    have hc : c ≠ ';' := fun heq => h (heq ▸ List.mem_cons_self)
    have hname : ';' ∉ name := fun hmem => h (List.mem_cons_of_mem c hmem)
    rw [List.cons_append, types?]
    · exact ih hname
    · exact hc

/-- A written type is read as its kind, and behind a bracket as an array. -/
theorem types?_fieldDescriptor {kind : Kind} {text : String} (h : FieldDescriptor kind text) :
    (∀ rest, types? .start (text.toList ++ rest) = (types? .start rest).map (push kind))
      ∧ ∀ rest, types? .element (text.toList ++ rest)
        = (types? .start rest).map (push .reference) := by
  induction h with
  | prim p hvoid =>
    rw [Ty.kind_prim]
    cases p <;> first | exact ⟨fun _ => rfl, fun _ => rfl⟩ | exact absurd rfl hvoid
  | object name hname =>
    have htext : ∀ rest, ("L" ++ name ++ ";").toList ++ rest
        = 'L' :: (name.toList ++ ';' :: rest) := by
      intro rest
      simp
    constructor
    · intro rest
      rw [htext, types?]
      exact types?_name hname rest
    · intro rest
      rw [htext, types?]
      exact types?_name hname rest
  | @array kind element _ ih =>
    have htext : ∀ rest, ("[" ++ element).toList ++ rest = '[' :: (element.toList ++ rest) := by
      intro rest
      simp
    constructor
    · intro rest
      rw [htext, types?]
      exact ih.2 rest
    · intro rest
      rw [htext, types?]
      exact ih.2 rest

theorem types?_params {texts : List String} {kinds : List Kind}
    (h : List.Forall₂ FieldDescriptor kinds texts) (rest : List Char) :
    types? .start ((String.join texts).toList ++ ')' :: rest) = some (kinds, rest) := by
  induction h with
  | nil => rfl
  | @cons kind text kinds texts hfirst _ ih =>
    have hjoin : (String.join (text :: texts)).toList ++ ')' :: rest
        = text.toList ++ ((String.join texts).toList ++ ')' :: rest) := by
      simp [String.join_cons]
    rw [hjoin, (types?_fieldDescriptor hfirst).1, ih]
    rfl

theorem types?_only {kind : Kind} {text : String} (h : FieldDescriptor kind text) :
    types? .start text.toList = some ([kind], []) := by
  have := (types?_fieldDescriptor h).1 []
  rw [List.append_nil] at this
  exact this

theorem field?_eq {kind : Kind} {text : String} (h : FieldDescriptor kind text) :
    field? text = some kind := by
  unfold field?
  rw [types?_only h]

section

variable {texts : List String} {kinds : List Kind}

theorem toList_method (params result : String) : ("(" ++ params ++ ")" ++ result).toList
    = '(' :: (params.toList ++ ')' :: result.toList) := by
  simp

theorem method?_void (h : List.Forall₂ FieldDescriptor kinds texts) :
    method? ("(" ++ String.join texts ++ ")" ++ "V") = some (kinds, []) := by
  unfold method?
  rw [toList_method]
  simp only [types?_params h]
  rfl

theorem method?_value (h : List.Forall₂ FieldDescriptor kinds texts) {kind : Kind}
    {result : String} (hresult : FieldDescriptor kind result) :
    method? ("(" ++ String.join texts ++ ")" ++ result) = some (kinds, [kind]) := by
  have honly := types?_only hresult
  have hne : result.toList ≠ ['V'] := by
    intro heq
    rw [heq] at honly
    cases honly
  unfold method?
  rw [toList_method]
  simp only [types?_params h]
  split
  · next heq =>
    rw [honly] at heq
    cases heq
    rfl
  · next heq => exact absurd honly (heq kind)

end

end Descriptor

open Descriptor

theorem Registry.Sound.field?_descriptor {registry : Registry} (h : registry.Sound) {ty : Ty}
    (hty : ty.IsValue) : field? (registry.descriptor ty) = some ty.kind :=
  field?_eq (h.fieldDescriptor hty)

theorem Registry.Sound.method?_methodDescriptor {registry : Registry} (h : registry.Sound)
    {params : List Ty} {returnTy : Ty} (hparams : ∀ ty ∈ params, ty.IsValue)
    (hreturn : returnTy ≠ .any) :
    method? (registry.methodDescriptor params returnTy)
      = some (params.map Ty.kind, returnTy.results) := by
  have htexts : List.Forall₂ FieldDescriptor (params.map Ty.kind)
      (params.map registry.descriptor) := by
    rw [List.forall₂_map_left_iff, List.forall₂_map_right_iff, List.forall₂_same]
    exact fun ty hty => h.fieldDescriptor (hparams ty hty)
  unfold Registry.methodDescriptor
  by_cases hvoid : returnTy = .void
  · have hdescriptor : registry.descriptor returnTy = "V" := by
      unfold Registry.descriptor
      rw [hvoid, show Ty.void = .prim .void from rfl, Ty.prim?_prim]
      rfl
    rw [hdescriptor, Ty.results, if_pos hvoid]
    exact method?_void htexts
  · have hvalue : returnTy.IsValue := ⟨hreturn, hvoid⟩
    rw [Ty.results_of_isValue hvalue]
    exact method?_value htexts (h.fieldDescriptor hvalue)

theorem Describes.method?_eq {descriptor : String} {params : List Ty} {returnTy : Ty}
    (h : Describes descriptor params returnTy) (hparams : ∀ ty ∈ params, ty.IsValue)
    (hreturn : returnTy ≠ .any) :
    method? descriptor = some (params.map Ty.kind, returnTy.results) := by
  obtain ⟨registry, hsound, rfl⟩ := h
  exact hsound.method?_methodDescriptor hparams hreturn

end ClassCompiler
