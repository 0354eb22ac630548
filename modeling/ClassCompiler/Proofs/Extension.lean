import ClassCompiler.Proofs.Body.Shared
import ClassCompiler.Proofs.Closed

/-!
# Registries that know more

A registry may know all that another one knows, entry by entry, and more arrays beside. What the
smaller one answers about its types, the larger one answers too; and a type name that the smaller
one has resolved, with the arrays that it entered for it, is there already in the larger one.

* `Registry.PartOf`
* `Registry.PartOf.agree`: the registries agree on what the smaller one knows
* `Registry.PartOf.resolveOrAny`: a name is resolved again, and nothing is added
-/

namespace ClassCompiler.Registry

/-- The second registry has all entries of the first one, and the same aliases. -/
structure PartOf (s t : Registry) : Prop where
  aliases : ∀ name, t.aliases.get? name = s.aliases.get? name
  entries : ∀ ty entry, s.get? ty = some entry → t.get? ty = some entry

variable {s t u : Registry} {ty : Ty}

namespace PartOf

theorem refl (s : Registry) : s.PartOf s := ⟨fun _ => rfl, fun _ _ h => h⟩

theorem trans (h : s.PartOf t) (h' : t.PartOf u) : s.PartOf u :=
  ⟨fun name => (h'.aliases name).trans (h.aliases name),
    fun ty entry he => h'.entries ty entry (h.entries ty entry he)⟩

theorem get? (h : s.PartOf t) (hty : s.contains ty = true) : t.get? ty = s.get? ty := by
  obtain ⟨entry, hentry⟩ := contains_iff.mp hty
  rw [hentry, h.entries ty entry hentry]

theorem contains (h : s.PartOf t) (hty : s.contains ty = true) : t.contains ty = true := by
  unfold Registry.contains
  rw [h.get? hty]
  exact hty

theorem share (h : s.PartOf t) (hty : s.contains ty = true) : s.Share t ty := ⟨hty, h.contains hty⟩

theorem kind? (h : s.PartOf t) (hty : s.contains ty = true) : t.kind? ty = s.kind? ty := by
  unfold Registry.kind?
  rw [h.get? hty]

theorem supertypes (h : s.PartOf t) (hty : s.contains ty = true) :
    t.supertypes ty = s.supertypes ty := by
  unfold Registry.supertypes
  rw [h.get? hty]

theorem internalName (h : s.PartOf t) (hty : s.contains ty = true) :
    t.internalName ty = s.internalName ty := by
  unfold Registry.internalName
  rw [h.get? hty]

theorem descriptor (h : s.PartOf t) (hty : s.contains ty = true) :
    t.descriptor ty = s.descriptor ty := by
  unfold Registry.descriptor
  rw [h.get? hty]

theorem lookup? (h : s.PartOf t) {name : String} (hname : s.lookup? name = some ty) :
    t.lookup? name = some ty := by
  unfold Registry.lookup? at hname ⊢
  rw [h.aliases]
  split at hname
  · exact hname
  · split at hname
    · next hdot =>
      obtain ⟨hty, hc⟩ := lookupQualified?_eq_some_iff.mp hname
      rw [if_pos hdot]
      exact lookupQualified?_eq_some_iff.mpr ⟨hty, h.contains hc⟩
    · cases hname

end PartOf

/-! ## Types that both know -/

theorem Closed.contains_of_inherits (h : s.Closed) (hty : s.contains ty = true) {ancestor : Ty}
    (hinherits : s.Inherits ty ancestor) : s.contains ancestor = true := by
  induction hinherits with
  | self => exact hty
  | link _ hsuper _ => exact h.supertypes _ _ hsuper

namespace PartOf

theorem ancestors (h : s.PartOf t) (hs : s.Closed) (hty : s.contains ty = true) :
    t.ancestors ty = s.ancestors ty :=
  ancestors_congr fun _ hancestor => h.supertypes (hs.contains_of_inherits hty hancestor)

/-- No array is expected of an exception, so the nesting of arrays in the larger registry does not
matter. -/
theorem isAssignableFrom_throwable (h : s.PartOf t) (hs : s.Closed) (hty : s.contains ty = true) :
    t.isAssignableFrom .throwable ty = s.isAssignableFrom .throwable ty := by
  have hthrowable : t.elementType? .throwable = none := by
    have hnone := hs.throwable
    unfold elementType? at hnone ⊢
    rwa [h.kind? (hs.roots .throwable (by simp))]
  exact isAssignableFrom_congr hs.throwable hthrowable fun ancestor hancestor =>
    h.supertypes (hs.contains_of_inherits hty hancestor)

/-- What the smaller registry knows, the larger one knows in the same way. -/
theorem agree (h : s.PartOf t) (hs : s.Founded) (ht : t.Nested) : s.Agree (fun _ => False) t := by
  have hkind : ∀ ty, s.Share t ty → t.kind? ty = s.kind? ty := fun ty hty => h.kind? hty.1
  refine ⟨fun p => h.share (hs.fixed _ ?_), fun ty hty => h.share ?_, fun name hname => hname.elim,
    hkind, fun ty element hty helement => ?_, fun ty hty => ?_,
    fun ty hty => h.ancestors hs.closed hty.1, fun target source htarget hsource => ?_⟩
  · exact List.mem_append_left _ (List.mem_map_of_mem (by cases p <;> decide))
  · rcases List.mem_cons.mp hty with rfl | hty
    · exact hs.closed.roots .any (by simp)
    · exact hs.fixed ty (List.mem_append_right _ hty)
  · obtain ⟨rank, hrank⟩ := hs.closed.nested
    exact h.share (hrank ty element (elementType?_eq_some_iff.mp helement)).1
  · refine displayName_congr hs.closed.nested ht (fun ty entry entry' hentry hentry' => ?_)
      hty.1 hty.2
    cases (h.entries ty entry hentry).symm.trans hentry'
    exact ⟨rfl, rfl⟩
  · exact isAssignableFrom_agree hs.closed.nested ht (fun ty hs ht => hkind ty ⟨hs, ht⟩)
      (fun ty hty _ => h.ancestors hs.closed hty) htarget hsource

end PartOf

/-- In one registry, every name means what it means. -/
theorem Founded.agree (h : s.Founded) : s.Agree (fun _ => True) s := by
  obtain ⟨hprim, hfixed, -, hkind, helement, hdisplay, hancestors, hassignable⟩ :=
    (PartOf.refl s).agree h h.closed.nested
  refine ⟨hprim, hfixed, fun name _ => ⟨rfl, fun ty hty => ?_⟩, hkind, helement, hdisplay,
    hancestors, hassignable⟩
  exact ⟨h.closed.lookup? hty, h.closed.lookup? hty⟩

/-! ## Resolving again -/

theorem partOf_arrayOf (s : Registry) (element : Ty) : s.PartOf (s.arrayOf element).2 := by
  obtain hsame | ⟨hfresh, haliases, hget⟩ := s.arrayOf_cases element
  · rw [hsame]
    exact .refl s
  refine ⟨fun name => by rw [haliases], fun ty entry he => ?_⟩
  rw [hget, if_neg]
  · exact he
  · rintro rfl
    rw [contains_iff.mpr ⟨entry, he⟩] at hfresh
    cases hfresh

theorem partOf_arrayOfDims (s : Registry) (base : Ty) (dims : Nat) :
    s.PartOf (s.arrayOfDims base dims).2 := by
  induction dims with
  | zero => exact .refl s
  | succ dims ih => exact ih.trans (partOf_arrayOf _ _)

theorem partOf_resolve {name : TypeName} (h : s.resolve name = .ok (ty, u)) : s.PartOf u := by
  obtain ⟨base, -, -, harray⟩ := resolve_eq_ok_iff.mp h
  have hpart := partOf_arrayOfDims s base name.dims
  rwa [harray] at hpart

theorem partOf_resolveOrAny (s : Registry) (valueOnly : Bool) (name : TypeName) :
    s.PartOf (s.resolveOrAny valueOnly name).2.1 := by
  unfold resolveOrAny
  split
  · next ty resolved hok =>
    split at hok
    · exact partOf_resolve (resolveValue_eq_ok_iff.mp hok).1
    · exact partOf_resolve hok
  · exact .refl s

namespace PartOf

theorem arrayOf {element : Ty} (h : (s.arrayOf element).2.PartOf t)
    (hc : s.contains element = true) : t.arrayOf element = ((s.arrayOf element).1, t) := by
  have hname := ((partOf_arrayOf s element).trans h).descriptor hc
  have hknown := h.contains (contains_arrayOf s element)
  have hty := s.arrayOf_fst element
  rw [hty] at hknown ⊢
  unfold Registry.arrayOf
  rw [hname]
  exact if_pos hknown

theorem arrayOfDims {base : Ty} {dims : Nat} (h : (s.arrayOfDims base dims).2.PartOf t)
    (hc : s.contains base = true) : t.arrayOfDims base dims = ((s.arrayOfDims base dims).1, t) := by
  induction dims with
  | zero => rfl
  | succ dims ih =>
    have hinner : (s.arrayOfDims base dims).2.PartOf t := (partOf_arrayOf _ _).trans h
    show (t.arrayOfDims base dims).2.arrayOf (t.arrayOfDims base dims).1 = _
    rw [ih hinner]
    exact h.arrayOf (contains_arrayOfDims hc dims)

/-- A name is resolved to the same type once more. -/
theorem resolve {name : TypeName} (hs : s.Closed) (hname : s.resolve name = .ok (ty, u))
    (h : u.PartOf t) : t.resolve name = .ok (ty, t) := by
  have hpart := (partOf_resolve hname).trans h
  obtain ⟨base, hbase, hvoid, harray⟩ := resolve_eq_ok_iff.mp hname
  refine resolve_eq_ok_iff.mpr ⟨base, hpart.lookup? hbase, hvoid, ?_⟩
  have hdims : t.arrayOfDims base name.dims = ((s.arrayOfDims base name.dims).1, t) :=
    arrayOfDims (by rwa [harray]) (hs.lookup? hbase)
  rwa [harray] at hdims

theorem resolveOrAny {valueOnly : Bool} {name : TypeName} (hs : s.Closed)
    (hname : s.resolveOrAny valueOnly name = (ty, u, [])) (h : u.PartOf t) :
    t.resolveOrAny valueOnly name = (ty, t, []) := by
  obtain ⟨hok, hvoid⟩ := resolve_of_resolveOrAny (congrArg (fun out => out.2.2) hname)
  rw [hname] at hok hvoid
  have hagain := h.resolve hs hok
  unfold Registry.resolveOrAny
  cases valueOnly with
  | false => rw [if_neg Bool.false_ne_true, hagain]
  | true => rw [if_pos rfl, resolveValue_eq_ok_iff.mpr ⟨hagain, hvoid rfl⟩]

end PartOf

end ClassCompiler.Registry
