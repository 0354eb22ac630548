import ClassCompiler.Proofs.Evolution
import ClassCompiler.Proofs.Unit.Names

/-!
# Arrays are interned

An array type is found by the name that its element's descriptor gives it. Classes may be registered
again, and supertypes replaced, but as long as the names in use do not collide, the descriptor of a
type never changes once an array was made of it. So the array over a type is one type, from any
registry of a run, and its element can be read back.

A class whose name has the hash of `[I` takes the place of the array over `int`. Such names exist.

* `Registry.Interned`: the invariant of a run
* `Registry.Endures`: what a run keeps
* `Registry.Interned.change`: one operation
* `Registry.ArrayOver`, `Registry.Interned.arrayOver`: the arrays over a base type
* `Registry.resolve_interns`, `Registry.intruder_replaces_array`
-/

namespace ClassCompiler

namespace Registry

variable {names : List String} {s t u : Registry} {ty element base : Ty}

/-! ## Operations without collisions -/

/-- What is registered is a class or an interface that is not named like an array, and arrays are
made of registered types. The new name is among the given ones. -/
def Change.Regular (names : List String) (registry : Registry) : Change → Prop
  | .register entry => (entry.kind = .plainClass ∨ entry.kind = .interface)
      ∧ entry.internalName.toList.head? ≠ some '[' ∧ entry.internalName ∈ names
  | .arrayOf element => registry.Denotes element ∧ "[" ++ registry.descriptor element ∈ names
  | _ => True

theorem Change.Regular.isOrdinary {change : Change} (h : change.Regular names s) :
    change.IsOrdinary := by
  cases change with
  | register entry => exact h.1
  | _ => trivial

/-- The names of the builtin types. -/
def builtinNames : List String := builtin.entries.pairs.map fun pair => pair.2.internalName

/-- Only arrays have names with a bracket in front, and such a name is that of the array over its
element. All names are among the given ones. -/
structure Interned (names : List String) (registry : Registry) : Prop extends
    registry.Written where
  named : ∀ ty name kind, registry.shown? ty = some (name, kind) → name ∈ names
  plain : ∀ ty name kind, registry.shown? ty = some (name, kind) →
    name.toList.head? = some '[' → ∃ element, kind = .array element
  arrays : ∀ ty name element, registry.shown? ty = some (name, .array element) →
    name = "[" ++ registry.descriptor element ∧ registry.Denotes element
  nested : registry.Nested

/-- What was registered still is, with the same descriptor, and arrays have the same elements. -/
structure Endures (s t : Registry) : Prop where
  denotes : ∀ ty, s.Denotes ty → t.Denotes ty
  descriptor : ∀ ty, s.Denotes ty → t.descriptor ty = s.descriptor ty
  elements : ∀ ty element, s.elementType? ty = some element → t.elementType? ty = some element

namespace Endures

theorem refl (s : Registry) : s.Endures s := ⟨fun _ h => h, fun _ _ => rfl, fun _ _ h => h⟩

theorem trans (h : s.Endures t) (h' : t.Endures u) : s.Endures u :=
  ⟨fun ty hty => h'.denotes ty (h.denotes ty hty),
    fun ty hty => (h'.descriptor ty (h.denotes ty hty)).trans (h.descriptor ty hty),
    fun ty element hty => h'.elements ty element (h.elements ty element hty)⟩

/-- Registered types show the same names and kinds. -/
theorem of_shown (h : ∀ ty, s.contains ty = true → t.shown? ty = s.shown? ty) : s.Endures t := by
  have hknown : ∀ ty pair, s.shown? ty = some pair → t.shown? ty = s.shown? ty := by
    intro ty pair hty
    apply h
    rw [contains_eq_shown, hty]
    rfl
  refine ⟨fun ty hty => ?_, fun ty hty => ?_, fun ty element hty => ?_⟩
  · obtain ⟨name, kind, hshown, hkinds⟩ := hty
    exact ⟨name, kind, (hknown ty _ hshown).trans hshown, hkinds⟩
  · obtain ⟨name, kind, hshown, -⟩ := hty
    exact descriptor_congr_shown (hknown ty _ hshown)
  · obtain ⟨name, hshown⟩ := elementType?_eq_some_iff_shown.mp hty
    exact elementType?_eq_some_iff_shown.mpr ⟨name, (hknown ty _ hshown).trans hshown⟩

end Endures

/-! ## One operation -/

theorem head?_bracket (text : String) : ("[" ++ text).toList.head? = some '[' := by
  simp

/-- A class that is registered again had its name before. -/
theorem Interned.name_eq (hnames : HandlesApart names) (h : s.Interned names) {name old : String}
    {kind : TypeKind} (hname : name ∈ names) (hshown : s.shown? (Ty.named name) = some (old, kind)) :
    old = name :=
  (hnames name hname old (h.named _ old kind hshown) (h.own _ old kind hshown)).symm

theorem Denotes.contains (h : s.Denotes ty) : s.contains ty = true := by
  obtain ⟨name, kind, hshown, -⟩ := h
  rw [contains_eq_shown, hshown]
  rfl

/-- A class in the place of another one of its name. -/
theorem Interned.endures_register (hnames : HandlesApart names) (h : s.Interned names)
    {entry : TypeEntry} (hregular : (Change.register entry).Regular names s) :
    s.Endures (s.register entry) := by
  obtain ⟨hclass, hhead, hname⟩ := hregular
  have hshown : ∀ ty, (s.register entry).shown? ty = if ty = Ty.named entry.internalName
      then some (entry.internalName, entry.kind) else s.shown? ty :=
    fun ty => s.shown?_change ty (.register entry)
  have hnew : (s.register entry).shown? (Ty.named entry.internalName)
      = some (entry.internalName, entry.kind) := by rw [hshown, if_pos rfl]
  have hother : ∀ ty, ty ≠ Ty.named entry.internalName →
      (s.register entry).shown? ty = s.shown? ty := by
    intro ty hty
    rw [hshown, if_neg hty]
  refine ⟨fun ty hty => ?_, fun ty hty => ?_, fun ty element hty => ?_⟩
  · by_cases hsame : ty = Ty.named entry.internalName
    · rw [hsame]
      obtain ⟨-, hnull, hany, -⟩ := (show (Change.register entry).IsOrdinary from hclass).not_special
      exact ⟨_, _, hnew, hnull, hany⟩
    · obtain ⟨name, kind, hold, hkinds⟩ := hty
      exact ⟨name, kind, (hother ty hsame).trans hold, hkinds⟩
  · by_cases hsame : ty = Ty.named entry.internalName
    · cases hprim : ty.prim? with
      | some p => rw [Ty.prim?_eq_some_iff.mp hprim, descriptor_prim, descriptor_prim]
      | none =>
        obtain ⟨old, kind, hold, hnull, hany⟩ := hty
        rw [hsame] at hold
        have holdName := h.name_eq hnames hname hold
        rw [hsame] at hprim ⊢
        rw [descriptor_class hprim hnew hclass]
        cases kind with
        | primitive =>
          obtain ⟨p, hp⟩ := h.prim _ old hold
          rw [hp, Ty.prim?_prim] at hprim
          cases hprim
        | null => exact absurd rfl hnull
        | any => exact absurd rfl hany
        | plainClass => rw [descriptor_class hprim hold (.inl rfl), holdName]
        | interface => rw [descriptor_class hprim hold (.inr rfl), holdName]
        | array element =>
          obtain ⟨text, htext⟩ := h.array _ old element hold
          rw [← holdName, htext] at hhead
          exact absurd (head?_bracket text) hhead
    · exact descriptor_congr_shown (hother ty hsame)
  · obtain ⟨old, hold⟩ := elementType?_eq_some_iff_shown.mp hty
    refine elementType?_eq_some_iff_shown.mpr ⟨old, (hother ty fun hsame => ?_).trans hold⟩
    rw [hsame] at hold
    obtain ⟨text, htext⟩ := h.array _ old element hold
    rw [← h.name_eq hnames hname hold, htext] at hhead
    exact hhead (head?_bracket text)

theorem Interned.endures_change (hnames : HandlesApart names) (h : s.Interned names)
    {change : Change} (hregular : change.Regular names s) : s.Endures (s.change change) := by
  have hshown := fun ty => s.shown?_change ty change
  cases change with
  | register entry => exact h.endures_register hnames hregular
  | arrayOf made =>
    refine .of_shown fun ty hty => ?_
    rw [hshown]
    exact if_neg fun hfresh => by simp [hty] at hfresh
  | setSupertypes _ _ _ | addAlias _ _ | importClass _ => exact .of_shown fun ty _ => hshown ty

theorem Nested.congr (h : s.Nested) (hshown : ∀ ty, t.shown? ty = s.shown? ty) : t.Nested := by
  obtain ⟨rank, hrank⟩ := h
  refine ⟨rank, fun ty element hkind => ?_⟩
  rw [kind?_eq_shown, hshown, ← kind?_eq_shown] at hkind
  rw [contains_eq_shown, hshown, ← contains_eq_shown]
  exact hrank ty element hkind

theorem Interned.nested_change (h : s.Interned names) {change : Change}
    (hregular : change.Regular names s) : (s.change change).Nested := by
  have hshown := fun ty => s.shown?_change ty change
  cases change with
  | register entry =>
    exact h.nested.register hregular.isOrdinary.not_special.2.2.2
  | arrayOf made => exact h.nested.arrayOf hregular.1.contains
  | setSupertypes _ _ _ | addAlias _ _ | importClass _ => exact h.nested.congr hshown

/-- An operation keeps what was known, and leads to a registry of the same sort. -/
theorem Interned.change (hnames : HandlesApart names) (h : s.Interned names) {change : Change}
    (hregular : change.Regular names s) :
    s.Endures (s.change change) ∧ (s.change change).Interned names := by
  have hendures := h.endures_change hnames hregular
  refine ⟨hendures, h.toWritten.change hregular.isOrdinary, fun ty name kind hty => ?_,
    fun ty name kind hty hhead => ?_, fun ty name element hty => ?_, h.nested_change hregular⟩
  · obtain hold | ⟨_, rfl, -, rfl, -⟩ | ⟨_, rfl, -, rfl, -⟩ := shown?_change_cases hty
    · exact h.named ty name kind hold
    · exact hregular.2.2
    · exact hregular.2
  · obtain hold | ⟨_, rfl, -, rfl, -⟩ | ⟨made, rfl, -, -, hkind⟩ := shown?_change_cases hty
    · exact h.plain ty name kind hold hhead
    · exact absurd hhead hregular.2.1
    · exact ⟨made, hkind⟩
  · obtain hold | ⟨_, rfl, -, -, hkind⟩ | ⟨_, rfl, -, hname, hkind⟩ := shown?_change_cases hty
    · obtain ⟨hname, hdenotes⟩ := h.arrays ty name element hold
      exact ⟨by rw [hendures.descriptor element hdenotes, hname], hendures.denotes element hdenotes⟩
    · exact absurd hkind.symm (hregular.isOrdinary.not_special.2.2.2 element)
    · cases hkind
      exact ⟨by rw [hendures.descriptor element hregular.1, hname],
        hendures.denotes element hregular.1⟩

theorem Evolves.interned (hnames : HandlesApart names) (h : Evolves (Change.Regular names) s t)
    (hs : s.Interned names) : s.Endures t ∧ t.Interned names := by
  refine h.preserves (P := fun registry => s.Endures registry ∧ registry.Interned names)
    ⟨.refl s, hs⟩ fun registry change hkept hregular => ?_
  obtain ⟨hendures, hinterned⟩ := hkept.2.change hnames hregular
  exact ⟨hkept.1.trans hendures, hinterned⟩

theorem interned_builtin (hbuiltin : builtinNames ⊆ names) : builtin.Interned names := by
  have hentries : ∀ pair ∈ builtin.entries.pairs, pair.2.internalName.toList.head? ≠ some '['
      ∧ pair.2.kind ∈ [.primitive, .null, .any, .plainClass] := by decide +kernel
  have hshown : ∀ ty name kind, builtin.shown? ty = some (name, kind) → name ∈ builtinNames
      ∧ name.toList.head? ≠ some '[' ∧ kind ∈ [.primitive, .null, .any, .plainClass] := by
    intro ty name kind h
    obtain ⟨entry, hentry, heq⟩ := Option.map_eq_some_iff.mp h
    cases heq
    have hmem := Table.mem_of_get? hentry
    exact ⟨List.mem_map.mpr ⟨_, hmem, rfl⟩, hentries _ hmem⟩
  have hnone : ∀ ty name element, builtin.shown? ty ≠ some (name, .array element) := by
    intro ty name element h
    have hkind := (hshown ty name _ h).2.2
    simp at hkind
  exact ⟨written_builtin, fun ty name kind h => hbuiltin (hshown ty name kind h).1,
    fun ty name kind h hhead => absurd hhead (hshown ty name kind h).2.1,
    fun ty name element h => absurd h (hnone ty name element), closed_builtin.nested⟩

/-! ## Arrays -/

/-- The name of the array with a number of dimensions over a type with a descriptor. -/
def arrayName (dims : Nat) (descriptor : String) : String :=
  String.ofList (List.replicate dims '[') ++ descriptor

/-- The element of an array, taken a number of times. -/
def peel? (registry : Registry) : Nat → Ty → Option Ty
  | 0, ty => some ty
  | depth + 1, ty => (registry.elementType? ty).bind (registry.peel? depth)

theorem toList_arrayName (dims : Nat) (descriptor : String) :
    (arrayName dims descriptor).toList = List.replicate dims '[' ++ descriptor.toList := by
  simp [arrayName]

theorem bracket_arrayName (dims : Nat) (descriptor : String) :
    "[" ++ arrayName dims descriptor = arrayName (dims + 1) descriptor := by
  apply String.toList_inj.mp
  simp [toList_arrayName, List.replicate_succ]

/-- The brackets of an array name can be counted if what is behind them starts with none. -/
theorem arrayName_inj {one two : String} {dims dims' : Nat} (hone : one.toList.head? ≠ some '[')
    (htwo : two.toList.head? ≠ some '[') (heq : arrayName dims one = arrayName dims' two) :
    dims = dims' ∧ one = two := by
  induction dims generalizing dims' with
  | zero =>
    have hlists := congrArg String.toList heq
    rw [toList_arrayName, toList_arrayName] at hlists
    cases dims' with
    | zero => exact ⟨rfl, String.toList_inj.mp hlists⟩
    | succ dims' => exact absurd (congrArg List.head? hlists) hone
  | succ dims ih =>
    cases dims' with
    | zero =>
      have hlists := congrArg String.toList heq
      rw [toList_arrayName, toList_arrayName] at hlists
      exact absurd (congrArg List.head? hlists).symm htwo
    | succ dims' =>
      rw [← bracket_arrayName, ← bracket_arrayName] at heq
      have hrest : arrayName dims one = arrayName dims' two := by
        apply String.toList_inj.mp
        have hlists := congrArg String.toList heq
        simpa using hlists
      obtain ⟨rfl, hsame⟩ := ih hrest
      exact ⟨rfl, hsame⟩

theorem Endures.peel? (h : s.Endures t) {depth : Nat} (hpeel : s.peel? depth ty = some base) :
    t.peel? depth ty = some base := by
  induction depth generalizing ty with
  | zero => exact hpeel
  | succ depth ih =>
    obtain ⟨element, helement, hrest⟩ := Option.bind_eq_some_iff.mp hpeel
    exact Option.bind_eq_some_iff.mpr ⟨element, h.elements ty element helement, ih hrest⟩

/-- No array has the handle of a primitive. -/
theorem prim?_bracket (hnames : HandlesApart names) (hbuiltin : builtinNames ⊆ names)
    {text : String} (hmem : "[" ++ text ∈ names) : (Ty.named ("[" ++ text)).prim? = none := by
  have hkeywords : ∀ p ∈ Prim.all, p.keyword ∈ builtinNames
      ∧ p.keyword.toList.head? ≠ some '[' := by decide +kernel
  rw [Ty.prim?_eq_none_iff]
  intro p heq
  obtain ⟨hkeyword, hhead⟩ := hkeywords p (Ty.mem_all p)
  rw [Ty.prim_eq_named] at heq
  have hsame := hnames _ hmem _ (hbuiltin hkeyword) heq
  rw [← hsame] at hhead
  exact hhead (head?_bracket text)

/-- What is found under the name of an array is that array. -/
theorem Interned.shown?_arrayOf (hnames : HandlesApart names) (h : s.Interned names)
    (helement : s.Denotes element) (hname : "[" ++ s.descriptor element ∈ names) :
    (s.arrayOf element).2.shown? (s.arrayOf element).1
      = some ("[" ++ s.descriptor element, .array element) := by
  have hshown : (s.arrayOf element).2.shown? (s.arrayOf element).1 = _ :=
    s.shown?_change (s.arrayOf element).1 (.arrayOf element)
  rw [hshown]
  dsimp only
  by_cases hfresh : s.contains (s.arrayOf element).1 = false
  · exact if_pos ⟨rfl, hfresh⟩
  · rw [if_neg fun hboth => hfresh hboth.2]
    rw [Bool.not_eq_false, contains_eq_shown] at hfresh
    obtain ⟨⟨old, kind⟩, hold⟩ := Option.isSome_iff_exists.mp hfresh
    rw [arrayOf_fst] at hold ⊢
    obtain rfl := h.name_eq hnames hname hold
    obtain ⟨other, rfl⟩ := h.plain _ _ _ hold (head?_bracket _)
    obtain ⟨hdescriptors, hother⟩ := h.arrays _ _ _ hold
    have hsame : s.descriptor element = s.descriptor other := by
      apply String.toList_inj.mp
      have hlists := congrArg String.toList hdescriptors
      simpa using hlists
    rw [hold, h.eq_of_descriptor_eq helement hother hsame]

/-- In a later registry, a type is the array with a number of dimensions over a base type. -/
structure ArrayOver (s : Registry) (base : Ty) (dims : Nat) (ty : Ty) (t : Registry) : Prop where
  element : t.peel? dims ty = some base
  denotes : t.Denotes ty
  descriptor : t.descriptor ty = arrayName dims (s.descriptor base)
  displayName : t.displayName ty = s.displayName base ++ String.join (List.replicate dims "[]")

theorem join_replicate_succ (dims : Nat) (text : String) :
    String.join (List.replicate (dims + 1) text)
      = String.join (List.replicate dims text) ++ text := by
  rw [List.replicate_succ', String.join_append]
  simp

theorem ArrayOver.arrayOf (hnames : HandlesApart names) (hbuiltin : builtinNames ⊆ names)
    {dims : Nat} (hinterned : t.Interned names) (h : ArrayOver s base dims ty t)
    (hname : arrayName (dims + 1) (s.descriptor base) ∈ names) :
    t.Endures (t.arrayOf ty).2 ∧ (t.arrayOf ty).2.Interned names
      ∧ ArrayOver s base (dims + 1) (t.arrayOf ty).1 (t.arrayOf ty).2 := by
  have hbracket : "[" ++ t.descriptor ty = arrayName (dims + 1) (s.descriptor base) := by
    rw [h.descriptor, bracket_arrayName]
  rw [← hbracket] at hname
  obtain ⟨hendures, hlater⟩ := hinterned.change hnames
    (show (Change.arrayOf ty).Regular names t from ⟨h.denotes, hname⟩)
  have hshown := hinterned.shown?_arrayOf hnames h.denotes hname
  have hprim : (t.arrayOf ty).1.prim? = none := by
    rw [arrayOf_fst]
    exact prim?_bracket hnames hbuiltin hname
  have hkind : (t.arrayOf ty).2.kind? (t.arrayOf ty).1 = some (.array ty) := by
    rw [kind?_eq_shown, hshown]
    rfl
  have hpart := partOf_arrayOf t ty
  have hinner : (t.arrayOf ty).2.displayName ty = t.displayName ty := by
    refine displayName_congr hinterned.nested hlater.nested (fun other entry entry' hone htwo => ?_)
      h.denotes.contains (hpart.contains h.denotes.contains)
    cases (hpart.entries other entry hone).symm.trans htwo
    exact ⟨rfl, rfl⟩
  refine ⟨hendures, hlater, ?_, ?_, ?_, ?_⟩
  · have helement : (t.arrayOf ty).2.elementType? (t.arrayOf ty).1 = some ty :=
      elementType?_eq_some_iff.mpr hkind
    unfold Registry.peel?
    rw [helement]
    exact Endures.peel? hendures h.element
  · exact ⟨_, _, hshown, by simp, by simp⟩
  · rw [descriptor_array hprim hshown, hbracket]
  · have hnested : (t.arrayOf ty).2.Nested := hlater.nested
    rw [hnested.displayName_array hprim hkind, hinner, h.displayName, join_replicate_succ,
      String.append_assoc]

theorem Interned.arrayOver (hnames : HandlesApart names) (hbuiltin : builtinNames ⊆ names)
    (h : s.Interned names) (hbase : s.Denotes base) (dims : Nat)
    (hdims : ∀ depth, 0 < depth → depth ≤ dims → arrayName depth (s.descriptor base) ∈ names) :
    s.Endures (s.arrayOfDims base dims).2 ∧ (s.arrayOfDims base dims).2.Interned names
      ∧ ArrayOver s base dims (s.arrayOfDims base dims).1 (s.arrayOfDims base dims).2 := by
  induction dims with
  | zero =>
    refine ⟨.refl s, h, rfl, hbase, ?_, ?_⟩
    · simp [arrayOfDims, arrayName]
    · simp [arrayOfDims, String.join]
  | succ dims ih =>
    obtain ⟨hendures, hinterned, hover⟩ := ih fun depth hpos hle => hdims depth hpos (by omega)
    obtain ⟨hendures', hinterned', hover'⟩ :=
      hover.arrayOf hnames hbuiltin hinterned (hdims (dims + 1) (by omega) (by omega))
    exact ⟨hendures.trans hendures', hinterned', hover'⟩

/-! ## Resolving -/

/-- A registered type that is no array. -/
def IsBase (registry : Registry) (ty : Ty) : Prop :=
  registry.Denotes ty ∧ registry.elementType? ty = none

theorem Written.head?_descriptor (h : s.Written) (hbase : s.IsBase base) :
    (s.descriptor base).toList.head? ≠ some '[' := by
  obtain ⟨⟨name, kind, hshown, hnull, hany⟩, hnone⟩ := hbase
  have hclass : ("L" ++ name ++ ";").toList.head? ≠ some '[' := by simp
  cases hprim : base.prim? with
  | some p =>
    rw [Ty.prim?_eq_some_iff.mp hprim, descriptor_prim]
    obtain ⟨c, hc, -, harray, -⟩ := p.exists_letter
    simpa [hc] using harray
  | none =>
    cases kind with
    | primitive =>
      obtain ⟨p, rfl⟩ := h.prim base name hshown
      rw [Ty.prim?_prim] at hprim
      cases hprim
    | null => exact absurd rfl hnull
    | any => exact absurd rfl hany
    | plainClass =>
      rw [descriptor_class hprim hshown (.inl rfl)]
      exact hclass
    | interface =>
      rw [descriptor_class hprim hshown (.inr rfl)]
      exact hclass
    | array element =>
      rw [elementType?_eq_some_iff_shown.mpr ⟨name, hshown⟩] at hnone
      cases hnone

/-- A type name with its dimensions, resolved in a registry that any operations have led to: the type
is the array with these dimensions over the type that the base name means. The name is resolved to it
again, no other type is reached by another base or by other dimensions, and no later operation takes
its element away. -/
theorem resolve_interns {name : TypeName} (hnames : HandlesApart names)
    (hbuiltin : builtinNames ⊆ names) (hs : Evolves (Change.Regular names) builtin s)
    (hlookup : s.lookup? name.name = some base) (hbase : s.IsBase base)
    (hdims : ∀ depth, 0 < depth → depth ≤ name.dims →
      arrayName depth (s.descriptor base) ∈ names)
    (hresolve : s.resolve name = .ok (ty, t)) :
    t.peel? name.dims ty = some base
      ∧ t.descriptor ty = arrayName name.dims (s.descriptor base)
      ∧ t.displayName ty = s.displayName base ++ String.join (List.replicate name.dims "[]")
      ∧ (∀ known entry, s.get? known = some entry → t.get? known = some entry)
      ∧ t.resolve name = .ok (ty, t)
      ∧ ∀ u, Evolves (Change.Regular names) t u →
        (∀ array element, t.elementType? array = some element →
          u.elementType? array = some element)
        ∧ ∀ other base' ty' v, u.lookup? other.name = some base' → u.IsBase base' →
          (∀ depth, 0 < depth → depth ≤ other.dims →
            arrayName depth (u.descriptor base') ∈ names) →
          u.resolve other = .ok (ty', v) →
          (ty' = ty ↔ base' = base ∧ other.dims = name.dims) := by
  obtain ⟨-, hinterned⟩ := hs.interned hnames (interned_builtin hbuiltin)
  obtain ⟨found, hfound, hvoid, harray⟩ := resolve_eq_ok_iff.mp hresolve
  obtain rfl : found = base := Option.some.inj (hfound.symm.trans hlookup)
  obtain ⟨hendures, hlater, hover⟩ :=
    hinterned.arrayOver hnames hbuiltin hbase.1 name.dims hdims
  have hpart := partOf_arrayOfDims s found name.dims
  have hagain : t.arrayOfDims found name.dims = (ty, t) := by
    have hsame := PartOf.arrayOfDims (PartOf.refl (s.arrayOfDims found name.dims).2)
      hbase.1.contains
    rwa [harray] at hsame
  rw [harray] at hendures hlater hover hpart
  refine ⟨hover.element, hover.descriptor, hover.displayName, hpart.entries,
    resolve_eq_ok_iff.mpr ⟨found, hpart.lookup? hlookup, hvoid, hagain⟩, fun u hu => ?_⟩
  obtain ⟨hkeeps, hu⟩ := hu.interned hnames hlater
  refine ⟨hkeeps.elements, fun other base' ty' v hlookup' hbase' hdims' hresolve' => ?_⟩
  obtain ⟨found', hfound', -, harray'⟩ := resolve_eq_ok_iff.mp hresolve'
  obtain rfl : found' = base' := Option.some.inj (hfound'.symm.trans hlookup')
  obtain ⟨hkeeps', hv, hover'⟩ := hu.arrayOver hnames hbuiltin hbase'.1 other.dims hdims'
  rw [harray'] at hkeeps' hv hover'
  -- the descriptors of both types, in the last registry
  have hlast := hkeeps.trans hkeeps'
  have hdescriptor : v.descriptor ty = arrayName name.dims (s.descriptor found) :=
    (hlast.descriptor ty hover.denotes).trans hover.descriptor
  have hbases : u.descriptor found = s.descriptor found :=
    (hendures.trans hkeeps).descriptor found hbase.1
  have hdenotes : u.Denotes found := (hendures.trans hkeeps).denotes found hbase.1
  constructor
  · rintro rfl
    have hsame := hover'.descriptor.symm.trans hdescriptor
    obtain ⟨hcount, htexts⟩ := arrayName_inj (hu.head?_descriptor hbase')
      (hinterned.head?_descriptor hbase) hsame
    exact ⟨hu.eq_of_descriptor_eq hbase'.1 hdenotes (htexts.trans hbases.symm), hcount⟩
  · rintro ⟨rfl, hcount⟩
    refine hv.eq_of_descriptor_eq hover'.denotes (hlast.denotes ty hover.denotes) ?_
    rw [hover'.descriptor, hdescriptor, hcount, hbases]

theorem resolve_of_lookup {name : TypeName} (hlookup : s.lookup? name.name = some base)
    (hvoid : base ≠ .void) : s.resolve name = .ok (s.arrayOfDims base name.dims) := by
  unfold resolve
  rw [hlookup]
  exact if_neg fun hboth => hvoid hboth.2

/-! ## Collisions -/

/-- A class whose name has the hash of `[I`. -/
def intruder : TypeEntry where
  internalName := "SZYoQVBCceRbvPwq"
  kind := .plainClass
  superclass := some .object

/-- The builtin types and that class. -/
def intruded : Registry := builtin.change (.register intruder)

/-- What `int[]` resolves to in it. -/
def intrudedArray : Ty × Registry := intruded.arrayOfDims .int 1

/-- The class is found in the place of the array over `int`. -/
theorem intruder_replaces_array :
    intruder.internalName.toList.head? ≠ some '['
      ∧ intruded.lookup? "int" = some .int ∧ intruded.IsBase .int
      ∧ intruded.resolve ⟨"int", 1, 1⟩ = .ok intrudedArray
      ∧ intrudedArray.2.elementType? intrudedArray.1 = none
      ∧ intrudedArray.2.descriptor intrudedArray.1 = "LSZYoQVBCceRbvPwq;"
      ∧ intrudedArray.2.displayName intrudedArray.1 = "SZYoQVBCceRbvPwq" := by
  have hlookup : intruded.lookup? "int" = some .int := by decide +kernel
  have hshown : intruded.shown? .int = some ("int", .primitive) := by decide +kernel
  have helement : intruded.elementType? .int = none := by decide +kernel
  have hresolve : intruded.resolve ⟨"int", 1, 1⟩ = .ok intrudedArray :=
    resolve_of_lookup hlookup (by decide +kernel)
  exact ⟨by decide, hlookup, ⟨⟨_, _, hshown, by simp, by simp⟩, helement⟩, hresolve,
    by decide +kernel, by decide +kernel, by decide +kernel⟩

/-! ## A run -/

/-- The names of the builtin types, of a class and an interface, and of arrays over them. -/
def shapeNames : List String :=
  builtinNames ++ ["Shape", "Disk", "[LShape;", "[[LShape;", "[I"]

/-- An interface with an alias, and a class that implements it. -/
def shapes : Registry :=
  (((builtin.change (.register { internalName := "Shape", kind := .interface })).change
    (.addAlias "Shape" (Ty.named "Shape"))).change
    (.register { internalName := "Disk", kind := .plainClass })).change
    (.setSupertypes (Ty.named "Disk") (some .object) [Ty.named "Shape"])

theorem resolve_interns_shapes :
    let made := shapes.arrayOfDims (Ty.named "Shape") 2
    HandlesApart shapeNames ∧ builtinNames ⊆ shapeNames
      ∧ Evolves (Change.Regular shapeNames) builtin shapes
      ∧ shapes.lookup? "Shape" = some (Ty.named "Shape") ∧ shapes.IsBase (Ty.named "Shape")
      ∧ (∀ depth, 0 < depth → depth ≤ 2 →
        arrayName depth (shapes.descriptor (Ty.named "Shape")) ∈ shapeNames)
      ∧ shapes.resolve ⟨"Shape", 2, 1⟩ = .ok made
      ∧ made.2.peel? 2 made.1 = some (Ty.named "Shape")
      ∧ (made.2.change (.arrayOf .int)).elementType? made.1 = some (Ty.named "[LShape;") := by
  intro made
  have hnames : HandlesApart shapeNames := by decide +kernel
  have hbuiltin : builtinNames ⊆ shapeNames := List.subset_append_left _ _
  have hevolves : Evolves (Change.Regular shapeNames) builtin shapes := by
    refine .step (.step (.step (.step .refl (.register _) ⟨.inr rfl, ?_, ?_⟩) (.addAlias _ _)
      trivial) (.register _) ⟨.inl rfl, ?_, ?_⟩) (.setSupertypes _ _ _) trivial
    all_goals decide +kernel
  have hlookup : shapes.lookup? "Shape" = some (Ty.named "Shape") := by decide +kernel
  have hshown : shapes.shown? (Ty.named "Shape") = some ("Shape", .interface) := by decide +kernel
  have hbase : shapes.IsBase (Ty.named "Shape") :=
    ⟨⟨_, _, hshown, by simp, by simp⟩, by decide +kernel⟩
  have hdims : ∀ depth, 0 < depth → depth ≤ 2 →
      arrayName depth (shapes.descriptor (Ty.named "Shape")) ∈ shapeNames := by
    intro depth hpos hle
    obtain rfl | rfl : depth = 1 ∨ depth = 2 := by omega
    · decide +kernel
    · decide +kernel
  have hresolve : shapes.resolve ⟨"Shape", 2, 1⟩ = .ok made :=
    resolve_of_lookup hlookup (by decide +kernel)
  obtain ⟨hpeel, -, -, -, -, hlater⟩ :=
    resolve_interns hnames hbuiltin hevolves hlookup hbase hdims hresolve
  have hint : made.2.shown? .int = some ("int", .primitive) := by decide +kernel
  have hregular : Change.Regular shapeNames made.2 (.arrayOf .int) :=
    ⟨⟨_, _, hint, by simp, by simp⟩, by decide +kernel⟩
  have hkept := (hlater _ (.step .refl (.arrayOf .int) hregular)).1 made.1
    (Ty.named "[LShape;") (by decide +kernel)
  exact ⟨hnames, hbuiltin, hevolves, hlookup, hbase, hdims, hresolve, hpeel, hkept⟩

end Registry

end ClassCompiler
