import ClassCompiler.Proofs.Unit.Restubbing

/-!
# Units stubbed again

A unit that was stubbed is stubbed once more, over a registry that knows all that the first stub
ended with. The declaration of a class takes its supertypes from the registry, and the stub puts
them back; in between, the classes to come are as they were when the unit was new, and all else is
as the registry had it. So the stubs are the same, and in the end nothing was learnt.

* `Registry.Over`: a registry in which some classes are as they were before
* `ClassDecl.stub_repeats`, `stubClasses_repeats`, `CompilationUnit.stub_repeats`
-/

namespace ClassCompiler

open Check

/-! ## Registries on the way -/

namespace Registry

/-- The second registry has all entries of the first one but for some types, and the same aliases. -/
structure PartBut (types : List Ty) (s t : Registry) : Prop where
  aliases : ∀ name, t.aliases.get? name = s.aliases.get? name
  entries : ∀ ty ∉ types, ∀ entry, s.get? ty = some entry → t.get? ty = some entry

/-- Some types are as in one registry, and all others as in the full one. -/
structure Over (types : List Ty) (full s t : Registry) : Prop where
  aliases : ∀ name, t.aliases.get? name = s.aliases.get? name
  pending : ∀ ty ∈ types, t.get? ty = s.get? ty
  done : ∀ ty ∉ types, t.get? ty = full.get? ty

variable {s t u full : Registry} {ty : Ty} {types : List Ty}

theorem PartOf.partBut (h : s.PartOf t) (types : List Ty) : s.PartBut types t :=
  ⟨h.aliases, fun ty _ => h.entries ty⟩

theorem PartBut.trans (h : s.PartBut types t) (h' : t.PartBut types u) : s.PartBut types u :=
  ⟨fun name => (h'.aliases name).trans (h.aliases name),
    fun ty hty entry he => h'.entries ty hty entry (h.entries ty hty entry he)⟩

theorem PartBut.of_subset {more : List Ty} (h : s.PartBut types t) (hsub : types ⊆ more) :
    s.PartBut more t :=
  ⟨h.aliases, fun ty hty => h.entries ty fun hmem => hty (hsub hmem)⟩

theorem Over.part (h : Over types full s t) (h' : s.PartBut types full) : s.PartOf t := by
  refine ⟨h.aliases, fun ty entry he => ?_⟩
  by_cases hty : ty ∈ types
  · rw [h.pending ty hty, he]
  · rw [h.done ty hty, h'.entries ty hty entry he]

/-- The types to come are known, and stay what they are when more is learnt. -/
theorem Over.learn (h : Over types full s t) (hpart : s.PartOf u)
    (htypes : ∀ ty ∈ types, s.contains ty = true) : Over types full u t :=
  ⟨fun name => (h.aliases name).trans (hpart.aliases name).symm,
    fun ty hty => (h.pending ty hty).trans (hpart.get? (htypes ty hty)).symm, h.done⟩

theorem partBut_setSupertypes (s : Registry) (ty : Ty) (superclass : Option Ty)
    (interfaces : List Ty) : s.PartBut [ty] (s.setSupertypes ty superclass interfaces) := by
  refine ⟨fun _ => rfl, fun other hother entry he => ?_⟩
  rw [get?_setSupertypes, if_neg (fun heq => hother (List.mem_singleton.mpr heq))]
  exact he

theorem contains_setSupertypes {other : Ty} {superclass : Option Ty} {interfaces : List Ty}
    (h : s.contains other = true) :
    (s.setSupertypes ty superclass interfaces).contains other = true :=
  (below_setSupertypes s ty superclass interfaces).contains h

/-- A class gets its supertypes, and one type less is to come. -/
theorem Over.setSupertypes {superclass : Option Ty} {interfaces : List Ty}
    (h : Over (ty :: types) full s t) (hty : s.contains ty = true)
    (hfull : (s.setSupertypes ty superclass interfaces).PartBut types full) :
    Over types full (s.setSupertypes ty superclass interfaces)
      (t.setSupertypes ty superclass interfaces) := by
  have hset : (t.setSupertypes ty superclass interfaces).get? ty
      = (s.setSupertypes ty superclass interfaces).get? ty := by
    rw [get?_setSupertypes, get?_setSupertypes, if_pos rfl, if_pos rfl,
      h.pending ty List.mem_cons_self]
  have hother : ∀ r : Registry, ∀ other, other ≠ ty →
      (r.setSupertypes ty superclass interfaces).get? other = r.get? other := fun r other hne => by
    rw [get?_setSupertypes, if_neg hne]
  refine ⟨h.aliases, fun other hmem => ?_, fun other hmem => ?_⟩
  · by_cases heq : other = ty
    · rw [heq, hset]
    · rw [hother t other heq, hother s other heq, h.pending other (List.mem_cons_of_mem _ hmem)]
  · by_cases heq : other = ty
    · have hknown : (s.setSupertypes ty superclass interfaces).contains ty = true :=
        contains_setSupertypes hty
      obtain ⟨entry, hentry⟩ := contains_iff.mp hknown
      rw [heq, hset, hentry, hfull.entries ty (heq ▸ hmem) entry hentry]
    · rw [hother t other heq, h.done other fun hcons =>
        (List.mem_cons.mp hcons).elim heq hmem]

end Registry

/-! ## Classes -/

/-- A declaration at a later time: its methods may have been analyzed. -/
def ClassDecl.SameStubs (before after : ClassDecl) : Prop :=
  ∃ members, after = { before with members } ∧ Member.SameStubs before.members members

/-- A declaration with its methods ready for their analysis again. -/
def ClassDecl.restubbed (decl : ClassDecl) : ClassDecl :=
  { decl with members := decl.members.map Member.restubbed }

namespace ClassDecl

theorem run_stub_members (options : Options) (ty : Ty) (decl : ClassDecl) (registry : Registry) :
    (decl.stub options ty).run registry
      = let done := (stubMembers options decl.members).run (decl.stubOutline ty registry)
        { value := ({ decl with members := done.value }, done.state.stub)
          state := done.state.registry
          errors := (decl.resolveSupertypes.run registry).errors ++ done.errors } := rfl

/-- The outline of a class shows nothing but names that the registry knows. -/
theorem outline_same {s t : Registry} (h : s.PartOf t) (decl : ClassDecl) {ty superclass : Ty}
    {interfaces : List Ty} (hty : s.contains ty = true)
    (hknown : ∀ known ∈ superclass :: interfaces, s.contains known = true) :
    decl.outline ty superclass interfaces t = decl.outline ty superclass interfaces s := by
  unfold outline
  rw [h.internalName hty, h.internalName (hknown superclass List.mem_cons_self),
    List.map_congr_left fun one hone => h.internalName (hknown one (List.mem_cons_of_mem _ hone))]

theorem stubOutline_again {s t : Registry} {ty : Ty} (decl : ClassDecl) (members : List Member)
    (hrun : decl.resolveSupertypes.Answers t (decl.resolveSupertypes.run s).value t)
    (hpart : (decl.stubOutline ty s).registry.PartOf (t.setSupertypes ty
      (some (decl.resolveSupertypes.run s).value.1) (decl.resolveSupertypes.run s).value.2))
    (hty : (decl.stubOutline ty s).registry.contains ty = true)
    (hknown : ∀ known ∈ (decl.resolveSupertypes.run s).value.1
      :: (decl.resolveSupertypes.run s).value.2,
      (decl.stubOutline ty s).registry.contains known = true) :
    stubOutline ty { decl with members } t = ⟨t.setSupertypes ty
      (some (decl.resolveSupertypes.run s).value.1) (decl.resolveSupertypes.run s).value.2,
      (decl.stubOutline ty s).stub⟩ := by
  have hsame : { decl with members }.resolveSupertypes.run t = _ := hrun
  unfold stubOutline
  dsimp only
  rw [hsame]
  exact congrArg (StubState.mk _) (decl.outline_same hpart hty hknown)

/-- A class that was stubbed, with methods that were perhaps analyzed since, is stubbed alike. -/
theorem stub_repeats {s : Registry} (hs : s.Closed) {ty : Ty} (hty : s.contains ty = true)
    (options : Options) (decl : ClassDecl) :
    (decl.stub options ty).Clean s fun out e => e.Closed ∧ s.PartBut [ty] e
      ∧ (∀ other, s.contains other = true → e.contains other = true) ∧ out.1.header = decl.header
      ∧ ∀ now, out.1.SameStubs now → ∀ types full t, (∀ ty ∈ types, s.contains ty = true) →
        e.PartBut types full → Registry.Over (ty :: types) full s t →
        ∃ t', (now.stub options ty).Answers t (now.restubbed, out.2) t'
          ∧ Registry.Over types full e t' := by
  intro herrors
  rw [run_stub_members] at herrors ⊢
  dsimp only at herrors ⊢
  obtain ⟨hresolved, hdone⟩ := List.append_eq_nil_iff.mp herrors
  have hsettles := resolveSupertypes_settles hs decl hresolved
  obtain ⟨hclosed, hknown⟩ := (decl.resolveSupertypes_finds s).2 hs
  have hmembers := stubMembers_repeats (s := decl.stubOutline ty s) (hclosed.setSupertypes ty hknown)
    options decl.members hdone
  have hoff := Registry.partBut_setSupertypes (decl.resolveSupertypes.run s).state ty
    (some (decl.resolveSupertypes.run s).value.1) (decl.resolveSupertypes.run s).value.2
  have hself := hmembers _ (Member.later_refl .refl _)
  refine ⟨hself.closed, ?_, fun other hother => ?_, rfl, ?_⟩
  · exact (hsettles.part.partBut [ty]).trans (hoff.trans (hself.part.partBut [ty]))
  · exact hself.part.contains (Registry.contains_setSupertypes (hsettles.part.contains hother))
  rintro now ⟨members, rfl, hnow⟩ types full t htypes hfull hover
  have hagain := hmembers members hnow
  have hmore : ∀ other ∈ ty :: types, s.contains other = true := by
    intro other hother
    rcases List.mem_cons.mp hother with rfl | hother
    · exact hty
    · exact htypes other hother
  have hstart := hover.learn hsettles.part hmore
  have hfull' := (hagain.part.partBut types).trans hfull
  have hpart := hstart.part ((hoff.of_subset (List.cons_subset_cons ty (List.nil_subset types))).trans
    (hfull'.of_subset (List.subset_cons_self ty types)))
  have hset := hstart.setSupertypes (hsettles.part.contains hty) hfull'
  have hend := hset.learn hagain.part fun other hother =>
    Registry.contains_setSupertypes (hsettles.part.contains (htypes other hother))
  have hrun := hsettles.again t hpart
  refine ⟨_, ?_, hend⟩
  have houtline := decl.stubOutline_again members hrun (hset.part hfull')
    (Registry.contains_setSupertypes (hsettles.part.contains hty))
    fun known hmem => Registry.contains_setSupertypes (hknown known hmem)
  have hnext := hagain.again _ (hend.part hfull)
  unfold Answers at hrun hnext ⊢
  have hnow : ({ decl with members }.resolveSupertypes.run t).errors = [] := congrArg Checked.errors hrun
  rw [run_stub_members]
  dsimp only
  rw [houtline, hnext, hnow]
  rfl

end ClassDecl

theorem stubClasses_cons (options : Options) {first : ClassDecl} {ty : Ty}
    (hty : first.ty = some ty) (rest : List ClassDecl) :
    stubClasses options (first :: rest) = (do
      let (one, stub) ← first.stub options ty
      let (rest, stubs) ← stubClasses options rest
      return (one :: rest, stub :: stubs)) := by
  conv => lhs; unfold stubClasses
  rw [hty]

/-- The classes of a unit are stubbed alike, one after the other. -/
theorem stubClasses_repeats {s : Registry} (hs : s.Closed) (options : Options)
    {decls : List ClassDecl} {types : List Ty} (htypes : decls.map ClassDecl.ty = types.map some)
    (hknown : ∀ ty ∈ types, s.contains ty = true) :
    (stubClasses options decls).Clean s fun out e => e.Closed ∧ s.PartBut types e
      ∧ (∀ other, s.contains other = true → e.contains other = true)
      ∧ out.1.map ClassDecl.header = decls.map ClassDecl.header
      ∧ ∀ now, List.Forall₂ ClassDecl.SameStubs out.1 now → ∀ full t, e.PartOf full →
        Registry.Over types full s t → ∃ t',
          (stubClasses options now).Answers t (now.map ClassDecl.restubbed, out.2) t'
            ∧ Registry.Over [] full e t' := by
  induction decls generalizing s types with
  | nil =>
    obtain rfl : types = [] := List.map_eq_nil_iff.mp htypes.symm
    refine clean_pure ⟨hs, (Registry.PartOf.refl s).partBut [], fun _ h => h, rfl,
      fun now hnow full t _ hover => ?_⟩
    cases hnow
    exact ⟨t, answers_pure, hover⟩
  | cons first rest ih =>
    cases types with
    | nil => cases htypes
    | cons ty types =>
      obtain ⟨hty, htypes⟩ := List.cons.inj htypes
      rw [stubClasses_cons options hty]
      refine clean_bind (ClassDecl.stub_repeats hs (hknown ty List.mem_cons_self) options first)
        fun one m hone => ?_
      obtain ⟨hclosed, hoff, hmore, hheader, hone⟩ := hone
      refine clean_bind (ih hclosed htypes fun other hother =>
        hmore other (hknown other (List.mem_cons_of_mem _ hother))) fun others e hothers =>
        clean_pure ?_
      obtain ⟨hclosed', hoff', hmore', hheaders, hothers⟩ := hothers
      refine ⟨hclosed', (hoff.of_subset ?_).trans (hoff'.of_subset (List.subset_cons_self ty types)),
        fun other hother => hmore' other (hmore other hother), congrArg₂ List.cons hheader hheaders, ?_⟩
      · exact List.cons_subset_cons ty (List.nil_subset types)
      intro now hnow full t hfull hover
      cases hnow with
      | @cons _ now _ nows hfirst hrest =>
        obtain ⟨t', hrun, hover'⟩ := hone now hfirst types full t
          (fun other hother => hknown other (List.mem_cons_of_mem _ hother))
          (hoff'.trans (hfull.partBut types)) hover
        obtain ⟨t'', hrun', hover''⟩ := hothers nows hrest full t' hfull hover'
        refine ⟨t'', ?_, hover''⟩
        have hnowTy : now.ty = some ty := by
          obtain ⟨members, rfl, -⟩ := hfirst
          exact (ClassDecl.ty_of_header hheader).trans hty
        rw [stubClasses_cons options hnowTy]
        exact answers_bind hrun (answers_bind hrun' answers_pure)

/-! ## Declarations -/

/-- Imports enter names, and for the same imports the same names. -/
theorem importClasses_repeats {s : Registry} (names : List String) :
    (importClasses names).Clean s fun _ e => (∀ ty, e.get? ty = s.get? ty)
      ∧ (∀ name ∉ names.map Registry.simpleName, e.aliases.get? name = s.aliases.get? name)
      ∧ ∀ (later : List String) t, (∀ ty, s.contains ty = true → t.contains ty = true) →
        (∀ name ∉ names.map Registry.simpleName, name ∉ later →
          t.aliases.get? name = s.aliases.get? name) →
        ∃ t', (importClasses names).Answers t () t' ∧ (∀ ty, t'.get? ty = t.get? ty)
          ∧ ∀ name ∉ later, t'.aliases.get? name = e.aliases.get? name := by
  induction names generalizing s with
  | nil =>
    refine clean_pure ?_
    exact ⟨fun _ => rfl, fun _ _ => rfl, fun later t _ hnames => ⟨t, answers_pure,
      fun _ => rfl, fun name hname => hnames name List.not_mem_nil hname⟩⟩
  | cons first rest ih =>
    have hadd : ∀ (r : Registry) (ty : Ty) (name : String),
        (r.addAlias (Registry.simpleName first) ty).aliases.get? name
          = if name = Registry.simpleName first then some ty else r.aliases.get? name :=
      fun r ty name => Table.get?_insert r.aliases _ _ _
    refine clean_bind (Q := fun _ m => ∃ ty, s.lookupQualified? first = some ty
      ∧ m = s.addAlias (Registry.simpleName first) ty) ?_ fun _ m hone => ?_
    · intro herrors
      unfold Check.run Registry.importClass? at herrors ⊢
      dsimp only at herrors ⊢
      cases hlookup : s.lookupQualified? first with
      | none =>
        rw [hlookup] at herrors
        cases herrors
      | some ty => exact ⟨ty, rfl, rfl⟩
    · obtain ⟨ty, hlookup, rfl⟩ := hone
      refine ih.mono fun _ e hrest => ?_
      obtain ⟨hentries, hnames, hagain⟩ := hrest
      refine ⟨hentries, fun name hname => ?_, fun later t hknown hagree => ?_⟩
      · rw [List.map_cons, List.mem_cons, not_or] at hname
        rw [hnames name hname.2, hadd, if_neg hname.1]
      · obtain ⟨rfl, hcontains⟩ := Registry.lookupQualified?_eq_some_iff.mp hlookup
        obtain ⟨t', hrun, hentries', hnames'⟩ := hagain later
          (t.addAlias (Registry.simpleName first) (Ty.named (Registry.internalForm first)))
          hknown fun name hname hlater => by
            rw [hadd, hadd]
            split
            · rfl
            · next hne => exact hagree name (by simp [hne, hname]) hlater
        refine ⟨t', answers_bind (a := ()) ?_ hrun, hentries', hnames'⟩
        have hfound := Registry.lookupQualified?_eq_some_iff.mpr ⟨rfl, hknown _ hcontains⟩
        unfold Answers Check.run Registry.importClass?
        dsimp only
        rw [hfound]
        rfl

namespace ClassDecl

variable {package : Option String} {decl now : ClassDecl}

/-- A declaration that has its handle is declared as before. -/
theorem declare_again (h : now.header = { decl with ty := some (decl.handle package) }.header)
    (t : Registry) :
    (now.declare package).Answers t now ((decl.declare package).run t).state := by
  obtain ⟨line, mods, name, isInterface, superclass, interfaces, members, ty⟩ := now
  unfold header at h
  cases h
  rfl

theorem aliases_declare (decl : ClassDecl) (t : Registry) (name : String) :
    ((decl.declare package).run t).state.aliases.get? name
      = if name = decl.name then some (decl.handle package) else t.aliases.get? name :=
  Table.get?_insert t.aliases _ _ _

end ClassDecl

/-- Declarations on the way: the names to come may differ, the declared types are as in one registry,
and all others as in the full one. -/
structure Registry.Declaring (names : List String) (declared : List Ty) (full s t : Registry) :
    Prop where
  aliases : ∀ name ∉ names, t.aliases.get? name = s.aliases.get? name
  entered : ∀ ty ∈ declared, t.get? ty = s.get? ty
  others : ∀ ty ∉ declared, t.get? ty = full.get? ty

namespace Registry.Declaring

variable {names : List String} {declared : List Ty} {full s t : Registry}

theorem done (h : Declaring [] declared full s t) : Over declared full s t :=
  ⟨fun name => h.aliases name List.not_mem_nil, h.entered, h.others⟩

theorem declare {decl : ClassDecl} {package : Option String}
    (h : Declaring (decl.name :: names) declared full s t) :
    Declaring names (declared ++ [decl.handle package]) full ((decl.declare package).run s).state
      ((decl.declare package).run t).state := by
  refine ⟨fun name hname => ?_, fun ty hty => ?_, fun ty hty => ?_⟩
  · rw [decl.aliases_declare, decl.aliases_declare]
    split
    · rfl
    · next hne => exact h.aliases name (by simp [hne, hname])
  · rw [ClassDecl.get?_declare, ClassDecl.get?_declare]
    split
    · rfl
    · next hne => exact h.entered ty ((List.mem_append.mp hty).resolve_right fun hmem =>
        hne (List.mem_singleton.mp hmem))
  · rw [List.mem_append, List.mem_singleton, not_or] at hty
    rw [ClassDecl.get?_declare]
    exact (if_neg hty.2).trans (h.others ty hty.1)

end Registry.Declaring

/-- Declarations that have their handles are declared alike. -/
theorem declareClasses_repeats {s : Registry} (package : Option String) (seen : List String)
    (decls : List ClassDecl) :
    (declareClasses package seen decls).Clean s fun _ e =>
      (∀ name ∉ decls.map ClassDecl.name, e.aliases.get? name = s.aliases.get? name)
      ∧ ∀ now : List ClassDecl, now.map ClassDecl.header
          = decls.map (fun decl => { decl with ty := some (decl.handle package) }.header) →
        ∀ declared full t, Registry.Declaring (decls.map ClassDecl.name) declared full s t →
        ∃ t', (declareClasses package seen now).Answers t now t'
          ∧ Registry.Over (declared ++ decls.map (ClassDecl.handle package)) full e t' := by
  induction decls generalizing seen s with
  | nil =>
    refine clean_pure ⟨fun _ _ => rfl, fun now hnow declared full t hstart => ?_⟩
    obtain rfl : now = [] := List.map_eq_nil_iff.mp hnow
    refine ⟨t, answers_pure, ?_⟩
    rw [List.map_nil, List.append_nil]
    exact hstart.done
  | cons first rest ih =>
    refine clean_bind (clean_reportAll (S := fun _ m => m = s ∧ ¬seen.contains first.name = true)
      fun herrors => ⟨rfl, fun hseen => ?_⟩) fun _ m hfresh => ?_
    · rw [if_pos hseen] at herrors
      cases herrors
    obtain ⟨heq, hfresh⟩ := hfresh
    subst m
    refine clean_bind (Q := fun one m => one.name = first.name
      ∧ m = ((first.declare package).run s).state) (fun _ => ⟨rfl, rfl⟩) fun one m hone => ?_
    obtain ⟨hname, rfl⟩ := hone
    rw [hname]
    refine clean_bind (ih (first.name :: seen)) fun others e hothers => clean_pure ?_
    obtain ⟨hnames, hothers⟩ := hothers
    refine ⟨fun name hname => ?_, fun now hnow declared full t hstart => ?_⟩
    · rw [List.map_cons, List.mem_cons, not_or] at hname
      rw [hnames name hname.2, first.aliases_declare, if_neg hname.1]
    obtain ⟨now, nows, rfl, hfirst, hrest⟩ := List.map_eq_cons_iff.mp hnow
    obtain ⟨t', hrun, hover⟩ := hothers nows hrest _ full _ hstart.declare
    refine ⟨t', ?_, by rwa [List.map_cons, List.append_cons]⟩
    have hnowName : now.name = first.name := (ClassDecl.name_of_header hfirst).trans rfl
    refine answers_bind (answers_reportAll ?_)
      (answers_bind (ClassDecl.declare_again hfirst t) (answers_bind ?_ answers_pure))
    · rw [hnowName, if_neg hfresh]
    · rw [hnowName]
      exact hrun

/-! ## Units -/

/-- A unit that was stubbed is stubbed alike over a registry that knows more, and leaves what is
known as it is. -/
theorem CompilationUnit.stub_repeats {s : Registry} (hs : s.Closed) (options : Options)
    (unit : CompilationUnit) :
    (unit.stub options).Clean s fun out e => e.Closed ∧ ∀ types,
      List.Forall₂ ClassDecl.SameStubs out.1.types types → ∀ full, e.PartOf full →
      ∃ t, ({ unit with types }.stub options).Answers full
          ({ unit with types := types.map ClassDecl.restubbed }, out.2) t
        ∧ full.PartOf t ∧ t.PartOf full := by
  unfold stub
  refine clean_bind (Q := fun _ m => m = ((importClasses unit.imports).run s).state ∧ _)
    (fun herrors => ⟨rfl, importClasses_repeats unit.imports herrors⟩) fun _ m himports => ?_
  obtain ⟨rfl, hentries, himported, himports⟩ := himports
  refine clean_bind (Q := fun declared m => declared = Compiler.declaredTypes unit
    ∧ m = Compiler.declaredRegistry unit s ∧ _) (fun herrors => ⟨value_declareClasses [] _, rfl,
      declareClasses_repeats unit.package [] unit.types herrors⟩) fun _ m hdeclares => ?_
  obtain ⟨rfl, rfl, hnames, hdeclares⟩ := hdeclares
  have hhandles : (Compiler.declaredTypes unit).map ClassDecl.ty
      = (unit.types.map (ClassDecl.handle unit.package)).map some := by
    unfold Compiler.declaredTypes
    rw [List.map_map, List.map_map]
    rfl
  have hknown : ∀ ty ∈ unit.types.map (ClassDecl.handle unit.package),
      (Compiler.declaredRegistry unit s).contains ty = true := by
    intro ty hty
    obtain ⟨decl, hdecl, hsome⟩ :=
      List.mem_map.mp (hhandles ▸ List.mem_map_of_mem (f := some) hty)
    obtain ⟨ty', hsome', hcontains⟩ := Compiler.contains_declaredTypes unit s decl hdecl
    cases hsome.symm.trans hsome'
    exact hcontains
  have hclosed : (Compiler.declaredRegistry unit s).Closed :=
    (hs.importClasses unit.imports).declareClasses _ _ _
  refine clean_bind (stubClasses_repeats hclosed options hhandles hknown) fun out e hout =>
    clean_pure ?_
  obtain ⟨hclosed', hpart, hmore, hheader, hstubs⟩ := hout
  refine ⟨hclosed', fun types htypes full hfull => ?_⟩
  have hnow : types.map ClassDecl.header
      = unit.types.map fun decl => { decl with ty := some (decl.handle unit.package) }.header := by
    rw [map_eq_of_forall₂ htypes (f := ClassDecl.header), hheader]
    · exact List.map_map
    · rintro before _ ⟨members, rfl, -⟩
      rfl
  -- all that was known when the unit was new is known still
  have hstays : ∀ ty, s.contains ty = true → full.contains ty = true := fun ty hty =>
    hfull.contains (hmore ty (Compiler.contains_declaredRegistry unit hty))
  have haliases : ∀ name, full.aliases.get? name
      = (Compiler.declaredRegistry unit s).aliases.get? name := fun name =>
    (hfull.aliases name).trans (hpart.aliases name)
  obtain ⟨one, hrun, hone, honeNames⟩ := himports (unit.types.map ClassDecl.name) full hstays
    fun name himport hname =>
      (haliases name).trans ((hnames name hname).trans (himported name himport))
  obtain ⟨two, hrun', hover⟩ := hdeclares types hnow [] full one
    ⟨honeNames, fun _ h => (List.not_mem_nil h).elim, fun ty _ => hone ty⟩
  obtain ⟨three, hrun'', hend⟩ := hstubs types htypes full two hfull hover
  have hentry : ∀ ty, three.get? ty = full.get? ty := fun ty => hend.done ty List.not_mem_nil
  have hname : ∀ name, three.aliases.get? name = full.aliases.get? name := fun name =>
    (hend.aliases name).trans (hfull.aliases name).symm
  refine ⟨three, answers_bind hrun (answers_bind hrun' (answers_bind hrun'' answers_pure)),
    ⟨hname, fun ty entry he => (hentry ty).trans he⟩,
    fun name => (hname name).symm, fun ty entry he => (hentry ty).symm.trans he⟩

end ClassCompiler
