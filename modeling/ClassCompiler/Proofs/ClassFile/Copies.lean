import Mathlib.Data.List.Nodup
import ClassCompiler.Proofs.ClassFile.Recording

/-!
# Copies of recorded classes

A recorded class that is sent to another recorder is there once more. The labels of each method are
numbered from zero in the order in which the code first mentions them, as a target or as a
definition; all else is as it was, the constant pool included. So a copy of a copy is the copy.

* `mentioned`: the labels of code in the order of their first mention
* `relabelCode_numbered`: the new labels are their places in that order
* `ClassImage.replay_copies`: what a recorder keeps of a recorded class
-/

namespace ClassCompiler

/-! ## Labels that code mentions -/

/-- The label that an instruction goes to or defines. -/
def Instr.mentioned? : Instr → Option Label
  | branch _ target => some target
  | label name => some name
  | _ => none

/-- An instruction under a new label. -/
def Instr.mapLabel (rename : Label → Label) : Instr → Instr
  | branch op target => branch op (rename target)
  | label name => label (rename name)
  | i => i

/-- The labels that code mentions, in the order in which it first does. -/
def mentioned (code : List Instr) : List Label := (code.filterMap Instr.mentioned?).eraseDups

theorem mem_mentioned {code : List Instr} {name : Label} :
    name ∈ mentioned code ↔ ∃ i ∈ code, i.mentioned? = some name := by
  unfold mentioned
  rw [List.mem_eraseDups, List.mem_filterMap]

theorem mapLabel_congr {code : List Instr} {one two : Label → Label}
    (h : ∀ name ∈ mentioned code, one name = two name) :
    code.map (Instr.mapLabel one) = code.map (Instr.mapLabel two) := by
  refine List.map_congr_left fun i hi => ?_
  cases i with
  | branch op target => exact congrArg _ (h target (mem_mentioned.mpr ⟨_, hi, rfl⟩))
  | label name => exact congrArg _ (h name (mem_mentioned.mpr ⟨_, hi, rfl⟩))
  | _ => rfl

theorem map_mapLabel_id (code : List Instr) : code.map (Instr.mapLabel id) = code := by
  refine (List.map_congr_left fun i _ => ?_).trans code.map_id
  cases i <;> rfl

/-- The place of a label in the order of first mention. -/
def ordinal (seen : List Label) (name : Label) : Label := ⟨seen.eraseDups.idxOf name⟩

/-- The names that were given to the labels seen so far. -/
structure Renaming.Numbers (names : Renaming) (seen : List Label) : Prop where
  length : names.length = seen.eraseDups.length
  lookup : ∀ name, names.lookup name = if name ∈ seen then some (ordinal seen name) else none

theorem Renaming.numbers_nil : Renaming.Numbers [] [] := ⟨rfl, fun _ => rfl⟩

theorem eraseDups_concat (seen : List Label) (name : Label) :
    (seen ++ [name]).eraseDups
      = if name ∈ seen then seen.eraseDups else seen.eraseDups ++ [name] := by
  rw [List.eraseDups_append]
  split
  · next h => simp [List.removeAll, h]
  · next h => simp [List.removeAll, h, List.eraseDups_cons]

/-- Labels that come later leave the places of the earlier ones. -/
theorem ordinal_append {seen : List Label} {name : Label} (h : name ∈ seen) (more : List Label) :
    ordinal (seen ++ more) name = ordinal seen name := by
  unfold ordinal
  rw [List.eraseDups_append, List.idxOf_append, if_pos (List.mem_eraseDups.mpr h)]

theorem ordinal_concat {seen : List Label} {name : Label} (h : name ∉ seen) :
    ordinal (seen ++ [name]) name = ⟨seen.eraseDups.length⟩ := by
  unfold ordinal
  rw [eraseDups_concat, if_neg h, List.idxOf_append, if_neg (mt List.mem_eraseDups.mp h)]
  simp

namespace Renaming.Numbers

variable {names : Renaming} {seen : List Label}

/-- A label is given its place, whether it was seen before or not. -/
theorem number (h : names.Numbers seen) (name : Label) :
    (names.number name).1 = ordinal (seen ++ [name]) name
      ∧ (names.number name).2.Numbers (seen ++ [name]) := by
  unfold Renaming.number
  rw [h.lookup]
  by_cases hseen : name ∈ seen
  · rw [if_pos hseen]
    refine ⟨(ordinal_append hseen _).symm, ?_, fun other => ?_⟩
    · rw [eraseDups_concat, if_pos hseen]
      exact h.length
    · have hsame : other ∈ seen ++ [name] ↔ other ∈ seen := by
        rw [List.mem_append, List.mem_singleton]
        exact ⟨fun hother => hother.elim id fun heq => heq ▸ hseen, .inl⟩
      rw [h.lookup]
      by_cases hother : other ∈ seen
      · rw [if_pos hother, if_pos (hsame.mpr hother), ordinal_append hother]
      · rw [if_neg hother, if_neg (mt hsame.mp hother)]
  · rw [if_neg hseen]
    refine ⟨?_, ?_, fun other => ?_⟩
    · rw [ordinal_concat hseen, ← h.length]
    · rw [eraseDups_concat, if_neg hseen, List.length_append, ← h.length]
      rfl
    · dsimp only
      rw [List.lookup_cons]
      by_cases heq : other = name
      · subst heq
        rw [beq_self_eq_true, if_pos (by simp), ordinal_concat hseen, h.length]
      · rw [beq_eq_false_iff_ne.mpr heq, h.lookup]
        by_cases hother : other ∈ seen
        · rw [if_pos hother, if_pos (List.mem_append_left _ hother), ordinal_append hother]
        · rw [if_neg hother, if_neg (by simp [hother, heq])]

end Renaming.Numbers

/-! ## Renamed code -/

/-- Behind code that has mentioned certain labels, every label is renamed to its place. -/
theorem relabelCode_of_numbers {names : Renaming} {seen : List Label} (h : names.Numbers seen)
    (code : List Instr) : relabelCode names code
      = code.map (Instr.mapLabel (ordinal (seen ++ code.filterMap Instr.mentioned?))) := by
  induction code generalizing names seen with
  | nil => rfl
  | cons first rest ih =>
    cases hfirst : first.mentioned? with
    | none =>
      have hsame : first.relabel names = (first, names) := by cases first <;> first | rfl | cases hfirst
      have hkept : ∀ rename, first.mapLabel rename = first := by
        cases first <;> first | exact fun _ => rfl | cases hfirst
      rw [relabelCode, hsame, List.filterMap_cons, hfirst, List.map_cons, hkept, ih h]
    | some name =>
      obtain ⟨hname, hlater⟩ := h.number name
      have hrenamed : first.relabel names
          = (first.mapLabel (fun _ => (names.number name).1), (names.number name).2) := by
        cases first <;> first | cases hfirst; rfl | cases hfirst
      have hplace : ordinal (seen ++ name :: rest.filterMap Instr.mentioned?) name
          = (names.number name).1 := by
        rw [hname, List.append_cons]
        exact ordinal_append (by simp) _
      have hfirst' : first.mapLabel (fun _ => (names.number name).1)
          = first.mapLabel (ordinal (seen ++ name :: rest.filterMap Instr.mentioned?)) := by
        cases first <;> first | cases hfirst; simp only [Instr.mapLabel, hplace] | cases hfirst
      rw [relabelCode, hrenamed, List.filterMap_cons, hfirst, List.map_cons, ← hfirst', ih hlater,
        ← List.append_cons]

theorem nodup_eraseDups {α : Type} [DecidableEq α] (l : List α) : l.eraseDups.Nodup := by
  induction l using List.reverseRecOn with
  | nil => exact List.nodup_nil
  | append_singleton l a ih =>
    rw [List.eraseDups_append]
    by_cases h : a ∈ l
    · simpa [List.removeAll, h] using ih
    · have hlast : ([a].removeAll l).eraseDups = [a] := by
        simp [List.removeAll, h, List.eraseDups_cons]
      rw [hlast, ← List.concat_eq_append]
      exact List.Nodup.concat (mt List.mem_eraseDups.mp h) ih

/-- Two pieces of code that differ in their labels: one renaming serves for targets and definitions,
tells the labels apart, and numbers them in the order of their first mention. -/
structure Renumbers (rename : Label → Label) (code copy : List Instr) : Prop where
  same : copy = code.map (Instr.mapLabel rename)
  injective : ∀ one ∈ mentioned code, ∀ two ∈ mentioned code, rename one = rename two → one = two
  numbered : (mentioned code).map rename = (List.range (mentioned code).length).map Label.mk

theorem relabelCode_numbered (code : List Instr) :
    ∃ rename, Renumbers rename code (relabelCode [] code) := by
  refine ⟨ordinal (code.filterMap Instr.mentioned?), ?_, fun one hone two _ heq => ?_, ?_⟩
  · exact relabelCode_of_numbers Renaming.numbers_nil code
  · exact (List.idxOf_inj hone).mp (congrArg Label.id heq)
  · refine List.ext_getElem (by simp) fun n hn hn' => ?_
    rw [List.getElem_map, List.getElem_map, List.getElem_range]
    exact congrArg Label.mk ((nodup_eraseDups _).idxOf_getElem n (by simpa [mentioned] using hn))

/-- A renaming that tells labels apart keeps their order. -/
theorem eraseDups_map {rename : Label → Label} {l : List Label}
    (h : ∀ one ∈ l, ∀ two ∈ l, rename one = rename two → one = two) :
    (l.map rename).eraseDups = l.eraseDups.map rename := by
  induction l using List.reverseRecOn with
  | nil => rfl
  | append_singleton l name ih =>
    have hbefore := ih fun one hone two htwo =>
      h one (List.mem_append_left _ hone) two (List.mem_append_left _ htwo)
    have hmem : rename name ∈ l.map rename ↔ name ∈ l := by
      refine ⟨fun hfound => ?_, fun hname => List.mem_map_of_mem hname⟩
      obtain ⟨other, hother, heq⟩ := List.mem_map.mp hfound
      rwa [← h other (List.mem_append_left _ hother) name (by simp) heq]
    rw [List.map_append, List.map_singleton, eraseDups_concat, eraseDups_concat, hbefore]
    by_cases hname : name ∈ l
    · rw [if_pos hname, if_pos (hmem.mpr hname)]
    · rw [if_neg hname, if_neg (mt hmem.mp hname), List.map_append, List.map_singleton]

theorem mentioned_map {rename : Label → Label} {code : List Instr}
    (h : ∀ one ∈ mentioned code, ∀ two ∈ mentioned code, rename one = rename two → one = two) :
    mentioned (code.map (Instr.mapLabel rename)) = (mentioned code).map rename := by
  have hlabels : ∀ i : Instr, (i.mapLabel rename).mentioned? = i.mentioned?.map rename := by
    intro i
    cases i <;> rfl
  unfold mentioned
  rw [List.filterMap_map, ← eraseDups_map fun one hone two htwo =>
    h one (List.mem_eraseDups.mpr hone) two (List.mem_eraseDups.mpr htwo), List.map_filterMap]
  exact congrArg List.eraseDups (List.filterMap_congr fun i _ => hlabels i)

/-- Labels that are numbered already keep their numbers. -/
theorem relabelCode_relabelCode (code : List Instr) :
    relabelCode [] (relabelCode [] code) = relabelCode [] code := by
  obtain ⟨rename, hcopy⟩ := relabelCode_numbered code
  obtain ⟨again, hagain⟩ := relabelCode_numbered (relabelCode [] code)
  have hmentioned : mentioned (relabelCode [] code)
      = (List.range (mentioned code).length).map Label.mk := by
    rw [hcopy.same, mentioned_map hcopy.injective, hcopy.numbered]
  have hfixed : (mentioned (relabelCode [] code)).map again
      = (mentioned (relabelCode [] code)).map id := by
    rw [hagain.numbered, List.map_id, hmentioned]
    simp
  rw [hagain.same, mapLabel_congr (List.map_inj_left.mp hfixed), map_mapLabel_id]

/-! ## Copies -/

/-- A method and a copy of it, with labels of its own. -/
structure MethodImage.Copies (method copy : MethodImage) : Prop where
  header : { copy with code := method.code } = method
  code : ∃ rename, Renumbers rename method.code copy.code

/-- A class and a copy of it: all but the labels is the same, the constants with their indices. -/
structure ClassImage.Copies (image copy : ClassImage) : Prop where
  header : { copy with methods := image.methods } = image
  methods : List.Forall₂ MethodImage.Copies image.methods copy.methods

theorem MethodImage.copies_relabelled (method : MethodImage) : method.Copies method.relabelled :=
  ⟨rfl, relabelCode_numbered method.code⟩

theorem MethodImage.relabelled_relabelled (method : MethodImage) :
    method.relabelled.relabelled = method.relabelled := by
  unfold relabelled
  rw [relabelCode_relabelCode]

theorem MethodImage.constants_relabelled (method : MethodImage) :
    method.relabelled.constants = method.constants := by
  unfold constants relabelled
  dsimp only
  rw [relabelCode_of_numbers Renaming.numbers_nil, List.filterMap_map]
  refine List.filterMap_congr fun i _ => ?_
  cases i <;> rfl

namespace ClassImage

theorem collected_relabelled (image : ClassImage) : image.relabelled.Collected := by
  have hall : ∀ (methods : List MethodImage) (start : ClassImage), start.Collected →
      (methods.foldl (fun image method => image.addMethod method.relabelled) start).Collected := by
    intro methods
    induction methods with
    | nil => exact fun _ h => h
    | cons first rest ih => exact fun start h => ih _ (h.addMethod first.relabelled)
  exact hall image.methods _ rfl

theorem loaded_relabelled (image : ClassImage) : image.relabelled.loaded = image.loaded := by
  unfold loaded
  rw [methods_relabelled, List.flatMap_map]
  exact List.flatMap_congr fun method _ => method.constants_relabelled

/-- A class whose pool is made by its code is copied with the pool. -/
theorem Collected.relabelled_eq {image : ClassImage} (h : image.Collected) :
    image.relabelled = { image with methods := image.methods.map MethodImage.relabelled } := by
  obtain ⟨constants, heq⟩ := image.exists_relabelled
  have hconstants : image.relabelled.constants = image.constants := by
    rw [image.collected_relabelled, loaded_relabelled, h]
  rw [heq] at hconstants ⊢
  exact congrArg _ hconstants

theorem Collected.copies {image : ClassImage} (h : image.Collected) :
    image.Copies image.relabelled := by
  rw [h.relabelled_eq]
  refine ⟨rfl, ?_⟩
  rw [List.forall₂_map_right_iff]
  exact List.forall₂_same.mpr fun method _ => method.copies_relabelled

theorem relabelled_relabelled (image : ClassImage) :
    image.relabelled.relabelled = image.relabelled := by
  rw [image.collected_relabelled.relabelled_eq, methods_relabelled, List.map_map]
  have hmethods : MethodImage.relabelled ∘ MethodImage.relabelled = MethodImage.relabelled :=
    funext MethodImage.relabelled_relabelled
  rw [hmethods, ← methods_relabelled]

end ClassImage

/-- A class that was recorded with its constants in its methods is copied into any recorder, behind
what is there; and the copy is copied as it is. -/
theorem Recorder.replay_copies {calls : List Call} {index : Nat} {image : ClassImage}
    (himage : (record calls).classes[index]? = some image) (hloads : LoadsInMethods calls index)
    (target : Recorder) : ∃ copy, (image.replay target).classes = target.classes ++ [copy]
      ∧ image.Copies copy
      ∧ ∀ other : Recorder, (copy.replay other).classes = other.classes ++ [copy] := by
  refine ⟨image.relabelled, classes_replay target image, (collected_record hloads himage).copies,
    fun other => ?_⟩
  rw [classes_replay, image.relabelled_relabelled]

/-- A class `Loop` with a field and a method that loads constants and jumps in both directions. -/
def loopCalls : List Recorder.Call :=
  [.beginClass .empty "Loop" "java/lang/Object" ["I"],
    .addField .accStatic "n" "J",
    .beginMethod .accStatic "run" "()V" ["E"],
    .push (.label ⟨4⟩),
    .push (.ldc (.string "go")),
    .push (.branch .ifnull ⟨9⟩),
    .push (.ldc (.long 7)),
    .push (.noArg .pop2),
    .push (.goto ⟨4⟩),
    .push (.label ⟨9⟩),
    .push (.noArg .vreturn),
    .endMethod,
    .endClass]

theorem replay_copies_loop : (Recorder.record loopCalls).classes[0]?.isSome = true
    ∧ Recorder.LoadsInMethods loopCalls 0
    ∧ ∃ image copy, (Recorder.record loopCalls).classes[0]? = some image
      ∧ (image.replay (Recorder.record loopCalls)).classes
        = (Recorder.record loopCalls).classes ++ [copy]
      ∧ image.Copies copy
      ∧ ∀ other : Recorder, (copy.replay other).classes = other.classes ++ [copy] := by
  have hsome : (Recorder.record loopCalls).classes[0]?.isSome = true := by decide
  have hloads : Recorder.LoadsInMethods loopCalls 0 := by decide
  obtain ⟨image, himage⟩ := Option.isSome_iff_exists.mp hsome
  exact ⟨hsome, hloads, image, _, himage,
    (Recorder.replay_copies himage hloads (Recorder.record loopCalls)).choose_spec⟩

end ClassCompiler
