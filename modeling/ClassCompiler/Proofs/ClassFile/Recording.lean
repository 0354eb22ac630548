import Mathlib.Data.List.Induction
import ClassCompiler.Proofs.ClassFile.Replay
import ClassCompiler.Proofs.Machine.Pool

/-!
# Recordings

A recorder may be called in any order. Whatever the calls were, a method is open only at the end of
the last class, and only the last class changes; so the constants of a class are those of its code,
as long as every constant was loaded in an open method while the class was the last one.

* `Recorder.Call`, `Recorder.record`: the calls, and what a recorder keeps of them
* `Recorder.LoadsInMethods`: no constant was loaded outside of a method of the class
* `Recorder.collected_record`: the pool of such a class is made by its code
-/

namespace ClassCompiler

/-! ## Pools -/

namespace ClassImage

/-- The constants that the methods load, in order. -/
def loaded (image : ClassImage) : List Constant := image.methods.flatMap MethodImage.constants

/-- The pool holds what the methods load, in the order in which they load it. -/
def Collected (image : ClassImage) : Prop := image.constants = .ofConstants image.loaded

theorem loaded_addMethod (image : ClassImage) (method : MethodImage) :
    (image.addMethod method).loaded = image.loaded ++ method.constants := by
  simp [loaded, addMethod]

theorem Collected.addMethod {image : ClassImage} (h : image.Collected) (method : MethodImage) :
    (image.addMethod method).Collected := by
  unfold Collected at h ⊢
  rw [loaded_addMethod, ConstantPool.ofConstants_append, ← h]
  rfl

end ClassImage

namespace Recorder

/-! ## Calls -/

/-- What a recorder can be asked for. -/
inductive Call
  | beginClass (mods : Modifiers) (name superName : String) (interfaces : List String)
  | addField (mods : Modifiers) (name descriptor : String)
  | beginMethod (mods : Modifiers) (name descriptor : String) (exceptions : List String)
  | endMethod
  | endClass
  | newLabel
  | push (instr : Instr)
  deriving DecidableEq, Inhabited

def perform (recorder : Recorder) : Call → Recorder
  | .beginClass mods name superName interfaces =>
    recorder.beginClass mods name superName interfaces
  | .addField mods name descriptor => recorder.addField mods name descriptor
  | .beginMethod mods name descriptor exceptions =>
    recorder.beginMethod mods name descriptor exceptions
  | .endMethod => recorder.endMethod
  | .endClass => recorder.endClass
  | .newLabel => recorder.newLabel.2
  | .push instr => recorder.push instr

/-- A new recorder after its calls. -/
def record (calls : List Call) : Recorder := calls.foldl perform empty

theorem record_concat (calls : List Call) (call : Call) :
    record (calls ++ [call]) = (record calls).perform call := by
  unfold record
  rw [List.foldl_append]
  rfl

/-- Does a call load a constant? -/
def Call.isLoad : Call → Bool
  | .push (.ldc _) => true
  | _ => false

/-- While the class at an index was the last one, constants were loaded in open methods only. -/
def LoadsInMethods (calls : List Call) (index : Nat) : Prop :=
  ∀ n < calls.length, (calls[n]?.any Call.isLoad) = true →
    (record (calls.take n)).classes.length = index + 1 → (record (calls.take n)).methodOpen = true

instance (calls : List Call) (index : Nat) : Decidable (LoadsInMethods calls index) :=
  inferInstanceAs (Decidable (∀ n < calls.length, (calls[n]?.any Call.isLoad) = true →
    (record (calls.take n)).classes.length = index + 1 →
      (record (calls.take n)).methodOpen = true))

theorem LoadsInMethods.init {calls : List Call} {call : Call} {index : Nat}
    (h : LoadsInMethods (calls ++ [call]) index) : LoadsInMethods calls index := by
  intro n hlt hload
  have hn := h n (by rw [List.length_append]; omega) (by rwa [List.getElem?_append_left hlt])
  rwa [List.take_append_of_le_length (Nat.le_of_lt hlt)] at hn

theorem LoadsInMethods.last {calls : List Call} {constant : Constant} {index : Nat}
    (h : LoadsInMethods (calls ++ [.push (.ldc constant)]) index)
    (hindex : (record calls).classes.length = index + 1) : (record calls).methodOpen = true := by
  have hn := h calls.length (by simp) (by simp [Call.isLoad])
  rw [List.take_left] at hn
  exact hn hindex

/-! ## The last class -/

/-- The last element is the one that changes. -/
theorem getElem?_changeLast {α : Type} (change : α → α) (l : List α) (index : Nat) :
    (changeLast change l)[index]?
      = if l.length = index + 1 then l[index]?.map change else l[index]? := by
  induction l generalizing index with
  | nil => rfl
  | cons first rest ih =>
    cases rest with
    | nil => cases index <;> simp [changeLast]
    | cons second rest =>
      cases index with
      | zero => simp [changeLast]
      | succ index => simpa [changeLast] using ih index

theorem length_changeLast {α : Type} (change : α → α) (l : List α) :
    (changeLast change l).length = l.length := by
  induction l with
  | nil => rfl
  | cons first rest ih =>
    cases rest with
    | nil => rfl
    | cons second rest => simpa [changeLast] using ih

/-- The pool of the class at an index holds what its methods load, and while it is the last class a
method is open only if it has one. -/
def InStep (recorder : Recorder) (index : Nat) : Prop :=
  ∀ image, recorder.classes[index]? = some image → image.Collected
    ∧ (recorder.classes.length = index + 1 → recorder.methodOpen = true → image.methods ≠ [])

variable {recorder later : Recorder} {index : Nat}

theorem InStep.closed (h : recorder.InStep index) (hclasses : later.classes = recorder.classes)
    (hclosed : later.methodOpen = false) : later.InStep index := by
  intro image himage
  refine ⟨(h image (hclasses ▸ himage)).1, fun _ hopen => ?_⟩
  rw [hclosed] at hopen
  cases hopen

/-- A change of the last class, after which it still has its methods. -/
theorem InStep.changeLast {change : ClassImage → ClassImage} (h : recorder.InStep index)
    (hclasses : later.classes = changeLast change recorder.classes)
    (hchange : recorder.classes.length = index + 1 → ∀ image, image.Collected →
      (recorder.methodOpen = true → image.methods ≠ []) → (change image).Collected
        ∧ (later.methodOpen = true → (change image).methods ≠ [])) :
    later.InStep index := by
  intro image himage
  rw [hclasses, getElem?_changeLast] at himage
  rw [hclasses, length_changeLast]
  split at himage
  · next hlast =>
    obtain ⟨old, hold, rfl⟩ := Option.map_eq_some_iff.mp himage
    obtain ⟨hcollected, hmethods⟩ := h old hold
    obtain ⟨hcollected', hmethods'⟩ := hchange hlast old hcollected (hmethods hlast)
    exact ⟨hcollected', fun _ => hmethods'⟩
  · next hother => exact ⟨(h image himage).1, fun hlast => absurd hlast hother⟩

theorem InStep.beginClass (h : recorder.InStep index) (mods : Modifiers) (name superName : String)
    (interfaces : List String) :
    (recorder.beginClass mods name superName interfaces).InStep index := by
  intro image himage
  refine ⟨?_, fun _ hopen => by cases hopen⟩
  unfold Recorder.beginClass at himage
  rw [List.getElem?_append] at himage
  split at himage
  · exact (h image himage).1
  · rw [List.getElem?_singleton] at himage
    split at himage
    · cases himage
      rfl
    · cases himage

theorem InStep.beginMethod (h : recorder.InStep index) (mods : Modifiers) (name descriptor : String)
    (exceptions : List String) :
    (recorder.beginMethod mods name descriptor exceptions).InStep index := by
  unfold Recorder.beginMethod
  split
  · exact h
  · refine h.changeLast rfl fun _ image hcollected _ => ⟨?_, fun _ => ?_⟩
    · exact hcollected.addMethod { mods, name, descriptor, exceptions }
    · exact List.append_ne_nil_of_right_ne_nil _ (List.cons_ne_nil _ _)

theorem methods_poolConstant (instr : Instr) (image : ClassImage) :
    (poolConstant instr image).methods = image.methods := by
  cases instr <;> rfl

/-- An instruction that is recorded joins the code, and its constant the pool. -/
theorem collected_appendInstr {image : ClassImage} (instr : Instr) (h : image.Collected)
    (hmethods : image.methods ≠ []) : (appendInstr instr (poolConstant instr image)).Collected
      ∧ (appendInstr instr (poolConstant instr image)).methods ≠ [] := by
  obtain ⟨earlier, method, heq⟩ := (List.eq_nil_or_concat image.methods).resolve_left hmethods
  rw [List.concat_eq_append] at heq
  have hcode : (appendInstr instr (poolConstant instr image)).methods
      = earlier ++ [{ method with code := method.code ++ [instr] }] := by
    unfold appendInstr
    rw [methods_poolConstant, heq, changeLast_append]
  refine ⟨?_, by simp [hcode]⟩
  unfold ClassImage.Collected ClassImage.loaded at h ⊢
  rw [heq] at h
  rw [hcode]
  cases instr with
  | ldc constant =>
    have hpool : (appendInstr (.ldc constant) (poolConstant (.ldc constant) image)).constants
        = (image.constants.add constant).2 := rfl
    rw [hpool, h]
    simp [MethodImage.constants, ConstantPool.ofConstants]
  | _ => simpa [MethodImage.constants, appendInstr, poolConstant] using h

/-- A dropped instruction changes nothing but the pool of the last class. -/
theorem classes_push_of_closed (h : recorder.methodOpen = false) (instr : Instr) :
    (recorder.push instr).classes
      = ClassCompiler.changeLast (poolConstant instr) recorder.classes := by
  unfold Recorder.push
  rw [h]
  rfl

theorem InStep.push (h : recorder.InStep index) (instr : Instr)
    (hload : ∀ constant, instr = .ldc constant → recorder.classes.length = index + 1 →
      recorder.methodOpen = true) : (recorder.push instr).InStep index := by
  cases hopen : recorder.methodOpen with
  | true =>
    have hclasses : (recorder.push instr).classes
        = ClassCompiler.changeLast (fun image => appendInstr instr (poolConstant instr image))
          recorder.classes := by
      unfold Recorder.push
      dsimp only
      rw [if_pos hopen]
      exact List.ext_getElem? fun i => by
        simp only [getElem?_changeLast, length_changeLast]
        split <;> simp [Option.map_map, Function.comp_def]
    refine h.changeLast hclasses fun _ image hcollected hmethods => ?_
    obtain ⟨hcollected', hmethods'⟩ := collected_appendInstr instr hcollected (hmethods hopen)
    exact ⟨hcollected', fun _ => hmethods'⟩
  | false =>
    refine h.changeLast (classes_push_of_closed hopen instr)
      fun hlast image hcollected hmethods => ⟨?_, fun hlater => ?_⟩
    · cases instr with
      | ldc constant =>
        rw [hload constant rfl hlast] at hopen
        cases hopen
      | _ => exact hcollected
    · rw [show (recorder.push instr).methodOpen = recorder.methodOpen from rfl, hopen] at hlater
      cases hlater

/-! ## All calls -/

theorem inStep_record {calls : List Call} (hloads : LoadsInMethods calls index) :
    (record calls).InStep index := by
  induction calls using List.reverseRecOn with
  | nil =>
    intro image himage
    cases himage
  | append_singleton calls call ih =>
    have hbefore := ih hloads.init
    rw [record_concat]
    cases call with
    | beginClass mods name superName interfaces =>
      exact hbefore.beginClass mods name superName interfaces
    | addField => exact hbefore.changeLast rfl fun _ _ hcollected hmethods => ⟨hcollected, hmethods⟩
    | beginMethod mods name descriptor exceptions =>
      exact hbefore.beginMethod mods name descriptor exceptions
    | endMethod | endClass => exact hbefore.closed rfl rfl
    | newLabel => exact hbefore
    | push instr =>
      exact hbefore.push instr fun constant hinstr hlast => by
        subst hinstr
        exact hloads.last hlast

/-- The pool of a recorded class holds the constants of its code. -/
theorem collected_record {calls : List Call} (hloads : LoadsInMethods calls index)
    {image : ClassImage} (himage : (record calls).classes[index]? = some image) :
    image.Collected :=
  (inStep_record hloads image himage).1

end Recorder

end ClassCompiler
