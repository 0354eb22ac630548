import ClassCompiler.Proofs.ClassFile.Recording

/-!
# Dropped instructions

An instruction that arrives while no method is open is dropped. So the pool of a class lists the
constants that its code loads, each of them once and in the order of first use, whatever a recorder
was called for and in whatever order, if no instruction that loads a constant was dropped.

One that was dropped leaves its constant behind, in the pool of the last class.

* `Recorder.pool_lists_loaded`
* `Recorder.dropped_constant_stays`
-/

namespace ClassCompiler

/-- A change that leaves the elements as they are. -/
theorem changeLast_eq_self {α : Type} {change : α → α} {l : List α} (h : ∀ x ∈ l, change x = x) :
    changeLast change l = l := by
  rcases List.eq_nil_or_concat l with rfl | ⟨earlier, last, rfl⟩
  · rfl
  · rw [List.concat_eq_append] at h ⊢
    rw [changeLast_append, h last (List.mem_append_right _ List.mem_cons_self)]

namespace Recorder

/-- Only an instruction that loads a constant changes a pool. -/
theorem poolConstant_eq_self {instr : Instr} (h : ∀ constant, instr ≠ .ldc constant)
    (image : ClassImage) : poolConstant instr image = image := by
  cases instr with
  | ldc constant => exact absurd rfl (h constant)
  | _ => rfl

/-- After all calls, in any order, the pool of each class lists the different constants that the
code of its methods loads, in the order of first use, if no constant was loaded outside of a method
while the class was the last one. A dropped instruction leaves every class as it is, unless it
loads a constant and there is a class. -/
theorem pool_lists_loaded (calls : List Call) :
    (∀ index image, LoadsInMethods calls index → (record calls).classes[index]? = some image →
        image.constants.entries.map (·.2) = image.loaded.eraseDupsBy Constant.same)
      ∧ ∀ instr, (record calls).methodOpen = false →
        (∀ constant, instr = .ldc constant → (record calls).classes = []) →
        (record (calls ++ [.push instr])).classes = (record calls).classes := by
  constructor
  · intro index image hloads himage
    have hcollected : image.constants = .ofConstants image.loaded := collected_record hloads himage
    rw [hcollected, ConstantPool.constants_ofConstants]
  · intro instr hclosed hload
    rw [record_concat]
    refine (classes_push_of_closed hclosed instr).trans (changeLast_eq_self ?_)
    intro image himage
    apply poolConstant_eq_self
    intro constant hinstr
    rw [hload constant hinstr] at himage
    cases himage

/-- Two methods that load constants of each other, an instruction between them that is dropped, and
a constant that is loaded before there is a class. -/
def sharingCalls : List Call :=
  [.push (.ldc (.string "a")), .beginClass default "A" "java/lang/Object" [],
    .beginMethod default "m" "()V" [], .push (.ldc (.string "b")), .push (.ldc (.float ⟨0⟩)),
    .endMethod, .push (.noArg .iconst0),
    .beginMethod default "n" "()V" [], .push (.ldc (.float ⟨0x80000000⟩)),
    .push (.ldc (.string "c")), .push (.ldc (.string "b"))]

theorem pool_lists_loaded_sharing :
    ((record sharingCalls).classes[0]?.map fun image => image.constants.entries.map (·.2))
        = some [.string "b", .float ⟨0⟩, .string "c"]
      ∧ LoadsInMethods sharingCalls 0
      ∧ ∀ image, (record sharingCalls).classes[0]? = some image →
        image.constants.entries.map (·.2) = image.loaded.eraseDupsBy Constant.same := by
  have hloads : LoadsInMethods sharingCalls 0 := by decide
  exact ⟨by decide, hloads, fun image => (pool_lists_loaded sharingCalls).1 0 image hloads⟩

/-- A class with a constant that is loaded before a method is open. -/
def strayCalls : List Call :=
  [.beginClass default "A" "java/lang/Object" [], .push (.ldc (.string "lost"))]

/-- The instruction is dropped, but the class is not as it was before. -/
theorem dropped_constant_stays :
    (record (strayCalls.take 1)).methodOpen = false
      ∧ (record strayCalls).classes ≠ (record (strayCalls.take 1)).classes
      ∧ ¬ ∀ image ∈ (record strayCalls).classes,
        image.constants.entries.map (·.2) = image.loaded.eraseDupsBy Constant.same := by decide

end Recorder

end ClassCompiler
