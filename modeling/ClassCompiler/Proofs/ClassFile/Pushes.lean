import ClassCompiler.ClassFile.Emitter
import ClassCompiler.Proofs.ClassFile.Recording
import ClassCompiler.Proofs.Machine.Numbers

/-!
# Pushed constants

A class loads constants from its pool, where those that are the same share an entry. The zeros of a
floating type are the same, and the code for a constant still pushes no other one: positive zero has
an instruction of its own, so all zeros of the pool are negative.

* `Instr.pushConstant`: the code for a constant
* `ConstantPool.pushed?`: the constant that an instruction pushes
* `Emitter.Request`, `Emitter.asked`: the constants that an emitter is asked for in each method
* `Emitter.constants_kept`
-/

namespace ClassCompiler

/-! ## What an instruction pushes -/

/-- A number as a constant. -/
def Value.constant? : Value → Option Constant
  | int v => some (.int v)
  | long v => some (.long v)
  | float v => some (.float v)
  | double v => some (.double v)
  | reference _ => none

/-- The constant that an instruction pushes. One that it loads is read through the entry that the
pool has for it. -/
def ConstantPool.pushed? (pool : ConstantPool) : Instr → Option Constant
  | .ldc constant => (pool.indexOf? constant).bind pool.get?
  | instr => (Host.zeros.constant? instr).bind Value.constant?

/-- An instruction pushes a constant, bit for bit unless it is not a number. -/
def ConstantPool.Pushes (pool : ConstantPool) (instr : Instr) (c : Constant) : Prop :=
  ∃ pushed, pool.pushed? instr = some pushed ∧ pushed.Identical c

namespace Instr

/-- The instruction that pushes a constant. -/
def pushConstant : Constant → Instr
  | .int v => pushInt v
  | .long v => pushLong v
  | .float v => pushFloat v
  | .double v => pushDouble v
  | .string v => pushString v

/-- An instruction that loads nothing pushes the value that it names. -/
theorem pushed?_of_value {instr : Instr} {v : Value} (h : ∀ d, instr ≠ .ldc d)
    (hvalue : Host.zeros.constant? instr = some v) (pool : ConstantPool) :
    pool.pushed? instr = v.constant? := by
  unfold ConstantPool.pushed?
  split
  · exact absurd rfl (h _)
  · rw [hvalue]
    rfl

theorem pushInt_cases (v : Int32) : pushInt v = .ldc (.int v) ∨ ∀ d, pushInt v ≠ .ldc d := by
  unfold pushInt
  dsimp only
  repeat' split
  all_goals first
    | exact .inl rfl
    | exact .inr nofun

theorem pushLong_cases (v : Int64) : pushLong v = .ldc (.long v) ∨ ∀ d, pushLong v ≠ .ldc d := by
  unfold pushLong
  repeat' split
  all_goals first
    | exact .inl rfl
    | exact .inr nofun

/-- Positive zero is not loaded. -/
theorem pushFloat_cases (v : Number.Binary32) :
    (pushFloat v = .ldc (.float v) ∧ v ≠ .zero)
      ∨ (∀ d, pushFloat v ≠ .ldc d) ∧ Host.zeros.constant? (pushFloat v) = some (.float v) := by
  unfold pushFloat
  by_cases hzero : v = .zero
  · rw [if_pos hzero, hzero]
    exact .inr ⟨nofun, rfl⟩
  · rw [if_neg hzero]
    by_cases hone : v = .one
    · rw [if_pos hone, hone]
      exact .inr ⟨nofun, rfl⟩
    · rw [if_neg hone]
      by_cases htwo : v = .two
      · rw [if_pos htwo, htwo]
        exact .inr ⟨nofun, rfl⟩
      · rw [if_neg htwo]
        exact .inl ⟨rfl, hzero⟩

theorem pushDouble_cases (v : Number.Binary64) :
    (pushDouble v = .ldc (.double v) ∧ v ≠ .zero)
      ∨ (∀ d, pushDouble v ≠ .ldc d) ∧ Host.zeros.constant? (pushDouble v) = some (.double v) := by
  unfold pushDouble
  by_cases hzero : v = .zero
  · rw [if_pos hzero, hzero]
    exact .inr ⟨nofun, rfl⟩
  · rw [if_neg hzero]
    by_cases hone : v = .one
    · rw [if_pos hone, hone]
      exact .inr ⟨nofun, rfl⟩
    · rw [if_neg hone]
      exact .inl ⟨rfl, hzero⟩

/-- A constant has an instruction of its own, or is loaded; positive zero has one. -/
theorem pushConstant_cases (c : Constant) :
    (pushConstant c = .ldc c ∧ ¬ c.isPositiveZero)
      ∨ (∀ d, pushConstant c ≠ .ldc d)
        ∧ ∀ pool : ConstantPool, pool.pushed? (pushConstant c) = some c := by
  cases c with
  | int v =>
    rcases pushInt_cases v with hload | hother
    · exact .inl ⟨hload, by simp [Constant.isPositiveZero]⟩
    · exact .inr ⟨hother, pushed?_of_value hother (Host.zeros.constant?_pushInt v)⟩
  | long v =>
    rcases pushLong_cases v with hload | hother
    · exact .inl ⟨hload, by simp [Constant.isPositiveZero]⟩
    · exact .inr ⟨hother, pushed?_of_value hother (Host.zeros.constant?_pushLong v)⟩
  | float v =>
    rcases pushFloat_cases v with ⟨hload, hzero⟩ | ⟨hother, hvalue⟩
    · exact .inl ⟨hload, by simpa [Constant.isPositiveZero] using hzero⟩
    · exact .inr ⟨hother, pushed?_of_value hother hvalue⟩
  | double v =>
    rcases pushDouble_cases v with ⟨hload, hzero⟩ | ⟨hother, hvalue⟩
    · exact .inl ⟨hload, by simpa [Constant.isPositiveZero] using hzero⟩
    · exact .inr ⟨hother, pushed?_of_value hother hvalue⟩
  | string v => exact .inl ⟨rfl, by simp [Constant.isPositiveZero]⟩

end Instr

/-- What is loaded from a pool without a positive zero is what was added. -/
theorem ConstantPool.pushes_ldc {constants : List Constant}
    (hroom : (ofConstants constants).taken ≤ maxIndex)
    (hzero : ∀ d ∈ constants, ¬ d.isPositiveZero) {c : Constant} (hc : c ∈ constants) :
    (ofConstants constants).Pushes (.ldc c) c := by
  have hindexed := Indexed.ofConstants constants
  have hnumbered := Numbered.ofConstants constants hroom
  rw [← map_given {} constants] at hc
  obtain ⟨call, hcall, rfl⟩ := List.mem_map.mp hc
  obtain ⟨entry, hentry, hindex, hsame⟩ := entry_of_given constants call hcall
  -- The entry is for a constant that is the same; without positive zeros, it has the same bits.
  refine ⟨entry.2, ?_, Constant.identical_of_same ?_ ?_ hsame⟩
  · unfold pushed?
    dsimp only
    rw [hindexed.indexOf?_of_mem hentry hsame]
    exact hnumbered.get? List.prefix_rfl hentry
  · exact hzero _ (mem_of_entry hentry)
  · rw [map_given] at hc
    exact hzero _ hc

/-! ## Requests -/

namespace Emitter

/-- What an emitter is asked for inside a class. -/
inductive Request
  | beginMethod (mods : Modifiers) (name descriptor : String) (exceptions : List String)
  | endMethod
  | push (c : Constant)

def beginClass (emitter : Emitter) (mods : Modifiers) (name superName : String)
    (interfaces : List String) : Emitter :=
  { emitter with recorder := emitter.recorder.beginClass mods name superName interfaces }

def perform (emitter : Emitter) : Request → Emitter
  | .beginMethod mods name descriptor exceptions =>
    { emitter with recorder := emitter.recorder.beginMethod mods name descriptor exceptions }
  | .endMethod => { emitter with recorder := emitter.recorder.endMethod }
  | .push c => emitter.emit (.pushConstant c)

/-- The constants that each method of a class is to push. -/
structure Asked where
  methods : List (List Constant) := []
  methodOpen : Bool := false

def Asked.next (asked : Asked) : Request → Asked
  | .beginMethod .. => { methods := asked.methods ++ [[]], methodOpen := true }
  | .endMethod => { asked with methodOpen := false }
  | .push c =>
    if asked.methodOpen then
      { asked with methods := changeLast (fun constants => constants ++ [c]) asked.methods }
    else asked

/-- What was asked for, request by request. A constant that is asked for outside of a method is not
pushed. -/
def asked (requests : List Request) : Asked := requests.foldl Asked.next {}

theorem asked_concat (requests : List Request) (request : Request) :
    asked (requests ++ [request]) = (asked requests).next request := List.foldl_append

/-- The constant that joins the pool, if any. -/
def Request.loaded : Request → List Constant
  | .push c =>
    match Instr.pushConstant c with
    | .ldc constant => [constant]
    | _ => []
  | _ => []

theorem loaded_push (c : Constant) : (Instr.pushConstant c = .ldc c ∧ ¬ c.isPositiveZero
      ∧ (Request.push c).loaded = [c])
    ∨ ((∀ d, Instr.pushConstant c ≠ .ldc d) ∧ (Request.push c).loaded = []) := by
  unfold Request.loaded
  dsimp only
  rcases Instr.pushConstant_cases c with ⟨hload, hzero⟩ | ⟨hother, -⟩
  · rw [hload]
    exact .inl ⟨rfl, hzero, rfl⟩
  · refine .inr ⟨hother, ?_⟩
    split
    · next d hload => exact absurd hload (hother d)
    · rfl

/-- Requests have led a recorder to a class: its code pushes what was asked for, and its pool holds
all constants that were loaded, those outside of methods included. -/
structure Follows (recorder : Recorder) (earlier : List ClassImage) (requests : List Request)
    (image : ClassImage) : Prop where
  classes : recorder.classes = earlier ++ [image]
  methodOpen : recorder.methodOpen = (asked requests).methodOpen
  code : image.methods.map (·.code) = (asked requests).methods.map (List.map Instr.pushConstant)
  constants : image.constants = .ofConstants (requests.flatMap Request.loaded)

end Emitter

theorem map_changeLast {α β : Type} (f : α → β) {change : α → α} (change' : β → β)
    (h : ∀ x, f (change x) = change' (f x)) (l : List α) :
    (changeLast change l).map f = changeLast change' (l.map f) := by
  rcases List.eq_nil_or_concat l with rfl | ⟨earlier, last, rfl⟩
  · rfl
  · rw [List.concat_eq_append, changeLast_append, List.map_append, List.map_append,
      List.map_singleton, List.map_singleton, changeLast_append, h]

theorem mem_changeLast {α : Type} {change : α → α} {l : List α} {x : α}
    (h : x ∈ changeLast change l) : x ∈ l ∨ ∃ y ∈ l, x = change y := by
  rcases List.eq_nil_or_concat l with rfl | ⟨earlier, last, rfl⟩
  · cases h
  · rw [List.concat_eq_append] at h ⊢
    rw [changeLast_append] at h
    rcases List.mem_append.mp h with h | h
    · exact .inl (List.mem_append_left _ h)
    · exact .inr ⟨last, List.mem_append_right _ List.mem_cons_self, List.mem_singleton.mp h⟩

namespace Emitter

variable {emitter : Emitter} {earlier : List ClassImage} {requests : List Request}
  {image : ClassImage}

theorem constants_poolConstant
    (h : image.constants = .ofConstants (requests.flatMap Request.loaded)) (c : Constant) :
    (Recorder.poolConstant (.pushConstant c) image).constants
      = .ofConstants ((requests ++ [Request.push c]).flatMap Request.loaded) := by
  rw [List.flatMap_append, List.flatMap_singleton]
  rcases loaded_push c with ⟨hload, -, hloaded⟩ | ⟨hother, hloaded⟩
  · rw [hload, hloaded, ConstantPool.ofConstants_concat, ← h]
    rfl
  · rw [hloaded, List.append_nil, ← h]
    unfold Recorder.poolConstant
    split
    · next d hload => exact absurd hload (hother d)
    · rfl

theorem Follows.push (h : Follows emitter.recorder earlier requests image) (c : Constant) :
    ∃ after,
      Follows (emitter.perform (.push c)).recorder earlier (requests ++ [.push c]) after := by
  have hpush : (emitter.perform (.push c)).recorder
      = emitter.recorder.push (.pushConstant c) := rfl
  have hconstants := constants_poolConstant h.constants c
  have hmethods := Recorder.methods_poolConstant (.pushConstant c) image
  have hopen := h.methodOpen
  cases hasked : (asked requests).methodOpen with
  | false =>
    -- The constant joins the pool all the same.
    have hnext : asked (requests ++ [.push c]) = asked requests := by
      rw [asked_concat, Asked.next, if_neg (by rw [hasked]; exact Bool.false_ne_true)]
    rw [hasked] at hopen
    refine ⟨Recorder.poolConstant (.pushConstant c) image, ?_, ?_, ?_, hconstants⟩
    · rw [hpush, Recorder.push, hopen, h.classes, changeLast_append]
      rfl
    · rw [hnext]
      exact h.methodOpen
    · rw [hnext, hmethods]
      exact h.code
  | true =>
    have hnext : asked (requests ++ [.push c]) = { asked requests with
        methods := changeLast (fun constants => constants ++ [c]) (asked requests).methods } := by
      rw [asked_concat, Asked.next, if_pos hasked]
    rw [hasked] at hopen
    refine ⟨Recorder.appendInstr (.pushConstant c) (Recorder.poolConstant (.pushConstant c) image),
      ?_, ?_, ?_, hconstants⟩
    · rw [hpush, Recorder.push, hopen, h.classes, changeLast_append, if_pos rfl, changeLast_append]
    · rw [hnext]
      exact h.methodOpen
    · have hcode : ((Recorder.appendInstr (.pushConstant c)
            (Recorder.poolConstant (.pushConstant c) image)).methods).map (·.code)
          = changeLast (· ++ [Instr.pushConstant c]) (image.methods.map (·.code)) := by
        rw [Recorder.appendInstr, hmethods]
        exact map_changeLast MethodImage.code (· ++ [Instr.pushConstant c]) (fun _ => rfl) _
      rw [hnext, hcode, h.code]
      exact (map_changeLast _ _ (fun _ => List.map_append) _).symm

/-- Each request leads from a class to a class. -/
theorem Follows.perform (h : Follows emitter.recorder earlier requests image) (request : Request) :
    ∃ after, Follows (emitter.perform request).recorder earlier (requests ++ [request]) after := by
  have hconstants : request.loaded = [] →
      image.constants = .ofConstants ((requests ++ [request]).flatMap Request.loaded) := by
    intro hnone
    rw [List.flatMap_append, List.flatMap_singleton, hnone, List.append_nil]
    exact h.constants
  cases request with
  | beginMethod mods name descriptor exceptions =>
    have hbegin : (emitter.perform (.beginMethod mods name descriptor exceptions)).recorder
        = emitter.recorder.beginMethod mods name descriptor exceptions := rfl
    have hclass : ¬ (earlier ++ [image]).isEmpty = true := by simp
    refine ⟨{ image with methods := image.methods ++ [{ mods, name, descriptor, exceptions }] },
      ?_, ?_, ?_, hconstants rfl⟩
    · rw [hbegin, Recorder.beginMethod, h.classes, if_neg hclass, changeLast_append]
    · rw [hbegin, Recorder.beginMethod, h.classes, if_neg hclass, asked_concat]
      rfl
    · rw [asked_concat, Asked.next, List.map_append, List.map_append, h.code]
      rfl
  | endMethod =>
    refine ⟨image, h.classes, ?_, ?_, hconstants rfl⟩
    · rw [asked_concat]
      rfl
    · rw [asked_concat]
      exact h.code
  | push c => exact h.push c

theorem follows_requests (emitter : Emitter) (mods : Modifiers) (name superName : String)
    (interfaces : List String) (requests : List Request) :
    ∃ image, Follows (requests.foldl perform
      (emitter.beginClass mods name superName interfaces)).recorder emitter.recorder.classes
      requests image := by
  induction requests using List.reverseRecOn with
  | nil => exact ⟨_, rfl, rfl, rfl, rfl⟩
  | append_singleton requests request ih =>
    obtain ⟨image, himage⟩ := ih
    rw [List.foldl_append]
    exact himage.perform request

/-! ## Values -/

/-- What a method is to push has been asked for. -/
theorem mem_asked {constants : List Constant} (hconstants : constants ∈ (asked requests).methods)
    {c : Constant} (hc : c ∈ constants) : .push c ∈ requests := by
  induction requests using List.reverseRecOn generalizing constants with
  | nil => cases hconstants
  | append_singleton requests request ih =>
    have hearlier : ∀ earlier ∈ (asked requests).methods, c ∈ earlier →
        .push c ∈ requests ++ [request] :=
      fun earlier hearlier hc => List.mem_append_left _ (ih hearlier hc)
    rw [asked_concat] at hconstants
    cases request with
    | beginMethod =>
      rcases List.mem_append.mp hconstants with hconstants | hconstants
      · exact hearlier constants hconstants hc
      · rw [List.mem_singleton.mp hconstants] at hc
        cases hc
    | endMethod => exact hearlier constants hconstants hc
    | push d =>
      unfold Asked.next at hconstants
      dsimp only at hconstants
      split at hconstants
      · rcases mem_changeLast hconstants with hconstants | ⟨before, hbefore, rfl⟩
        · exact hearlier constants hconstants hc
        · rcases List.mem_append.mp hc with hc | hc
          · exact hearlier before hbefore hc
          · rw [List.mem_singleton.mp hc]
            exact List.mem_append_right _ List.mem_cons_self
      · exact hearlier constants hconstants hc

theorem positiveZero_not_loaded {request : Request} {c : Constant} (h : c ∈ request.loaded) :
    ¬ c.isPositiveZero := by
  cases request with
  | push d =>
    rcases loaded_push d with ⟨-, hzero, hloaded⟩ | ⟨-, hloaded⟩
    · rw [hloaded] at h
      rw [List.mem_singleton.mp h]
      exact hzero
    · rw [hloaded] at h
      cases h
  | beginMethod | endMethod => cases h

/-- A constant that was asked for is pushed, from the pool or by an instruction of its own. -/
theorem pushes_pushConstant {c : Constant}
    (hroom : (ConstantPool.ofConstants (requests.flatMap Request.loaded)).taken
      ≤ ConstantPool.maxIndex) (hc : .push c ∈ requests) :
    (ConstantPool.ofConstants (requests.flatMap Request.loaded)).Pushes (.pushConstant c) c := by
  rcases loaded_push c with ⟨hload, -, hloaded⟩ | ⟨hother, -⟩
  · have hmem : c ∈ requests.flatMap Request.loaded :=
      List.mem_flatMap.mpr ⟨_, hc, hloaded ▸ List.mem_cons_self⟩
    rw [hload]
    refine ConstantPool.pushes_ldc hroom ?_ hmem
    intro d hd
    obtain ⟨request, -, hd⟩ := List.mem_flatMap.mp hd
    exact positiveZero_not_loaded hd
  · rcases Instr.pushConstant_cases c with ⟨hload, -⟩ | ⟨-, hpushed⟩
    · exact absurd hload (hother c)
    · exact ⟨c, hpushed _, .refl c⟩

/-- The code of each method of a class pushes the constants that were asked for in it, one by one
and bit for bit, where all patterns of not-a-number are one, if the pool needs fewer indices than
there are. -/
theorem constants_kept (emitter : Emitter) (mods : Modifiers) (name superName : String)
    (interfaces : List String) (requests : List Request) :
    ∃ image, (requests.foldl perform
          (emitter.beginClass mods name superName interfaces)).recorder.classes
        = emitter.recorder.classes ++ [image]
      ∧ (image.constants.taken < ConstantPool.maxIndex →
        List.Forall₂ (fun method constants =>
          List.Forall₂ image.constants.Pushes method.code constants)
          image.methods (asked requests).methods) := by
  obtain ⟨image, hfollows⟩ := follows_requests emitter mods name superName interfaces requests
  refine ⟨image, hfollows.classes, fun hroom => ?_⟩
  have hpushes : ∀ constants ∈ (asked requests).methods, ∀ c ∈ constants,
      image.constants.Pushes (.pushConstant c) c := by
    intro constants hconstants c hc
    have hrequest := mem_asked hconstants hc
    rw [hfollows.constants] at hroom ⊢
    exact pushes_pushConstant (Nat.le_of_lt hroom) hrequest
  have hcode : List.Forall₂ (List.Forall₂ image.constants.Pushes) (image.methods.map (·.code))
      (asked requests).methods := by
    rw [hfollows.code, List.forall₂_map_left_iff, List.forall₂_same]
    intro constants hconstants
    rw [List.forall₂_map_left_iff, List.forall₂_same]
    exact hpushes constants hconstants
  exact List.forall₂_map_left_iff.mp hcode

/-- Both zeros of both widths, two patterns of not-a-number, and numbers with and without an
instruction of their own, in two methods. -/
def zeroRequests : List Request :=
  [.beginMethod default "m" "()V" [], .push (.float ⟨0⟩), .push (.float ⟨0x80000000⟩),
    .push (.double ⟨0x7ff8000000000000⟩), .push (.int 70000), .endMethod, .push (.string "lost"),
    .beginMethod default "n" "()V" [], .push (.double ⟨0x8000000000000000⟩), .push (.double ⟨0⟩),
    .push (.double ⟨0xfff0000000000001⟩), .push (.int (-129)), .push (.float ⟨0x80000000⟩)]

theorem constants_kept_zeros :
    ∃ image : ClassImage, image.constants.taken < ConstantPool.maxIndex
      ∧ List.Forall₂ (fun method constants =>
          List.Forall₂ image.constants.Pushes method.code constants)
        image.methods
        [[.float ⟨0⟩, .float ⟨0x80000000⟩, .double ⟨0x7ff8000000000000⟩, .int 70000],
          [.double ⟨0x8000000000000000⟩, .double ⟨0⟩, .double ⟨0xfff0000000000001⟩, .int (-129),
            .float ⟨0x80000000⟩]] := by
  obtain ⟨image, hclasses, hkept⟩ :=
    constants_kept {} default "A" "java/lang/Object" [] zeroRequests
  have htaken : (zeroRequests.foldl perform (beginClass {} default "A" "java/lang/Object"
      [])).recorder.classes.map (·.constants.taken) = [7] := by decide
  rw [hclasses] at htaken
  have hroom : image.constants.taken < ConstantPool.maxIndex := by
    have hseven : image.constants.taken = 7 := List.singleton_inj.mp htaken
    rw [hseven]
    decide
  exact ⟨image, hroom, hkept hroom⟩

end Emitter

end ClassCompiler
