import ClassCompiler.Unit.Classes

/-!
# Replayed classes

What a recorder keeps of the classes that are sent to it: one class for each, in their order, the
same but for its labels. The labels of a method are numbered in the order in which its code first
mentions them.

* `ClassImage.relabelled`: the class that a recorder keeps
* `Recorder.classes_replay`, `Recorder.classes_replayAll`
-/

namespace ClassCompiler

/-! ## New labels -/

/-- The new name of a label, and the names known then. A label that is met for the first time takes
the number of those met before it. -/
def Renaming.number (names : Renaming) (label : Label) : Label × Renaming :=
  match names.lookup label with
  | some fresh => (fresh, names)
  | none => (⟨names.length⟩, (label, ⟨names.length⟩) :: names)

/-- An instruction with its label renamed. -/
def Instr.relabel (names : Renaming) : Instr → Instr × Renaming
  | branch op target => (branch op (names.number target).1, (names.number target).2)
  | label name => (label (names.number name).1, (names.number name).2)
  | i => (i, names)

/-- Code with its labels renamed. -/
def relabelCode (names : Renaming) : List Instr → List Instr
  | [] => []
  | first :: rest => (first.relabel names).1 :: relabelCode (first.relabel names).2 rest

namespace Instr

variable (names : Renaming) (i : Instr)

/-- Field accesses and calls have no label. -/
theorem relabel_eq_member {op : OpCode} {owner name descriptor : String} :
    (i.relabel names).1 = .member op owner name descriptor
      ↔ i = .member op owner name descriptor := by
  cases i <;> simp [relabel]

end Instr

@[simp] theorem relabelCode_eq_nil {names : Renaming} {code : List Instr} :
    relabelCode names code = [] ↔ code = [] := by
  cases code <;> simp [relabelCode]

theorem mem_relabelCode {names : Renaming} {code : List Instr} {op : OpCode}
    {owner name descriptor : String} :
    .member op owner name descriptor ∈ relabelCode names code
      ↔ .member op owner name descriptor ∈ code := by
  induction code generalizing names with
  | nil => rfl
  | cons first rest ih =>
    rw [relabelCode, List.mem_cons, List.mem_cons, ih, eq_comm, Instr.relabel_eq_member, eq_comm]

/-! ## New classes -/

def MethodImage.relabelled (method : MethodImage) : MethodImage :=
  { method with code := relabelCode [] method.code }

namespace ClassImage

/-- The class with the labels of its methods renamed, its constants collected anew. -/
def relabelled (image : ClassImage) : ClassImage :=
  image.methods.foldl (fun image method => image.addMethod method.relabelled)
    { image with methods := [], constants := {} }

theorem foldl_addMethod {α : Type} (make : α → MethodImage) (l : List α) (image : ClassImage) :
    ∃ constants, l.foldl (fun image a => image.addMethod (make a)) image
      = { image with methods := image.methods ++ l.map make, constants } := by
  induction l generalizing image with
  | nil =>
    refine ⟨image.constants, ?_⟩
    rw [List.map_nil, List.append_nil]
    rfl
  | cons first rest ih =>
    obtain ⟨constants, h⟩ := ih (image.addMethod (make first))
    refine ⟨constants, ?_⟩
    rw [List.foldl_cons, h, List.map_cons, List.append_cons]
    rfl

variable (image : ClassImage)

theorem exists_relabelled : ∃ constants, image.relabelled
    = { image with methods := image.methods.map MethodImage.relabelled, constants } :=
  foldl_addMethod MethodImage.relabelled image.methods { image with methods := [], constants := {} }

@[simp] theorem mods_relabelled : image.relabelled.mods = image.mods := by
  obtain ⟨_, h⟩ := image.exists_relabelled
  rw [h]

@[simp] theorem name_relabelled : image.relabelled.name = image.name := by
  obtain ⟨_, h⟩ := image.exists_relabelled
  rw [h]

@[simp] theorem superName_relabelled : image.relabelled.superName = image.superName := by
  obtain ⟨_, h⟩ := image.exists_relabelled
  rw [h]

@[simp] theorem interfaces_relabelled : image.relabelled.interfaces = image.interfaces := by
  obtain ⟨_, h⟩ := image.exists_relabelled
  rw [h]

@[simp] theorem fields_relabelled : image.relabelled.fields = image.fields := by
  obtain ⟨_, h⟩ := image.exists_relabelled
  rw [h]

@[simp] theorem methods_relabelled :
    image.relabelled.methods = image.methods.map MethodImage.relabelled := by
  obtain ⟨_, h⟩ := image.exists_relabelled
  rw [h]

end ClassImage

/-! ## Recording -/

theorem changeLast_append {α : Type} (change : α → α) (l : List α) (last : α) :
    changeLast change (l ++ [last]) = l ++ [change last] := by
  induction l with
  | nil => rfl
  | cons first rest ih =>
    cases rest with
    | nil => rfl
    | cons second rest => exact congrArg (first :: ·) ih

/-- The constants that code loads join a pool. -/
def poolCode (code : List Instr) (pool : ConstantPool) : ConstantPool :=
  (MethodImage.constants ⟨default, default, default, [], code⟩).foldl
    (fun pool constant => (pool.add constant).2) pool

theorem constants_poolConstant (first : Instr) (rest : List Instr) (image : ClassImage) :
    poolCode rest (Recorder.poolConstant first image).constants
      = poolCode (first :: rest) image.constants := by
  cases first <;> rfl

theorem poolCode_relabelCode (names : Renaming) (code : List Instr) (pool : ConstantPool) :
    poolCode (relabelCode names code) pool = poolCode code pool := by
  induction code generalizing names pool with
  | nil => rfl
  | cons first rest ih =>
    cases first <;> exact ih _ _

namespace Recorder

variable {recorder : Recorder} {done : List ClassImage} {image : ClassImage}

/-- A recorder at work on a method: all that it has of the method, and the labels that it has
named. -/
structure Records (recorder : Recorder) (done : List ClassImage) (image : ClassImage)
    (method : MethodImage) (names : Renaming) : Prop where
  classes : recorder.classes
    = done ++ [{ image with methods := image.methods ++ [method] }]
  methodOpen : recorder.methodOpen = true
  nextLabel : recorder.nextLabel = names.length

theorem Records.push {method : MethodImage} {names : Renaming}
    (h : recorder.Records done image method names) (i : Instr) :
    (recorder.push i).Records done (poolConstant i image)
      { method with code := method.code ++ [i] } names := by
  refine ⟨?_, h.methodOpen, h.nextLabel⟩
  unfold Recorder.push
  dsimp only
  rw [if_pos h.methodOpen, h.classes, changeLast_append, changeLast_append]
  cases i <;> simp [poolConstant, appendInstr, changeLast_append]

theorem Records.rename {method : MethodImage} {names : Renaming}
    (h : recorder.Records done image method names) (label : Label) :
    (names.rename recorder label).1 = (names.number label).1
      ∧ (names.rename recorder label).2.1 = (names.number label).2
      ∧ (names.rename recorder label).2.2.Records done image method (names.number label).2 := by
  unfold Renaming.rename Renaming.number
  cases names.lookup label with
  | some known => exact ⟨rfl, rfl, h⟩
  | none =>
    have hfresh : recorder.newLabel.1 = ⟨names.length⟩ := by rw [← h.nextLabel]; rfl
    refine ⟨hfresh, congrArg (fun fresh => (label, fresh) :: names) hfresh, h.classes,
      h.methodOpen, ?_⟩
    show recorder.nextLabel + 1 = names.length + 1
    rw [h.nextLabel]

theorem Records.replayInstr {method : MethodImage} {names : Renaming}
    (h : recorder.Records done image method names) (i : Instr) :
    (replayInstr (names, recorder) i).1 = (i.relabel names).2
      ∧ (ClassCompiler.replayInstr (names, recorder) i).2.Records done (poolConstant i image)
        { method with code := method.code ++ [(i.relabel names).1] } (i.relabel names).2 := by
  cases i with
  | branch op target =>
    obtain ⟨hname, hnames, hrecords⟩ := h.rename target
    refine ⟨hnames, ?_⟩
    unfold ClassCompiler.replayInstr Instr.relabel
    dsimp only
    rw [hname]
    exact hrecords.push _
  | label name =>
    obtain ⟨hname, hnames, hrecords⟩ := h.rename name
    refine ⟨hnames, ?_⟩
    unfold ClassCompiler.replayInstr Instr.relabel
    dsimp only
    rw [hname]
    exact hrecords.push _
  | _ => exact ⟨rfl, h.push _⟩

theorem Records.foldl {method : MethodImage} {names : Renaming} (code : List Instr)
    (h : recorder.Records done image method names) :
    ∃ known, (code.foldl ClassCompiler.replayInstr (names, recorder)).2.Records done
      { image with constants := poolCode code image.constants }
      { method with code := method.code ++ relabelCode names code } known := by
  induction code generalizing recorder image method names with
  | nil =>
    refine ⟨names, ?_⟩
    rw [relabelCode, List.append_nil]
    exact h
  | cons first rest ih =>
    obtain ⟨hnames, hstep⟩ := h.replayInstr first
    obtain ⟨known, hrest⟩ := ih hstep
    refine ⟨known, ?_⟩
    have hstate : ClassCompiler.replayInstr (names, recorder) first
        = ((first.relabel names).2, (ClassCompiler.replayInstr (names, recorder) first).2) :=
      Prod.ext hnames rfl
    have himage : { poolConstant first image with
          constants := poolCode rest (poolConstant first image).constants }
        = { image with constants := poolCode (first :: rest) image.constants } := by
      rw [constants_poolConstant]
      cases first <;> rfl
    rw [List.foldl_cons, hstate, relabelCode, List.append_cons, ← himage]
    exact hrest

theorem replay_method (h : recorder.classes = done ++ [image]) (method : MethodImage) :
    (method.replay recorder).classes = done ++ [image.addMethod method.relabelled] := by
  have hopened : (recorder.beginMethod method.mods method.name method.descriptor
      method.exceptions).Records done image { method with code := [] } [] := by
    unfold beginMethod
    rw [if_neg (by rw [h]; simp)]
    exact ⟨by rw [h, changeLast_append], rfl, rfl⟩
  obtain ⟨known, hrecords⟩ := hopened.foldl method.code
  have hpool : poolCode method.code image.constants
      = (image.addMethod method.relabelled).constants :=
    (poolCode_relabelCode [] method.code image.constants).symm
  exact hrecords.classes.trans (by rw [hpool]; rfl)

theorem replay_methods (h : recorder.classes = done ++ [image]) (methods : List MethodImage) :
    (methods.foldl (fun recorder method => method.replay recorder) recorder).classes
      = done ++ [methods.foldl (fun image method => image.addMethod method.relabelled) image] := by
  induction methods generalizing recorder image with
  | nil => exact h
  | cons first rest ih => exact ih (replay_method h first)

theorem replay_fields (h : recorder.classes = done ++ [image]) (fields : List FieldImage) :
    (fields.foldl (fun recorder field =>
        recorder.addField field.mods field.name field.descriptor) recorder).classes
      = done ++ [{ image with fields := image.fields ++ fields }] := by
  induction fields generalizing recorder image with
  | nil =>
    rw [List.append_nil]
    exact h
  | cons first rest ih =>
    have hfirst : (recorder.addField first.mods first.name first.descriptor).classes
        = done ++ [image.addField first] := by
      unfold addField
      rw [h, changeLast_append]
      rfl
    rw [List.foldl_cons, ih hfirst, List.append_cons image.fields]
    rfl

/-- A replayed class is one more class. -/
theorem classes_replay (recorder : Recorder) (image : ClassImage) :
    (image.replay recorder).classes = recorder.classes ++ [image.relabelled] := by
  have hbegun : (recorder.beginClass image.mods image.name image.superName
      image.interfaces).classes = recorder.classes
        ++ [{ mods := image.mods, name := image.name, superName := image.superName,
              interfaces := image.interfaces }] := rfl
  have hmethods := replay_methods (replay_fields hbegun image.fields) image.methods
  rw [List.nil_append] at hmethods
  exact hmethods

theorem classes_replayAll (recorder : Recorder) (images : List ClassImage) :
    (recorder.replayAll images).classes
      = recorder.classes ++ images.map ClassImage.relabelled := by
  induction images generalizing recorder with
  | nil => exact (List.append_nil _).symm
  | cons first rest ih =>
    show ((first.replay recorder).replayAll rest).classes = _
    rw [ih, classes_replay, List.map_cons, List.append_assoc]
    rfl

end Recorder

end ClassCompiler
