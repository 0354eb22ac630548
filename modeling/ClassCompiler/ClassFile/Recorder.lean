import ClassCompiler.ClassFile.Image

/-!
# The recorder

Keeps every class, member and instruction that it is given, in the order of arrival. Members go to
the last class, and instructions to its last method while that is open; a constant joins the pool
of the last class in any case.

* `Recorder.push`: one instruction
* `ClassImage.replay`: a recorded class sent to a recorder, its labels made afresh
-/

namespace ClassCompiler

/-- Changes the last element of a list, if there is one. -/
def changeLast {α : Type} (change : α → α) : List α → List α
  | [] => []
  | [last] => [change last]
  | first :: second :: rest => first :: changeLast change (second :: rest)

structure Recorder where
  classes : List ClassImage := []
  methodOpen : Bool := false
  nextLabel : Nat := 0
  deriving DecidableEq, Inhabited

namespace Recorder

def empty : Recorder := {}

/-- The first class of that name. -/
def class? (recorder : Recorder) (name : String) : Option ClassImage :=
  recorder.classes.find? fun image => image.name == name

/-! ## Structure -/

def beginClass (recorder : Recorder) (mods : Modifiers) (name superName : String)
    (interfaces : List String) : Recorder :=
  { recorder with
    classes := recorder.classes ++ [{ mods, name, superName, interfaces }]
    methodOpen := false }

def addField (recorder : Recorder) (mods : Modifiers) (name descriptor : String) : Recorder :=
  { recorder with
    classes := changeLast (fun image =>
      { image with fields := image.fields ++ [⟨mods, name, descriptor⟩] }) recorder.classes }

/-- Opens a method in the last class; its labels start from zero. -/
def beginMethod (recorder : Recorder) (mods : Modifiers) (name descriptor : String)
    (exceptions : List String) : Recorder :=
  if recorder.classes.isEmpty then recorder
  else
    { classes := changeLast (fun image =>
        { image with
          methods := image.methods ++ [{ mods, name, descriptor, exceptions }] }) recorder.classes
      methodOpen := true
      nextLabel := 0 }

def endMethod (recorder : Recorder) : Recorder := { recorder with methodOpen := false }

def endClass (recorder : Recorder) : Recorder := { recorder with methodOpen := false }

/-! ## Code -/

def newLabel (recorder : Recorder) : Label × Recorder :=
  (⟨recorder.nextLabel⟩, { recorder with nextLabel := recorder.nextLabel + 1 })

/-- Adds the constant that an instruction loads to the pool of a class. -/
def poolConstant (instr : Instr) (image : ClassImage) : ClassImage :=
  match instr with
  | .ldc constant => { image with constants := (image.constants.add constant).2 }
  | _ => image

/-- Appends an instruction to the last method of a class. -/
def appendInstr (instr : Instr) (image : ClassImage) : ClassImage :=
  { image with
    methods := changeLast (fun method => { method with code := method.code ++ [instr] })
      image.methods }

def push (recorder : Recorder) (instr : Instr) : Recorder :=
  let pooled := changeLast (poolConstant instr) recorder.classes
  { recorder with
    classes := if recorder.methodOpen then changeLast (appendInstr instr) pooled else pooled }

def pushAll (recorder : Recorder) (code : List Instr) : Recorder := code.foldl push recorder

/-- Records a whole method. -/
def addMethod (recorder : Recorder) (method : MethodImage) : Recorder :=
  ((recorder.beginMethod method.mods method.name method.descriptor method.exceptions).pushAll
    method.code).endMethod

end Recorder

/-! ## Replay -/

/-- New names for the labels of one method. -/
abbrev Renaming := List (Label × Label)

/-- The new name of a label, made when it is first met. -/
def Renaming.rename (names : Renaming) (recorder : Recorder) (label : Label) :
    Label × Renaming × Recorder :=
  match names.lookup label with
  | some fresh => (fresh, names, recorder)
  | none =>
    let (fresh, recorder) := recorder.newLabel
    (fresh, (label, fresh) :: names, recorder)

/-- Records an instruction with its label renamed. -/
def replayInstr (state : Renaming × Recorder) (instr : Instr) : Renaming × Recorder :=
  let (names, recorder) := state
  match instr with
  | .branch op target =>
    let (fresh, names, recorder) := names.rename recorder target
    (names, recorder.push (.branch op fresh))
  | .label label =>
    let (fresh, names, recorder) := names.rename recorder label
    (names, recorder.push (.label fresh))
  | _ => (names, recorder.push instr)

def MethodImage.replay (method : MethodImage) (recorder : Recorder) : Recorder :=
  let opened := recorder.beginMethod method.mods method.name method.descriptor method.exceptions
  (method.code.foldl replayInstr ([], opened)).2.endMethod

/-- Sends a class to a recorder, in the order of its recording. -/
def ClassImage.replay (image : ClassImage) (recorder : Recorder) : Recorder :=
  let begun := recorder.beginClass image.mods image.name image.superName image.interfaces
  let withFields := image.fields.foldl (fun recorder field =>
    recorder.addField field.mods field.name field.descriptor) begun
  (image.methods.foldl (fun recorder method => method.replay recorder) withFields).endClass

end ClassCompiler
