import ClassCompiler.Machine.Instr
import ClassCompiler.Modifiers

/-!
# Class images

A class as it is handed to a class-file writer: names and flags, fields, methods with their code,
and the constants that the code loads.
-/

namespace ClassCompiler

structure FieldImage where
  mods : Modifiers
  name : String
  descriptor : String
  deriving DecidableEq, Inhabited

structure MethodImage where
  mods : Modifiers
  name : String
  descriptor : String
  exceptions : List String
  code : List Instr := []
  deriving DecidableEq, Inhabited

namespace MethodImage

/-- The operation codes in order; labels have none. -/
def opCodes (method : MethodImage) : List OpCode := method.code.filterMap Instr.opCode?

def isAbstract (method : MethodImage) : Bool := method.mods.isAbstract

/-- The constants that the code loads, in order. -/
def constants (method : MethodImage) : List Constant :=
  method.code.filterMap fun
    | .ldc constant => some constant
    | _ => none

/-- One line per instruction; labels stand at the margin. -/
def disassemble (method : MethodImage) : String :=
  String.join (method.code.map fun instr =>
    (if instr.isLabel then "" else "  ") ++ instr.text ++ "\n")

end MethodImage

structure ClassImage where
  mods : Modifiers
  name : String
  superName : String
  interfaces : List String
  fields : List FieldImage := []
  methods : List MethodImage := []
  constants : ConstantPool := {}
  deriving DecidableEq, Inhabited

namespace ClassImage

/-- Appends a method; the constants of its code join the pool. -/
def addMethod (image : ClassImage) (method : MethodImage) : ClassImage :=
  { image with
    methods := image.methods ++ [method]
    constants := method.constants.foldl (fun pool constant => (pool.add constant).2)
      image.constants }

def addField (image : ClassImage) (field : FieldImage) : ClassImage :=
  { image with fields := image.fields ++ [field] }

def method? (image : ClassImage) (name : String) : Option MethodImage :=
  image.methods.find? fun method => method.name == name

def methodWithDescriptor? (image : ClassImage) (name descriptor : String) : Option MethodImage :=
  image.methods.find? fun method => method.name == name && method.descriptor == descriptor

def field? (image : ClassImage) (name : String) : Option FieldImage :=
  image.fields.find? fun field => field.name == name

end ClassImage

end ClassCompiler
