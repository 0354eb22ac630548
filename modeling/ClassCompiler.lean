import ClassCompiler.ClassFile.Emitter
import ClassCompiler.Compiler
import ClassCompiler.Proofs.Appending
import ClassCompiler.Proofs.Arithmetic
import ClassCompiler.Proofs.Assignability
import ClassCompiler.Proofs.Body.Again
import ClassCompiler.Proofs.Body.Lasting
import ClassCompiler.Proofs.Body.Marks
import ClassCompiler.Proofs.Body.Repeated
import ClassCompiler.Proofs.BodyIndependence
import ClassCompiler.Proofs.ClassFile.Copies
import ClassCompiler.Proofs.ClassFile.Dropping
import ClassCompiler.Proofs.ClassFile.Pushes
import ClassCompiler.Proofs.Code.ExprStack
import ClassCompiler.Proofs.Code.StmtStack
import ClassCompiler.Proofs.Compiler
import ClassCompiler.Proofs.Concatenation
import ClassCompiler.Proofs.Conditions
import ClassCompiler.Proofs.ControlFlow
import ClassCompiler.Proofs.DeclarationOrder
import ClassCompiler.Proofs.Decoding
import ClassCompiler.Proofs.DefiniteAssignment
import ClassCompiler.Proofs.Distinct
import ClassCompiler.Proofs.ErrorLimit
import ClassCompiler.Proofs.Extension
import ClassCompiler.Proofs.Frames
import ClassCompiler.Proofs.Hierarchy
import ClassCompiler.Proofs.Interning
import ClassCompiler.Proofs.Linking
import ClassCompiler.Proofs.Overriding
import ClassCompiler.Proofs.PassSequences
import ClassCompiler.Proofs.Recompilation
import ClassCompiler.Proofs.Recovery
import ClassCompiler.Proofs.RegistryFrame
import ClassCompiler.Proofs.SlotLayout
import ClassCompiler.Proofs.StackSafety
import ClassCompiler.Proofs.StubAgreement
import ClassCompiler.Proofs.Unit.Rechecking
import ClassCompiler.Proofs.Unit.Redeclaring
import ClassCompiler.Proofs.Unit.Restubbing
import ClassCompiler.Proofs.Updates
import ClassCompiler.Token
import ClassCompiler.Unit.Passes
