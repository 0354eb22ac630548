/-!
# Operation codes

The instructions of the virtual machine that a class can contain, with their bytes and assembler
names.

* `OpCode.ofByte?`, `OpCode.ofMnemonic?`
* `OpCode.complement?`: the conditional jump with the opposite condition
-/

namespace ClassCompiler

inductive OpCode
  | nop
  | aconstNull
  | iconstM1
  | iconst0
  | iconst1
  | iconst2
  | iconst3
  | iconst4
  | iconst5
  | lconst0
  | lconst1
  | fconst0
  | fconst1
  | fconst2
  | dconst0
  | dconst1
  | bipush
  | sipush
  | ldc
  | ldcW
  | ldc2W
  | iload
  | lload
  | fload
  | dload
  | aload
  | iload0
  | iload1
  | iload2
  | iload3
  | lload0
  | lload1
  | lload2
  | lload3
  | fload0
  | fload1
  | fload2
  | fload3
  | dload0
  | dload1
  | dload2
  | dload3
  | aload0
  | aload1
  | aload2
  | aload3
  | iaload
  | laload
  | faload
  | daload
  | aaload
  | baload
  | caload
  | saload
  | istore
  | lstore
  | fstore
  | dstore
  | astore
  | istore0
  | istore1
  | istore2
  | istore3
  | lstore0
  | lstore1
  | lstore2
  | lstore3
  | fstore0
  | fstore1
  | fstore2
  | fstore3
  | dstore0
  | dstore1
  | dstore2
  | dstore3
  | astore0
  | astore1
  | astore2
  | astore3
  | iastore
  | lastore
  | fastore
  | dastore
  | aastore
  | bastore
  | castore
  | sastore
  | pop
  | pop2
  | dup
  | dupX1
  | dupX2
  | dup2
  | dup2X1
  | dup2X2
  | swap
  | iadd
  | ladd
  | fadd
  | dadd
  | isub
  | lsub
  | fsub
  | dsub
  | imul
  | lmul
  | fmul
  | dmul
  | idiv
  | ldiv
  | fdiv
  | ddiv
  | irem
  | lrem
  | frem
  | drem
  | ineg
  | lneg
  | fneg
  | dneg
  | ishl
  | lshl
  | ishr
  | lshr
  | iushr
  | lushr
  | iand
  | land
  | ior
  | lor
  | ixor
  | lxor
  | iinc
  | i2l
  | i2f
  | i2d
  | l2i
  | l2f
  | l2d
  | f2i
  | f2l
  | f2d
  | d2i
  | d2l
  | d2f
  | i2b
  | i2c
  | i2s
  | lcmp
  | fcmpl
  | fcmpg
  | dcmpl
  | dcmpg
  | ifeq
  | ifne
  | iflt
  | ifge
  | ifgt
  | ifle
  | ifIcmpeq
  | ifIcmpne
  | ifIcmplt
  | ifIcmpge
  | ifIcmpgt
  | ifIcmple
  | ifAcmpeq
  | ifAcmpne
  | goto
  | ireturn
  | lreturn
  | freturn
  | dreturn
  | areturn
  | vreturn
  | getstatic
  | putstatic
  | getfield
  | putfield
  | invokevirtual
  | invokespecial
  | invokestatic
  | invokeinterface
  | newObject
  | newarray
  | anewarray
  | arraylength
  | athrow
  | checkcast
  | instanceof
  | ifnull
  | ifnonnull
  deriving DecidableEq, Inhabited

namespace OpCode

/-- Every instruction with its byte and its assembler name, in order of the bytes. -/
def table : List (OpCode × UInt8 × String) :=
  [(nop, 0x00, "nop"), (aconstNull, 0x01, "aconst_null"), (iconstM1, 0x02, "iconst_m1"),
    (iconst0, 0x03, "iconst_0"), (iconst1, 0x04, "iconst_1"), (iconst2, 0x05, "iconst_2"),
    (iconst3, 0x06, "iconst_3"), (iconst4, 0x07, "iconst_4"), (iconst5, 0x08, "iconst_5"),
    (lconst0, 0x09, "lconst_0"), (lconst1, 0x0a, "lconst_1"), (fconst0, 0x0b, "fconst_0"),
    (fconst1, 0x0c, "fconst_1"), (fconst2, 0x0d, "fconst_2"), (dconst0, 0x0e, "dconst_0"),
    (dconst1, 0x0f, "dconst_1"), (bipush, 0x10, "bipush"), (sipush, 0x11, "sipush"),
    (ldc, 0x12, "ldc"), (ldcW, 0x13, "ldc_w"), (ldc2W, 0x14, "ldc2_w"), (iload, 0x15, "iload"),
    (lload, 0x16, "lload"), (fload, 0x17, "fload"), (dload, 0x18, "dload"),
    (aload, 0x19, "aload"), (iload0, 0x1a, "iload_0"), (iload1, 0x1b, "iload_1"),
    (iload2, 0x1c, "iload_2"), (iload3, 0x1d, "iload_3"), (lload0, 0x1e, "lload_0"),
    (lload1, 0x1f, "lload_1"), (lload2, 0x20, "lload_2"), (lload3, 0x21, "lload_3"),
    (fload0, 0x22, "fload_0"), (fload1, 0x23, "fload_1"), (fload2, 0x24, "fload_2"),
    (fload3, 0x25, "fload_3"), (dload0, 0x26, "dload_0"), (dload1, 0x27, "dload_1"),
    (dload2, 0x28, "dload_2"), (dload3, 0x29, "dload_3"), (aload0, 0x2a, "aload_0"),
    (aload1, 0x2b, "aload_1"), (aload2, 0x2c, "aload_2"), (aload3, 0x2d, "aload_3"),
    (iaload, 0x2e, "iaload"), (laload, 0x2f, "laload"), (faload, 0x30, "faload"),
    (daload, 0x31, "daload"), (aaload, 0x32, "aaload"), (baload, 0x33, "baload"),
    (caload, 0x34, "caload"), (saload, 0x35, "saload"), (istore, 0x36, "istore"),
    (lstore, 0x37, "lstore"), (fstore, 0x38, "fstore"), (dstore, 0x39, "dstore"),
    (astore, 0x3a, "astore"), (istore0, 0x3b, "istore_0"), (istore1, 0x3c, "istore_1"),
    (istore2, 0x3d, "istore_2"), (istore3, 0x3e, "istore_3"), (lstore0, 0x3f, "lstore_0"),
    (lstore1, 0x40, "lstore_1"), (lstore2, 0x41, "lstore_2"), (lstore3, 0x42, "lstore_3"),
    (fstore0, 0x43, "fstore_0"), (fstore1, 0x44, "fstore_1"), (fstore2, 0x45, "fstore_2"),
    (fstore3, 0x46, "fstore_3"), (dstore0, 0x47, "dstore_0"), (dstore1, 0x48, "dstore_1"),
    (dstore2, 0x49, "dstore_2"), (dstore3, 0x4a, "dstore_3"), (astore0, 0x4b, "astore_0"),
    (astore1, 0x4c, "astore_1"), (astore2, 0x4d, "astore_2"), (astore3, 0x4e, "astore_3"),
    (iastore, 0x4f, "iastore"), (lastore, 0x50, "lastore"), (fastore, 0x51, "fastore"),
    (dastore, 0x52, "dastore"), (aastore, 0x53, "aastore"), (bastore, 0x54, "bastore"),
    (castore, 0x55, "castore"), (sastore, 0x56, "sastore"), (pop, 0x57, "pop"),
    (pop2, 0x58, "pop2"), (dup, 0x59, "dup"), (dupX1, 0x5a, "dup_x1"), (dupX2, 0x5b, "dup_x2"),
    (dup2, 0x5c, "dup2"), (dup2X1, 0x5d, "dup2_x1"), (dup2X2, 0x5e, "dup2_x2"),
    (swap, 0x5f, "swap"), (iadd, 0x60, "iadd"), (ladd, 0x61, "ladd"), (fadd, 0x62, "fadd"),
    (dadd, 0x63, "dadd"), (isub, 0x64, "isub"), (lsub, 0x65, "lsub"), (fsub, 0x66, "fsub"),
    (dsub, 0x67, "dsub"), (imul, 0x68, "imul"), (lmul, 0x69, "lmul"), (fmul, 0x6a, "fmul"),
    (dmul, 0x6b, "dmul"), (idiv, 0x6c, "idiv"), (ldiv, 0x6d, "ldiv"), (fdiv, 0x6e, "fdiv"),
    (ddiv, 0x6f, "ddiv"), (irem, 0x70, "irem"), (lrem, 0x71, "lrem"), (frem, 0x72, "frem"),
    (drem, 0x73, "drem"), (ineg, 0x74, "ineg"), (lneg, 0x75, "lneg"), (fneg, 0x76, "fneg"),
    (dneg, 0x77, "dneg"), (ishl, 0x78, "ishl"), (lshl, 0x79, "lshl"), (ishr, 0x7a, "ishr"),
    (lshr, 0x7b, "lshr"), (iushr, 0x7c, "iushr"), (lushr, 0x7d, "lushr"), (iand, 0x7e, "iand"),
    (land, 0x7f, "land"), (ior, 0x80, "ior"), (lor, 0x81, "lor"), (ixor, 0x82, "ixor"),
    (lxor, 0x83, "lxor"), (iinc, 0x84, "iinc"), (i2l, 0x85, "i2l"), (i2f, 0x86, "i2f"),
    (i2d, 0x87, "i2d"), (l2i, 0x88, "l2i"), (l2f, 0x89, "l2f"), (l2d, 0x8a, "l2d"),
    (f2i, 0x8b, "f2i"), (f2l, 0x8c, "f2l"), (f2d, 0x8d, "f2d"), (d2i, 0x8e, "d2i"),
    (d2l, 0x8f, "d2l"), (d2f, 0x90, "d2f"), (i2b, 0x91, "i2b"), (i2c, 0x92, "i2c"),
    (i2s, 0x93, "i2s"), (lcmp, 0x94, "lcmp"), (fcmpl, 0x95, "fcmpl"), (fcmpg, 0x96, "fcmpg"),
    (dcmpl, 0x97, "dcmpl"), (dcmpg, 0x98, "dcmpg"), (ifeq, 0x99, "ifeq"), (ifne, 0x9a, "ifne"),
    (iflt, 0x9b, "iflt"), (ifge, 0x9c, "ifge"), (ifgt, 0x9d, "ifgt"), (ifle, 0x9e, "ifle"),
    (ifIcmpeq, 0x9f, "if_icmpeq"), (ifIcmpne, 0xa0, "if_icmpne"), (ifIcmplt, 0xa1, "if_icmplt"),
    (ifIcmpge, 0xa2, "if_icmpge"), (ifIcmpgt, 0xa3, "if_icmpgt"), (ifIcmple, 0xa4, "if_icmple"),
    (ifAcmpeq, 0xa5, "if_acmpeq"), (ifAcmpne, 0xa6, "if_acmpne"), (goto, 0xa7, "goto"),
    (ireturn, 0xac, "ireturn"), (lreturn, 0xad, "lreturn"), (freturn, 0xae, "freturn"),
    (dreturn, 0xaf, "dreturn"), (areturn, 0xb0, "areturn"), (vreturn, 0xb1, "return"),
    (getstatic, 0xb2, "getstatic"), (putstatic, 0xb3, "putstatic"), (getfield, 0xb4, "getfield"),
    (putfield, 0xb5, "putfield"), (invokevirtual, 0xb6, "invokevirtual"),
    (invokespecial, 0xb7, "invokespecial"), (invokestatic, 0xb8, "invokestatic"),
    (invokeinterface, 0xb9, "invokeinterface"), (newObject, 0xbb, "new"),
    (newarray, 0xbc, "newarray"), (anewarray, 0xbd, "anewarray"),
    (arraylength, 0xbe, "arraylength"), (athrow, 0xbf, "athrow"), (checkcast, 0xc0, "checkcast"),
    (instanceof, 0xc1, "instanceof"), (ifnull, 0xc6, "ifnull"), (ifnonnull, 0xc7, "ifnonnull")]

def entry? (op : OpCode) : Option (UInt8 × String) :=
  (table.find? fun row => row.1 == op).map (·.2)

def byte (op : OpCode) : UInt8 := (op.entry?.map (·.1)).getD 0

def mnemonic (op : OpCode) : String := (op.entry?.map (·.2)).getD ""

/-- The mnemonic as one word, each part with a capital. -/
def name (op : OpCode) : String :=
  String.join ((op.mnemonic.splitOn "_").map String.capitalize)

def ofByte? (byte : UInt8) : Option OpCode :=
  (table.find? fun row => row.2.1 == byte).map (·.1)

def ofMnemonic? (mnemonic : String) : Option OpCode :=
  (table.find? fun row => row.2.2 == mnemonic).map (·.1)

/-! ## Jumps and returns -/

/-- The conditional jump that is taken exactly when this one is not. -/
def complement? : OpCode → Option OpCode
  | ifeq => ifne
  | ifne => ifeq
  | iflt => ifge
  | ifge => iflt
  | ifgt => ifle
  | ifle => ifgt
  | ifIcmpeq => ifIcmpne
  | ifIcmpne => ifIcmpeq
  | ifIcmplt => ifIcmpge
  | ifIcmpge => ifIcmplt
  | ifIcmpgt => ifIcmple
  | ifIcmple => ifIcmpgt
  | ifAcmpeq => ifAcmpne
  | ifAcmpne => ifAcmpeq
  | ifnull => ifnonnull
  | ifnonnull => ifnull
  | _ => none

def isConditional (op : OpCode) : Bool := op.complement?.isSome

def isBranch (op : OpCode) : Bool := op == goto || op.isConditional

def isReturn : OpCode → Bool
  | ireturn | lreturn | freturn | dreturn | areturn | vreturn => true
  | _ => false

end OpCode

end ClassCompiler
