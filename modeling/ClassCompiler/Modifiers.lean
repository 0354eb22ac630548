/-!
# Modifiers

The modifiers of a class, field or method as one word of access flags. Bits without a meaning are
kept as they are.

* `Modifiers.ofKeyword?`: the flag of a source keyword
* `Modifiers.text`: the keywords of the flags that are set, in canonical order
-/

namespace ClassCompiler

/-- A word of access flags. -/
structure Modifiers where
  bits : UInt16
  deriving DecidableEq, Inhabited

namespace Modifiers

def empty : Modifiers := ⟨0⟩
def accPublic : Modifiers := ⟨0x0001⟩
def accPrivate : Modifiers := ⟨0x0002⟩
def accProtected : Modifiers := ⟨0x0004⟩
def accStatic : Modifiers := ⟨0x0008⟩
def accFinal : Modifiers := ⟨0x0010⟩
def accSynchronized : Modifiers := ⟨0x0020⟩
def accVolatile : Modifiers := ⟨0x0040⟩
def accTransient : Modifiers := ⟨0x0080⟩
def accNative : Modifiers := ⟨0x0100⟩
/-- Marks an interface; no keyword sets it. -/
def accInterface : Modifiers := ⟨0x0200⟩
def accAbstract : Modifiers := ⟨0x0400⟩
def accStrict : Modifiers := ⟨0x0800⟩

/-! ## Sets of flags -/

def union (mods other : Modifiers) : Modifiers := ⟨mods.bits ||| other.bits⟩

instance : Union Modifiers := ⟨union⟩

/-- Are all flags of `other` set? -/
def contains (mods other : Modifiers) : Bool := mods.bits &&& other.bits == other.bits

/-- Is some flag of `other` set? -/
def meets (mods other : Modifiers) : Bool := mods.bits &&& other.bits != 0

def isStatic (mods : Modifiers) : Bool := mods.contains accStatic

def isAbstract (mods : Modifiers) : Bool := mods.contains accAbstract

def isPrivate (mods : Modifiers) : Bool := mods.contains accPrivate

/-! ## Keywords -/

/-- Flags with their keywords, in the order in which a declaration lists them. -/
def keywordTable : List (Modifiers × String) :=
  [(accPublic, "public"), (accProtected, "protected"), (accPrivate, "private"),
    (accAbstract, "abstract"), (accStatic, "static"), (accFinal, "final"),
    (accTransient, "transient"), (accVolatile, "volatile"), (accSynchronized, "synchronized"),
    (accNative, "native"), (accStrict, "strictfp")]

def ofKeyword? (word : String) : Option Modifiers :=
  (keywordTable.find? fun entry => entry.2 == word).map (·.1)

/-- The flags of a list of keywords, if every word is one. -/
def ofKeywords? (words : List String) : Option Modifiers :=
  words.foldlM (fun mods word => (ofKeyword? word).map (mods ∪ ·)) empty

def keywords (mods : Modifiers) : List String :=
  (keywordTable.filter fun entry => mods.contains entry.1).map (·.2)

def text (mods : Modifiers) : String := " ".intercalate mods.keywords

end Modifiers

end ClassCompiler
