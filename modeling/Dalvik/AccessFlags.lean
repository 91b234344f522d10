/-! Access flags of classes, fields and methods. The three share one space of bits, and two bits
mean different things for fields and methods. -/
namespace Dalvik

structure AccessFlags where
  bits : BitVec 32
  deriving DecidableEq

namespace AccessFlags

/-- Name and bit of every flag, in the order in which flags are shown. A bit with two meanings is
listed under both. -/
def named : List (String × AccessFlags) :=
  [("PUBLIC", ⟨0x1⟩), ("PRIVATE", ⟨0x2⟩), ("PROTECTED", ⟨0x4⟩), ("STATIC", ⟨0x8⟩),
   ("FINAL", ⟨0x10⟩), ("SYNCHRONIZED", ⟨0x20⟩), ("VOLATILE", ⟨0x40⟩), ("BRIDGE", ⟨0x40⟩),
   ("TRANSIENT", ⟨0x80⟩), ("VARARGS", ⟨0x80⟩), ("NATIVE", ⟨0x100⟩), ("INTERFACE", ⟨0x200⟩),
   ("ABSTRACT", ⟨0x400⟩), ("STRICT", ⟨0x800⟩), ("SYNTHETIC", ⟨0x1000⟩),
   ("ANNOTATION", ⟨0x2000⟩), ("ENUM", ⟨0x4000⟩), ("CONSTRUCTOR", ⟨0x10000⟩),
   ("DECLARED_SYNCHRONIZED", ⟨0x20000⟩)]

def empty : AccessFlags := ⟨0⟩
def privateAccess : AccessFlags := ⟨0x2⟩
def static : AccessFlags := ⟨0x8⟩
def synchronized : AccessFlags := ⟨0x20⟩
def native : AccessFlags := ⟨0x100⟩
def abstract : AccessFlags := ⟨0x400⟩
def constructor : AccessFlags := ⟨0x10000⟩
def declaredSynchronized : AccessFlags := ⟨0x20000⟩

/-- All bits that mean something. -/
def known : AccessFlags := ⟨0x37fff⟩

/-- What a class may have: public, final, interface, abstract, synthetic, annotation and enum. -/
def forClasses : AccessFlags := ⟨0x7611⟩

/-- What a field may have: the three visibilities, static, final, volatile, transient, synthetic
and enum. -/
def forFields : AccessFlags := ⟨0x50df⟩

/-- What a method may have: the three visibilities, static, final, synchronized, bridge, varargs,
native, abstract, strict, synthetic, constructor and declared-synchronized. -/
def forMethods : AccessFlags := ⟨0x31dff⟩

def union (a b : AccessFlags) : AccessFlags := ⟨a.bits ||| b.bits⟩
def inter (a b : AccessFlags) : AccessFlags := ⟨a.bits &&& b.bits⟩
def xor (a b : AccessFlags) : AccessFlags := ⟨a.bits ^^^ b.bits⟩
def diff (a b : AccessFlags) : AccessFlags := ⟨a.bits &&& ~~~b.bits⟩

/-- Complement within the known bits. -/
def compl (a : AccessFlags) : AccessFlags := known.diff a

def isEmpty (a : AccessFlags) : Bool := a.bits == 0
def contains (a b : AccessFlags) : Bool := a.bits &&& b.bits == b.bits
def intersects (a b : AccessFlags) : Bool := a.bits &&& b.bits != 0

/-- Drops the bits that mean nothing. -/
def ofBits (bits : BitVec 32) : AccessFlags := (⟨bits⟩ : AccessFlags).inter known

/-- Refuses bits that mean nothing. -/
def ofBits? (bits : BitVec 32) : Option AccessFlags :=
  if bits &&& ~~~known.bits == 0 then some ⟨bits⟩ else none

/-- Methods called without looking at the class of the receiver. -/
def isDirect (a : AccessFlags) : Bool :=
  a.intersects (static.union (privateAccess.union constructor))

/-- Methods whose code is elsewhere. -/
def isBodiless (a : AccessFlags) : Bool := a.intersects (abstract.union native)

/-- Names of all the flags contained. -/
def text (a : AccessFlags) : String :=
  match named.filter fun flag => a.contains flag.2 with
  | [] => "(empty)"
  | flags => " | ".intercalate (flags.map Prod.fst)

end AccessFlags
end Dalvik
