import Formicary.Bytes
import Formicary.Code.Decoding
import Formicary.Text.Quoted
import Formicary.Text.Utf8

/-!
# The header of a blob

Stored machine code starts with 20 bytes: a mark, the version of the format, how many labels and
bytes of code follow, and a checksum of what follows.
-/

namespace Formicary

open Text

/-- The checksum of a byte string: FNV-1a with 64 bits. Every byte is combined with the sum so far,
which is then multiplied by an odd prime. -/
def checksum (bytes : List UInt8) : UInt64 :=
  bytes.foldl (fun sum b => (sum ^^^ b.toUInt64) * 0x100000001b3) 0xcbf29ce484222325

/-- Why machine code cannot be stored or a blob cannot be read. -/
inductive BlobError where
  | headerTooShort (length : Nat)
  | invalidMagic (found : List UInt8)
  | unsupportedVersion (version : UInt16)
  | checksumMismatch (expected actual : UInt64)
  | labelTruncated
  | labelOutOfBounds (offset : Nat)
  | labelNotText (fault : Utf8Fault)
  | duplicateLabel (name : String)
  | codeLengthMismatch (expected actual : Nat)
  | invalidCode (error : CodeError)
  | labelTooLong (name : String)
  | tooManyLabels
  | codeTooLong
  deriving DecidableEq

/-- The mark that every blob starts with. -/
def blobMagic : Vector UInt8 4 :=
  #v[0x41, 0x4E, 0x54, 0x4D]

/-- The newest version of the format. -/
def blobVersion : UInt16 := 1

namespace BlobError

/-- The sum in sixteen hexadecimal digits. -/
def showChecksum (sum : UInt64) : String :=
  String.ofList (padDigits 16 16 sum.toNat)

/-- What a number too large for its field is called. -/
def outOfRange : String :=
  "number too large to fit in target type"

/-- What is wrong, followed by what caused it. -/
def trail : BlobError → List String
  | headerTooShort length => [s!"Header too short: {length} bytes"]
  | invalidMagic found =>
    ["Invalid magic: expected ANTM, got " ++ quoted (fromBytesLossy found)]
  | unsupportedVersion version =>
    [s!"Unsupported version {version.toNat} (newest known is {blobVersion.toNat})"]
  | checksumMismatch expected actual =>
    [s!"Checksum mismatch: expected {showChecksum expected}, got {showChecksum actual}"]
  | labelTruncated => ["Label record truncated"]
  | labelOutOfBounds offset => [s!"Label record at {offset} out of bounds"]
  | labelNotText fault => ["Label name is not UTF-8", fault.message]
  | duplicateLabel name => [s!"Duplicate label in blob: {name}"]
  | codeLengthMismatch expected actual =>
    [s!"Code length mismatch: header says {expected} bytes, have {actual}"]
  | invalidCode error => ["Blob contains invalid bytecode", error.message]
  | labelTooLong name => [s!"Label name too long: {name}", outOfRange]
  | tooManyLabels => ["Too many labels", outOfRange]
  | codeTooLong => ["Bytecode too long", outOfRange]

end BlobError

/-- The header of a blob. -/
structure BlobHeader where
  magic : Vector UInt8 4
  version : UInt16
  labelCount : UInt16
  codeLength : UInt32
  checksum : UInt64
  deriving DecidableEq

namespace BlobHeader

/-- The twenty bytes of a header. -/
def toBytes (h : BlobHeader) : List UInt8 :=
  h.magic.toList ++ littleEndian 2 h.version.toNat ++ littleEndian 2 h.labelCount.toNat ++
    littleEndian 4 h.codeLength.toNat ++ littleEndian 8 h.checksum.toNat

/-- Reads a header and gives it with the bytes after it. -/
def read : List UInt8 → Except BlobError (BlobHeader × List UInt8)
  | m₀ :: m₁ :: m₂ :: m₃ :: v₀ :: v₁ :: n₀ :: n₁ :: l₀ :: l₁ :: l₂ :: l₃ ::
      s₀ :: s₁ :: s₂ :: s₃ :: s₄ :: s₅ :: s₆ :: s₇ :: content =>
    let magic := #v[m₀, m₁, m₂, m₃]
    let version := (ofLittleEndian [v₀, v₁]).toUInt16
    if magic ≠ blobMagic then
      .error (.invalidMagic magic.toList)
    else if blobVersion < version then
      .error (.unsupportedVersion version)
    else
      .ok (⟨magic, version, (ofLittleEndian [n₀, n₁]).toUInt16,
        (ofLittleEndian [l₀, l₁, l₂, l₃]).toUInt32,
        (ofLittleEndian [s₀, s₁, s₂, s₃, s₄, s₅, s₆, s₇]).toUInt64⟩, content)
  | bytes => .error (.headerTooShort bytes.length)

end BlobHeader

end Formicary
