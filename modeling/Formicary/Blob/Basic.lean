import Formicary.Blob.Header
import Formicary.Code.MachineCode

/-!
# Blobs

A blob is machine code in one byte string: the header, a record for each label in the order of
names, and the instructions. Reading takes the records in any order, but no name twice, and accepts
only code that can be read to its end.
-/

namespace Formicary

open Text

/-- The record of a label: the length of its name in a byte, the name, and the step. -/
def labelRecord (name : String) (step : UInt16) : Except BlobError (List UInt8) :=
  let bytes := toBytes name
  if bytes.length < 256 then
    .ok (bytes.length.toUInt8 :: (bytes ++ littleEndian 2 step.toNat))
  else
    .error (.labelTooLong name)

/-- Reads `count` label records that start `offset` bytes into the content. Gives all the labels and
the bytes after the records. -/
def readLabels : (count offset : Nat) → LabelTable → List UInt8 →
    Except BlobError (LabelTable × List UInt8)
  | 0, _, labels, content => .ok (labels, content)
  | _ + 1, _, _, [] => .error .labelTruncated
  | count + 1, offset, labels, length :: bytes =>
    match bytes.drop length.toNat with
    | s₀ :: s₁ :: rest =>
      match fromBytes (bytes.take length.toNat) with
      | .error fault => .error (.labelNotText fault)
      | .ok name =>
        match labels.insert? name (ofLittleEndian [s₀, s₁]).toUInt16 with
        | none => .error (.duplicateLabel name)
        | some labels => readLabels count (offset + length.toNat + 3) labels rest
    | _ => .error (.labelOutOfBounds offset)

namespace MachineCode

/-- The blob of a program. -/
def toBlob (m : MachineCode) : Except BlobError (List UInt8) := do
  let records ← m.labels.entries.mapM fun (name, step) => labelRecord name step
  let content := records.flatten ++ m.code
  if UInt16.size ≤ m.labels.size then
    throw .tooManyLabels
  if UInt32.size ≤ m.code.length then
    throw .codeTooLong
  let header : BlobHeader :=
    ⟨blobMagic, blobVersion, m.labels.size.toUInt16, m.code.length.toUInt32, checksum content⟩
  return header.toBytes ++ content

/-- The program that a blob holds. -/
def ofBlob (blob : List UInt8) : Except BlobError MachineCode := do
  let (header, content) ← BlobHeader.read blob
  let actual := checksum content
  if actual ≠ header.checksum then
    throw (.checksumMismatch header.checksum actual)
  let (labels, code) ← readLabels header.labelCount.toNat 0 LabelTable.empty content
  if code.length ≠ header.codeLength.toNat then
    throw (.codeLengthMismatch header.codeLength.toNat code.length)
  match (⟨code, labels⟩ : MachineCode).stepCount with
  | .error error => throw (.invalidCode error)
  | .ok _ => return ⟨code, labels⟩

end MachineCode

end Formicary
