import OpenFix.Checksum
import OpenFix.FieldMap

/-!
# Messages and their text

A message is three field maps.  `serializeTo` writes `8=`, `9=`, the fields of
the maps in order, each count field followed by the instances of its group, and
`10=`.  The tags 8, 9 and 10 are skipped inside the maps, since the frame is
written around them.

`appendGroup` is a recursion through the instances of a map.  The instances of
each group are rendered first, and the rendering of a group is put behind its
count field.
-/

namespace OpenFix

/-- The tags that the frame of a message carries. -/
def isIgnoredTag (tag : Int) : Bool :=
  tag = Field.beginString || tag = Field.bodyLength || tag = Field.checkSum

/-- `tag=`. -/
def appendTagEq (tag : Int) : Bytes := toChars tag ++ [tagAssignmentChar]

/-- `tag=value` and the separator. -/
def appendField (soh : UInt8) (tag : Int) (value : Bytes) : Bytes :=
  appendTagEq tag ++ value ++ [soh]

/-- What `appendGroup` writes: the bytes, and how often it counted a separator. -/
abbrev Rendered := Bytes × Nat

def Rendered.append (a b : Rendered) : Rendered := (a.1 ++ b.1, a.2 + b.2)

namespace FieldMap

mutual

/-- The fields of a map, each followed by the instances of its group. -/
def appendGroup (skipIgnoredTags : Bool) (soh : UInt8) : FieldMap → Rendered
  | ⟨fields, owned, capacity, groups, spec, seen⟩ =>
      let m : FieldMap := ⟨fields, owned, capacity, groups, spec, seen⟩
      let instances := appendGroups skipIgnoredTags soh groups
      let body := fields.foldl (fun out (tag, v) =>
        if skipIgnoredTags && isIgnoredTag tag then out
        else Rendered.append (Rendered.append out (appendField soh tag (m.read tag v), 1))
          ((AssocList.find? tag instances).getD ([], 0))) (([], 0) : Rendered)
      match skipIgnoredTags, m.field? Field.checkSum with
      | false, some v => (body.1 ++ appendField soh Field.checkSum v, body.2)
      | _, _ => body

/-- The rendering of every group, by the tag of its count. -/
def appendGroups (skipIgnoredTags : Bool) (soh : UInt8) :
    List (Int × List FieldMap) → List (Int × Rendered)
  | [] => []
  | (tag, ms) :: rest =>
      (tag, appendInstances skipIgnoredTags soh ms) :: appendGroups skipIgnoredTags soh rest

/-- The instances of one group, in order. -/
def appendInstances (skipIgnoredTags : Bool) (soh : UInt8) : List FieldMap → Rendered
  | [] => ([], 0)
  | m :: ms => Rendered.append (m.appendGroup skipIgnoredTags soh)
      (appendInstances skipIgnoredTags soh ms)

end

end FieldMap

/-- A message. -/
structure Message where
  /-- The standard header. -/
  header : FieldMap
  /-- The body. -/
  body : FieldMap
  /-- The standard trailer. -/
  trailer : FieldMap

namespace Message

def new : Message := ⟨FieldMap.new, FieldMap.new, FieldMap.new⟩

def copy (msg : Message) : Message := ⟨msg.header.copy, msg.body.copy, msg.trailer.copy⟩

/-- The text of the three maps without the frame, with the count of separators. -/
def serializeBody (msg : Message) (soh : UInt8) : Rendered :=
  Rendered.append (Rendered.append (msg.header.appendGroup true soh)
    (msg.body.appendGroup true soh)) (msg.trailer.appendGroup true soh)

/-- `8=BeginString`, when the header has it. -/
def serializeBeginString (msg : Message) (soh : UInt8) : Rendered :=
  match msg.header.field? Field.beginString with
  | some v => (appendField soh Field.beginString v, 1)
  | none => ([], 0)

/-- Everything before the checksum. -/
def serializeFrame (msg : Message) (soh : UInt8) : Bytes :=
  (msg.serializeBeginString soh).1 ++
    appendField soh Field.bodyLength (toChars (i32 (msg.serializeBody soh).1.length)) ++
    (msg.serializeBody soh).1

/-- The checksum of the text as it would be with SOH separators. -/
def serializeChecksum (msg : Message) (soh : UInt8) : UInt8 :=
  let checksum := computeChecksum (msg.serializeFrame soh)
  let sohCount := 1 + (msg.serializeBody soh).2 + (msg.serializeBeginString soh).2
  if soh = internalSohChar then checksum
  else checksum + UInt8.ofNat sohCount * (internalSohChar - soh)

def serialize (msg : Message) (soh : UInt8) : Bytes :=
  msg.serializeFrame soh ++
    appendField soh Field.checkSum (formatChecksum (msg.serializeChecksum soh))

/-- `toString(true)` is the wire text, `toString(false)` the text for logs. -/
def toString (msg : Message) (internal : Bool) : Bytes :=
  msg.serialize (if internal then internalSohChar else externalSohChar)

/-- The header of the test `FieldOrder`: tag 34 is put behind tag 35. -/
example : Message.toString ⟨(FieldMap.new.setField 35 (ascii "0") true).setField 34 (ascii "10") true,
    FieldMap.new, FieldMap.new⟩ false = ascii "9=11|35=0|34=10|10=181|" := by decide

end Message

end OpenFix
