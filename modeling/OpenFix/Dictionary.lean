import OpenFix.Config
import OpenFix.Message

/-!
# The dictionary parser

`Dictionary.parse` reads `tag=value` fields one after the other and files each
of them in a field map of the message it builds.  Where a field goes is decided
by a stack of at most eight entries: the section at the bottom, and above it the
group instances that are open.  An entry points to the field map it fills; here
a pointer is a section and a path of group tags and instance numbers, which stay
valid because instances are only ever appended.

The stack is a list with its top first, so the entry with index `j` in
`groupStackBuf` is the one with `j` entries below it.  A step that reads past
the stack, past the text or through a null specification raises
`Exn.undefined`.
-/

namespace OpenFix

/-- A dictionary as `DictionaryRegistry::load` builds it. -/
structure Dictionary where
  headerSpec : GroupSpec
  trailerSpec : GroupSpec
  bodySpecs : List (Bytes × GroupSpec)
  fieldTypes : List (Int × FieldType)

namespace Dictionary

def getFieldType (dict : Dictionary) (tag : Int) : FieldType :=
  (AssocList.find? tag dict.fieldTypes).getD .unknown

/-- The specification of a message type, or null. -/
def getMessageSpecRaw (dict : Dictionary) (msgType : Bytes) : Option GroupSpec :=
  AssocList.find? msgType dict.bodySpecs

/-- An empty message of a type the dictionary knows. -/
def create (dict : Dictionary) (msgType : Bytes) : Except Exn Message :=
  match dict.getMessageSpecRaw msgType with
  | none => .error (.messageParsingError "Unknown message")
  | some bodySpec =>
      .ok {
        header := (FieldMap.new.setSpec (some dict.headerSpec)).setField Field.msgType msgType true
        body := FieldMap.new.setSpec (some bodySpec)
        trailer := FieldMap.new.setSpec (some dict.trailerSpec) }

end Dictionary

/-! ## Pointers into a message -/

/-- The sections of a message. -/
inductive MessageSection where
  | header
  | body
  | trailer
deriving Repr, DecidableEq

/-- A pointer to a field map of a message. -/
structure GroupRef where
  /-- The section. -/
  sec : MessageSection
  /-- The group tags and instance numbers from the section down. -/
  path : List (Int × Nat)
deriving Repr, DecidableEq

/-- The instance `i` of group `tag` below `ref`. -/
def GroupRef.child (ref : GroupRef) (tag : Int) (i : Nat) : GroupRef :=
  ⟨ref.sec, ref.path ++ [(tag, i)]⟩

namespace FieldMap

/-- The instance with number `i` of the group `tag`. -/
def instanceAt (m : FieldMap) (tag : Int) (i : Nat) : FieldMap :=
  (((AssocList.find? tag m.groups).getD [])[i]?).getD new

/-- The field map at a path. -/
def getAt : List (Int × Nat) → FieldMap → FieldMap
  | [], m => m
  | (tag, i) :: path, m => getAt path (m.instanceAt tag i)

/-- Change the field map at a path. -/
def modifyAt (f : FieldMap → FieldMap) : List (Int × Nat) → FieldMap → FieldMap
  | [], m => f m
  | (tag, i) :: path, m =>
      { m with groups := AssocList.modify tag (fun ms => ms.modify i (modifyAt f path)) m.groups }

end FieldMap

namespace Message

def sectionMap (msg : Message) : MessageSection → FieldMap
  | .header => msg.header
  | .body => msg.body
  | .trailer => msg.trailer

def modifySection (msg : Message) (f : FieldMap → FieldMap) : MessageSection → Message
  | .header => { msg with header := f msg.header }
  | .body => { msg with body := f msg.body }
  | .trailer => { msg with trailer := f msg.trailer }

def get (msg : Message) (ref : GroupRef) : FieldMap := (msg.sectionMap ref.sec).getAt ref.path

def modify (msg : Message) (f : FieldMap → FieldMap) (ref : GroupRef) : Message :=
  msg.modifySection (FieldMap.modifyAt f ref.path) ref.sec

end Message

/-! ## The state of a parse -/

inductive MessageState where
  | header
  | body
  | trailer
deriving Repr, DecidableEq

/-- An entry of the group stack. -/
structure ParserGroupInfo where
  spec : Option GroupSpec
  group : GroupRef
  groupTag : Int := 0
  groupCount : Nat := 0
  groupMaxCount : Nat := 0

/-- The number of slots of `groupStackBuf`. -/
def groupStackSlots : Nat := 8

structure ParseState where
  /-- The message built so far. -/
  msg : Message := Message.new
  msgState : MessageState := .header
  /-- The group stack, top first. -/
  stack : List ParserGroupInfo
  /-- The tag read last. -/
  tag : Int := 0
  /-- The offset behind the `9=` field. -/
  bodyLengthStart : Int := 0
  /-- The value of a LENGTH field just read. -/
  dataLength : Option Nat := none
  /-- How many fields were read, up to those in data fields. -/
  tagCount : Nat := 0

/-- A field of the text, with the offset of the byte behind its value. -/
structure WireField where
  tag : Int
  val : Bytes
  stop : Nat
deriving Repr, DecidableEq

/-- `TRY_LOG_THROW`: an error in strict mode, a log entry in relaxed mode. -/
def tryLogThrow (settings : SessionSettings) (text : String) : Except Exn Unit :=
  if settings.relaxedParsing then .ok () else .error (.messageParsingError text)

namespace ParseState

def get (st : ParseState) (ref : GroupRef) : FieldMap := st.msg.get ref

def modify (st : ParseState) (f : FieldMap → FieldMap) (ref : GroupRef) : ParseState :=
  { st with msg := st.msg.modify f ref }

/-- A LENGTH field announces the size of the data field that follows. -/
def noteLength (settings : SessionSettings) (dict : Dictionary) (st : ParseState) (f : WireField) :
    Except Exn ParseState :=
  if dict.getFieldType f.tag = .length then
    if fastParseTag f.val < 0 then do
      tryLogThrow settings "Couldn't parse data field"
      .ok st
    else .ok { st with dataLength := some (fastParseTag f.val).toNat }
  else .ok st

/-- The body of a message starts behind its `9=` field.  The sum of two `int`s is not wrapped here:
one past the largest is undefined in the source. -/
def noteBodyLength (st : ParseState) (f : WireField) : ParseState :=
  if f.tag = Field.bodyLength then { st with bodyLengthStart := i32 f.stop + 1 } else st

/-- The fallback `setField`: assign without a check for duplicates. -/
def setField (settings : SessionSettings) (dict : Dictionary) (st : ParseState) (ref : GroupRef)
    (f : WireField) : Except Exn ParseState := do
  let st ← st.noteLength settings dict f
  .ok ((st.noteBodyLength f).modify (fun m => m.setFieldView f.tag f.val false) ref)

/-- Give a finished field map its specification, sort it and look for missing
required fields. -/
def validateGroup (settings : SessionSettings) (st : ParseState) (ref : GroupRef)
    (spec : Option GroupSpec) : Except Exn ParseState :=
  let st := st.modify (fun m => m.setSpec spec) ref
  match spec with
  | none =>
      if settings.parsingReorderTags || settings.validateRequiredFields then
        .error (.undefined "null specification")
      else .ok st
  | some s =>
      let st := if settings.parsingReorderTags && s.ordered then st.modify FieldMap.sortFields ref
        else st
      if settings.validateRequiredFields
          && s.fields.any fun field => field.2 && !(st.get ref).has field.1 then do
        tryLogThrow settings "Message is missing required field"
        .ok st
      else .ok st

/-- Pop entries until at most `keep` are left. -/
def popStack (settings : SessionSettings) (keep : Nat) :
    List ParserGroupInfo → ParseState → Except Exn ParseState
  | [], st => .ok { st with stack := [] }
  | g :: below, st =>
      if keep < below.length + 1 then do
        if g.groupTag > 0 && decide (g.groupCount < g.groupMaxCount) then
          tryLogThrow settings "Repeating group terminated with count less than NumInGroup"
        let st ← st.validateGroup settings g.group g.spec
        popStack settings keep below st
      else .ok { st with stack := g :: below }

/-- Pop the entries above the index `keep - 1`. -/
def overwriteStack (settings : SessionSettings) (keep : Nat) (st : ParseState) :
    Except Exn ParseState :=
  popStack settings keep st.stack st

/-- What `trySetField` and `handleRepeatingTag` did with a field. -/
structure Tried where
  st : ParseState
  /-- The entry that was tried, as it is now. -/
  group : ParserGroupInfo
  /-- The entry pushed for a group that was opened. -/
  pushed : List ParserGroupInfo
  /-- The index to go on with, unless the entry did not take the field. -/
  idx : Option Nat

/-- A tag that the entry has already seen: the next instance of its group, or a
duplicate. -/
def handleRepeatingTag (settings : SessionSettings) (dict : Dictionary) (st : ParseState)
    (group : ParserGroupInfo) (groupIdx : Nat) (parent : Option ParserGroupInfo) (f : WireField) :
    Except Exn Tried :=
  if group.groupTag > 0 then
    if group.groupCount = group.groupMaxCount then do
      tryLogThrow settings "Repeating group count exceeds NumInGroup"
      .ok ⟨st, group, [], none⟩
    else do
      let st ← st.validateGroup settings group.group group.spec
      match parent with
      | none => .error (.undefined "group without a parent")
      | some parent =>
          let n := (st.get parent.group).getGroupCount group.groupTag
          let ref := parent.group.child group.groupTag n
          let st := st.modify (fun m => m.addGroup group.groupTag) parent.group
          let st := st.modify (fun m => (m.setFieldViewOrDetectDup f.tag f.val).2) ref
          let st := if dict.getFieldType f.tag = .length ∧ 0 ≤ fastParseTag f.val then
              { st with dataLength := some (fastParseTag f.val).toNat } else st
          .ok ⟨st, { group with group := ref, groupCount := group.groupCount + 1 }, [],
            some groupIdx⟩
  else do
    tryLogThrow settings "Message contains duplicate tags"
    .ok ⟨st, group, [], none⟩

/-- Offer a field to one entry. -/
def trySetField (settings : SessionSettings) (dict : Dictionary) (st : ParseState)
    (group : ParserGroupInfo) (groupIdx : Nat) (parent : Option ParserGroupInfo) (f : WireField) :
    Except Exn Tried :=
  match group.spec with
  | none => .error (.undefined "null specification")
  | some spec =>
      if spec.hasField f.tag then
        if ((st.get group.group).setFieldViewOrDetectDup f.tag f.val).1 then
          st.handleRepeatingTag settings dict group groupIdx parent f
        else do
          let st := st.modify (fun m => (m.setFieldViewOrDetectDup f.tag f.val).2) group.group
          let st ← st.noteLength settings dict f
          .ok ⟨st.noteBodyLength f, group, [], some groupIdx⟩
      else
        match spec.findGroup f.tag with
        | none => .ok ⟨st, group, [], none⟩
        | some groupSpec =>
            if (st.get group.group).getGroupCount f.tag > 0 then
              st.handleRepeatingTag settings dict group groupIdx parent f
            else if fastParseTag f.val < 0 then do
              tryLogThrow settings "Couldn't parse NumInGroup"
              .ok ⟨st, group, [], none⟩
            else if groupStackSlots ≤ st.stack.length then
              .error (.undefined "group stack overflow")
            else do
              let st := st.modify (fun m => m.addGroup f.tag) group.group
              let st ← st.setField settings dict group.group f
              .ok ⟨st, group,
                [{ spec := some groupSpec, group := group.group.child f.tag 0, groupTag := f.tag,
                   groupCount := 1, groupMaxCount := (fastParseTag f.val).toNat }],
                some (groupIdx + 1)⟩

/-- Offer a field to the entries of the stack, from the top down.  `above` are
the entries that did not take it. -/
def dispatchStack (settings : SessionSettings) (dict : Dictionary) (f : WireField) :
    List ParserGroupInfo → List ParserGroupInfo → ParseState →
      Except Exn (Option Nat × ParseState)
  | _, [], st => .ok (none, st)
  | above, g :: below, st => do
      let r ← st.trySetField settings dict g below.length below.head? f
      match r.idx with
      | some idx => .ok (some idx, { r.st with stack := r.pushed ++ above ++ r.group :: below })
      | none => dispatchStack settings dict f (above ++ [g]) below r.st

/-- The entry of the trailer. -/
def trailerInfo (dict : Dictionary) : ParserGroupInfo :=
  { spec := some dict.trailerSpec, group := ⟨.trailer, []⟩ }

/-- Replace the entry at the bottom. -/
def replaceBottom (stack : List ParserGroupInfo) (g : ParserGroupInfo) : List ParserGroupInfo :=
  stack.dropLast ++ [g]

/-- A field that no specification has goes to the current group. -/
def dispatchUnknown (settings : SessionSettings) (dict : Dictionary) (f : WireField)
    (st : ParseState) : Except Exn ParseState :=
  match st.stack.head? with
  | none => .error (.undefined "empty group stack")
  | some top => st.setField settings dict top.group f

/-- The body-to-trailer transition. -/
def dispatchTrailer (settings : SessionSettings) (dict : Dictionary) (f : WireField)
    (st : ParseState) : Except Exn ParseState :=
  if st.msgState = .body then do
    let r ← st.trySetField settings dict (trailerInfo dict) 0 none f
    match r.idx, r.st.stack.getLast? with
    | some idx, some bottom => do
        let st ← r.st.validateGroup settings bottom.group bottom.spec
        overwriteStack settings (idx + 1)
          { st with
            msgState := .trailer
            stack := r.pushed ++ replaceBottom r.st.stack r.group }
    | some _, none => .error (.undefined "empty group stack")
    | none, _ => dispatchUnknown settings dict f r.st
  else dispatchUnknown settings dict f st

/-- The specification of the body, by the type in the header. -/
def bodySpecOf (settings : SessionSettings) (dict : Dictionary) (st : ParseState) :
    Except Exn (Option GroupSpec) :=
  match st.msg.header.getField Field.msgType with
  | .ok msgType => .ok (dict.getMessageSpecRaw msgType)
  | .error _ => do
      tryLogThrow settings "Unknown message type"
      .ok none

/-- The header-to-body transition. -/
def dispatchBody (settings : SessionSettings) (dict : Dictionary) (f : WireField)
    (st : ParseState) : Except Exn ParseState :=
  if st.msgState = .header then do
    let st ← overwriteStack settings 0 st
    let bodySpec ← st.bodySpecOf settings dict
    let info : ParserGroupInfo := { spec := bodySpec, group := ⟨.body, []⟩ }
    let st := { st with stack := [info], msgState := .body }
    let r ← st.trySetField settings dict info 0 none f
    match r.idx with
    | some _ => .ok { r.st with stack := r.pushed ++ [r.group] }
    | none => dispatchTrailer settings dict f r.st
  else dispatchTrailer settings dict f st

/-- File one field. -/
def dispatchField (settings : SessionSettings) (dict : Dictionary) (f : WireField)
    (st : ParseState) : Except Exn ParseState :=
  match st.stack.head? with
  | none => .error (.undefined "empty group stack")
  | some top =>
      match top.spec with
      | none => .error (.undefined "null specification")
      | some spec =>
          if spec.empty then dispatchBody settings dict f st
          else do
            let (idx, st) ← dispatchStack settings dict f [] st.stack st
            match idx with
            | some idx => overwriteStack settings (idx + 1) st
            | none => dispatchBody settings dict f st

end ParseState

/-! ## The main loop -/

/-- The bytes before and behind the first `b`, as `memchr` finds it. -/
def splitByte (b : UInt8) : Bytes → Option (Bytes × Bytes)
  | [] => none
  | c :: rest =>
      if c = b then some ([], rest) else (splitByte b rest).map fun p => (c :: p.1, p.2)

/-- The first three fields are `8=`, `9=` and `35=`. -/
def checkTagOrder (settings : SessionSettings) (tagCount : Nat) (tag : Int) : Except Exn Unit := do
  if tagCount = 0 && tag ≠ Field.beginString then
    tryLogThrow settings "First field is not BeginString"
  if tagCount = 1 && tag ≠ Field.bodyLength then
    tryLogThrow settings "Second field is not BodyLength"
  if tagCount = 2 && tag ≠ Field.msgType then
    tryLogThrow settings "Third field is not MsgType"

/-- A data field: its value is `len` bytes of `rest`, whatever they are.  The
answer has what follows the value and the byte behind it. -/
def parseDataField (settings : SessionSettings) (tag : Int) (len : Nat) (rest : Bytes)
    (st : ParseState) : Except Exn (Bytes × ParseState) :=
  if rest.length < len then do
    tryLogThrow settings "Data tag length would exceed message size"
    .error (.undefined "data field past the end of the text")
  else
    match st.stack.head? with
    | none => .error (.undefined "empty group stack")
    | some top =>
        .ok (rest.drop (len + 1),
          { st.modify (fun m => m.setFieldView tag (rest.take len) false) top.group with
            dataLength := none })

/-- The value of a field and its dispatch.  There is no answer when the value
is not terminated, which ends the loop. -/
def parseValue (settings : SessionSettings) (dict : Dictionary) (size : Nat) (rest : Bytes)
    (st : ParseState) : Except Exn (Option Bytes × ParseState) :=
  match st.dataLength, dict.getFieldType st.tag with
  | some len, .data => do
      let (rest, st) ← parseDataField settings st.tag len rest st
      .ok (some rest, st)
  | _, _ =>
      let st := { st with dataLength := none }
      match splitByte internalSohChar rest with
      | none => do
          tryLogThrow settings "Message does not end in SOH character"
          .ok (none, st)
      | some (val, rest) => do
          let st ← st.dispatchField settings dict ⟨st.tag, val, size - (rest.length + 1)⟩
          .ok (some rest, st)

/-- The loop over the text, of which `size` bytes were given and the list is
left.  Every round takes a byte at least, so `size` rounds are enough. -/
def parseLoop (settings : SessionSettings) (dict : Dictionary) (size : Nat) :
    Nat → Bytes → ParseState → Except Exn ParseState
  | 0, _, st => .ok st
  | _ + 1, [], st => .ok st
  | fuel + 1, c :: cs, st =>
      match splitByte tagAssignmentChar (c :: cs) with
      | none => do
          tryLogThrow settings "Missing tag assignment in remaining message"
          .ok st
      | some (tagText, rest) =>
          let tag := fastParseTag tagText
          if tag < 0 then do
            tryLogThrow settings "Tag not int"
            let st := { st with tag := tag, tagCount := st.tagCount + 1 }
            match splitByte internalSohChar rest with
            | none => .ok st
            | some (_, rest) => parseLoop settings dict size fuel rest st
          else do
            checkTagOrder settings st.tagCount tag
            let (next, st) ← parseValue settings dict size rest
              { st with tag := tag, tagCount := st.tagCount + 1 }
            match next with
            | none => .ok st
            | some rest => parseLoop settings dict size fuel rest st

/-! ## The strict checks -/

/-- `text.size() - bodyLengthStart - 7` in a `size_t`. -/
def expectedBodyLength (size : Nat) (bodyLengthStart : Int) : Nat :=
  (((size : Int) - bodyLengthStart - 7) % 18446744073709551616).toNat

/-- The declared body length, the checksum and its position. -/
def checkFrame (settings : SessionSettings) (text : Bytes) (st : ParseState) :
    Except Exn Unit := do
  let blStr ← st.msg.header.getField Field.bodyLength
  if fromCharsULong blStr ≠ some (expectedBodyLength text.length st.bodyLengthStart) then
    tryLogThrow settings "Invalid BodyLength"
  match st.msg.trailer.field? Field.checkSum with
  | none => tryLogThrow settings "Footer missing CheckSum"
  | some checksum => do
      if st.tag ≠ Field.checkSum then
        tryLogThrow settings "Message didn't end in checksum"
      if checksum ≠ formatChecksum (computeChecksum (text.take (text.length - 7))) then
        tryLogThrow settings "Invalid checksum"

/-- Read a message from its text. -/
def Dictionary.parse (dict : Dictionary) (settings : SessionSettings) (text : Bytes) :
    Except Exn Message := do
  let st ← parseLoop settings dict text.length text.length text
    { stack := [{ spec := some dict.headerSpec, group := ⟨.header, []⟩ }] }
  let st ← st.overwriteStack settings 0
  if st.msgState ≠ .trailer then
    tryLogThrow settings "Incomplete message"
  if !settings.relaxedParsing then
    checkFrame settings text st
  .ok { st.msg with trailer := st.msg.trailer.removeField Field.checkSum }

/-! ## An excerpt of the dictionary of the tests -/

/-- Specifications, fields and types of `test/FIXDictionary.xml`, as far as the
examples need them. -/
def testDictionary : Dictionary where
  headerSpec :=
    { fields := [(8, true), (9, true), (35, true), (49, true), (56, true), (34, true), (43, false),
        (52, true), (122, false)]
      groups := []
      ordered := true
      fieldOrder := [8, 9, 35, 49, 56, 34, 43, 52, 122] }
  trailerSpec :=
    { fields := [(93, false), (89, false), (10, true)], groups := [], ordered := false
      fieldOrder := [93, 89, 10] }
  bodySpecs :=
    [(MsgType.heartbeat, ⟨[(112, false)], [], false, [112]⟩),
      (MsgType.testRequest, ⟨[(112, true)], [], false, [112]⟩),
      (MsgType.resendRequest, ⟨[(7, true), (16, true)], [], false, [7, 16]⟩),
      (MsgType.reject, ⟨[(45, true), (373, false), (58, false)], [], false, [45, 373, 58]⟩),
      (MsgType.sequenceReset, ⟨[(123, false), (36, true)], [], false, [123, 36]⟩),
      (MsgType.logout, ⟨[(58, false)], [], false, [58]⟩),
      (MsgType.logon, ⟨[(98, true), (108, true), (95, false), (96, false), (141, false),
        (789, false), (464, false)], [], false, [98, 108, 95, 96, 141, 789, 464]⟩),
      (ascii "D", ⟨[(11, true), (1, false)],
        [(453, ⟨[(448, false), (447, false)],
            [(802, ⟨[(523, false), (803, false)], [], false, [523, 803]⟩)], false,
            [448, 447, 802]⟩),
          (78, ⟨[(79, false), (661, false)], [], false, [79, 661]⟩)],
        false, [11, 453, 1, 78]⟩)]
  fieldTypes :=
    [(9, .length), (34, .seqNum), (52, .utcTimestamp), (78, .numInGroup), (89, .data),
      (93, .length), (95, .length), (96, .data), (453, .numInGroup), (802, .numInGroup)]

/-- The wire text of fields, where `|` stands for the separator. -/
def wireOf (text : String) : Bytes :=
  (ascii text).map fun b => if b = externalSohChar then internalSohChar else b

example : (match testDictionary.parse {} (wireOf "8=FIX.4.4|9=11|35=0|112=7|10=217|") with
    | .ok msg => msg.body.field? Field.testReqID
    | .error _ => none) = some (ascii "7") := by decide

end OpenFix
