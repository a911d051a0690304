import OpenFix.Envelope
import OpenFix.Rounds

/-!
# Parsing what was serialized

A message that conforms to the dictionary comes back from `parse` as it went into
`toString`: every map says what it said, with groups of any number of instances nested in
each other, with DATA values of any bytes, and whatever the settings are.

The parser leaves the header at the first field that the header and its open groups
refuse, and the body at the first one that is then refused there.  What conforms is
therefore not a matter of each map alone: the last group of the header must not have the
first tag of the body.
-/

namespace OpenFix

open Loop

/-- The tag of the first field, or of the field behind the contents. -/
def Content.frontTag (behind : Int) : Content → Int
  | .nil => behind
  | .field tag _ _ => tag
  | .group tag _ _ _ => tag

namespace Message

/-- What a message says. -/
structure Contents where
  beginString : Option Bytes
  header : Content
  body : Content
  trailer : Content
deriving DecidableEq

def contents (msg : Message) : Contents where
  beginString := msg.header.field? Field.beginString
  header := msg.header.content
  body := msg.body.content
  trailer := msg.trailer.content

/-- The text of a message is what it says, with the separators, the length and the checksum. -/
theorem toString_congr {msg msg' : Message} (h : msg.contents = msg'.contents) (internal : Bool) :
    msg.toString internal = msg'.toString internal := by
  have hbegin : msg.beginTexts = msg'.beginTexts := by
    have hfield : msg.header.field? Field.beginString = msg'.header.field? Field.beginString :=
      congrArg Contents.beginString h
    rw [beginTexts, beginTexts, hfield]
  have hbody : msg.bodyTexts = msg'.bodyTexts := by
    have hheader := congrArg Contents.header h
    have hbody := congrArg Contents.body h
    have htrailer := congrArg Contents.trailer h
    dsimp only [contents] at hheader hbody htrailer
    rw [bodyTexts, bodyTexts, ← FieldMap.texts_content, ← FieldMap.texts_content,
      ← FieldMap.texts_content, hheader, hbody, htrailer, FieldMap.texts_content,
      FieldMap.texts_content, FieldMap.texts_content]
  rw [toString_eq_render, toString_eq_render, texts, texts, frameTexts, frameTexts, bodyLength,
    bodyLength, hbegin, hbody]

/-- A message that the parser files in its places, with the specification of its body.  The
dictionary has what it says, in the sections and groups where it says it.  Besides, the message is
laid out as the parser needs it: no group without instances, no group right behind another one in
a map, none nested deeper than the slots of the stack, and every section is left at a field that it
and its last groups do not have. -/
structure Filed (settings : SessionSettings) (dict : Dictionary) (bodySpec : GroupSpec)
    (msg : Message) : Prop where
  beginString : ∃ v, msg.header.field? Field.beginString = some v ∧
    dict.headerSpec.takes dict [] Field.beginString v = true
  bodyLength : dict.headerSpec.hasField Field.bodyLength = true
  bodyLengthType : dict.getFieldType Field.bodyLength ≠ .data
  msgType : ∃ t rest, msg.header.content = .field Field.msgType t rest ∧
    dict.getMessageSpecRaw t = some bodySpec
  msgTypeType : dict.getFieldType Field.msgType ≠ .data
  header : msg.header.content.conforms settings dict dict.headerSpec 0 [] none true = true
  headerTags : dict.headerSpec.complete settings
    (Field.beginString :: Field.bodyLength :: msg.header.content.tags) = true
  body : msg.body.content.conforms settings dict bodySpec 0 [] none true = true
  bodyTags : bodySpec.complete settings msg.body.content.tags = true
  trailer : msg.trailer.content.conforms settings dict dict.trailerSpec 0 [] none true = true
  trailerTags : dict.trailerSpec.complete settings
    (msg.trailer.content.tags ++ [Field.checkSum]) = true
  /-- The header and its last group do not have the tag behind the header. -/
  leavesHeader : refusedBy (msg.header.content.leftOpen dict.headerSpec [] ++ [dict.headerSpec])
    (msg.body.content.frontTag (msg.trailer.content.frontTag Field.checkSum)) = true
  /-- The body and its last group do not have the tag behind the body. -/
  leavesBody : refusedBy (msg.body.content.leftOpen bodySpec [] ++ [bodySpec])
    (msg.trailer.content.frontTag Field.checkSum) = true
  /-- The field behind the header is not read by a length that the header announces, and so on. -/
  endsHeader : dict.readAsData (msg.header.content.announces dict none)
    (msg.body.content.frontTag (msg.trailer.content.frontTag Field.checkSum)) = false
  endsBody : dict.readAsData (msg.body.content.announces dict none)
    (msg.trailer.content.frontTag Field.checkSum) = false
  endsTrailer : dict.readAsData (msg.trailer.content.announces dict none) Field.checkSum = false
  /-- The trailer starts with a plain field, unless the body leaves no group open. -/
  trailerFront : msg.trailer.content = .nil ∨ msg.trailer.content.firstTag?.isSome = true ∨
    msg.body.content.leftOpen bodySpec [] = []
  checkSum : dict.trailerSpec.hasField Field.checkSum = true
  checkSumType : dict.getFieldType Field.checkSum ≠ .length
  /-- The last group of the trailer does not have the checksum. -/
  leavesTrailer : refusedBy (msg.trailer.content.leftOpen dict.trailerSpec []) Field.checkSum = true
  /-- The length of the body is an int, and so is the place where the body starts. -/
  measured : msg.bodyLength < 2147483648
  starts : (msg.toString true).length < msg.bodyLength + 8 + 2147483648

/-- A message that the parser files as it is: its sections are in the order that they are left
in. -/
structure Conforms (settings : SessionSettings) (dict : Dictionary) (bodySpec : GroupSpec)
    (msg : Message) : Prop extends msg.Filed settings dict bodySpec where
  headerOrder : dict.headerSpec.keepsOrder settings
    (Field.beginString :: Field.bodyLength :: msg.header.content.tags) = true
  bodyOrder : bodySpec.keepsOrder settings msg.body.content.tags = true
  trailerOrder : dict.trailerSpec.keepsOrder settings
    (msg.trailer.content.tags ++ [Field.checkSum]) = true

end Message

/-- A field that the parser adds is there. -/
theorem FieldMap.Holds.field?_detectDup {m : FieldMap} {tags : List Int} {c : Content} {tag : Int}
    (h : m.Holds tags c) (htag : tag ∉ tags) (value : Bytes) :
    (m.setFieldViewOrDetectDup tag value).2.field? tag = some value := by
  have hnew := ParseState.detectDup_new (fun hmem => htag (h.seen tag hmem))
    (fun hmem => htag (h.keys ▸ hmem)) value
  have hnone : AssocList.find? tag m.fields = none := by
    rw [AssocList.find?_eq_none_iff, h.keys]
    exact htag
  rw [FieldMap.detectDup_eq hnew]
  refine FieldMap.field?_of_text ?_
  show AssocList.find? tag (m.fields ++ [(tag, .text value)]) = _
  rw [AssocList.find?_append, hnone, Option.none_or, AssocList.find?_cons_self]

namespace ParseState

variable {settings : SessionSettings} {dict : Dictionary} {size : Nat} {st : ParseState}
  {base : Message} {specs : List GroupSpec} {g : ParserGroupInfo} {spec : GroupSpec}
  {m : FieldMap} {tags : List Int} {c : Content} {announced : Option Nat} {own : Bool}
  {f : WireField}

/-! ## Between the sections -/

theorem dispatchStack_refused : ∀ {stack above : List ParserGroupInfo},
    (∀ e ∈ stack, ∃ spec, e.spec = some spec ∧ refusedBy [spec] f.tag = true) →
      dispatchStack settings dict f above stack st = .ok (none, st)
  | [], _, _ => rfl
  | e :: stack, above, h => by
      obtain ⟨spec, hspec, hrefused⟩ := h e (List.mem_cons_self ..)
      rw [dispatchStack, trySetField_refused hspec hrefused]
      exact dispatchStack_refused fun e he => h e (List.mem_cons_of_mem _ he)

/-- A field that the whole stack refuses. -/
theorem dispatchField_refused (hne : st.stack ≠ [])
    (h : ∀ e ∈ st.stack, ∃ spec, e.spec = some spec ∧ refusedBy [spec] f.tag = true) :
    dispatchField settings dict f st = dispatchBody settings dict f st := by
  obtain ⟨top, stack, hstack⟩ := List.exists_cons_of_ne_nil hne
  obtain ⟨spec, hspec, -⟩ := h top (by rw [hstack]; exact List.mem_cons_self ..)
  rw [dispatchField, hstack, List.head?_cons]
  dsimp only
  rw [hspec]
  dsimp only
  split
  · rfl
  · rw [← hstack, dispatchStack_refused h]
    rfl

theorem Inside.refused (h : Inside settings st base specs g [] spec m tags c announced own)
    (hrefused : refusedBy (specs ++ [spec]) f.tag = true) :
    ∀ e ∈ st.stack, ∃ spec, e.spec = some spec ∧ refusedBy [spec] f.tag = true := by
  obtain ⟨opened, raw, hst⟩ := h.standing
  intro e he
  rw [hst.stack] at he
  rcases List.mem_append.mp he with he | he
  · obtain ⟨spec', hmem, hspec, -⟩ := hst.spine.exists_spec e he
    exact ⟨spec', hspec, refusedBy_of_mem hrefused (List.mem_append_left _ hmem)⟩
  · rw [List.mem_singleton.mp he]
    exact ⟨spec, h.spec_eq,
      refusedBy_of_mem hrefused (List.mem_append_right _ (List.mem_singleton_self _))⟩

theorem Inside.stack_ne_nil (h : Inside settings st base specs g [] spec m tags c announced own) :
    st.stack ≠ [] := by
  obtain ⟨opened, raw, hst⟩ := h.standing
  rw [hst.stack]
  simp

/-- All entries are finished. -/
theorem Inside.overwriteStack_zero (h : Inside settings st base specs g [] spec m tags c announced own)
    (hzero : g.groupTag = 0) (hcomplete : spec.complete settings tags = true) :
    overwriteStack settings 0 st =
      .ok { st with msg := base.put g.group (finishMap settings (some spec) m), stack := [] } := by
  obtain ⟨opened, raw, hst⟩ := h.standing
  have hcount : (decide (g.groupTag > 0) && decide (g.groupCount < g.groupMaxCount)) = false := by
    rw [hzero, decide_eq_false (Int.lt_irrefl 0), Bool.false_and]
  rw [overwriteStack, hst.stack, hst.spine.popStack_eq hst.valid hst.msg (Nat.zero_le _), popStack,
    if_pos (Nat.succ_pos _), hcount, h.spec_eq,
    validateGroup_ok rfl hst.valid fun hvalidate =>
      FieldMap.has_of_complete h.holds hcomplete hvalidate]
  rfl

/-- What `dispatchBody` does with a field when it has left the header. -/
def offerBody (settings : SessionSettings) (dict : Dictionary) (f : WireField) (spec : GroupSpec)
    (st : ParseState) : Except Exn ParseState := do
  let r ← st.trySetField settings dict (bodyInfo (some spec)) 0 none f
  match r.idx with
  | some _ => .ok { r.st with stack := r.pushed ++ [r.group] }
  | none => dispatchTrailer settings dict f r.st

/-- A stack that holds the entry of the body alone does the same. -/
theorem dispatchField_bodyInfo (hstack : st.stack = [bodyInfo (some spec)])
    (hstate : st.msgState = .body) :
    dispatchField settings dict f st = offerBody settings dict f spec st := by
  have hbody : dispatchBody settings dict f st = dispatchTrailer settings dict f st := by
    rw [dispatchBody, if_neg (by rw [hstate]; decide)]
  rw [dispatchField, offerBody, hstack, List.head?_cons]
  dsimp only [bodyInfo]
  split
  next hempty =>
    rw [GroupSpec.empty, Bool.and_eq_true, List.isEmpty_iff, List.isEmpty_iff] at hempty
    have hrefused : refusedBy [spec] f.tag = true := by
      rw [refusedBy, List.all_cons, List.all_nil, GroupSpec.hasField, GroupSpec.findGroup,
        hempty.1, hempty.2]
      rfl
    rw [trySetField_refused rfl hrefused, hbody]
    rfl
  next =>
    rw [dispatchStack]
    cases htry : st.trySetField settings dict (bodyInfo (some spec)) 0 none f with
    | error e =>
        dsimp only [bodyInfo] at htry
        rw [List.length_nil, List.head?_nil, htry]
        rfl
    | ok r =>
        dsimp only [bodyInfo] at htry
        have hoffer := (yields_trySetField st _ 0 none f).of_ok htry
        rw [List.length_nil, List.head?_nil, htry]
        cases hoffer with
        | refused _ _ => exact hbody
        | added _ _ _ =>
            show popStack settings 1 [_] _ = _
            rw [popStack, List.length_nil, if_neg (Nat.lt_irrefl 1)]
            rfl
        | opened _ _ _ _ _ =>
            show popStack settings 2 [_, _] _ = _
            rw [popStack, List.length_singleton, if_neg (Nat.lt_irrefl 2)]
            rfl
        | next _ hparent _ _ _ => cases hparent

theorem Inside.started (h : Inside settings st base specs g [] spec m tags c announced own)
    (tag : Int) : Inside settings (st.started tag) base specs g [] spec m tags c none false := by
  obtain ⟨opened, raw, hst⟩ := h.standing
  exact ⟨⟨opened, raw, hst.stack, hst.msg, hst.valid, hst.spine⟩, h.spec_eq,
    Nat.le_succ_of_le h.counted, rfl, (fun hown => by cases hown), h.holds⟩

theorem field?_finishMap (settings : SessionSettings) (spec : Option GroupSpec) (m : FieldMap)
    (tag : Int) : (finishMap settings spec m).field? tag = m.field? tag := by
  have howned : (finishMap settings spec m).owned = m.owned := by
    rw [finishMap]
    split
    · rfl
    · rfl
  have hread : (finishMap settings spec m).read tag = m.read tag :=
    funext fun v => FieldMap.read_congr (by rw [howned]) v
  rw [FieldMap.field?, FieldMap.field?, FieldMap.find?_finishMap, hread]

/-- A field that the header refuses is the first one of what is behind it. -/
theorem Inside.enterBody {t : Bytes}
    (h : Inside settings st base specs (headerInfo dict) [] dict.headerSpec m tags c announced own)
    (hstate : st.msgState = .header) (hcomplete : dict.headerSpec.complete settings tags = true)
    (hmsgType : m.field? Field.msgType = some t) (hbody : dict.getMessageSpecRaw t = some spec)
    (hrefused : refusedBy (specs ++ [dict.headerSpec]) f.tag = true) :
    dispatchField settings dict f st = dispatchField settings dict f { st with
      msg := base.put ⟨.header, []⟩ (finishMap settings (some dict.headerSpec) m)
      msgState := .body
      stack := [bodyInfo (some spec)] } := by
  have hspec : ({ st with
      msg := base.put (headerInfo dict).group (finishMap settings (some dict.headerSpec) m)
      stack := [] } : ParseState).bodySpecOf settings dict = .ok (some spec) := by
    have hget : (base.put ⟨.header, []⟩
        (finishMap settings (some dict.headerSpec) m)).header.getField Field.msgType = .ok t :=
      FieldMap.getField_eq.mpr ((field?_finishMap _ _ m _).trans hmsgType)
    rw [bodySpecOf, headerInfo, hget, ← hbody]
  rw [dispatchField_refused h.stack_ne_nil (h.refused hrefused), dispatchBody, if_pos hstate,
    h.overwriteStack_zero rfl hcomplete, dispatchField_bodyInfo rfl rfl]
  show (bodySpecOf settings dict _ >>= _) = _
  rw [hspec]
  rfl

theorem dispatchTrailer_ok {r : Tried} {idx : Nat} {bottom : ParserGroupInfo} {st' : ParseState}
    (hstate : st.msgState = .body)
    (htry : st.trySetField settings dict (trailerInfo dict) 0 none f = .ok r)
    (hidx : r.idx = some idx) (hbottom : r.st.stack.getLast? = some bottom)
    (hvalidate : r.st.validateGroup settings bottom.group bottom.spec = .ok st') :
    dispatchTrailer settings dict f st = overwriteStack settings (idx + 1) { st' with
      msgState := .trailer
      stack := r.pushed ++ replaceBottom r.st.stack r.group } := by
  rw [dispatchTrailer, if_pos hstate, htry]
  simp only [bind, Except.bind, hidx, hbottom, hvalidate]

theorem stack_noteBodyLength (st : ParseState) (f : WireField) :
    (st.noteBodyLength f).stack = st.stack := by
  rw [noteBodyLength]
  split
  · rfl
  · rfl

/-- A field that the body refuses is the first one of the trailer. -/
theorem Inside.enterTrailer
    (h : Inside settings st base specs (bodyInfo (some spec)) [] spec m tags c announced own)
    (hstate : st.msgState = .body) (hcomplete : spec.complete settings tags = true)
    (hrefused : refusedBy (specs ++ [spec]) f.tag = true)
    (htakes : dict.trailerSpec.takes dict [] f.tag f.val = true) (hnew : base.trailer = .new) :
    dispatchField settings dict f st = dispatchField settings dict f { st with
      msg := base.put ⟨.body, []⟩ (finishMap settings (some spec) m)
      msgState := .trailer
      stack := [trailerInfo dict] } := by
  obtain ⟨opened, raw, hst⟩ := h.standing
  have hput : ∀ m : FieldMap, base.put ⟨.body, []⟩ m =
      (base.put ⟨.body, []⟩ m).put ⟨.trailer, []⟩ .new := by
    intro m
    show ({ base with body := m } : Message) = { base with body := m, trailer := .new }
    rw [← hnew]
  have hright : Standing settings { st with
      msg := base.put ⟨.body, []⟩ (finishMap settings (some spec) m)
      msgState := .trailer
      stack := [trailerInfo dict] } (base.put ⟨.body, []⟩ (finishMap settings (some spec) m))
      [] [] (trailerInfo dict) [] .new .new := ⟨rfl, hput _, Message.valid_section _, .nil⟩
  rw [hright.field rfl htakes (by simp [FieldMap.new]) (by simp [FieldMap.new, AssocList.keys])]
  rw [GroupSpec.takes, Bool.and_eq_true, Bool.and_eq_true, Bool.and_eq_true] at htakes
  obtain ⟨⟨⟨hfield, -⟩, -⟩, hlength⟩ := htakes
  have hmsg : st.msg = (base.put ⟨.body, []⟩ raw).put ⟨.trailer, []⟩ .new :=
    hst.msg.trans (hput raw)
  have hdup : (FieldMap.new.setFieldViewOrDetectDup f.tag f.val).1 = false :=
    detectDup_new (by simp [FieldMap.new]) (by simp [FieldMap.new, AssocList.keys]) f.val
  have htry := @trySetField_field settings dict st _ (trailerInfo dict) _ f dict.trailerSpec hmsg
    (Message.valid_section _) rfl hfield hlength hdup 0 none
  generalize htrailer : (FieldMap.new.setFieldViewOrDetectDup f.tag f.val).2 = trailer at htry
  have hstack : (st.noteBodyLength f).stack = opened ++ [bodyInfo (some spec)] :=
    (stack_noteBodyLength st f).trans hst.stack
  have hlast : (st.noteBodyLength f).stack.getLast? = some (bodyInfo (some spec)) := by
    rw [hstack, List.getLast?_append]
    rfl
  have hbase : (base.put ⟨.body, []⟩ raw).put ⟨.trailer, []⟩ trailer =
      ({ base with trailer := trailer } : Message).put ⟨.body, []⟩ raw := rfl
  have hvalid : ({ base with trailer := trailer } : Message).Valid ⟨.body, []⟩ :=
    Message.valid_section _
  have hrequired : settings.validateRequiredFields = true → ∀ field ∈ spec.fields,
      field.2 = true → raw.has field.1 = true := by
    intro hvalidate field hfield hreq
    rw [has_congr hst.spine.agree.1]
    exact FieldMap.has_of_complete h.holds hcomplete hvalidate field hfield hreq
  have hspine := hst.spine.acts (FieldMap.actsOnFields_finishMap settings (some spec))
  rw [dispatchField_refused h.stack_ne_nil (h.refused hrefused), dispatchBody,
    if_neg (by rw [hstate]; decide),
    dispatchTrailer_ok hstate htry rfl hlast (validateGroup_ok hbase hvalid hrequired)]
  show overwriteStack settings 1 _ = _
  rw [overwriteStack]
  dsimp only
  rw [hstack, replaceBottom, List.dropLast_concat, List.nil_append,
    hspine.popStack_eq hvalid rfl (Nat.le_refl 1), popStack, List.length_nil,
    if_neg (Nat.lt_irrefl 1), noteBodyLength, noteBodyLength]
  split
  · rfl
  · rfl

/-- A count that the body refuses is the first field of the trailer, when the body has left no
group open. -/
theorem Inside.enterTrailer_group {groupSpec : GroupSpec}
    (h : Inside settings st base [] (bodyInfo (some spec)) [] spec m tags c announced own)
    (hstate : st.msgState = .body) (hcomplete : spec.complete settings tags = true)
    (hrefused : refusedBy [spec] f.tag = true) (hfield : dict.trailerSpec.hasField f.tag = false)
    (hgroup : dict.trailerSpec.findGroup f.tag = some groupSpec)
    (htype : dict.getFieldType f.tag ≠ .length) (htag : f.tag ≠ Field.bodyLength)
    (hcount : 0 ≤ fastParseTag f.val) (hnew : base.trailer = .new) :
    dispatchField settings dict f st = dispatchField settings dict f { st with
      msg := base.put ⟨.body, []⟩ (finishMap settings (some spec) m)
      msgState := .trailer
      stack := [trailerInfo dict] } := by
  obtain ⟨opened, raw, hst⟩ := h.standing
  obtain ⟨rfl, rfl⟩ := hst.spine.of_nil
  have hput : ∀ m : FieldMap, base.put ⟨.body, []⟩ m =
      (base.put ⟨.body, []⟩ m).put ⟨.trailer, []⟩ .new := by
    intro m
    show ({ base with body := m } : Message) = { base with body := m, trailer := .new }
    rw [← hnew]
  have hright : Standing settings { st with
      msg := base.put ⟨.body, []⟩ (finishMap settings (some spec) raw)
      msgState := .trailer
      stack := [trailerInfo dict] } (base.put ⟨.body, []⟩ (finishMap settings (some spec) raw))
      [] [] (trailerInfo dict) [] .new .new := ⟨rfl, hput _, Message.valid_section _, .nil⟩
  rw [hright.openGroup rfl hfield hgroup (by simp [FieldMap.new, AssocList.keys])
    (by simp [FieldMap.new, AssocList.keys]) htype htag hcount (by decide)]
  have hmsg : st.msg = (base.put ⟨.body, []⟩ raw).put ⟨.trailer, []⟩ .new :=
    hst.msg.trans (hput raw)
  have hroom : st.stack.length < groupStackSlots := by
    rw [hst.stack]
    exact (by decide : 1 < groupStackSlots)
  have htry := @trySetField_group settings dict st _ (trailerInfo dict) _ f dict.trailerSpec
    groupSpec hmsg (Message.valid_section _) rfl hfield hgroup
    (by simp [FieldMap.new, AssocList.keys]) (by simp [FieldMap.new, AssocList.keys]) htype htag
    hcount hroom 0 none
  generalize htrailer :
    (FieldMap.new.withField f.tag f.val).withInstances f.tag [FieldMap.new] = trailer at htry
  have hlast : st.stack.getLast? = some (bodyInfo (some spec)) := by
    rw [hst.stack]
    rfl
  have hbase : (base.put ⟨.body, []⟩ raw).put ⟨.trailer, []⟩ trailer =
      ({ base with trailer := trailer } : Message).put ⟨.body, []⟩ raw := rfl
  rw [dispatchField_refused h.stack_ne_nil (h.refused hrefused), dispatchBody,
    if_neg (by rw [hstate]; decide), dispatchTrailer_ok hstate htry rfl hlast
      (validateGroup_ok hbase (Message.valid_section _) fun hvalidate =>
        FieldMap.has_of_complete h.holds hcomplete hvalidate)]
  show overwriteStack settings 2 _ = _
  rw [overwriteStack]
  dsimp only
  rw [hst.stack]
  show popStack settings 2 [_, _] _ = _
  rw [popStack, List.length_singleton, if_neg (Nat.lt_irrefl 2)]
  rfl

/-! ## The first fields -/

/-- The fields that a message starts with. -/
structure Opening (settings : SessionSettings) (dict : Dictionary) (v n t : Bytes) : Prop where
  beginString : dict.headerSpec.takes dict [] Field.beginString v = true
  bodyLength : dict.headerSpec.takes dict [] Field.bodyLength n = true
  bodyLengthType : dict.getFieldType Field.bodyLength ≠ .data
  msgType : dict.headerSpec.takes dict [] Field.msgType t = true
  msgTypeType : dict.getFieldType Field.msgType ≠ .data

/-- The header of a message behind its first fields. -/
def openedHeader (v n t : Bytes) : FieldMap :=
  (((FieldMap.new.setFieldViewOrDetectDup Field.beginString v).2.setFieldViewOrDetectDup
    Field.bodyLength n).2.setFieldViewOrDetectDup Field.msgType t).2

variable (size) in
/-- The parser reads the first fields of a text. -/
theorem Opening.reads {v n t : Bytes} (h : Opening settings dict v n t) (rest : Bytes) :
    ∃ st, Reaches (parseRound settings dict size)
        (fieldText Field.beginString v ++ internalSohChar ::
          (fieldText Field.bodyLength n ++ internalSohChar ::
            (fieldText Field.msgType t ++ internalSohChar :: rest)), .init dict) (rest, st) ∧
      Inside settings st .new [] (headerInfo dict) [] dict.headerSpec (openedHeader v n t)
        [Field.beginString, Field.bodyLength, Field.msgType] (.field Field.msgType t .nil)
        (dict.lengthOf Field.msgType t) true ∧
      st.msgState = .header ∧
      st.bodyLengthStart = i32 (size -
        ((fieldText Field.msgType t ++ internalSohChar :: rest).length + 1) : Nat) + 1 := by
  have hinit : Standing settings (.init dict) .new [] [] (headerInfo dict) [] .new .new :=
    ⟨rfl, rfl, Message.valid_section _, .nil⟩
  obtain ⟨st₁, hround₁, hst₁, heq₁⟩ := hinit.reads size _ rfl FieldMap.holds_new (by simp) (by
      decide) rfl
    rfl h.beginString
  rw [noteBodyLength_of_ne (show Field.beginString ≠ Field.bodyLength by decide)] at heq₁
  have hholds₁ := @FieldMap.Holds.detectDup .new [] .nil Field.beginString v
      FieldMap.holds_new (by simp)
  have hcount₁ : st₁.tagCount = 1 := by rw [heq₁]; rfl
  obtain ⟨st₂, hround₂, hst₂, heq₂⟩ := hst₁.reads size _ rfl hholds₁ (by decide) (by decide)
    (by rw [hcount₁]; rfl) (readAsData_of_ne h.bodyLengthType) h.bodyLength
  have hholds₂ := @FieldMap.Holds.detectDup _ _ _ Field.bodyLength n hholds₁ (by decide)
  have hcount₂ : st₂.tagCount = 2 := by
    rw [heq₂, noteBodyLength, if_pos rfl]
    exact congrArg (· + 1) hcount₁
  obtain ⟨st₃, hround₃, hst₃, heq₃⟩ := hst₂.reads size _ rfl hholds₂ (by decide) (by decide)
    (by rw [hcount₂]; rfl) (readAsData_of_ne h.msgTypeType) h.msgType
  rw [noteBodyLength_of_ne (show Field.msgType ≠ Field.bodyLength by decide)] at heq₃
  have hholds₃ := @FieldMap.Holds.detectDup _ _ _ Field.msgType t hholds₂ (by decide)
  refine ⟨st₃, .tail (.tail (.tail .refl hround₁) hround₂) hround₃,
    ⟨⟨[], _, hst₃⟩, rfl, ?_, by rw [heq₃], fun _ _ => ⟨rfl, fun hnil => by cases hnil⟩, hholds₃⟩,
    ?_, ?_⟩
  · rw [heq₃]
    exact Nat.succ_le_succ (Nat.le_of_eq hcount₂.symm)
  · rw [heq₃, heq₂, heq₁]
    rfl
  · rw [heq₃, heq₂]
    rfl

/-! ## The sections one after the other -/

/-- The text starts with the field, whose value ends at the separator. -/
inductive StartsWith (tag : Int) (value : Bytes) : Bytes → Prop where
  | intro (rest : Bytes) (hlow : 0 ≤ tag) (hhigh : tag < 2147483648)
      (hclean : internalSohChar ∉ value) :
      StartsWith tag value (fieldText tag value ++ internalSohChar :: rest)

variable {tag : Int} {value text : Bytes} {st' : ParseState}

theorem StartsWith.ne_nil (h : StartsWith tag value text) : text ≠ [] := by
  cases h with
  | intro rest _ _ _ => simp

/-- Two states that do the same with the field at the front of the text. -/
theorem StartsWith.parseRound_eq (h : StartsWith tag value text) (hcount : 3 ≤ st.tagCount)
    (hcount' : 3 ≤ st'.tagCount) (hdata : dict.readAsData st.dataLength tag = false)
    (hdata' : dict.readAsData st'.dataLength tag = false) (heq : ∀ stop,
      dispatchField settings dict ⟨tag, value, stop⟩ (st.started tag) =
        dispatchField settings dict ⟨tag, value, stop⟩ (st'.started tag)) :
    parseRound settings dict size (text, st) = parseRound settings dict size (text, st') := by
  cases h with
  | intro rest hlow hhigh hclean =>
      rw [parseRound_map hlow hhigh (checkTagOrder_of_le hcount tag) hdata hclean,
        parseRound_map hlow hhigh (checkTagOrder_of_le hcount' tag) hdata' hclean, heq]

/-- The text of contents starts with their first field. -/
theorem StartsWith.content {depth : Nat} {opened : List GroupSpec} {c : Content}
    (h : StartsWith tag value text)
    (hc : c.conforms settings dict spec depth opened none own = true) :
    ∃ value', StartsWith (c.frontTag tag) value' (render internalSohChar c.texts ++ text) := by
  cases c with
  | nil => exact ⟨value, h⟩
  | field tag' value' rest =>
      obtain ⟨hplain, ⟨hdata, -⟩ | ⟨-, htakes, -⟩⟩ := Content.conforms_field hc
      · cases hdata
      · obtain ⟨⟨hlow, hhigh⟩, -⟩ := isPlainTag_iff.mp hplain
        rw [GroupSpec.takes, Bool.and_eq_true, Bool.and_eq_true, decide_eq_true_eq] at htakes
        rw [Content.texts, render_field]
        exact ⟨value', .intro _ hlow hhigh htakes.1.2⟩
  | group tag' count instances rest =>
      obtain ⟨-, groupSpec, first, hopens⟩ := Content.conforms_group hc
      obtain ⟨⟨hlow, hhigh⟩, -⟩ := isPlainTag_iff.mp hopens.plain
      rw [Content.texts, render_field]
      exact ⟨count, .intro _ hlow hhigh hopens.clean⟩

/-- The first field of the trailer, which may be the checksum. -/
theorem Inside.entersTrailer {checkSum : Bytes} {c' : Content}
    (h : Inside settings st base specs (bodyInfo (some spec)) [] spec m tags c announced own)
    (hstate : st.msgState = .body) (hcomplete : spec.complete settings tags = true)
    (hc : c'.conforms settings dict dict.trailerSpec 0 [] none true = true)
    (hrefused : refusedBy (specs ++ [spec]) (c'.frontTag Field.checkSum) = true)
    (hfront : c' = .nil ∨ c'.firstTag?.isSome = true ∨ specs = [])
    (hchecksum : dict.trailerSpec.takes dict [] Field.checkSum checkSum = true)
    (hstarts : StartsWith Field.checkSum checkSum text) (hnew : base.trailer = .new) :
    ∃ value, StartsWith (c'.frontTag Field.checkSum) value
        (render internalSohChar c'.texts ++ text) ∧
      ∀ stop, dispatchField settings dict ⟨c'.frontTag Field.checkSum, value, stop⟩
          (st.started (c'.frontTag Field.checkSum)) =
        dispatchField settings dict ⟨c'.frontTag Field.checkSum, value, stop⟩
          { st.started (c'.frontTag Field.checkSum) with
            msg := base.put ⟨.body, []⟩ (finishMap settings (some spec) m)
            msgState := .trailer
            stack := [trailerInfo dict] } := by
  cases c' with
  | nil => exact ⟨checkSum, hstarts, fun stop =>
      (h.started _).enterTrailer hstate hcomplete hrefused hchecksum hnew⟩
  | field tag' value' rest =>
      obtain ⟨hplain, ⟨hdata, -⟩ | ⟨-, htakes, -⟩⟩ := Content.conforms_field hc
      · cases hdata
      obtain ⟨⟨hlow, hhigh⟩, -⟩ := isPlainTag_iff.mp hplain
      have hclean := htakes
      rw [GroupSpec.takes, Bool.and_eq_true, Bool.and_eq_true, decide_eq_true_eq] at hclean
      rw [Content.texts, render_field]
      exact ⟨value', .intro _ hlow hhigh hclean.1.2, fun stop =>
        (h.started _).enterTrailer hstate hcomplete hrefused htakes hnew⟩
  | group tag' count instances rest =>
      obtain rfl : specs = [] := by
        rcases hfront with hnil | hsome | hnone
        · cases hnil
        · cases hsome
        · exact hnone
      obtain ⟨-, groupSpec, first, hopens⟩ := Content.conforms_group hc
      obtain ⟨⟨hlow, hhigh⟩, hignored⟩ := isPlainTag_iff.mp hopens.plain
      have hcount : 0 ≤ fastParseTag count := by
        rw [hopens.length]
        exact Int.natCast_nonneg _
      rw [Content.texts, render_field]
      exact ⟨count, .intro _ hlow hhigh hopens.clean, fun stop =>
        (h.started _).enterTrailer_group hstate hcomplete hrefused hopens.field hopens.group
          hopens.length_ne (ne_bodyLength hignored) hcount hnew⟩

/-- The parser is at an empty map, which is at the bottom of the stack. -/
theorem Inside.enter (hstack : st.stack = [g]) (hmsg : st.msg = base)
    (hnew : base.put g.group .new = base) (hvalid : base.Valid g.group) (hspec : g.spec = some spec)
    (hcount : 3 ≤ st.tagCount) (hnone : st.dataLength = none) :
    Inside settings st base [] g [] spec .new [] .nil none true :=
  ⟨⟨[], .new, hstack, hmsg.trans hnew.symm, hvalid, .nil⟩, hspec, hcount, hnone,
    (fun _ h => by cases h), FieldMap.holds_new⟩

end ParseState

namespace Message.Filed

variable {settings : SessionSettings} {dict : Dictionary} {bodySpec : GroupSpec} {msg : Message}

open ParseState

variable (size : Nat)

/-- The parser reads the header. -/
theorem reads_header (h : msg.Filed settings dict bodySpec) {v n : Bytes}
    (hv : msg.header.field? Field.beginString = some v)
    (hn : dict.headerSpec.takes dict [] Field.bodyLength n = true) (text : Bytes) :
    ∃ st m, Reaches (parseRound settings dict size)
        (fieldText Field.beginString v ++ internalSohChar ::
          (fieldText Field.bodyLength n ++ internalSohChar ::
            (render internalSohChar msg.header.content.texts ++ text)), .init dict) (text, st) ∧
      ParseState.Inside settings st .new (msg.header.content.leftOpen dict.headerSpec [])
        (headerInfo dict) [] dict.headerSpec m
        (Field.beginString :: Field.bodyLength :: msg.header.content.tags)
        msg.header.content (msg.header.content.announces dict none) false ∧
      st.msgState = .header ∧ st.bodyLengthStart = i32 (size -
        ((render internalSohChar msg.header.content.texts ++ text).length + 1) : Nat) + 1 ∧
      m.field? Field.beginString = some v ∧ m.field? Field.bodyLength = some n ∧
      ∃ t, m.field? Field.msgType = some t ∧ dict.getMessageSpecRaw t = some bodySpec := by
  obtain ⟨v', hv', hbegin⟩ := h.beginString
  cases hv.symm.trans hv'
  obtain ⟨t, rest, hcontent, hspec⟩ := h.msgType
  have hheader := h.header
  have htags := nodup_of_complete h.headerTags
  rw [hcontent] at hheader htags ⊢
  obtain ⟨-, ⟨hdata, -⟩ | ⟨-, htakes, hrest⟩⟩ := Content.conforms_field hheader
  · cases hdata
  have hopening : Opening settings dict v n t :=
    ⟨hbegin, hn, h.bodyLengthType, htakes, h.msgTypeType⟩
  obtain ⟨st₀, hreaches, hinside, hstate, hstart⟩ :=
    hopening.reads size (render internalSohChar rest.texts ++ text)
  obtain ⟨st, m, hread, hkept, hinside'⟩ := run_content size rest hinside htags hrest text
  have hannounces : (Content.field Field.msgType t rest).announces dict none =
      rest.announces dict (dict.lengthOf Field.msgType t) := by
    rw [Content.announces]
    rfl
  have htext : render internalSohChar (Content.field Field.msgType t rest).texts ++ text =
      fieldText Field.msgType t ++ internalSohChar ::
        (render internalSohChar rest.texts ++ text) := by
    rw [Content.texts, render_field]
  have hfield : ∀ tag ∈ AssocList.keys (openedHeader v n t).fields,
      m.field? tag = (openedHeader v n t).field? tag := hkept
  rw [htext, hannounces]
  refine ⟨st, m, hreaches.trans hread.reaches, hinside', hread.msgState.trans hstate,
    hread.bodyLengthStart.trans hstart, ?_, ?_, t, ?_, hspec⟩
  · exact hfield Field.beginString (by rw [hinside.holds.keys]; decide)
  · exact hfield Field.bodyLength (by rw [hinside.holds.keys]; decide)
  · exact hfield Field.msgType (by rw [hinside.holds.keys]; decide)

/-- The parser reads the body, and comes to the end of the text when it does so from there. -/
theorem reads_body (h : msg.Filed settings dict bodySpec) {st : ParseState} {m : FieldMap}
    (hinside : ParseState.Inside settings st .new (msg.header.content.leftOpen dict.headerSpec [])
      (headerInfo dict) [] dict.headerSpec m
      (Field.beginString :: Field.bodyLength :: msg.header.content.tags) msg.header.content
      (msg.header.content.announces dict none) false) (hstate : st.msgState = .header)
    {t : Bytes} (ht : m.field? Field.msgType = some t)
    (hspec : dict.getMessageSpecRaw t = some bodySpec) {value text : Bytes}
    (hstarts : ParseState.StartsWith (msg.trailer.content.frontTag Field.checkSum) value text) :
    ∃ st' m', (∀ last : ParseState, Reaches (parseRound settings dict size) (text, st') ([], last) →
        Reaches (parseRound settings dict size)
          (render internalSohChar msg.body.content.texts ++ text, st) ([], last)) ∧
      ParseState.Inside settings st'
        (Message.new.put ⟨.header, []⟩ (finishMap settings (some dict.headerSpec) m))
        (msg.body.content.leftOpen bodySpec []) (bodyInfo (some bodySpec)) [] bodySpec m'
        msg.body.content.tags msg.body.content (msg.body.content.announces dict none) false ∧
      st'.msgState = .body ∧ st'.bodyLengthStart = st.bodyLengthStart := by
  generalize hbase :
    Message.new.put ⟨.header, []⟩ (finishMap settings (some dict.headerSpec) m) = base
  have hnew : base.put ⟨.body, []⟩ .new = base := by
    rw [← hbase]
    rfl
  have hbody : ParseState.Inside settings { st with
      msg := base
      msgState := .body
      stack := [bodyInfo (some bodySpec)]
      dataLength := none } base [] (bodyInfo (some bodySpec)) [] bodySpec .new [] .nil none true :=
    .enter rfl rfl hnew (Message.valid_section _) rfl hinside.counted rfl
  obtain ⟨value', hfront⟩ := hstarts.content h.body
  obtain ⟨st', m', hread, -, hinside'⟩ := run_content size msg.body.content hbody
    (nodup_of_complete h.bodyTags) h.body text
  refine ⟨st', m', fun last hlast => ?_, hinside', hread.msgState, hread.bodyLengthStart⟩
  refine Reaches.of_round_eq ?_ (hread.reaches.trans hlast) fun heq => ?_
  · refine hfront.parseRound_eq hinside.counted hbody.counted
      (hinside.announces.symm ▸ h.endsHeader) rfl fun stop => ?_
    have henter := (hinside.started (msg.body.content.frontTag
      (msg.trailer.content.frontTag Field.checkSum))).enterBody
        (f := ⟨_, value', stop⟩) hstate h.headerTags ht hspec h.leavesHeader
    rw [hbase] at henter
    exact henter
  · exact hfront.ne_nil (congrArg Prod.fst heq).symm

theorem takes_checkSum (h : msg.Filed settings dict bodySpec) {specs : List GroupSpec}
    (hrefused : refusedBy specs Field.checkSum = true) (c : UInt8) :
    dict.trailerSpec.takes dict specs Field.checkSum (formatChecksum c) = true := by
  have hclean : internalSohChar ∉ formatChecksum c := fun hmem => (formatChecksum_clean hmem).1 rfl
  rw [GroupSpec.takes, h.checkSum, hrefused, decide_eq_true hclean, Dictionary.hasLength,
    decide_eq_true h.checkSumType]
  rfl

/-- The parser reads the trailer and the checksum. -/
theorem reads_trailer (h : msg.Filed settings dict bodySpec) {st : ParseState} {base : Message}
    {m : FieldMap}
    (hinside : ParseState.Inside settings st base (msg.body.content.leftOpen bodySpec [])
      (bodyInfo (some bodySpec)) [] bodySpec m msg.body.content.tags msg.body.content
      (msg.body.content.announces dict none) false)
    (hstate : st.msgState = .body) (hnew : base.trailer = .new) (c : UInt8) :
    ∃ st' m', Reaches (parseRound settings dict size)
        (render internalSohChar msg.trailer.content.texts ++
          (fieldText Field.checkSum (formatChecksum c) ++ [internalSohChar]), st) ([], st') ∧
      ParseState.Inside settings st'
        (base.put ⟨.body, []⟩ (finishMap settings (some bodySpec) m)) []
        (trailerInfo dict) [] dict.trailerSpec m' (msg.trailer.content.tags ++ [Field.checkSum])
        msg.trailer.content none false ∧
      st'.msgState = .trailer ∧ st'.tag = Field.checkSum ∧
      st'.bodyLengthStart = st.bodyLengthStart ∧
      m'.field? Field.checkSum = some (formatChecksum c) := by
  have hclean : internalSohChar ∉ formatChecksum c := fun hmem => (formatChecksum_clean hmem).1 rfl
  have hstarts : ParseState.StartsWith Field.checkSum (formatChecksum c)
      (fieldText Field.checkSum (formatChecksum c) ++ [internalSohChar]) :=
    .intro [] (by decide) (by decide) hclean
  obtain ⟨value', hfront, henter⟩ := hinside.entersTrailer hstate h.bodyTags h.trailer h.leavesBody
    h.trailerFront (h.takes_checkSum rfl c) hstarts hnew
  generalize hbase : base.put ⟨.body, []⟩ (finishMap settings (some bodySpec) m) = base' at henter ⊢
  have hnew' : base'.put ⟨.trailer, []⟩ .new = base' := by
    rw [← hbase, ← hnew]
    rfl
  have htrailer : ParseState.Inside settings { st with
      msg := base'
      msgState := .trailer
      stack := [trailerInfo dict]
      dataLength := none } base' [] (trailerInfo dict) [] dict.trailerSpec .new [] .nil none true :=
    .enter rfl rfl hnew' (Message.valid_section _) rfl hinside.counted rfl
  have hnodup := nodup_of_complete h.trailerTags
  obtain ⟨hnodup', -, hlast⟩ := List.nodup_append.mp hnodup
  obtain ⟨st₁, m₁, hread, -, hinside₁⟩ := run_content size msg.trailer.content htrailer
    hnodup' h.trailer (fieldText Field.checkSum (formatChecksum c) ++ [internalSohChar])
  have hnotin : Field.checkSum ∉ msg.trailer.content.tags := fun hmem =>
    hlast _ hmem _ (List.mem_singleton_self _) rfl
  obtain ⟨opened, raw, hst₁⟩ := hinside₁.standing
  obtain ⟨st', hround, hst', heq⟩ := hst₁.reads size [] hinside₁.spec_eq
    hinside₁.holds hnotin (by decide) (checkTagOrder_of_le hinside₁.counted _)
    (hinside₁.announces.symm ▸ h.endsTrailer) (h.takes_checkSum h.leavesTrailer c)
  rw [noteBodyLength_of_ne (show Field.checkSum ≠ Field.bodyLength by decide)] at heq
  refine ⟨st', _, Reaches.of_round_eq ?_ (hread.reaches.tail hround) ?_,
    ⟨⟨[], _, hst'⟩, rfl, ?_, ?_, (fun hown => by cases hown),
      hinside₁.holds.detectDup hnotin⟩, ?_, ?_, ?_, hinside₁.holds.field?_detectDup hnotin _⟩
  · exact hfront.parseRound_eq hinside.counted htrailer.counted
      (hinside.announces.symm ▸ h.endsBody) rfl henter
  · exact fun heq => hfront.ne_nil (congrArg Prod.fst heq).symm
  · rw [heq]
    exact Nat.le_succ_of_le hinside₁.counted
  · rw [heq]
    exact if_neg h.checkSumType
  · rw [heq]
    exact hread.msgState
  · rw [heq]
    rfl
  · rw [heq]
    exact hread.bodyLengthStart

end Message.Filed

/-! ## The text of a message -/

theorem checkFrame_ok {settings : SessionSettings} {text n c : Bytes} {st : ParseState}
    (hn : st.msg.header.field? Field.bodyLength = some n)
    (hlength : fromCharsULong n = some (expectedBodyLength text.length st.bodyLengthStart))
    (hchecksum : st.msg.trailer.field? Field.checkSum = some c)
    (htag : st.tag = Field.checkSum)
    (hsum : c = formatChecksum (computeChecksum (text.take (text.length - 7)))) :
    checkFrame settings text st = .ok () := by
  have hget : st.msg.header.getField Field.bodyLength = .ok n := FieldMap.getField_eq.mpr hn
  rw [checkFrame, hget]
  show (if _ then _ else _) = _
  rw [if_neg (not_not.mpr hlength), hchecksum]
  dsimp only
  rw [if_neg (not_not.mpr htag), if_neg (not_not.mpr hsum)]
  rfl

/-- A tag of the frame is no part of the contents. -/
theorem FieldMap.content_removeField {tag : Int} (h : isIgnoredTag tag = true) (m : FieldMap) :
    (m.removeField tag).content = m.content := by
  have hstep : ∀ fields : List (Int × View),
      (AssocList.erase tag fields).foldr (m.contentStep (groupContents m.groups)) .nil =
        fields.foldr (m.contentStep (groupContents m.groups)) .nil := by
    intro fields
    induction fields with
    | nil => rfl
    | cons p fields ih =>
        obtain ⟨tag', v⟩ := p
        rw [AssocList.erase]
        split
        next heq =>
          subst heq
          rw [List.foldr_cons, contentStep, if_pos h]
        next => rw [List.foldr_cons, List.foldr_cons, ih]
  rw [content_eq, content_eq]
  exact (FieldMap.foldr_contentStep_congr rfl fun _ _ => rfl).trans (hstep m.fields)

namespace Message

variable {msg : Message}

/-- The checksum of a message. -/
def checksum (msg : Message) : UInt8 :=
  UInt8.ofNat (byteSum (render internalSohChar (msg.frameTexts (i32 msg.bodyLength))) % 256)

/-- What the first two fields of a text are followed by. -/
def behindLength (msg : Message) : Bytes :=
  render internalSohChar msg.header.content.texts ++
    (render internalSohChar msg.body.content.texts ++
      (render internalSohChar msg.trailer.content.texts ++
        (fieldText Field.checkSum (formatChecksum msg.checksum) ++ [internalSohChar])))

theorem toString_eq_opening {v : Bytes} (hv : msg.header.field? Field.beginString = some v) :
    msg.toString true = fieldText Field.beginString v ++ internalSohChar ::
      (fieldText Field.bodyLength (toChars (i32 msg.bodyLength)) ++ internalSohChar ::
        msg.behindLength) := by
  have hbegin : msg.beginTexts = [fieldText Field.beginString v] := by rw [beginTexts, hv]
  have hchecksum : checksumText (msg.frameTexts (i32 msg.bodyLength)) =
      fieldText Field.checkSum (formatChecksum msg.checksum) := rfl
  rw [toString_eq_render, if_pos rfl, texts, hchecksum, frameTexts, hbegin, bodyTexts, behindLength,
    FieldMap.texts_content, FieldMap.texts_content, FieldMap.texts_content]
  simp only [render_append, render_cons, render_nil, List.append_assoc, List.cons_append,
    List.nil_append, List.append_nil]

/-- A body length that is an int is written with its digits. -/
theorem toChars_natCast {n : Nat} (h : n < 2147483648) : toChars (i32 n) = natDigits n := by
  rw [i32_of_range (by omega) (by omega), toChars_of_nonneg (Int.natCast_nonneg _)]
  rfl

/-- A number may stand in any field, a LENGTH too. -/
theorem takes_natDigits {spec : GroupSpec} {dict : Dictionary} {tag : Int} {n : Nat}
    (hfield : spec.hasField tag = true) (h : n < 2147483648) :
    spec.takes dict [] tag (natDigits n) = true := by
  have hclean : internalSohChar ∉ natDigits n := natDigits_clean n
  have hnumber : 0 ≤ fastParseTag (natDigits n) := by
    rw [fastParseTag_natDigits (by omega)]
    exact Int.natCast_nonneg _
  rw [GroupSpec.takes, hfield, decide_eq_true hclean, Dictionary.hasLength,
    decide_eq_true hnumber, Bool.or_true]
  rfl

theorem length_behindLength (msg : Message) : msg.behindLength.length = msg.bodyLength + 7 := by
  have hten : (fieldText Field.checkSum (formatChecksum msg.checksum)).length = 6 := by
    rw [fieldText, List.length_append, length_formatChecksum]
    decide
  rw [behindLength, bodyLength, bodyTexts, FieldMap.texts_content, FieldMap.texts_content,
    FieldMap.texts_content]
  simp only [render_append, List.length_append, hten, List.length_cons, List.length_nil]
  omega

theorem bodyLength_le {v : Bytes} (hv : msg.header.field? Field.beginString = some v) :
    msg.bodyLength + 7 ≤ (msg.toString true).length := by
  have hbehind := msg.length_behindLength
  rw [toString_eq_opening hv]
  simp only [List.length_append, List.length_cons]
  omega

/-- The checksum is that of what is in front of it. -/
theorem checksum_eq (msg : Message) : msg.checksum =
    computeChecksum ((msg.toString true).take ((msg.toString true).length - 7)) := by
  have hten : (render internalSohChar
      [checksumText (msg.frameTexts (i32 msg.bodyLength))]).length = 7 := by
    rw [render_cons, render_nil, List.append_nil, List.length_append, checksumText, fieldText,
      List.length_append, length_formatChecksum]
    decide
  rw [toString_eq_render, if_pos rfl, texts, render_append, List.length_append, hten,
    Nat.add_sub_cancel, List.take_left, computeChecksum_eq]
  rfl

namespace Filed

variable {settings : SessionSettings} {dict : Dictionary} {bodySpec : GroupSpec}

open ParseState

/-- The parser reads the whole text, and has three maps that say what those of the message do. -/
theorem reads (h : msg.Filed settings dict bodySpec) :
    ∃ st hdr body tr, Reaches (parseRound settings dict (msg.toString true).length)
        (msg.toString true, .init dict) ([], st) ∧
      ParseState.Inside settings st ⟨finishMap settings (some dict.headerSpec) hdr,
        finishMap settings (some bodySpec) body, .new⟩ [] (trailerInfo dict) [] dict.trailerSpec tr
        (msg.trailer.content.tags ++ [Field.checkSum]) msg.trailer.content none false ∧
      st.msgState = .trailer ∧ st.tag = Field.checkSum ∧
      st.bodyLengthStart = (msg.toString true).length - (msg.bodyLength + 7 : Nat) ∧
      hdr.Holds (Field.beginString :: Field.bodyLength :: msg.header.content.tags)
        msg.header.content ∧
      body.Holds msg.body.content.tags msg.body.content ∧
      hdr.field? Field.beginString = msg.header.field? Field.beginString ∧
      hdr.field? Field.bodyLength = some (natDigits msg.bodyLength) ∧
      tr.field? Field.checkSum = some (formatChecksum msg.checksum) := by
  obtain ⟨v, hv, -⟩ := h.beginString
  have htext := toString_eq_opening hv
  have hbehind := msg.length_behindLength
  have hmeasured := h.measured
  have hstarts := h.starts
  have hlength : (msg.toString true).length = (fieldText Field.beginString v).length + 1 +
      ((fieldText Field.bodyLength (toChars (i32 msg.bodyLength))).length + 1 +
        msg.behindLength.length) := by
    rw [htext]
    simp only [List.length_append, List.length_cons]
    omega
  rw [toChars_natCast hmeasured] at htext hlength
  have hn : dict.headerSpec.takes dict [] Field.bodyLength (natDigits msg.bodyLength) = true :=
    takes_natDigits h.bodyLength hmeasured
  generalize hsize : (msg.toString true).length = size at hlength hstarts ⊢
  obtain ⟨st₁, hdr, hreaches, hinside₁, hstate₁, hstart₁, hbegin, hbody, t, ht, hspec⟩ :=
    h.reads_header size hv hn (render internalSohChar msg.body.content.texts ++
      (render internalSohChar msg.trailer.content.texts ++
        (fieldText Field.checkSum (formatChecksum msg.checksum) ++ [internalSohChar])))
  have hstarts : ∃ value, ParseState.StartsWith (msg.trailer.content.frontTag Field.checkSum) value
      (render internalSohChar msg.trailer.content.texts ++
        (fieldText Field.checkSum (formatChecksum msg.checksum) ++ [internalSohChar])) := by
    have hclean : internalSohChar ∉ formatChecksum msg.checksum := fun hmem =>
      (formatChecksum_clean hmem).1 rfl
    exact (ParseState.StartsWith.intro [] (by decide) (by decide) hclean).content h.trailer
  obtain ⟨value, hstarts⟩ := hstarts
  obtain ⟨st₂, body, hlast, hinside₂, hstate₂, hstart₂⟩ :=
    h.reads_body size hinside₁ hstate₁ ht hspec hstarts
  obtain ⟨st, tr, hreaches', hinside, hstate, htag, hstart, hchecksum⟩ :=
    h.reads_trailer size hinside₂ hstate₂ rfl msg.checksum
  refine ⟨st, hdr, body, tr, ?_, hinside, hstate, htag, ?_, hinside₁.holds,
    hinside₂.holds, ?_, hbody, hchecksum⟩
  · rw [htext]
    exact hreaches.trans (hlast st hreaches')
  · rw [hstart, hstart₂, hstart₁]
    have heq : (render internalSohChar msg.header.content.texts ++
        (render internalSohChar msg.body.content.texts ++
          (render internalSohChar msg.trailer.content.texts ++
            (fieldText Field.checkSum (formatChecksum msg.checksum) ++
              [internalSohChar])))).length = msg.bodyLength + 7 := hbehind
    rw [heq, i32_of_range (by omega) (by omega)]
    omega
  · rw [hbegin, hv]

/-- What is serialized is parsed again, to maps that say what those of the message do. -/
theorem parse_eq (h : msg.Filed settings dict bodySpec) :
    ∃ hdr body tr, dict.parse settings (msg.toString true) =
        .ok ⟨finishMap settings (some dict.headerSpec) hdr, finishMap settings (some bodySpec) body,
          (finishMap settings (some dict.trailerSpec) tr).removeField Field.checkSum⟩ ∧
      hdr.Holds (Field.beginString :: Field.bodyLength :: msg.header.content.tags)
        msg.header.content ∧
      body.Holds msg.body.content.tags msg.body.content ∧
      tr.Holds (msg.trailer.content.tags ++ [Field.checkSum]) msg.trailer.content ∧
      hdr.field? Field.beginString = msg.header.field? Field.beginString := by
  obtain ⟨st, hdr, body, tr, hreaches, hinside, hstate, htag, hstart, hheader, hbody,
    hbegin, hlength, hchecksum⟩ := h.reads
  have hloop : parseLoop settings dict (msg.toString true).length (msg.toString true).length
      (msg.toString true) (.init dict) = .ok st :=
    ((ends_parseLoop _ _ _ (Nat.le_refl _)).eq_iff (.ok st)).mpr ⟨([], st), hreaches, rfl⟩
  have hclose := hinside.overwriteStack_zero rfl h.trailerTags
  generalize hmaps : ({ st with
    msg := Message.put ⟨finishMap settings (some dict.headerSpec) hdr,
      finishMap settings (some bodySpec) body, .new⟩ (trailerInfo dict).group
        (finishMap settings (some dict.trailerSpec) tr)
    stack := [] } : ParseState) = last at hclose
  have hmsg : last.msg = ⟨finishMap settings (some dict.headerSpec) hdr,
      finishMap settings (some bodySpec) body, finishMap settings (some dict.trailerSpec) tr⟩ := by
    rw [← hmaps]
    rfl
  have hstate' : last.msgState = .trailer := by
    rw [← hmaps]
    exact hstate
  have hframe : checkFrame settings (msg.toString true) last = .ok () := by
    refine checkFrame_ok (n := natDigits msg.bodyLength)
      (c := formatChecksum msg.checksum) ?_ ?_ ?_ ?_ ?_
    · rw [hmsg, field?_finishMap, hlength]
    · have hmeasured := h.measured
      obtain ⟨v, hv, -⟩ := h.beginString
      have hle := bodyLength_le hv
      have hexpected : expectedBodyLength (msg.toString true).length last.bodyLengthStart =
          msg.bodyLength := by
        rw [← hmaps, expectedBodyLength, hstart]
        omega
      rw [hexpected, fromCharsULong_natDigits (by omega)]
    · rw [hmsg, field?_finishMap, hchecksum]
    · rw [← hmaps]
      exact htag
    · rw [checksum_eq]
  refine ⟨hdr, body, tr, ?_, hheader, hbody, hinside.holds, hbegin⟩
  rw [Dictionary.parse]
  show parseLoop settings dict _ _ _ (.init dict) >>= _ = _
  rw [hloop]
  show overwriteStack settings 0 st >>= _ = _
  rw [hclose]
  show (if _ then _ else _) = _
  rw [if_neg (not_not.mpr hstate'), hframe, hmsg]
  split
  · rfl
  · rfl

/-- Such a message is accepted, with the header that it has. -/
theorem parse_header (h : msg.Filed settings dict bodySpec) :
    ∃ parsed, dict.parse settings (msg.toString true) = .ok parsed ∧
      ∀ tag, tag = Field.beginString ∨ isIgnoredTag tag = false →
        parsed.header.field? tag = msg.header.field? tag := by
  obtain ⟨hdr, body, tr, hparse, hheader, -, -, hbegin⟩ := h.parse_eq
  refine ⟨_, hparse, fun tag htag => ?_⟩
  rw [field?_finishMap]
  rcases htag with rfl | hplain
  · exact hbegin
  · rw [← FieldMap.value?_content _ hplain, hheader.content, FieldMap.value?_content _ hplain]

end Filed

namespace Conforms

variable {settings : SessionSettings} {dict : Dictionary} {bodySpec : GroupSpec}

open ParseState

theorem admits (h : msg.Conforms settings dict bodySpec) :
    dict.headerSpec.admits settings
        (Field.beginString :: Field.bodyLength :: msg.header.content.tags) = true ∧
      bodySpec.admits settings msg.body.content.tags = true ∧
      dict.trailerSpec.admits settings (msg.trailer.content.tags ++ [Field.checkSum]) = true :=
  ⟨Bool.and_eq_true_iff.mpr ⟨h.headerTags, h.headerOrder⟩,
    Bool.and_eq_true_iff.mpr ⟨h.bodyTags, h.bodyOrder⟩,
    Bool.and_eq_true_iff.mpr ⟨h.trailerTags, h.trailerOrder⟩⟩

/-- What is serialized is parsed again, and says what it said.  The header of the frame has
the tags of the frame besides. -/
theorem parse_eq (h : msg.Conforms settings dict bodySpec) :
    ∃ parsed, dict.parse settings (msg.toString true) = .ok parsed ∧
      parsed.contents = msg.contents ∧ AssocList.keys parsed.header.fields =
        Field.beginString :: Field.bodyLength :: msg.header.content.tags := by
  obtain ⟨hdr, body, tr, hparse, hheader, hbody, htrailer, hbegin⟩ := h.toFiled.parse_eq
  obtain ⟨hheaderAdmits, hbodyAdmits, htrailerAdmits⟩ := h.admits
  refine ⟨_, hparse, ?_, ?_⟩
  · rw [contents, contents]
    dsimp only
    rw [field?_finishMap, hbegin, FieldMap.content_finishMap hheader hheaderAdmits,
      FieldMap.content_finishMap hbody hbodyAdmits, FieldMap.content_removeField rfl,
      FieldMap.content_finishMap htrailer htrailerAdmits]
  · rw [FieldMap.fields_finishMap hheader hheaderAdmits, hheader.keys]

end Conforms

/-- What is read from the text of a message. -/
structure ReadAs (settings : SessionSettings) (dict : Dictionary) (msg parsed : Message) :
    Prop where
  parse : dict.parse settings (msg.toString true) = .ok parsed
  contents : parsed.contents = msg.contents
  keys : AssocList.keys parsed.header.fields =
    Field.beginString :: Field.bodyLength :: msg.header.content.tags

theorem Conforms.readAs {settings : SessionSettings} {dict : Dictionary} {bodySpec : GroupSpec}
    {msg : Message} (h : msg.Conforms settings dict bodySpec) :
    ∃ parsed, msg.ReadAs settings dict parsed := by
  obtain ⟨parsed, hparse, hcontents, hkeys⟩ := h.parse_eq
  exact ⟨parsed, hparse, hcontents, hkeys⟩

namespace ReadAs

variable {settings : SessionSettings} {dict : Dictionary} {msg parsed : Message}

theorem field?_header (h : msg.ReadAs settings dict parsed) {tag : Int}
    (hplain : isIgnoredTag tag = false) : parsed.header.field? tag = msg.header.field? tag := by
  have hcontent : parsed.header.content = msg.header.content := congrArg Contents.header h.contents
  rw [← FieldMap.value?_content _ hplain, ← FieldMap.value?_content _ hplain, hcontent]

theorem field?_body (h : msg.ReadAs settings dict parsed) {tag : Int}
    (hplain : isIgnoredTag tag = false) : parsed.body.field? tag = msg.body.field? tag := by
  have hcontent : parsed.body.content = msg.body.content := congrArg Contents.body h.contents
  rw [← FieldMap.value?_content _ hplain, ← FieldMap.value?_content _ hplain, hcontent]

end ReadAs

end Message

/-- A message that conforms comes back from its text.  It says what it said, and has the same
text in either rendering. -/
theorem parse_toString {settings : SessionSettings} {dict : Dictionary} {bodySpec : GroupSpec}
    {msg : Message} (h : msg.Conforms settings dict bodySpec) :
    ∃ parsed, dict.parse settings (msg.toString true) = .ok parsed ∧
      parsed.contents = msg.contents ∧
      ∀ internal, parsed.toString internal = msg.toString internal := by
  obtain ⟨parsed, hparse, hcontents, -⟩ := h.parse_eq
  exact ⟨parsed, hparse, hcontents, Message.toString_congr hcontents⟩

/-- The body of an order in the dictionary of the tests. -/
def orderSpec : GroupSpec where
  fields := [(11, true), (1, false)]
  groups :=
    [(453, ⟨[(448, false), (447, false)], [(802, ⟨[(523, false), (803, false)], [], false,
        [523, 803]⟩)], false, [448, 447, 802]⟩),
      (78, ⟨[(79, false), (661, false)], [], false, [79, 661]⟩)]
  ordered := false
  fieldOrder := [11, 453, 1, 78]

/-- An order of two parties, the first one with two sub-identifiers, and with a signature that has
a separator in it. -/
def signedOrder : Message where
  header := { FieldMap.new with
    fields := [(8, .text (ascii "FIX.4.4")), (35, .text (ascii "D")), (49, .text (ascii "A")),
      (56, .text (ascii "B")), (34, .text (ascii "7")), (52, .text (ascii "20240101-00:00:00"))] }
  body := { FieldMap.new with
    fields := [(11, .text (ascii "order")), (453, .text (ascii "2")), (1, .text (ascii "account")),
      (78, .text (ascii "1"))]
    groups := [(453, [
        { FieldMap.new with
          fields := [(448, .text (ascii "x")), (802, .text (ascii "2"))]
          groups := [(802, [{ FieldMap.new with fields := [(523, .text (ascii "y"))] },
            { FieldMap.new with
              fields := [(523, .text (ascii "z")), (803, .text (ascii "1"))] }])] },
        { FieldMap.new with fields := [(448, .text (ascii "w")), (447, .text (ascii "D"))] }]),
      (78, [{ FieldMap.new with fields := [(79, .text (ascii "a")), (661, .text (ascii "5"))] }])] }
  trailer := { FieldMap.new with
    fields := [(93, .text (ascii "3")), (89, .text [97, internalSohChar, 98])] }

theorem signedOrder_conforms :
    signedOrder.Conforms { validateRequiredFields := true, parsingReorderTags := true }
      testDictionary orderSpec where
  beginString := ⟨ascii "FIX.4.4", by decide +kernel⟩
  bodyLength := by decide +kernel
  bodyLengthType := by decide +kernel
  msgType := by
    have hheader : signedOrder.header.content = .field Field.msgType (ascii "D")
        (.field 49 (ascii "A") (.field 56 (ascii "B") (.field 34 (ascii "7")
          (.field 52 (ascii "20240101-00:00:00") .nil)))) := by decide +kernel
    exact ⟨_, _, hheader, rfl⟩
  msgTypeType := by decide +kernel
  header := by decide +kernel
  headerTags := by decide +kernel
  body := by decide +kernel
  bodyTags := by decide +kernel
  trailer := by decide +kernel
  trailerTags := by decide +kernel
  leavesHeader := by decide +kernel
  leavesBody := by decide +kernel
  trailerFront := by decide +kernel
  checkSum := by decide +kernel
  checkSumType := by decide +kernel
  endsHeader := by decide +kernel
  endsBody := by decide +kernel
  endsTrailer := by decide +kernel
  leavesTrailer := by decide +kernel
  measured := by decide +kernel
  starts := by decide +kernel
  headerOrder := by decide +kernel
  bodyOrder := by decide +kernel
  trailerOrder := by decide +kernel

theorem parse_toString_signedOrder :
    signedOrder.Conforms { validateRequiredFields := true, parsingReorderTags := true }
        testDictionary orderSpec ∧
      ∃ parsed, testDictionary.parse
          { validateRequiredFields := true, parsingReorderTags := true }
          (signedOrder.toString true) = .ok parsed ∧
        parsed.contents = signedOrder.contents ∧
        ∀ internal, parsed.toString internal = signedOrder.toString internal :=
  ⟨signedOrder_conforms, parse_toString signedOrder_conforms⟩

/-- The order without its account, so that its groups stand side by side. -/
def crowdedOrder : Message := { signedOrder with body := signedOrder.body.removeField 1 }

/-- The second group is not found again: the parser pops it with the instances of the first. -/
example : (testDictionary.parse {} (crowdedOrder.toString true)).toOption.map
    (fun parsed => decide (parsed.contents = crowdedOrder.contents)) = some false := by
  decide +kernel

/-! ## Messages on a connection -/

theorem Message.Conforms.framable {settings : SessionSettings} {dict : Dictionary}
    {bodySpec : GroupSpec} {msg : Message} (h : msg.Conforms settings dict bodySpec) :
    msg.Framable := by
  obtain ⟨v, hv, htakes⟩ := h.beginString
  rw [GroupSpec.takes, Bool.and_eq_true, Bool.and_eq_true, decide_eq_true_eq] at htakes
  refine ⟨⟨v, hv, htakes.1.2⟩, ?_⟩
  have hbody : msg.wireBody.length = msg.bodyLength := by
    rw [wireBody, serializeBody_eq]
    rfl
  rw [hbody]
  exact h.measured

theorem mapM_parse_toString {settings : SessionSettings} {dict : Dictionary} :
    ∀ {msgs : List Message}, (∀ msg ∈ msgs, ∃ bodySpec, msg.Conforms settings dict bodySpec) →
      ∃ parsed, (msgs.map fun msg => msg.toString true).mapM (dict.parse settings) = .ok parsed ∧
        parsed.map Message.contents = msgs.map Message.contents
  | [], _ => ⟨[], rfl, rfl⟩
  | msg :: msgs, h => by
      obtain ⟨bodySpec, hconforms⟩ := h msg (List.mem_cons_self ..)
      obtain ⟨first, hfirst, hcontents, -⟩ := hconforms.parse_eq
      obtain ⟨parsed, hparsed, hcontents'⟩ :=
        mapM_parse_toString fun msg' hmsg' => h msg' (List.mem_cons_of_mem _ hmsg')
      refine ⟨first :: parsed, ?_, ?_⟩
      · rw [List.map_cons, List.mapM_cons, hfirst, hparsed]
        rfl
      · rw [List.map_cons, List.map_cons, hcontents, hcontents']

/-- What a connection has received of the texts of messages that conform, in pieces and calls of
any kind, are the messages whose text is complete, and each of them is parsed and says what it
said.  What is left in the buffer is shorter than the text of the next one. -/
theorem readCalls_contents {settings : SessionSettings} {dict : Dictionary} {msgs : List Message}
    (h : ∀ msg ∈ msgs, ∃ bodySpec, msg.Conforms settings dict bodySpec) {m : ReadBuffer} {fd : Nat}
    (hnew : m.buffer fd = []) {calls : List (List Chunk)}
    (hcalls : received calls <+: msgs.flatMap fun msg => msg.toString true) :
    ∃ done rest parsed, msgs = done ++ rest ∧
      (m.readCalls fd calls).1.mapM (dict.parse settings) = .ok parsed ∧
      parsed.map Message.contents = done.map Message.contents ∧
      received calls =
        (done.flatMap fun msg => msg.toString true) ++ (m.readCalls fd calls).2.buffer fd ∧
      ∀ msg ∈ rest.head?,
        ((m.readCalls fd calls).2.buffer fd).length < (msg.toString true).length := by
  have hwords : ∀ w ∈ msgs.map fun msg => msg.toString true,
      framer.next w = some (w.length, [w]) := by
    intro w hw
    obtain ⟨msg, hmsg, rfl⟩ := List.mem_map.mp hw
    obtain ⟨bodySpec, hconforms⟩ := h msg hmsg
    have hnext := nextFrame_message hconforms.framable []
    rwa [List.append_nil] at hnext
  have hcalls' : received calls <+: (msgs.map fun msg => msg.toString true).flatten := hcalls
  obtain ⟨words, rest', q, hsplit, hrun, hreceived, hrest⟩ := Framer.run_of_isPrefix hwords hcalls'
  obtain ⟨done, rest, hmsgs, rfl, rfl⟩ := List.map_eq_append_iff.mp hsplit
  have hout : ∀ l : List Bytes, l.flatMap (fun w => [w]) = l := fun l => by simp
  rw [hout] at hrun
  have heq := m.readCalls_eq_run fd calls
  rw [hnew, List.nil_append] at heq
  have hread : ((m.readCalls fd calls).1, (m.readCalls fd calls).2.buffer fd) =
      (done.map fun msg => msg.toString true, q) := by
    split at heq
    next hnil =>
      rw [hnil, Framer.run_of_none Framer.next_nil] at hrun
      rw [heq, hrun]
    next => rw [heq, hrun]
  obtain ⟨hframes, hbuffer⟩ := Prod.ext_iff.mp hread
  dsimp only at hframes hbuffer
  have hdone : ∀ msg ∈ done, ∃ bodySpec, msg.Conforms settings dict bodySpec := fun msg hmsg =>
    h msg (hmsgs ▸ List.mem_append_left _ hmsg)
  obtain ⟨parsed, hparsed, hcontents⟩ := mapM_parse_toString hdone
  refine ⟨done, rest, parsed, hmsgs, by rw [hframes, hparsed], hcontents,
    by rw [hbuffer, hreceived]; rfl, fun msg hmsg => ?_⟩
  rw [hbuffer]
  refine hrest _ ?_
  rw [List.head?_map]
  exact Option.mem_map_of_mem _ hmsg

/-- An order and the start of another one. -/
def orderCalls : List (List Chunk) :=
  [[⟨signedOrder.toString true, by decide +kernel, by decide +kernel⟩],
    [⟨(signedOrder.toString true).take 20, by decide +kernel, by decide +kernel⟩]]

theorem readCalls_contents_signedOrder :
    ∃ done rest parsed, [signedOrder, signedOrder] = done ++ rest ∧
      (ReadBuffer.new.readCalls 5 orderCalls).1.mapM (testDictionary.parse
        { validateRequiredFields := true, parsingReorderTags := true }) = .ok parsed ∧
      parsed.map Message.contents = done.map Message.contents ∧
      received orderCalls = (done.flatMap fun msg => msg.toString true) ++
        (ReadBuffer.new.readCalls 5 orderCalls).2.buffer 5 ∧
      ∀ msg ∈ rest.head?,
        ((ReadBuffer.new.readCalls 5 orderCalls).2.buffer 5).length <
          (msg.toString true).length := by
  refine readCalls_contents (fun msg hmsg => ⟨orderSpec, ?_⟩) rfl (by decide +kernel)
  rcases List.mem_cons.mp hmsg with rfl | hmsg
  · exact signedOrder_conforms
  · rw [List.mem_singleton.mp hmsg]
    exact signedOrder_conforms

end OpenFix
