import OpenFix.Admin
import OpenFix.Edits

/-!
# What the peer reads

A peer with the same dictionary reads a message of the session itself with the header that
the call has set, except in two cases (`AdminCall.run_readBack_iff`).  The header of a logon
that tells the next expected number or asks for a reset is left at that field, which is in no
standard header, and the stamp behind it goes to the body.  And a SequenceReset is read with
another number if the one that was set is not as long as that of the session.
-/

namespace OpenFix

open Effect

namespace Session.AdminCall

/-! ## The header as it was set -/

/-- The peer reads a message of the call, with the header that the call has set.  So a peer that
is set up for the other side of the connection has nothing to say against the header. -/
structure ReadBack (env : Env) (settings : SessionSettings) (s : Session) (call : AdminCall)
    (m parsed : Message) : Prop where
  parse : env.dictionary.parse settings (m.toString true) = .ok parsed
  header : ∀ f ∈ call.stamp env s, parsed.header.field? f.1 = some f.2
  numbered : parsed.header.has Field.msgSeqNum = true
  peer : ∀ peer : Env, Mirrored env.settings peer.settings → FromPeer peer parsed

/-- The message of the call has its header in the place where the parser looks for it. -/
def Undistorted (env : Env) (s : Session) : AdminCall → Prop
  | logon shouldReset => env.settings.sendNextExpectedMsgSeqNum = false ∧ shouldReset = false
  | sequenceReset seqno _ _ => (toChars seqno).length = (toChars s.cache.senderSeqNum).length
  | _ => True

end Session.AdminCall

/-! ## A header that is left too early -/

/-- Behind its first fields the header is left at a field that it does not have, and has none of
the fields that follow. -/
theorem ParseState.Opening.leaves {settings : SessionSettings} {dict : Dictionary}
    {v n t : Bytes} (h : Opening settings dict v n t)
    (htype : dict.getFieldType Field.msgType ≠ .length) {tag : Int}
    (hplain : isPlainTag tag = true) (hrefused : refusedBy [dict.headerSpec] tag = true)
    {value rest text : Bytes} (hclean : internalSohChar ∉ value)
    (htext : text = fieldText Field.beginString v ++ internalSohChar ::
      (fieldText Field.bodyLength n ++ internalSohChar ::
        (fieldText Field.msgType t ++ internalSohChar ::
          (fieldText tag value ++ internalSohChar :: rest)))) {parsed : Message}
    (hparse : dict.parse settings text = .ok parsed) (other : Int)
    (hother : other ∉ [Field.beginString, Field.bodyLength, Field.msgType]) :
    parsed.header.field? other = none := by
  obtain ⟨st, hreaches, hinside, hstate, -⟩ :=
    h.reads text.length (fieldText tag value ++ internalSohChar :: rest)
  rw [← htext] at hreaches
  obtain ⟨opened, raw, hstanding⟩ := hinside.standing
  obtain ⟨rfl, rfl⟩ := hstanding.spine.of_nil
  obtain ⟨⟨hlow, hhigh⟩, -⟩ := isPlainTag_iff.mp hplain
  have hdata : dict.readAsData st.dataLength tag = false := by
    rw [hinside.announces, Dictionary.lengthOf, if_neg htype]
    rfl
  have hround : parseRound settings dict text.length
      (fieldText tag value ++ internalSohChar :: rest, st) = _ :=
    parseRound_map hlow hhigh (checkTagOrder_of_le hinside.counted tag) hdata hclean
  cases hdispatch : dispatchField settings dict ⟨tag, value, text.length - (rest.length + 1)⟩
      (st.started tag) with
  | error e =>
      rw [hdispatch] at hround
      rw [parse_of_parseRound_error hreaches hround] at hparse
      cases hparse
  | ok st' =>
      rw [hdispatch] at hround
      have hpasses : (st.started tag).Passes tag := by
        intro g hg
        have hstack : (st.started tag).stack = [headerInfo dict] := hstanding.stack
        rw [hstack, List.mem_singleton] at hg
        simp only [refusedBy, List.all_cons, List.all_nil, Bool.and_true, Bool.and_eq_true,
          Bool.not_eq_true', Option.isNone_iff_eq_none] at hrefused
        exact ⟨dict.headerSpec, hg ▸ rfl, hrefused⟩
      have hnone : AssocList.find? other (st.started tag).msg.header.fields = none := by
        have hheader : (st.started tag).msg.header = openedHeader v n t :=
          congrArg Message.header hstanding.msg
        rw [hheader, AssocList.find?_eq_none_iff, hinside.holds.keys]
        exact hother
      obtain ⟨header, hleft, hheader⟩ := headerLeft_dispatchField hdispatch hstate hpasses hnone
      rw [header_of_parse hparse (hreaches.tail hround) hleft, FieldMap.field?, hheader]
      rfl

namespace Session.AdminCall

/-! ## Messages that are filed -/

variable {env : Env} {settings : SessionSettings} {s : Session} {call : AdminCall}
  {m : Message}

theorem header_eq (env : Env) (s : Session) (call : AdminCall) : call.header env s =
    [(Field.msgType, call.msgType), (Field.beginString, env.settings.beginString),
      (Field.senderCompID, env.settings.senderCompID),
      (Field.targetCompID, env.settings.targetCompID),
      (Field.sendingTime, writeUTCTimestamp (call.millis env s)),
      (Field.msgSeqNum, call.number s)] ++ call.marks env s := rfl

theorem beginString_mem_header (env : Env) (s : Session) (call : AdminCall) :
    (Field.beginString, env.settings.beginString) ∈ call.header env s := by
  rw [header_eq]
  exact List.mem_append_left _ (by simp)

theorem msgType_mem_header (env : Env) (s : Session) (call : AdminCall) :
    (Field.msgType, call.msgType) ∈ call.header env s := by
  rw [header_eq]
  exact List.mem_append_left _ (by simp)

/-- What is sent was set, but for the text of the number. -/
theorem mem_header {f : Int × Bytes} (hf : f ∈ call.header env s) :
    f = (Field.msgSeqNum, call.number s) ∨ f ∈ call.stamp env s ∨ f ∈ call.marks env s := by
  rcases List.mem_append.mp hf with hf | hf
  · rcases AssocList.mem_set hf with rfl | hf
    · exact .inl rfl
    · exact .inr (.inl hf)
  · exact .inr (.inr hf)

/-- The tags of a stamp. -/
theorem mem_stamp {f : Int × Bytes} (hf : f ∈ call.stamp env s) :
    f.1 = Field.beginString ∨ f.1 ∈ stampTags := by
  simp only [stamp, stampedFields, stampFields, List.mem_cons, List.not_mem_nil, or_false] at hf
  simp only [stampTags, List.mem_cons, List.not_mem_nil, or_false]
  rcases hf with rfl | rfl | rfl | rfl | rfl | rfl
  · exact .inr (.inl rfl)
  · exact .inl rfl
  · exact .inr (.inr (.inl rfl))
  · exact .inr (.inr (.inr (.inl rfl)))
  · exact .inr (.inr (.inr (.inr (.inl rfl))))
  · exact .inr (.inr (.inr (.inr (.inr rfl))))

theorem isPlainTag_of_mem_marks {f : Int × Bytes} (hf : f ∈ call.marks env s) :
    isPlainTag f.1 = true := by
  have hmem := mem_marks hf
  simp only [List.mem_cons, List.not_mem_nil, or_false] at hmem
  rcases hmem with hmem | hmem | hmem | hmem
  all_goals
    rw [hmem]
    decide

/-- The strings of the call stand in a message. -/
structure Tidy (env : Env) (s : Session) (call : AdminCall) : Prop where
  isInt : -2147483648 ≤ s.cache.senderSeqNum ∧ s.cache.senderSeqNum < 2147483648
  clean : ∀ f ∈ call.said env s, internalSohChar ∉ f.2
  short : fieldsLength (call.said env s) < 900000000

theorem Tidy.clean_header (h : call.Tidy env s) :
    ∀ f ∈ call.header env s ++ call.fields s, internalSohChar ∉ f.2 := by
  intro f hf
  rcases List.mem_append.mp hf with hf | hf
  · rcases mem_header hf with rfl | hf | hf
    · exact number_clean env s call
    · exact h.clean f (List.mem_append_left _ (List.mem_append_left _ hf))
    · exact h.clean f (List.mem_append_left _ (List.mem_append_right _ hf))
  · exact h.clean f (List.mem_append_right _ hf)

theorem Tidy.short_header (h : call.Tidy env s) :
    fieldsLength (call.header env s) + fieldsLength (call.fields s) < 1000000000 := by
  have hshort := h.short
  have hnumber := length_number_le env h.isInt call
  rw [header_eq]
  simp only [said, stamp, stampedFields, stampFields, fieldsLength, List.map_append,
    List.sum_append, List.map_cons, List.map_nil, List.sum_cons, List.sum_nil] at hshort ⊢
  omega

/-- All that the header may have is read, but for the marks of a logon. -/
theorem Sends.filed (h : call.Sends env s m) (hdict : env.dictionary.Administers settings)
    (htidy : call.Tidy env s)
    (hmarks : ∀ f ∈ call.marks env s, env.dictionary.Plain env.dictionary.headerSpec f.1) :
    ∃ spec, m.Filed settings env.dictionary spec := by
  obtain ⟨spec, hlists⟩ := lists_fields hdict s call
  refine ⟨spec, h.toSays.filed hdict.toStandard hlists (fun f hf => ?_) (fun tag htag => ?_)
    (beginString_mem_header env s call) (msgType_mem_header env s call) htidy.clean_header
    htidy.short_header⟩
  · rcases mem_header hf with rfl | hf | hf
    · exact .inr (hdict.header _ (by simp [stampTags]))
    · exact (mem_stamp hf).imp_right (hdict.header _)
    · exact .inr (hmarks f hf)
  · simp only [stampTags, List.mem_cons, List.not_mem_nil, or_false] at htag
    simp only [header_eq, AssocList.keys, List.map_append, List.map_cons, List.map_nil,
      List.mem_append, List.mem_cons, List.not_mem_nil, or_false]
    tauto

/-- The peer has nothing to say against a header with the stamp. -/
theorem fromPeer_of_stamp {parsed : Message} {peer : Env}
    (hmirror : Mirrored env.settings peer.settings)
    (hread : ∀ f ∈ call.stamp env s, parsed.header.field? f.1 = some f.2) :
    FromPeer peer parsed := by
  constructor
  · rw [← hmirror.beginString]
    exact FieldMap.getField_eq.mpr (hread (Field.beginString, env.settings.beginString) (by
      simp [stamp, stampedFields, stampFields]))
  · rw [← hmirror.senderCompID]
    exact FieldMap.getField_eq.mpr (hread (Field.senderCompID, env.settings.senderCompID) (by
      simp [stamp, stampedFields, stampFields]))
  · rw [← hmirror.targetCompID]
    exact FieldMap.getField_eq.mpr (hread (Field.targetCompID, env.settings.targetCompID) (by
      simp [stamp, stampedFields, stampFields]))

/-- A message that is filed is read back if its number is shown. -/
theorem Sends.readBack_iff (h : call.Sends env s m) (hdict : env.dictionary.Administers settings)
    (htidy : call.Tidy env s)
    (hmarks : ∀ f ∈ call.marks env s, env.dictionary.Plain env.dictionary.headerSpec f.1) :
    (∃ parsed, call.ReadBack env settings s m parsed) ↔
      call.number s = toChars (call.seqNum s) := by
  obtain ⟨spec, hfiled⟩ := h.filed hdict htidy hmarks
  obtain ⟨parsed, hparse, hheader⟩ := hfiled.parse_header
  have hshown : m.header.field? Field.msgSeqNum = some (call.number s) :=
    h.toSays.field?_header (f := (Field.msgSeqNum, call.number s)) (by
      rw [header_eq]
      exact List.mem_append_left _ (by simp))
  constructor
  · rintro ⟨parsed', hread⟩
    cases hparse.symm.trans hread.parse
    have hset := hread.header (Field.msgSeqNum, toChars (call.seqNum s)) (by
      simp [stamp, stampedFields, stampFields])
    exact Option.some.inj (hshown.symm.trans ((hheader _ (.inr rfl)).symm.trans hset))
  · intro hnumber
    have hread : ∀ f ∈ call.stamp env s, parsed.header.field? f.1 = some f.2 := by
      intro f hf
      have hmem : f ∈ call.header env s := by
        rw [header_eq, hnumber]
        exact List.mem_append_left _ hf
      rw [hheader f.1 ((mem_stamp hf).imp_right fun htag =>
        (ParseState.isPlainTag_iff.mp (hdict.header _ htag).plain).2)]
      exact h.toSays.field?_header hmem
    refine ⟨parsed, hparse, hread, ?_, fun peer hmirror => fromPeer_of_stamp hmirror hread⟩
    rw [FieldMap.has_eq, hread (Field.msgSeqNum, toChars (call.seqNum s)) (by
      simp [stamp, stampedFields, stampFields])]
    rfl

/-! ## Logons with a mark -/

section

variable {shouldReset : Bool}

theorem mem_logon_marks {f : Int × Bytes} (hf : f ∈ (logon shouldReset).marks env s) :
    f.1 = Field.nextExpectedMsgSeqNum ∨ f.1 = Field.resetSeqNumFlag := by
  rcases List.mem_append.mp hf with hf | hf
  · split at hf
    next => exact .inl (by rw [List.mem_singleton.mp hf])
    next => cases hf
  · split at hf
    next => exact .inr (by rw [List.mem_singleton.mp hf])
    next => cases hf

/-- The mark of a logon is right behind the type. -/
theorem Sends.marked_front (h : (logon shouldReset).Sends env s m)
    (hmarked : (logon shouldReset).marks env s ≠ []) :
    ∃ f ∈ (logon shouldReset).marks env s, ∃ tags,
      m.header.plainKeys = Field.msgType :: f.1 :: tags := by
  rcases h.marked with ⟨_, _, _, heq⟩ | ⟨tags, hperm, hkeys⟩
  · cases heq
  obtain ⟨tag, tags, rfl⟩ : ∃ tag tags', tags = tag :: tags' := by
    refine List.exists_cons_of_ne_nil fun hnil => hmarked ?_
    rw [hnil] at hperm
    exact List.map_eq_nil_iff.mp hperm.nil_eq.symm
  obtain ⟨f, hf, rfl⟩ := List.mem_map.mp (hperm.subset (List.mem_cons_self ..))
  have hkept : (!isIgnoredTag f.1) = true := by
    rw [(ParseState.isPlainTag_iff.mp (isPlainTag_of_mem_marks hf)).2]
    rfl
  refine ⟨f, hf, (tags ++ stampedTags).filter (!isIgnoredTag ·), ?_⟩
  rw [FieldMap.plainKeys, hkeys, List.cons_append, List.cons_append,
    List.filter_cons_of_pos (by decide)]
  exact congrArg _ (List.filter_cons_of_pos hkept)

/-- The parser reads the first fields of the text. -/
theorem Sends.opening (h : call.Sends env s m) (hdict : env.dictionary.Administers settings)
    (htidy : call.Tidy env s) : ParseState.Opening settings env.dictionary
      env.settings.beginString (toChars (i32 m.bodyLength)) call.msgType := by
  have hbegin := beginString_mem_header env s call
  have hclean := (List.forall_mem_append.mp htidy.clean_header).1
  have hmsgType := hdict.header Field.msgType (by simp [stampTags])
  obtain ⟨spec, hlists⟩ := lists_fields hdict s call
  have hlength : m.bodyLength < 2147483648 := by
    have hlt := h.toSays.length_toString_lt hbegin (fun g hg => ?_) (fun g hg =>
      (hlists.fields _ (List.mem_map_of_mem hg)).1.plain) htidy.short_header
    · have hle := Message.bodyLength_le (h.toSays.field?_header hbegin)
      omega
    · rcases mem_header hg with rfl | hg | hg
      · exact .inr (hdict.header _ (by simp [stampTags])).plain
      · exact (mem_stamp hg).imp_right fun htag => (hdict.header _ htag).plain
      · exact .inr (isPlainTag_of_mem_marks hg)
  constructor
  case beginString =>
    rw [GroupSpec.takes, hdict.beginString, Dictionary.hasLength,
      decide_eq_true hdict.beginStringType, decide_eq_true (hclean _ hbegin)]
    rfl
  case bodyLength =>
    rw [Message.toChars_natCast hlength]
    exact Message.takes_natDigits hdict.bodyLength hlength
  case bodyLengthType => exact hdict.bodyLengthType
  case msgType =>
    rw [GroupSpec.takes, hmsgType.field, Dictionary.hasLength, decide_eq_true hmsgType.type,
      decide_eq_true (hclean _ (msgType_mem_header env s call))]
    rfl
  case msgTypeType => exact hdict.msgTypeType

/-- A logon with a mark is not read back: the header is left at the mark, in front of the
stamp. -/
theorem Sends.not_readBack (h : (logon shouldReset).Sends env s m)
    (hdict : env.dictionary.Administers settings) (htidy : (logon shouldReset).Tidy env s)
    (hmarked : (logon shouldReset).marks env s ≠ []) (parsed : Message) :
    ¬(logon shouldReset).ReadBack env settings s m parsed := by
  intro hread
  obtain ⟨f, hf, tags, hfront⟩ := h.marked_front hmarked
  have hmark : f ∈ (logon shouldReset).header env s := List.mem_append_right _ hf
  have hclean := (List.forall_mem_append.mp htidy.clean_header).1 f hmark
  obtain ⟨rest, htext⟩ := h.toSays.toString_front (beginString_mem_header env s _)
    (msgType_mem_header env s _) hfront hmark
  have hnone := (h.opening hdict htidy).leaves (hdict.header Field.msgType (by simp [stampTags])).type
    (isPlainTag_of_mem_marks hf) (hdict.notInHeader f.1 (by simpa using mem_logon_marks hf)) hclean
    htext hread.parse Field.msgSeqNum (by decide)
  have hnumbered := hread.numbered
  rw [FieldMap.has_eq, hnone] at hnumbered
  cases hnumbered

end

/-! ## Messages that are read back -/

theorem marks_logon_eq_nil_iff {shouldReset : Bool} : (logon shouldReset).marks env s = [] ↔
    env.settings.sendNextExpectedMsgSeqNum = false ∧ shouldReset = false := by
  rw [marks]
  cases env.settings.sendNextExpectedMsgSeqNum with
  | false => cases shouldReset with
    | false => simp
    | true => simp
  | true => simp

/-- What a call sends is read back if it is not distorted. -/
theorem Sends.undistorted_iff (h : call.Sends env s m)
    (hdict : env.dictionary.Administers settings) (htidy : call.Tidy env s) :
    (∃ parsed, call.ReadBack env settings s m parsed) ↔ call.Undistorted env s := by
  have hplain : call.marks env s = [] → call.number s = toChars (call.seqNum s) →
      ∃ parsed, call.ReadBack env settings s m parsed := fun hmarks hnumber =>
    (h.readBack_iff hdict htidy (by rw [hmarks]; exact fun _ hf => absurd hf List.not_mem_nil)).mpr
      hnumber
  cases call with
  | logon shouldReset =>
      by_cases hmarks : (logon shouldReset).marks env s = []
      · exact iff_of_true (hplain hmarks rfl) (marks_logon_eq_nil_iff.mp hmarks)
      · refine iff_of_false ?_ fun hnil => hmarks (marks_logon_eq_nil_iff.mpr hnil)
        rintro ⟨parsed, hread⟩
        exact h.not_readBack hdict htidy hmarks parsed hread
  | sequenceReset seqno newSeqno gapfill =>
      refine (h.readBack_iff hdict htidy fun f hf => hdict.marks f.1 ?_).trans number_eq_iff
      exact List.mem_map_of_mem (f := Prod.fst) hf
  | logout reason term => exact iff_of_true (hplain rfl rfl) True.intro
  | heartbeat testReqID => exact iff_of_true (hplain rfl rfl) True.intro
  | testRequest => exact iff_of_true (hplain rfl rfl) True.intro
  | resendRequest fromSeqNo toSeqNo => exact iff_of_true (hplain rfl rfl) True.intro
  | reject rejectedMsg reason text => exact iff_of_true (hplain rfl rfl) True.intro

/-- Everything that a call transmits is read back by the peer if and only if the call is a logon
without a mark, a SequenceReset with a number as long as that of the session, or another one. -/
theorem run_readBack_iff (hdict : env.dictionary.Administers settings)
    (hconn : s.network.connected = true) (htidy : call.Tidy env s) :
    (∀ m ∈ transmittedBetween s (after (call.run env) s),
      ∃ parsed, call.ReadBack env settings s m parsed) ↔ call.Undistorted env s := by
  have hends := run_sends hdict hconn call
  have hafter : (∃ m, Said s [m] (after (call.run env) s) ∧ call.Sends env s m) ∨
      (Said s [] (after (call.run env) s) ∧
        ∃ rejectedMsg reason text, call = reject rejectedMsg reason text) :=
    after_eq_of_ends (P := fun t => (∃ m, Said s [m] t ∧ call.Sends env s m) ∨ (Said s [] t ∧
      ∃ rejectedMsg reason text, call = reject rejectedMsg reason text))
      (hends.mono (fun _ _ h => .inl h) fun _ _ h => .inr h)
  rcases hafter with ⟨m, hsaid, hsends⟩ | ⟨hsaid, rejectedMsg, reason, text, rfl⟩
  · rw [hsaid.transmittedBetween]
    simp only [List.mem_singleton, forall_eq]
    exact hsends.undistorted_iff hdict htidy
  · rw [hsaid.transmittedBetween]
    exact iff_of_true (fun _ hm => absurd hm List.not_mem_nil) True.intro

/-! ## The sessions of the tests -/

theorem testDictionary_defines (settings : SessionSettings) {msgType : Bytes}
    {always sometimes : List Int} {spec : GroupSpec}
    (hspec : testDictionary.getMessageSpecRaw msgType = some spec)
    (htags : (always ++ sometimes).all (fun tag => isPlainTag tag && spec.hasField tag &&
      decide (testDictionary.getFieldType tag ≠ .length) &&
      refusedBy [testDictionary.headerSpec] tag) = true)
    (hrequired : spec.fields.all (fun field => !field.2 || decide (field.1 ∈ always)) = true)
    (hbehind : refusedBy [spec] Field.checkSum = true) :
    testDictionary.Defines settings msgType always sometimes := by
  have hplain : ∀ tag ∈ always ++ sometimes, testDictionary.Plain spec tag ∧
      refusedBy [testDictionary.headerSpec] tag = true := by
    intro tag htag
    have h := List.all_eq_true.mp htags tag htag
    simp only [Bool.and_eq_true, decide_eq_true_eq] at h
    exact ⟨⟨h.1.1.1, h.1.1.2, h.1.2⟩, h.2⟩
  refine ⟨spec, ⟨hspec, fun tag htag => hplain tag (List.mem_append_left _ htag),
    fun _ field hfield hreq => ?_, hbehind⟩,
    fun tag htag => hplain tag (List.mem_append_right _ htag)⟩
  have h := List.all_eq_true.mp hrequired field hfield
  rw [hreq] at h
  exact of_decide_eq_true h

theorem testDictionary_administers (settings : SessionSettings) :
    testDictionary.Administers settings where
  toStandard := testDictionary_standard settings
  marks tag htag := by
    simp only [List.mem_cons, List.not_mem_nil, or_false] at htag
    rcases htag with rfl | rfl
    all_goals exact ⟨by decide, by decide, by decide⟩
  ordered := rfl
  order := ⟨_, rfl, by decide, by decide⟩
  notInHeader := by decide
  logon := testDictionary_defines settings rfl (by decide) (by decide) (by decide)
  logout := testDictionary_defines settings rfl (by decide) (by decide) (by decide)
  heartbeat := testDictionary_defines settings rfl (by decide) (by decide) (by decide)
  testRequest := testDictionary_defines settings rfl (by decide) (by decide) (by decide)
  resendRequest := testDictionary_defines settings rfl (by decide) (by decide) (by decide)
  reject := testDictionary_defines settings rfl (by decide) (by decide) (by decide)
  sequenceReset := testDictionary_defines settings rfl (by decide) (by decide) (by decide)

/-- A session of the tests that is about to send its twelfth message. -/
def twelfthSession (settings : SessionSettings) : Session :=
  { connectedSession settings with
    cache := { (connectedSession settings).cache with senderSeqNum := 12 } }

/-- A SequenceReset of two digits is read back, in the place of a number of two digits. -/
theorem run_readBack_iff_test :
    let s := twelfthSession acceptorSettings
    ∀ m ∈ transmittedBetween s
        (after ((sequenceReset 10 12 true).run (testEnv acceptorSettings)) s),
      ∃ parsed, (sequenceReset 10 12 true).ReadBack (testEnv acceptorSettings) initiatorSettings s
        m parsed :=
  (run_readBack_iff (testDictionary_administers _) rfl
    ⟨by decide, by decide +kernel, by decide +kernel⟩).mpr
      (show (toChars 10).length = (toChars 12).length by decide)

/-- The parser reads another number from the text of the message. -/
theorem exists_not_readBack (number : Option Bytes) {text : Bytes}
    (htext : (transmittedBetween s (after (call.run env) s)).map (·.toString true) = [text])
    (hne : number ≠ some (toChars (call.seqNum s)))
    (hnumber : (env.dictionary.parse settings text).map (·.header.field? Field.msgSeqNum) =
      .ok number) :
    ∃ m ∈ transmittedBetween s (after (call.run env) s), m.toString true = text ∧
      ∀ parsed, ¬call.ReadBack env settings s m parsed := by
  obtain ⟨m, hm, hmtext⟩ := List.map_eq_singleton_iff.mp htext
  refine ⟨m, hm ▸ List.mem_singleton_self m, hmtext, fun parsed hread => hne ?_⟩
  have hparse := hread.parse
  rw [hmtext] at hparse
  rw [hparse] at hnumber
  have hheader := hread.header (Field.msgSeqNum, toChars (call.seqNum s)) (by
    simp [stamp, stampedFields, stampFields])
  exact (Except.ok.inj hnumber).symm.trans hheader

/-- With the default settings the header of a logon is left at NextExpectedMsgSeqNum, and a
SequenceReset with the number 5 is sent with a zero behind that when the session is at 12. -/
theorem run_not_readBack :
    (∃ m ∈ transmittedBetween (connectedSession expectingSettings)
        (after ((logon false).run (testEnv expectingSettings))
          (connectedSession expectingSettings)),
      m.toString true = wireOf ("8=FIX.4.2|9=77|35=A|789=1|49=ACCEPTOR|56=INITIATOR|" ++
        "52=20240229-12:34:56.789|34=1|108=1|98=0|10=253|") ∧
      ∀ parsed, ¬(logon false).ReadBack (testEnv expectingSettings) initiatorSettings
        (connectedSession expectingSettings) m parsed) ∧
    ∃ m ∈ transmittedBetween (twelfthSession acceptorSettings)
        (after ((sequenceReset 5 9 true).run (testEnv acceptorSettings))
          (twelfthSession acceptorSettings)),
      m.toString true = wireOf ("8=FIX.4.2|9=103|35=4|43=Y|122=20240229-12:34:56.789|" ++
        "49=ACCEPTOR|56=INITIATOR|52=20240229-12:34:56.789|34=5\x00|36=9|123=Y|10=059|") ∧
      ∀ parsed, ¬(sequenceReset 5 9 true).ReadBack (testEnv acceptorSettings) initiatorSettings
        (twelfthSession acceptorSettings) m parsed :=
  ⟨exists_not_readBack none (by decide +kernel) (by decide) (by decide +kernel),
    exists_not_readBack (some [53, 0]) (by decide +kernel) (by decide)
      (by decide +kernel)⟩

end Session.AdminCall

end OpenFix
