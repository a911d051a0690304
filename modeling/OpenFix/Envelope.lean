import OpenFix.Simd
import OpenFix.Offsets
import OpenFix.Views

/-!
# The envelope of an accepted text

A text that is accepted in strict mode should be framed by its first two fields and its
last one: `9=` counts the bytes up to the checksum, and `10=` is the checksum of all bytes
in front of it.  The checks at the end do not look at the text for that.  They take the
body length from the header of the message that was built, its start from the last `9=`
field that was filed anywhere, and they read numbers and not what stands for them.

So a text with another `9=` field in its body is accepted by the length behind that one.
A text is also accepted with tags or a length that are written in an unusual way, such as
`08=` or a length with leading zeros.  A text that does neither is framed, and with the
dictionaries that have the fields of the frame where they belong no other text is.
-/

namespace OpenFix

open Loop

/-- The last field of a text, which takes seven bytes. -/
def closing (checksum : Bytes) : Bytes := ascii "10=" ++ checksum ++ [internalSohChar]

/-- The text is framed.  Its first field has the value `v`, its second one counts the bytes of
`w`, and its last one is the checksum of all bytes in front of it. -/
def Enveloped (text : Bytes) : Prop :=
  ∃ v w, internalSohChar ∉ v ∧ ascii "35=" <+: w ∧
    text = opening v (natDigits w.length) ++ w ++
      closing (formatChecksum (UInt8.ofNat (byteSum (opening v (natDigits w.length) ++ w) % 256)))

/-- The dictionary has the checksum in the trailer and not as a data field, and no groups there. -/
structure Dictionary.FilesCheckSum (dict : Dictionary) : Prop where
  checkSum : dict.trailerSpec.hasField Field.checkSum = true
  checkSumType : dict.getFieldType Field.checkSum ≠ .data
  groups : dict.trailerSpec.groups = []

/-- How often the tag is in the text. -/
def Dictionary.countTag (dict : Dictionary) (text : Bytes) (tag : Int) : Nat :=
  ((dict.fieldsOf text).map Prod.fst).count tag

/-- The frame of the text is written in the usual way, and no other field of the text has the tag
of the body length.  The fields that have the tag of the checksum have one value, unless the
trailer refuses another one. -/
structure PlainEnvelope (dict : Dictionary) (text : Bytes) : Prop where
  opens : ∃ v n rest, Opens dict v (natDigits n) ∧
    text = opening v (natDigits n) ++ (ascii "35=" ++ rest)
  closes : ∃ front checksum, checksum.length = 3 ∧ text = front ++ closing checksum
  bodyLength : dict.countTag text Field.bodyLength = 1
  checkSum : dict.FilesCheckSum ∨ ∀ value value', (Field.checkSum, value) ∈ dict.fieldsOf text →
    (Field.checkSum, value') ∈ dict.fieldsOf text → value = value'
  short : text.length < 18446744073709551616

section

variable {settings : SessionSettings} {dict : Dictionary} {size : Nat}

/-! ## What a round reads -/

/-- A round of a strict parse reads the field at the front, and stores no other one. -/
structure Reads (dict : Dictionary) (p p' : Bytes × ParseState) (f : Int × Bytes) : Prop where
  coming : coming dict p = {f} + coming dict p'
  tag : p'.2.tag = f.1
  stores : ∀ Q : Int × View → Prop, Q (f.1, .text f.2) → p.2.msg.Stores Q → p'.2.msg.Stores Q
  split : ∃ tagText rest, splitByte tagAssignmentChar p.1 = some (tagText, rest) ∧
    fastParseTag tagText = f.1 ∧ p'.1 <:+ rest ∧
      (p'.1 = [] → ∃ tail : Bytes, tail.length ≤ 1 ∧ rest = f.2 ++ tail)

namespace ParseState

variable {f : WireField} {st st' : ParseState}

theorem tag_of_dispatchField (h : dispatchField settings dict f st = .ok st') :
    st'.tag = st.tag := by
  have hclose : ∀ (keep : Nat) (st : ParseState), (st.closeTo settings keep).tag = st.tag := by
    intro keep st
    obtain ⟨msg, hmsg⟩ := @exists_closeTo settings keep st
    rw [hmsg]
  have hnote : ∀ st : ParseState, (st.noteBodyLength f).tag = st.tag := by
    intro st
    rw [noteBodyLength]
    split
    · rfl
    · rfl
  have htrailed : ∀ {st st' : ParseState}, Trailed settings dict f st st' → st'.tag = st.tag := by
    intro st st' h
    cases h with
    | unknown _ => exact hnote _
    | trailer _ hoffer _ _ =>
        rw [hclose]
        exact hoffer.frame.2.2.1
  cases (yields_dispatchField f st).of_ok h with
  | taken _ hoffer _ =>
      rw [hclose]
      exact hoffer.frame.2.2.1
  | passed hpassed =>
      cases hpassed with
      | trailed _ h => exact htrailed h
      | taken _ _ hoffer _ => exact hoffer.frame.2.2.1.trans (hclose 0 st)
      | passed _ _ _ _ h => exact (htrailed h).trans (hclose 0 st)

end ParseState

theorem exists_reads (hstrict : settings.relaxedParsing = false) {p p' : Bytes × ParseState}
    (h : parseRound settings dict size p = .ok (.inl p')) : ∃ f, Reads dict p p' f := by
  obtain ⟨text, st⟩ := p
  obtain ⟨next, st'⟩ := p'
  cases parseRound_next h with
  | skipped hrelaxed _ _ =>
      rw [hstrict] at hrelaxed
      cases hrelaxed
  | @data tagText rest len top htag hlen htype _ _ =>
      refine ⟨(fastParseTag tagText, rest.take len), coming_data htag.split hlen htype rfl, rfl, ?_,
        tagText, rest, htag.split, rfl, List.drop_suffix _ _, fun hnil => ?_⟩
      · intro Q hq hst
        exact @ParseState.stores_setFieldView Q (st.started _) hst _ _ hq _
      · have hshort := List.drop_eq_nil_iff.mp hnil
        refine ⟨rest.drop len, ?_, (List.take_append_drop len rest).symm⟩
        rw [List.length_drop]
        omega
  | @filed _ f _ hdispatches hdispatch =>
      have hlen : st'.dataLength = ParseState.announced dict f := by
        rw [ParseState.dataLength_of_dispatchField hdispatch]
        exact Option.or_none
      refine ⟨(f.tag, f.val), coming_field hdispatches hlen,
        ParseState.tag_of_dispatchField hdispatch, ?_, ?_⟩
      · intro Q hq hst
        exact ((ParseState.yields_dispatchField _ _).of_ok hdispatch).stores hst hq
      · cases hdispatches with
        | @intro tagText rest val _ htag _ hval =>
            refine ⟨tagText, rest, htag.split, rfl, suffix_of_splitByte hval, fun hnil => ?_⟩
            refine ⟨[internalSohChar], Nat.le_refl 1, ?_⟩
            dsimp only at hnil ⊢
            rw [(splitByte_eq hval).1, hnil]

/-! ## The fields that are stored -/

/-- A parse leaves a part of its text. -/
theorem suffix_of_reaches (hstrict : settings.relaxedParsing = false) {p p' : Bytes × ParseState}
    (h : Reaches (parseRound settings dict size) p p') : p'.1 <:+ p.1 := by
  refine h.invariant (P := fun q => q.1 <:+ p.1) (List.suffix_refl _) fun q q' hround hq => ?_
  obtain ⟨f, hreads⟩ := exists_reads hstrict hround
  obtain ⟨tagText, rest, hsplit, -, hnext, -⟩ := hreads.split
  exact hnext.trans ((suffix_of_splitByte hsplit).trans hq)

/-- The value is that of a field of the text. -/
def View.IsField (dict : Dictionary) (text : Bytes) (p : Int × View) : Prop :=
  ∃ value, p.2 = .text value ∧ (p.1, value) ∈ dict.fieldsOf text

/-- A parse reads the fields of its text, and stores no others. -/
theorem isField_of_reaches (hstrict : settings.relaxedParsing = false) {text : Bytes}
    {p : Bytes × ParseState} (h : Reaches (parseRound settings dict size) (text, .init dict) p) :
    (∀ f ∈ coming dict p, f ∈ dict.fieldsOf text) ∧
      p.2.msg.Stores (View.IsField dict text) := by
  let P : Bytes × ParseState → Prop := fun q => (∀ f ∈ coming dict q, f ∈ dict.fieldsOf text) ∧
    q.2.msg.Stores (View.IsField dict text)
  have hrun : P p := by
    refine h.invariant ⟨fun f hf => hf, Message.stores_new⟩ fun q q' hround hq => ?_
    obtain ⟨f, hreads⟩ := exists_reads hstrict hround
    have hcoming := hreads.coming ▸ hq.1
    refine ⟨fun f' hf' => hcoming f' (Multiset.mem_add.mpr (.inr hf')), ?_⟩
    have hf := hcoming f (Multiset.mem_add.mpr (.inl (Multiset.mem_singleton_self f)))
    exact hreads.stores _ ⟨f.2, rfl, hf⟩ hq.2
  exact hrun

theorem mem_fieldsOf_of_field? {text : Bytes} {m : FieldMap}
    (hm : ∀ p ∈ m.fields, View.IsField dict text p) {tag : Int} {value : Bytes}
    (h : m.field? tag = some value) : (tag, value) ∈ dict.fieldsOf text := by
  obtain ⟨view, hfind, hread⟩ := Option.map_eq_some_iff.mp h
  obtain ⟨value', hview, hmem⟩ := hm _ (AssocList.mem_of_find? hfind)
  dsimp only at hview hmem
  rw [hview] at hread
  exact hread ▸ hmem

/-- A tag that is in the text once has one value. -/
theorem eq_of_countTag {text : Bytes} {tag : Int} {value value' : Bytes}
    (hcount : dict.countTag text tag = 1) (h : (tag, value) ∈ dict.fieldsOf text)
    (h' : (tag, value') ∈ dict.fieldsOf text) : value = value' := by
  rw [Dictionary.countTag, List.count_eq_countP, List.countP_map, List.countP_eq_length_filter]
    at hcount
  obtain ⟨f, hf⟩ := List.length_eq_one_iff.mp hcount
  have hsole : ∀ value, (tag, value) ∈ dict.fieldsOf text → (tag, value) = f := by
    intro value hmem
    refine List.mem_singleton.mp (hf ▸ List.mem_filter.mpr ⟨hmem, ?_⟩)
    exact beq_self_eq_true tag
  exact congrArg Prod.snd ((hsole value h).trans (hsole value' h').symm)

/-! ## The checksum in the trailer -/

theorem trailer_modify {msg : Message} {ref : GroupRef} (f : FieldMap → FieldMap)
    (h : ref.sec ≠ .trailer) : (msg.modify f ref).trailer = msg.trailer :=
  Message.sectionMap_modifySection_ne h.symm msg _

namespace ParseState

variable {f : WireField} {st st' : ParseState}

theorem trailer_foldl_finish (popped : List ParserGroupInfo) (st : ParseState)
    (h : ∀ g ∈ popped, g.group.sec ≠ .trailer) :
    (popped.foldl (finish settings) st).msg.trailer = st.msg.trailer := by
  induction popped generalizing st with
  | nil => rfl
  | cons g popped ih =>
      rw [List.foldl_cons, ih _ fun g' hg' => h g' (List.mem_cons_of_mem _ hg')]
      exact trailer_modify _ (h g List.mem_cons_self)

/-- The field is appended to the trailer. -/
structure Appended (dict : Dictionary) (f : WireField) (st st' : ParseState) : Prop where
  field : dict.trailerSpec.hasField f.tag = true
  new : (st.msg.trailer.setFieldViewOrDetectDup f.tag f.val).1 = false
  trailer : st'.msg.trailer = (st.msg.trailer.setFieldViewOrDetectDup f.tag f.val).2

theorem trailer_addField (st : ParseState) (f : WireField) :
    (st.addField dict (trailerInfo dict) f).msg.trailer =
      (st.msg.trailer.setFieldViewOrDetectDup f.tag f.val).2 := by
  rw [show (st.addField dict (trailerInfo dict) f).msg = _ from
    congrArg Build.msg (build_addField st (trailerInfo dict) f)]
  rfl

/-- The first field of the trailer closes all other entries. -/
theorem Trailed.enters (hdict : dict.FilesCheckSum) (h : Trailed settings dict f st st')
    (hbefore : st.msgState ≠ .trailer) (hstack : ∀ g ∈ st.stack, g.group.sec ≠ .trailer)
    (hstate : st'.msgState = .trailer) :
    st'.stack = [trailerInfo dict] ∧ Appended dict f st st' := by
  cases h with
  | @unknown top _ =>
      have hsame : (st.addUnknown dict top f).msgState = st.msgState :=
        congrArg Build.state (build_noteBodyLength (st.announce dict f) f)
      exact absurd (hsame.symm.trans hstate) hbefore
  | @trailer r idx bottom _ hoffer hidx hbottom =>
      cases hoffer with
      | refused _ _ => cases hidx
      | next _ hparent _ _ _ => cases hparent
      | opened hspec _ hgroup _ _ =>
          cases hspec
          rw [GroupSpec.findGroup, hdict.groups] at hgroup
          cases hgroup
      | added hspec hfield hnew =>
          cases hspec
          cases hidx
          have hcount : ([] ++ replaceBottom st.stack (trailerInfo dict)).length - (0 + 1) =
              st.stack.dropLast.length := by
            rw [List.nil_append, replaceBottom, List.length_append]
            exact Nat.add_sub_cancel _ _
          refine ⟨?_, hfield, hnew, ?_⟩
          · show List.drop (([] ++ replaceBottom st.stack (trailerInfo dict)).length - (0 + 1))
              ([] ++ replaceBottom st.stack (trailerInfo dict)) = _
            rw [hcount, List.nil_append, replaceBottom, List.drop_left]
          · refine (trailer_foldl_finish _ _ fun g hg => ?_).trans ?_
            · dsimp only at hg
              rw [hcount, List.nil_append, replaceBottom, List.take_left] at hg
              exact hstack g ((List.dropLast_sublist _).subset hg)
            · refine (trailer_modify _ (hstack bottom (List.mem_of_getLast? hbottom))).trans ?_
              exact trailer_addField st f

/-! ## Messages that come to their trailer -/

/-- In the trailer there is one entry, and the map has the checksum only if it is marked. -/
structure InTrailer (dict : Dictionary) (st : ParseState) : Prop where
  stack : st.stack = [trailerInfo dict]
  marked : st.msg.trailer.has Field.checkSum = true → Field.checkSum ∈ st.msg.trailer.seen

theorem sec_ne_of_staged (hst : Staged st.build) (hstate : st.msgState ≠ .trailer) :
    ∀ g ∈ st.stack, g.group.sec ≠ .trailer := by
  intro g hg hsec
  refine hst.entries g hg ?_
  show Ahead st.msgState g.group.sec
  rw [hsec]
  cases hmsg : st.msgState with
  | header => exact True.intro
  | body => exact True.intro
  | trailer => exact absurd hmsg hstate

/-- A field that leaves the parser in the trailer is appended to it, or the trailer does not have
the field, and it is assigned. -/
theorem trailer_of_dispatchField (hdict : dict.FilesCheckSum)
    (hstrict : settings.relaxedParsing = false) (hstaged : Staged st.build)
    (hst : st.msgState = .trailer → InTrailer dict st)
    (h : dispatchField settings dict f st = .ok st') (hstate : st'.msgState = .trailer) :
    st'.stack = [trailerInfo dict] ∧ (Appended dict f st st' ∨
      st.msgState = .trailer ∧ dict.trailerSpec.hasField f.tag = false ∧
        st'.msg.trailer = st.msg.trailer.setFieldView f.tag f.val false) := by
  by_cases hin : st.msgState = .trailer
  · have hstack := (hst hin).stack
    cases hfield : dict.trailerSpec.hasField f.tag with
    | true =>
        obtain ⟨rfl, hnew⟩ :=
          addField_of_dispatchField hstrict hstack rfl hfield (Int.lt_irrefl 0) h
        refine ⟨?_, .inl ⟨hfield, hnew, trailer_addField st f⟩⟩
        exact (congrArg Build.entries (build_addField st (trailerInfo dict) f)).trans hstack
    | false =>
        cases (yields_dispatchField f st).of_ok h with
        | @taken before below g r idx hsplit hoffer hidx =>
            -- The one entry is that of the trailer, which has no such field and no groups.
            have hg : g = trailerInfo dict := by
              have hmem : g ∈ st.stack := by
                rw [hsplit]
                exact List.mem_append_right _ List.mem_cons_self
              rw [hstack] at hmem
              exact List.mem_singleton.mp hmem
            subst hg
            cases hoffer with
            | refused _ _ => cases hidx
            | added hspec hfield' _ =>
                cases hspec
                rw [hfield] at hfield'
                cases hfield'
            | opened hspec _ hgroup _ _ =>
                cases hspec
                rw [GroupSpec.findGroup, hdict.groups] at hgroup
                cases hgroup
            | next _ _ htag _ _ => exact absurd htag (Int.lt_irrefl 0)
        | passed hpassed =>
            cases hpassed with
            | taken hheader _ _ _ => rw [hin] at hheader; cases hheader
            | passed hheader _ _ _ _ => rw [hin] at hheader; cases hheader
            | trailed _ htrailed =>
                cases htrailed with
                | trailer hbody _ _ _ => rw [hin] at hbody; cases hbody
                | unknown htop =>
                    rw [hstack] at htop
                    cases htop
                    have hbuild := build_noteBodyLength (st.announce dict f) f
                    refine ⟨(congrArg Build.entries hbuild).trans hstack, .inr ⟨hin, rfl, ?_⟩⟩
                    show (((st.announce dict f).noteBodyLength f).msg.modify _ _).trailer = _
                    rw [msg_noteBodyLength]
                    rfl
  · have hsec := sec_ne_of_staged hstaged hin
    cases (yields_dispatchField f st).of_ok h with
    | @taken before below g r idx _ hoffer _ =>
        obtain ⟨msg, hmsg⟩ := @exists_closeTo settings (idx + 1)
          { r.st with stack := r.pushed ++ before ++ r.group :: below }
        rw [hmsg] at hstate
        exact absurd (hoffer.frame.2.1.symm.trans hstate) hin
    | passed hpassed =>
        cases hpassed with
        | trailed _ htrailed =>
            have henters := htrailed.enters hdict hin hsec hstate
            exact ⟨henters.1, .inl henters.2⟩
        | taken _ _ hoffer _ =>
            have hbody : MessageState.body = .trailer := hoffer.frame.2.1.symm.trans hstate
            cases hbody
        | @passed bodySpec _ _ _ _ _ htrailed =>
            have hbodySec : ∀ g ∈ (st.toBody settings bodySpec).stack, g.group.sec ≠ .trailer := by
              intro g hg
              rw [List.mem_singleton.mp hg]
              exact MessageSection.noConfusion
            obtain ⟨hstack, happended⟩ :=
              htrailed.enters hdict MessageState.noConfusion hbodySec hstate
            have hsame : (st.toBody settings bodySpec).msg.trailer = st.msg.trailer :=
              trailer_foldl_finish _ st fun g hg => hsec g (List.mem_of_mem_take hg)
            refine ⟨hstack, .inl ⟨happended.field, ?_, ?_⟩⟩
            · rw [← hsame]
              exact happended.new
            · rw [← hsame]
              exact happended.trailer

/-- The trailer has the checksum only if it is marked. -/
theorem marked_of_staged (hstaged : Staged st.build)
    (hst : st.msgState = .trailer → InTrailer dict st)
    (hhas : st.msg.trailer.has Field.checkSum = true) : Field.checkSum ∈ st.msg.trailer.seen := by
  by_cases hin : st.msgState = .trailer
  · exact (hst hin).marked hhas
  · have hahead : Ahead st.msgState .trailer := by
      cases hstate : st.msgState with
      | header => exact True.intro
      | body => exact True.intro
      | trailer => exact absurd hstate hin
    have hfields : st.msg.trailer.fields = [] :=
      congrArg Node.fields (hstaged.empty ⟨.trailer, []⟩ hahead)
    rw [FieldMap.has, hfields] at hhas
    cases hhas

end ParseState

namespace FieldMap

variable {m : FieldMap} {tag : Int} {value : Bytes}

theorem dup_of_mem_seen (hrange : 0 ≤ tag ∧ tag < 1024) (h : tag ∈ m.seen) (value : Bytes) :
    (m.setFieldViewOrDetectDup tag value).1 = true := by
  rw [setFieldViewOrDetectDup, if_pos hrange, if_pos h]

theorem mem_seen_of_append (hrange : 0 ≤ tag ∧ tag < 1024)
    (h : (m.setFieldViewOrDetectDup tag value).1 = false) :
    tag ∈ (m.setFieldViewOrDetectDup tag value).2.seen := by
  rw [setFieldViewOrDetectDup, if_pos hrange] at h ⊢
  split at h
  next => cases h
  next hseen =>
    rw [if_neg hseen]
    exact List.mem_cons_self

theorem has_append {tag' : Int} (h : (m.setFieldViewOrDetectDup tag' value).1 = false)
    (hne : tag ≠ tag') (hhas : (m.setFieldViewOrDetectDup tag' value).2.has tag = true) :
    m.has tag = true := by
  rw [has, (fields_append h).1, AssocList.find?_append, AssocList.find?_cons_ne hne.symm,
    AssocList.find?_nil, Option.or_none] at hhas
  exact hhas

theorem has_assign {tag' : Int} (hne : tag ≠ tag')
    (hhas : (m.setFieldView tag' value false).has tag = true) : m.has tag = true := by
  rw [fields_setFieldView, has] at hhas
  rw [has]
  rwa [AssocList.find?_set_ne hne] at hhas

end FieldMap

/-! ## The last field -/

/-- A round keeps the trailer in order. -/
theorem inTrailer_parseRound (hdict : dict.FilesCheckSum)
    (hstrict : settings.relaxedParsing = false) {text next : Bytes} {st st' : ParseState}
    (hstaged : Staged st.build)
    (hst : st.msgState = .trailer → ParseState.InTrailer dict st)
    (h : parseRound settings dict size (text, st) = .ok (.inl (next, st'))) :
    st'.msgState = .trailer → ParseState.InTrailer dict st' := by
  intro hstate
  cases parseRound_next h with
  | skipped hrelaxed _ _ =>
      rw [hstrict] at hrelaxed
      cases hrelaxed
  | @data tagText rest len top _ _ htype _ htop =>
      have hin := hst hstate
      rw [hin.stack] at htop
      cases htop
      have hne : Field.checkSum ≠ fastParseTag tagText :=
        fun heq => hdict.checkSumType (heq ▸ htype)
      refine ⟨hin.stack, fun hhas => ?_⟩
      have hseen := hin.marked (FieldMap.has_assign hne hhas)
      rwa [← st.msg.trailer.seen_setFieldView (fastParseTag tagText) (rest.take len)] at hseen
  | @filed _ f _ _ hdispatch =>
      have hmarked := ParseState.marked_of_staged hstaged hst
      have hstarted : Staged (st.started f.tag).build := hstaged
      obtain ⟨hstack, happended | ⟨-, hnot, htrailer⟩⟩ :=
        ParseState.trailer_of_dispatchField hdict hstrict hstarted
          (fun hin => ⟨(hst hin).stack, (hst hin).marked⟩) hdispatch hstate
      · refine ⟨hstack, fun hhas => ?_⟩
        rw [happended.trailer] at hhas ⊢
        by_cases htag : f.tag = Field.checkSum
        · have hnew := happended.new
          rw [htag] at hnew ⊢
          exact FieldMap.mem_seen_of_append (by decide) hnew
        · have hseen := hmarked (FieldMap.has_append happended.new (Ne.symm htag) hhas)
          exact (FieldMap.seen_detectDup _ _ _).1 hseen
      · refine ⟨hstack, fun hhas => ?_⟩
        have hne : Field.checkSum ≠ f.tag := by
          intro htag
          rw [← htag, hdict.checkSum] at hnot
          cases hnot
        rw [htrailer] at hhas ⊢
        rw [FieldMap.seen_setFieldView]
        exact hmarked (FieldMap.has_assign hne hhas)

/-- The last field is the checksum in the trailer. -/
theorem checkSum_of_last (hdict : dict.FilesCheckSum) (hstrict : settings.relaxedParsing = false)
    {text : Bytes} {st st' : ParseState} (hstaged : Staged st.build)
    (hst : st.msgState = .trailer → ParseState.InTrailer dict st)
    (h : parseRound settings dict size (text, st) = .ok (.inl ([], st')))
    (hstate : st'.msgState = .trailer) (htag : st'.tag = Field.checkSum) :
    ∃ tagText checksum,
      splitByte tagAssignmentChar text = some (tagText, checksum ++ [internalSohChar]) ∧
      fastParseTag tagText = Field.checkSum ∧
      AssocList.find? Field.checkSum st'.msg.trailer.fields = some (.text checksum) := by
  obtain ⟨next, hnext⟩ : ∃ next : Bytes, next = [] := ⟨[], rfl⟩
  rw [← hnext] at h
  cases parseRound_next h with
  | skipped hrelaxed _ _ =>
      rw [hstrict] at hrelaxed
      cases hrelaxed
  | data _ _ htype _ _ => exact absurd (htag ▸ htype) hdict.checkSumType
  | @filed _ f _ hdispatches hdispatch =>
      subst hnext
      have hfield : f.tag = Field.checkSum :=
        (ParseState.tag_of_dispatchField hdispatch).symm.trans htag
      have hstarted : Staged (st.started f.tag).build := hstaged
      obtain ⟨-, happended | ⟨-, hnot, -⟩⟩ :=
        ParseState.trailer_of_dispatchField hdict hstrict hstarted
          (fun hin => ⟨(hst hin).stack, (hst hin).marked⟩) hdispatch hstate
      · cases hdispatches with
        | @intro tagText rest val _ htagged _ hval =>
            refine ⟨tagText, val, ?_, hfield, ?_⟩
            · rw [htagged.split, (splitByte_eq hval).1]
            · have hnew := happended.new
              rw [hfield] at hnew
              have hnone : AssocList.find? Field.checkSum st.msg.trailer.fields = none := by
                rw [← Option.not_isSome_iff_eq_none]
                intro hhas
                have hseen := ParseState.marked_of_staged hstaged hst hhas
                cases (FieldMap.dup_of_mem_seen (by decide) hseen val).symm.trans hnew
              rw [happended.trailer, hfield, (FieldMap.fields_append hnew).1,
                AssocList.find?_append]
              show (AssocList.find? Field.checkSum st.msg.trailer.fields).or _ = _
              rw [hnone, AssocList.find?_cons_self]
              rfl
      · rw [hfield, hdict.checkSum] at hnot
        cases hnot

/-! ## The checks at the end -/

theorem find?_finish (g : ParserGroupInfo) (st : ParseState) (ref : GroupRef) (tag : Int) :
    AssocList.find? tag ((st.finish settings g).msg.node ref).fields =
      AssocList.find? tag (st.msg.node ref).fields := by
  rcases Message.node_modify_cases (FieldMap.keepsInstances_of_groups
    (FieldMap.groups_finishMap settings g.spec)) st.msg ref g.group with ⟨-, -, hnode⟩ | hnode
  · exact (congrArg (fun n => AssocList.find? tag (Node.fields n)) hnode).trans
      (FieldMap.find?_finishMap settings g.spec _ _)
  · exact congrArg (fun n => AssocList.find? tag (Node.fields n)) hnode

/-- To close entries keeps what the maps have. -/
theorem find?_closeTo (keep : Nat) (st : ParseState) (ref : GroupRef) (tag : Int) :
    AssocList.find? tag ((st.closeTo settings keep).msg.node ref).fields =
      AssocList.find? tag (st.msg.node ref).fields := by
  have hfold : ∀ (popped : List ParserGroupInfo) (st : ParseState),
      AssocList.find? tag ((popped.foldl (ParseState.finish settings) st).msg.node ref).fields =
        AssocList.find? tag (st.msg.node ref).fields := by
    intro popped
    induction popped with
    | nil => exact fun st => rfl
    | cons g popped ih => exact fun st => (ih _).trans (find?_finish g st ref tag)
  exact hfold _ st

theorem FieldMap.field?_of_text {m : FieldMap} {tag : Int} {value : Bytes}
    (h : AssocList.find? tag m.fields = some (.text value)) : m.field? tag = some value := by
  rw [field?, h]
  rfl

/-- What an accepted text was checked for. -/
theorem checked_of_parse (hstrict : settings.relaxedParsing = false) {text : Bytes} {msg : Message}
    (h : dict.parse settings text = .ok msg) :
    ∃ st, Reaches (parseRound settings dict text.length) (text, .init dict) ([], st) ∧
      st.msgState = .trailer ∧ Checked text (st.closeTo settings 0) := by
  obtain ⟨st, hloop, -, -, hchecked⟩ := parse_ok h
  obtain ⟨⟨text', st'⟩, hreaches, hround⟩ :=
    ((ends_parseLoop _ text (.init dict) (le_refl _)).eq_iff _).mp hloop
  rcases parseRound_done hround with ⟨rfl, rfl⟩ | ⟨hrelaxed, -⟩
  · obtain ⟨hstate, hchecked⟩ := hchecked.resolve_left fun hrelaxed => by
      rw [hstrict] at hrelaxed
      cases hrelaxed
    obtain ⟨msg, hmsg⟩ := @ParseState.exists_closeTo settings 0 st
    rw [hmsg] at hstate
    exact ⟨st, hreaches, hstate, hchecked⟩
  · rw [hstrict] at hrelaxed
    cases hrelaxed

/-- The second field counts from its own end, if no other field has its tag. -/
theorem bodyLength_of_countTag (hstrict : settings.relaxedParsing = false)
    {v length text rest : Bytes} (hopens : Opens dict v length)
    (htext : text = opening v length ++ rest)
    (hcount : dict.countTag text Field.bodyLength = 1) {msg : Message}
    (h : dict.parse settings text = .ok msg) :
    fromCharsULong length = some (expectedBodyLength text.length (text.length - rest.length)) := by
  obtain ⟨st, hreaches, -, hchecked⟩ := checked_of_parse hstrict h
  obtain ⟨st₂, -, hlast, hfront⟩ := exists_front hstrict hopens htext hreaches rfl
  have hnone : lengthsComing dict (rest, st₂) = 0 := Nat.succ.inj (hfront.count.symm.trans hcount)
  have hstart := start_of_reaches hstrict hlast hnone
  obtain ⟨bodyLength, hfield, hnumber⟩ := hchecked.bodyLength
  have hstores : (st.closeTo settings 0).msg.Stores (View.IsField dict text) :=
    ParseState.stores_closeTo (isField_of_reaches hstrict hreaches).2 0
  have hmem := mem_fieldsOf_of_field? (hstores ⟨.header, []⟩) hfield
  rw [eq_of_countTag hcount hfront.mem_fieldsOf hmem, ← hfront.start, ← hstart]
  exact (@ParseState.bodyLengthStart_closeTo settings 0 st) ▸ hnumber

/-- What the check of the body length says of the second field of an accepted text. -/
theorem bodyLength_of_parse (hdict : dict.FilesBodyLength)
    (hstrict : settings.relaxedParsing = false) {v length text rest : Bytes}
    (hopens : Opens dict v length) (htext : text = opening v length ++ rest)
    (hsize : text.length < 2147483648) {msg : Message}
    (h : dict.parse settings text = .ok msg) :
    ∃ n start, dict.countTag text Field.bodyLength = n + 1 ∧
      fromCharsULong length = some (expectedBodyLength text.length start) ∧
      ((start = text.length - rest.length ∧ n = 0) ∨
        ((text.length : Int) - rest.length < start ∧ start ≤ text.length ∧ 0 < n)) := by
  obtain ⟨st, hreaches, -, hchecked⟩ := checked_of_parse hstrict h
  obtain ⟨st₂, -, hlast, hfront⟩ := exists_front hstrict hopens htext hreaches rfl
  have hrest : rest.length ≤ text.length := by
    rw [htext, List.length_append]
    exact Nat.le_add_left _ _
  have hend := (hfront.measured hdict).of_reaches hdict hstrict hsize hrest hlast
  have hclose : (st.closeTo settings 0).bodyLengthStart = st.bodyLengthStart :=
    ParseState.bodyLengthStart_closeTo 0 st
  obtain ⟨bodyLength, hfield, hnumber⟩ := hchecked.bodyLength
  have hheader : (st.closeTo settings 0).msg.header.field? Field.bodyLength = some length :=
    FieldMap.field?_of_text ((find?_closeTo 0 st ⟨.header, []⟩ _).trans hend.headed.length)
  rw [hheader] at hfield
  cases hfield
  rw [hclose] at hnumber
  refine ⟨lengthsComing dict (rest, st₂), st.bodyLengthStart, hfront.count, hnumber, ?_⟩
  exact hend.start.imp (fun hstart => ⟨hstart.1, hstart.2.2.symm.trans rfl⟩) id

/-! ## The end of the text -/

/-- A tag text that stands for the checksum has two digits at least. -/
theorem length_of_checkSum {tagText : Bytes} (h : fastParseTag tagText = Field.checkSum) :
    2 ≤ tagText.length := by
  cases tagText with
  | nil => cases h
  | cons b tagText =>
      cases tagText with
      | cons _ _ => simp
      | nil =>
          rw [fastParseTag, if_neg (List.cons_ne_nil _ _), fastParseTagLoop] at h
          split at h
          next hdigit =>
            rw [isDigit, Bool.and_eq_true, decide_eq_true_eq, decide_eq_true_eq] at hdigit
            have hvalue : b.toNat ≤ 57 := UInt8.le_iff_toNat_le.mp hdigit.2
            rw [fastParseTagLoop, i32_of_range (by omega) (by omega)] at h
            have hten : Field.checkSum = 10 := rfl
            omega
          next => cases h

/-- The last field of an accepted text has the checksum. -/
theorem exists_last (hstrict : settings.relaxedParsing = false) {v length text rest : Bytes}
    (hopens : Opens dict v length) (htext : text = opening v length ++ (ascii "35=" ++ rest))
    (hcheckSum : dict.FilesCheckSum ∨ ∀ value value', (Field.checkSum, value) ∈ dict.fieldsOf text →
      (Field.checkSum, value') ∈ dict.fieldsOf text → value = value') {msg : Message}
    (h : dict.parse settings text = .ok msg) :
    ∃ tagText tail : Bytes, 2 ≤ tagText.length ∧ tail.length ≤ 1 ∧
      tagText ++ tagAssignmentChar ::
        (formatChecksum (computeChecksum (text.take (text.length - 7))) ++ tail) <:+ rest := by
  obtain ⟨st, hreaches, hstate, hchecked⟩ := checked_of_parse hstrict h
  obtain ⟨st₂, hfront₂, hlast, -⟩ := exists_front hstrict hopens htext hreaches rfl
  have htag : st.tag = Field.checkSum := by
    obtain ⟨msg, hmsg⟩ := @ParseState.exists_closeTo settings 0 st
    have htag := hchecked.tag
    rwa [hmsg] at htag
  -- The last round reads the checksum.
  cases hlast with
  | @tail p _ hp hround =>
      obtain ⟨text', st'⟩ := p
      have hreaches' := hfront₂.trans hp
      obtain ⟨f, hreads⟩ := exists_reads hstrict hround
      obtain ⟨tagText, rest', hsplit, htagText, -, hend⟩ := hreads.split
      have hf : f.1 = Field.checkSum := hreads.tag.symm.trans htag
      rw [hf] at htagText
      obtain ⟨tail, htail, hrest'⟩ : ∃ tail : Bytes, tail.length ≤ 1 ∧
          rest' = formatChecksum (computeChecksum (text.take (text.length - 7))) ++ tail := by
        rcases hcheckSum with hdict | hsame
        · have hin := hreaches'.invariant (P := fun p => Staged p.2.build ∧
              (p.2.msgState = .trailer → ParseState.InTrailer dict p.2))
            ⟨staged_init dict, fun hstate => MessageState.noConfusion hstate⟩ fun _ _ hround hp =>
              ⟨invariant_parseRound (fun _ _ _ _ hedits hb => hedits.staged hb) hround hp.1,
                inTrailer_parseRound hdict hstrict hp.1 hp.2 hround⟩
          obtain ⟨tagText', checksum, hsplit', -, hfind⟩ :=
            checkSum_of_last hdict hstrict hin.1 hin.2 hround hstate htag
          have htrailer : (st.closeTo settings 0).msg.trailer.field? Field.checkSum =
              some checksum :=
            FieldMap.field?_of_text ((find?_closeTo 0 st ⟨.trailer, []⟩ _).trans hfind)
          rw [hchecked.checkSum] at htrailer
          cases htrailer
          rw [hsplit] at hsplit'
          cases hsplit'
          exact ⟨[internalSohChar], Nat.le_refl 1, rfl⟩
        · have hstores : (st.closeTo settings 0).msg.Stores (View.IsField dict text) :=
            ParseState.stores_closeTo (isField_of_reaches hstrict hreaches).2 0
          have hmem : (Field.checkSum, f.2) ∈ dict.fieldsOf text := by
            rw [← hf]
            refine (isField_of_reaches hstrict hreaches').1 f ?_
            rw [hreads.coming]
            exact Multiset.mem_add.mpr (.inl (Multiset.mem_singleton_self f))
          have hmem' := mem_fieldsOf_of_field? (hstores ⟨.trailer, []⟩) hchecked.checkSum
          rw [← hsame _ _ hmem hmem']
          exact hend rfl
      refine ⟨tagText, tail, length_of_checkSum htagText, htail, ?_⟩
      rw [← hrest', ← (splitByte_eq hsplit).1]
      -- The third field is another one, so that the last one is behind its tag.
      have hthird : splitByte tagAssignmentChar (ascii "35=" ++ rest) =
          some (ascii "35", rest) := by
        rw [show ascii "35=" = ascii "35" ++ [tagAssignmentChar] by decide, List.append_assoc]
        exact splitByte_append (by decide) rest
      rcases hp.cases_head with heq | ⟨p₃, hround₃, hp₃⟩
      · cases heq
        rw [hthird] at hsplit
        cases hsplit
        exact absurd htagText (by decide)
      · obtain ⟨f₃, hreads₃⟩ := exists_reads hstrict hround₃
        obtain ⟨tagText₃, rest₃, hsplit₃, -, hnext₃, -⟩ := hreads₃.split
        rw [hthird] at hsplit₃
        cases hsplit₃
        exact (suffix_of_reaches hstrict hp₃).trans hnext₃

theorem eq_of_fromCharsULong_natDigits {n m : Nat} (h : fromCharsULong (natDigits n) = some m) :
    n = m := by
  have hdigits := takeWhile_natDigits_append n [] (by simp)
  rw [List.append_nil] at hdigits
  rw [fromCharsULong, hdigits] at h
  rw [if_neg (natDigits_ne_nil n), digitsVal_natDigits] at h
  split at h
  · exact Option.some.inj h
  · cases h

/-! ## The text as an envelope -/

theorem natDigits_clean (n : Nat) : internalSohChar ∉ natDigits n := by
  intro h
  exact absurd (isDigit_of_mem_natDigits h) (by decide)

/-- The first field ends behind its value. -/
theorem splitByte_opening {v : Bytes} (hv : internalSohChar ∉ v) (length rest : Bytes) :
    splitByte internalSohChar (opening v length ++ rest) =
      some (ascii "8=" ++ v, ascii "9=" ++ length ++ internalSohChar :: rest) := by
  have hclean : internalSohChar ∉ ascii "8=" ++ v := by
    intro hmem
    rcases List.mem_append.mp hmem with hmem | hmem
    · exact absurd hmem (by decide)
    · exact hv hmem
  have hsplit := splitByte_append hclean (ascii "9=" ++ length ++ internalSohChar :: rest)
  rw [opening]
  simpa only [List.append_assoc, List.cons_append, List.nil_append] using hsplit

theorem length_closing {checksum : Bytes} (h : checksum.length = 3) :
    (closing checksum).length = 7 := by
  rw [closing, List.length_append, List.length_append, h]
  rfl

/-- A text that ends in the usual way, and in the checksum, has the checksum there. -/
theorem eq_of_closes {front front' checksum sum tail : Bytes} (hthree : checksum.length = 3)
    (hsum : sum.length = 3) (hclean : internalSohChar ∉ sum) (htail : tail.length ≤ 1)
    (h : front ++ closing checksum = front' ++ (sum ++ tail)) :
    checksum = sum ∧ tail.length = 1 := by
  have hparts : (front ++ ascii "10=" ++ checksum) ++ [internalSohChar] =
      (front' ++ sum) ++ tail := by
    rw [closing] at h
    simpa only [List.append_assoc] using h
  cases tail with
  | nil =>
      -- The separator at the end would be a part of the sum.
      rw [List.append_nil] at hparts
      have hlast := congrArg List.getLast? hparts
      have hnonempty : sum ≠ [] := List.ne_nil_of_length_pos (by omega)
      rw [List.getLast?_append_of_ne_nil _ hnonempty, List.getLast?_concat] at hlast
      exact absurd (List.mem_of_getLast? hlast.symm) hclean
  | cons b tail =>
      have htail' : (b :: tail).length = 1 := by
        rw [List.length_cons] at htail ⊢
        omega
      obtain ⟨hfront, -⟩ := List.append_inj' hparts htail'.symm
      exact ⟨(List.append_inj' hfront (hthree.trans hsum.symm)).2, htail'⟩

/-- A text that is written in the usual way is framed. -/
theorem enveloped_of_plain (hstrict : settings.relaxedParsing = false) {text : Bytes}
    {msg : Message} (h : dict.parse settings text = .ok msg) (hplain : PlainEnvelope dict text) :
    Enveloped text := by
  obtain ⟨v, n, rest, hopens, htext⟩ := hplain.opens
  obtain ⟨front, checksum, hthree, hcloses⟩ := hplain.closes
  have hseven := length_closing hthree
  obtain ⟨tagText, tail, htagText, htail, front', hlast⟩ :=
    exists_last hstrict hopens htext hplain.checkSum h
  -- The checksum is that of all bytes in front of it.
  have hfront : text.take (text.length - 7) = front := by
    rw [hcloses, List.length_append, hseven, Nat.add_sub_cancel, List.take_left]
  rw [hfront] at hlast
  have hends : front ++ closing checksum =
      (opening v (natDigits n) ++ ascii "35=" ++ front' ++ tagText ++ [tagAssignmentChar]) ++
        (formatChecksum (computeChecksum front) ++ tail) := by
    rw [← hcloses, htext, ← hlast]
    simp only [List.append_assoc, List.cons_append, List.nil_append]
  obtain ⟨hchecksum, hone⟩ := eq_of_closes hthree (length_formatChecksum _)
    (fun hmem => (formatChecksum_clean hmem).1 rfl) htail hends
  have hlong : 7 ≤ rest.length := by
    rw [← hlast]
    simp only [List.length_append, List.length_cons, length_formatChecksum, hone]
    omega
  -- The body length counts the bytes up to it.
  have hparts : front ++ closing checksum =
      (opening v (natDigits n) ++ (ascii "35=" ++ rest.take (rest.length - 7))) ++
        rest.drop (rest.length - 7) := by
    rw [← hcloses, htext, List.append_assoc, List.append_assoc, List.take_append_drop]
  obtain ⟨hbefore, -⟩ := List.append_inj' hparts (by rw [hseven, List.length_drop]; omega)
  have hlength : n = (ascii "35=" ++ rest.take (rest.length - 7)).length := by
    have hexpected := eq_of_fromCharsULong_natDigits
      (bodyLength_of_countTag hstrict hopens htext hplain.bodyLength h)
    have hshort := hplain.short
    have hthird : (ascii "35=").length = 3 := by decide
    rw [expectedBodyLength] at hexpected
    rw [List.length_append, List.length_take, hthird]
    rw [htext] at hexpected hshort
    rw [List.length_append, List.length_append, hthird] at hexpected hshort
    omega
  refine ⟨v, ascii "35=" ++ rest.take (rest.length - 7), hopens.beginString,
    List.prefix_append _ _, ?_⟩
  rw [← hlength, ← hbefore, ← computeChecksum_eq, ← hchecksum]
  exact hcloses

/-- A text that is framed is written in the usual way. -/
theorem plain_of_enveloped (hdict : dict.FilesBodyLength) (hdict' : dict.FilesCheckSum)
    (hstrict : settings.relaxedParsing = false) {text : Bytes} (hsize : text.length < 2147483648)
    {msg : Message} (h : dict.parse settings text = .ok msg) (henveloped : Enveloped text) :
    PlainEnvelope dict text := by
  obtain ⟨v, w, hv, ⟨rest, hw⟩, htext⟩ := henveloped
  obtain ⟨checksum, hthree, htext⟩ : ∃ checksum : Bytes, checksum.length = 3 ∧
      text = opening v (natDigits w.length) ++ w ++ closing checksum :=
    ⟨_, length_formatChecksum _, htext⟩
  have hopens : Opens dict v (natDigits w.length) := by
    refine ⟨hv, natDigits_clean w.length, .inr hdict.bodyLengthType, Nat.lt_of_le_of_lt ?_ hsize⟩
    rw [htext, List.length_append, List.length_append]
    omega
  refine ⟨⟨v, w.length, rest ++ closing checksum, hopens, ?_⟩, ⟨_, checksum, hthree, htext⟩, ?_,
    .inl hdict', Nat.lt_trans hsize (by decide)⟩
  · rw [← List.append_assoc (ascii "35="), hw, ← List.append_assoc]
    exact htext
  · rw [List.append_assoc] at htext
    obtain ⟨n, start, hcount, hnumber, hstart⟩ :=
      bodyLength_of_parse hdict hstrict hopens htext hsize h
    rw [hcount]
    rcases hstart with ⟨-, hn⟩ | ⟨hlater, hle, -⟩
    · rw [hn]
    · -- A start behind another body length leaves fewer bytes than the first one counts.
      have hexpected := eq_of_fromCharsULong_natDigits hnumber
      rw [expectedBodyLength] at hexpected
      rw [htext] at hexpected hlater hle hsize
      rw [List.length_append, List.length_append, length_closing hthree]
        at hexpected hlater hle hsize
      omega

/-- A text that is accepted in strict mode is framed if it is written in the usual way and has no
other body length.  No other text is, with a dictionary that has the fields of the frame. -/
theorem enveloped_iff (hstrict : settings.relaxedParsing = false) {text : Bytes} {msg : Message}
    (h : dict.parse settings text = .ok msg) : (PlainEnvelope dict text → Enveloped text) ∧
      (dict.FilesBodyLength → dict.FilesCheckSum → text.length < 2147483648 → Enveloped text →
        PlainEnvelope dict text) :=
  ⟨enveloped_of_plain hstrict h, fun hdict hdict' hsize =>
    plain_of_enveloped hdict hdict' hstrict hsize h⟩

end

theorem enveloped_iff_test : ∃ msg,
    testDictionary.parse {} (wireOf "8=FIX.4.4|9=11|35=0|112=7|10=217|") = .ok msg ∧
      Enveloped (wireOf "8=FIX.4.4|9=11|35=0|112=7|10=217|") ∧
      PlainEnvelope testDictionary (wireOf "8=FIX.4.4|9=11|35=0|112=7|10=217|") := by
  have hsome : (testDictionary.parse {}
      (wireOf "8=FIX.4.4|9=11|35=0|112=7|10=217|")).toOption.isSome = true := by decide +kernel
  have hchecksum : testDictionary.FilesCheckSum := ⟨by decide, by decide, rfl⟩
  have hplain : PlainEnvelope testDictionary (wireOf "8=FIX.4.4|9=11|35=0|112=7|10=217|") := by
    refine ⟨⟨ascii "FIX.4.4", 11, wireOf "0|112=7|10=217|", ?_, by decide +kernel⟩,
      ⟨wireOf "8=FIX.4.4|9=11|35=0|112=7|", ascii "217", rfl, by decide +kernel⟩,
      by decide +kernel, .inl hchecksum, by decide⟩
    exact ⟨by decide, by decide, .inl (by decide), by decide⟩
  cases hparse : testDictionary.parse {} (wireOf "8=FIX.4.4|9=11|35=0|112=7|10=217|") with
  | ok msg =>
      obtain ⟨hframes, hplains⟩ := enveloped_iff rfl hparse
      have hframed := hframes hplain
      exact ⟨msg, rfl, hframed,
        hplains ⟨by decide, by decide, by decide⟩ hchecksum (by decide) hframed⟩
  | error e =>
      rw [hparse] at hsome
      cases hsome

/-- A heartbeat with another body length, behind which nothing is left. -/
def secondLengthText : Bytes := wireOf "8=FIX.4.4|9=0|35=0|112=7|9=1|10=079|"

/-- The body length of the text is 0, and what is behind it starts with another field. -/
theorem not_enveloped : ¬∀ (dict : Dictionary) (settings : SessionSettings) (text : Bytes)
    (msg : Message), settings.relaxedParsing = false → dict.parse settings text = .ok msg →
      Enveloped text := by
  intro h
  have hsome : (testDictionary.parse {} secondLengthText).toOption.isSome = true := by
    decide +kernel
  cases hparse : testDictionary.parse {} secondLengthText with
  | ok msg =>
      obtain ⟨v, w, hv, ⟨rest, hw⟩, htext⟩ := h testDictionary {} secondLengthText msg rfl hparse
      have hfirst : splitByte internalSohChar secondLengthText =
          some (ascii "8=FIX.4.4", wireOf "9=0|35=0|112=7|9=1|10=079|") := by decide +kernel
      have hsecond : splitByte internalSohChar (wireOf "9=0|35=0|112=7|9=1|10=079|") =
          some (ascii "9=" ++ ascii "0", wireOf "35=0|112=7|9=1|10=079|") := by decide +kernel
      rw [htext, List.append_assoc, splitByte_opening hv] at hfirst
      have hclean : internalSohChar ∉ ascii "9=" ++ natDigits w.length := by
        intro hmem
        rcases List.mem_append.mp hmem with hmem | hmem
        · exact absurd hmem (by decide)
        · exact natDigits_clean _ hmem
      have hbehind : _ = wireOf "9=0|35=0|112=7|9=1|10=079|" :=
        congrArg Prod.snd (Option.some.inj hfirst)
      rw [← hbehind, splitByte_append hclean] at hsecond
      have hzero := List.append_cancel_left (congrArg Prod.fst (Option.some.inj hsecond))
      have hlength : w.length = 0 := by
        refine eq_of_fromCharsULong_natDigits ?_
        rw [hzero]
        decide
      rw [← hw, List.length_append] at hlength
      exact absurd (Nat.eq_zero_of_add_eq_zero_right hlength) (by decide)
  | error e =>
      rw [hparse] at hsome
      cases hsome

end OpenFix
