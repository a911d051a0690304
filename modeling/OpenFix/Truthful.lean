import OpenFix.Counts

/-!
# The counts of a message that is parsed

The rounds of a strict parse keep the counts right, as long as no edit of theirs makes one
wrong.  The parser checks the count of every entry that it pops, and the entries are linked
as long as the trailer is not started by a group while one is counted.

Whether the edits of a text are such can be tested round by round.  A count of zero is not:
the field of the count opens an instance, whatever its value is.
-/

namespace OpenFix

open Loop

/-! ## The rounds of a parse -/

section

variable {settings : SessionSettings} {dict : Dictionary} {size : Nat} {text : Bytes}

/-- No round of the parse makes a count wrong. -/
def KeepsCounts (dict : Dictionary) (settings : SessionSettings) (text : Bytes) : Prop :=
  ∀ text' st, Reaches (parseRound settings dict text.length) (text, .init dict) (text', st) →
    ∀ b e b', PerformsIn settings dict text.length text' st b e → Edits settings dict b e b' →
      ¬Miscounts b e

/-- The entries stay linked, as the trailer is not started by a group while one is counted. -/
theorem linked_parseRound {text' : Bytes} {st st' : ParseState} (hstaged : Staged st.build)
    (hst : Linked st.stack)
    (hkeeps : ∀ b e b', PerformsIn settings dict size text st b e → Edits settings dict b e b' →
      ¬Miscounts b e)
    (h : parseRound settings dict size (text, st) = .ok (.inl (text', st'))) :
    Linked st'.stack := by
  cases parseRound_next h with
  | skipped _ _ _ => exact hst
  | data _ _ _ _ _ => exact hst
  | @filed _ f _ hdispatches hdispatch =>
      refine ParseState.linked_of_dispatchField hdispatch hst
        fun groupSpec hrefused hstate hfield hgroup hnew a ha => ?_
      by_contra hcount
      have hperforms := ParseState.Performs.started (.trailer hrefused hstate)
        (.openGroup (g := ParseState.trailerInfo dict) rfl hfield hgroup)
      refine hkeeps _ _ _ (.field hdispatches hperforms)
        (.openGroup (List.mem_append_right _ List.mem_cons_self) hnew)
        (.openTrailer rfl (List.mem_append_left _ ha) (fun hsec => ?_) hcount)
      refine hstaged.entries a ha ?_
      have hbody : st.build.state = .body := hstate
      rw [hsec, hbody]
      exact True.intro

theorem linked_of_reaches (hkeeps : KeepsCounts dict settings text) {p : Bytes × ParseState}
    (h : Reaches (parseRound settings dict text.length) (text, .init dict) p) :
    Linked p.2.stack := by
  induction h with
  | refl => exact linked_singleton rfl
  | tail hreaches hround ih =>
      exact linked_parseRound (staged_of_reaches hreaches) ih (hkeeps _ _ hreaches) hround

theorem ParseState.Turn.eq_append {f : WireField} {st : ParseState} {g : ParserGroupInfo}
    {stack below : List ParserGroupInfo} (h : Turn settings dict f st stack g below) :
    ∃ before, stack = before ++ g :: below := by
  induction h with
  | here => exact ⟨[], rfl⟩
  | @later g' g'' stack' below' _ _ ih =>
      obtain ⟨before, hstack⟩ := ih
      exact ⟨g'' :: before, by rw [hstack, List.cons_append]⟩

theorem checks_finish {g : ParserGroupInfo} (hstrict : settings.relaxedParsing = false)
    (h : ParseState.CountReached settings g) : Checks (.finish g) := by
  refine .inr (h.resolve_left fun hrelaxed => ?_)
  rw [hstrict] at hrelaxed
  cases hrelaxed

theorem not_miscounts_finish {b : Build} {g : ParserGroupInfo} : ¬Miscounts b (.finish g) := by
  intro h
  cases h

/-- The parser makes sure of what is needed for the counts. -/
theorem PerformsIn.checks {st : ParseState} {b : Build} {e : Edit}
    (h : PerformsIn settings dict size text st b e) (hstrict : settings.relaxedParsing = false)
    (hst : Linked st.stack) : Checks e := by
  cases h with
  | data _ _ _ _ => exact True.intro
  | @field next f _ _ _ hperforms =>
      cases hperforms with
      | unknown _ _ _ _ => exact True.intro
      | startedUnknown _ _ _ => exact True.intro
      | enter => exact True.intro
      | finish hcount => exact checks_finish hstrict hcount
      | @replace _ g hbottom =>
          rcases hbottom with hlast | ⟨bodySpec, rfl⟩
          · exact .inl (hst.bottom g hlast)
          · exact .inl rfl
      | started _ htakes =>
          cases htakes with
          | append hspec hfield => exact ⟨_, hspec, hfield⟩
          | openGroup hspec _ hgroup => exact ⟨_, hspec, hgroup⟩
          | next _ _ hparent _ _ _ => cases hparent
      | @taken g below _ htries htakes =>
          cases htakes with
          | append hspec hfield => exact ⟨_, hspec, hfield⟩
          | openGroup hspec _ hgroup => exact ⟨_, hspec, hgroup⟩
          | next hspec hknown hparent _ hcount _ =>
              obtain ⟨before, hstack⟩ := htries.turn.eq_append
              have hstack' : st.stack = before ++ g :: below := hstack
              rw [hstack'] at hst
              cases below with
              | nil => cases hparent
              | cons p below =>
                  cases hparent
                  have hstands := (List.isChain_cons_cons.mp hst.of_append.chain).1
                  exact ⟨⟨_, hspec, hknown⟩, hcount, hstands.resolve_left hcount⟩

theorem tallied_init (dict : Dictionary) : Tallied (ParseState.init dict).build := by
  have hempty : Tallied ⟨.header, [], Message.new⟩ := by
    have hspec : ∀ ref spec, ¬HasSpec ⟨.header, [], Message.new⟩ ref spec := by
      rintro ref spec (⟨g, hg, -⟩ | hset)
      · cases hg
      · rw [Message.node_new] at hset
        cases hset
    refine ⟨fun g hg => ?_, fun g hg => ?_, fun g hg => ?_, fun g hg => ?_,
      fun ref spec tag h => absurd h (hspec ref spec),
      fun ref spec tag groupSpec i h => absurd h (hspec ref spec), rfl⟩
    · cases hg
    · cases hg
    · cases hg
    · cases hg
  refine @Tallied.enter _ { spec := some dict.headerSpec, group := ⟨.header, []⟩ } hempty .header _
    (fun g' => ?_) rfl rfl (Message.node_new _)
  refine List.mem_singleton.trans ⟨.inr, fun h => h.resolve_left List.not_mem_nil⟩

/-- When all entries are finished, the counts are right, also without the checksum. -/
theorem Tallied.countsGroups {b : Build} (hb : Tallied b) (hentries : b.entries = [])
    {msg : Message} (hmsg : msg = b.msg.modify (fun m => m.removeField Field.checkSum)
      ⟨.trailer, []⟩) : msg.CountsGroups := by
  have hf : FieldMap.KeepsInstances fun m => m.removeField Field.checkSum :=
    FieldMap.keepsInstances_of_groups fun _ => rfl
  have hvalid : b.msg.Valid ⟨.trailer, []⟩ := Message.valid_section .trailer
  have hnode : ∀ ref, (msg.node ref).spec = (b.msg.node ref).spec ∧
      (msg.node ref).count = (b.msg.node ref).count ∧
      (∀ t ∈ AssocList.keys (msg.node ref).fields, t ∈ AssocList.keys (b.msg.node ref).fields) ∧
      ∀ t, ref = ⟨.trailer, []⟩ ∧ t = Field.checkSum ∨
        AssocList.find? t (msg.node ref).fields = AssocList.find? t (b.msg.node ref).fields := by
    intro ref
    by_cases href : ref = ⟨.trailer, []⟩
    · have hself : msg.node ref = ((b.msg.get ref).removeField Field.checkSum).node := by
        rw [hmsg, href]
        exact Message.node_modify_self hvalid _
      rw [hself]
      refine ⟨rfl, rfl, fun t ht => ?_, fun t => ?_⟩
      · obtain ⟨q, hq, rfl⟩ := List.mem_map.mp ht
        exact List.mem_map_of_mem (AssocList.mem_of_mem_erase hq)
      · by_cases ht : t = Field.checkSum
        · exact .inl ⟨href, ht⟩
        · exact .inr (AssocList.find?_erase_ne ht _)
    · have hsame : msg.node ref = b.msg.node ref := by
        rw [hmsg]
        exact Message.node_modify_ne hf href b.msg
      rw [hsame]
      exact ⟨rfl, rfl, fun _ ht => ht, fun _ => .inr rfl⟩
  have hspec : ∀ ref spec, (msg.get ref).spec = some spec → HasSpec b ref spec := by
    intro ref spec h
    exact .inr ((hnode ref).1.symm.trans h)
  constructor
  · intro ref spec tag h hgroup hpresent
    obtain ⟨-, hcount, hmem, hfind⟩ := hnode ref
    have hcountEq : (msg.get ref).getGroupCount tag = (b.msg.node ref).count tag :=
      congrFun hcount tag
    rw [hcountEq] at hpresent ⊢
    obtain ⟨hpos, hright⟩ := hb.closed ref spec tag (hspec ref spec h) hgroup
      (hpresent.imp_left fun hhas => hmem tag (AssocList.find?_isSome_iff.mp hhas))
    rcases hright with ⟨g, hg, -⟩ | ⟨v, hv, hint⟩
    · rw [hentries] at hg
      cases hg
    · rcases hfind tag with ⟨rfl, rfl⟩ | hsame
      · rw [hb.checkSum] at hpos
        exact absurd hpos (Nat.lt_irrefl 0)
      · refine FieldMap.getIntField_eq.mpr ⟨v, ?_, hint⟩
        exact congrArg (Option.map ((msg.get ref).read tag)) (hsame.trans hv)
  · intro ref spec tag groupSpec i h hgroup t ht
    exact hb.members ref spec tag groupSpec i (hspec ref spec h) hgroup t
      ((hnode (ref.child tag i)).2.2.1 t ht)

end

/-! ## Rounds that keep the counts -/

section

variable {settings : SessionSettings} {dict : Dictionary} {size : Nat} {text : Bytes}
  {st : ParseState}

/-- The entry has the tag as a field only, or as a group that is opened with this count. -/
def Suits (tag : Int) (value : Bytes) (g : ParserGroupInfo) : Prop :=
  ∀ spec ∈ g.spec, (spec.findGroup tag).isSome = true →
    spec.hasField tag = false ∧ g.groupTag ≤ 0 ∧ g.group.sec ≠ .trailer ∧ 0 < tag ∧
      0 < fastParseTag value ∧ FieldMap.intOf value = fastParseTag value

instance (tag : Int) (value : Bytes) (g : ParserGroupInfo) : Decidable (Suits tag value g) :=
  inferInstanceAs (Decidable (∀ spec ∈ g.spec, _ → _))

/-- The tag and the value at the front of a text. -/
def frontField (text : Bytes) : Option (Int × Bytes) :=
  (splitByte tagAssignmentChar text).bind fun p =>
    (splitByte internalSohChar p.2).map fun q => (fastParseTag p.1, q.1)

/-- A field is stored as one, or opens a group with its count. -/
def Regular (settings : SessionSettings) (dict : Dictionary) (p : Bytes × ParseState) : Prop :=
  (p.2.dataLength = none ∨ ∀ q ∈ splitByte tagAssignmentChar p.1,
    dict.getFieldType (fastParseTag q.1) ≠ .data) ∧
  ∀ f ∈ frontField p.1,
    (∀ g ∈ p.2.stack, Suits f.1 f.2 g) ∧ Suits f.1 f.2 (ParseState.trailerInfo dict) ∧
    (∀ bodySpec ∈ (((p.2.started f.1).closeTo settings 0).bodySpecOf settings dict).toOption,
      Suits f.1 f.2 (ParseState.bodyInfo bodySpec)) ∧
    (p.2.msgState = .header ∨
      p.2.msgState = .body ∧ dict.trailerSpec.hasField f.1 = true ∨
      ∀ top ∈ p.2.stack.head?, ∀ spec ∈ top.spec, spec.hasField f.1 = true)

instance (settings : SessionSettings) (dict : Dictionary) (p : Bytes × ParseState) :
    Decidable (Regular settings dict p) :=
  inferInstanceAs (Decidable (_ ∧ ∀ f ∈ frontField p.1, _))

theorem ParseState.Takes.not_miscounts {g : ParserGroupInfo} {parent : Option ParserGroupInfo}
    {f : WireField} {b : Build} {e : Edit} (h : Takes st g parent f e)
    (hsuits : Suits f.tag f.val g) : ¬Miscounts b e := by
  intro hmiscounts
  cases h with
  | append hspec hfield =>
      cases hmiscounts with
      | appendCount hspec' hgroup =>
          obtain ⟨hno, -⟩ := hsuits _ hspec' hgroup
          rw [hspec] at hspec'
          cases hspec'
          rw [hfield] at hno
          cases hno
  | openGroup hspec _ hgroup =>
      obtain ⟨-, -, hsec, htag, hpos, hint⟩ := hsuits _ hspec (by rw [hgroup]; rfl)
      cases hmiscounts with
      | openZero hzero => exact absurd hpos (Int.not_lt.mpr hzero)
      | openOverflow hvalue => exact hvalue hint
      | openUncounted hneg _ => exact absurd htag (Int.not_lt.mpr hneg)
      | openCheckSum htrailer _ => exact hsec (congrArg GroupRef.sec htrailer)
      | openTrailer htrailer _ _ _ => exact hsec (congrArg GroupRef.sec htrailer)
  | next _ _ _ htag _ _ =>
      cases hmiscounts with
      | nextCount hspec hgroup =>
          obtain ⟨-, hnone, -⟩ := hsuits _ hspec hgroup
          exact absurd htag (Int.not_lt.mpr hnone)

theorem Dispatches.frontField {next : Bytes} {f : WireField}
    (h : Dispatches settings dict size text st next f) : (f.tag, f.val) ∈ frontField text := by
  cases h with
  | intro htag _ hval =>
      rw [OpenFix.frontField, htag.split, Option.bind_some, hval]
      rfl

theorem Regular.not_miscounts (h : Regular settings dict (text, st))
    (hstrict : settings.relaxedParsing = false) {b : Build} {e : Edit}
    (hperforms : PerformsIn settings dict size text st b e) : ¬Miscounts b e := by
  obtain ⟨hdata, hfront⟩ := h
  have hrelaxed : ¬settings.relaxedParsing = true := by
    rw [hstrict]
    exact Bool.false_ne_true
  cases hperforms with
  | data htag hlen htype _ =>
      rcases hdata with hnone | hplain
      · rw [hnone] at hlen
        cases hlen
      · exact absurd htype (hplain _ htag.split)
  | @field next f _ _ hdispatches hperforms =>
      obtain ⟨hstack, htrailer, hbody, htop⟩ := hfront _ hdispatches.frontField
      cases hperforms with
      | taken htries htakes => exact htakes.not_miscounts (hstack _ htries.turn.mem)
      | started hstarts htakes =>
          cases hstarts with
          | body _ _ hspec => exact htakes.not_miscounts (hbody _ (by rw [hspec]; rfl))
          | trailer _ _ => exact htakes.not_miscounts htrailer
          | both _ _ _ _ => exact htakes.not_miscounts htrailer
      | startedUnknown _ hrefuses _ =>
          obtain ⟨spec, hspec, -, hnone⟩ := hrefuses.resolve_left hrelaxed
          intro hmiscounts
          cases hmiscounts with
          | assignCount hspec' hgroup =>
              cases hspec.symm.trans hspec'
              rw [hnone] at hgroup
              cases hgroup
          | assignForeign _ hinstance _ => exact hinstance rfl
      | @unknown top _ hstate hrefuses hhead =>
          have hfield : ∀ spec, top.spec = some spec → spec.hasField f.tag = true := by
            rcases htop with hheader | ⟨hbody, htrailer⟩ | hfield
            · exact absurd hheader hstate
            · have hno := ((hrefuses hbody).resolve_left hrelaxed).1
              rw [htrailer] at hno
              cases hno
            · exact hfield top hhead
          intro hmiscounts
          cases hmiscounts with
          | assignCount hspec hgroup =>
              obtain ⟨hno, -⟩ := hstack top (List.mem_of_mem_head? hhead) _ hspec hgroup
              rw [hfield _ hspec] at hno
              cases hno
          | assignForeign hspec _ hforeign => exact hforeign (.inl (hfield _ hspec))
      | enter =>
          intro hmiscounts
          cases hmiscounts
      | finish _ => exact not_miscounts_finish
      | replace _ => exact not_miscounts_finish

/-- The rounds of a text are tested one by one. -/
theorem keepsCounts_of_always (hstrict : settings.relaxedParsing = false) {n : Nat}
    (h : always (parseRound settings dict text.length)
      (fun p => decide (Regular settings dict p)) n (text, .init dict) = true) :
    KeepsCounts dict settings text := by
  intro text' st hreaches b e b' hperforms _
  have hregular := hreaches.of_always h
  exact (of_decide_eq_true hregular).not_miscounts hstrict hperforms

end

/-! ## Main result -/

section

variable {settings : SessionSettings} {dict : Dictionary} {text : Bytes} {msg : Message}

/-- The counts of a message that strict parsing accepts are right, if no round of the parse makes
one wrong. -/
theorem countsGroups_of_parse (h : dict.parse settings text = .ok msg)
    (hstrict : settings.relaxedParsing = false) (hkeeps : KeepsCounts dict settings text) :
    msg.CountsGroups := by
  have hkept : ∀ {b e b'}, Checks e → ¬Miscounts b e → Edits settings dict b e b' →
      (Staged b ∧ Grounded b) ∧ Tallied b → (Staged b' ∧ Grounded b') ∧ Tallied b' := by
    intro b e b' hchecks hmiscounts hedits hb
    obtain ⟨⟨hstaged, hgrounded⟩, htallied⟩ := hb
    exact ⟨⟨hedits.staged hstaged, hedits.grounded hstaged hgrounded⟩,
      hedits.tallied hstaged hgrounded htallied hchecks hmiscounts⟩
  obtain ⟨b, hb, hentries, -, hmsg⟩ := built_of_parse
    (I := fun b => (Staged b ∧ Grounded b) ∧ Tallied b) h .refl
    ⟨⟨staged_init dict, grounded_init dict⟩, tallied_init dict⟩
    (fun text' st hreaches b e b' hperforms hedits =>
      hkept (hperforms.checks hstrict (linked_of_reaches hkeeps hreaches))
        (hkeeps text' st hreaches b e b' hperforms hedits) hedits)
    (fun b g b' hcount hedits => hkept (checks_finish hstrict hcount) not_miscounts_finish hedits)
  exact hb.2.countsGroups hentries hmsg

end

/-- A message whose group has two instances, as its count says. -/
def twoPartiesText : Bytes := wireOf "8=FIX.4.4|9=23|35=D|453=2|448=A|448=B|10=050|"

theorem countsGroups_twoPartiesText : ∃ msg, testDictionary.parse {} twoPartiesText = .ok msg ∧
    (msg.get ⟨.body, []⟩).getGroupCount 453 = 2 ∧ msg.CountsGroups := by
  have hkeeps : KeepsCounts testDictionary {} twoPartiesText :=
    @keepsCounts_of_always {} testDictionary twoPartiesText rfl 8 (by decide +kernel)
  have hcount : (testDictionary.parse {} twoPartiesText).map (fun msg =>
      (msg.get ⟨.body, []⟩).getGroupCount 453) = .ok 2 := by decide +kernel
  cases hparse : testDictionary.parse {} twoPartiesText with
  | ok msg =>
      rw [hparse] at hcount
      exact ⟨msg, rfl, Except.ok.inj hcount, countsGroups_of_parse hparse rfl hkeeps⟩
  | error e =>
      rw [hparse] at hcount
      cases hcount

/-- The count of the group is zero. -/
def noPartiesText : Bytes := wireOf "8=FIX.4.4|9=11|35=D|453=0|10=238|"

/-- The group has one instance, and its count says that it has none. -/
theorem not_countsGroups : ¬∀ (dict : Dictionary) (settings : SessionSettings) (text : Bytes)
    (msg : Message), settings.relaxedParsing = false → dict.parse settings text = .ok msg →
      msg.CountsGroups := by
  intro h
  have hread : (testDictionary.parse {} noPartiesText).map (fun msg =>
      ((msg.get ⟨.body, []⟩).getGroupCount 453, (msg.get ⟨.body, []⟩).field? 453,
        (msg.get ⟨.body, []⟩).spec.map fun spec => (spec.findGroup 453).isSome)) =
      .ok (1, some (ascii "0"), some true) := by decide +kernel
  cases hparse : testDictionary.parse {} noPartiesText with
  | ok msg =>
      rw [hparse] at hread
      obtain ⟨hcount, hrest⟩ := Prod.mk.inj (Except.ok.inj hread)
      obtain ⟨hvalue, hspec⟩ := Prod.mk.inj hrest
      obtain ⟨spec, hspec, hgroup⟩ := Option.map_eq_some_iff.mp hspec
      have hcounts := h testDictionary {} noPartiesText msg rfl hparse
      have hannounced := hcounts.count ⟨.body, []⟩ spec 453 hspec hgroup
        (.inr (by rw [hcount]; decide))
      obtain ⟨v, hv, hint⟩ := FieldMap.getIntField_eq.mp hannounced
      rw [hvalue] at hv
      rw [hcount, ← Option.some.inj hv] at hint
      exact absurd hint (by decide)
  | error e =>
      rw [hparse] at hread
      cases hread

end OpenFix
