import OpenFix.Specified
import OpenFix.Stored

/-!
# The edits of a message

The parser builds a message by few kinds of edits.  It appends a field to the map of an
open entry, assigns one to it, opens a group below it, starts the next instance of its
group, finishes its map, and enters the body and the trailer.  A round makes a series of
such edits, and here it is said which ones, and at what.

An invariant of what is built is kept by a parse if every edit that a round performs keeps
it.

An entry of the group stack is tried when all entries above it have refused the field.
-/

namespace OpenFix

open Loop

/-! ## The entry that is tried -/

namespace ParseState

section

variable {settings : SessionSettings} {dict : Dictionary} {f : WireField} {st st' : ParseState}

/-- The entries of the stack that are above `g` refuse the field. -/
inductive Turn (settings : SessionSettings) (dict : Dictionary) (f : WireField) (st : ParseState) :
    List ParserGroupInfo → ParserGroupInfo → List ParserGroupInfo → Prop where
  | here {g : ParserGroupInfo} {below : List ParserGroupInfo} :
      Turn settings dict f st (g :: below) g below
  | later {g g' : ParserGroupInfo} {stack below : List ParserGroupInfo}
      (hrefused : st.trySetField settings dict g' stack.length stack.head? f =
        .ok ⟨st, g', [], none⟩)
      (h : Turn settings dict f st stack g below) :
      Turn settings dict f st (g' :: stack) g below

theorem Turn.mem {g : ParserGroupInfo} {stack below : List ParserGroupInfo}
    (h : Turn settings dict f st stack g below) : g ∈ stack := by
  induction h with
  | here => exact List.mem_cons_self
  | later _ _ ih => exact List.mem_cons_of_mem _ ih

/-- The entry takes the field, and the ones above it stay. -/
theorem Turn.dispatchStack_ok {g : ParserGroupInfo} {stack below : List ParserGroupInfo}
    (h : Turn settings dict f st stack g below) {r : Tried} {idx : Nat}
    (htry : st.trySetField settings dict g below.length below.head? f = .ok r)
    (hidx : r.idx = some idx) :
    ∃ before, stack = before ++ g :: below ∧ ∀ above,
      dispatchStack settings dict f above stack st = .ok (some idx,
        { r.st with stack := r.pushed ++ (above ++ before) ++ r.group :: below }) := by
  induction h with
  | here =>
      refine ⟨[], rfl, fun above => ?_⟩
      simp only [dispatchStack, htry, bind, Except.bind, hidx, List.append_nil]
  | @later g' g'' stack' below' hrefused _ ih =>
      obtain ⟨before, hstack, hdispatch⟩ := ih htry
      refine ⟨g'' :: before, by rw [hstack, List.cons_append], fun above => ?_⟩
      rw [dispatchStack, hrefused]
      refine (hdispatch (above ++ [g''])).trans ?_
      rw [← List.append_cons]

theorem Turn.dispatchStack_error {g : ParserGroupInfo} {stack below : List ParserGroupInfo}
    (h : Turn settings dict f st stack g below) {e : Exn}
    (htry : st.trySetField settings dict g below.length below.head? f = .error e) :
    ∀ above, dispatchStack settings dict f above stack st = .error e := by
  induction h with
  | here =>
      intro above
      rw [dispatchStack, htry]
      rfl
  | later hrefused _ ih =>
      intro above
      rw [dispatchStack, hrefused]
      exact ih htry _

/-- A field that is taken is taken by an entry whose turn it is. -/
theorem turn_of_dispatchStack : ∀ (stack above : List ParserGroupInfo) {idx : Nat}
    {st' : ParseState}, dispatchStack settings dict f above stack st = .ok (some idx, st') →
      ∃ g below r, Turn settings dict f st stack g below ∧
        st.trySetField settings dict g below.length below.head? f = .ok r ∧ r.idx = some idx := by
  intro stack
  induction stack with
  | nil =>
      intro above idx st' h
      cases h
  | cons g below ih =>
      intro above idx st' h
      rw [dispatchStack] at h
      obtain ⟨r, htry, h⟩ := bind_eq_ok.mp h
      cases hidx : r.idx with
      | some idx' =>
          rw [hidx] at h
          cases h
          exact ⟨g, below, r, .here, htry, hidx⟩
      | none =>
          obtain ⟨rfl, -, -⟩ := ((yields_trySetField st g below.length below.head? f).of_ok
            htry).of_idx_none hidx
          obtain ⟨g', below', r', hturn, htry', hidx'⟩ := ih (above ++ [g]) h
          exact ⟨g', below', r', .later htry hturn, htry', hidx'⟩

/-- The stack is asked, and it is the turn of the entry. -/
structure Tries (settings : SessionSettings) (dict : Dictionary) (f : WireField) (st : ParseState)
    (g : ParserGroupInfo) (below : List ParserGroupInfo) : Prop where
  asked : ∃ top spec, st.stack.head? = some top ∧ top.spec = some spec ∧ spec.empty = false
  turn : Turn settings dict f st st.stack g below

theorem Tries.dispatchField_ok {g : ParserGroupInfo} {below : List ParserGroupInfo}
    (h : Tries settings dict f st g below) {r : Tried} {idx : Nat}
    (htry : st.trySetField settings dict g below.length below.head? f = .ok r)
    (hidx : r.idx = some idx) :
    ∃ before, st.stack = before ++ g :: below ∧
      dispatchField settings dict f st = overwriteStack settings (idx + 1)
        { r.st with stack := r.pushed ++ before ++ r.group :: below } := by
  obtain ⟨⟨top, spec, htop, hspec, hempty⟩, hturn⟩ := h
  obtain ⟨before, hstack, hdispatch⟩ := hturn.dispatchStack_ok htry hidx
  refine ⟨before, hstack, ?_⟩
  rw [dispatchField, htop]
  dsimp only
  rw [hspec]
  dsimp only
  rw [hempty, if_neg (by decide), hdispatch []]
  rfl

theorem Tries.dispatchField_error {g : ParserGroupInfo} {below : List ParserGroupInfo}
    (h : Tries settings dict f st g below) {e : Exn}
    (htry : st.trySetField settings dict g below.length below.head? f = .error e) :
    dispatchField settings dict f st = .error e := by
  obtain ⟨⟨top, spec, htop, hspec, hempty⟩, hturn⟩ := h
  rw [dispatchField, htop]
  dsimp only
  rw [hspec]
  dsimp only
  rw [hempty, if_neg (by decide), hturn.dispatchStack_error htry []]
  rfl

/-- A field is taken by an entry that is tried, or passed by the stack. -/
theorem tries_or_passed (h : dispatchField settings dict f st = .ok st') :
    (∃ g below before r idx, Tries settings dict f st g below ∧ st.stack = before ++ g :: below ∧
      st.trySetField settings dict g below.length below.head? f = .ok r ∧ r.idx = some idx ∧
      overwriteStack settings (idx + 1)
        { r.st with stack := r.pushed ++ before ++ r.group :: below } = .ok st') ∨
    (Refused settings dict f st ∧ dispatchBody settings dict f st = .ok st') := by
  have hfield := h
  rw [dispatchField] at h
  split at h
  next => cases h
  next top htop =>
    split at h
    next => cases h
    next spec hspec =>
      split at h
      next hempty => exact .inr ⟨.inl ⟨top, spec, htop, hspec, hempty⟩, h⟩
      next hempty =>
        obtain ⟨⟨idx, st₁⟩, hdispatch, h⟩ := bind_eq_ok.mp h
        cases idx with
        | none =>
            refine .inr ?_
            cases (yields_dispatchStack f st.stack [] st).of_ok hdispatch
            exact ⟨.inr hdispatch, h⟩
        | some idx =>
            obtain ⟨g, below, r, hturn, htry, hidx⟩ := turn_of_dispatchStack st.stack [] hdispatch
            have htries : Tries settings dict f st g below :=
              ⟨⟨top, spec, htop, hspec, Bool.eq_false_of_not_eq_true hempty⟩, hturn⟩
            obtain ⟨before, hstack, heq⟩ := htries.dispatchField_ok htry hidx
            exact .inl ⟨g, below, before, r, idx, htries, hstack, htry, hidx, heq ▸ hfield⟩

end

end ParseState

/-! ## The edits -/

/-- What the parser has built: the part of the message it is in, the entries that are open, and
the message. -/
structure Build where
  state : MessageState
  entries : List ParserGroupInfo
  msg : Message

def ParseState.build (st : ParseState) : Build := ⟨st.msgState, st.stack, st.msg⟩

inductive Edit where
  | append (g : ParserGroupInfo) (tag : Int) (value : Bytes)
  | assign (g : ParserGroupInfo) (tag : Int) (value : Bytes)
  | openGroup (g : ParserGroupInfo) (spec : GroupSpec) (f : WireField)
  | next (g p : ParserGroupInfo) (f : WireField)
  | finish (g : ParserGroupInfo)
  | enter (g : ParserGroupInfo)

/-- The edit puts a field into a map. -/
def Edit.Writes : Edit → Prop
  | .finish _ => False
  | .enter _ => False
  | _ => True

/-- The instance that comes next to the one of `g`. -/
def nextRef (settings : SessionSettings) (msg : Message) (g p : ParserGroupInfo) : GroupRef :=
  p.group.child g.groupTag
    (((msg.modify (ParseState.finishMap settings g.spec) g.group).get p.group).getGroupCount
      g.groupTag)

/-- What an edit does. -/
inductive Edits (settings : SessionSettings) (dict : Dictionary) : Build → Edit → Build → Prop where
  | append {b : Build} {g : ParserGroupInfo} {tag : Int} {value : Bytes} (hg : g ∈ b.entries)
      (hnew : ((b.msg.get g.group).setFieldViewOrDetectDup tag value).1 = false) :
      Edits settings dict b (.append g tag value)
        { b with msg := b.msg.modify (fun m => (m.setFieldViewOrDetectDup tag value).2) g.group }
  | assign {b : Build} {g : ParserGroupInfo} {tag : Int} {value : Bytes} (hg : g ∈ b.entries) :
      Edits settings dict b (.assign g tag value)
        { b with msg := b.msg.modify (fun m => m.setFieldView tag value false) g.group }
  | openGroup {b : Build} {g : ParserGroupInfo} {spec : GroupSpec} {f : WireField}
      (hg : g ∈ b.entries) (hnew : (b.msg.get g.group).getGroupCount f.tag = 0) :
      Edits settings dict b (.openGroup g spec f)
        { b with
          entries := ParseState.openedInfo g spec f :: b.entries
          msg := (b.msg.modify (fun m => m.addGroup f.tag) g.group).modify
            (fun m => m.setFieldView f.tag f.val false) g.group }
  | next {b : Build} {before after : List ParserGroupInfo} {g p : ParserGroupInfo} {f : WireField}
      (hentries : b.entries = before ++ g :: after) (hp : p ∈ after) :
      Edits settings dict b (.next g p f)
        { b with
          entries := before ++ { g with
            group := nextRef settings b.msg g p
            groupCount := g.groupCount + 1 } :: after
          msg := ((b.msg.modify (ParseState.finishMap settings g.spec) g.group).modify
            (fun m => m.addGroup g.groupTag) p.group).modify
              (fun m => (m.setFieldViewOrDetectDup f.tag f.val).2) (nextRef settings b.msg g p) }
  | finish {b : Build} {before after : List ParserGroupInfo} {g : ParserGroupInfo}
      (hentries : b.entries = before ++ g :: after) :
      Edits settings dict b (.finish g)
        { b with
          entries := before ++ after
          msg := b.msg.modify (ParseState.finishMap settings g.spec) g.group }
  | body {b : Build} {bodySpec : Option GroupSpec} (hstate : b.state = .header)
      (hentries : b.entries = []) :
      Edits settings dict b (.enter (ParseState.bodyInfo bodySpec))
        { b with state := .body, entries := [ParseState.bodyInfo bodySpec] }
  | trailer {b : Build} (hstate : b.state = .body) :
      Edits settings dict b (.enter (ParseState.trailerInfo dict))
        { b with state := .trailer, entries := b.entries ++ [ParseState.trailerInfo dict] }

namespace ParseState

/-- The count of the entry is reached, or the mode is relaxed. -/
def CountReached (settings : SessionSettings) (g : ParserGroupInfo) : Prop :=
  settings.relaxedParsing = true ∨ (0 < g.groupTag → g.groupMaxCount ≤ g.groupCount)

/-- The body does not know the field. -/
def BodyRefuses (settings : SessionSettings) (bodySpec : Option GroupSpec) (f : WireField) : Prop :=
  settings.relaxedParsing = true ∨ ∃ spec, bodySpec = some spec ∧
    spec.hasField f.tag = false ∧ spec.findGroup f.tag = none

/-- The trailer does not know the field. -/
def TrailerRefuses (settings : SessionSettings) (dict : Dictionary) (f : WireField) : Prop :=
  settings.relaxedParsing = true ∨
    dict.trailerSpec.hasField f.tag = false ∧ dict.trailerSpec.findGroup f.tag = none

/-- The field is offered to the entry of a part that it may start. -/
inductive Starts (settings : SessionSettings) (dict : Dictionary) (f : WireField)
    (st : ParseState) : Build → ParserGroupInfo → Prop where
  | body {bodySpec : Option GroupSpec} (hrefused : Refused settings dict f st)
      (hstate : st.msgState = .header)
      (hspec : (st.closeTo settings 0).bodySpecOf settings dict = .ok bodySpec) :
      Starts settings dict f st (st.toBody settings bodySpec).build (bodyInfo bodySpec)
  | trailer (hrefused : Refused settings dict f st) (hstate : st.msgState = .body) :
      Starts settings dict f st ⟨.trailer, st.stack ++ [trailerInfo dict], st.msg⟩
        (trailerInfo dict)
  | both {bodySpec : Option GroupSpec} (hrefused : Refused settings dict f st)
      (hstate : st.msgState = .header)
      (hspec : (st.closeTo settings 0).bodySpecOf settings dict = .ok bodySpec)
      (hbody : BodyRefuses settings bodySpec f) :
      Starts settings dict f st
        ⟨.trailer, [bodyInfo bodySpec, trailerInfo dict], (st.toBody settings bodySpec).msg⟩
        (trailerInfo dict)

/-- The edits that an entry makes for a field that it takes. -/
inductive Takes (st : ParseState) (g : ParserGroupInfo) (parent : Option ParserGroupInfo)
    (f : WireField) : Edit → Prop where
  | append {spec : GroupSpec} (hspec : g.spec = some spec) (hfield : spec.hasField f.tag = true) :
      Takes st g parent f (.append g f.tag f.val)
  | openGroup {spec groupSpec : GroupSpec} (hspec : g.spec = some spec)
      (hfield : spec.hasField f.tag = false) (hgroup : spec.findGroup f.tag = some groupSpec) :
      Takes st g parent f (.openGroup g groupSpec f)
  | next {p : ParserGroupInfo} {spec : GroupSpec} (hspec : g.spec = some spec)
      (hknown : spec.hasField f.tag = true ∨ (spec.findGroup f.tag).isSome = true)
      (hparent : parent = some p) (htag : 0 < g.groupTag)
      (hcount : g.groupCount ≠ g.groupMaxCount) (hseen : Seen st g f) :
      Takes st g parent f (.next g p f)

/-- The edits that are made for a field that is dispatched. -/
inductive Performs (settings : SessionSettings) (dict : Dictionary) (f : WireField)
    (st : ParseState) : Build → Edit → Prop where
  | taken {g : ParserGroupInfo} {below : List ParserGroupInfo} {e : Edit}
      (htries : Tries settings dict f st g below) (htakes : Takes st g below.head? f e) :
      Performs settings dict f st st.build e
  | unknown {top : ParserGroupInfo} (hrefused : Refused settings dict f st)
      (hstate : st.msgState ≠ .header)
      (htrailer : st.msgState = .body → TrailerRefuses settings dict f)
      (htop : st.stack.head? = some top) :
      Performs settings dict f st st.build (.assign top f.tag f.val)
  | started {b : Build} {g : ParserGroupInfo} {e : Edit} (hstarts : Starts settings dict f st b g)
      (htakes : Takes st g none f e) : Performs settings dict f st b e
  | startedUnknown {b : Build} {bodySpec : Option GroupSpec}
      (hstarts : Starts settings dict f st b (bodyInfo bodySpec))
      (hbody : BodyRefuses settings bodySpec f) (htrailer : TrailerRefuses settings dict f) :
      Performs settings dict f st b (.assign (bodyInfo bodySpec) f.tag f.val)
  | enter {b : Build} {g : ParserGroupInfo} : Performs settings dict f st b (.enter g)
  | finish {b : Build} {g : ParserGroupInfo} (hcount : CountReached settings g) :
      Performs settings dict f st b (.finish g)
  | replace {b : Build} {g : ParserGroupInfo}
      (hbottom : st.stack.getLast? = some g ∨ ∃ bodySpec, g = bodyInfo bodySpec) :
      Performs settings dict f st b (.finish g)

/-! ## What the edits keep, a field keeps -/

section

variable {settings : SessionSettings} {dict : Dictionary} {f : WireField} {st st' : ParseState}
  {I : Build → Prop}

theorem countReached_of_popStack {keep : Nat} : ∀ {stack : List ParserGroupInfo}
    {st st' : ParseState}, popStack settings keep stack st = .ok st' →
      ∀ g ∈ stack.take (stack.length - keep), CountReached settings g := by
  intro stack
  induction stack with
  | nil =>
      intro st st' _ g hg
      rw [List.take_nil] at hg
      cases hg
  | cons g below ih =>
      intro st st' h
      rw [popStack] at h
      split at h
      next hkeep =>
        have hcount : (g :: below).length - keep = below.length - keep + 1 := by
          rw [List.length_cons]
          omega
        rw [hcount, List.take_succ_cons]
        have hrest : ∀ {x : ParseState → Except Exn ParseState}, x = popStack settings keep below →
            (st.validateGroup settings g.group g.spec >>= x) = .ok st' →
              ∀ g' ∈ below.take (below.length - keep), CountReached settings g' := by
          intro x hx hok
          obtain ⟨st₁, -, hok⟩ := bind_eq_ok.mp hok
          rw [hx] at hok
          exact ih hok
        intro g' hg'
        rcases List.mem_cons.mp hg' with rfl | hg'
        · dsimp only at h
          split at h
          next =>
            obtain ⟨_, hthrow, -⟩ := bind_eq_ok.mp h
            exact .inl ((yields_tryLogThrow settings _).of_ok hthrow)
          next hless =>
            refine .inr fun htag => Nat.le_of_not_lt fun hlt => hless ?_
            rw [Bool.and_eq_true, decide_eq_true_eq, decide_eq_true_eq]
            exact ⟨htag, hlt⟩
        · dsimp only at h
          split at h
          next =>
            obtain ⟨_, -, h⟩ := bind_eq_ok.mp h
            exact hrest rfl h g' hg'
          next => exact hrest rfl h g' hg'
      next hkeep =>
        have hcount : (g :: below).length - keep = 0 := by
          rw [List.length_cons]
          omega
        rw [hcount]
        intro g' hg'
        cases hg'

theorem build_modify (st : ParseState) (m : FieldMap → FieldMap) (ref : GroupRef) :
    (st.modify m ref).build = { st.build with msg := st.msg.modify m ref } := rfl

theorem build_noteBodyLength (st : ParseState) (f : WireField) :
    (st.noteBodyLength f).build = st.build := by
  rw [noteBodyLength]
  split
  · simp only [build]
  · rfl

theorem msgState_foldl_finish (popped : List ParserGroupInfo) (st : ParseState) :
    (popped.foldl (finish settings) st).msgState = st.msgState := by
  induction popped generalizing st with
  | nil => rfl
  | cons g popped ih =>
      rw [List.foldl_cons, ih]
      exact modify_msgState _ st g.group

/-- Entries are finished one after the other. -/
theorem invariant_foldl_finish {P : ParserGroupInfo → Prop}
    (hfinish : ∀ b g b', P g → Edits settings dict b (.finish g) b' → I b → I b')
    {s : MessageState} {kept : List ParserGroupInfo} : ∀ (popped : List ParserGroupInfo)
      (st : ParseState), (∀ g ∈ popped, P g) → I ⟨s, popped ++ kept, st.msg⟩ →
        I ⟨s, kept, (popped.foldl (finish settings) st).msg⟩ := by
  intro popped
  induction popped with
  | nil =>
      intro st _ h
      exact h
  | cons g popped ih =>
      intro st hall h
      refine ih (st.finish settings g) (fun g' hg' => hall g' (List.mem_cons_of_mem _ hg')) ?_
      have hedit : Edits settings dict ⟨s, g :: (popped ++ kept), st.msg⟩ (.finish g)
          ⟨s, [] ++ (popped ++ kept), (st.finish settings g).msg⟩ :=
        @Edits.finish settings dict ⟨s, g :: (popped ++ kept), st.msg⟩ [] _ g rfl
      exact hfinish _ g _ (hall g List.mem_cons_self) hedit h

theorem invariant_overwriteStack
    (hfinish : ∀ b g b', CountReached settings g → Edits settings dict b (.finish g) b' →
      I b → I b')
    {keep : Nat} (h : st.overwriteStack settings keep = .ok st') (hst : I st.build) :
    I st'.build := by
  have hcount := countReached_of_popStack h
  have hst' : st' = st.closeTo settings keep := (yields_overwriteStack keep st).of_ok h
  have hstate : (st.closeTo settings keep).msgState = st.msgState := msgState_foldl_finish _ st
  have hbuild : st'.build = ⟨st.msgState, st.stack.drop (st.stack.length - keep),
      ((st.stack.take (st.stack.length - keep)).foldl (finish settings) st).msg⟩ := by
    rw [hst', build, hstate]
    rfl
  rw [hbuild]
  refine invariant_foldl_finish hfinish _ st hcount ?_
  rw [List.take_append_drop]
  exact hst

/-- An entry that takes a field makes one edit. -/
theorem invariant_trySetField {g : ParserGroupInfo} {groupIdx idx : Nat} {r : Tried}
    (s : MessageState) (before below : List ParserGroupInfo)
    (htry : st.trySetField settings dict g groupIdx below.head? f = .ok r) (hidx : r.idx = some idx)
    (hedit : ∀ e b', Takes st g below.head? f e →
      Edits settings dict ⟨s, before ++ g :: below, st.msg⟩ e b' → I b') :
    I ⟨s, r.pushed ++ before ++ r.group :: below, r.st.msg⟩ := by
  have hmem : g ∈ before ++ g :: below := List.mem_append_right _ List.mem_cons_self
  have hoffered := (yields_trySetField st g groupIdx below.head? f).of_ok htry
  cases hoffered with
  | refused _ _ => cases hidx
  | added hspec hfield hnew =>
      have happend := hedit _ _ (.append hspec hfield)
        (@Edits.append settings dict ⟨s, before ++ g :: below, st.msg⟩ g f.tag f.val hmem hnew)
      have hmsg := congrArg Build.msg (build_noteBodyLength (ParseState.announce dict f
        (st.modify (fun m => (m.setFieldViewOrDetectDup f.tag f.val).2) g.group)) f)
      refine Eq.mp (congrArg I ?_) happend
      exact congrArg (Build.mk s (before ++ g :: below)) hmsg.symm
  | @opened spec groupSpec hspec hfield hgroup hnew _ =>
      have hopen := hedit _ _ (.openGroup hspec hfield hgroup)
        (@Edits.openGroup settings dict ⟨s, before ++ g :: below, st.msg⟩ g groupSpec f hmem hnew)
      have hmsg := congrArg Build.msg (build_noteBodyLength (ParseState.announce dict f
        (st.modify (fun m => m.addGroup f.tag) g.group)) f)
      refine Eq.mp (congrArg I ?_) hopen
      refine congrArg (Build.mk s (openedInfo g groupSpec f :: (before ++ g :: below))) ?_
      exact congrArg (fun msg => msg.modify (fun m => m.setFieldView f.tag f.val false) g.group)
        hmsg.symm
  | @next p hspec hparent htag hcount hseen =>
      have hp : p ∈ below := List.mem_of_mem_head? hparent
      have htakes : ∃ spec, g.spec = some spec ∧
          (spec.hasField f.tag = true ∨ (spec.findGroup f.tag).isSome = true) := by
        obtain ⟨spec, hspec, hknown⟩ := hseen
        exact ⟨spec, hspec, hknown.imp And.left fun h => h.2.1⟩
      obtain ⟨spec, hspec, hknown⟩ := htakes
      exact hedit _ _ (.next hspec hknown hparent htag hcount hseen)
        (@Edits.next settings dict ⟨s, before ++ g :: below, st.msg⟩ before below g p f rfl hp)

theorem invariant_dispatchUnknown
    (hassign : ∀ top b', st.stack.head? = some top →
      Edits settings dict st.build (.assign top f.tag f.val) b' → I b')
    (h : dispatchUnknown settings dict f st = .ok st') : I st'.build := by
  obtain ⟨top, htop, rfl⟩ := (yields_dispatchUnknown f st).of_ok h
  have hbuild : (st.addUnknown dict top f).build =
      { st.build with
        msg := st.msg.modify (fun m => m.setFieldView f.tag f.val false) top.group } := by
    rw [addUnknown, build_modify, build_noteBodyLength, msg_noteBodyLength]
    rfl
  rw [hbuild]
  exact hassign top _ htop (.assign (List.mem_of_mem_head? htop))

/-- The field starts the trailer, or it is assigned to the map at the top. -/
theorem invariant_dispatchTrailer
    (hassign : ∀ top b', (st.msgState = .body → TrailerRefuses settings dict f) →
      st.stack.head? = some top → Edits settings dict st.build (.assign top f.tag f.val) b' → I b')
    (htakes : ∀ e b', st.msgState = .body → Takes st (trailerInfo dict) none f e →
      Edits settings dict ⟨.trailer, st.stack ++ [trailerInfo dict], st.msg⟩ e b' → I b')
    (hfinish : ∀ b g b', CountReached settings g ∨ st.stack.getLast? = some g →
      Edits settings dict b (.finish g) b' → I b → I b')
    (h : dispatchTrailer settings dict f st = .ok st') : I st'.build := by
  rw [dispatchTrailer] at h
  split at h
  next hstate =>
    obtain ⟨r, htry, h⟩ := bind_eq_ok.mp h
    have hr := (yields_trySetField st (trailerInfo dict) 0 none f).of_ok htry
    obtain ⟨hstack, -, -, -, -, -⟩ := hr.frame
    cases hidx : r.idx with
    | none =>
        obtain ⟨heq, -, hrefused⟩ := hr.of_idx_none hidx
        have htrailer : TrailerRefuses settings dict f := by
          refine hrefused.imp id fun hnot => ?_
          obtain ⟨spec, hspec, hnot⟩ := hnot
          cases hspec
          exact hnot
        rw [hidx, heq] at h
        exact invariant_dispatchUnknown (fun top b' => hassign top b' fun _ => htrailer) h
    | some idx =>
        have htaken := invariant_trySetField .trailer st.stack [] htry hidx
          fun e b' => htakes e b' hstate
        rw [hidx, hstack] at h
        cases hbottom : st.stack.getLast? with
        | none =>
            rw [hbottom] at h
            cases h
        | some bottom =>
            rw [hbottom] at h
            obtain ⟨st₁, hvalidate, h⟩ := bind_eq_ok.mp h
            have hst₁ := (yields_validateGroup r.st bottom.group bottom.spec).of_ok hvalidate
            have hsplit : st.stack = st.stack.dropLast ++ [bottom] :=
              (List.dropLast_append_getLast? bottom hbottom).symm
            have hentries : r.pushed ++ st.stack ++ [r.group] =
                (r.pushed ++ st.stack.dropLast) ++ bottom :: [r.group] := by
              conv_lhs => rw [hsplit]
              simp only [List.append_assoc, List.singleton_append]
            have hfinished := hfinish _ bottom _ (.inr hbottom)
              (@Edits.finish settings dict ⟨.trailer, r.pushed ++ st.stack ++ [r.group], r.st.msg⟩
                (r.pushed ++ st.stack.dropLast) [r.group] bottom hentries) htaken
            refine invariant_overwriteStack (fun b g b' hg => hfinish b g b' (.inl hg)) h ?_
            rw [hst₁]
            have hstack' : r.pushed ++ replaceBottom st.stack r.group =
                r.pushed ++ st.stack.dropLast ++ [r.group] := by
              rw [replaceBottom, List.append_assoc]
            show I ⟨.trailer, r.pushed ++ replaceBottom st.stack r.group, _⟩
            rw [hstack']
            exact hfinished
  next hstate =>
    exact invariant_dispatchUnknown
      (fun top b' => hassign top b' fun hbody => absurd hbody hstate) h

theorem Takes.writes {g : ParserGroupInfo} {parent : Option ParserGroupInfo} {e : Edit}
    (h : Takes st g parent f e) : e.Writes := by
  cases h with
  | append _ _ => exact True.intro
  | openGroup _ _ _ => exact True.intro
  | next _ _ _ _ _ _ => exact True.intro

theorem Takes.of_none {g : ParserGroupInfo} {e : Edit} (h : Takes st g none f e)
    (st' : ParseState) : Takes st' g none f e := by
  cases h with
  | append hspec hfield => exact .append hspec hfield
  | openGroup hspec hfield hgroup => exact .openGroup hspec hfield hgroup
  | next _ _ hparent _ _ _ => cases hparent

/-- The dispatch of a field makes one edit that writes it.  What holds before that edit and what
holds behind it may differ. -/
theorem phases_dispatchField {I' : Build → Prop}
    (hbefore : ∀ b e b', ¬e.Writes → Performs settings dict f st b e → Edits settings dict b e b' →
      I b → I b')
    (hafter : ∀ b e b', ¬e.Writes → Performs settings dict f st b e → Edits settings dict b e b' →
      I' b → I' b')
    (hwrites : ∀ b e b', e.Writes → Performs settings dict f st b e → Edits settings dict b e b' →
      I b → I' b')
    (h : dispatchField settings dict f st = .ok st') (hst : I st.build) : I' st'.build := by
  have hfinish : ∀ b g b', CountReached settings g → Edits settings dict b (.finish g) b' →
      I' b → I' b' := fun b g b' hg => hafter b _ b' id (.finish hg)
  have hreplace : ∀ b g b', (st.stack.getLast? = some g ∨ ∃ bodySpec, g = bodyInfo bodySpec) →
      Edits settings dict b (.finish g) b' → I' b → I' b' :=
    fun b g b' hg => hafter b _ b' id (.replace hg)
  rcases tries_or_passed h with
    ⟨g, below, before, r, idx, htries, hstack, htry, hidx, hclose⟩ | ⟨hrefused, hbody⟩
  · have hr := (yields_trySetField st g below.length below.head? f).of_ok htry
    obtain ⟨-, hstate, -, -, -, -⟩ := hr.frame
    refine invariant_overwriteStack hfinish hclose ?_
    have htaken := invariant_trySetField st.msgState before below htry hidx
      fun e b' htakes hedits => by
        rw [← hstack] at hedits
        exact hwrites _ e b' htakes.writes (.taken htries htakes) hedits hst
    rw [← hstate] at htaken
    exact htaken
  · rw [dispatchBody] at hbody
    split at hbody
    next hstate =>
      obtain ⟨st₁, hclose, hbody⟩ := bind_eq_ok.mp hbody
      obtain ⟨bodySpec, hspec, hbody⟩ := bind_eq_ok.mp hbody
      obtain ⟨r, htry, hbody⟩ := bind_eq_ok.mp hbody
      have hst₁ : st₁ = st.closeTo settings 0 := (yields_overwriteStack 0 st).of_ok hclose
      have hclosed := invariant_overwriteStack
        (fun b g b' hg => hbefore b _ b' id (.finish hg)) hclose hst
      rw [hst₁] at hspec htry hclosed
      have hempty : (st.closeTo settings 0).stack = [] := by
        rw [closeTo, Nat.sub_zero]
        exact List.drop_length
      have hheader : (st.closeTo settings 0).msgState = .header :=
        (msgState_foldl_finish _ st).trans hstate
      have hstarts : Starts settings dict f st (st.toBody settings bodySpec).build
          (bodyInfo bodySpec) := .body hrefused hstate hspec
      have hentered : I (st.toBody settings bodySpec).build :=
        hbefore _ _ _ id (.enter (g := bodyInfo bodySpec)) (.body hheader hempty) hclosed
      have hr := (yields_trySetField (st.toBody settings bodySpec) (bodyInfo bodySpec) 0 none
        f).of_ok htry
      obtain ⟨-, hstate', -, -, -, -⟩ := hr.frame
      cases hidx : r.idx with
      | some idx =>
          have htaken := invariant_trySetField .body [] [] htry hidx
            fun e b' htakes hedits => hwrites _ e b' htakes.writes
              (.started hstarts (htakes.of_none st)) hedits hentered
          rw [hidx] at hbody
          cases hbody
          rw [List.append_nil] at htaken
          show I' ⟨r.st.msgState, r.pushed ++ [r.group], r.st.msg⟩
          rw [hstate']
          exact htaken
      | none =>
          obtain ⟨heq, -, hunknown⟩ := hr.of_idx_none hidx
          rw [hidx, heq] at hbody
          refine invariant_dispatchTrailer (fun top b' htrailer htop hedits => ?_)
            (fun e b' _ htakes hedits => ?_) (fun b g b' hg => ?_) hbody
          · cases htop
            exact hwrites _ (.assign (bodyInfo bodySpec) f.tag f.val) b' True.intro
              (.startedUnknown hstarts hunknown (htrailer rfl)) hedits hentered
          · have hboth := Starts.both hrefused hstate hspec hunknown
            refine hwrites _ e b' htakes.writes (.started hboth (htakes.of_none st)) hedits ?_
            exact hbefore _ _ _ id (.enter (g := trailerInfo dict)) (.trailer rfl) hentered
          · rcases hg with hg | hbottom
            · exact hfinish b g b' hg
            · cases hbottom
              exact hreplace b _ b' (.inr ⟨bodySpec, rfl⟩)
    next hstate =>
      refine invariant_dispatchTrailer (fun top b' htrailer htop hedits => ?_)
        (fun e b' hstate' htakes hedits => ?_) (fun b g b' hg => ?_) hbody
      · exact hwrites _ (.assign top f.tag f.val) b' True.intro
          (.unknown hrefused hstate htrailer htop) hedits hst
      · refine hwrites _ e b' htakes.writes (.started (.trailer hrefused hstate') htakes) hedits ?_
        exact hbefore _ _ _ id (.enter (g := trailerInfo dict)) (.trailer hstate') hst
      · rcases hg with hg | hbottom
        · exact hfinish b g b' hg
        · exact hreplace b _ b' (.inl hbottom)

/-- What every edit for a field keeps, the dispatch of the field keeps. -/
theorem invariant_dispatchField
    (hedit : ∀ b e b', Performs settings dict f st b e → Edits settings dict b e b' → I b → I b')
    (h : dispatchField settings dict f st = .ok st') (hst : I st.build) : I st'.build :=
  phases_dispatchField (fun b e b' _ => hedit b e b') (fun b e b' _ => hedit b e b')
    (fun b e b' _ => hedit b e b') h hst

/-- An entry that takes the field when it is tried makes the one edit of the dispatch that writes
it. -/
theorem Tries.invariant_dispatchField {g : ParserGroupInfo} {below : List ParserGroupInfo}
    (htries : Tries settings dict f st g below)
    (htakes : ∀ r, st.trySetField settings dict g below.length below.head? f = .ok r →
      ∃ idx, r.idx = some idx)
    (hfinish : ∀ b g b', CountReached settings g → Edits settings dict b (.finish g) b' →
      I b → I b')
    (hedit : ∀ e b', Takes st g below.head? f e → Edits settings dict st.build e b' → I b')
    (h : dispatchField settings dict f st = .ok st') : I st'.build := by
  cases htry : st.trySetField settings dict g below.length below.head? f with
  | error e =>
      rw [htries.dispatchField_error htry] at h
      cases h
  | ok r =>
      obtain ⟨idx, hidx⟩ := htakes r htry
      obtain ⟨before, hstack, hdispatch⟩ := htries.dispatchField_ok htry hidx
      obtain ⟨-, hstate, -, -, -, -⟩ :=
        ((yields_trySetField st g below.length below.head? f).of_ok htry).frame
      have htaken := invariant_trySetField st.msgState before below htry hidx
        fun e b' htakes hedits => by
          rw [← hstack] at hedits
          exact hedit e b' htakes hedits
      rw [← hstate] at htaken
      rw [hdispatch] at h
      exact invariant_overwriteStack hfinish h htaken

theorem Refused.dispatchBody_ok (hrefused : Refused settings dict f st)
    (h : dispatchField settings dict f st = .ok st') :
    dispatchBody settings dict f st = .ok st' := by
  rcases hrefused with ⟨top, spec, htop, hspec, hempty⟩ | hstack
  · rw [dispatchField, htop] at h
    dsimp only at h
    rw [hspec] at h
    dsimp only at h
    rwa [if_pos hempty] at h
  · rcases tries_or_passed h with ⟨g, below, _, r, idx, htries, -, htry, hidx, -⟩ | ⟨-, hbody⟩
    · obtain ⟨before, -, hdispatch⟩ := htries.turn.dispatchStack_ok htry hidx
      have htaken := hdispatch []
      rw [hstack] at htaken
      cases htaken
    · exact hbody

/-- A field that no specification knows is assigned to the map at the top. -/
theorem Refused.invariant_dispatchField (hstrict : settings.relaxedParsing = false)
    (hrefused : Refused settings dict f st) (hstate : st.msgState ≠ .header)
    (htrailer : st.msgState = .body → TrailerRefuses settings dict f)
    (hfinish : ∀ b g b', Edits settings dict b (.finish g) b' → I b → I b')
    (hassign : ∀ top b', st.stack.head? = some top →
      Edits settings dict st.build (.assign top f.tag f.val) b' → I b')
    (h : dispatchField settings dict f st = .ok st') : I st'.build := by
  have hbody := hrefused.dispatchBody_ok h
  rw [dispatchBody, if_neg hstate] at hbody
  refine invariant_dispatchTrailer (fun top b' _ => hassign top b')
    (fun e b' hin htakes _ => ?_) (fun b g b' _ => hfinish b g b') hbody
  rcases htrailer hin with hrelaxed | ⟨hfield, hgroup⟩
  · rw [hstrict] at hrelaxed
    cases hrelaxed
  · cases htakes with
    | append hspec hknown =>
        cases hspec
        rw [hfield] at hknown
        cases hknown
    | openGroup hspec _ hknown =>
        cases hspec
        rw [hgroup] at hknown
        cases hknown
    | next _ _ hparent _ _ _ => cases hparent

end

end ParseState

/-! ## What the edits keep, a parse keeps -/

section

variable {settings : SessionSettings} {dict : Dictionary} {size : Nat} {I : Build → Prop}

/-- The edits that a round makes. -/
inductive PerformsIn (settings : SessionSettings) (dict : Dictionary) (size : Nat) (text : Bytes)
    (st : ParseState) : Build → Edit → Prop where
  | data {tagText rest : Bytes} {len : Nat} {top : ParserGroupInfo}
      (htag : Tagged settings text st tagText rest) (hlen : st.dataLength = some len)
      (htype : dict.getFieldType (fastParseTag tagText) = .data)
      (htop : st.stack.head? = some top) :
      PerformsIn settings dict size text st st.build
        (.assign top (fastParseTag tagText) (rest.take len))
  | field {next : Bytes} {f : WireField} {b : Build} {e : Edit}
      (hdispatches : Dispatches settings dict size text st next f)
      (h : ParseState.Performs settings dict f (st.started f.tag) b e) :
      PerformsIn settings dict size text st b e

theorem invariant_parseRound {text next : Bytes} {st st' : ParseState}
    (hedit : ∀ b e b', PerformsIn settings dict size text st b e → Edits settings dict b e b' →
      I b → I b')
    (h : parseRound settings dict size (text, st) = .ok (.inl (next, st'))) (hst : I st.build) :
    I st'.build := by
  cases parseRound_next h with
  | skipped _ _ _ => exact hst
  | data htag hlen htype _ htop =>
      exact hedit _ _ _ (.data htag hlen htype htop) (.assign (List.mem_of_mem_head? htop)) hst
  | filed hdispatches hdispatch =>
      exact ParseState.invariant_dispatchField
        (fun b e b' hperforms => hedit b e b' (.field hdispatches hperforms)) hdispatch hst

/-- What the edits of all rounds from a state on keep holds in every state reached from it. -/
theorem invariant_of_reaches {p p' : Bytes × ParseState} (hstart : I p.2.build)
    (hedit : ∀ text st, Reaches (parseRound settings dict size) p (text, st) →
      ∀ b e b', PerformsIn settings dict size text st b e → Edits settings dict b e b' →
        I b → I b')
    (h : Reaches (parseRound settings dict size) p p') : I p'.2.build := by
  induction h with
  | refl => exact hstart
  | tail hreaches hround ih => exact invariant_parseRound (hedit _ _ hreaches) hround ih

/-- What is built when a message is accepted: no entry is open, and the checksum is taken out of
the trailer. -/
theorem built_of_parse {text : Bytes} {msg : Message} (h : dict.parse settings text = .ok msg)
    {p : Bytes × ParseState}
    (hp : Reaches (parseRound settings dict text.length) (text, .init dict) p)
    (hstart : I p.2.build)
    (hedit : ∀ text' st, Reaches (parseRound settings dict text.length) p (text', st) →
      ∀ b e b', PerformsIn settings dict text.length text' st b e → Edits settings dict b e b' →
        I b → I b')
    (hfinish : ∀ b g b', ParseState.CountReached settings g →
      Edits settings dict b (.finish g) b' → I b → I b') :
    ∃ b, I b ∧ b.entries = [] ∧ (settings.relaxedParsing = true ∨ b.state = .trailer) ∧
      msg = b.msg.modify (fun m => m.removeField Field.checkSum) ⟨.trailer, []⟩ := by
  obtain ⟨st, hloop, hclose, hmsg, hstrict⟩ := parse_ok h
  obtain ⟨⟨text', st'⟩, hreaches, hround⟩ :=
    ((ends_parseLoop _ text (.init dict) (le_refl _)).eq_iff _).mp hloop
  have hbuild : st.build = st'.build := by
    rcases parseRound_done hround with ⟨-, rfl⟩ | ⟨-, hstack, hmsg, hstate⟩
    · rfl
    · rw [ParseState.build, ParseState.build, hstack, hmsg, hstate]
  have hlast := hp.to_last hreaches fun v hv => by
    rw [hround] at hv
    cases hv
  have hst : I st.build := hbuild ▸ invariant_of_reaches hstart hedit hlast
  refine ⟨(st.closeTo settings 0).build, ?_, ?_, hstrict.imp id And.left, hmsg⟩
  · exact ParseState.invariant_overwriteStack hfinish hclose hst
  · show st.stack.drop (st.stack.length - 0) = []
    rw [Nat.sub_zero]
    exact List.drop_length

end

/-! ## The parts of a message -/

/-- The parts that the parser has not come to. -/
def Ahead : MessageState → MessageSection → Prop
  | .header, .body => True
  | .header, .trailer => True
  | .body, .trailer => True
  | _, _ => False

/-- The parts of the message are filled one after the other. -/
structure Staged (b : Build) : Prop where
  entries : ∀ g ∈ b.entries, ¬Ahead b.state g.group.sec
  empty : ∀ ref, Ahead b.state ref.sec → b.msg.node ref = FieldMap.new.node

section

variable {settings : SessionSettings} {dict : Dictionary} {b b' : Build} {e : Edit}

theorem Staged.modify (h : Staged b) {f : FieldMap → FieldMap} (hf : FieldMap.KeepsInstances f)
    {ref' : GroupRef} (href : ¬Ahead b.state ref'.sec) {entries : List ParserGroupInfo}
    (hentries : ∀ g ∈ entries, ¬Ahead b.state g.group.sec) :
    Staged ⟨b.state, entries, b.msg.modify f ref'⟩ := by
  refine ⟨hentries, fun ref hahead => ?_⟩
  have hne : ref ≠ ref' := fun heq => href (heq ▸ hahead)
  exact (Message.node_modify_ne hf hne b.msg).trans (h.empty ref hahead)

theorem Edits.staged (h : Edits settings dict b e b') (hb : Staged b) : Staged b' := by
  have hfinish := fun g : ParserGroupInfo =>
    FieldMap.keepsInstances_of_groups (FieldMap.groups_finishMap settings g.spec)
  have hdetect := fun (tag : Int) (value : Bytes) => FieldMap.keepsInstances_of_groups
    fun m => m.groups_setFieldViewOrDetectDup tag value
  have hassign := fun (tag : Int) (value : Bytes) => FieldMap.keepsInstances_of_groups
    fun m => m.groups_setFieldView tag value false
  cases h with
  | @append g tag value hg _ =>
      exact hb.modify (hdetect tag value) (hb.entries g hg) hb.entries
  | @assign g tag value hg => exact hb.modify (hassign tag value) (hb.entries g hg) hb.entries
  | @openGroup g spec f hg _ =>
      have hadd := hb.modify (FieldMap.keepsInstances_addGroup f.tag) (hb.entries g hg) hb.entries
      refine hadd.modify (hassign f.tag f.val) (hb.entries g hg) fun g' hg' => ?_
      rcases List.mem_cons.mp hg' with rfl | hg'
      · exact hb.entries g hg
      · exact hb.entries g' hg'
  | @next before after g p f hentries hp =>
      have hmem : ∀ g' ∈ before ++ g :: after, ¬Ahead b.state g'.group.sec := hentries ▸ hb.entries
      have hsecp : ¬Ahead b.state p.group.sec :=
        hmem p (List.mem_append_right _ (List.mem_cons_of_mem _ hp))
      have hsecg : ¬Ahead b.state g.group.sec :=
        hmem g (List.mem_append_right _ List.mem_cons_self)
      have hfinished := hb.modify (hfinish g) hsecg hb.entries
      have hadded := hfinished.modify (FieldMap.keepsInstances_addGroup g.groupTag) hsecp hb.entries
      refine @Staged.modify _ hadded _ (hdetect f.tag f.val) (nextRef settings b.msg g p) hsecp _
        fun g' hg' => ?_
      rcases List.mem_append.mp hg' with hg' | hg'
      · exact hmem g' (List.mem_append_left _ hg')
      · rcases List.mem_cons.mp hg' with rfl | hg'
        · exact hsecp
        · exact hmem g' (List.mem_append_right _ (List.mem_cons_of_mem _ hg'))
  | @finish before after g hentries =>
      have hmem : ∀ g' ∈ before ++ g :: after, ¬Ahead b.state g'.group.sec := hentries ▸ hb.entries
      refine hb.modify (hfinish g) (hmem g (List.mem_append_right _ List.mem_cons_self))
        fun g' hg' => hmem g' ?_
      rcases List.mem_append.mp hg' with hg' | hg'
      · exact List.mem_append_left _ hg'
      · exact List.mem_append_right _ (List.mem_cons_of_mem _ hg')
  | @body bodySpec hstate _ =>
      refine ⟨fun g hg => ?_, fun ref hahead => hb.empty ref ?_⟩
      · rw [List.mem_singleton.mp hg]
        exact id
      · obtain ⟨sec, path⟩ := ref
        rw [hstate]
        cases sec with
        | header => exact hahead
        | body => exact hahead.elim
        | trailer => exact True.intro
  | trailer _ => exact ⟨fun g _ => id, fun ref hahead => hahead.elim⟩

theorem staged_init (dict : Dictionary) : Staged (ParseState.init dict).build := by
  refine ⟨fun g hg => ?_, fun ref _ => Message.node_new ref⟩
  rw [List.mem_singleton.mp hg]
  exact id

theorem staged_of_reaches {size : Nat} {text text' : Bytes} {st : ParseState}
    (h : Reaches (parseRound settings dict size) (text, .init dict) (text', st)) :
    Staged st.build :=
  @invariant_of_reaches settings dict size Staged _ _ (staged_init dict)
    (fun _ _ _ _ _ _ _ hedits => hedits.staged) h

/-- What a message has of a part is nothing when the part is started. -/
theorem ParseState.Starts.node_eq {st : ParseState} {g : ParserGroupInfo}
    {f : WireField} (h : Starts settings dict f st b g) (hst : Staged st.build) :
    b.msg.node g.group = FieldMap.new.node := by
  have hclose : Staged ⟨st.msgState, [], (st.closeTo settings 0).msg⟩ := by
    refine @invariant_foldl_finish settings dict Staged (fun _ => True)
      (fun b g b' _ hedits hb => hedits.staged hb) _ _ _ st (fun _ _ => True.intro) ?_
    rw [List.append_nil, Nat.sub_zero, List.take_length]
    exact hst
  cases h with
  | body _ hstate _ => exact hclose.empty _ (by rw [hstate]; exact True.intro)
  | trailer _ hstate =>
      exact hst.empty _ (by show Ahead st.msgState _; rw [hstate]; exact True.intro)
  | both _ hstate _ _ => exact hclose.empty _ (by rw [hstate]; exact True.intro)

end

/-! ## The maps of the entries -/

/-- The maps of the open entries are there, and they are different ones. -/
structure Grounded (b : Build) : Prop where
  valid : ∀ g ∈ b.entries, b.msg.Valid g.group
  nodup : (b.entries.map ParserGroupInfo.group).Nodup

theorem getGroupCount_of_groups {f : FieldMap → FieldMap} (h : ∀ m, (f m).groups = m.groups)
    (m : FieldMap) (tag : Int) : m.getGroupCount tag ≤ (f m).getGroupCount tag := by
  rw [FieldMap.getGroupCount, FieldMap.getGroupCount, h]

theorem getGroupCount_le_addGroup (group : Int) (m : FieldMap) (tag : Int) :
    m.getGroupCount tag ≤ (m.addGroup group).getGroupCount tag := by
  rw [FieldMap.getGroupCount_addGroup]
  split
  · exact Nat.le_succ _
  · exact Nat.le_refl _

/-- A change that keeps the groups keeps what is there. -/
theorem Message.Valid.of_groups {msg : Message} {ref ref' : GroupRef} (h : msg.Valid ref)
    {f : FieldMap → FieldMap} (hf : ∀ m, (f m).groups = m.groups) :
    (msg.modify f ref').Valid ref :=
  h.modify (FieldMap.keepsInstances_of_groups hf) (getGroupCount_of_groups hf)

theorem Message.Valid.addGroup {msg : Message} {ref ref' : GroupRef} (h : msg.Valid ref)
    (tag : Int) : (msg.modify (fun m => m.addGroup tag) ref').Valid ref :=
  h.modify (FieldMap.keepsInstances_addGroup tag) (getGroupCount_le_addGroup tag)

/-- The instance that is added is there, and it was not there before. -/
theorem valid_addGroup {msg : Message} {ref : GroupRef} (h : msg.Valid ref) (tag : Int) :
    ¬msg.Valid (ref.child tag ((msg.get ref).getGroupCount tag)) ∧
      (msg.modify (fun m => m.addGroup tag) ref).Valid
        (ref.child tag ((msg.get ref).getGroupCount tag)) := by
  constructor
  · intro hvalid
    exact absurd (Message.valid_child.mp hvalid).2 (Nat.lt_irrefl _)
  · refine Message.valid_child.mpr ⟨h.addGroup tag, ?_⟩
    rw [Message.node_modify_self h]
    show (msg.get ref).getGroupCount tag < ((msg.get ref).addGroup tag).getGroupCount tag
    rw [FieldMap.getGroupCount_addGroup, if_pos rfl]
    exact Nat.lt_succ_self _

theorem Edits.grounded {settings : SessionSettings} {dict : Dictionary} {b b' : Build} {e : Edit}
    (h : Edits settings dict b e b') (horder : Staged b) (hb : Grounded b) : Grounded b' := by
  cases h with
  | @append g tag value hg _ =>
      exact ⟨fun g' hg' => (hb.valid g' hg').of_groups
        fun m => m.groups_setFieldViewOrDetectDup tag value, hb.nodup⟩
  | @assign g tag value hg =>
      exact ⟨fun g' hg' => (hb.valid g' hg').of_groups
        fun m => m.groups_setFieldView tag value false, hb.nodup⟩
  | @openGroup g spec f hg hnew =>
      obtain ⟨hnot, hvalid⟩ := valid_addGroup (hb.valid g hg) f.tag
      rw [hnew] at hnot hvalid
      constructor
      · intro g' hg'
        refine Message.Valid.of_groups ?_ fun m => m.groups_setFieldView f.tag f.val false
        rcases List.mem_cons.mp hg' with rfl | hg'
        · exact hvalid
        · exact (hb.valid g' hg').addGroup f.tag
      · refine List.nodup_cons.mpr ⟨fun hmem => ?_, hb.nodup⟩
        obtain ⟨g', hg', heq⟩ := List.mem_map.mp hmem
        have hold : b.msg.Valid (ParseState.openedInfo g spec f).group := heq ▸ hb.valid g' hg'
        exact hnot hold
  | @next before after g p f hentries hp =>
      have hmem : ∀ g' ∈ before ++ g :: after, b.msg.Valid g'.group := hentries ▸ hb.valid
      have hfinish : ∀ g' ∈ before ++ g :: after,
          (b.msg.modify (ParseState.finishMap settings g.spec) g.group).Valid g'.group :=
        fun g' hg' => (hmem g' hg').of_groups (FieldMap.groups_finishMap settings g.spec)
      obtain ⟨hnot, hvalid⟩ := valid_addGroup
        (hfinish p (List.mem_append_right _ (List.mem_cons_of_mem _ hp))) g.groupTag
      have hothers : ∀ g' ∈ before ++ after, g' ∈ before ++ g :: after := by
        intro g' hg'
        rcases List.mem_append.mp hg' with hg' | hg'
        · exact List.mem_append_left _ hg'
        · exact List.mem_append_right _ (List.mem_cons_of_mem _ hg')
      constructor
      · intro g' hg'
        refine Message.Valid.of_groups ?_ fun m => m.groups_setFieldViewOrDetectDup f.tag f.val
        rcases List.mem_cons.mp (List.perm_middle.mem_iff.mp hg') with rfl | hg'
        · exact hvalid
        · exact (hfinish g' (hothers g' hg')).addGroup g.groupTag
      · have hnodup := hb.nodup
        rw [hentries, List.map_append, List.map_cons] at hnodup
        have hrest := (List.nodup_cons.mp (List.nodup_middle.mp hnodup)).2
        rw [List.map_append, List.map_cons]
        refine List.nodup_middle.mpr (List.nodup_cons.mpr ⟨fun hin => ?_, hrest⟩)
        rw [← List.map_append] at hin
        obtain ⟨g', hg', heq⟩ := List.mem_map.mp hin
        have hold := hfinish g' (hothers g' hg')
        rw [heq] at hold
        exact hnot hold
  | @finish before after g hentries =>
      have hothers : ∀ g' ∈ before ++ after, g' ∈ b.entries := by
        intro g' hg'
        rw [hentries]
        rcases List.mem_append.mp hg' with hg' | hg'
        · exact List.mem_append_left _ hg'
        · exact List.mem_append_right _ (List.mem_cons_of_mem _ hg')
      constructor
      · intro g' hg'
        exact (hb.valid g' (hothers g' hg')).of_groups (FieldMap.groups_finishMap settings g.spec)
      · have hnodup := hb.nodup
        rw [hentries, List.map_append, List.map_cons] at hnodup
        rw [List.map_append]
        exact (List.nodup_cons.mp (List.nodup_middle.mp hnodup)).2
  | body _ _ =>
      refine ⟨fun g hg => ?_, List.nodup_singleton _⟩
      rw [List.mem_singleton.mp hg]
      exact Message.valid_section .body
  | trailer hstate =>
      constructor
      · intro g hg
        rcases List.mem_append.mp hg with hg | hg
        · exact hb.valid g hg
        · rw [List.mem_singleton.mp hg]
          exact Message.valid_section .trailer
      · rw [List.map_append]
        refine hb.nodup.append (List.nodup_singleton _) fun ref hin heq => ?_
        obtain ⟨g, hg, hgroup⟩ := List.mem_map.mp hin
        refine horder.entries g hg ?_
        rw [hgroup, List.mem_singleton.mp heq, hstate]
        exact True.intro

theorem grounded_init (dict : Dictionary) : Grounded (ParseState.init dict).build := by
  refine ⟨fun g hg => ?_, List.nodup_singleton _⟩
  rw [List.mem_singleton.mp hg]
  exact Message.valid_section .header

theorem grounded_of_reaches {settings : SessionSettings} {dict : Dictionary} {size : Nat}
    {text text' : Bytes} {st : ParseState}
    (h : Reaches (parseRound settings dict size) (text, .init dict) (text', st)) :
    Staged st.build ∧ Grounded st.build :=
  @invariant_of_reaches settings dict size (fun b => Staged b ∧ Grounded b) _ _
    ⟨staged_init dict, grounded_init dict⟩
    (fun _ _ _ _ _ _ _ hedits hb => ⟨hedits.staged hb.1, hedits.grounded hb.1 hb.2⟩) h

/-! ## The header that is left -/

/-- The parser is behind the header, which is complete. -/
structure HeaderLeft (header : FieldMap) (b : Build) : Prop where
  state : b.state ≠ .header
  entries : ∀ g ∈ b.entries, g.group.sec ≠ .header
  header : b.msg.header = header

theorem Message.header_modify_of_ne {ref : GroupRef} (h : ref.sec ≠ .header)
    (f : FieldMap → FieldMap) (msg : Message) : (msg.modify f ref).header = msg.header := by
  obtain ⟨sec, path⟩ := ref
  cases sec with
  | header => exact absurd rfl h
  | body => rfl
  | trailer => rfl

theorem Message.find?_header_modify {f : FieldMap → FieldMap} {tag : Int}
    (hf : ∀ m : FieldMap, AssocList.find? tag m.fields = none →
      AssocList.find? tag (f m).fields = none) {msg : Message}
    (h : AssocList.find? tag msg.header.fields = none) (ref : GroupRef) :
    AssocList.find? tag (msg.modify f ref).header.fields = none := by
  obtain ⟨sec, path⟩ := ref
  cases sec with
  | header => cases path with
    | nil => exact hf _ h
    | cons p path => exact h
  | body => exact h
  | trailer => exact h

section

variable {settings : SessionSettings} {dict : Dictionary} {b b' : Build} {e : Edit}
  {header : FieldMap}

theorem Edits.headerLeft (h : Edits settings dict b e b') (hb : HeaderLeft header b) :
    HeaderLeft header b' := by
  have hmodify : ∀ {g : ParserGroupInfo}, g ∈ b.entries → ∀ f : FieldMap → FieldMap,
      (b.msg.modify f g.group).header = header := fun hg f =>
    (Message.header_modify_of_ne (hb.entries _ hg) f _).trans hb.header
  cases h with
  | append hg _ => exact ⟨hb.state, hb.entries, hmodify hg _⟩
  | assign hg => exact ⟨hb.state, hb.entries, hmodify hg _⟩
  | @openGroup g spec f hg _ =>
      refine ⟨hb.state, fun g' hg' => ?_, ?_⟩
      · rcases List.mem_cons.mp hg' with rfl | hg'
        · exact hb.entries g hg
        · exact hb.entries g' hg'
      · exact (Message.header_modify_of_ne (hb.entries g hg) _ _).trans (hmodify hg _)
  | @next before after g p f hentries hp =>
      have hmem : ∀ g' ∈ before ++ g :: after, g'.group.sec ≠ .header := hentries ▸ hb.entries
      have hg : g ∈ b.entries := hentries ▸ List.mem_append_right _ List.mem_cons_self
      have hsecp : p.group.sec ≠ .header :=
        hmem p (List.mem_append_right _ (List.mem_cons_of_mem _ hp))
      refine ⟨hb.state, fun g' hg' => ?_, ?_⟩
      · rcases List.mem_append.mp hg' with hg' | hg'
        · exact hmem g' (List.mem_append_left _ hg')
        · rcases List.mem_cons.mp hg' with rfl | hg'
          · exact hsecp
          · exact hmem g' (List.mem_append_right _ (List.mem_cons_of_mem _ hg'))
      · have hnext : (nextRef settings b.msg g p).sec ≠ .header := hsecp
        refine (Message.header_modify_of_ne hnext _ _).trans ?_
        exact (Message.header_modify_of_ne hsecp _ _).trans (hmodify hg _)
  | @finish before after g hentries =>
      have hmem : ∀ g' ∈ before ++ g :: after, g'.group.sec ≠ .header := hentries ▸ hb.entries
      refine ⟨hb.state, fun g' hg' => hmem g' ?_,
        hmodify (hentries ▸ List.mem_append_right _ List.mem_cons_self) _⟩
      rcases List.mem_append.mp hg' with hg' | hg'
      · exact List.mem_append_left _ hg'
      · exact List.mem_append_right _ (List.mem_cons_of_mem _ hg')
  | body hstate _ => exact absurd hstate hb.state
  | trailer _ =>
      refine ⟨MessageState.noConfusion, fun g hg => ?_, hb.header⟩
      rcases List.mem_append.mp hg with hg | hg
      · exact hb.entries g hg
      · rw [List.mem_singleton.mp hg]
        exact MessageSection.noConfusion

/-- The message that is accepted has the header that was left. -/
theorem header_of_parse {text : Bytes} {msg : Message} (h : dict.parse settings text = .ok msg)
    {p : Bytes × ParseState}
    (hp : Reaches (parseRound settings dict text.length) (text, .init dict) p)
    (hleft : HeaderLeft header p.2.build) : msg.header = header := by
  obtain ⟨b, hb, -, -, rfl⟩ := built_of_parse h hp hleft
    (fun _ _ _ _ _ _ _ hedits => hedits.headerLeft) fun _ _ _ _ hedits => hedits.headerLeft
  exact hb.header

/-- No entry of the stack has the field. -/
def ParseState.Passes (st : ParseState) (tag : Int) : Prop :=
  ∀ g ∈ st.stack, ∃ spec, g.spec = some spec ∧ spec.hasField tag = false ∧
    spec.findGroup tag = none

theorem ParseState.Passes.not_takes {st : ParseState} {f : WireField} {g : ParserGroupInfo}
    (h : st.Passes f.tag) (hg : g ∈ st.stack) (parent : Option ParserGroupInfo) (e : Edit) :
    ¬Takes st g parent f e := by
  obtain ⟨spec, hspec, hfield, hgroup⟩ := h g hg
  intro htakes
  cases htakes with
  | append hspec' hknown =>
      cases hspec.symm.trans hspec'
      rw [hfield] at hknown
      cases hknown
  | openGroup hspec' _ hknown =>
      cases hspec.symm.trans hspec'
      rw [hgroup] at hknown
      cases hknown
  | next hspec' hknown _ _ _ _ =>
      cases hspec.symm.trans hspec'
      rw [hfield, hgroup] at hknown
      rcases hknown with hknown | hknown
      · cases hknown
      · cases hknown

/-- A field that the header passes leaves the header, and does not put other tags into it. -/
theorem ParseState.headerLeft_dispatchField {st st' : ParseState} {f : WireField}
    (h : dispatchField settings dict f st = .ok st') (hstate : st.msgState = .header)
    (hpasses : st.Passes f.tag) {tag : Int}
    (hnone : AssocList.find? tag st.msg.header.fields = none) :
    ∃ header, HeaderLeft header st'.build ∧ AssocList.find? tag header.fields = none := by
  have hkeep : ∀ b e b', ¬e.Writes → Edits settings dict b e b' →
      AssocList.find? tag b.msg.header.fields = none →
        AssocList.find? tag b'.msg.header.fields = none := by
    intro b e b' hquiet hedits hb
    cases hedits with
    | append _ _ => exact absurd True.intro hquiet
    | assign _ => exact absurd True.intro hquiet
    | openGroup _ _ => exact absurd True.intro hquiet
    | next _ _ => exact absurd True.intro hquiet
    | finish _ =>
        refine Message.find?_header_modify (fun m hm => ?_) hb _
        rw [FieldMap.find?_finishMap, hm]
    | body _ _ => exact hb
    | trailer _ => exact hb
  refine @phases_dispatchField settings dict f st st'
    (fun b => AssocList.find? tag b.msg.header.fields = none)
    (fun b => ∃ header, HeaderLeft header b ∧ AssocList.find? tag header.fields = none)
    (fun b e b' hquiet _ => hkeep b e b' hquiet)
    (fun b e b' _ _ hedits ⟨header, hleft, hheader⟩ => ⟨header, hedits.headerLeft hleft, hheader⟩)
    (fun b e b' hwrites hperforms hedits hb => ?_) h hnone
  cases hperforms with
  | taken htries htakes => exact absurd htakes (hpasses.not_takes htries.turn.mem _ _)
  | unknown _ hnot _ _ => exact absurd hstate hnot
  | started hstarts _ =>
      refine ⟨_, hedits.headerLeft ⟨?_, ?_, rfl⟩, hb⟩
      · cases hstarts with
        | body _ _ _ => exact MessageState.noConfusion
        | trailer _ _ => exact MessageState.noConfusion
        | both _ _ _ _ => exact MessageState.noConfusion
      · cases hstarts with
        | body _ _ _ =>
            intro g hg
            rw [List.mem_singleton.mp hg]
            exact MessageSection.noConfusion
        | trailer _ hbody =>
            rw [hstate] at hbody
            cases hbody
        | both _ _ _ _ =>
            intro g hg
            rcases List.mem_cons.mp hg with rfl | hg
            · exact MessageSection.noConfusion
            · rw [List.mem_singleton.mp hg]
              exact MessageSection.noConfusion
  | startedUnknown hstarts _ _ =>
      cases hstarts with
      | body _ _ _ =>
          refine ⟨_, hedits.headerLeft ⟨MessageState.noConfusion, fun g hg => ?_, rfl⟩, hb⟩
          rw [List.mem_singleton.mp hg]
          exact MessageSection.noConfusion
  | enter => exact absurd hwrites id
  | finish _ => exact absurd hwrites id
  | replace _ => exact absurd hwrites id

end

end OpenFix
