import Mathlib.Algebra.Order.Group.Multiset
import OpenFix.Edits

/-!
# The fields of a text

A text is a sequence of fields, each ended by the separator.  A data field is as long as the
field in front of it says.  Every round of a parse reads the field at the front of the text,
and makes one edit that writes it.

So an invariant may speak of the fields that are still to come, next to what is built.
-/

namespace OpenFix

open Loop

/-- The size of a field that is read as data. -/
def dataSize (dict : Dictionary) (len : Option Nat) (tag : Int) : Option Nat :=
  if dict.getFieldType tag = .data then len else none

theorem dataSize_of_not_data {dict : Dictionary} {len : Option Nat} {tag : Int}
    (h : len = none ∨ dict.getFieldType tag ≠ .data) : dataSize dict len tag = none := by
  rw [dataSize]
  split
  next htype => exact h.resolve_right fun hne => hne htype
  next => rfl

/-- The first `n` fields of a text.  The number `len` is what the field in front of it announced. -/
def tokens (dict : Dictionary) : Nat → Option Nat → Bytes → List (Int × Bytes)
  | 0, _, _ => []
  | n + 1, len, text =>
      match splitByte tagAssignmentChar text with
      | none => []
      | some (tagText, rest) =>
          match dataSize dict len (fastParseTag tagText) with
          | some size =>
              (fastParseTag tagText, rest.take size) :: tokens dict n none (rest.drop (size + 1))
          | none =>
              match splitByte internalSohChar rest with
              | none => []
              | some (val, next) =>
                  (fastParseTag tagText, val) ::
                    tokens dict n (ParseState.announced dict ⟨fastParseTag tagText, val, 0⟩) next

/-- All fields of a text. -/
def Dictionary.fieldsOf (dict : Dictionary) (text : Bytes) : List (Int × Bytes) :=
  tokens dict text.length none text

section

variable {dict : Dictionary} {n m : Nat} {len : Option Nat} {text tagText rest : Bytes}

theorem tokens_nil (n : Nat) (len : Option Nat) : tokens dict n len [] = [] := by
  cases n with
  | zero => rfl
  | succ n => rfl

theorem tokens_data {size : Nat} (hsplit : splitByte tagAssignmentChar text = some (tagText, rest))
    (hsize : dataSize dict len (fastParseTag tagText) = some size) :
    tokens dict (n + 1) len text =
      (fastParseTag tagText, rest.take size) :: tokens dict n none (rest.drop (size + 1)) := by
  rw [tokens, hsplit]
  dsimp only
  rw [hsize]

theorem tokens_field {val next : Bytes}
    (hsplit : splitByte tagAssignmentChar text = some (tagText, rest))
    (hsize : dataSize dict len (fastParseTag tagText) = none)
    (hval : splitByte internalSohChar rest = some (val, next)) :
    tokens dict (n + 1) len text = (fastParseTag tagText, val) ::
      tokens dict n (ParseState.announced dict ⟨fastParseTag tagText, val, 0⟩) next := by
  rw [tokens, hsplit]
  dsimp only
  rw [hsize]
  dsimp only
  rw [hval]

/-- A text has no more fields than bytes. -/
theorem tokens_eq_of_le : ∀ {n m : Nat} {len : Option Nat} {text : Bytes}, text.length ≤ n →
    text.length ≤ m → tokens dict n len text = tokens dict m len text := by
  intro n
  induction n with
  | zero =>
      intro m len text hn _
      rw [List.length_eq_zero_iff.mp (Nat.le_zero.mp hn), tokens_nil, tokens_nil]
  | succ n ih =>
      intro m len text hn hm
      cases m with
      | zero => rw [List.length_eq_zero_iff.mp (Nat.le_zero.mp hm), tokens_nil, tokens_nil]
      | succ m =>
          cases hsplit : splitByte tagAssignmentChar text with
          | none => rw [tokens, tokens, hsplit]
          | some p =>
              obtain ⟨tagText, rest⟩ := p
              have hrest := splitByte_length hsplit
              cases hsize : dataSize dict len (fastParseTag tagText) with
              | some size =>
                  have hdrop : (rest.drop (size + 1)).length ≤ rest.length := by
                    rw [List.length_drop]
                    exact Nat.sub_le _ _
                  rw [tokens_data hsplit hsize, tokens_data hsplit hsize]
                  exact congrArg _ (ih (by omega) (by omega))
              | none =>
                  cases hval : splitByte internalSohChar rest with
                  | none =>
                      rw [tokens, tokens, hsplit]
                      dsimp only
                      rw [hsize]
                      dsimp only
                      rw [hval]
                  | some q =>
                      obtain ⟨val, next⟩ := q
                      have hnext := splitByte_length hval
                      rw [tokens_field hsplit hsize hval, tokens_field hsplit hsize hval]
                      exact congrArg _ (ih (by omega) (by omega))

end

/-! ## The size that is announced -/

namespace ParseState

section

variable {settings : SessionSettings} {dict : Dictionary} {f : WireField} {st st' : ParseState}

theorem dataLength_noteBodyLength (f : WireField) (st : ParseState) :
    (st.noteBodyLength f).dataLength = st.dataLength := by
  rw [noteBodyLength]
  split
  · rfl
  · rfl

theorem dataLength_closeTo (keep : Nat) (st : ParseState) :
    (st.closeTo settings keep).dataLength = st.dataLength := by
  have hfold : ∀ (popped : List ParserGroupInfo) (st : ParseState),
      (popped.foldl (finish settings) st).dataLength = st.dataLength := by
    intro popped
    induction popped with
    | nil => exact fun st => rfl
    | cons g popped ih => exact fun st => ih (st.finish settings g)
  exact hfold _ st

theorem Offered.dataLength {g : ParserGroupInfo} {groupIdx idx : Nat}
    {parent : Option ParserGroupInfo} {r : Tried}
    (h : Offered settings dict st g groupIdx parent f r) (hidx : r.idx = some idx) :
    r.st.dataLength = (announced dict f).or st.dataLength := by
  cases h with
  | refused _ _ => cases hidx
  | added _ _ _ => exact dataLength_noteBodyLength f _
  | opened _ _ _ _ _ => exact dataLength_noteBodyLength f _
  | next _ _ _ _ _ => rfl

theorem Trailed.dataLength (h : Trailed settings dict f st st') :
    st'.dataLength = (announced dict f).or st.dataLength := by
  cases h with
  | unknown _ => exact dataLength_noteBodyLength f _
  | trailer _ hoffer hidx _ =>
      rw [dataLength_closeTo]
      exact hoffer.dataLength hidx

/-- The field says how long a data field behind it is. -/
theorem dataLength_of_dispatchField (h : dispatchField settings dict f st = .ok st') :
    st'.dataLength = (announced dict f).or st.dataLength := by
  have hfiled := (yields_dispatchField f st).of_ok h
  have hbody : ∀ bodySpec, (st.toBody settings bodySpec).dataLength = st.dataLength :=
    fun _ => dataLength_closeTo 0 st
  cases hfiled with
  | taken _ hoffer hidx =>
      rw [dataLength_closeTo]
      exact hoffer.dataLength hidx
  | passed hpassed =>
      cases hpassed with
      | trailed _ htrailed => exact htrailed.dataLength
      | @taken bodySpec r idx _ _ hoffer hidx =>
          rw [← hbody bodySpec]
          exact hoffer.dataLength hidx
      | @passed bodySpec _ _ _ _ _ htrailed =>
          rw [← hbody bodySpec]
          exact htrailed.dataLength

end

end ParseState

/-! ## What is written -/

/-- The field that an edit writes. -/
def Edit.written : Edit → Multiset (Int × Bytes)
  | .append _ tag value => {(tag, value)}
  | .assign _ tag value => {(tag, value)}
  | .openGroup _ _ f => {(f.tag, f.val)}
  | .next _ _ f => {(f.tag, f.val)}
  | .finish _ => 0
  | .enter _ => 0

theorem Edit.written_of_not_writes {e : Edit} (h : ¬e.Writes) : e.written = 0 := by
  cases e with
  | append _ _ _ => exact absurd True.intro h
  | assign _ _ _ => exact absurd True.intro h
  | openGroup _ _ _ => exact absurd True.intro h
  | next _ _ _ => exact absurd True.intro h
  | finish _ => rfl
  | enter _ => rfl

section

variable {settings : SessionSettings} {dict : Dictionary} {size : Nat}

theorem ParseState.Takes.written {st : ParseState} {g : ParserGroupInfo}
    {parent : Option ParserGroupInfo} {f : WireField} {e : Edit} (h : Takes st g parent f e) :
    e.written = {(f.tag, f.val)} := by
  cases h with
  | append _ _ => rfl
  | openGroup _ _ _ => rfl
  | next _ _ _ _ _ _ => rfl

/-- What is written is the field that is dispatched. -/
theorem ParseState.Performs.written {st : ParseState} {f : WireField} {b : Build} {e : Edit}
    (h : Performs settings dict f st b e) (hwrites : e.Writes) : e.written = {(f.tag, f.val)} := by
  cases h with
  | taken _ htakes => exact htakes.written
  | unknown _ _ _ _ => rfl
  | started _ htakes => exact htakes.written
  | startedUnknown _ _ _ => rfl
  | enter => exact hwrites.elim
  | finish _ => exact hwrites.elim
  | replace _ => exact hwrites.elim

/-- The fields that a parse has not come to. -/
def coming (dict : Dictionary) (p : Bytes × ParseState) : Multiset (Int × Bytes) :=
  tokens dict p.1.length p.2.dataLength p.1

theorem coming_data {text tagText rest : Bytes} {st st' : ParseState} {k : Nat}
    (hsplit : splitByte tagAssignmentChar text = some (tagText, rest))
    (hlen : st.dataLength = some k) (htype : dict.getFieldType (fastParseTag tagText) = .data)
    (hst' : st'.dataLength = none) : coming dict (text, st) =
      {(fastParseTag tagText, rest.take k)} + coming dict (rest.drop (k + 1), st') := by
  have hsize : dataSize dict st.dataLength (fastParseTag tagText) = some k := by
    rw [dataSize, if_pos htype, hlen]
  have hlength := splitByte_length hsplit
  have hdrop : (rest.drop (k + 1)).length ≤ rest.length := by
    rw [List.length_drop]
    exact Nat.sub_le _ _
  have htokens : tokens dict text.length st.dataLength text = (fastParseTag tagText, rest.take k) ::
      tokens dict (rest.drop (k + 1)).length none (rest.drop (k + 1)) := by
    rw [tokens_eq_of_le (Nat.le_refl _) (Nat.le_succ _), tokens_data hsplit hsize]
    exact congrArg _ (tokens_eq_of_le (by omega) (Nat.le_refl _))
  rw [coming, coming, hst', Multiset.singleton_add, Multiset.cons_coe]
  exact congrArg Multiset.ofList htokens

theorem coming_field {text next : Bytes} {f : WireField} {st st' : ParseState}
    (hdispatches : Dispatches settings dict size text st next f)
    (hst' : st'.dataLength = ParseState.announced dict f) :
    coming dict (text, st) = {(f.tag, f.val)} + coming dict (next, st') := by
  cases hdispatches with
  | @intro tagText rest val _ htag hdata hval =>
      have hsize := dataSize_of_not_data hdata
      have hlength := splitByte_length htag.split
      have hnext := splitByte_length hval
      have htokens : tokens dict text.length st.dataLength text = (fastParseTag tagText, val) ::
          tokens dict next.length (ParseState.announced dict ⟨fastParseTag tagText, val, 0⟩)
            next := by
        rw [tokens_eq_of_le (Nat.le_refl _) (Nat.le_succ _), tokens_field htag.split hsize hval]
        exact congrArg _ (tokens_eq_of_le (by omega) (Nat.le_refl _))
      rw [coming, coming, hst', Multiset.singleton_add, Multiset.cons_coe]
      exact congrArg Multiset.ofList htokens

/-! ## Invariants with what is to come -/

variable {I : Multiset (Int × Bytes) → Build → Prop}

/-- A round of a strict parse reads a field and writes it. -/
theorem reads_parseRound (hstrict : settings.relaxedParsing = false) {text next : Bytes}
    {st st' : ParseState}
    (hedit : ∀ c b e b', PerformsIn settings dict size text st b e → Edits settings dict b e b' →
      I (e.written + c) b → I c b')
    (h : parseRound settings dict size (text, st) = .ok (.inl (next, st')))
    (hst : I (coming dict (text, st)) st.build) : I (coming dict (next, st')) st'.build := by
  cases parseRound_next h with
  | skipped hrelaxed _ _ =>
      rw [hstrict] at hrelaxed
      cases hrelaxed
  | @data tagText rest len top htag hlen htype _ htop =>
      rw [@coming_data dict _ tagText rest st ((st.started (fastParseTag tagText)).modify (fun m =>
        m.setFieldView (fastParseTag tagText) (rest.take len) false) top.group) len htag.split hlen
          htype rfl] at hst
      exact hedit _ _ _ _ (.data htag hlen htype htop) (.assign (List.mem_of_mem_head? htop)) hst
  | @filed _ f _ hdispatches hdispatch =>
      have hlen : st'.dataLength = ParseState.announced dict f := by
        rw [ParseState.dataLength_of_dispatchField hdispatch]
        exact Option.or_none
      rw [coming_field hdispatches hlen] at hst
      have hsilent : ∀ c b e b', ¬e.Writes → ParseState.Performs settings dict f
          (st.started f.tag) b e → Edits settings dict b e b' → I c b → I c b' := by
        intro c b e b' hnot hperforms hedits hb
        refine hedit c b e b' (.field hdispatches hperforms) hedits ?_
        rwa [Edit.written_of_not_writes hnot, zero_add]
      refine ParseState.phases_dispatchField (hsilent _) (hsilent _)
        (fun b e b' hwrites hperforms hedits hb => ?_) hdispatch hst
      refine hedit _ b e b' (.field hdispatches hperforms) hedits ?_
      rwa [hperforms.written hwrites]

theorem reads_of_reaches (hstrict : settings.relaxedParsing = false) {p p' : Bytes × ParseState}
    (hstart : I (coming dict p) p.2.build)
    (hedit : ∀ text st, Reaches (parseRound settings dict size) p (text, st) →
      ∀ c b e b', PerformsIn settings dict size text st b e → Edits settings dict b e b' →
        I (e.written + c) b → I c b')
    (h : Reaches (parseRound settings dict size) p p') : I (coming dict p') p'.2.build := by
  induction h with
  | refl => exact hstart
  | tail hreaches hround ih =>
      exact reads_parseRound hstrict (hedit _ _ hreaches) hround ih

/-- All fields are written when a message is accepted. -/
theorem reads_of_parse {text : Bytes} {msg : Message} (h : dict.parse settings text = .ok msg)
    (hstrict : settings.relaxedParsing = false) {p : Bytes × ParseState}
    (hp : Reaches (parseRound settings dict text.length) (text, .init dict) p)
    (hstart : I (coming dict p) p.2.build)
    (hedit : ∀ text' st, Reaches (parseRound settings dict text.length) p (text', st) →
      ∀ c b e b', PerformsIn settings dict text.length text' st b e → Edits settings dict b e b' →
        I (e.written + c) b → I c b')
    (hfinish : ∀ b g b', Edits settings dict b (.finish g) b' → I 0 b → I 0 b') :
    ∃ b, I 0 b ∧ b.entries = [] ∧
      msg = b.msg.modify (fun m => m.removeField Field.checkSum) ⟨.trailer, []⟩ := by
  obtain ⟨st, hloop, hclose, hmsg, -⟩ := parse_ok h
  obtain ⟨⟨text', st'⟩, hreaches, hround⟩ :=
    ((ends_parseLoop _ text (.init dict) (le_refl _)).eq_iff _).mp hloop
  have hlast := hp.to_last hreaches fun v hv => by
    rw [hround] at hv
    cases hv
  have hread := reads_of_reaches hstrict hstart hedit hlast
  rcases parseRound_done hround with ⟨rfl, rfl⟩ | ⟨hrelaxed, -⟩
  · refine ⟨(st.closeTo settings 0).build, ?_, ?_, hmsg⟩
    · exact ParseState.invariant_overwriteStack (fun b g b' _ => hfinish b g b') hclose hread
    · show st.stack.drop (st.stack.length - 0) = []
      rw [Nat.sub_zero]
      exact List.drop_length
  · rw [hstrict] at hrelaxed
    cases hrelaxed

end

end OpenFix
