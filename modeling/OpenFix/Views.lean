import Mathlib.Logic.Relation
import OpenFix.Errors
import OpenFix.Stored
import OpenFix.Tokens

/-!
# Views into the text

A value that the parser stores is a view into the text it was given.  The end of a value
is a separator that was found, or the end of a data field that was announced.  In strict
mode a data field that would go past the end of the text is an error.  In relaxed mode
it is logged, and the view that is stored leaves the text.

Which lengths are announced for which fields is read from the text alone (`FieldAt`), and
every round of a parse reads one field in the same way.
-/

namespace OpenFix

open Loop

/-- The value is a part of the text. -/
def View.Within (text : Bytes) (v : View) : Prop :=
  ∃ i j, i ≤ j ∧ j ≤ text.length ∧ v = .text ((text.drop i).take (j - i))

/-- All values of the message are parts of the text. -/
def Message.Within (text : Bytes) (msg : Message) : Prop := msg.Stores fun p => p.2.Within text

/-- No view that the parser stores leaves the text. -/
def ViewsInside (dict : Dictionary) (settings : SessionSettings) (text : Bytes) : Prop :=
  dict.parse settings text ≠ .error pastEnd ∧
    ∀ msg, dict.parse settings text = .ok msg → msg.Within text

section

variable {settings : SessionSettings} {dict : Dictionary} {size : Nat}

/-- In relaxed mode the order of the tags is only logged. -/
theorem checkTagOrder_relaxed (h : settings.relaxedParsing = true) (tagCount : Nat) (tag : Int) :
    checkTagOrder settings tagCount tag = .ok () := by
  have hlog : ∀ text, tryLogThrow settings text = .ok () := by
    intro text
    rw [tryLogThrow, if_pos h]
  rw [checkTagOrder, hlog, hlog, hlog]
  split
  · split
    · exact ite_self _
    · exact ite_self _
  · split
    · exact ite_self _
    · exact ite_self _

/-- A data field that overruns the text takes the round past its end. -/
theorem Overruns.parseRound_eq {text : Bytes} {st : ParseState}
    (h : Overruns settings dict text st) :
    parseRound settings dict size (text, st) = .error pastEnd := by
  obtain ⟨hrelaxed, tagText, rest, len, hsplit, hnonneg, htype, hlen, hless⟩ := h
  cases text with
  | nil => cases hsplit
  | cons c cs =>
      have hdata : ∀ st' : ParseState, parseDataField settings (fastParseTag tagText) len rest st' =
          .error pastEnd := by
        intro st'
        rw [parseDataField, if_pos hless, tryLogThrow, if_pos hrelaxed]
        rfl
      rw [parseRound, hsplit]
      dsimp only
      rw [if_neg (Int.not_lt.mpr hnonneg), checkTagOrder_relaxed hrelaxed]
      rcases parseValue_eq settings dict size rest
        { st with tag := fastParseTag tagText, tagCount := st.tagCount + 1 } with
        ⟨len', hlen', -, heq⟩ | ⟨hnot, -⟩
      · rw [hlen] at hlen'
        cases hlen'
        rw [heq, hdata]
        rfl
      · rcases hnot with hnone | hne
        · rw [hlen] at hnone
          cases hnone
        · exact absurd htype hne

/-! ## Reading a text without filing it

The fields of a text, one after the other, are told without the message that is built: a
field announces the length of a data field behind it, and that is all the next one needs.
-/

/-- What is left behind the first field of a text, and the length that it announces.  A field
with a negative tag is passed over.  There is nothing behind a data field that overruns. -/
def readField? (dict : Dictionary) (p : Bytes × Option Nat) : Option (Bytes × Option Nat) :=
  match splitByte tagAssignmentChar p.1 with
  | none => none
  | some (tagText, rest) =>
      if fastParseTag tagText < 0 then
        (splitByte internalSohChar rest).map fun q => (q.2, p.2)
      else
        match dataSize dict p.2 (fastParseTag tagText) with
        | some len => if rest.length < len then none else some (rest.drop (len + 1), none)
        | none =>
            (splitByte internalSohChar rest).map fun q =>
              (q.2, ParseState.announced dict ⟨fastParseTag tagText, q.1, 0⟩)

/-- A field of the text starts where `text'` is left, and `len` is announced for it. -/
def FieldAt (dict : Dictionary) (text text' : Bytes) (len : Option Nat) : Prop :=
  Relation.ReflTransGen (fun p q => readField? dict p = some q) (text, none) (text', len)

/-- The field in front is a data field, announced with more bytes than are left behind it. -/
def OverrunsAt (dict : Dictionary) (text' : Bytes) (len : Option Nat) : Prop :=
  ∃ tagText rest n, splitByte tagAssignmentChar text' = some (tagText, rest) ∧
    0 ≤ fastParseTag tagText ∧ dataSize dict len (fastParseTag tagText) = some n ∧ rest.length < n

theorem length_of_readField? {p q : Bytes × Option Nat} (h : readField? dict p = some q) :
    q.1.length < p.1.length := by
  unfold readField? at h
  split at h
  next => cases h
  next tagText rest hsplit =>
    have hrest := splitByte_length hsplit
    have hbehind : ∀ len : Bytes → Option Nat,
        ((splitByte internalSohChar rest).map fun q => (q.2, len q.1)) = some q →
          q.1.length < p.1.length := by
      intro len h
      obtain ⟨⟨val, next⟩, hval, rfl⟩ := Option.map_eq_some_iff.mp h
      have hnext := splitByte_length hval
      dsimp only
      omega
    split at h
    next => exact hbehind (fun _ => p.2) h
    next =>
      split at h
      next =>
        split at h
        next => cases h
        next =>
          cases h
          rw [List.length_drop]
          omega
      next => exact hbehind (fun val => ParseState.announced dict ⟨fastParseTag tagText, val, 0⟩) h

/-- Where a field starts, it is known which length is announced for it. -/
theorem FieldAt.unique {text text' : Bytes} {len len' : Option Nat}
    (h : FieldAt dict text text' len) (h' : FieldAt dict text text' len') : len = len' := by
  have hle : ∀ {p q : Bytes × Option Nat},
      Relation.ReflTransGen (fun p q => readField? dict p = some q) p q → p.1 = q.1 → p = q := by
    intro p q hpq heq
    rcases hpq.cases_head with rfl | ⟨r, hr, hrq⟩
    · rfl
    · have hlength : q.1.length ≤ r.1.length := by
        clear heq hpq
        induction hrq with
        | refl => exact Nat.le_refl _
        | tail _ hstep ih => exact (length_of_readField? hstep).le.trans ih
      have hless := length_of_readField? hr
      rw [heq] at hless
      omega
  have hright : Relator.RightUnique fun p q => readField? dict p = some q := by
    intro p q q' hq hq'
    rw [hq] at hq'
    exact Option.some.inj hq'
  rcases Relation.ReflTransGen.total_of_right_unique hright h h' with hpath | hpath
  · exact (Prod.ext_iff.mp (hle hpath rfl)).2
  · exact (Prod.ext_iff.mp (hle hpath rfl)).2.symm

/-- A round that goes on reads the field in front. -/
theorem Rounded.readField? {text text' : Bytes} {st st' : ParseState}
    (h : Rounded settings dict size text st text' st') :
    readField? dict (text, st.dataLength) = some (text', st'.dataLength) := by
  unfold OpenFix.readField?
  cases h with
  | skipped _ hsplit hval hneg =>
      rw [hsplit]
      dsimp only
      rw [if_pos hneg, hval]
      rfl
  | data htag hlen htype hle htop =>
      rw [htag.split]
      dsimp only
      rw [if_neg (Int.not_lt.mpr htag.nonneg), dataSize, if_pos htype, hlen]
      dsimp only
      rw [if_neg (Nat.not_lt.mpr hle)]
      rfl
  | filed hdispatches hdispatch =>
      rw [ParseState.dataLength_of_dispatchField hdispatch]
      cases hdispatches with
      | intro htag hdata hval =>
          have hsize := dataSize_of_not_data hdata
          rw [htag.split]
          dsimp only
          rw [if_neg (Int.not_lt.mpr htag.nonneg), hsize]
          dsimp only
          rw [hval]
          exact congrArg some (Prod.ext rfl Option.or_none.symm)

theorem fieldAt_of_reaches {text text' : Bytes} {st : ParseState}
    (h : Reaches (parseRound settings dict size) (text, .init dict) (text', st)) :
    FieldAt dict text text' st.dataLength := by
  have hstart : FieldAt dict text text none := .refl
  exact h.invariant (P := fun p => FieldAt dict text p.1 p.2.dataLength) hstart
    fun _ _ hround hp => hp.tail (parseRound_next hround).readField?

theorem overruns_iff {text : Bytes} {st : ParseState} :
    Overruns settings dict text st ↔
      settings.relaxedParsing = true ∧ OverrunsAt dict text st.dataLength := by
  have hsize : ∀ {tag : Int} {n : Nat}, dataSize dict st.dataLength tag = some n ↔
      dict.getFieldType tag = .data ∧ st.dataLength = some n := by
    intro tag n
    rw [dataSize]
    split
    next htype => exact (and_iff_right htype).symm
    next htype => exact iff_of_false (fun h => by cases h) fun h => htype h.1
  constructor
  · rintro ⟨hrelaxed, tagText, rest, n, hsplit, hnonneg, htype, hlen, hless⟩
    exact ⟨hrelaxed, tagText, rest, n, hsplit, hnonneg, hsize.mpr ⟨htype, hlen⟩, hless⟩
  · rintro ⟨hrelaxed, tagText, rest, n, hsplit, hnonneg, hdata, hless⟩
    obtain ⟨htype, hlen⟩ := hsize.mp hdata
    exact ⟨hrelaxed, tagText, rest, n, hsplit, hnonneg, htype, hlen, hless⟩

/-! ## The values of the message -/

/-- The field in front of the text has this tag and this value. -/
inductive ReadsAs (dict : Dictionary) (text' : Bytes) (len : Option Nat) : Int → Bytes → Prop where
  | data {tagText rest : Bytes} {n : Nat}
      (hsplit : splitByte tagAssignmentChar text' = some (tagText, rest))
      (hsize : dataSize dict len (fastParseTag tagText) = some n) (hle : n ≤ rest.length) :
      ReadsAs dict text' len (fastParseTag tagText) (rest.take n)
  | plain {tagText rest val next : Bytes}
      (hsplit : splitByte tagAssignmentChar text' = some (tagText, rest))
      (hsize : dataSize dict len (fastParseTag tagText) = none)
      (hval : splitByte internalSohChar rest = some (val, next)) :
      ReadsAs dict text' len (fastParseTag tagText) val

/-- The text has a field with this tag and this value. -/
def FieldOf (dict : Dictionary) (text : Bytes) (tag : Int) (value : Bytes) : Prop :=
  ∃ text' len, FieldAt dict text text' len ∧ ReadsAs dict text' len tag value

theorem within_of_suffix {text rest : Bytes} (h : rest <:+ text) (n : Nat) (hn : n ≤ rest.length) :
    (View.text (rest.take n)).Within text := by
  obtain ⟨front, rfl⟩ := h
  refine ⟨front.length, front.length + n, Nat.le_add_right _ _, ?_, ?_⟩
  · rw [List.length_append]
    omega
  · rw [List.drop_left, Nat.add_sub_cancel_left]

theorem suffix_of_splitByte {b : UInt8} {text before after : Bytes}
    (h : splitByte b text = some (before, after)) : after <:+ text := by
  rw [(splitByte_eq h).1]
  exact ⟨before ++ [b], by simp⟩

/-- The value of the field in front is a part of the text. -/
theorem ReadsAs.within {whole text : Bytes} {len : Option Nat} {tag : Int} {value : Bytes}
    (h : ReadsAs dict text len tag value) (htext : text <:+ whole) :
    (View.text value).Within whole := by
  cases h with
  | data hsplit _ hle => exact within_of_suffix ((suffix_of_splitByte hsplit).trans htext) _ hle
  | @plain tagText rest val next hsplit _ hval =>
      have hrest := (suffix_of_splitByte hsplit).trans htext
      obtain ⟨heq, -⟩ := splitByte_eq hval
      have htake : rest.take value.length = value := by
        rw [heq, List.take_left]
      have hwithin := within_of_suffix hrest value.length (by rw [heq, List.length_append]; omega)
      rwa [htake] at hwithin

/-- A round stores nothing but the field in front. -/
theorem Rounded.stores {Q : Int × View → Prop} {text next : Bytes} {st st' : ParseState}
    (h : Rounded settings dict size text st next st')
    (hq : ∀ tag value, ReadsAs dict text st.dataLength tag value → Q (tag, .text value))
    (hst : st.msg.Stores Q) : st'.msg.Stores Q := by
  cases h with
  | skipped _ _ _ _ => exact hst
  | @data tagText rest len top htag hlen htype hle _ =>
      have hsize : dataSize dict st.dataLength (fastParseTag tagText) = some len := by
        rw [dataSize, if_pos htype, hlen]
      exact @ParseState.stores_setFieldView _ (st.started _) hst _ _
        (hq _ _ (.data htag.split hsize hle)) _
  | filed hdispatches hdispatch =>
      cases hdispatches with
      | intro htag hdata hval =>
          have hsize := dataSize_of_not_data hdata
          have hfiled := (ParseState.yields_dispatchField _ _).of_ok hdispatch
          exact hfiled.stores hst (hq _ _ (.plain htag.split hsize hval))

/-- A round leaves a suffix of its text. -/
theorem Rounded.suffix {text next : Bytes} {st st' : ParseState}
    (h : Rounded settings dict size text st next st') : next <:+ text := by
  cases h with
  | skipped _ hsplit hval _ => exact (suffix_of_splitByte hval).trans (suffix_of_splitByte hsplit)
  | data htag _ _ _ _ => exact (List.drop_suffix _ _).trans (suffix_of_splitByte htag.split)
  | filed hdispatches _ =>
      cases hdispatches with
      | intro htag _ hval => exact (suffix_of_splitByte hval).trans (suffix_of_splitByte htag.split)

/-- What holds of every field of a text holds of all that is stored when it is accepted. -/
theorem stores_of_parse {Q : Int × View → Prop} {text : Bytes} {msg : Message}
    (h : dict.parse settings text = .ok msg)
    (hq : ∀ text' len, text' <:+ text → FieldAt dict text text' len → ∀ tag value,
      ReadsAs dict text' len tag value → Q (tag, .text value)) : msg.Stores Q := by
  obtain ⟨st, hloop, -, hmsg, -⟩ := parse_ok h
  obtain ⟨⟨text', st'⟩, hreaches, hround⟩ :=
    ((ends_parseLoop _ text (.init dict) (le_refl _)).eq_iff _).mp hloop
  have hstart : FieldAt dict text text none := .refl
  have hstores := hreaches.invariant
    (P := fun p => p.1 <:+ text ∧ FieldAt dict text p.1 p.2.dataLength ∧ p.2.msg.Stores Q)
    ⟨List.suffix_refl text, hstart, Message.stores_new⟩ fun _ _ hnext hp => by
      have hrounded := parseRound_next hnext
      exact ⟨hrounded.suffix.trans hp.1, hp.2.1.tail hrounded.readField?,
        hrounded.stores (hq _ _ hp.1 hp.2.1) hp.2.2⟩
  have hlast : st.msg.Stores Q := by
    rcases parseRound_done hround with ⟨-, heq⟩ | ⟨-, -, heq, -⟩
    · rw [heq]
      exact hstores.2.2
    · rw [heq]
      exact hstores.2.2
  rw [hmsg]
  exact (ParseState.stores_closeTo hlast 0).modify (f := fun m => m.removeField Field.checkSum)
    (FieldMap.keepsInstances_of_groups fun _ => rfl)
    (fun _ _ hp => .inl (AssocList.mem_of_mem_erase hp)) ⟨.trailer, []⟩

theorem within_of_parse {text : Bytes} {msg : Message} (h : dict.parse settings text = .ok msg) :
    msg.Within text :=
  stores_of_parse h fun _ _ hsuffix _ _ _ hreads => hreads.within hsuffix

/-- A field of the header of a message is a field of its text. -/
theorem fieldOf_of_parse {text : Bytes} {msg : Message} (h : dict.parse settings text = .ok msg)
    {tag : Int} {value : Bytes} (hfield : msg.header.field? tag = some value) :
    FieldOf dict text tag value := by
  have hstores : msg.Stores fun p => ∃ v, p.2 = .text v ∧ FieldOf dict text p.1 v :=
    stores_of_parse h fun text' len _ hat tag value hreads => ⟨value, rfl, text', len, hat, hreads⟩
  rw [FieldMap.field?, Option.map_eq_some_iff] at hfield
  obtain ⟨view, hview, hread⟩ := hfield
  obtain ⟨v, rfl, hof⟩ := hstores ⟨.header, []⟩ _ (AssocList.mem_of_find? hview)
  cases hread
  exact hof

/-- No view leaves the text, if and only if the mode is strict or the parse comes to no data
field of the text that is announced with more bytes than are left behind it. -/
theorem viewsInside_iff (dict : Dictionary) (settings : SessionSettings) (text : Bytes) :
    ViewsInside dict settings text ↔ settings.relaxedParsing = false ∨
      ∀ text' len, FieldAt dict text text' len → OverrunsAt dict text' len →
        ∀ st, ¬Reaches (parseRound settings dict text.length) (text, .init dict) (text', st) := by
  constructor
  · intro ⟨hne, _⟩
    refine (Bool.eq_false_or_eq_true settings.relaxedParsing).symm.imp_right fun hrelaxed => ?_
    intro text' len hfield hoverruns st hreaches
    rw [hfield.unique (fieldAt_of_reaches hreaches)] at hoverruns
    exact hne (parse_of_parseRound_error hreaches
      (overruns_iff.mpr ⟨hrelaxed, hoverruns⟩).parseRound_eq)
  · intro hcond
    refine ⟨fun herror => ?_, fun msg h => within_of_parse h⟩
    have hthrown : ParseState.Thrown fun e => e ≠ pastEnd :=
      ⟨(fun text h => by cases h), by decide⟩
    refine (yields_parse hthrown (fun tag h => by cases h) text fun text' st hreaches => ?_).of_error
      herror rfl
    refine yields_parseRound hthrown text' st (fun _ => by decide) (fun _ => by decide)
      (fun hoverruns => ?_)
      fun _ _ _ _ => by decide
    rcases hcond with hstrict | hnone
    · rw [hoverruns.relaxed] at hstrict
      cases hstrict
    · have hat := (overruns_iff.mp hoverruns).2
      exact absurd hreaches (hnone text' _ (fieldAt_of_reaches hreaches) hat st)

end

/-- In relaxed mode a length of nine is announced for a value of one byte. -/
theorem not_viewsInside : ¬∀ (dict : Dictionary) (settings : SessionSettings) (text : Bytes),
    ViewsInside dict settings text := by
  intro h
  have hne := (h testDictionary { relaxedParsing := true } (wireOf "8=FIX.4.4|35=A|95=9|96=x|")).1
  exact hne rfl

end OpenFix
