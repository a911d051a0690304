import Mathlib.Data.Nat.ModEq
import OpenFix.Tokens

/-!
# Numerals of any length

`fastParseTag` reads a numeral into an `int` and does not look whether it fits, so what
it returns is the number modulo `2^32`.  The parser takes that for the tag of a field,
for the length of the data field that follows, and for the number of the instances of a
group.

The first part says which ranges are read exactly, the second for which texts nothing
goes wrong with them.
-/

namespace OpenFix

open Loop

/-! ## The loop -/

theorem i32_add (x y : Int) : i32 (i32 x * 10 + y) = i32 (x * 10 + y) := by
  unfold i32
  omega

theorem fastParseTagLoop_digits {ds : Bytes} (h : ∀ b ∈ ds, isDigit b = true) (v : Nat) :
    fastParseTagLoop (i32 v) ds = i32 (ds.foldl (fun v d => v * 10 + (d.toNat - 48)) v : Nat) := by
  induction ds generalizing v with
  | nil => rfl
  | cons d ds ih =>
      have hd := h d (List.mem_cons_self ..)
      have ih' := ih (fun b hb => h b (List.mem_cons_of_mem _ hb)) (v * 10 + (d.toNat - 48))
      rw [fastParseTagLoop, if_pos hd, List.foldl_cons, ← ih', i32_add]
      push_cast
      rfl

theorem fastParseTagLoop_of_not_digit {s : Bytes} (h : ∃ b ∈ s, isDigit b = false) (v : Int) :
    fastParseTagLoop v s = -1 := by
  induction s generalizing v with
  | nil =>
      obtain ⟨b, hb, -⟩ := h
      cases hb
  | cons d s ih =>
      rw [fastParseTagLoop]
      cases hd : isDigit d with
      | false => rfl
      | true =>
          obtain ⟨b, hb, hnot⟩ := h
          rcases List.mem_cons.mp hb with rfl | hb
          · rw [hd] at hnot
            cases hnot
          · exact ih ⟨b, hb, hnot⟩ _

/-- A range of digits, and of nothing else. -/
structure IsNumeral (s : Bytes) : Prop where
  nonempty : s ≠ []
  digits : ∀ b ∈ s, isDigit b = true

instance (s : Bytes) : Decidable (IsNumeral s) :=
  decidable_of_iff (s ≠ [] ∧ s.all isDigit = true)
    ⟨fun h => ⟨h.1, List.all_eq_true.mp h.2⟩, fun h => ⟨h.nonempty, List.all_eq_true.mpr h.digits⟩⟩

/-- A numeral is read modulo `2^32`. -/
theorem fastParseTag_numeral {s : Bytes} (h : IsNumeral s) : fastParseTag s = i32 (digitsVal s) := by
  have hloop := fastParseTagLoop_digits h.digits 0
  rw [fastParseTag, if_neg h.nonempty]
  exact hloop

theorem fastParseTag_of_not_numeral {s : Bytes} (h : ¬IsNumeral s) : fastParseTag s = -1 := by
  rw [fastParseTag]
  split
  next => rfl
  next hne =>
    apply fastParseTagLoop_of_not_digit
    by_contra hno
    refine h ⟨hne, fun b hb => ?_⟩
    cases hb' : isDigit b with
    | true => rfl
    | false => exact (hno ⟨b, hb, hb'⟩).elim

theorem isNumeral_of_nonneg {s : Bytes} (h : 0 ≤ fastParseTag s) : IsNumeral s := by
  by_contra hno
  rw [fastParseTag_of_not_numeral hno] at h
  exact absurd h (by decide)

/-- The number of a range, as it should be read. -/
def tagValue (s : Bytes) : Int :=
  if IsNumeral s ∧ digitsVal s < 2147483648 then digitsVal s else -1

/-- Exactly the numbers from `2^31` on are read as others, up to those that are read as `-1`. -/
theorem fastParseTag_eq_tagValue_iff (s : Bytes) :
    fastParseTag s = tagValue s ↔
      ¬IsNumeral s ∨ digitsVal s < 2147483648 ∨ digitsVal s % 4294967296 = 4294967295 := by
  rw [tagValue]
  by_cases hs : IsNumeral s
  · rw [fastParseTag_numeral hs]
    by_cases hfits : digitsVal s < 2147483648
    · rw [if_pos ⟨hs, hfits⟩]
      exact iff_of_true (i32_of_range (by omega) (by omega)) (.inr (.inl hfits))
    · rw [if_neg fun h => hfits h.2, or_iff_right (not_not.mpr hs), or_iff_right hfits, i32]
      omega
  · rw [fastParseTag_of_not_numeral hs, if_neg fun h => hs h.1]
    exact iff_of_true rfl (.inl hs)

/-! ## The numerals of a text -/

namespace ParseState

/-- The calls of `trySetField` that are made for a field. -/
inductive Offers (settings : SessionSettings) (dict : Dictionary) (f : WireField)
    (st : ParseState) : ParseState → ParserGroupInfo → Nat → Option ParserGroupInfo → Prop where
  | stack {g : ParserGroupInfo} {below : List ParserGroupInfo}
      (htries : Tries settings dict f st g below) :
      Offers settings dict f st st g below.length below.head?
  | body {st' : ParseState} {bodySpec : Option GroupSpec} (hrefused : Refused settings dict f st)
      (hstate : st.msgState = .header) (hclose : overwriteStack settings 0 st = .ok st')
      (hspec : st'.bodySpecOf settings dict = .ok bodySpec) :
      Offers settings dict f st { st' with stack := [bodyInfo bodySpec], msgState := .body }
        (bodyInfo bodySpec) 0 none
  | trailer (hrefused : Refused settings dict f st) (hstate : st.msgState = .body) :
      Offers settings dict f st st (trailerInfo dict) 0 none
  | both {st' : ParseState} {bodySpec : Option GroupSpec} {r : Tried}
      (hoffers : Offers settings dict f st st' (bodyInfo bodySpec) 0 none)
      (hstate : st.msgState = .header)
      (htry : st'.trySetField settings dict (bodyInfo bodySpec) 0 none f = .ok r)
      (hidx : r.idx = none) : Offers settings dict f st r.st (trailerInfo dict) 0 none

/-- A group is opened with the number that its count is read as. -/
theorem groupMaxCount_of_trySetField {settings : SessionSettings} {dict : Dictionary}
    {st : ParseState} {g info : ParserGroupInfo} {i : Nat} {parent : Option ParserGroupInfo}
    {f : WireField} {r : Tried} (h : st.trySetField settings dict g i parent f = .ok r)
    (hinfo : info ∈ r.pushed) :
    0 ≤ fastParseTag f.val ∧ info.groupMaxCount = (fastParseTag f.val).toNat := by
  have hrepeat : ∀ {st : ParseState}, st.handleRepeatingTag settings dict g i parent f = .ok r →
      r.pushed = [] := by
    intro st h
    rw [handleRepeatingTag] at h
    split at h
    next =>
      split at h
      next =>
        obtain ⟨_, -, h⟩ := bind_eq_ok.mp h
        cases h
        rfl
      next =>
        obtain ⟨_, -, h⟩ := bind_eq_ok.mp h
        cases parent with
        | none => cases h
        | some p =>
            cases h
            rfl
    next =>
      obtain ⟨_, -, h⟩ := bind_eq_ok.mp h
      cases h
      rfl
  rw [trySetField] at h
  split at h
  next => cases h
  next spec _ =>
    split at h
    next =>
      split at h
      next =>
        rw [hrepeat h] at hinfo
        cases hinfo
      next =>
        obtain ⟨_, -, h⟩ := bind_eq_ok.mp h
        cases h
        cases hinfo
    next =>
      split at h
      next =>
        cases h
        cases hinfo
      next =>
        split at h
        next =>
          rw [hrepeat h] at hinfo
          cases hinfo
        next =>
          split at h
          next =>
            obtain ⟨_, -, h⟩ := bind_eq_ok.mp h
            cases h
            cases hinfo
          next hnum =>
            split at h
            next => cases h
            next =>
              obtain ⟨_, -, h⟩ := bind_eq_ok.mp h
              cases h
              cases List.mem_singleton.mp hinfo
              exact ⟨Int.not_lt.mp hnum, rfl⟩

end ParseState

section

variable (settings : SessionSettings) (dict : Dictionary) (size : Nat) (text : Bytes)
  (st : ParseState)

/-- The round files the field with this numeral under the tag. -/
structure Files (tagText : Bytes) (tag : Int) : Prop where
  split : ∃ rest, splitByte tagAssignmentChar text = some (tagText, rest)
  goesOn : ∃ p, parseRound settings dict size (text, st) = .ok (.inl p)
  writes : ∃ b e b' value, PerformsIn settings dict size text st b e ∧ Edits settings dict b e b' ∧
    (tag, value) ∈ e.written

/-- The round takes the text of a `LENGTH` or `NumInGroup` field for the number. -/
inductive Takes : Bytes → Nat → Prop where
  | length {next : Bytes} {f : WireField} {st' : ParseState} {n : Nat}
      (hdispatches : Dispatches settings dict size text st next f)
      (hdispatch : ParseState.dispatchField settings dict f (st.started f.tag) = .ok st')
      (hlen : st'.dataLength = some n) : Takes f.val n
  | count {next : Bytes} {f : WireField} {st' : ParseState} {g info : ParserGroupInfo} {i : Nat}
      {parent : Option ParserGroupInfo} {r : ParseState.Tried}
      (hdispatches : Dispatches settings dict size text st next f)
      (hoffers : ParseState.Offers settings dict f (st.started f.tag) st' g i parent)
      (htry : st'.trySetField settings dict g i parent f = .ok r) (hinfo : info ∈ r.pushed) :
      Takes f.val info.groupMaxCount

end

section

variable (settings : SessionSettings) (dict : Dictionary) (text : Bytes)

/-- Some round of the parse files a field with this numeral under the tag. -/
def FiledUnder (tagText : Bytes) (tag : Int) : Prop :=
  ∃ text' st, Reaches (parseRound settings dict text.length) (text, .init dict) (text', st) ∧
    Files settings dict text.length text' st tagText tag

/-- Some round of the parse takes the text of a `LENGTH` or `NumInGroup` field for the number. -/
def TakenFor (val : Bytes) (n : Nat) : Prop :=
  ∃ text' st, Reaches (parseRound settings dict text.length) (text, .init dict) (text', st) ∧
    Takes settings dict text.length text' st val n

/-- Two fields are under the same tag only if their numerals denote the same number. -/
def TagsApart : Prop :=
  ∀ t t' tag, FiledUnder settings dict text t tag → FiledUnder settings dict text t' tag →
    digitsVal t = digitsVal t'

/-- No length or count is taken for a smaller number. -/
def NoneSmaller : Prop := ∀ val n, TakenFor settings dict text val n → digitsVal val ≤ n

end

section

variable {settings : SessionSettings} {dict : Dictionary} {size : Nat} {text : Bytes}
  {st : ParseState}

/-- A field is filed under what its numeral is read as. -/
theorem Files.tag_eq {tagText : Bytes} {tag : Int} (h : Files settings dict size text st tagText tag) :
    tag = fastParseTag tagText ∧ IsNumeral tagText := by
  obtain ⟨⟨rest, hsplit⟩, -, b, e, b', value, hperforms, -, hmem⟩ := h
  have hsame : ∀ {t r : Bytes}, Tagged settings text st t r → t = tagText := by
    intro t r htag
    have heq := htag.split.symm.trans hsplit
    cases heq
    rfl
  cases hperforms with
  | data htag _ _ _ =>
      cases hsame htag
      cases Multiset.mem_singleton.mp hmem
      exact ⟨rfl, isNumeral_of_nonneg htag.nonneg⟩
  | field hdispatches hperforms =>
      have hwrites : e.Writes := by
        by_contra hno
        rw [Edit.written_of_not_writes hno] at hmem
        exact Multiset.notMem_zero _ hmem
      rw [hperforms.written hwrites] at hmem
      cases Multiset.mem_singleton.mp hmem
      cases hdispatches with
      | intro htag _ _ =>
          cases hsame htag
          exact ⟨rfl, isNumeral_of_nonneg htag.nonneg⟩

theorem Takes.num_eq {val : Bytes} {n : Nat} (h : Takes settings dict size text st val n) :
    IsNumeral val ∧ (n : Int) = i32 (digitsVal val) := by
  have hread : 0 ≤ fastParseTag val → n = (fastParseTag val).toNat →
      IsNumeral val ∧ (n : Int) = i32 (digitsVal val) := by
    rintro hnonneg rfl
    have hnum := isNumeral_of_nonneg hnonneg
    refine ⟨hnum, ?_⟩
    rw [← fastParseTag_numeral hnum]
    exact Int.toNat_of_nonneg hnonneg
  cases h with
  | @length next f st' n hdispatches hdispatch hlen =>
      rw [ParseState.dataLength_of_dispatchField hdispatch] at hlen
      have hannounced : ParseState.announced dict f = some n := by
        rwa [show (st.started f.tag).dataLength = none from rfl, Option.or_none] at hlen
      rw [ParseState.announced] at hannounced
      split at hannounced
      next hlength =>
        cases hannounced
        exact hread hlength.2 rfl
      next => cases hannounced
  | count _ _ htry hinfo =>
      obtain ⟨hnonneg, hcount⟩ := ParseState.groupMaxCount_of_trySetField htry hinfo
      exact hread hnonneg hcount

/-- Numerals are read as the same tag exactly if their numbers are the same modulo `2^32`. -/
theorem i32_eq_iff (n m : Nat) : i32 n = i32 m ↔ n ≡ m [MOD 4294967296] := by
  rw [Nat.ModEq]
  unfold i32
  omega

end

/-! ## Main result -/

/-- A range is read exactly if it is no numeral, or its number fits an `int` or is one less than a
multiple of `2^32`.  So the tags of a text are apart exactly if no two numerals of fields that are
filed denote numbers that differ by a multiple of `2^32`, and no length or count is taken for a
smaller number exactly if each that is taken fits an `int`. -/
theorem numerals_iff (s : Bytes) (settings : SessionSettings) (dict : Dictionary) (text : Bytes) :
    (fastParseTag s = tagValue s ↔
      ¬IsNumeral s ∨ digitsVal s < 2147483648 ∨ digitsVal s % 4294967296 = 4294967295) ∧
    (TagsApart settings dict text ↔ ∀ t t' tag tag', FiledUnder settings dict text t tag →
      FiledUnder settings dict text t' tag' → digitsVal t ≡ digitsVal t' [MOD 4294967296] →
        digitsVal t = digitsVal t') ∧
    (NoneSmaller settings dict text ↔
      ∀ val n, TakenFor settings dict text val n → digitsVal val < 2147483648) := by
  refine ⟨fastParseTag_eq_tagValue_iff s, ?_, ?_⟩
  · have htag : ∀ {t : Bytes} {tag : Int}, FiledUnder settings dict text t tag →
        tag = i32 (digitsVal t) := by
      rintro t tag ⟨text', st, -, hfiles⟩
      obtain ⟨rfl, hnum⟩ := hfiles.tag_eq
      exact fastParseTag_numeral hnum
    constructor
    · intro h t t' tag tag' ht ht' hmod
      have hsame : tag = tag' := by
        rw [htag ht, htag ht']
        exact (i32_eq_iff _ _).mpr hmod
      subst hsame
      exact h t t' tag ht ht'
    · intro h t t' tag ht ht'
      exact h t t' tag tag ht ht' ((i32_eq_iff _ _).mp ((htag ht).symm.trans (htag ht')))
  · have hnum : ∀ {val : Bytes} {n : Nat}, TakenFor settings dict text val n →
        (n : Int) = i32 (digitsVal val) := fun ⟨_, _, _, htakes⟩ => htakes.num_eq.2
    refine forall₂_congr fun val n => forall_congr' fun htaken => ?_
    have hn := hnum htaken
    have hrange := i32_range (digitsVal val)
    unfold i32 at hn hrange
    constructor
    · intro hle
      omega
    · intro hlt
      omega

/-- A tag of ten digits is taken for the tag of `BeginString`. -/
theorem not_fastParseTag : ¬∀ s, fastParseTag s = tagValue s := by
  intro h
  exact absurd (h (ascii "4294967304")) (by decide +kernel)

end OpenFix
