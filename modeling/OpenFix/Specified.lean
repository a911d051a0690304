import OpenFix.Parsing

/-!
# The specifications of the stack

Every entry of the group stack has a specification, up to the moment when the
message leaves its header.  The specification of its body is looked up by the type in
the header, and the lookup answers null for a type that the dictionary does not have.
The new entry is then tried with the field, and its specification is used.
-/

namespace OpenFix

open Loop

namespace ParseState

/-- The stack has entries, and every entry has a specification. -/
structure Specified (st : ParseState) : Prop where
  nonempty : st.stack ≠ []
  spec : ∀ g ∈ st.stack, g.spec ≠ none

section

variable {settings : SessionSettings} {dict : Dictionary} {f : WireField} {st st' : ParseState}

theorem Specified.closeTo (h : st.Specified) (idx : Nat) :
    (st.closeTo settings (idx + 1)).Specified := by
  constructor
  · intro hnil
    have hlength := List.drop_eq_nil_iff.mp hnil
    have hpos := List.length_pos_iff.mpr h.nonempty
    omega
  · intro g hg
    exact h.spec g (List.mem_of_mem_drop hg)

theorem Trailed.specified (h : Trailed settings dict f st st') (hst : st.Specified) :
    st'.Specified := by
  cases h with
  | unknown _ =>
      rw [addUnknown, noteBodyLength]
      split
      · exact ⟨hst.nonempty, hst.spec⟩
      · exact ⟨hst.nonempty, hst.spec⟩
  | trailer _ hoffer _ _ =>
      obtain ⟨-, -, -, -, hspec, hpushed⟩ := hoffer.frame
      refine Specified.closeTo ⟨by simp [replaceBottom], fun g hg => ?_⟩ _
      rcases List.mem_append.mp hg with hg | hg
      · exact hpushed g hg
      · rcases List.mem_append.mp hg with hg | hg
        · exact hst.spec g ((List.dropLast_sublist _).subset hg)
        · rw [List.mem_singleton.mp hg, hspec]
          exact Option.some_ne_none _

theorem Passed.specified (h : Passed settings dict f st st') (hst : st.Specified) :
    st'.Specified := by
  cases h with
  | trailed _ htrailed => exact htrailed.specified hst
  | taken _ _ hoffer _ =>
      obtain ⟨-, -, -, -, hspec, hpushed⟩ := hoffer.frame
      refine ⟨by simp, fun g hg => ?_⟩
      rcases List.mem_append.mp hg with hg | hg
      · exact hpushed g hg
      · rw [List.mem_singleton.mp hg, hspec]
        exact hoffer.spec_ne_none
  | passed _ _ hsome _ htrailed =>
      refine htrailed.specified ⟨List.cons_ne_nil _ _, fun g hg => ?_⟩
      rw [List.mem_singleton.mp hg]
      exact hsome

theorem Filed.specified (h : Filed settings dict f st st') (hst : st.Specified) :
    st'.Specified := by
  cases h with
  | taken hstack hoffer _ =>
      obtain ⟨-, -, -, -, hspec, hpushed⟩ := hoffer.frame
      refine Specified.closeTo ⟨by simp, fun g hg => ?_⟩ _
      rcases List.mem_append.mp hg with hg | hg
      · rcases List.mem_append.mp hg with hg | hg
        · exact hpushed g hg
        · exact hst.spec g (hstack ▸ List.mem_append_left _ hg)
      · rcases List.mem_cons.mp hg with rfl | hg
        · rw [hspec]
          exact hst.spec _ (hstack ▸ List.mem_append_right _ (List.mem_cons_self ..))
        · exact hst.spec g (hstack ▸ List.mem_append_right _ (List.mem_cons_of_mem _ hg))
  | passed hpassed => exact hpassed.specified hst

/-- A field that no entry takes goes on to the body. -/
theorem dispatchField_of_refused (hst : st.Specified) (hrefused : Refused settings dict f st) :
    dispatchField settings dict f st = dispatchBody settings dict f st := by
  obtain ⟨top, htop⟩ : ∃ top, st.stack.head? = some top := by
    cases hstack : st.stack with
    | nil => exact absurd hstack hst.nonempty
    | cons top below => exact ⟨top, rfl⟩
  rw [dispatchField, htop]
  dsimp only
  cases hspec : top.spec with
  | none => exact absurd hspec (hst.spec top (List.mem_of_mem_head? htop))
  | some spec =>
      dsimp only
      split
      next => rfl
      next hempty =>
        rcases hrefused with ⟨top', spec', htop', hspec', hempty'⟩ | hdispatch
        · rw [htop] at htop'
          cases htop'
          rw [hspec] at hspec'
          cases hspec'
          exact absurd hempty' hempty
        · rw [hdispatch]
          rfl

/-- A field that no entry takes and that leaves the header for a body without a specification
uses that specification. -/
theorem dispatchField_null (hst : st.Specified) (hrefused : Refused settings dict f st)
    (hleaves : st.LeavesUnknown settings dict) :
    dispatchField settings dict f st = .error nullSpec := by
  obtain ⟨hstate, st', hclose, hspec⟩ := hleaves
  rw [dispatchField_of_refused hst hrefused, dispatchBody, if_pos hstate, hclose]
  show (st'.bodySpecOf settings dict >>= _) = _
  rw [hspec]
  rfl

end

theorem specified_init (dict : Dictionary) : (init dict).Specified where
  nonempty := List.cons_ne_nil _ _
  spec g hg := by
    rw [List.mem_singleton.mp hg]
    exact Option.some_ne_none _

end ParseState

section

variable {settings : SessionSettings} {dict : Dictionary} {size : Nat}

theorem Rounded.specified {text next : Bytes} {st st' : ParseState}
    (h : Rounded settings dict size text st next st') (hst : st.Specified) : st'.Specified := by
  cases h with
  | skipped _ _ _ => exact ⟨hst.nonempty, hst.spec⟩
  | data _ _ _ _ _ => exact ⟨hst.nonempty, hst.spec⟩
  | filed _ hdispatch =>
      have hfiled := (ParseState.yields_dispatchField _ _).of_ok hdispatch
      exact hfiled.specified ⟨hst.nonempty, hst.spec⟩

/-- In every round of a parse the stack has its specifications. -/
theorem specified_of_reaches {text text' : Bytes} {st : ParseState}
    (h : Reaches (parseRound settings dict size) (text, .init dict) (text', st)) : st.Specified :=
  h.invariant (P := fun p => p.2.Specified) (ParseState.specified_init dict)
    fun _ _ hround hst => (parseRound_next hround).specified hst

theorem specified_of_parseLoop {text : Bytes} {st : ParseState}
    (h : parseLoop settings dict text.length text.length text (.init dict) = .ok st) :
    st.Specified := by
  obtain ⟨⟨text', st'⟩, hreaches, hround⟩ :=
    ((ends_parseLoop _ text (.init dict) (le_refl _)).eq_iff _).mp h
  have hst := specified_of_reaches hreaches
  rcases parseRound_done hround with ⟨-, heq⟩ | ⟨-, hstack, -⟩
  · rw [heq]
    exact hst
  · exact ⟨hstack ▸ hst.nonempty, hstack ▸ hst.spec⟩

theorem parse_eq_null_iff (dict : Dictionary) (settings : SessionSettings) (text : Bytes) :
    dict.parse settings text = .error ParseState.nullSpec ↔
      parseLoop settings dict text.length text.length text (.init dict) =
        .error ParseState.nullSpec := by
  constructor
  · intro h
    rcases bind_eq_error.mp h with h | ⟨st, hloop, h⟩
    · exact h
    · have hst := specified_of_parseLoop hloop
      rcases bind_eq_error.mp h with h | ⟨st', -, h⟩
      · rcases (ParseState.yields_overwriteStack 0 st).of_error h with h | ⟨⟨g, hg, hnull⟩, -⟩
        · exact absurd rfl (ParseState.nullSpec_ne h)
        · exact absurd hnull (hst.spec g hg)
      · have hthrow : ∀ text, Exn.messageParsingError text ≠ ParseState.nullSpec := fun text =>
          ParseState.nullSpec_ne ⟨text, rfl⟩
        refine absurd rfl ((ParseState.yields_check (Q := fun _ => True)
          (E := fun e => e ≠ ParseState.nullSpec) hthrow fun _ => ?_).of_error h)
        split
        next =>
          refine ((yields_checkFrame text st').mono (fun _ _ => True.intro) ?_).bind fun _ _ => ?_
          · intro e he
            rcases he with he | ⟨tag, rfl⟩
            · exact ParseState.nullSpec_ne he
            · intro hnull
              cases hnull
          · exact True.intro
        next => exact True.intro
  · intro h
    rw [Dictionary.parse]
    exact bind_eq_error.mpr (.inl h)

/-- The parser uses a null specification if and only if a field comes that no entry of the
header takes, the header is finished without an error, and the body has no specification. -/
theorem parse_ne_null_iff (dict : Dictionary) (settings : SessionSettings) (text : Bytes) :
    dict.parse settings text ≠ .error ParseState.nullSpec ↔
      ∀ text' st next f,
        Reaches (parseRound settings dict text.length) (text, .init dict) (text', st) →
        Dispatches settings dict text.length text' st next f →
        ParseState.Refused settings dict f (st.started f.tag) →
        ¬(st.started f.tag).LeavesUnknown settings dict := by
  rw [ne_eq, parse_eq_null_iff, (ends_parseLoop _ text (.init dict) (le_refl _)).eq_iff]
  constructor
  · intro h text' st next f hreaches hdispatches hrefused hleaves
    have hst := specified_of_reaches hreaches
    have hstarted : (st.started f.tag).Specified := ⟨hst.nonempty, hst.spec⟩
    refine h ⟨(text', st), hreaches, ?_⟩
    rw [hdispatches.parseRound_eq, ParseState.dispatchField_null hstarted hrefused hleaves]
    rfl
  · intro h ⟨⟨text', st⟩, hreaches, hround⟩
    obtain ⟨next, f, hdispatches, hdispatch⟩ := dispatches_of_parseRound_null hround
    have hst := specified_of_reaches hreaches
    rcases (ParseState.yields_dispatchField f _).of_error hdispatch with hne | ⟨g, hg, hnull⟩ | hleaves
    · exact hne rfl
    · exact hst.spec g hg hnull
    · exact h text' st next f hreaches hdispatches hleaves.1 hleaves.2

end

end OpenFix
