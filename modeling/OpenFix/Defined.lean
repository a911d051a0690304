import OpenFix.Slots

/-!
# Parses that come out

A parse comes out with a message, or it throws.  There are three things that keep it from
doing so: the message leaves its header with a type that has no specification, a field opens
a group that has no slot, and a data field goes past the end of the text in relaxed mode.
The other two undefined steps of the parser are never taken: the stack is never empty when
its top is read, and an entry without a parent is never that of a group.
-/

namespace OpenFix

open Loop

/-- The parse comes out with a message, or it throws. -/
def ComesOut (dict : Dictionary) (settings : SessionSettings) (text : Bytes) : Prop :=
  ∀ what, dict.parse settings text ≠ .error (.undefined what)

section

variable {settings : SessionSettings} {dict : Dictionary}

/-- What is left when the slots and the end of the text are kept. -/
def IsDefinedOrNull (e : Exn) : Prop := (∀ what, e ≠ .undefined what) ∨ e = ParseState.nullSpec

theorem thrown_isDefinedOrNull : ParseState.Thrown IsDefinedOrNull where
  parsing text := .inl fun what h => by cases h
  null := .inr rfl

/-- The parse uses no step that is undefined, but for a specification that is not there. -/
theorem isDefinedOrNull_of_error {text : Bytes} {e : Exn}
    (hround : ∀ text' st,
      Reaches (parseRound settings dict text.length) (text, .init dict) (text', st) →
        ¬Overruns settings dict text' st ∧ ∀ next f,
          Dispatches settings dict text.length text' st next f →
            ¬ParseState.Overflows settings dict f (st.started f.tag))
    (herror : dict.parse settings text = .error e) : IsDefinedOrNull e := by
  refine (yields_parse thrown_isDefinedOrNull (fun tag => .inl fun what h => by cases h) text
    fun text' st hreaches => ?_).of_error herror
  obtain ⟨hoverruns, hoverflows⟩ := hround text' st hreaches
  obtain ⟨specs, hchained⟩ := stacked_of_reaches hreaches
  refine yields_parseRound thrown_isDefinedOrNull text' st (fun hempty => ?_) (fun hroot => ?_)
    (fun h => absurd h hoverruns) fun next f hdispatches h => ?_
  · exact absurd hempty (specified_of_reaches hreaches).nonempty
  · exact absurd hroot hchained.not_rootless
  · exact absurd h (hoverflows next f hdispatches)

/-- A parse comes out with a message or throws, if and only if no data field overruns the text
and for every field the header is not left with a type that has no specification, and no group
is opened while seven groups are open, each declared in the one before. -/
theorem comesOut_iff (dict : Dictionary) (settings : SessionSettings) (text : Bytes) :
    ComesOut dict settings text ↔
      ∀ text' st, Reaches (parseRound settings dict text.length) (text, .init dict) (text', st) →
        ¬Overruns settings dict text' st ∧ ∀ next f,
          Dispatches settings dict text.length text' st next f →
            (ParseState.Refused settings dict f (st.started f.tag) →
              ¬(st.started f.tag).LeavesUnknown settings dict) ∧
            ¬ParseState.OpensEighth settings dict f (st.started f.tag) := by
  constructor
  · intro hout text' st hreaches
    refine ⟨fun hoverruns => ?_, fun next f hdispatches => ⟨fun hrefused => ?_, fun hopens => ?_⟩⟩
    · exact hout _ (parse_of_parseRound_error hreaches hoverruns.parseRound_eq)
    · exact (parse_ne_null_iff dict settings text).mp (hout _) text' st next f hreaches hdispatches
        hrefused
    · exact hout _ (parse_of_overflows hreaches hdispatches ((overflows_iff hreaches).mpr hopens))
  · intro hround what herror
    have hnull : dict.parse settings text ≠ .error ParseState.nullSpec :=
      (parse_ne_null_iff dict settings text).mpr fun text' st next f hreaches hdispatches =>
        ((hround text' st hreaches).2 next f hdispatches).1
    have hdefined := isDefinedOrNull_of_error (fun text' st hreaches =>
      ⟨(hround text' st hreaches).1, fun next f hdispatches hoverflows =>
        ((hround text' st hreaches).2 next f hdispatches).2
          ((overflows_iff hreaches).mp hoverflows)⟩) herror
    rcases hdefined with hdefined | heq
    · exact hdefined what rfl
    · exact hnull (heq ▸ herror)

end

/-- The dictionary has no message type `Z`. -/
theorem not_comesOut : ¬∀ (dict : Dictionary) (settings : SessionSettings) (text : Bytes),
    ComesOut dict settings text := by
  intro h
  exact h testDictionary {} (wireOf "8=FIX.4.4|9=11|35=Z|112=7|10=003|") "null specification" rfl

end OpenFix
