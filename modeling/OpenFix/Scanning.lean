import OpenFix.Parsing
import OpenFix.Reader
import OpenFix.Views
import OpenFix.Wire

/-!
# The session of a first message

`processRead` takes the names of a new connection out of the raw text of its first
message.  It looks for the bytes of `SenderCompID` behind a separator, and from the end
of that value on for those of `TargetCompID`.  The parser reads the same text field by
field and knows sections and the lengths of data values.

The two agree as far as the first of these bytes are the fields of the header.  The
parser takes the names in either order, and passes over a data value or a group that
has the same bytes.
-/

namespace OpenFix

/-- The key under which an acceptor keeps a session, from the view of the peer. -/
def sessionKey (sender target : Bytes) : Bytes := target ++ ascii ":" ++ sender

/-- The names that `processRead` finds in a text. -/
def scanNames (msg : Bytes) : Option (Bytes × Bytes) :=
  match getTagValueView msg senderCompIDPattern 0 with
  | none | some ([], _) => none
  | some (sender, pos) =>
      match getTagValueView msg targetCompIDPattern pos with
      | none | some ([], _) => none
      | some (target, _) => some (sender, target)

/-- The key that `processRead` computes. -/
def routingKey (msg : Bytes) : Option Bytes := (scanNames msg).map fun n => sessionKey n.1 n.2

/-- A connection is bound to the session of the key. -/
theorem route_eq (sessions : List Bytes) (isConnected : Bytes → Bool) (msg : Bytes) :
    route sessions isConnected msg = match routingKey msg with
      | none => none
      | some cpty =>
          if !sessions.contains cpty then none else if isConnected cpty then none else some cpty := by
  unfold route routingKey scanNames
  cases getTagValueView msg senderCompIDPattern 0 with
  | none => rfl
  | some r =>
      obtain ⟨sender, pos⟩ := r
      cases sender with
      | nil => rfl
      | cons s sender =>
          dsimp only
          cases getTagValueView msg targetCompIDPattern pos with
          | none => rfl
          | some r =>
              obtain ⟨target, pos⟩ := r
              cases target with
              | nil => rfl
              | cons t target => rfl

/-- The key is that of the names in the header. -/
def RoutesAsParsed (dict : Dictionary) (settings : SessionSettings) (text : Bytes) : Prop :=
  ∀ msg sender target, dict.parse settings text = .ok msg →
    msg.header.field? Field.senderCompID = some sender →
      msg.header.field? Field.targetCompID = some target →
        routingKey text = some (sessionKey sender target)

/-- The text has a sender in front of a target, both with a value.  The bytes that begin a
sender do not come before it, nor those of a target between the two. -/
structure Leads (text sender target : Bytes) : Prop where
  senderNe : sender ≠ []
  targetNe : target ≠ []
  senderClean : internalSohChar ∉ sender
  targetClean : internalSohChar ∉ target
  split : ∃ before between after,
    text = before ++ (senderCompIDPattern ++ (sender ++ (between ++
      (targetCompIDPattern ++ (target ++ internalSohChar :: after))))) ∧
    ¬senderCompIDPattern <:+: before ∧ ¬targetCompIDPattern <:+: between ∧
      ∀ b ∈ between.head?, b = internalSohChar

theorem find_zero (text pattern : Bytes) : find text pattern 0 = Search.find pattern text := by
  rw [find, List.drop_zero]
  simp only [Nat.zero_add, Option.map_id']

/-- The value behind a pattern that begins with the separator. -/
theorem getTagValueView_eq_some_iff {msg tag value : Bytes} {end_it : Nat}
    (htag : internalSohChar ∉ tag) :
    getTagValueView msg (internalSohChar :: tag) 0 = some (value, end_it) ↔
      ∃ before after, msg = before ++ (internalSohChar :: tag ++ (value ++ internalSohChar :: after)) ∧
        internalSohChar ∉ value ∧ ¬(internalSohChar :: tag) <:+: before ∧
          end_it = before.length + (tag.length + 1) + value.length := by
  constructor
  · intro h
    obtain ⟨begin_it, hbegin, hend, hvalue⟩ := getTagValueView_eq_some h
    rw [find_zero, Search.find_eq_some_iff_split htag] at hbegin
    obtain ⟨before, rest, rfl, rfl, hinfix⟩ := hbegin
    have hdrop : (before ++ (internalSohChar :: tag ++ rest)).drop
        (before.length + (internalSohChar :: tag).length) = rest := by
      rw [← List.append_assoc]
      exact List.drop_left' (by simp)
    rw [find, hdrop, Option.map_eq_some_iff] at hend
    obtain ⟨k, hk, rfl⟩ := hend
    rw [hdrop, Nat.add_sub_cancel_left] at hvalue
    obtain ⟨value', after, rfl, rfl, hclean⟩ :=
      (Search.find_eq_some_iff_split List.not_mem_nil).mp hk
    rw [List.take_left] at hvalue
    subst hvalue
    refine ⟨before, after, rfl, fun hmem => hclean ?_, hinfix, rfl⟩
    exact (List.singleton_infix_iff _ _).mpr hmem
  · rintro ⟨before, after, rfl, hvalue, hinfix, rfl⟩
    have hbegin : find (before ++ (internalSohChar :: tag ++ (value ++ internalSohChar :: after)))
        (internalSohChar :: tag) 0 = some before.length := by
      rw [find_zero, Search.find_eq_some_iff_split htag]
      exact ⟨before, _, rfl, rfl, hinfix⟩
    have hdrop : (before ++ (internalSohChar :: tag ++ (value ++ internalSohChar :: after))).drop
        (before.length + (tag.length + 1)) = value ++ internalSohChar :: after := by
      rw [← List.append_assoc]
      exact List.drop_left' (by simp)
    have hend : find (before ++ (internalSohChar :: tag ++ (value ++ internalSohChar :: after)))
        [internalSohChar] (before.length + (tag.length + 1)) =
          some (before.length + (tag.length + 1) + value.length) := by
      have hfind : Search.find [internalSohChar] (value ++ internalSohChar :: after) =
          some value.length := Search.find_of_head hvalue
      rw [find, hdrop, hfind, Option.map_some]
    unfold getTagValueView
    rw [hbegin]
    dsimp only
    rw [List.length_cons, hend]
    dsimp only
    rw [hdrop, Nat.add_sub_cancel_left, List.take_left]

theorem scanNames_eq_some {text sender target : Bytes} :
    scanNames text = some (sender, target) ↔ ∃ pos end_it,
      getTagValueView text senderCompIDPattern 0 = some (sender, pos) ∧
        getTagValueView text targetCompIDPattern pos = some (target, end_it) ∧
          sender ≠ [] ∧ target ≠ [] := by
  unfold scanNames
  cases hsender : getTagValueView text senderCompIDPattern 0 with
  | none => simp
  | some r =>
      obtain ⟨value, pos⟩ := r
      cases value with
      | nil =>
          simp only [reduceCtorEq, Option.some.injEq, Prod.mk.injEq, false_iff, not_exists]
          rintro pos' end_it ⟨⟨rfl, rfl⟩, _, hne, _⟩
          exact hne rfl
      | cons s value =>
          dsimp only
          cases htarget : getTagValueView text targetCompIDPattern pos with
          | none =>
              simp only [reduceCtorEq, Option.some.injEq, Prod.mk.injEq, false_iff, not_exists]
              rintro pos' end_it ⟨⟨rfl, rfl⟩, h, _⟩
              rw [htarget] at h
              cases h
          | some r =>
              obtain ⟨value', pos'⟩ := r
              cases value' with
              | nil =>
                  simp only [reduceCtorEq, Option.some.injEq, Prod.mk.injEq, false_iff, not_exists]
                  rintro pos'' end_it ⟨⟨rfl, rfl⟩, h, _, hne⟩
                  rw [htarget] at h
                  cases h
                  exact hne rfl
              | cons t value' =>
                  constructor
                  · intro h
                    cases h
                    exact ⟨pos, pos', rfl, htarget, List.cons_ne_nil _ _, List.cons_ne_nil _ _⟩
                  · rintro ⟨pos'', end_it, hs, ht, _, _⟩
                    cases hs
                    rw [htarget] at ht
                    cases ht
                    rfl

/-- The second search begins at the separator behind the sender. -/
theorem getTagValueView_behind {before sender after pattern target : Bytes} {pos : Nat}
    (hpos : pos = before.length + senderCompIDPattern.length + sender.length) :
    (∃ end_it, getTagValueView (before ++ (senderCompIDPattern ++ (sender ++
        internalSohChar :: after))) pattern pos = some (target, end_it)) ↔
      ∃ end_it, getTagValueView (internalSohChar :: after) pattern 0 = some (target, end_it) := by
  have hdrop : (before ++ (senderCompIDPattern ++ (sender ++ internalSohChar :: after))).drop pos =
      internalSohChar :: after := by
    rw [← List.append_assoc, ← List.append_assoc, hpos]
    exact List.drop_left' (by simp only [List.length_append])
  have hview := getTagValueView_drop
    (before ++ (senderCompIDPattern ++ (sender ++ internalSohChar :: after))) pattern pos 0
  rw [Nat.add_zero, hdrop] at hview
  rw [hview]
  constructor
  · rintro ⟨end_it, h⟩
    obtain ⟨r, hr, heq⟩ := Option.map_eq_some_iff.mp h
    cases heq
    exact ⟨r.2, hr⟩
  · rintro ⟨end_it, h⟩
    exact ⟨pos + end_it, by rw [h]; rfl⟩

/-- What the scan finds. -/
theorem scanNames_eq_some_iff {text sender target : Bytes} :
    scanNames text = some (sender, target) ↔ Leads text sender target := by
  have hs : internalSohChar ∉ toChars Field.senderCompID ++ [tagAssignmentChar] := by decide
  have ht : internalSohChar ∉ toChars Field.targetCompID ++ [tagAssignmentChar] := by decide
  rw [scanNames_eq_some]
  constructor
  · rintro ⟨pos, end_it, hsender, htarget, hsne, htne⟩
    obtain ⟨before, rest, rfl, hsclean, hbefore, hpos⟩ :=
      (getTagValueView_eq_some_iff hs).mp hsender
    obtain ⟨end_it, htarget⟩ := (getTagValueView_behind hpos).mp ⟨end_it, htarget⟩
    obtain ⟨between, after, hrest, htclean, hbetween, _⟩ :=
      (getTagValueView_eq_some_iff ht).mp htarget
    refine ⟨hsne, htne, hsclean, htclean, before, between, after, ?_, hbefore, hbetween, ?_⟩
    · rw [hrest]
      rfl
    · intro b hb
      cases between with
      | nil => cases hb
      | cons b' between =>
          cases hb
          exact (List.cons.inj hrest).1.symm
  · rintro ⟨hsne, htne, hsclean, htclean, before, between, after, rfl, hbefore, hbetween, hhead⟩
    obtain ⟨rest, hrest⟩ : ∃ rest, between ++ (targetCompIDPattern ++
        (target ++ internalSohChar :: after)) = internalSohChar :: rest := by
      cases between with
      | nil => exact ⟨_, rfl⟩
      | cons b between =>
          obtain rfl := hhead b rfl
          exact ⟨_, rfl⟩
    have hsender := (getTagValueView_eq_some_iff hs).mpr
      ⟨before, rest, rfl, hsclean, hbefore, rfl⟩
    have htarget := (getTagValueView_eq_some_iff ht).mpr
      ⟨between, after, rfl, htclean, hbetween, rfl⟩
    obtain ⟨end_it, htarget⟩ := (getTagValueView_behind rfl).mpr ⟨_, hrest ▸ htarget⟩
    rw [hrest]
    exact ⟨_, end_it, hsender, htarget, hsne, htne⟩

/-- A text with one sender and one target among its fields, in this order in its bytes, is
routed as it is parsed. -/
theorem routesAsParsed_of_leads {dict : Dictionary} {settings : SessionSettings}
    {text sender target : Bytes} (hleads : Leads text sender target)
    (hsender : ∀ v, FieldOf dict text Field.senderCompID v → v = sender)
    (htarget : ∀ v, FieldOf dict text Field.targetCompID v → v = target) :
    RoutesAsParsed dict settings text := by
  intro msg sender' target' hparse hs ht
  obtain rfl := hsender _ (fieldOf_of_parse hparse hs)
  obtain rfl := htarget _ (fieldOf_of_parse hparse ht)
  unfold routingKey
  rw [scanNames_eq_some_iff.mpr hleads]
  rfl

/-- Both readers of a text name the same session, if and only if a sender leads a target in
it that name the session of the two fields of the text that the parser has filed in the header. -/
theorem routesAsParsed_iff (dict : Dictionary) (settings : SessionSettings) (text : Bytes) :
    RoutesAsParsed dict settings text ↔
      ∀ msg sender target, dict.parse settings text = .ok msg →
        msg.header.field? Field.senderCompID = some sender →
          msg.header.field? Field.targetCompID = some target →
            FieldOf dict text Field.senderCompID sender ∧
              FieldOf dict text Field.targetCompID target ∧
              ∃ s t, Leads text s t ∧ sessionKey s t = sessionKey sender target := by
  have hkey : ∀ key, routingKey text = some key ↔ ∃ s t, Leads text s t ∧ sessionKey s t = key := by
    intro key
    unfold routingKey
    rw [Option.map_eq_some_iff]
    constructor
    · rintro ⟨⟨s, t⟩, hscan, rfl⟩
      exact ⟨s, t, scanNames_eq_some_iff.mp hscan, rfl⟩
    · rintro ⟨s, t, hleads, rfl⟩
      exact ⟨(s, t), scanNames_eq_some_iff.mpr hleads, rfl⟩
  constructor
  · intro h msg sender target hparse hs ht
    exact ⟨fieldOf_of_parse hparse hs, fieldOf_of_parse hparse ht,
      (hkey _).mp (h msg sender target hparse hs ht)⟩
  · exact fun h msg sender target hparse hs ht => (hkey _).mpr (h msg sender target hparse hs ht).2.2

/-- A logon whose TargetCompID comes first. -/
def swappedLogon : Bytes :=
  wireOf ("8=FIX.4.2|9=72|35=A|56=ACCEPTOR|49=INITIATOR|34=1|52=20240229-12:34:56.789|" ++
    "98=0|108=30|10=019|")

/-- The parser takes the names in either order, and the scan does not. -/
theorem not_routesAsParsed : ¬∀ (dict : Dictionary) (settings : SessionSettings) (text : Bytes),
    settings.relaxedParsing = false → RoutesAsParsed dict settings text := by
  intro h
  have hread : (testDictionary.parse {} swappedLogon).toOption.map (fun msg =>
      (msg.header.field? Field.senderCompID, msg.header.field? Field.targetCompID)) =
        some (some (ascii "INITIATOR"), some (ascii "ACCEPTOR")) := by decide +kernel
  obtain ⟨msg, hparse, hnames⟩ := Option.map_eq_some_iff.mp hread
  obtain ⟨hsender, htarget⟩ := Prod.mk.inj hnames
  have hparse : testDictionary.parse {} swappedLogon = .ok msg := by
    cases hok : testDictionary.parse {} swappedLogon with
    | error e =>
        rw [hok] at hparse
        cases hparse
    | ok msg' =>
        rw [hok] at hparse
        cases hparse
        rfl
  have hkey := h testDictionary {} swappedLogon rfl msg _ _ hparse hsender htarget
  have hnone : routingKey swappedLogon = none := by decide +kernel
  rw [hnone] at hkey
  cases hkey

end OpenFix
