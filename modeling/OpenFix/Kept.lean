import Mathlib.Data.List.Chain
import OpenFix.Numerals
import OpenFix.Pairs
import OpenFix.Unique

/-!
# The fields that are kept

A strict parse reads the fields of its text one after the other, and every round writes the
one that it has read.  What is built and what is to come can only get less together.  An
assignment loses the value that the tag had.  So does the count of a group, which is assigned
as well.  A map that is sorted loses all but the first field of each tag.

Nothing tells the caller of a loss.  The checksum is taken out of the message at the end, so
it is left out here.

The parser reads tags and lengths into an `int`.  What a text says is read here with the
numbers that its numerals denote (`readFields`), and the two readings are the same when these
numbers fit.
-/

namespace OpenFix

open Loop Ledger

def withoutChecksum (s : Multiset (Int × Bytes)) : Multiset (Int × Bytes) :=
  s.filter fun q => q.1 ≠ Field.checkSum

/-- Every field that the parser reads but the checksum is in the message, as often as it is
read. -/
def Dictionary.KeepsRead (dict : Dictionary) (text : Bytes) (msg : Message) : Prop :=
  withoutChecksum msg.pairs = withoutChecksum (dict.fieldsOf text)

theorem withoutChecksum_singleton (tag : Int) (value : Bytes) :
    withoutChecksum {(tag, value)} = 0 ↔ tag = Field.checkSum := by
  rw [withoutChecksum, Multiset.filter_singleton]
  split
  next h => exact iff_of_false (Multiset.singleton_ne_zero _) h
  next h => exact iff_of_true rfl (not_not.mp h)

/-! ## One map -/

namespace FieldMap

/-- An assignment loses a field, if the map has its tag. -/
theorem exists_balanced_setFieldView (m : FieldMap) (tag : Int) (value : Bytes) :
    ∃ lost, Balanced m.pairs {(tag, value)} lost (m.setFieldView tag value false).pairs ∧
      (withoutChecksum lost = 0 ↔ ¬(m.has tag = true ∧ tag ≠ Field.checkSum)) := by
  refine ⟨_, m.balanced_setFieldView tag value, ?_⟩
  have hhas : m.has tag = (m.field? tag).isSome := by rw [has, field?, Option.isSome_map]
  rw [hhas]
  cases m.field? tag with
  | none => exact iff_of_true rfl fun h => Bool.false_ne_true h.1
  | some v =>
      show withoutChecksum {(tag, v)} = 0 ↔ _
      rw [withoutChecksum_singleton]
      simp

/-- A map that is finished loses fields, if it is sorted and has a tag twice. -/
theorem exists_balanced_finishMap (settings : SessionSettings) (spec : Option GroupSpec)
    (m : FieldMap) :
    ∃ lost, Balanced m.pairs 0 lost (ParseState.finishMap settings spec m).pairs ∧
      (withoutChecksum lost = 0 ↔
        ¬((settings.parsingReorderTags && spec.any GroupSpec.ordered) = true ∧
          ∃ tag, tag ≠ Field.checkSum ∧ 1 < m.node.copies tag)) := by
  by_cases hsorts : (settings.parsingReorderTags && spec.any GroupSpec.ordered) = true
  · rw [ParseState.finishMap, if_pos hsorts]
    obtain ⟨lost, hlost, hnodup⟩ :=
      exists_balanced_firsts m.fields fun tag => decide (tag ≠ Field.checkSum)
    have hperm : ((m.setSpec spec).sortFields.fields : Multiset (Int × View)) =
        AssocList.firsts m.fields :=
      Multiset.coe_eq_coe.mpr (fields_sortFields_perm (m.setSpec spec))
    rw [← hperm] at hlost
    have hpairs := @balanced_of_fields m (m.setSpec spec).sortFields 0 lost rfl rfl hlost
    refine ⟨_, hpairs, ?_⟩
    have hfilter : withoutChecksum (lost.map fun p => (p.1, m.read p.1 p.2)) =
        (lost.filter fun p => decide (p.1 ≠ Field.checkSum) = true).map
          fun p => (p.1, m.read p.1 p.2) := by
      rw [withoutChecksum, Multiset.filter_map]
      simp only [Function.comp_def, decide_eq_true_eq]
    have hcount := AssocList.nodup_keys_filter_iff
      (fun tag => decide (tag ≠ Field.checkSum)) m.fields
    rw [hfilter, Multiset.map_eq_zero, hnodup, hcount]
    simp only [decide_eq_true_eq, hsorts, true_and, not_exists, not_and, Nat.not_lt]
    rfl
  · rw [ParseState.finishMap, if_neg hsorts]
    refine ⟨0, ?_, iff_of_true rfl fun h => hsorts h.1⟩
    show Balanced m.pairs 0 0 (m.setSpec spec).pairs
    rw [pairs_eq (m.setSpec spec), pairs_eq m]
    rfl

/-- An empty map takes every field. -/
theorem append_of_node_new {m : FieldMap} (h : m.node = new.node) (tag : Int) (value : Bytes) :
    (m.setFieldViewOrDetectDup tag value).1 = false := by
  have hfields : m.fields = [] := congrArg Node.fields h
  have hseen : m.seen = [] := congrArg Node.seen h
  rw [setFieldViewOrDetectDup, hfields, hseen]
  split
  · rfl
  · rfl

end FieldMap

/-! ## The edits -/

theorem Message.pairs_addGroup {msg : Message} {ref : GroupRef} (h : msg.Valid ref) (tag : Int) :
    (msg.modify (fun m => m.addGroup tag) ref).pairs = msg.pairs := by
  have hmap : Balanced (msg.get ref).pairs 0 0 ((msg.get ref).addGroup tag).pairs := by
    rw [FieldMap.pairs_addGroup]
    exact Balanced.refl _
  have hmsg : Balanced msg.pairs 0 0 (msg.modify (fun m => m.addGroup tag) ref).pairs :=
    balanced_modify h hmap
  rwa [Ledger.Balanced, add_zero, add_zero] at hmsg

/-- The map of the entry is sorted when it is finished, and it has a tag twice. -/
def Spills (settings : SessionSettings) (msg : Message) (g : ParserGroupInfo) : Prop :=
  Sorts settings g ∧ ∃ tag, tag ≠ Field.checkSum ∧ msg.Doubled g.group tag

/-- The edit loses a field. -/
def Edit.Loses (settings : SessionSettings) (msg : Message) : Edit → Prop
  | .append _ _ _ => False
  | .assign g tag _ => (msg.get g.group).has tag = true ∧ tag ≠ Field.checkSum
  | .openGroup g _ f => (msg.get g.group).has f.tag = true ∧ f.tag ≠ Field.checkSum
  | .next g _ _ => Spills settings msg g
  | .finish g => Spills settings msg g
  | .enter _ => False

section

variable {settings : SessionSettings} {dict : Dictionary} {b b' : Build} {e : Edit}

theorem Edits.exists_balanced (h : Edits settings dict b e b') (hb : Grounded b) :
    ∃ lost, Balanced b.msg.pairs e.written lost b'.msg.pairs ∧
      (withoutChecksum lost = 0 ↔ ¬e.Loses settings b.msg) := by
  cases h with
  | @append g tag value hg hnew =>
      have hmap := (FieldMap.balanced_append hnew).2.2
      exact ⟨0, Message.balanced_modify (hb.valid g hg) hmap, iff_of_true rfl id⟩
  | @assign g tag value hg =>
      obtain ⟨lost, hmap, hlost⟩ := (b.msg.get g.group).exists_balanced_setFieldView tag value
      exact ⟨lost, Message.balanced_modify (hb.valid g hg) hmap, hlost⟩
  | @openGroup g spec f hg _ =>
      have hvalid := hb.valid g hg
      obtain ⟨lost, hmap, hlost⟩ :=
        ((b.msg.get g.group).addGroup f.tag).exists_balanced_setFieldView f.tag f.val
      rw [← Message.get_modify_self hvalid fun m => m.addGroup f.tag] at hmap
      have hassigned : Balanced (b.msg.modify (fun m => m.addGroup f.tag) g.group).pairs
          {(f.tag, f.val)} lost ((b.msg.modify (fun m => m.addGroup f.tag) g.group).modify
            (fun m => m.setFieldView f.tag f.val false) g.group).pairs :=
        Message.balanced_modify (hvalid.addGroup f.tag) hmap
      rw [Message.pairs_addGroup hvalid] at hassigned
      exact ⟨lost, hassigned, hlost⟩
  | @next before after g p f hentries hp =>
      have hg : g ∈ b.entries := hentries ▸ List.mem_append_right _ List.mem_cons_self
      have hparent : p ∈ b.entries :=
        hentries ▸ List.mem_append_right _ (List.mem_cons_of_mem _ hp)
      obtain ⟨lost, hmap, hlost⟩ :=
        FieldMap.exists_balanced_finishMap settings g.spec (b.msg.get g.group)
      have hfinished := Message.balanced_modify (hb.valid g hg) hmap
      have hvalid : (b.msg.modify (ParseState.finishMap settings g.spec) g.group).Valid p.group :=
        (hb.valid p hparent).of_groups (FieldMap.groups_finishMap settings g.spec)
      obtain ⟨hnot, hthere⟩ := valid_addGroup hvalid g.groupTag
      have hempty : (((b.msg.modify (ParseState.finishMap settings g.spec) g.group).modify
          (fun m => m.addGroup g.groupTag) p.group).get (nextRef settings b.msg g p)).node =
            FieldMap.new.node :=
        (Message.node_modify_ne (FieldMap.keepsInstances_addGroup g.groupTag)
          (Message.child_ne p.group _ _) _).trans (Message.node_of_not_valid hnot)
      have hstarted : Balanced ((b.msg.modify (ParseState.finishMap settings g.spec)
          g.group).modify (fun m => m.addGroup g.groupTag) p.group).pairs {(f.tag, f.val)} 0
            (((b.msg.modify (ParseState.finishMap settings g.spec) g.group).modify
              (fun m => m.addGroup g.groupTag) p.group).modify
                (fun m => (m.setFieldViewOrDetectDup f.tag f.val).2)
                  (nextRef settings b.msg g p)).pairs :=
        Message.balanced_modify hthere
          (FieldMap.balanced_append (FieldMap.append_of_node_new hempty f.tag f.val)).2.2
      rw [Message.pairs_addGroup hvalid] at hstarted
      have hboth := hfinished.trans hstarted
      rw [zero_add, add_zero] at hboth
      exact ⟨lost, hboth, hlost⟩
  | @finish before after g hentries =>
      have hg : g ∈ b.entries := hentries ▸ List.mem_append_right _ List.mem_cons_self
      obtain ⟨lost, hmap, hlost⟩ :=
        FieldMap.exists_balanced_finishMap settings g.spec (b.msg.get g.group)
      exact ⟨lost, Message.balanced_modify (hb.valid g hg) hmap, hlost⟩
  | body _ _ => exact ⟨0, Balanced.refl _, iff_of_true rfl id⟩
  | trailer _ => exact ⟨0, Balanced.refl _, iff_of_true rfl id⟩

/-! ## What is lost later -/

/-- No map of an open entry has a field that is lost when it is sorted. -/
def Unspilled (settings : SessionSettings) (b : Build) : Prop :=
  ∀ g ∈ b.entries, ¬Spills settings b.msg g

/-- The edit loses a field, or it adds one to a map that is sorted later. -/
def Edit.Drops (settings : SessionSettings) (msg : Message) : Edit → Prop
  | .append g tag _ =>
      (msg.get g.group).Unmarked tag ∧ Sorts settings g ∧ tag ≠ Field.checkSum
  | .assign g tag _ => (msg.get g.group).has tag = true ∧ tag ≠ Field.checkSum
  | .openGroup g _ f => (msg.get g.group).has f.tag = true ∧ f.tag ≠ Field.checkSum
  | .next _ _ _ => False
  | .finish _ => False
  | .enter _ => False

theorem Spills.mono {msg msg' : Message} {g : ParserGroupInfo} (h : Spills settings msg g)
    (hmono : ∀ tag, msg.Doubled g.group tag → msg'.Doubled g.group tag) :
    Spills settings msg' g := by
  obtain ⟨hsorts, tag, htag, hdoubled⟩ := h
  exact ⟨hsorts, tag, htag, hmono tag hdoubled⟩

theorem not_spills_of_new {msg : Message} {g : ParserGroupInfo}
    (h : msg.node g.group = FieldMap.new.node) : ¬Spills settings msg g := by
  intro hspills
  obtain ⟨-, tag, -, hdoubled⟩ := hspills
  exact Message.not_doubled_of_new h hdoubled

/-- A map that loses nothing when it is finished leaves the others as they are. -/
theorem spills_finish {msg : Message} {g : ParserGroupInfo} (hnot : ¬Spills settings msg g)
    (g' : ParserGroupInfo) :
    Spills settings (msg.modify (ParseState.finishMap settings g.spec) g.group) g' ↔
      Spills settings msg g' := by
  constructor
  · exact fun h => h.mono fun tag hdoubled => (Message.doubled_finishMap.mp hdoubled).1
  · intro h
    obtain ⟨hsorts, tag, htag, hdoubled⟩ := h
    refine ⟨hsorts, tag, htag, Message.doubled_finishMap.mpr ⟨hdoubled, fun href hsorted => ?_⟩⟩
    rw [href] at hdoubled
    exact hnot ⟨hsorted, tag, htag, hdoubled⟩

theorem unspilled_append {g : ParserGroupInfo} {tag : Int} {value : Bytes} (hgrounded : Grounded b)
    (hg : g ∈ b.entries) (hnew : ((b.msg.get g.group).setFieldViewOrDetectDup tag value).1 = false) :
    Unspilled settings ⟨b.state, b.entries,
        b.msg.modify (fun m => (m.setFieldViewOrDetectDup tag value).2) g.group⟩ ↔
      Unspilled settings b ∧ ¬(Edit.append g tag value).Drops settings b.msg := by
  constructor
  · intro hclean
    refine ⟨fun g' hg' hspills => hclean g' hg' (hspills.mono fun tag' hdoubled => ?_), ?_⟩
    · exact hdoubled.modify (FieldMap.keepsInstances_of_groups fun m =>
        m.groups_setFieldViewOrDetectDup tag value) fun _ =>
          (FieldMap.copies_detectDup _ tag value tag').1
    · intro hdrops
      obtain ⟨hunmarked, hsorts, htag⟩ := hdrops
      exact hclean g hg ⟨hsorts, tag, htag, Message.doubled_append (hgrounded.valid g hg) hunmarked⟩
  · intro hboth g' hg' hspills
    obtain ⟨hclean, hdrops⟩ := hboth
    obtain ⟨hsorts, tag', htag, hdoubled⟩ := hspills
    rcases hdoubled.of_append hnew with hold | ⟨href, rfl, hunmarked⟩
    · exact hclean g' hg' ⟨hsorts, tag', htag, hold⟩
    · have hsame : g' = g := List.inj_on_of_nodup_map hgrounded.nodup hg' hg href
      subst hsame
      exact hdrops ⟨hunmarked, hsorts, htag⟩

/-- A field that is set puts no tag twice. -/
theorem spills_setFieldView {msg : Message} (ref : GroupRef) (tag : Int) (value : Bytes)
    (g : ParserGroupInfo) :
    Spills settings (msg.modify (fun m => m.setFieldView tag value false) ref) g ↔
      Spills settings msg g :=
  ⟨fun h => h.mono fun _ => (Message.doubled_setFieldView tag value).mp,
    fun h => h.mono fun _ => (Message.doubled_setFieldView tag value).mpr⟩

theorem spills_addGroup {msg : Message} (ref : GroupRef) (tag : Int) (g : ParserGroupInfo) :
    Spills settings (msg.modify (fun m => m.addGroup tag) ref) g ↔ Spills settings msg g :=
  ⟨fun h => h.mono fun _ => (Message.doubled_addGroup tag).mp,
    fun h => h.mono fun _ => (Message.doubled_addGroup tag).mpr⟩

theorem unspilled_openGroup {g : ParserGroupInfo} {spec : GroupSpec} {f : WireField}
    (hnew : (b.msg.get g.group).getGroupCount f.tag = 0) :
    Unspilled settings ⟨b.state, ParseState.openedInfo g spec f :: b.entries,
        (b.msg.modify (fun m => m.addGroup f.tag) g.group).modify
          (fun m => m.setFieldView f.tag f.val false) g.group⟩ ↔ Unspilled settings b := by
  have hspills : ∀ g', Spills settings ((b.msg.modify (fun m => m.addGroup f.tag)
      g.group).modify (fun m => m.setFieldView f.tag f.val false) g.group) g' ↔
        Spills settings b.msg g' := fun g' =>
    (spills_setFieldView g.group f.tag f.val g').trans (spills_addGroup g.group f.tag g')
  constructor
  · exact fun h g' hg' hold => h g' (List.mem_cons_of_mem _ hg') ((hspills g').mpr hold)
  · intro h g' hg' hspill
    rcases List.mem_cons.mp hg' with rfl | hg'
    · exact not_spills_of_new (Message.node_child_of_le (Nat.le_of_eq hnew)) ((hspills _).mp hspill)
    · exact h g' hg' ((hspills g').mp hspill)

/-- The first field of an instance puts no tag twice. -/
theorem spills_next {msg : Message} {g p : ParserGroupInfo} {f : WireField}
    (g' : ParserGroupInfo) :
    Spills settings (((msg.modify (ParseState.finishMap settings g.spec) g.group).modify
        (fun m => m.addGroup g.groupTag) p.group).modify
          (fun m => (m.setFieldViewOrDetectDup f.tag f.val).2) (nextRef settings msg g p)) g' ↔
      Spills settings (msg.modify (ParseState.finishMap settings g.spec) g.group) g' := by
  constructor
  · exact fun h => h.mono fun tag => doubled_nextRef
  · refine fun h => h.mono fun tag hold => ((Message.doubled_addGroup g.groupTag).mpr hold).modify
      (FieldMap.keepsInstances_of_groups fun m => m.groups_setFieldViewOrDetectDup f.tag f.val)
      fun _ => ?_
    exact (FieldMap.copies_detectDup _ f.tag f.val tag).1

theorem unspilled_next {before after : List ParserGroupInfo} {g p g' : ParserGroupInfo}
    {f : WireField} (hentries : b.entries = before ++ g :: after)
    (hnot : ¬Spills settings b.msg g) (hgroup : g'.group = nextRef settings b.msg g p) :
    Unspilled settings ⟨b.state, before ++ g' :: after,
        ((b.msg.modify (ParseState.finishMap settings g.spec) g.group).modify
          (fun m => m.addGroup g.groupTag) p.group).modify
            (fun m => (m.setFieldViewOrDetectDup f.tag f.val).2) (nextRef settings b.msg g p)⟩ ↔
      Unspilled settings b := by
  have hnew := @Message.node_child_of_le
    (b.msg.modify (ParseState.finishMap settings g.spec) g.group) p.group g.groupTag _
      (Nat.le_refl _)
  constructor
  · intro h x hx hold
    rw [hentries] at hx
    rcases List.mem_cons.mp (List.perm_middle.mem_iff.mp hx) with rfl | hx
    · exact hnot hold
    · exact h x (List.perm_middle.mem_iff.mpr (List.mem_cons_of_mem _ hx))
        ((spills_next x).mpr ((spills_finish hnot x).mpr hold))
  · intro h x hx hspill
    rcases List.mem_cons.mp (List.perm_middle.mem_iff.mp hx) with rfl | hx
    · refine not_spills_of_new ?_ ((spills_next _).mp hspill)
      rw [hgroup]
      exact hnew
    · refine h x ?_ ((spills_finish hnot x).mp ((spills_next x).mp hspill))
      rw [hentries]
      exact List.perm_middle.mem_iff.mpr (List.mem_cons_of_mem _ hx)

theorem unspilled_finish {before after : List ParserGroupInfo} {g : ParserGroupInfo}
    (hentries : b.entries = before ++ g :: after) (hnot : ¬Spills settings b.msg g) :
    Unspilled settings ⟨b.state, before ++ after,
        b.msg.modify (ParseState.finishMap settings g.spec) g.group⟩ ↔ Unspilled settings b := by
  constructor
  · intro h g' hg' hold
    rw [hentries] at hg'
    rcases List.mem_cons.mp (List.perm_middle.mem_iff.mp hg') with rfl | hg'
    · exact hnot hold
    · exact h g' hg' ((spills_finish hnot g').mpr hold)
  · intro h g' hg' hspill
    refine h g' ?_ ((spills_finish hnot g').mp hspill)
    rw [hentries]
    exact List.perm_middle.mem_iff.mpr (List.mem_cons_of_mem _ hg')

/-- A part that is entered is empty. -/
theorem unspilled_enter {state : MessageState} {g : ParserGroupInfo}
    (hnew : ¬Spills settings b.msg g) :
    Unspilled settings ⟨state, b.entries ++ [g], b.msg⟩ ↔ Unspilled settings b := by
  constructor
  · exact fun h g' hg' => h g' (List.mem_append_left _ hg')
  · intro h g' hg'
    rcases List.mem_append.mp hg' with hg' | hg'
    · exact h g' hg'
    · rw [List.mem_singleton.mp hg']
      exact hnew

theorem Edits.clean_iff (h : Edits settings dict b e b') (hstaged : Staged b)
    (hgrounded : Grounded b) (hnot : ¬e.Loses settings b.msg) :
    Unspilled settings b' ↔ Unspilled settings b ∧ ¬e.Drops settings b.msg := by
  cases h with
  | append hg hnew => exact unspilled_append hgrounded hg hnew
  | @assign g tag value hg =>
      have hclean : Unspilled settings ⟨b.state, b.entries,
          b.msg.modify (fun m => m.setFieldView tag value false) g.group⟩ ↔ Unspilled settings b :=
        forall₂_congr fun g' _ => not_congr (spills_setFieldView g.group tag value g')
      exact hclean.trans (and_iff_left hnot).symm
  | openGroup _ hnew => exact (unspilled_openGroup hnew).trans (and_iff_left hnot).symm
  | next hentries _ => exact (unspilled_next hentries hnot rfl).trans (and_iff_left id).symm
  | finish hentries => exact (unspilled_finish hentries hnot).trans (and_iff_left id).symm
  | @body bodySpec hstate hentries =>
      have hnew : ¬Spills settings b.msg (ParseState.bodyInfo bodySpec) := by
        refine not_spills_of_new (hstaged.empty _ ?_)
        rw [hstate]
        exact True.intro
      refine Iff.trans ?_ (and_iff_left id).symm
      have hclean := @unspilled_enter _ _ .body _ hnew
      rwa [hentries, List.nil_append] at hclean
  | trailer hstate =>
      refine (unspilled_enter (not_spills_of_new (hstaged.empty _ ?_))).trans
        (and_iff_left id).symm
      rw [hstate]
      exact True.intro

/-! ## What is read -/

/-- What is built and what is to come is in what was given. -/
structure Accounted (all c : Multiset (Int × Bytes)) (b : Build) : Prop where
  staged : Staged b
  grounded : Grounded b
  le : b.msg.pairs + c ≤ all

/-- Nothing that was read is lost, and nothing that is built will be. -/
structure Whole (settings : SessionSettings) (all c : Multiset (Int × Bytes)) (b : Build) :
    Prop where
  held : withoutChecksum (b.msg.pairs + c) = withoutChecksum all
  clean : Unspilled settings b

variable {all c : Multiset (Int × Bytes)}

/-- What an edit writes is no longer to come. -/
theorem Edits.exists_balanced_read (h : Edits settings dict b e b') (hb : Grounded b)
    (c : Multiset (Int × Bytes)) :
    ∃ lost, Balanced (b.msg.pairs + (e.written + c)) 0 lost (b'.msg.pairs + c) ∧
      (withoutChecksum lost = 0 ↔ ¬e.Loses settings b.msg) := by
  obtain ⟨lost, hmsg, hlost⟩ := h.exists_balanced hb
  refine ⟨lost, ?_, hlost⟩
  have hread : b'.msg.pairs + c + lost = b.msg.pairs + c + e.written := hmsg.add_right c
  rw [Ledger.Balanced, add_zero, hread, add_assoc, add_comm c]

theorem Edits.accounted (h : Edits settings dict b e b') (hb : Accounted all (e.written + c) b) :
    Accounted all c b' := by
  obtain ⟨lost, hread, -⟩ := h.exists_balanced_read hb.grounded c
  refine ⟨h.staged hb.staged, h.grounded hb.staged hb.grounded, ?_⟩
  have hle := hread.le hb.le
  rwa [add_zero] at hle

/-- The loss of a map that was clean is at the edit itself. -/
theorem Edits.drops_of_loses (h : Edits settings dict b e b') (hclean : Unspilled settings b)
    (hloses : e.Loses settings b.msg) : e.Drops settings b.msg := by
  cases h with
  | append _ _ => exact hloses.elim
  | assign _ => exact hloses
  | openGroup _ _ => exact hloses
  | @next before after g p f hentries hp =>
      exact hclean g (hentries ▸ List.mem_append_right _ List.mem_cons_self) hloses
  | @finish before after g hentries =>
      exact hclean g (hentries ▸ List.mem_append_right _ List.mem_cons_self) hloses
  | body _ _ => exact hloses.elim
  | trailer _ => exact hloses.elim

/-- An edit leaves all that was whole, if and only if it drops nothing. -/
theorem Edits.whole_iff (h : Edits settings dict b e b')
    (hb : Accounted all (e.written + c) b) : Whole settings all c b' ↔
      Whole settings all (e.written + c) b ∧ ¬e.Drops settings b.msg := by
  obtain ⟨lost, hread, hlost⟩ := h.exists_balanced_read hb.grounded c
  have hheld := hread.filter_eq_iff hb.le fun q => q.1 ≠ Field.checkSum
  rw [add_zero] at hheld
  constructor
  · intro hwhole
    obtain ⟨heq, hzero⟩ := hheld.mp hwhole.held
    have hnot := hlost.mp hzero
    obtain ⟨hclean, hdrops⟩ := (h.clean_iff hb.staged hb.grounded hnot).mp hwhole.clean
    exact ⟨⟨heq, hclean⟩, hdrops⟩
  · intro hboth
    obtain ⟨hwhole, hdrops⟩ := hboth
    have hnot : ¬e.Loses settings b.msg := fun hloses =>
      hdrops (h.drops_of_loses hwhole.clean hloses)
    exact ⟨hheld.mpr ⟨hwhole.held, hlost.mpr hnot⟩,
      (h.clean_iff hb.staged hb.grounded hnot).mpr ⟨hwhole.clean, hdrops⟩⟩

end

/-! ## The rounds -/

section

variable (settings : SessionSettings) (dict : Dictionary) (size : Nat) (text : Bytes)
  (st : ParseState)

/-- The round assigns a data field, a field that no specification knows or the count of a group to
a map that has its tag, or it adds a plain field that is lost when the map is sorted. -/
inductive Drops : Prop where
  | data {tagText rest : Bytes} {len : Nat} {top : ParserGroupInfo}
      (htag : Tagged settings text st tagText rest) (hlen : st.dataLength = some len)
      (htype : dict.getFieldType (fastParseTag tagText) = .data)
      (htop : st.stack.head? = some top)
      (hhas : (st.get top.group).has (fastParseTag tagText) = true)
      (hsum : fastParseTag tagText ≠ Field.checkSum)
  | unknown {next : Bytes} {f : WireField} {top : ParserGroupInfo}
      (hdispatches : Dispatches settings dict size text st next f)
      (hrefused : ParseState.Refused settings dict f (st.started f.tag))
      (hstate : st.msgState ≠ .header)
      (htrailer : st.msgState = .body → ParseState.TrailerRefuses settings dict f)
      (htop : st.stack.head? = some top) (hhas : (st.get top.group).has f.tag = true)
      (hsum : f.tag ≠ Field.checkSum)
  | opened {next : Bytes} {f : WireField} {g : ParserGroupInfo} {below : List ParserGroupInfo}
      {spec groupSpec : GroupSpec} (hdispatches : Dispatches settings dict size text st next f)
      (htries : ParseState.Tries settings dict f (st.started f.tag) g below)
      (hspec : g.spec = some spec) (hfield : spec.hasField f.tag = false)
      (hgroup : spec.findGroup f.tag = some groupSpec)
      (hnew : (st.get g.group).getGroupCount f.tag = 0)
      (hhas : (st.get g.group).has f.tag = true) (hsum : f.tag ≠ Field.checkSum)
  | sorted {next : Bytes} {f : WireField} {g : ParserGroupInfo} {below : List ParserGroupInfo}
      (hdispatches : Dispatches settings dict size text st next f)
      (hdoubles : Doubles settings dict f (st.started f.tag) g below)
      (hsorts : Sorts settings g) (hsum : f.tag ≠ Field.checkSum)

end

section

variable {settings : SessionSettings} {dict : Dictionary} {size : Nat} {text next : Bytes}
  {st st' : ParseState} {b b' : Build} {e : Edit} {all : Multiset (Int × Bytes)}

/-- A round of which an edit drops a field drops it. -/
theorem PerformsIn.drops (h : PerformsIn settings dict size text st b e)
    (hedits : Edits settings dict b e b') (hstaged : Staged st.build)
    (hdrops : e.Drops settings b.msg) : Drops settings dict size text st := by
  have hempty : ∀ {m : FieldMap} {tag : Int}, m.node = FieldMap.new.node → ¬m.has tag = true := by
    intro m tag hnode hhas
    have hpos := FieldMap.has_iff_copies.mp hhas
    rw [hnode, FieldMap.copies_new] at hpos
    exact absurd hpos (Nat.lt_irrefl 0)
  cases h with
  | data htag hlen htype htop => exact .data htag hlen htype htop hdrops.1 hdrops.2
  | field hdispatches hperforms =>
      cases hperforms with
      | taken htries htakes =>
          cases htakes with
          | append hspec hfield =>
              exact .sorted hdispatches ⟨htries, ⟨_, hspec, hfield⟩, hdrops.1⟩ hdrops.2.1 hdrops.2.2
          | openGroup hspec hfield hgroup =>
              cases hedits with
              | openGroup _ hnew =>
                  exact .opened hdispatches htries hspec hfield hgroup hnew hdrops.1 hdrops.2
          | next _ _ _ _ _ _ => exact hdrops.elim
      | unknown hrefused hstate htrailer htop =>
          exact .unknown hdispatches hrefused hstate htrailer htop hdrops.1 hdrops.2
      | started hstarts htakes =>
          have hnode := hstarts.node_eq hstaged
          cases htakes with
          | append _ _ => exact absurd hdrops.1.1 (hempty hnode)
          | openGroup _ _ _ => exact absurd hdrops.1 (hempty hnode)
          | next _ _ _ _ _ _ => exact hdrops.elim
      | startedUnknown hstarts _ _ =>
          exact absurd hdrops.1 (hempty (hstarts.node_eq hstaged))
      | enter => exact hdrops.elim
      | finish _ => exact hdrops.elim
      | replace _ => exact hdrops.elim

/-- An edit of a map that is finished leaves a loss as it is. -/
theorem Edits.not_whole {c : Multiset (Int × Bytes)} {g : ParserGroupInfo}
    (h : Edits settings dict b (.finish g) b') (hb : Accounted all c b ∧ ¬Whole settings all c b) :
    Accounted all c b' ∧ ¬Whole settings all c b' := by
  have hread : Accounted all ((Edit.finish g).written + c) b := by
    rw [Edit.written, zero_add]
    exact hb.1
  refine ⟨h.accounted hread, fun hwhole => hb.2 ?_⟩
  have hbefore := ((h.whole_iff hread).mp hwhole).1
  rwa [Edit.written, zero_add] at hbefore

theorem Edits.not_whole_of_drops {c : Multiset (Int × Bytes)} (h : Edits settings dict b e b')
    (hb : Accounted all (e.written + c) b) (hdrops : e.Drops settings b.msg) :
    Accounted all c b' ∧ ¬Whole settings all c b' :=
  ⟨h.accounted hb, fun hwhole => ((h.whole_iff hb).mp hwhole).2 hdrops⟩

/-- A round that dispatches a field reads it. -/
theorem Dispatches.reads {next' : Bytes} {f : WireField}
    (h : Dispatches settings dict size text st next' f)
    (hround : parseRound settings dict size (text, st) = .ok (.inl (next, st'))) :
    ParseState.dispatchField settings dict f (st.started f.tag) = .ok st' ∧
      coming dict (text, st) = {(f.tag, f.val)} + coming dict (next, st') := by
  rw [h.parseRound_eq] at hround
  cases hok : ParseState.dispatchField settings dict f (st.started f.tag) with
  | error e =>
      rw [hok] at hround
      cases hround
  | ok st₁ =>
      rw [hok] at hround
      cases hround
      refine ⟨rfl, coming_field h ?_⟩
      rw [ParseState.dataLength_of_dispatchField hok]
      exact Option.or_none

/-- In strict mode an entry that knows the group takes its count. -/
theorem ParseState.Offered.exists_idx {g : ParserGroupInfo} {groupIdx : Nat}
    {parent : Option ParserGroupInfo} {f : WireField} {r : Tried} {spec groupSpec : GroupSpec}
    (h : Offered settings dict st g groupIdx parent f r) (hstrict : settings.relaxedParsing = false)
    (hspec : g.spec = some spec) (hgroup : spec.findGroup f.tag = some groupSpec) :
    ∃ idx, r.idx = some idx := by
  cases h with
  | refused _ hrefused =>
      rcases hrefused with hrelaxed | ⟨spec', hspec', -, hnone⟩
      · rw [hstrict] at hrelaxed
        cases hrelaxed
      · cases hspec.symm.trans hspec'
        rw [hgroup] at hnone
        cases hnone
  | added _ _ _ => exact ⟨_, rfl⟩
  | opened _ _ _ _ _ => exact ⟨_, rfl⟩
  | next _ _ _ _ _ => exact ⟨_, rfl⟩

/-- Behind a round that drops a field there is a loss. -/
theorem Drops.not_whole (h : Drops settings dict size text st)
    (hstrict : settings.relaxedParsing = false)
    (hround : parseRound settings dict size (text, st) = .ok (.inl (next, st')))
    (hst : Accounted all (coming dict (text, st)) st.build) :
    Accounted all (coming dict (next, st')) st'.build ∧
      ¬Whole settings all (coming dict (next, st')) st'.build := by
  cases h with
  | @data tagText rest len top htag hlen htype htop hhas hsum =>
      cases parseRound_next hround with
      | skipped hrelaxed _ _ =>
          rw [hstrict] at hrelaxed
          cases hrelaxed
      | @data tagText' rest' len' top' htag' hlen' _ _ htop' =>
          cases htag.split.symm.trans htag'.split
          cases hlen.symm.trans hlen'
          cases htop.symm.trans htop'
          rw [@coming_data dict _ tagText rest st ((st.started (fastParseTag tagText)).modify (fun m =>
            m.setFieldView (fastParseTag tagText) (rest.take len) false) top.group) len htag.split
              hlen htype rfl] at hst
          exact (@Edits.assign settings dict st.build top (fastParseTag tagText) (rest.take len)
            (List.mem_of_mem_head? htop)).not_whole_of_drops hst ⟨hhas, hsum⟩
      | filed hdispatches _ =>
          cases hdispatches with
          | intro htag' hdata _ =>
              cases htag.split.symm.trans htag'.split
              rcases hdata with hnone | hne
              · rw [hnone] at hlen
                cases hlen
              · exact absurd htype hne
  | @unknown next' f top hdispatches hrefused hstate htrailer htop hhas hsum =>
      obtain ⟨hok, hcoming⟩ := hdispatches.reads hround
      rw [hcoming] at hst
      refine @ParseState.Refused.invariant_dispatchField _ _ _ _ _
        (fun b => Accounted all (coming dict (next, st')) b ∧
          ¬Whole settings all (coming dict (next, st')) b)
        hstrict hrefused hstate htrailer (fun b g b' hedits => hedits.not_whole)
        (fun top' b' htop' hedits => ?_) hok
      cases htop.symm.trans htop'
      exact hedits.not_whole_of_drops hst ⟨hhas, hsum⟩
  | @opened next' f g below spec groupSpec hdispatches htries hspec hfield hgroup hnew hhas hsum =>
      obtain ⟨hok, hcoming⟩ := hdispatches.reads hround
      rw [hcoming] at hst
      refine @ParseState.Tries.invariant_dispatchField _ _ _ _ _
        (fun b => Accounted all (coming dict (next, st')) b ∧
          ¬Whole settings all (coming dict (next, st')) b)
        _ _ htries (fun r htry => ?_) (fun b g b' _ hedits => hedits.not_whole)
        (fun e b' htakes hedits => ?_) hok
      · have hoffered := (ParseState.yields_trySetField _ g below.length below.head? f).of_ok htry
        exact hoffered.exists_idx hstrict hspec hgroup
      · cases htakes with
        | append hspec' hknown =>
            cases hspec.symm.trans hspec'
            rw [hfield] at hknown
            cases hknown
        | openGroup _ _ _ => exact hedits.not_whole_of_drops hst ⟨hhas, hsum⟩
        | next _ _ _ _ _ hseen =>
            obtain ⟨spec', hspec', hseen⟩ := hseen
            cases hspec.symm.trans hspec'
            rcases hseen with ⟨hknown, -⟩ | ⟨-, -, hcount⟩
            · rw [hfield] at hknown
              cases hknown
            · exact absurd hnew (Nat.ne_of_gt hcount)
  | @sorted next' f g below hdispatches hdoubles hsorts hsum =>
      obtain ⟨hok, hcoming⟩ := hdispatches.reads hround
      rw [hcoming] at hst
      refine @Doubles.invariant_dispatchField _ _ _ _ _ _ _
        (fun b => Accounted all (coming dict (next, st')) b ∧
          ¬Whole settings all (coming dict (next, st')) b)
        hdoubles (fun b g b' hedits => hedits.not_whole) (fun b' hedits => ?_) hok
      exact hedits.not_whole_of_drops hst ⟨hdoubles.unmarked, hsorts, hsum⟩

/-! ## The message -/

/-- The message has lost nothing if and only if what was built had not. -/
theorem keepsRead_of_built {msg : Message} (hentries : b.entries = [])
    (hmsg : msg = b.msg.modify (fun m => m.removeField Field.checkSum) ⟨.trailer, []⟩) :
    dict.KeepsRead text msg ↔ Whole settings (dict.fieldsOf text) 0 b := by
  obtain ⟨lost, hmap, hlost⟩ :=
    (b.msg.get ⟨.trailer, []⟩).exists_balanced_removeField Field.checkSum
  have hbalanced : Balanced b.msg.pairs 0 lost msg.pairs := by
    rw [hmsg]
    exact @Message.balanced_modify b.msg ⟨.trailer, []⟩ 0 lost
      (fun m => m.removeField Field.checkSum) (Message.valid_section .trailer) hmap
  have hpairs : withoutChecksum msg.pairs = withoutChecksum (b.msg.pairs + 0) := by
    rw [← show _ = _ from hbalanced, withoutChecksum, withoutChecksum, Multiset.filter_add, hlost,
      add_zero]
  rw [Dictionary.KeepsRead, hpairs]
  refine ⟨fun heq => ⟨heq, fun g hg => ?_⟩, Whole.held⟩
  rw [hentries] at hg
  cases hg

/-- In a parse that accepts its text, a round that drops a field has another one behind it. -/
theorem Drops.exists_next {text text' : Bytes} {msg : Message}
    (hdrops : Drops settings dict text.length text' st)
    (h : dict.parse settings text = .ok msg) (hstrict : settings.relaxedParsing = false)
    (hreaches : Reaches (parseRound settings dict text.length) (text, .init dict) (text', st)) :
    ∃ next st', parseRound settings dict text.length (text', st) = .ok (.inl (next, st')) := by
  have hsplit : ∃ p, splitByte tagAssignmentChar text' = some p := by
    have hfield : ∀ {next f}, Dispatches settings dict text.length text' st next f →
        ∃ p, splitByte tagAssignmentChar text' = some p := by
      intro next f hdispatches
      cases hdispatches with
      | intro htag _ _ => exact ⟨_, htag.split⟩
    cases hdrops with
    | data htag _ _ _ _ _ => exact ⟨_, htag.split⟩
    | unknown hdispatches _ _ _ _ _ _ => exact hfield hdispatches
    | opened hdispatches _ _ _ _ _ _ _ => exact hfield hdispatches
    | sorted hdispatches _ _ _ => exact hfield hdispatches
  cases hround : parseRound settings dict text.length (text', st) with
  | error e =>
      rw [parse_of_parseRound_error hreaches hround] at h
      cases h
  | ok r =>
      cases r with
      | inl p => exact ⟨p.1, p.2, rfl⟩
      | inr st' =>
          obtain ⟨p, hsplit⟩ := hsplit
          rcases parseRound_done hround with ⟨rfl, -⟩ | ⟨hrelaxed, -⟩
          · cases hsplit
          · rw [hstrict] at hrelaxed
            cases hrelaxed

theorem accounted_init (dict : Dictionary) (text : Bytes) :
    Accounted (dict.fieldsOf text) (coming dict (text, .init dict)) (ParseState.init dict).build := by
  refine ⟨staged_init dict, grounded_init dict, ?_⟩
  show Message.new.pairs + (dict.fieldsOf text : Multiset (Int × Bytes)) ≤ _
  rw [show Message.new.pairs = 0 by simp [Message.pairs, Message.new], zero_add]

theorem whole_init (settings : SessionSettings) (dict : Dictionary) (text : Bytes) :
    Whole settings (dict.fieldsOf text) (coming dict (text, .init dict))
      (ParseState.init dict).build := by
  constructor
  · show withoutChecksum (Message.new.pairs + (dict.fieldsOf text : Multiset (Int × Bytes))) = _
    rw [show Message.new.pairs = 0 by simp [Message.pairs, Message.new], zero_add]
  · intro g _
    exact not_spills_of_new (Message.node_new g.group)

/-- No field that is read but the checksum is lost, if and only if no round of the parse drops
one. -/
theorem keepsRead_iff {text : Bytes} {msg : Message} (h : dict.parse settings text = .ok msg)
    (hstrict : settings.relaxedParsing = false) :
    dict.KeepsRead text msg ↔ ∀ text' st,
      Reaches (parseRound settings dict text.length) (text, .init dict) (text', st) →
        ¬Drops settings dict text.length text' st := by
  constructor
  · intro hkeeps text' st hreaches hdrops
    obtain ⟨next, st', hround⟩ := hdrops.exists_next h hstrict hreaches
    have haccounted := reads_of_reaches (I := Accounted (dict.fieldsOf text)) hstrict
      (accounted_init dict text) (fun _ _ _ _ _ _ _ _ hedits hb => hedits.accounted hb) hreaches
    obtain ⟨b, hb, hentries, hmsg⟩ := reads_of_parse
      (I := fun c b => Accounted (dict.fieldsOf text) c b ∧
        ¬Whole settings (dict.fieldsOf text) c b) h hstrict (hreaches.tail hround)
      (hdrops.not_whole hstrict hround haccounted)
      (fun _ _ _ _ _ _ _ _ hedits hb =>
        ⟨hedits.accounted hb.1, fun hwhole => hb.2 ((hedits.whole_iff hb.1).mp hwhole).1⟩)
      (fun _ _ _ hedits hb => hedits.not_whole hb)
    exact hb.2 ((keepsRead_of_built hentries hmsg).mp hkeeps)
  · intro hcond
    have hbuilt := reads_of_parse
      (I := fun c b => Accounted (dict.fieldsOf text) c b ∧
        Whole settings (dict.fieldsOf text) c b) h hstrict .refl
      ⟨accounted_init dict text, whole_init settings dict text⟩
      (fun text' st hreaches c b e b' hperforms hedits hb =>
        ⟨hedits.accounted hb.1, (hedits.whole_iff hb.1).mpr ⟨hb.2, fun hdrops =>
          hcond text' st hreaches (hperforms.drops hedits (staged_of_reaches hreaches) hdrops)⟩⟩)
      (fun b g b' hedits hb => ⟨@Edits.accounted _ _ _ _ _ _ 0 hedits hb.1,
        (@Edits.whole_iff _ _ _ _ _ _ 0 hedits hb.1).mpr ⟨hb.2, id⟩⟩)
    obtain ⟨b, hb, hentries, hmsg⟩ := hbuilt
    exact (keepsRead_of_built hentries hmsg).mpr hb.2

end

/-! ## What the text says -/

/-- The number that a numeral denotes. -/
def numeral? (s : Bytes) : Option Nat := if IsNumeral s then some (digitsVal s) else none

/-- The first `n` fields of a text, with the number `len` that the field in front of it
announced.  There are none, if a field has no number for a tag or does not end. -/
def readFields (dict : Dictionary) : Nat → Option Nat → Bytes → Option (List (Int × Bytes))
  | _, _, [] => some []
  | 0, _, _ :: _ => none
  | n + 1, len, c :: cs =>
      match splitByte tagAssignmentChar (c :: cs) with
      | none => none
      | some (tagText, rest) =>
          match numeral? tagText with
          | none => none
          | some tag =>
              match dataSize dict len tag with
              | some size =>
                  if rest.length < size then none
                  else (readFields dict n none (rest.drop (size + 1))).map
                    ((tag, rest.take size) :: ·)
              | none =>
                  match splitByte internalSohChar rest with
                  | none => none
                  | some (val, next) =>
                      (readFields dict n
                        (if dict.getFieldType tag = .length then numeral? val else none) next).map
                          ((tag, val) :: ·)

/-- The fields that a text says it has. -/
def Dictionary.saidFields (dict : Dictionary) (text : Bytes) : Option (List (Int × Bytes)) :=
  readFields dict text.length none text

/-- Every field of the text but the checksum is in the message, as often as in the text. -/
def Dictionary.KeepsFields (dict : Dictionary) (text : Bytes) (msg : Message) : Prop :=
  ∃ fields, dict.saidFields text = some fields ∧
    withoutChecksum msg.pairs = withoutChecksum fields

/-- A length field in front of a data field has a number that fits an `int`. -/
def Announces (dict : Dictionary) (f g : Int × Bytes) : Prop :=
  dict.getFieldType f.1 = .length → dict.getFieldType g.1 = .data →
    ∀ n, numeral? f.2 = some n → n < 2147483648

/-- The numbers of the tags and of the lengths that matter fit an `int`. -/
def Dictionary.Fits (dict : Dictionary) (text : Bytes) : Prop :=
  ∃ fields, dict.saidFields text = some fields ∧ (∀ f ∈ fields, f.1 < 2147483648) ∧
    fields.IsChain (Announces dict)

theorem fastParseTag_of_numeral? {s : Bytes} {n : Nat} (h : numeral? s = some n)
    (hfits : n < 2147483648) : fastParseTag s = n := by
  unfold numeral? at h
  split at h
  next hs =>
    cases h
    rw [fastParseTag_numeral hs, i32_of_range (by omega) (by omega)]
  next => cases h

/-- A length that fits is announced as it is said. -/
theorem announced_eq {dict : Dictionary} {tag : Int} {val : Bytes}
    (hfits : dict.getFieldType tag = .length → ∀ n, numeral? val = some n → n < 2147483648)
    (offset : Nat) :
    ParseState.announced dict ⟨tag, val, offset⟩ =
      if dict.getFieldType tag = .length then numeral? val else none := by
  unfold ParseState.announced
  dsimp only
  by_cases htype : dict.getFieldType tag = .length
  · rw [if_pos htype]
    cases hval : numeral? val with
    | some n =>
        have hread := fastParseTag_of_numeral? hval (hfits htype n hval)
        rw [hread, if_pos ⟨htype, Int.natCast_nonneg _⟩, Int.toNat_natCast]
    | none =>
        have hnot : ¬IsNumeral val := fun hnum => by simp [numeral?, hnum] at hval
        rw [fastParseTag_of_not_numeral hnot, if_neg fun h => absurd h.2 (by decide)]
  · rw [if_neg htype, if_neg fun h => htype h.1]

/-- A text whose numbers fit is read as it says. -/
theorem tokens_eq_of_readFields {dict : Dictionary} : ∀ {n : Nat} {len len' : Option Nat}
    {text : Bytes} {fields : List (Int × Bytes)}, readFields dict n len text = some fields →
    (∀ f ∈ fields, f.1 < 2147483648) → fields.IsChain (Announces dict) →
    (∀ f, fields.head? = some f → dict.getFieldType f.1 = .data → len' = len) →
      tokens dict n len' text = fields
  | _, _, _, [], fields, h, _, _, _ => by
      rw [readFields] at h
      cases h
      exact tokens_nil _ _
  | 0, _, _, c :: cs, _, h, _, _, _ => by
      rw [readFields] at h
      cases h
  | n + 1, len, len', c :: cs, fields, h, htags, hchain, hlen => by
      rw [readFields] at h
      cases hsplit : splitByte tagAssignmentChar (c :: cs) with
      | none => simp [hsplit] at h
      | some p =>
          obtain ⟨tagText, rest⟩ := p
          simp only [hsplit] at h
          cases hnum : numeral? tagText with
          | none => simp [hnum] at h
          | some tag =>
              simp only [hnum] at h
              cases hsize : dataSize dict len tag with
              | some size =>
                  simp only [hsize] at h
                  split at h
                  next => cases h
                  next hroom =>
                    obtain ⟨tail, htail, rfl⟩ := Option.map_eq_some_iff.mp h
                    have hlt := htags _ (List.mem_cons_self ..)
                    have htag := fastParseTag_of_numeral? hnum (Int.ofNat_lt.mp hlt)
                    have htype : dict.getFieldType tag = .data := by
                      by_contra hno
                      rw [dataSize, if_neg hno] at hsize
                      cases hsize
                    have hdata : dataSize dict len' (fastParseTag tagText) = some size := by
                      rw [htag, hlen _ rfl htype]
                      exact hsize
                    rw [tokens_data hsplit hdata, htag]
                    refine congrArg _ (tokens_eq_of_readFields htail
                      (fun f hf => htags f (List.mem_cons_of_mem _ hf))
                      (List.isChain_cons.mp hchain).2 ?_)
                    exact fun _ _ _ => rfl
              | none =>
                  simp only [hsize] at h
                  cases hval : splitByte internalSohChar rest with
                  | none => simp [hval] at h
                  | some q =>
                      obtain ⟨val, next⟩ := q
                      simp only [hval] at h
                      obtain ⟨tail, htail, rfl⟩ := Option.map_eq_some_iff.mp h
                      have hlt := htags _ (List.mem_cons_self ..)
                      have htag := fastParseTag_of_numeral? hnum (Int.ofNat_lt.mp hlt)
                      have hplain : dataSize dict len' (fastParseTag tagText) = none := by
                        rw [htag]
                        by_cases htype : dict.getFieldType tag = .data
                        · rw [hlen _ rfl htype]
                          exact hsize
                        · rw [dataSize, if_neg htype]
                      rw [tokens_field hsplit hplain hval, htag]
                      refine congrArg _ (tokens_eq_of_readFields htail
                        (fun f hf => htags f (List.mem_cons_of_mem _ hf))
                        (List.isChain_cons.mp hchain).2 ?_)
                      -- The number matters, if a data field comes next.
                      exact fun f hf hdata => announced_eq (fun hlength =>
                        (List.isChain_cons.mp hchain).1 f hf hlength hdata) 0

theorem Dictionary.Fits.saidFields_eq {dict : Dictionary} {text : Bytes} (h : dict.Fits text) :
    dict.saidFields text = some (dict.fieldsOf text) := by
  obtain ⟨fields, hread, htags, hchain⟩ := h
  rw [hread, Dictionary.fieldsOf, tokens_eq_of_readFields hread htags hchain fun _ _ _ => rfl]

/-- A text whose numbers fit says what is read. -/
theorem Dictionary.Fits.keepsFields_iff_keepsRead {dict : Dictionary} {text : Bytes} (h : dict.Fits text)
    (msg : Message) : dict.KeepsFields text msg ↔ dict.KeepsRead text msg := by
  rw [KeepsFields, h.saidFields_eq]
  constructor
  · rintro ⟨fields, heq, hkeeps⟩
    cases heq
    exact hkeeps
  · exact fun hkeeps => ⟨_, rfl, hkeeps⟩

/-- A data field of which the length is said is within the text. -/
theorem length_of_readFields {dict : Dictionary} : ∀ {n : Nat} {len : Option Nat}
    {text : Bytes} {fields : List (Int × Bytes)}, readFields dict n len text = some fields →
    text.length < 2147483648 → fields.IsChain (Announces dict) ∧
      ∀ f size, fields.head? = some f → dict.getFieldType f.1 = .data → len = some size →
        size < 2147483648
  | _, _, [], fields, h, _ => by
      rw [readFields] at h
      cases h
      exact ⟨.nil, fun _ _ hf => by cases hf⟩
  | 0, _, c :: cs, _, h, _ => by
      rw [readFields] at h
      cases h
  | n + 1, len, c :: cs, fields, h, hlength => by
      rw [readFields] at h
      cases hsplit : splitByte tagAssignmentChar (c :: cs) with
      | none => simp [hsplit] at h
      | some p =>
          obtain ⟨tagText, rest⟩ := p
          have hrest := splitByte_length hsplit
          simp only [hsplit] at h
          cases hnum : numeral? tagText with
          | none => simp [hnum] at h
          | some tag =>
              simp only [hnum] at h
              cases hsize : dataSize dict len tag with
              | some size =>
                  simp only [hsize] at h
                  split at h
                  next => cases h
                  next hroom =>
                    obtain ⟨tail, htail, rfl⟩ := Option.map_eq_some_iff.mp h
                    obtain ⟨hchain, -⟩ := length_of_readFields htail
                      (by rw [List.length_drop]; omega)
                    have htype : dict.getFieldType tag = .data := by
                      by_contra hno
                      rw [dataSize, if_neg hno] at hsize
                      cases hsize
                    refine ⟨List.isChain_cons.mpr ⟨fun g _ hlen => ?_, hchain⟩,
                      fun f size' hf _ hlen => ?_⟩
                    · rw [htype] at hlen
                      cases hlen
                    · rw [dataSize, if_pos htype, hlen] at hsize
                      cases hsize
                      omega
              | none =>
                  simp only [hsize] at h
                  cases hval : splitByte internalSohChar rest with
                  | none => simp [hval] at h
                  | some q =>
                      obtain ⟨val, next⟩ := q
                      have hnext := splitByte_length hval
                      simp only [hval] at h
                      obtain ⟨tail, htail, rfl⟩ := Option.map_eq_some_iff.mp h
                      obtain ⟨hchain, hhead⟩ := length_of_readFields htail (by omega)
                      refine ⟨List.isChain_cons.mpr ⟨fun g hg hlen hdata n hn => ?_, hchain⟩,
                        fun f size hf hdata hlen => ?_⟩
                      · exact hhead g n hg hdata ((if_pos hlen).trans hn)
                      · cases Option.some.inj hf
                        rw [dataSize, if_pos hdata, hlen] at hsize
                        cases hsize

theorem lt_of_mem_tokens {dict : Dictionary} {f : Int × Bytes} : ∀ {n : Nat} {len : Option Nat}
    {text : Bytes}, f ∈ tokens dict n len text → f.1 < 2147483648
  | 0, _, _, h => absurd h List.not_mem_nil
  | n + 1, len, text, h => by
      have hread : ∀ s, fastParseTag s < 2147483648 := fun s => by
        by_cases hs : IsNumeral s
        · rw [fastParseTag_numeral hs]
          exact (i32_range _).2
        · rw [fastParseTag_of_not_numeral hs]
          decide
      rw [tokens] at h
      split at h
      next => exact absurd h List.not_mem_nil
      next =>
        split at h
        next =>
          rcases List.mem_cons.mp h with rfl | h
          · exact hread _
          · exact lt_of_mem_tokens h
        next =>
          split at h
          next => exact absurd h List.not_mem_nil
          next =>
            rcases List.mem_cons.mp h with rfl | h
            · exact hread _
            · exact lt_of_mem_tokens h

/-- The tags of an accepted message fit an `int`. -/
theorem lt_of_mem_pairs {settings : SessionSettings} {dict : Dictionary} {text : Bytes}
    {msg : Message} (h : dict.parse settings text = .ok msg)
    (hstrict : settings.relaxedParsing = false) {f : Int × Bytes} (hf : f ∈ msg.pairs) :
    f.1 < 2147483648 := by
  obtain ⟨b, hb, -, hmsg⟩ := reads_of_parse (I := Accounted (dict.fieldsOf text)) h hstrict .refl
    (accounted_init dict text) (fun _ _ _ _ _ _ _ _ hedits hb => hedits.accounted hb)
    (fun _ _ _ hedits hb => @Edits.accounted _ _ _ _ _ _ 0 hedits hb)
  obtain ⟨lost, hmap, -⟩ :=
    (b.msg.get ⟨.trailer, []⟩).exists_balanced_removeField Field.checkSum
  have hbalanced : Balanced b.msg.pairs 0 lost msg.pairs := by
    rw [hmsg]
    exact @Message.balanced_modify b.msg ⟨.trailer, []⟩ 0 lost
      (fun m => m.removeField Field.checkSum) (Message.valid_section .trailer) hmap
  have hle : msg.pairs ≤ (dict.fieldsOf text : Multiset (Int × Bytes)) := by
    refine le_trans ?_ hb.le
    rw [← show _ = _ from hbalanced]
    exact Multiset.le_add_right _ _
  exact lt_of_mem_tokens (Multiset.mem_coe.mp (Multiset.mem_of_le hle hf))

/-- No field of the text but the checksum is lost, if its numbers fit and no round of the parse
drops a field; and only if, where the text has fewer bytes than an `int` can count. -/
theorem keepsFields_iff {settings : SessionSettings} {dict : Dictionary} {text : Bytes}
    {msg : Message} (h : dict.parse settings text = .ok msg)
    (hstrict : settings.relaxedParsing = false) :
    (dict.Fits text → (∀ text' st,
        Reaches (parseRound settings dict text.length) (text, .init dict) (text', st) →
          ¬Drops settings dict text.length text' st) → dict.KeepsFields text msg) ∧
      (text.length < 2147483648 → dict.KeepsFields text msg → dict.Fits text ∧ ∀ text' st,
        Reaches (parseRound settings dict text.length) (text, .init dict) (text', st) →
          ¬Drops settings dict text.length text' st) := by
  constructor
  · intro hfits hcond
    exact (hfits.keepsFields_iff_keepsRead msg).mpr ((keepsRead_iff h hstrict).mpr hcond)
  · intro hlength hkeeps
    obtain ⟨fields, hsaid, hsame⟩ := id hkeeps
    have htags : ∀ f ∈ fields, f.1 < 2147483648 := by
      intro f hf
      by_cases hsum : f.1 = Field.checkSum
      · rw [hsum]
        decide
      · have hmem : f ∈ withoutChecksum fields :=
          Multiset.mem_filter.mpr ⟨Multiset.mem_coe.mpr hf, hsum⟩
        rw [← hsame] at hmem
        exact lt_of_mem_pairs h hstrict (Multiset.mem_filter.mp hmem).1
    have hfits : dict.Fits text :=
      ⟨fields, hsaid, htags, (length_of_readFields hsaid hlength).1⟩
    exact ⟨hfits, (keepsRead_iff h hstrict).mp ((hfits.keepsFields_iff_keepsRead msg).mp hkeeps)⟩

/-- A heartbeat with a field that no specification knows, twice. -/
def unknownTwiceText : Bytes :=
  wireOf "8=FIX.4.4|9=25|35=0|112=7|9999=a|9999=b|10=229|"

/-- A heartbeat that keeps what it says. -/
def answeredText : Bytes := wireOf "8=FIX.4.4|9=11|35=0|112=7|10=217|"

theorem keepsFields_iff_test : ∃ msg, testDictionary.parse {} answeredText = .ok msg ∧
    (testDictionary.KeepsFields answeredText msg ↔
      testDictionary.Fits answeredText ∧ ∀ text' st,
        Reaches (parseRound {} testDictionary answeredText.length)
          (answeredText, .init testDictionary) (text', st) →
          ¬Drops {} testDictionary answeredText.length text' st) := by
  have hsome : (testDictionary.parse {} answeredText).toOption.isSome = true := by decide +kernel
  cases hparse : testDictionary.parse {} answeredText with
  | ok msg =>
      refine ⟨msg, rfl, (keepsFields_iff hparse rfl).2 (by decide), fun h => ?_⟩
      exact (keepsFields_iff hparse rfl).1 h.1 h.2
  | error e =>
      rw [hparse] at hsome
      cases hsome

/-- The text has six fields in front of the checksum, and the message has five. -/
theorem not_keepsFields : ¬∀ (dict : Dictionary) (settings : SessionSettings) (text : Bytes)
    (msg : Message), dict.parse settings text = .ok msg → settings.relaxedParsing = false →
      dict.KeepsFields text msg := by
  intro h
  have hbuilt : (testDictionary.parse {} unknownTwiceText).map (fun msg =>
      Multiset.card (withoutChecksum msg.pairs)) = .ok 5 := by decide +kernel
  have hsaid : (testDictionary.saidFields unknownTwiceText).map (fun fields =>
      Multiset.card (withoutChecksum fields)) = some 6 := by decide +kernel
  cases hparse : testDictionary.parse {} unknownTwiceText with
  | ok msg =>
      rw [hparse] at hbuilt
      have hcard : Multiset.card (withoutChecksum msg.pairs) = 5 := Except.ok.inj hbuilt
      obtain ⟨fields, hfields, hkeeps⟩ := h testDictionary {} unknownTwiceText msg hparse rfl
      rw [hfields] at hsaid
      have hcard' : Multiset.card (withoutChecksum fields) = 6 := Option.some.inj hsaid
      rw [← hkeeps, hcard] at hcard'
      cases hcard'
  | error e =>
      rw [hparse] at hbuilt
      cases hbuilt

/-- A tag of ten digits is read as that of TestReqID. -/
example : (testDictionary.parse {} (wireOf "8=FIX.4.4|9=18|35=0|4294967408=7|10=097|")).map
      (fun msg => msg.body.field? Field.testReqID) = .ok (some (ascii "7")) ∧
    (testDictionary.saidFields (wireOf "8=FIX.4.4|9=18|35=0|4294967408=7|10=097|")).map
      (fun fields => fields.any fun f => f.1 = 4294967408) = some true := by
  decide +kernel

end OpenFix
