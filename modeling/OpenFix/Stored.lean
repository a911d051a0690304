import OpenFix.Nodes

/-!
# What the parser stores

Whatever a round does with its field, the maps of the message have no fields behind it
that were not there before, but for the field itself.  A property of the fields of a text
is therefore one of all fields of the message.
-/

namespace OpenFix

/-- All fields of the message have the property. -/
def Message.Stores (Q : Int × View → Prop) (msg : Message) : Prop :=
  ∀ ref, ∀ p ∈ (msg.node ref).fields, Q p

namespace FieldMap

theorem mem_setFieldView {m : FieldMap} {tag : Int} {value : Bytes} {p : Int × View}
    (h : p ∈ (m.setFieldView tag value false).fields) : p = (tag, .text value) ∨ p ∈ m.fields := by
  rw [setFieldView, insertFieldView] at h
  split at h
  · exact AssocList.mem_set h
  · exact AssocList.mem_set h

theorem mem_setFieldViewOrDetectDup {m : FieldMap} {tag : Int} {value : Bytes} {p : Int × View}
    (h : p ∈ (m.setFieldViewOrDetectDup tag value).2.fields) :
    p = (tag, .text value) ∨ p ∈ m.fields := by
  have happend : p ∈ m.fields ++ [(tag, .text value)] → p = (tag, .text value) ∨ p ∈ m.fields := by
    intro hp
    rcases List.mem_append.mp hp with hp | hp
    · exact .inr hp
    · exact .inl (List.mem_singleton.mp hp)
  rw [setFieldViewOrDetectDup] at h
  split at h
  · split at h
    · exact .inr h
    · exact happend h
  · split at h
    · exact .inr h
    · exact happend h

theorem mem_finishMap {settings : SessionSettings} {spec : Option GroupSpec} {m : FieldMap}
    {p : Int × View} (h : p ∈ (ParseState.finishMap settings spec m).fields) : p ∈ m.fields := by
  rw [ParseState.finishMap] at h
  split at h
  · have hfirsts := (fields_sortFields_perm (m.setSpec spec)).mem_iff.mp h
    exact (AssocList.firsts_sublist m.fields).subset hfirsts
  · exact h

end FieldMap

namespace Message

variable {Q : Int × View → Prop} {msg : Message}

theorem stores_new : Message.new.Stores Q := by
  intro ref p hp
  rw [node_new] at hp
  cases hp

theorem Stores.modify (h : msg.Stores Q) {f : FieldMap → FieldMap} (hf : FieldMap.KeepsInstances f)
    (hmem : ∀ m p, p ∈ (f m).fields → p ∈ m.fields ∨ Q p) (ref : GroupRef) :
    (msg.modify f ref).Stores Q := by
  refine forall_node_modify (P := fun n => ∀ p ∈ n.fields, Q p) h hf (fun m hm p hp => ?_) ref
  rcases hmem m p hp with hp | hq
  · exact hm p hp
  · exact hq

end Message

namespace ParseState

variable {settings : SessionSettings} {dict : Dictionary} {f : WireField} {Q : Int × View → Prop}
  {st st' : ParseState}

theorem stores_finish (h : st.msg.Stores Q) (g : ParserGroupInfo) :
    (st.finish settings g).msg.Stores Q :=
  h.modify (FieldMap.keepsInstances_of_groups (FieldMap.groups_finishMap settings g.spec))
    (fun _ _ hp => .inl (FieldMap.mem_finishMap hp)) g.group

theorem stores_foldl_finish (stack : List ParserGroupInfo) {st : ParseState}
    (h : st.msg.Stores Q) : (stack.foldl (finish settings) st).msg.Stores Q := by
  induction stack generalizing st with
  | nil => exact h
  | cons g stack ih => exact ih (stores_finish h g)

theorem stores_closeTo (h : st.msg.Stores Q) (keep : Nat) :
    (st.closeTo settings keep).msg.Stores Q := stores_foldl_finish _ h

theorem msg_noteBodyLength (st : ParseState) (f : WireField) :
    (st.noteBodyLength f).msg = st.msg := by
  rw [noteBodyLength]
  split
  · rfl
  · rfl

theorem stores_addGroup (h : st.msg.Stores Q) (tag : Int) (ref : GroupRef) :
    (st.modify (fun m => m.addGroup tag) ref).msg.Stores Q :=
  h.modify (FieldMap.keepsInstances_addGroup tag) (fun _ _ hp => .inl hp) ref

theorem stores_setFieldView (h : st.msg.Stores Q) {tag : Int} {value : Bytes}
    (hq : Q (tag, .text value)) (ref : GroupRef) :
    (st.modify (fun m => m.setFieldView tag value false) ref).msg.Stores Q := by
  refine h.modify (FieldMap.keepsInstances_of_groups fun m => m.groups_setFieldView tag value false)
    (fun m p hp => ?_) ref
  rcases FieldMap.mem_setFieldView hp with rfl | hp
  · exact .inr hq
  · exact .inl hp

theorem stores_detectDup (h : st.msg.Stores Q) {tag : Int} {value : Bytes}
    (hq : Q (tag, .text value)) (ref : GroupRef) :
    (st.modify (fun m => (m.setFieldViewOrDetectDup tag value).2) ref).msg.Stores Q := by
  refine h.modify (FieldMap.keepsInstances_of_groups
    fun m => m.groups_setFieldViewOrDetectDup tag value) (fun m p hp => ?_) ref
  rcases FieldMap.mem_setFieldViewOrDetectDup hp with rfl | hp
  · exact .inr hq
  · exact .inl hp

theorem Offered.stores {group : ParserGroupInfo} {groupIdx : Nat} {parent : Option ParserGroupInfo}
    {r : Tried} (h : Offered settings dict st group groupIdx parent f r) (hst : st.msg.Stores Q)
    (hq : Q (f.tag, .text f.val)) : r.st.msg.Stores Q := by
  cases h with
  | refused _ _ => exact hst
  | added _ _ _ =>
      show (ParseState.noteBodyLength _ f).msg.Stores Q
      rw [msg_noteBodyLength]
      exact stores_detectDup hst hq group.group
  | opened _ _ _ _ _ =>
      refine @stores_setFieldView _ (ParseState.noteBodyLength _ f) ?_ _ _ hq group.group
      rw [msg_noteBodyLength]
      exact stores_addGroup hst f.tag group.group
  | next _ _ _ _ _ =>
      refine @stores_detectDup _ (ParseState.modify _ _ _) ?_ _ _ hq _
      exact stores_addGroup (stores_finish hst group) group.groupTag _

theorem Trailed.stores (h : Trailed settings dict f st st') (hst : st.msg.Stores Q)
    (hq : Q (f.tag, .text f.val)) : st'.msg.Stores Q := by
  cases h with
  | unknown _ =>
      refine @stores_setFieldView _ (ParseState.noteBodyLength _ f) ?_ _ _ hq _
      rw [msg_noteBodyLength]
      exact hst
  | trailer _ hoffer _ _ =>
      refine stores_foldl_finish _ ?_
      exact stores_finish (hoffer.stores hst hq) _

theorem stores_toBody (bodySpec : Option GroupSpec) (h : st.msg.Stores Q) :
    (st.toBody settings bodySpec).msg.Stores Q := stores_closeTo h 0

theorem Passed.stores (h : Passed settings dict f st st') (hst : st.msg.Stores Q)
    (hq : Q (f.tag, .text f.val)) : st'.msg.Stores Q := by
  cases h with
  | trailed _ htrailed => exact htrailed.stores hst hq
  | @taken bodySpec _ _ _ _ hoffer _ => exact hoffer.stores (stores_toBody bodySpec hst) hq
  | @passed bodySpec _ _ _ _ _ htrailed => exact htrailed.stores (stores_toBody bodySpec hst) hq

theorem Filed.stores (h : Filed settings dict f st st') (hst : st.msg.Stores Q)
    (hq : Q (f.tag, .text f.val)) : st'.msg.Stores Q := by
  cases h with
  | taken _ hoffer _ => exact stores_foldl_finish _ (hoffer.stores hst hq)
  | passed hpassed => exact hpassed.stores hst hq

end ParseState

end OpenFix
