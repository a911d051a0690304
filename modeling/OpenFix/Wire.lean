import OpenFix.Framing

/-!
# Messages in the stream

The framing gives back the texts of messages, however they are cut into pieces,
as long as each body is shorter than what the `int` of the body length holds.

A frame with an empty body length or an empty checksum is the one thing that
stops the framing for good.  From every other buffer some messages bring it back:
whatever the first of them are taken for, a later one is found where it begins.
-/

namespace OpenFix

/-! ## The text of a message -/

/-- The last byte, if there is one, is the separator. -/
def Terminated (soh : UInt8) (text : Bytes) : Prop := ∀ b ∈ text.getLast?, b = soh

theorem terminated_nil (soh : UInt8) : Terminated soh [] := by
  intro b hb
  cases hb

theorem Terminated.append {soh : UInt8} {a b : Bytes} (ha : Terminated soh a) (hb : Terminated soh b) :
    Terminated soh (a ++ b) := by
  intro x hx
  rw [List.getLast?_append] at hx
  cases hlast : b.getLast? with
  | none =>
      rw [hlast, Option.none_or] at hx
      exact ha x hx
  | some y =>
      rw [hlast, Option.some_or] at hx
      exact hb x (hlast ▸ hx)

theorem terminated_appendField (soh : UInt8) (tag : Int) (value : Bytes) :
    Terminated soh (appendField soh tag value) := by
  intro b hb
  rw [appendField, List.getLast?_append] at hb
  exact (Option.some.inj hb).symm

namespace FieldMap

/-- The fields of a map are followed by a separator each. -/
theorem terminated_fields {soh : UInt8} {instances : List (Int × Rendered)}
    (hinstances : ∀ tag r, AssocList.find? tag instances = some r → Terminated soh r.1) (m : FieldMap) :
    ∀ (fields : List (Int × View)) (out : Rendered), Terminated soh out.1 →
      Terminated soh (fields.foldl (fun out (tag, v) =>
        if true && isIgnoredTag tag then out
        else Rendered.append (Rendered.append out (appendField soh tag (m.read tag v), 1))
          ((AssocList.find? tag instances).getD ([], 0))) out).1
  | [], out, hout => hout
  | (tag, v) :: fields, out, hout => by
      rw [List.foldl_cons]
      refine terminated_fields hinstances m fields _ ?_
      dsimp only
      split
      · exact hout
      · refine (hout.append (terminated_appendField soh tag _)).append ?_
        cases hfind : AssocList.find? tag instances with
        | none => exact terminated_nil soh
        | some r => exact hinstances tag r hfind

mutual

theorem terminated_appendGroup (soh : UInt8) : ∀ m : FieldMap, Terminated soh (m.appendGroup true soh).1
  | ⟨fields, owned, capacity, groups, spec, seen⟩ => by
      have hinstances : ∀ tag r, AssocList.find? tag (appendGroups true soh groups) = some r →
          Terminated soh r.1 := fun tag r hfind =>
        terminated_appendGroups soh groups (tag, r) (AssocList.mem_of_find? hfind)
      rw [appendGroup]
      · exact terminated_fields hinstances _ fields _ (terminated_nil soh)
      · intro v h
        cases h

theorem terminated_appendGroups (soh : UInt8) : ∀ (groups : List (Int × List FieldMap)),
    ∀ e ∈ appendGroups true soh groups, Terminated soh e.2.1
  | [], e, he => by cases he
  | (tag, ms) :: rest, e, he => by
      rw [appendGroups] at he
      rcases List.mem_cons.mp he with rfl | he
      · exact terminated_appendInstances soh ms
      · exact terminated_appendGroups soh rest e he

theorem terminated_appendInstances (soh : UInt8) : ∀ ms : List FieldMap,
    Terminated soh (appendInstances true soh ms).1
  | [] => terminated_nil soh
  | m :: ms => by
      rw [appendInstances]
      exact (terminated_appendGroup soh m).append (terminated_appendInstances soh ms)

end

end FieldMap

namespace Message

/-- The text between the body length and the checksum. -/
def wireBody (msg : Message) : Bytes := (msg.serializeBody internalSohChar).1

/-- A heartbeat without a session. -/
def heartbeat : Message :=
  ⟨(FieldMap.new.setField Field.beginString (ascii "FIX.4.2") true).setField Field.msgType
    MsgType.heartbeat true, .new, .new⟩

theorem terminated_wireBody (msg : Message) : Terminated internalSohChar msg.wireBody :=
  ((FieldMap.terminated_appendGroup internalSohChar msg.header).append
    (FieldMap.terminated_appendGroup internalSohChar msg.body)).append
    (FieldMap.terminated_appendGroup internalSohChar msg.trailer)

/-- A message whose text can be framed. -/
structure Framable (msg : Message) : Prop where
  beginString : ∃ value, msg.header.field? Field.beginString = some value ∧ internalSohChar ∉ value
  length_lt : msg.wireBody.length < 2147483648

/-- A message that can be framed and says what it is. -/
structure WellFormed (msg : Message) : Prop extends Framable msg where
  msgType : msg.header.has Field.msgType = true

/-- The text of a message, from its parts. -/
theorem toString_eq {msg : Message} {value : Bytes}
    (h : msg.header.field? Field.beginString = some value) :
    ∃ sum, internalSohChar ∉ sum ∧ sum ≠ [] ∧
      msg.toString true = beginStringTag ++ value ++ (bodyLengthPattern ++
        (toChars (i32 msg.wireBody.length) ++ (internalSohChar :: msg.wireBody ++
          (appendTagEq Field.checkSum ++ (sum ++ [internalSohChar]))))) := by
  refine ⟨formatChecksum (msg.serializeChecksum internalSohChar),
    fun hmem => (formatChecksum_clean hmem).1 rfl, List.cons_ne_nil _ _, ?_⟩
  have h8 : appendTagEq Field.beginString = beginStringTag := rfl
  have h9 : internalSohChar :: appendTagEq Field.bodyLength = bodyLengthPattern := rfl
  simp only [toString, serialize, serializeFrame, serializeBeginString, h, appendField, if_true,
    ← h9, h8, wireBody, List.append_assoc, List.cons_append, List.nil_append]

end Message

/-! ## Framing a message -/

/-- A value behind the first separator. -/
theorem getTagValueView_of_split {pattern a value : Bytes} (rest : Bytes)
    (ha : internalSohChar ∉ a) (hvalue : internalSohChar ∉ value) :
    getTagValueView (a ++ (internalSohChar :: pattern ++ (value ++ internalSohChar :: rest)))
        (internalSohChar :: pattern) 0 =
      some (value, a.length + (pattern.length + 1) + value.length) := by
  have hbegin : find (a ++ (internalSohChar :: pattern ++ (value ++ internalSohChar :: rest)))
      (internalSohChar :: pattern) 0 = some a.length := by
    rw [find, List.drop_zero, Search.find_of_head ha, Option.map_some, Nat.zero_add]
  have hdrop : (a ++ (internalSohChar :: pattern ++ (value ++ internalSohChar :: rest))).drop
      (a.length + (pattern.length + 1)) = value ++ internalSohChar :: rest := by
    rw [← List.append_assoc]
    exact List.drop_left' (by simp)
  have hend : find (a ++ (internalSohChar :: pattern ++ (value ++ internalSohChar :: rest)))
      [internalSohChar] (a.length + (pattern.length + 1)) =
        some (a.length + (pattern.length + 1) + value.length) := by
    have hfind : Search.find [internalSohChar] (value ++ internalSohChar :: rest) =
        some value.length := Search.find_of_head hvalue
    rw [find, hdrop, hfind, Option.map_some]
  unfold getTagValueView
  rw [hbegin]
  dsimp only
  rw [List.length_cons, hend]
  dsimp only
  rw [hdrop, Nat.add_sub_cancel_left, List.take_left]

/-- A terminated text behind a separator ends with a separator. -/
theorem Terminated.exists_init {text : Bytes} (h : Terminated internalSohChar text) :
    ∃ init : Bytes, internalSohChar :: text = init ++ [internalSohChar] ∧
      init.length = text.length := by
  cases hlast : text.getLast? with
  | none =>
      obtain rfl := List.getLast?_eq_none_iff.mp hlast
      exact ⟨[], rfl, rfl⟩
  | some b =>
      obtain rfl := h b hlast
      obtain ⟨init, rfl⟩ := List.getLast?_eq_some_iff.mp hlast
      exact ⟨internalSohChar :: init, rfl, by simp⟩

theorem beginStringTag_clean : internalSohChar ∉ beginStringTag := by decide

/-- A text with its begin string and its body length. -/
theorem getTagValueView_bodyLength {value : Bytes} (hvalue : internalSohChar ∉ value) (len : Int)
    (rest : Bytes) :
    getTagValueView (beginStringTag ++ value ++ (bodyLengthPattern ++
        (toChars len ++ internalSohChar :: rest))) bodyLengthPattern 0 =
      some (toChars len, (beginStringTag ++ value).length + 3 + (toChars len).length) := by
  refine getTagValueView_of_split rest ?_ fun hmem => (toChars_clean hmem).1 rfl
  exact fun hmem => (List.mem_append.mp hmem).elim beginStringTag_clean hvalue

theorem find_beginStringTag (rest : Bytes) : find (beginStringTag ++ rest) beginStringTag 0 = some 0 := by
  rw [find, List.drop_zero, Search.find_eq_zero_iff.mpr (List.prefix_append _ _)]
  rfl

theorem bodyLengthOf_toChars {len : Int} (h₀ : -2147483648 ≤ len) (h₁ : len < 2147483648) :
    bodyLengthOf (toChars len) = if len < 0 then none else some len.toNat := by
  unfold bodyLengthOf
  rw [fromCharsInt_toChars h₀ h₁]

/-- The framing cuts out the text of a message. -/
theorem nextFrame_message {msg : Message} (h : msg.Framable) (c : Bytes) :
    framer.next (msg.toString true ++ c) = some ((msg.toString true).length, [msg.toString true]) := by
  refine framer.stable c ?_
  obtain ⟨value, hfield, hvalue⟩ := h.beginString
  obtain ⟨sum, hsum, hne, htext⟩ := Message.toString_eq hfield
  have hlen := h.length_lt
  have hi32 : i32 msg.wireBody.length = msg.wireBody.length :=
    i32_of_range (by omega) (by omega)
  rw [hi32] at htext
  obtain ⟨init, hinit, hinitlen⟩ := msg.terminated_wireBody.exists_init
  have hbegin : find (msg.toString true) beginStringTag 0 = some 0 := by
    rw [htext, List.append_assoc]
    exact find_beginStringTag _
  have hlength : getTagValueView (msg.toString true) bodyLengthPattern 0 =
      some (toChars msg.wireBody.length,
        (beginStringTag ++ value).length + 3 + (toChars msg.wireBody.length).length) := by
    rw [htext]
    exact getTagValueView_bodyLength hvalue _ _
  -- The body length leads to the separator before the checksum.
  have hsplit : msg.toString true = (beginStringTag ++ value ++ (bodyLengthPattern ++
      (toChars msg.wireBody.length ++ init))) ++ (checksumPattern ++ (sum ++ [internalSohChar])) := by
    have hpattern : checksumPattern = [internalSohChar] ++ appendTagEq Field.checkSum := rfl
    rw [htext, hinit, hpattern]
    simp only [List.append_assoc]
  have hptr : (beginStringTag ++ value ++ (bodyLengthPattern ++
      (toChars msg.wireBody.length ++ init))).length = (beginStringTag ++ value).length + 3 +
        (toChars msg.wireBody.length).length + msg.wireBody.length := by
    have hthree : bodyLengthPattern.length = 3 := rfl
    simp only [List.length_append, hthree, hinitlen]
    omega
  have hview : getTagValueView (checksumPattern ++ (sum ++ [internalSohChar])) checksumPattern 0 =
      some (sum, 4 + sum.length) := by
    refine (getTagValueView_of_split [] List.not_mem_nil hsum).trans ?_
    rfl
  generalize beginStringTag ++ value ++ (bodyLengthPattern ++
    (toChars msg.wireBody.length ++ init)) = front at hsplit hptr
  have hcheck := getTagValueView_drop (msg.toString true) checksumPattern front.length 0
  rw [hsplit, List.drop_left, hview, ← hsplit, hptr, Nat.add_zero, Option.map_some] at hcheck
  have hframe : frameAt (msg.toString true) 0 = .complete (msg.toString true).length := by
    refine frameAt_eq_complete_iff.mpr ⟨_, _, msg.wireBody.length, _, _, hlength, toChars_ne_nil _,
      ?_, hcheck, hne, ?_⟩
    · rw [bodyLengthOf_toChars (by omega) (by omega), if_neg (by omega), Int.toNat_natCast]
    · have hten : checksumPattern.length = 4 := rfl
      rw [← hptr, hsplit]
      simp only [List.length_append, hten, List.length_singleton]
      omega
  change nextFrame (msg.toString true) = _
  rw [nextFrame_of_frame hbegin, hframe]
  dsimp only
  rw [List.take_length]

/-- The framing cuts out the texts of messages one after the other. -/
theorem run_messages : ∀ {msgs : List Message}, (∀ msg ∈ msgs, msg.Framable) →
    framer.run (msgs.flatMap fun msg => msg.toString true) =
      (msgs.map fun msg => msg.toString true, [])
  | [], _ => Framer.run_of_none Framer.next_nil
  | msg :: msgs, h => by
      have hrest := run_messages fun msg hmsg => h msg (List.mem_cons_of_mem _ hmsg)
      rw [List.flatMap_cons, Framer.run_of_some (nextFrame_message (h msg (List.mem_cons_self ..)) _),
        List.drop_left, hrest]
      rfl

/-- However the texts of messages are cut into pieces and calls, they are what `read`
returns, and the buffer ends empty. -/
theorem readCalls_messages {m : ReadBuffer} {fd : Nat} (hnew : m.buffer fd = []) {msgs : List Message}
    (h : ∀ msg ∈ msgs, msg.Framable) {calls : List (List Chunk)}
    (hcalls : received calls = msgs.flatMap fun msg => msg.toString true) :
    (m.readCalls fd calls).1 = (msgs.map fun msg => msg.toString true) ∧
      (m.readCalls fd calls).2.buffer fd = [] := by
  have hrun := run_messages h
  have heq := m.readCalls_eq_run fd calls
  rw [hnew, List.nil_append, hcalls, hrun] at heq
  split at heq
  next hnil =>
    have hmsgs : framer.run [] = (msgs.map fun msg => msg.toString true, []) := by rw [← hrun, hnil]
    rw [Framer.run_of_none Framer.next_nil] at hmsgs
    obtain ⟨hempty, -⟩ := Prod.ext_iff.mp hmsgs
    obtain ⟨hout, hbuffer⟩ := Prod.ext_iff.mp heq
    exact ⟨hout.trans hempty, hbuffer⟩
  next => exact Prod.ext_iff.mp heq

theorem framable_heartbeat : Message.heartbeat.Framable :=
  ⟨⟨ascii "FIX.4.2", by decide, by decide⟩, by decide⟩

/-- A heartbeat that answers a test request. -/
def answer : Message :=
  { Message.heartbeat with body := FieldMap.new.setField Field.testReqID (ascii "7") true }

theorem framable_answer : answer.Framable :=
  ⟨⟨ascii "FIX.4.2", by decide, by decide⟩, by decide⟩

/-- The texts of the two, cut in each. -/
def cutMessages : List (List Chunk) :=
  let text := [Message.heartbeat, answer].flatMap fun msg => msg.toString true
  [[⟨text.take 10, by decide, by decide⟩],
    [⟨(text.drop 10).take 30, by decide, by decide⟩, ⟨text.drop 40, by decide, by decide⟩]]

theorem readCalls_messages_test :
    (ReadBuffer.new.readCalls 5 cutMessages).1 =
        ([Message.heartbeat, answer].map fun msg => msg.toString true) ∧
      (ReadBuffer.new.readCalls 5 cutMessages).2.buffer 5 = [] := by
  refine readCalls_messages rfl (fun msg hmsg => ?_) (by decide)
  simp only [List.mem_cons, List.not_mem_nil, or_false] at hmsg
  rcases hmsg with rfl | rfl
  · exact framable_heartbeat
  · exact framable_answer

/-! ## Bodies that are too long -/

/-- What the framing finds is part of the buffer. -/
theorem length_run (b : Bytes) : (framer.run b).1.flatten.length + (framer.run b).2.length ≤ b.length := by
  induction b using framer.run_induction with
  | wait b h =>
      rw [Framer.run_of_none h]
      exact le_of_eq (Nat.zero_add _)
  | consume b n out h ih =>
      have hbounds := nextFrame_bounds h
      have hout : out.flatten.length ≤ n := by
        rcases nextFrame_eq_some h with ⟨-, -, rfl⟩ | ⟨-, -, rfl⟩ | ⟨-, -, rfl⟩
        · exact Nat.zero_le n
        · exact Nat.zero_le n
        · simp
      rw [List.length_drop] at ih
      rw [Framer.run_of_some h]
      dsimp only
      rw [List.flatten_append, List.length_append]
      omega

/-- Bytes can be received. -/
theorem exists_received : ∀ b : Bytes, ∃ calls, received calls = b
  | [] => ⟨[], rfl⟩
  | b :: rest => by
      obtain ⟨calls, hcalls⟩ := exists_received rest
      refine ⟨[⟨[b], List.cons_ne_nil _ _, by simp⟩] :: calls, ?_⟩
      rw [← hcalls]
      rfl

/-- A body that the `int` of the body length does not hold is skipped. -/
theorem nextFrame_long {msg : Message} {value : Bytes}
    (hfield : msg.header.field? Field.beginString = some value) (hvalue : internalSohChar ∉ value)
    (hlong : 2147483648 ≤ msg.wireBody.length) (hlt : msg.wireBody.length < 4294967296) :
    ∃ n, framer.next (msg.toString true) = some (n, []) := by
  obtain ⟨sum, -, -, htext⟩ := Message.toString_eq hfield
  have hneg : i32 msg.wireBody.length < 0 := by
    unfold i32
    omega
  have hrange := i32_range msg.wireBody.length
  have hbegin : find (msg.toString true) beginStringTag 0 = some 0 := by
    rw [htext, List.append_assoc]
    exact find_beginStringTag _
  have hlength := getTagValueView_bodyLength hvalue (i32 msg.wireBody.length)
    (msg.wireBody ++ (appendTagEq Field.checkSum ++ (sum ++ [internalSohChar])))
  have hframe := frameAt_eq_bad_iff.mpr ⟨_, _, htext ▸ hlength, toChars_ne_nil _,
    (bodyLengthOf_toChars hrange.1 hrange.2).trans (if_pos hneg), rfl⟩
  have hnext := nextFrame_of_frame hbegin
  rw [hframe] at hnext
  exact ⟨_, hnext⟩

/-- A message with one field of its body. -/
def Message.ofText (text : Bytes) : Message :=
  ⟨FieldMap.new.setField Field.beginString (ascii "FIX.4.2") true,
    FieldMap.new.setFieldView Field.text text true, .new⟩

theorem wireBody_ofText (text : Bytes) :
    (Message.ofText text).wireBody = ascii "58=" ++ text ++ [internalSohChar] := by
  have h58 : appendTagEq Field.text = ascii "58=" := by decide
  simp [Message.wireBody, Message.ofText, Message.serializeBody, FieldMap.appendGroup,
    FieldMap.appendGroups, FieldMap.setFieldView, FieldMap.insertFieldView, FieldMap.new,
    FieldMap.setField, isIgnoredTag, Rendered.append, appendField, h58, FieldMap.read, AssocList.set]

/-- The text of a message with a body of 2147483652 bytes is not found. -/
theorem not_readCalls_messages : ¬∀ (msgs : List Message) (calls : List (List Chunk)),
    (∀ msg ∈ msgs, ∃ value, msg.header.field? Field.beginString = some value ∧
      internalSohChar ∉ value) →
    received calls = (msgs.flatMap fun msg => msg.toString true) →
    (ReadBuffer.new.readCalls 5 calls).1 = (msgs.map fun msg => msg.toString true) ∧
      (ReadBuffer.new.readCalls 5 calls).2.buffer 5 = [] := by
  intro h
  obtain ⟨text, htext⟩ : ∃ text : Bytes, text.length = 2147483648 :=
    ⟨List.replicate 2147483648 97, List.length_replicate⟩
  have hfield : (Message.ofText text).header.field? Field.beginString = some (ascii "FIX.4.2") := rfl
  have hlength : (Message.ofText text).wireBody.length = 2147483652 := by
    rw [wireBody_ofText, List.length_append, List.length_append, htext]
    rfl
  obtain ⟨n, hnext⟩ := nextFrame_long hfield (by decide) (by omega) (by omega)
  obtain ⟨calls, hcalls⟩ := exists_received ((Message.ofText text).toString true)
  have hbegin : ∀ msg ∈ [Message.ofText text], ∃ value,
      msg.header.field? Field.beginString = some value ∧ internalSohChar ∉ value := by
    intro msg hmsg
    obtain rfl := List.mem_singleton.mp hmsg
    exact ⟨ascii "FIX.4.2", hfield, by decide⟩
  have hstream : received calls = [Message.ofText text].flatMap fun msg => msg.toString true := by
    rw [hcalls, List.flatMap_singleton]
  obtain ⟨hmsgs, -⟩ := h [.ofText text] calls hbegin hstream
  have hpos := framer.pos hnext
  have hle := framer.le hnext
  have heq := ReadBuffer.new.readCalls_eq_run 5 calls
  have hne : received calls ≠ [] := by
    rw [hcalls]
    exact List.ne_nil_of_length_pos (by omega)
  rw [if_neg hne, hcalls] at heq
  obtain ⟨hout, -⟩ := Prod.ext_iff.mp heq
  have hrun := length_run (((Message.ofText text).toString true).drop n)
  have hfound : (framer.run (((Message.ofText text).toString true).drop n)).1 =
      [(Message.ofText text).toString true] := by
    have hsome := Framer.run_of_some hnext
    have hnew : ReadBuffer.new.buffer 5 = [] := rfl
    rw [hnew, List.nil_append, hsome] at hout
    exact hout.symm.trans hmsgs
  rw [hfound, List.flatten_cons, List.flatten_nil, List.append_nil, List.length_drop] at hrun
  omega

/-! ## Buffers that are stuck -/

/-- The buffer begins with a frame whose body length or checksum is there and empty. -/
structure Wedged (buffer : Bytes) : Prop where
  begins : find buffer beginStringTag 0 = some 0
  empty : (∃ ptr, getTagValueView buffer bodyLengthPattern 0 = some ([], ptr)) ∨
    ∃ value ptr bodyLength end_it,
      getTagValueView buffer bodyLengthPattern 0 = some (value, ptr) ∧ value ≠ [] ∧
      bodyLengthOf value = some bodyLength ∧
      getTagValueView buffer checksumPattern (ptr + bodyLength) = some ([], end_it)

theorem frameAt_incomplete_of_wedged {buffer : Bytes} (h : Wedged buffer) :
    frameAt buffer 0 = .incomplete := by
  rw [frameAt_eq]
  rcases h.empty with ⟨ptr, hlength⟩ | ⟨value, ptr, bodyLength, end_it, hlength, hvalue, hnum, hsum⟩
  · rw [hlength]
    rfl
  · rw [hlength]
    simp only [if_neg hvalue, hnum, hsum, if_true]

/-- Whatever comes, the buffer stays stuck. -/
theorem Wedged.append {buffer : Bytes} (h : Wedged buffer) (c : Bytes) : Wedged (buffer ++ c) where
  begins := find_append beginStringTag_ne_nil h.begins c
  empty := by
    rcases h.empty with ⟨ptr, hlength⟩ | ⟨value, ptr, bodyLength, end_it, hlength, hvalue, hnum, hsum⟩
    · exact .inl ⟨ptr, getTagValueView_append bodyLengthPattern_ne_nil hlength c⟩
    · exact .inr ⟨value, ptr, bodyLength, end_it,
        getTagValueView_append bodyLengthPattern_ne_nil hlength c, hvalue, hnum,
        getTagValueView_append checksumPattern_ne_nil hsum c⟩

theorem Wedged.next_eq_none {buffer : Bytes} (h : Wedged buffer) : framer.next buffer = none := by
  have hnext := nextFrame_of_frame h.begins
  rw [frameAt_incomplete_of_wedged h] at hnext
  exact hnext

/-- Nothing is ever found in a buffer that is stuck. -/
theorem Wedged.readCalls {m : ReadBuffer} {fd : Nat} (h : Wedged (m.buffer fd))
    (calls : List (List Chunk)) : (m.readCalls fd calls).1 = [] := by
  have heq := m.readCalls_eq_run fd calls
  rw [Framer.run_of_none (h.append (received calls)).next_eq_none] at heq
  obtain ⟨hmsgs, -⟩ := Prod.ext_iff.mp heq
  refine hmsgs.trans ?_
  split
  · rfl
  · rfl

/-! ## Buffers that are not -/

/-- The text of a heartbeat, some times over. -/
def heartbeats (k : Nat) : Bytes := (List.replicate k (Message.heartbeat.toString true)).flatten

theorem heartbeat_text :
    Message.heartbeat.toString true = (ascii "8=FIX.4.2|9=5|35=0|10=161|").map fun b =>
      if b = externalSohChar then internalSohChar else b := by
  decide

theorem length_heartbeat : (Message.heartbeat.toString true).length = 26 := by
  rw [heartbeat_text]
  rfl

theorem heartbeats_succ (k : Nat) :
    heartbeats (k + 1) = Message.heartbeat.toString true ++ heartbeats k := rfl

theorem heartbeats_add (j k : Nat) : heartbeats (j + k) = heartbeats j ++ heartbeats k := by
  rw [heartbeats, List.replicate_add, List.flatten_append]
  rfl

theorem length_heartbeats (k : Nat) : (heartbeats k).length = 26 * k := by
  induction k with
  | zero => rfl
  | succ k ih =>
      rw [heartbeats_succ, List.length_append, length_heartbeat, ih]
      omega

/-- Among heartbeats no value is empty. -/
theorem heartbeats_no_empty : ∀ (k i : Nat), (heartbeats k)[i]? = some tagAssignmentChar →
    (heartbeats k)[i + 1]? ≠ some internalSohChar
  | 0, i, h => by cases h
  | k + 1, i, h => by
      rw [heartbeats_succ] at h ⊢
      have hlen := length_heartbeat
      by_cases hi : i + 1 < 26
      · rw [List.getElem?_append_left (by omega)] at h ⊢
        have hall : ∀ i < 25, (Message.heartbeat.toString true)[i]? = some tagAssignmentChar →
            (Message.heartbeat.toString true)[i + 1]? ≠ some internalSohChar := by
          rw [heartbeat_text]
          decide
        exact hall i (by omega) h
      · by_cases hlast : i = 25
        · subst hlast
          rw [List.getElem?_append_left (by omega), heartbeat_text] at h
          exact absurd h (by decide)
        · rw [List.getElem?_append_right (by omega), hlen] at h ⊢
          have hstep : i + 1 - 26 = i - 26 + 1 := by omega
          rw [hstep]
          exact heartbeats_no_empty k (i - 26) h

/-- Heartbeats do not begin with a separator. -/
theorem heartbeats_head (k : Nat) : (heartbeats k)[0]? ≠ some internalSohChar := by
  cases k with
  | zero => simp [heartbeats]
  | succ k =>
      rw [heartbeats_succ, List.getElem?_append_left (by rw [length_heartbeat]; omega), heartbeat_text]
      decide

/-- The first occurrence is no later than a known one. -/
theorem exists_find {text pattern : Bytes} {pos i : Nat} (hp : pattern <+: text.drop i) (hpos : pos ≤ i)
    (hlen : i ≤ text.length) : ∃ j ≤ i, find text pattern pos = some j := by
  have hdrop : pattern <+: (text.drop pos).drop (i - pos) := by
    rw [List.drop_drop]
    exact (Nat.add_sub_cancel' hpos).symm ▸ hp
  obtain ⟨j, hj, hfind⟩ := Search.exists_find hdrop (by rw [List.length_drop]; omega)
  refine ⟨pos + j, by omega, ?_⟩
  rw [find, hfind]
  rfl

/-- The bytes of an occurrence. -/
theorem getElem?_of_isPrefix {text pattern : Bytes} {i j : Nat} (hp : pattern <+: text.drop i)
    (hj : j < pattern.length) : text[i + j]? = pattern[j]? := by
  obtain ⟨rest, hrest⟩ := hp
  rw [← List.getElem?_drop, ← hrest, List.getElem?_append_left hj]

theorem isPrefix_of_find {text pattern : Bytes} {pos i : Nat} (h : find text pattern pos = some i) :
    pattern <+: text.drop i := by
  obtain ⟨k, hk, rfl⟩ := Option.map_eq_some_iff.mp h
  have hp := Search.isPrefix_of_find hk
  rwa [List.drop_drop] at hp

/-- Where a pattern and a separator behind it are in a heartbeat. -/
structure FramePattern (pattern : Bytes) (offset : Nat) : Prop where
  occurs : pattern <+: (Message.heartbeat.toString true).drop offset
  before : offset + pattern.length ≤ 25
  ends : pattern[pattern.length - 1]? = some tagAssignmentChar

theorem framePattern_bodyLength : FramePattern bodyLengthPattern 9 where
  occurs := by
    rw [heartbeat_text]
    decide
  before := by decide
  ends := by decide

theorem framePattern_checksum : FramePattern checksumPattern 18 where
  occurs := by
    rw [heartbeat_text]
    decide
  before := by decide
  ends := by decide

/-- Behind enough heartbeats a field is found.  If its value is empty, it was there before. -/
theorem exists_getTagValueView {pattern : Bytes} {offset : Nat} (h : FramePattern pattern offset)
    (r : Bytes) (p : Nat) :
    ∃ k value end_it, getTagValueView (r ++ heartbeats k) pattern p = some (value, end_it) ∧
      (value = [] → end_it < r.length) := by
  generalize htext : r ++ heartbeats (p + 1) = text
  have hbefore := h.before
  have hpos : 0 < pattern.length := by
    cases hpattern : pattern with
    | nil =>
        have hends := h.ends
        rw [hpattern] at hends
        cases hends
    | cons b rest => exact Nat.succ_pos _
  have hlen : text.length = r.length + 26 * p + 26 := by
    rw [← htext, List.length_append, length_heartbeats]
    omega
  -- The last heartbeat begins behind the offset.
  have hlast : ∀ j, text.drop (r.length + 26 * p + j) = (Message.heartbeat.toString true).drop j := by
    intro j
    have hone : heartbeats 1 = Message.heartbeat.toString true := List.append_nil _
    rw [← List.drop_drop, ← htext, heartbeats_add, ← List.append_assoc, hone]
    exact congrArg (List.drop j) (List.drop_left' (by rw [List.length_append, length_heartbeats]))
  obtain ⟨i, hi, hbegin⟩ := exists_find (hlast offset ▸ h.occurs) (by omega : p ≤ _) (by omega)
  have hsep : [internalSohChar] <+: text.drop (r.length + 26 * p + 25) := by
    rw [hlast, heartbeat_text]
    decide
  obtain ⟨end_it, hle, hend⟩ := exists_find hsep (by omega : i + pattern.length ≤ _) (by omega)
  refine ⟨p + 1, (text.drop (i + pattern.length)).take (end_it - (i + pattern.length)), end_it, ?_,
    fun hvalue => ?_⟩
  · rw [htext, getTagValueView, hbegin]
    dsimp only
    rw [hend]
  · have hbounds := find_bounds (by simp) hend
    rw [List.length_singleton] at hbounds
    have hzero := congrArg List.length hvalue
    rw [List.length_take, List.length_drop, List.length_nil] at hzero
    obtain rfl : end_it = i + pattern.length := by omega
    have hsoh : text[i + pattern.length]? = some internalSohChar :=
      getElem?_of_isPrefix (isPrefix_of_find hend) (Nat.succ_pos 0)
    have heq : text[i + (pattern.length - 1)]? = some tagAssignmentChar :=
      (getElem?_of_isPrefix (isPrefix_of_find hbegin) (by omega)).trans h.ends
    by_contra hge
    rw [← htext, List.getElem?_append_right (by omega)] at hsoh
    by_cases hat : i + pattern.length = r.length
    · rw [hat, Nat.sub_self] at hsoh
      exact heartbeats_head _ hsoh
    · rw [← htext, List.getElem?_append_right (by omega)] at heq
      have hstep : i + pattern.length - r.length = i + (pattern.length - 1) - r.length + 1 := by omega
      rw [hstep] at hsoh
      exact heartbeats_no_empty _ _ heq hsoh

/-- Heartbeats behind a buffer without `8=` begin where it ends. -/
theorem find_heartbeats {r : Bytes} (h : find r beginStringTag 0 = none) :
    find (r ++ heartbeats 1) beginStringTag 0 = some r.length := by
  have hone : heartbeats 1 = Message.heartbeat.toString true := List.append_nil _
  have hoccurs : beginStringTag <+: (r ++ heartbeats 1).drop r.length := by
    rw [List.drop_left, hone, heartbeat_text]
    decide
  obtain ⟨i, hi, hfind⟩ := exists_find hoccurs (Nat.zero_le _) (by simp)
  have htwo : beginStringTag.length = 2 := rfl
  have hafter : r.length < i + 2 := by
    by_contra hle
    have hbefore := find_of_append beginStringTag_ne_nil hfind (by omega)
    rw [h] at hbefore
    cases hbefore
  have hsplit : i + 1 ≠ r.length := by
    intro hat
    have hequals : (r ++ heartbeats 1)[i + 1]? = some tagAssignmentChar :=
      getElem?_of_isPrefix (isPrefix_of_find hfind) (Nat.lt_succ_self 1)
    rw [hat, List.getElem?_append_right (Nat.le_refl _), hone, heartbeat_text] at hequals
    revert hequals
    rw [Nat.sub_self]
    decide
  obtain rfl : i = r.length := by omega
  exact hfind

/-- A buffer that waits and is not stuck goes on, past its end, when heartbeats come. -/
theorem exists_next {r : Bytes} (hwait : framer.next r = none) (hfree : ¬Wedged r) :
    ∃ k n out, framer.next (r ++ heartbeats k) = some (n, out) ∧ r.length ≤ n := by
  cases hfind : find r beginStringTag 0 with
  | none =>
      have hstart := find_heartbeats hfind
      cases r with
      | nil =>
          have hnext := nextFrame_message framable_heartbeat []
          exact ⟨1, _, _, hnext, Nat.zero_le _⟩
      | cons b r => exact ⟨1, _, _, nextFrame_of_discard hstart (Nat.succ_pos _), Nat.le_refl _⟩
  | some start =>
      have hzero : start = 0 := by
        by_contra hne
        have hnext := nextFrame_of_discard hfind (Nat.pos_of_ne_zero hne)
        have hnone : nextFrame r = none := hwait
        rw [hnone] at hnext
        cases hnext
      subst hzero
      -- What ends in the buffer would have been decided before.
      have hpast : ∀ {k n : Nat}, (frameAt (r ++ heartbeats k) 0).EndsAt n → r.length ≤ n := by
        intro k n hends
        by_contra hlt
        have hsame := frameAt_of_append hends (by omega)
        have hnext := nextFrame_of_frame hfind
        have hnone : nextFrame r = none := hwait
        rw [hnone, hsame] at hnext
        cases hframe : frameAt (r ++ heartbeats k) 0 with
        | incomplete =>
            rw [hframe] at hends
            exact hends
        | bad next =>
            rw [hframe] at hnext
            cases hnext
        | complete msgEnd =>
            rw [hframe] at hnext
            cases hnext
      have hbegin : ∀ k, find (r ++ heartbeats k) beginStringTag 0 = some 0 := fun k =>
        find_append beginStringTag_ne_nil hfind _
      obtain ⟨k, value, ptr, hlength, hempty⟩ := exists_getTagValueView framePattern_bodyLength r 0
      have hvalue : value ≠ [] := by
        intro hnil
        have hlt := hempty hnil
        subst hnil
        exact hfree ⟨hfind, .inl ⟨ptr,
          getTagValueView_of_append bodyLengthPattern_ne_nil hlength hlt⟩⟩
      cases hnum : bodyLengthOf value with
      | none =>
          have hframe : frameAt (r ++ heartbeats k) 0 = .bad (ptr + 1) :=
            frameAt_eq_bad_iff.mpr ⟨value, ptr, hlength, hvalue, hnum, rfl⟩
          have hnext := nextFrame_of_frame (hbegin k)
          rw [hframe] at hnext
          refine ⟨k, ptr + 1, [], hnext, hpast (k := k) ?_⟩
          rw [hframe]
          exact rfl
      | some bodyLength =>
          obtain ⟨j, sum, end_it, hsum, hsumempty⟩ :=
            exists_getTagValueView framePattern_checksum r (ptr + bodyLength)
          have hlength' := getTagValueView_append bodyLengthPattern_ne_nil hlength (heartbeats j)
          rw [List.append_assoc, ← heartbeats_add] at hlength'
          have hsum' := getTagValueView_append checksumPattern_ne_nil hsum (heartbeats k)
          rw [List.append_assoc, ← heartbeats_add, Nat.add_comm j k] at hsum'
          have hne : sum ≠ [] := by
            intro hnil
            have hlt := hsumempty hnil
            subst hnil
            have hbounds := getTagValueView_bounds checksumPattern_ne_nil hsum
            exact hfree ⟨hfind, .inr ⟨value, ptr, bodyLength, end_it,
              getTagValueView_of_append bodyLengthPattern_ne_nil hlength (by omega), hvalue, hnum,
              getTagValueView_of_append checksumPattern_ne_nil hsum hlt⟩⟩
          have hframe : frameAt (r ++ heartbeats (k + j)) 0 = .complete (end_it + 1) :=
            frameAt_eq_complete_iff.mpr
              ⟨value, ptr, bodyLength, sum, end_it, hlength', hvalue, hnum, hsum', hne, rfl⟩
          have hnext := nextFrame_of_frame (hbegin (k + j))
          rw [hframe] at hnext
          refine ⟨k + j, end_it + 1, _, hnext, hpast (k := k + j) ?_⟩
          rw [hframe]
          exact rfl

/-- Behind the rest of a heartbeat the next one is found. -/
theorem mem_run_rest {x : Nat} (hx : x ≤ 26) (k : Nat) :
    Message.heartbeat.toString true ∈
      (framer.run ((Message.heartbeat.toString true).drop x ++ heartbeats (k + 1))).1 := by
  have hwhole : ∀ c, Message.heartbeat.toString true ∈
      (framer.run (Message.heartbeat.toString true ++ c)).1 := by
    intro c
    rw [Framer.run_of_some (nextFrame_message framable_heartbeat c)]
    exact List.mem_append_left _ (List.mem_singleton.mpr rfl)
  cases x with
  | zero => exact hwhole _
  | succ x =>
      have hall : ∀ x < 26, find ((Message.heartbeat.toString true).drop (x + 1) ++
          Message.heartbeat.toString true) beginStringTag 0 =
            some ((Message.heartbeat.toString true).drop (x + 1)).length := by
        rw [heartbeat_text]
        decide
      have hfind := find_append beginStringTag_ne_nil (hall x (by omega)) (heartbeats k)
      rw [List.append_assoc, ← heartbeats_succ] at hfind
      rw [run_discard hfind, List.drop_left]
      exact hwhole _

/-- Heartbeats bring a buffer back that is not stuck. -/
theorem exists_mem_run {r : Bytes} (hwait : framer.next r = none) (hfree : ¬Wedged r) :
    ∃ k, Message.heartbeat.toString true ∈ (framer.run (r ++ heartbeats (k + 1))).1 := by
  obtain ⟨k, n, out, hnext, hpast⟩ := exists_next hwait hfree
  have hle := framer.le hnext
  rw [List.length_append, length_heartbeats] at hle
  have hmore := framer.stable (heartbeats 2) hnext
  rw [List.append_assoc, ← heartbeats_add] at hmore
  refine ⟨k + 1, ?_⟩
  rw [Framer.run_of_some hmore]
  refine List.mem_append_right _ ?_
  -- What was consumed ends in a heartbeat, and one at least comes behind that.
  obtain ⟨q, x, hx, rfl⟩ : ∃ q x, x < 26 ∧ n = r.length + (26 * q + x) :=
    ⟨(n - r.length) / 26, (n - r.length) % 26, Nat.mod_lt _ (by omega), by omega⟩
  have hrest : (r ++ heartbeats (k + 2)).drop (r.length + (26 * q + x)) =
      (Message.heartbeat.toString true).drop x ++ heartbeats (k - q + 1) := by
    have hone : heartbeats 1 = Message.heartbeat.toString true := List.append_nil _
    have hsplit : k + 2 = q + (1 + (k - q + 1)) := by omega
    rw [hsplit, heartbeats_add, heartbeats_add, hone, ← List.drop_drop, List.drop_left,
      ← List.drop_drop, List.drop_left' (length_heartbeats q),
      List.drop_append_of_le_length (by rw [length_heartbeat]; omega)]
  rw [hrest]
  exact mem_run_rest (by omega) _

/-- Some messages bring the buffer of a connection back if and only if it is not stuck:
it does not begin with a frame whose body length or checksum is there and empty. -/
theorem readCalls_recovers_iff (fd : Nat) (calls : List (List Chunk)) :
    (∃ msgs : List Message, (∀ msg ∈ msgs, msg.WellFormed) ∧
      ∀ calls', received calls' = (msgs.flatMap fun msg => msg.toString true) →
        ∃ msg ∈ msgs, msg.toString true ∈
          ((ReadBuffer.new.readCalls fd calls).2.readCalls fd calls').1) ↔
      ¬Wedged ((ReadBuffer.new.readCalls fd calls).2.buffer fd) := by
  have hwait : framer.next ((ReadBuffer.new.readCalls fd calls).2.buffer fd) = none := by
    have heq := ReadBuffer.new.readCalls_eq fd calls
    have hnew : ReadBuffer.new.buffer fd = [] := rfl
    rw [hnew, Framer.feed_eq_run Framer.next_nil] at heq
    have hbuffer : (ReadBuffer.new.readCalls fd calls).2.buffer fd = _ := congrArg Prod.snd heq
    rw [hbuffer]
    exact framer.next_run _
  constructor
  · rintro ⟨msgs, -, hfound⟩ hwedged
    obtain ⟨calls', hcalls⟩ := exists_received (msgs.flatMap fun msg => msg.toString true)
    obtain ⟨msg, -, hmem⟩ := hfound calls' hcalls
    rw [hwedged.readCalls] at hmem
    cases hmem
  · intro hfree
    obtain ⟨k, hmem⟩ := exists_mem_run hwait hfree
    refine ⟨List.replicate (k + 1) Message.heartbeat, fun msg hmsg => ?_, fun calls' hcalls => ?_⟩
    · exact List.eq_of_mem_replicate hmsg ▸ ⟨framable_heartbeat, by decide⟩
    · have hstream : received calls' = heartbeats (k + 1) := by
        rw [hcalls, List.flatMap, List.map_replicate]
        rfl
      have hne : received calls' ≠ [] := by
        rw [hstream]
        exact List.ne_nil_of_length_pos (by rw [length_heartbeats]; omega)
      have heq := (ReadBuffer.new.readCalls fd calls).2.readCalls_eq_run fd calls'
      rw [if_neg hne, hstream] at heq
      have hmsgs : ((ReadBuffer.new.readCalls fd calls).2.readCalls fd calls').1 = _ :=
        (Prod.ext_iff.mp heq).1
      refine ⟨.heartbeat, List.mem_replicate.mpr ⟨Nat.succ_ne_zero k, rfl⟩, ?_⟩
      rw [hmsgs]
      exact hmem

/-- After a frame with an empty body length no message is ever found. -/
theorem not_readCalls_recovers : ¬∀ (fd : Nat) (calls : List (List Chunk)),
    ∃ msgs : List Message, (∀ msg ∈ msgs, msg.WellFormed) ∧
      ∀ calls', received calls' = (msgs.flatMap fun msg => msg.toString true) →
        ∃ msg ∈ msgs, msg.toString true ∈
          ((ReadBuffer.new.readCalls fd calls).2.readCalls fd calls').1 := by
  intro h
  -- The connection sends `8=`, a separator, `9=` and a separator.
  obtain ⟨msgs, -, hfound⟩ := h 5 [[⟨[56, 61, 1, 57, 61, 1], by decide, by decide⟩]]
  have hwedged : Wedged ((ReadBuffer.new.readCalls 5
      [[⟨[56, 61, 1, 57, 61, 1], by decide, by decide⟩]]).2.buffer 5) :=
    ⟨by decide, .inl ⟨5, by decide⟩⟩
  obtain ⟨calls', hcalls⟩ := exists_received (msgs.flatMap fun msg => msg.toString true)
  obtain ⟨msg, -, hmem⟩ := hfound calls' hcalls
  rw [hwedged.readCalls] at hmem
  cases hmem

end OpenFix
