import OpenFix.Lib.Search
import OpenFix.Lib.SortedMap
import OpenFix.Lib.Stream
import OpenFix.Message

/-!
# The framing of the input

`ReadBuffer::read` appends what `recv` gives to the buffer of the connection and
cuts messages out of it.  A message begins at `8=`, its `9=` says how far the
`10=` is at least, and it ends behind the value of that.  What precedes the `8=`
is discarded, and so is a frame whose body length is no number.

The loop works with offsets into the buffer and erases what it consumed at the
end.  `framer` is the same decision for a buffer that begins where the loop has
arrived, and `extract_eq` says that the loop runs it.
-/

namespace OpenFix

/-! ## Searching -/

/-- `std::string::find`, for a pattern that is not empty. -/
def find (text pattern : Bytes) (pos : Nat) : Option Nat :=
  (Search.find pattern (text.drop pos)).map (pos + ·)

def buildTagPattern (tag : Int) : Bytes := internalSohChar :: (toChars tag ++ [tagAssignmentChar])

def beginStringTag : Bytes := toChars Field.beginString ++ [tagAssignmentChar]

def bodyLengthPattern : Bytes := buildTagPattern Field.bodyLength

def checksumPattern : Bytes := buildTagPattern Field.checkSum

/-- The value behind the first occurrence of a pattern, and where its separator is. -/
def getTagValueView (msg pattern : Bytes) (idx : Nat) : Option (Bytes × Nat) :=
  match find msg pattern idx with
  | none => none
  | some begin_it =>
      match find msg [internalSohChar] (begin_it + pattern.length) with
      | none => none
      | some end_it =>
          some ((msg.drop (begin_it + pattern.length)).take (end_it - (begin_it + pattern.length)),
            end_it)

/-! ## The loop -/

/-- What a round makes of the frame that begins at an offset. -/
inductive Frame where
  /-- A field of the frame is not there or has an empty value. -/
  | incomplete
  /-- The body length is no number, and the frame is skipped up to here. -/
  | bad (next : Nat)
  /-- The message ends here. -/
  | complete (msgEnd : Nat)

/-- The frame that begins at an offset. -/
def frameAt (buffer : Bytes) (start : Nat) : Frame :=
  match getTagValueView buffer bodyLengthPattern start with
  | none | some ([], _) => .incomplete
  | some (value, ptr) =>
      match fromCharsInt value with
      | none => .bad (ptr + 1)
      | some bodyLength =>
          if bodyLength < 0 then .bad (ptr + 1)
          else
            match getTagValueView buffer checksumPattern (ptr + bodyLength.toNat) with
            | none | some ([], _) => .incomplete
            | some (_, ptr) => .complete (ptr + 1)

/-- The loop over the messages in a buffer.  Each round but the last moves the offset on. -/
def extractLoop : Nat → Bytes → Nat → List Bytes → Bytes × List Bytes
  | 0, buffer, consumed, result => (buffer.drop consumed, result)
  | fuel + 1, buffer, consumed, result =>
      match find buffer beginStringTag consumed with
      | none => (buffer.drop consumed, result)
      | some start =>
          match frameAt buffer start with
          | .incomplete => (buffer.drop start, result)
          | .bad next => extractLoop fuel buffer next result
          | .complete msgEnd =>
              -- The whole buffer is moved out.
              if start = 0 ∧ msgEnd = buffer.length then ([], result ++ [buffer])
              else extractLoop fuel buffer msgEnd
                (result ++ [(buffer.drop start).take (msgEnd - start)])

def extract (buffer : Bytes) (result : List Bytes) : Bytes × List Bytes :=
  extractLoop (buffer.length + 1) buffer 0 result

/-- What a `recv` that succeeds gives. -/
structure Chunk where
  bytes : Bytes
  ne_nil : bytes ≠ []
  length_le : bytes.length ≤ 8192

/-- Why `recv` gives nothing. -/
inductive RecvEnd where
  | wouldBlock
  | failed
  | closed
deriving Repr, DecidableEq

structure ReadBuffer where
  bufferMap : SortedMap Nat Bytes

namespace ReadBuffer

def new : ReadBuffer := ⟨.empty⟩

/-- The bytes in the buffer of a connection. -/
def buffer (m : ReadBuffer) (fd : Nat) : Bytes := (m.bufferMap.find? fd).getD []

def clear (m : ReadBuffer) (fd : Nat) : ReadBuffer := ⟨m.bufferMap.filterKeys fun k => k ≠ fd⟩

/-- The rounds of `read` that get something. -/
def readLoop (buffer : Bytes) (result : List Bytes) : List Chunk → Bytes × List Bytes
  | [] => (buffer, result)
  | chunk :: chunks =>
      let (buffer, result) := extract (buffer ++ chunk.bytes) result
      readLoop buffer result chunks

/-- `read` gets these chunks and then nothing more. -/
def read (m : ReadBuffer) (fd : Nat) (chunks : List Chunk) (stop : RecvEnd) :
    Except String (List Bytes) × ReadBuffer :=
  let (buffer, result) := readLoop (m.buffer fd) [] chunks
  match stop with
  | .wouldBlock => (.ok result, ⟨m.bufferMap.insert fd buffer⟩)
  | .failed => (.ok result, ⟨m.bufferMap.insert fd []⟩)
  | .closed => (.error "Socket is closed", ⟨m.bufferMap.insert fd buffer⟩)

/-- Calls of `read` that end because there is nothing more for now. -/
def readCalls (m : ReadBuffer) (fd : Nat) : List (List Chunk) → List Bytes × ReadBuffer
  | [] => ([], m)
  | chunks :: calls =>
      match m.read fd chunks .wouldBlock with
      | (.ok msgs, m) => (msgs ++ (readCalls m fd calls).1, (readCalls m fd calls).2)
      | (.error _, m) => ([], m)

end ReadBuffer

/-- The bytes that calls receive. -/
def received (calls : List (List Chunk)) : Bytes := calls.flatten.flatMap Chunk.bytes

/-! ## Searching from an offset -/

section

variable {text pattern : Bytes} {pos i : Nat}

theorem find_drop (text pattern : Bytes) (pos n : Nat) :
    find text pattern (pos + n) = (find (text.drop pos) pattern n).map (pos + ·) := by
  simp only [find, List.drop_drop, Option.map_map]
  congr 1
  funext k
  simp only [Function.comp, Nat.add_assoc]

/-- An occurrence lies behind the offset and in the text. -/
theorem find_bounds (hne : pattern ≠ []) (h : find text pattern pos = some i) :
    pos ≤ i ∧ i + pattern.length ≤ text.length := by
  obtain ⟨k, hk, rfl⟩ := Option.map_eq_some_iff.mp h
  have hlen := Search.add_length_le hk
  have hpos := List.length_pos_iff.mpr hne
  rw [List.length_drop] at hlen
  omega

theorem find_drop_self (h : find text pattern 0 = some i) : find (text.drop i) pattern 0 = some 0 := by
  obtain ⟨k, hk, rfl⟩ := Option.map_eq_some_iff.mp h
  rw [List.drop_zero] at hk
  rw [Nat.zero_add, find, List.drop_zero, Search.find_drop hk]
  rfl

theorem find_append (hne : pattern ≠ []) (h : find text pattern pos = some i) (c : Bytes) :
    find (text ++ c) pattern pos = some i := by
  have hbounds := find_bounds hne h
  obtain ⟨k, hk, rfl⟩ := Option.map_eq_some_iff.mp h
  rw [find, List.drop_append_of_le_length (by omega), Search.find_append hk]
  rfl

theorem find_of_append {c : Bytes} (hne : pattern ≠ []) (h : find (text ++ c) pattern pos = some i)
    (hlen : i + pattern.length ≤ text.length) : find text pattern pos = some i := by
  have hbounds := find_bounds hne h
  obtain ⟨k, hk, rfl⟩ := Option.map_eq_some_iff.mp h
  rw [List.drop_append_of_le_length (by omega)] at hk
  rw [find, Search.find_of_append hk (by rw [List.length_drop]; omega)]
  rfl

end

theorem getTagValueView_eq_some {msg pattern value : Bytes} {idx end_it : Nat}
    (h : getTagValueView msg pattern idx = some (value, end_it)) :
    ∃ begin_it, find msg pattern idx = some begin_it ∧
      find msg [internalSohChar] (begin_it + pattern.length) = some end_it ∧
      value = (msg.drop (begin_it + pattern.length)).take
        (end_it - (begin_it + pattern.length)) := by
  unfold getTagValueView at h
  split at h
  next => cases h
  next begin_it hbegin =>
    split at h
    next => cases h
    next end_it' hend =>
      cases h
      exact ⟨begin_it, hbegin, hend, rfl⟩

theorem getTagValueView_bounds {msg pattern value : Bytes} {idx end_it : Nat} (hne : pattern ≠ [])
    (h : getTagValueView msg pattern idx = some (value, end_it)) :
    idx < end_it ∧ end_it < msg.length := by
  obtain ⟨begin_it, hbegin, hend, -⟩ := getTagValueView_eq_some h
  have hpos := List.length_pos_iff.mpr hne
  have h₁ := find_bounds hne hbegin
  have h₂ := find_bounds (by simp) hend
  rw [List.length_singleton] at h₂
  omega

/-- A value does not depend on what comes after its separator. -/
theorem getTagValueView_append {msg pattern : Bytes} {idx : Nat} {r : Bytes × Nat}
    (hne : pattern ≠ []) (h : getTagValueView msg pattern idx = some r) (c : Bytes) :
    getTagValueView (msg ++ c) pattern idx = some r := by
  obtain ⟨value, end_it⟩ := r
  obtain ⟨begin_it, hbegin, hend, rfl⟩ := getTagValueView_eq_some h
  have hbounds := find_bounds (by simp) hend
  rw [List.length_singleton] at hbounds
  unfold getTagValueView
  rw [find_append hne hbegin c]
  dsimp only
  rw [find_append (by simp) hend c]
  dsimp only
  rw [List.drop_append_of_le_length (by omega),
    List.take_append_of_le_length (by rw [List.length_drop]; omega)]

/-- A value whose separator was there before. -/
theorem getTagValueView_of_append {msg pattern c value : Bytes} {idx end_it : Nat}
    (hne : pattern ≠ []) (h : getTagValueView (msg ++ c) pattern idx = some (value, end_it))
    (hlen : end_it < msg.length) : getTagValueView msg pattern idx = some (value, end_it) := by
  obtain ⟨begin_it, hbegin, hend, rfl⟩ := getTagValueView_eq_some h
  have hbounds := find_bounds (by simp) hend
  rw [List.length_singleton] at hbounds
  unfold getTagValueView
  rw [find_of_append hne hbegin (by omega)]
  dsimp only
  rw [find_of_append (by simp) hend (by rw [List.length_singleton]; omega)]
  dsimp only
  rw [List.drop_append_of_le_length (by omega),
    List.take_append_of_le_length (by rw [List.length_drop]; omega)]

theorem getTagValueView_drop (msg pattern : Bytes) (pos n : Nat) :
    getTagValueView msg pattern (pos + n) =
      (getTagValueView (msg.drop pos) pattern n).map fun r => (r.1, pos + r.2) := by
  unfold getTagValueView
  rw [find_drop]
  cases find (msg.drop pos) pattern n with
  | none => rfl
  | some begin_it =>
      simp only [Option.map_some]
      rw [Nat.add_assoc, find_drop]
      cases find (msg.drop pos) [internalSohChar] (begin_it + pattern.length) with
      | none => rfl
      | some end_it =>
          simp only [Option.map_some, List.drop_drop]
          congr 3
          omega

/-! ## The framer -/

namespace Frame

/-- The same frame, in a buffer with something in front. -/
def shift (n : Nat) : Frame → Frame
  | .incomplete => .incomplete
  | .bad next => .bad (n + next)
  | .complete msgEnd => .complete (n + msgEnd)

end Frame

theorem bodyLengthPattern_ne_nil : bodyLengthPattern ≠ [] := List.cons_ne_nil _ _

theorem checksumPattern_ne_nil : checksumPattern ≠ [] := List.cons_ne_nil _ _

theorem beginStringTag_ne_nil : beginStringTag ≠ [] := by decide

/-- The body length that a value gives. -/
def bodyLengthOf (value : Bytes) : Option Nat :=
  match fromCharsInt value with
  | none => none
  | some bodyLength => if bodyLength < 0 then none else some bodyLength.toNat

/-- A round that finds both fields, or one. -/
theorem frameAt_eq (buffer : Bytes) (start : Nat) :
    frameAt buffer start =
      match getTagValueView buffer bodyLengthPattern start with
      | none => .incomplete
      | some (value, ptr) =>
          if value = [] then .incomplete
          else
            match bodyLengthOf value with
            | none => .bad (ptr + 1)
            | some bodyLength =>
                match getTagValueView buffer checksumPattern (ptr + bodyLength) with
                | none => .incomplete
                | some (value, ptr) => if value = [] then .incomplete else .complete (ptr + 1) := by
  unfold frameAt bodyLengthOf
  cases getTagValueView buffer bodyLengthPattern start with
  | none => rfl
  | some r =>
      obtain ⟨value, ptr⟩ := r
      cases value with
      | nil => rfl
      | cons b value =>
          simp only [List.cons_ne_nil, if_false]
          cases fromCharsInt (b :: value) with
          | none => rfl
          | some bodyLength =>
              by_cases hneg : bodyLength < 0
              · simp only [if_pos hneg]
              · simp only [if_neg hneg]
                cases getTagValueView buffer checksumPattern (ptr + bodyLength.toNat) with
                | none => rfl
                | some r =>
                    obtain ⟨value, ptr⟩ := r
                    cases value with
                    | nil => rfl
                    | cons b value => simp

theorem frameAt_drop (buffer : Bytes) (start : Nat) :
    frameAt buffer start = (frameAt (buffer.drop start) 0).shift start := by
  have hlength := getTagValueView_drop buffer bodyLengthPattern start 0
  rw [Nat.add_zero] at hlength
  rw [frameAt_eq, frameAt_eq, hlength]
  cases getTagValueView (buffer.drop start) bodyLengthPattern 0 with
  | none => rfl
  | some r =>
      simp only [Option.map_some]
      split
      · rfl
      · cases bodyLengthOf r.1 with
        | none => rfl
        | some bodyLength =>
            have hsum := getTagValueView_drop buffer checksumPattern start (r.2 + bodyLength)
            simp only [Nat.add_assoc, hsum]
            cases getTagValueView (buffer.drop start) checksumPattern (r.2 + bodyLength) with
            | none => rfl
            | some r =>
                simp only [Option.map_some]
                split
                · rfl
                · rfl

section

variable {buffer : Bytes} {start n : Nat}

theorem frameAt_eq_bad_iff :
    frameAt buffer start = .bad n ↔
      ∃ value ptr, getTagValueView buffer bodyLengthPattern start = some (value, ptr) ∧
        value ≠ [] ∧ bodyLengthOf value = none ∧ n = ptr + 1 := by
  rw [frameAt_eq]
  cases getTagValueView buffer bodyLengthPattern start with
  | none => simp
  | some r =>
      obtain ⟨value, ptr⟩ := r
      by_cases hvalue : value = []
      · simp [hvalue]
      · cases hlength : bodyLengthOf value with
        | none => simp [hvalue, hlength, eq_comm]
        | some bodyLength =>
            cases hsum : getTagValueView buffer checksumPattern (ptr + bodyLength) with
            | none => simp [hvalue, hlength, hsum]
            | some r =>
                obtain ⟨sum, end_it⟩ := r
                by_cases hempty : sum = []
                · simp [hvalue, hlength, hsum, hempty]
                · simp [hvalue, hlength, hsum, hempty]

theorem frameAt_eq_complete_iff :
    frameAt buffer start = .complete n ↔
      ∃ value ptr bodyLength sum end_it,
        getTagValueView buffer bodyLengthPattern start = some (value, ptr) ∧ value ≠ [] ∧
        bodyLengthOf value = some bodyLength ∧
        getTagValueView buffer checksumPattern (ptr + bodyLength) = some (sum, end_it) ∧
        sum ≠ [] ∧ n = end_it + 1 := by
  rw [frameAt_eq]
  cases getTagValueView buffer bodyLengthPattern start with
  | none => simp
  | some r =>
      obtain ⟨value, ptr⟩ := r
      by_cases hvalue : value = []
      · simp [hvalue]
      · cases hlength : bodyLengthOf value with
        | none => simp [hvalue, hlength]
        | some bodyLength =>
            cases hsum : getTagValueView buffer checksumPattern (ptr + bodyLength) with
            | none => simp [hvalue, hlength, hsum]
            | some r =>
                obtain ⟨sum, end_it⟩ := r
                by_cases hempty : sum = []
                · simp [hvalue, hlength, hsum, hempty]
                · simp [hvalue, hlength, hsum, hempty, eq_comm]

/-- Where a frame that is cut out or skipped ends. -/
def Frame.EndsAt (n : Nat) : Frame → Prop
  | .incomplete => False
  | .bad next => next = n
  | .complete msgEnd => msgEnd = n

theorem frameAt_bounds (h : (frameAt buffer start).EndsAt n) : start < n ∧ n ≤ buffer.length := by
  cases hframe : frameAt buffer start with
  | incomplete => exact (hframe ▸ h : Frame.EndsAt n .incomplete).elim
  | bad next =>
      obtain rfl : next = n := (hframe ▸ h : Frame.EndsAt n (.bad next))
      obtain ⟨value, ptr, hlength, -, -, rfl⟩ := frameAt_eq_bad_iff.mp hframe
      have := getTagValueView_bounds bodyLengthPattern_ne_nil hlength
      omega
  | complete msgEnd =>
      obtain rfl : msgEnd = n := (hframe ▸ h : Frame.EndsAt n (.complete msgEnd))
      obtain ⟨value, ptr, bodyLength, sum, end_it, hlength, -, -, hsum, -, rfl⟩ :=
        frameAt_eq_complete_iff.mp hframe
      have h₁ := getTagValueView_bounds bodyLengthPattern_ne_nil hlength
      have h₂ := getTagValueView_bounds checksumPattern_ne_nil hsum
      omega

/-- What is decided does not depend on what comes after. -/
theorem frameAt_append (h : (frameAt buffer start).EndsAt n) (c : Bytes) :
    frameAt (buffer ++ c) start = frameAt buffer start := by
  cases hframe : frameAt buffer start with
  | incomplete => exact (hframe ▸ h : Frame.EndsAt n .incomplete).elim
  | bad next =>
      obtain ⟨value, ptr, hlength, hrest⟩ := frameAt_eq_bad_iff.mp hframe
      exact frameAt_eq_bad_iff.mpr
        ⟨value, ptr, getTagValueView_append bodyLengthPattern_ne_nil hlength c, hrest⟩
  | complete msgEnd =>
      obtain ⟨value, ptr, bodyLength, sum, end_it, hlength, hvalue, hnum, hsum, hrest⟩ :=
        frameAt_eq_complete_iff.mp hframe
      exact frameAt_eq_complete_iff.mpr ⟨value, ptr, bodyLength, sum, end_it,
        getTagValueView_append bodyLengthPattern_ne_nil hlength c, hvalue, hnum,
        getTagValueView_append checksumPattern_ne_nil hsum c, hrest⟩

/-- What is decided and ends before was decided before. -/
theorem frameAt_of_append {c : Bytes} (h : (frameAt (buffer ++ c) start).EndsAt n)
    (hlen : n ≤ buffer.length) : frameAt buffer start = frameAt (buffer ++ c) start := by
  cases hframe : frameAt (buffer ++ c) start with
  | incomplete => exact (hframe ▸ h : Frame.EndsAt n .incomplete).elim
  | bad next =>
      obtain rfl : next = n := (hframe ▸ h : Frame.EndsAt n (.bad next))
      obtain ⟨value, ptr, hlength, hvalue, hnum, rfl⟩ := frameAt_eq_bad_iff.mp hframe
      exact frameAt_eq_bad_iff.mpr ⟨value, ptr,
        getTagValueView_of_append bodyLengthPattern_ne_nil hlength (by omega), hvalue, hnum, rfl⟩
  | complete msgEnd =>
      obtain rfl : msgEnd = n := (hframe ▸ h : Frame.EndsAt n (.complete msgEnd))
      obtain ⟨value, ptr, bodyLength, sum, end_it, hlength, hvalue, hnum, hsum, hne, rfl⟩ :=
        frameAt_eq_complete_iff.mp hframe
      have hbounds := getTagValueView_bounds checksumPattern_ne_nil hsum
      exact frameAt_eq_complete_iff.mpr ⟨value, ptr, bodyLength, sum, end_it,
        getTagValueView_of_append bodyLengthPattern_ne_nil hlength (by omega), hvalue, hnum,
        getTagValueView_of_append checksumPattern_ne_nil hsum (by omega), hne, rfl⟩

end

/-- What the loop does with a buffer that begins where it has arrived. -/
def nextFrame (buffer : Bytes) : Option (Nat × List Bytes) :=
  match find buffer beginStringTag 0 with
  | none => none
  | some (start + 1) => some (start + 1, [])
  | some 0 =>
      match frameAt buffer 0 with
      | .incomplete => none
      | .bad next => some (next, [])
      | .complete msgEnd => some (msgEnd, [buffer.take msgEnd])

theorem nextFrame_eq_some {buffer : Bytes} {n : Nat} {out : List Bytes}
    (h : nextFrame buffer = some (n, out)) :
    (find buffer beginStringTag 0 = some n ∧ 0 < n ∧ out = []) ∨
      (find buffer beginStringTag 0 = some 0 ∧ frameAt buffer 0 = .bad n ∧ out = []) ∨
      (find buffer beginStringTag 0 = some 0 ∧ frameAt buffer 0 = .complete n ∧
        out = [buffer.take n]) := by
  unfold nextFrame at h
  split at h
  next => cases h
  next start hfind =>
    cases h
    exact .inl ⟨hfind, Nat.succ_pos start, rfl⟩
  next hfind =>
    split at h
    next => cases h
    next next hframe =>
      cases h
      exact .inr (.inl ⟨hfind, hframe, rfl⟩)
    next msgEnd hframe =>
      cases h
      exact .inr (.inr ⟨hfind, hframe, rfl⟩)

theorem nextFrame_of_discard {buffer : Bytes} {n : Nat} (h : find buffer beginStringTag 0 = some n)
    (hpos : 0 < n) : nextFrame buffer = some (n, []) := by
  obtain ⟨k, rfl⟩ : ∃ k, n = k + 1 := ⟨n - 1, by omega⟩
  simp only [nextFrame, h]

theorem nextFrame_of_frame {buffer : Bytes} (h : find buffer beginStringTag 0 = some 0) :
    nextFrame buffer =
      match frameAt buffer 0 with
      | .incomplete => none
      | .bad next => some (next, [])
      | .complete msgEnd => some (msgEnd, [buffer.take msgEnd]) := by
  simp only [nextFrame, h]

theorem nextFrame_bounds {buffer : Bytes} {n : Nat} {out : List Bytes}
    (h : nextFrame buffer = some (n, out)) : 0 < n ∧ n ≤ buffer.length := by
  rcases nextFrame_eq_some h with ⟨hfind, hpos, -⟩ | ⟨-, hframe, -⟩ | ⟨-, hframe, -⟩
  · have hbounds := find_bounds beginStringTag_ne_nil hfind
    omega
  · have hends : (frameAt buffer 0).EndsAt n := by
      rw [hframe]
      exact rfl
    exact frameAt_bounds hends
  · have hends : (frameAt buffer 0).EndsAt n := by
      rw [hframe]
      exact rfl
    exact frameAt_bounds hends

theorem nextFrame_append {buffer : Bytes} {r : Nat × List Bytes} (c : Bytes)
    (h : nextFrame buffer = some r) : nextFrame (buffer ++ c) = some r := by
  obtain ⟨n, out⟩ := r
  have hbounds := nextFrame_bounds h
  rcases nextFrame_eq_some h with ⟨hfind, hpos, rfl⟩ | ⟨hfind, hframe, rfl⟩ | ⟨hfind, hframe, rfl⟩
  · exact nextFrame_of_discard (find_append beginStringTag_ne_nil hfind c) hpos
  · have hends : (frameAt buffer 0).EndsAt n := by
      rw [hframe]
      exact rfl
    rw [nextFrame_of_frame (find_append beginStringTag_ne_nil hfind c), frameAt_append hends c,
      hframe]
  · have hends : (frameAt buffer 0).EndsAt n := by
      rw [hframe]
      exact rfl
    rw [nextFrame_of_frame (find_append beginStringTag_ne_nil hfind c), frameAt_append hends c,
      hframe]
    dsimp only
    rw [List.take_append_of_le_length hbounds.2]

/-- The framing of the input. -/
def framer : Framer UInt8 Bytes where
  next := nextFrame
  pos h := (nextFrame_bounds h).1
  le h := (nextFrame_bounds h).2
  stable c h := nextFrame_append c h

/-! ## The loop runs the framer -/

/-- What is in front of a message makes no difference. -/
theorem run_discard {buffer : Bytes} {n : Nat} (h : find buffer beginStringTag 0 = some n) :
    framer.run buffer = framer.run (buffer.drop n) := by
  cases n with
  | zero => rfl
  | succ n =>
      have hnext : framer.next buffer = some (n + 1, []) :=
        nextFrame_of_discard h (Nat.succ_pos n)
      rw [Framer.run_of_some hnext]
      rfl

theorem extractLoop_eq : ∀ {fuel : Nat} {buffer : Bytes} {consumed : Nat} (result : List Bytes),
    buffer.length < fuel + consumed →
      extractLoop fuel buffer consumed result =
        ((framer.run (buffer.drop consumed)).2, result ++ (framer.run (buffer.drop consumed)).1)
  | 0, buffer, consumed, result, hfuel => by
      have hnil : buffer.drop consumed = [] := List.drop_eq_nil_of_le (by omega)
      rw [hnil, Framer.run_of_none Framer.next_nil, extractLoop, hnil, List.append_nil]
  | fuel + 1, buffer, consumed, result, hfuel => by
      have hfind := find_drop buffer beginStringTag consumed 0
      rw [Nat.add_zero] at hfind
      rw [extractLoop, hfind]
      cases hzero : find (buffer.drop consumed) beginStringTag 0 with
      | none =>
          have hnext : framer.next (buffer.drop consumed) = none := by
            change nextFrame _ = none
            simp only [nextFrame, hzero]
          rw [Framer.run_of_none hnext, List.append_nil]
          rfl
      | some k =>
          have hbegin := find_drop_self hzero
          rw [List.drop_drop] at hbegin
          rw [run_discard hzero, List.drop_drop]
          simp only [Option.map_some]
          have hnext := nextFrame_of_frame hbegin
          rw [frameAt_drop buffer (consumed + k)]
          cases hframe : frameAt (buffer.drop (consumed + k)) 0 with
          | incomplete =>
              rw [hframe] at hnext
              rw [Framer.run_of_none hnext, List.append_nil]
              rfl
          | bad next =>
              rw [hframe] at hnext
              have hpos := nextFrame_bounds hnext
              rw [Framer.run_of_some hnext, List.drop_drop]
              exact extractLoop_eq result (by omega)
          | complete msgEnd =>
              rw [hframe] at hnext
              have hpos := nextFrame_bounds hnext
              rw [Framer.run_of_some hnext, List.drop_drop]
              simp only [Frame.shift]
              split
              next hwhole =>
                have hnil : buffer.drop (consumed + k + msgEnd) = [] :=
                  List.drop_eq_nil_of_le (by omega)
                rw [hnil, Framer.run_of_none Framer.next_nil, hwhole.1, List.drop_zero,
                  List.take_of_length_le (by omega)]
                rfl
              next =>
                rw [extractLoop_eq _ (by omega), Nat.add_sub_cancel_left, List.append_assoc]

/-- The messages of a buffer and what is left of it. -/
theorem extract_eq (buffer : Bytes) (result : List Bytes) :
    extract buffer result = ((framer.run buffer).2, result ++ (framer.run buffer).1) :=
  extractLoop_eq result (by omega)

namespace ReadBuffer

theorem readLoop_eq : ∀ (buffer : Bytes) (result : List Bytes) (chunks : List Chunk),
    readLoop buffer result chunks =
      ((framer.feed buffer (chunks.map Chunk.bytes)).2,
        result ++ (framer.feed buffer (chunks.map Chunk.bytes)).1)
  | buffer, result, [] => by simp [readLoop, Framer.feed]
  | buffer, result, chunk :: chunks => by
      rw [readLoop, extract_eq]
      dsimp only
      rw [readLoop_eq, List.append_assoc]
      rfl

@[simp] theorem buffer_insert (m : ReadBuffer) (fd : Nat) (b : Bytes) :
    ReadBuffer.buffer ⟨m.bufferMap.insert fd b⟩ fd = b := by
  simp [buffer]

theorem read_wouldBlock (m : ReadBuffer) (fd : Nat) (chunks : List Chunk) :
    m.read fd chunks .wouldBlock =
      (.ok (framer.feed (m.buffer fd) (chunks.map Chunk.bytes)).1,
        ⟨m.bufferMap.insert fd (framer.feed (m.buffer fd) (chunks.map Chunk.bytes)).2⟩) := by
  rw [read, readLoop_eq]
  rfl

/-- Calls of `read` feed the framer. -/
theorem readCalls_eq : ∀ (m : ReadBuffer) (fd : Nat) (calls : List (List Chunk)),
    ((m.readCalls fd calls).1, (m.readCalls fd calls).2.buffer fd) =
      framer.feed (m.buffer fd) (calls.flatten.map Chunk.bytes)
  | m, fd, [] => rfl
  | m, fd, chunks :: calls => by
      have ih := readCalls_eq
        ⟨m.bufferMap.insert fd (framer.feed (m.buffer fd) (chunks.map Chunk.bytes)).2⟩ fd calls
      rw [buffer_insert] at ih
      obtain ⟨hmsgs, hbuffer⟩ := Prod.ext_iff.mp ih
      rw [readCalls, read_wouldBlock, List.flatten_cons, List.map_append, Framer.feed_append]
      exact Prod.ext (congrArg (_ ++ ·) hmsgs) hbuffer

/-- Calls of `read` give what all bytes at once give. -/
theorem readCalls_eq_run (m : ReadBuffer) (fd : Nat) (calls : List (List Chunk)) :
    ((m.readCalls fd calls).1, (m.readCalls fd calls).2.buffer fd) =
      if received calls = [] then ([], m.buffer fd)
      else framer.run (m.buffer fd ++ received calls) := by
  rw [readCalls_eq, received, List.flatMap]
  cases calls.flatten with
  | nil => rfl
  | cons chunk chunks =>
      have hne : (List.map Chunk.bytes (chunk :: chunks)).flatten ≠ [] := by
        simp [chunk.ne_nil]
      rw [if_neg hne, List.map_cons, Framer.feed_cons_eq_run]

/-- However the bytes of a connection are cut into pieces and calls, the messages are the
same and so is what is left in the buffer. -/
theorem readCalls_split (m : ReadBuffer) (fd : Nat) {calls calls' : List (List Chunk)}
    (h : received calls = received calls') :
    (m.readCalls fd calls).1 = (m.readCalls fd calls').1 ∧
      (m.readCalls fd calls).2.buffer fd = (m.readCalls fd calls').2.buffer fd := by
  have hrun : ((m.readCalls fd calls).1, (m.readCalls fd calls).2.buffer fd) =
      ((m.readCalls fd calls').1, (m.readCalls fd calls').2.buffer fd) := by
    rw [readCalls_eq_run, readCalls_eq_run, h]
  obtain ⟨hmsgs, hbuffer⟩ := Prod.ext_iff.mp hrun
  exact ⟨hmsgs, hbuffer⟩

/-- A heartbeat, and what another one starts with. -/
def testStream : Bytes :=
  (ascii "8=FIX.4.2|9=5|35=0|10=161|8=FIX").map fun b =>
    if b = externalSohChar then internalSohChar else b

/-- The stream in one piece. -/
def wholeCalls : List (List Chunk) := [[⟨testStream, by decide, by decide⟩]]

/-- The stream in three pieces, of which two come in one call. -/
def cutCalls : List (List Chunk) :=
  [[⟨testStream.take 12, by decide, by decide⟩],
    [⟨(testStream.drop 12).take 16, by decide, by decide⟩,
      ⟨testStream.drop 28, by decide, by decide⟩]]

theorem readCalls_split_test :
    (new.readCalls 5 cutCalls).1 = (new.readCalls 5 wholeCalls).1 ∧
      (new.readCalls 5 cutCalls).2.buffer 5 = (new.readCalls 5 wholeCalls).2.buffer 5 ∧
      (new.readCalls 5 wholeCalls).1 = [testStream.take 26] := by
  have hsame : received cutCalls = received wholeCalls := by decide
  obtain ⟨hmsgs, hbuffer⟩ := readCalls_split new 5 hsame
  exact ⟨hmsgs, hbuffer, by decide +kernel⟩

end ReadBuffer

end OpenFix
