import OpenFix.Simd
import OpenFix.Wire

/-!
# The two renderings of a message

A message is rendered with SOH for the wire and with `|` for logs.  Both are the same
fields, each followed by the separator (`render`), whatever bytes the values have.
The checksum of the rendering for logs is computed from its own text, and corrected
by the number of separators, which the nested recursion counts on its way.

The body length is written as an `int`.  A body that does not fit one is the only
thing that makes a frame wrong.
-/

namespace OpenFix

/-- Fields with a separator behind each. -/
def render (soh : UInt8) (texts : List Bytes) : Bytes := texts.flatMap (· ++ [soh])

/-- `tag=value`. -/
def fieldText (tag : Int) (value : Bytes) : Bytes := appendTagEq tag ++ value

@[simp] theorem render_nil (soh : UInt8) : render soh [] = [] := rfl

@[simp] theorem render_append (soh : UInt8) (a b : List Bytes) :
    render soh (a ++ b) = render soh a ++ render soh b := List.flatMap_append

theorem render_cons (soh : UInt8) (text : Bytes) (texts : List Bytes) :
    render soh (text :: texts) = text ++ [soh] ++ render soh texts := List.flatMap_cons

theorem appendField_eq (soh : UInt8) (tag : Int) (value : Bytes) :
    appendField soh tag value = render soh [fieldText tag value] := by
  rw [render_cons, render_nil, List.append_nil]
  rfl

/-- The separators are all that differs. -/
theorem length_render (soh : UInt8) (texts : List Bytes) :
    (render soh texts).length = texts.flatten.length + texts.length := by
  induction texts with
  | nil => rfl
  | cons text texts ih =>
      rw [render_cons, List.length_append, List.length_append, ih, List.flatten_cons,
        List.length_append, List.length_singleton, List.length_cons]
      omega

theorem byteSum_render (soh : UInt8) (texts : List Bytes) :
    byteSum (render soh texts) = byteSum texts.flatten + texts.length * soh.toNat := by
  induction texts with
  | nil => simp [byteSum]
  | cons text texts ih =>
      have hone : byteSum [soh] = soh.toNat := by simp [byteSum]
      rw [render_cons, byteSum_append, byteSum_append, hone, ih, List.flatten_cons, byteSum_append,
        List.length_cons, Nat.succ_mul]
      omega

/-! ## The fields of a map -/

namespace FieldMap

mutual

/-- The fields of a map without the tags of the frame, each followed by those of the
instances of its group. -/
def texts : FieldMap → List Bytes
  | ⟨fields, owned, capacity, groups, spec, seen⟩ =>
      let m : FieldMap := ⟨fields, owned, capacity, groups, spec, seen⟩
      let instances := groupTexts groups
      fields.flatMap fun (tag, v) =>
        if isIgnoredTag tag then []
        else fieldText tag (m.read tag v) :: (AssocList.find? tag instances).getD []

def groupTexts : List (Int × List FieldMap) → List (Int × List Bytes)
  | [] => []
  | (tag, ms) :: rest => (tag, instanceTexts ms) :: groupTexts rest

def instanceTexts : List FieldMap → List Bytes
  | [] => []
  | m :: ms => m.texts ++ instanceTexts ms

end

/-- What `appendGroup` writes for some fields, and how many separators it counts. -/
def rendered (soh : UInt8) (texts : List Bytes) : Rendered := (render soh texts, texts.length)

theorem append_rendered (soh : UInt8) (a b : List Bytes) :
    Rendered.append (rendered soh a) (rendered soh b) = rendered soh (a ++ b) := by
  simp [Rendered.append, rendered]

/-- The loop over the fields of a map. -/
theorem foldl_rendered (soh : UInt8) (m : FieldMap) (instances : List (Int × Rendered))
    (instances' : List (Int × List Bytes))
    (h : ∀ tag, (AssocList.find? tag instances).getD ([], 0) =
      rendered soh ((AssocList.find? tag instances').getD [])) (fields : List (Int × View))
    (out : List Bytes) :
    fields.foldl (fun out (tag, v) =>
        if true && isIgnoredTag tag then out
        else Rendered.append (Rendered.append out (appendField soh tag (m.read tag v), 1))
          ((AssocList.find? tag instances).getD ([], 0))) (rendered soh out) =
      rendered soh (out ++ fields.flatMap fun (tag, v) =>
        if isIgnoredTag tag then []
        else fieldText tag (m.read tag v) :: (AssocList.find? tag instances').getD []) := by
  induction fields generalizing out with
  | nil => simp
  | cons p fields ih =>
      obtain ⟨tag, v⟩ := p
      have hone : (appendField soh tag (m.read tag v), 1) =
          rendered soh [fieldText tag (m.read tag v)] := by
        rw [appendField_eq]
        rfl
      rw [List.foldl_cons, List.flatMap_cons]
      dsimp only
      rw [Bool.true_and]
      split
      next => rw [ih, List.nil_append]
      next =>
        rw [hone, h, append_rendered, append_rendered, ih, List.append_assoc, List.append_assoc]
        rfl

mutual

/-- A map is rendered as its fields, and every separator is counted. -/
theorem appendGroup_eq (soh : UInt8) : ∀ m : FieldMap,
    m.appendGroup true soh = rendered soh m.texts
  | ⟨fields, owned, capacity, groups, spec, seen⟩ => by
      rw [appendGroup, texts]
      · exact foldl_rendered soh _ _ _ (find?_appendGroups soh groups) fields []
      · intro v h
        cases h

theorem find?_appendGroups (soh : UInt8) : ∀ (groups : List (Int × List FieldMap)) (tag : Int),
    (AssocList.find? tag (appendGroups true soh groups)).getD ([], 0) =
      rendered soh ((AssocList.find? tag (groupTexts groups)).getD [])
  | [], _ => rfl
  | (tag', ms) :: rest, tag => by
      rw [appendGroups, groupTexts, AssocList.find?, AssocList.find?]
      split
      · exact appendInstances_eq soh ms
      · exact find?_appendGroups soh rest tag

theorem appendInstances_eq (soh : UInt8) : ∀ ms : List FieldMap,
    appendInstances true soh ms = rendered soh (instanceTexts ms)
  | [] => rfl
  | m :: ms => by
      rw [appendInstances, instanceTexts, appendGroup_eq soh m, appendInstances_eq soh ms,
        append_rendered]

end

end FieldMap

/-! ## The frame -/

namespace Message

/-- `8=BeginString`, when the header has it. -/
def beginTexts (msg : Message) : List Bytes :=
  match msg.header.field? Field.beginString with
  | some v => [fieldText Field.beginString v]
  | none => []

/-- The fields between the body length and the checksum. -/
def bodyTexts (msg : Message) : List Bytes := msg.header.texts ++ msg.body.texts ++ msg.trailer.texts

/-- The length of the fields between the body length and the checksum. -/
def bodyLength (msg : Message) : Nat := (render internalSohChar msg.bodyTexts).length

/-- The fields before the checksum, with some body length. -/
def frameTexts (msg : Message) (length : Int) : List Bytes :=
  msg.beginTexts ++ fieldText Field.bodyLength (toChars length) :: msg.bodyTexts

/-- The checksum of some fields as they are on the wire. -/
def checksumText (texts : List Bytes) : Bytes :=
  fieldText Field.checkSum (formatChecksum (UInt8.ofNat (byteSum (render internalSohChar texts) % 256)))

/-- All fields of the text, with some body length. -/
def texts (msg : Message) (length : Int) : List Bytes :=
  msg.frameTexts length ++ [checksumText (msg.frameTexts length)]

theorem serializeBody_eq (msg : Message) (soh : UInt8) :
    msg.serializeBody soh = FieldMap.rendered soh msg.bodyTexts := by
  rw [serializeBody, FieldMap.appendGroup_eq, FieldMap.appendGroup_eq, FieldMap.appendGroup_eq,
    FieldMap.append_rendered, FieldMap.append_rendered]
  rfl

theorem serializeBeginString_eq (msg : Message) (soh : UInt8) :
    msg.serializeBeginString soh = FieldMap.rendered soh msg.beginTexts := by
  unfold serializeBeginString beginTexts
  cases msg.header.field? Field.beginString with
  | some v =>
      show (appendField soh Field.beginString v, 1) = _
      rw [appendField_eq]
      rfl
  | none => rfl

theorem length_bodyTexts (msg : Message) (soh : UInt8) :
    (render soh msg.bodyTexts).length = msg.bodyLength := by
  rw [bodyLength, length_render, length_render]

theorem serializeFrame_eq (msg : Message) (soh : UInt8) :
    msg.serializeFrame soh = render soh (msg.frameTexts (i32 msg.bodyLength)) := by
  have hlen : (msg.serializeBody soh).1.length = msg.bodyLength := by
    rw [serializeBody_eq]
    exact msg.length_bodyTexts soh
  have hbegin : (msg.serializeBeginString soh).1 = render soh msg.beginTexts := by
    rw [serializeBeginString_eq]
    rfl
  have hbody : (msg.serializeBody soh).1 = render soh msg.bodyTexts := by
    rw [serializeBody_eq]
    rfl
  have hframe : msg.frameTexts (i32 msg.bodyLength) = msg.beginTexts ++
      ([fieldText Field.bodyLength (toChars (i32 msg.bodyLength))] ++ msg.bodyTexts) := rfl
  rw [serializeFrame, hlen, hbegin, hbody, appendField_eq, hframe, render_append, render_append,
    List.append_assoc]

/-- Correcting the sum of a text by the number of its separators. -/
theorem checksum_correction (a count : Nat) (soh : UInt8) :
    UInt8.ofNat ((a + count * soh.toNat) % 256) + UInt8.ofNat count * (internalSohChar - soh) =
      UInt8.ofNat ((a + count * internalSohChar.toNat) % 256) := by
  have hmod : ∀ n : Nat, UInt8.ofNat (n % 256) = UInt8.ofNat n := fun n => by
    apply UInt8.toNat_inj.mp
    simp
  have hsoh : UInt8.ofNat soh.toNat = soh := UInt8.ofNat_toNat
  have hone : UInt8.ofNat internalSohChar.toNat = internalSohChar := UInt8.ofNat_toNat
  rw [hmod, hmod, UInt8.ofNat_add, UInt8.ofNat_add, UInt8.ofNat_mul, UInt8.ofNat_mul, hsoh, hone]
  grind

/-- Either rendering has the checksum of the text on the wire. -/
theorem serializeChecksum_eq (msg : Message) (soh : UInt8) :
    fieldText Field.checkSum (formatChecksum (msg.serializeChecksum soh)) =
      checksumText (msg.frameTexts (i32 msg.bodyLength)) := by
  have hcount : 1 + (msg.serializeBody soh).2 + (msg.serializeBeginString soh).2 =
      (msg.frameTexts (i32 msg.bodyLength)).length := by
    rw [serializeBody_eq, serializeBeginString_eq, frameTexts, List.length_append, List.length_cons]
    show 1 + msg.bodyTexts.length + msg.beginTexts.length = _
    omega
  have hsum : msg.serializeChecksum soh =
      UInt8.ofNat (byteSum (render internalSohChar (msg.frameTexts (i32 msg.bodyLength))) % 256) := by
    unfold serializeChecksum
    dsimp only
    rw [hcount, serializeFrame_eq, computeChecksum_eq]
    split
    next h => rw [h]
    next => rw [byteSum_render, byteSum_render, checksum_correction]
  rw [hsum]
  rfl

/-- Either rendering is the same fields. -/
theorem toString_eq_render (msg : Message) (internal : Bool) :
    msg.toString internal =
      render (if internal then internalSohChar else externalSohChar) (msg.texts (i32 msg.bodyLength)) := by
  rw [toString, serialize, serializeFrame_eq, appendField_eq, serializeChecksum_eq, texts, render_append]

/-- The text of a message is its fields with their separators, with the length and the
checksum that belong to them. -/
def SelfConsistent (msg : Message) : Prop :=
  ∀ internal, msg.toString internal =
    render (if internal then internalSohChar else externalSohChar) (msg.texts msg.bodyLength)

end Message

/-! ## When the body length is right -/

theorem toChars_injective : Function.Injective toChars := by
  intro a b h
  have hnat : ∀ m n : Nat, natDigits m = natDigits n → m = n := by
    intro m n hmn
    have := congrArg digitsVal hmn
    rwa [digitsVal_natDigits, digitsVal_natDigits] at this
  have hsign : ∀ m n : Nat, (45 : UInt8) :: natDigits m ≠ natDigits n := by
    intro m n hmn
    have hhead := head?_natDigits_append_ne n []
    rw [List.append_nil, ← hmn] at hhead
    exact hhead rfl
  unfold toChars at h
  split at h
  next ha =>
    split at h
    next hb =>
      have := hnat _ _ (List.cons.inj h).2
      omega
    next hb => exact (hsign _ _ h).elim
  next ha =>
    split at h
    next hb => exact (hsign _ _ h.symm).elim
    next hb =>
      have := hnat _ _ h
      omega

/-- What is in front of the first separator. -/
theorem append_cons_inj {s : UInt8} {a b x y : Bytes} (ha : s ∉ a) (hb : s ∉ b)
    (h : a ++ s :: x = b ++ s :: y) : a = b := by
  have htake : ∀ {c z : Bytes}, s ∉ c → (c ++ s :: z).takeWhile (· != s) = c := by
    intro c z hc
    rw [List.takeWhile_append_of_pos]
    · simp
    · intro d hd
      simp only [bne_iff_ne, ne_eq]
      rintro rfl
      exact hc hd
  rw [← htake (z := x) ha, h, htake hb]

namespace Message

/-- The body length can be read off from the text. -/
theorem eq_of_render_texts (msg : Message) {a b : Int}
    (h : render internalSohChar (msg.texts a) = render internalSohChar (msg.texts b)) : a = b := by
  have hsplit : ∀ length : Int, ∃ rest, render internalSohChar (msg.texts length) =
      (render internalSohChar msg.beginTexts ++ appendTagEq Field.bodyLength) ++
        (toChars length ++ internalSohChar :: rest) := by
    intro length
    refine ⟨render internalSohChar (msg.bodyTexts ++ [checksumText (msg.frameTexts length)]), ?_⟩
    have htexts : msg.texts length = msg.beginTexts ++
        (fieldText Field.bodyLength (toChars length) ::
          (msg.bodyTexts ++ [checksumText (msg.frameTexts length)])) := by
      rw [texts, frameTexts, List.append_assoc, List.cons_append]
    rw [htexts, render_append, render_cons, fieldText]
    simp only [List.append_assoc, List.cons_append, List.nil_append]
  obtain ⟨x, hx⟩ := hsplit a
  obtain ⟨y, hy⟩ := hsplit b
  rw [hx, hy] at h
  have hclean : ∀ i : Int, internalSohChar ∉ toChars i := fun i hmem => (toChars_clean hmem).1 rfl
  exact toChars_injective (append_cons_inj (hclean a) (hclean b) (List.append_cancel_left h))

/-- The text of a message is consistent in both renderings if and only if the length of
its body fits an `int`. -/
theorem selfConsistent_iff (msg : Message) : msg.SelfConsistent ↔ msg.bodyLength < 2147483648 := by
  constructor
  · intro h
    have htext := h true
    rw [toString_eq_render] at htext
    have hlen := msg.eq_of_render_texts htext
    have hrange := i32_range msg.bodyLength
    omega
  · intro h internal
    rw [toString_eq_render, i32_of_range (by omega) (by omega)]

/-- A body of 2147483652 bytes has a negative length. -/
theorem not_selfConsistent : ¬(Message.ofText (List.replicate 2147483648 97)).SelfConsistent := by
  intro h
  have htext : (List.replicate 2147483648 (97 : UInt8)).length = 2147483648 := List.length_replicate
  generalize List.replicate 2147483648 (97 : UInt8) = text at h htext
  have hlength : (Message.ofText text).bodyLength = 2147483652 := by
    have hbody : (Message.ofText text).bodyTexts = [ascii "58=" ++ text] := by
      have h58 : appendTagEq Field.text = ascii "58=" := by decide
      simp [bodyTexts, Message.ofText, FieldMap.texts, FieldMap.groupTexts, FieldMap.setFieldView,
        FieldMap.insertFieldView, FieldMap.new, FieldMap.setField, isIgnoredTag, fieldText, h58,
        FieldMap.read, AssocList.set]
    rw [bodyLength, hbody, render_cons, render_nil, List.append_nil, List.length_append,
      List.length_append, htext]
    rfl
  have htrue := h true
  rw [toString_eq_render, hlength] at htrue
  have hi32 := (Message.ofText text).eq_of_render_texts htrue
  exact absurd hi32 (by decide)

end Message

end OpenFix
