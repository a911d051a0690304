import OpenFix.Numbering

/-!
# Recovery from a torn record

A crash while the writer appends a record leaves the first bytes of it at the end
of the store file.  `load` fails there and drops what it read before, the
constructor of the session goes on without the data of the store, and the session
starts as on an empty file.  `restores_torn_iff` says for which stores that is what
the whole records ask for.
-/

namespace OpenFix

namespace StoreOp

/-- The call stores the text of a message. -/
def isText : StoreOp → Bool
  | .store _ _ => true
  | .setSenderSeqNum _ | .setTargetSeqNum _ | .reset => false

/-- The sender number that a call writes. -/
def senderNum? : StoreOp → Option Int
  | .setSenderSeqNum num => some num
  | .store _ _ | .setTargetSeqNum _ | .reset => none

/-- The target number that a call writes. -/
def targetNum? : StoreOp → Option Int
  | .setTargetSeqNum num => some num
  | .store _ _ | .setSenderSeqNum _ | .reset => none

/-- A number that some records set is that of the last of them. -/
theorem foldl_apply_num {num? : StoreOp → Option Int} {field : SessionData → Int}
    (happly : ∀ data op, field (apply data op) = (num? op).getD (field data)) (ops : List StoreOp)
    (data : SessionData) :
    field (ops.foldl apply data) = (ops.filterMap num?).getLastD (field data) := by
  induction ops generalizing data with
  | nil => rfl
  | cons op ops ih =>
      rw [List.foldl_cons, ih, happly]
      cases hnum : num? op with
      | none => rw [List.filterMap_cons_none hnum, Option.getD_none]
      | some num => rw [List.filterMap_cons_some hnum, Option.getD_some, List.getLastD_cons]

theorem foldl_apply_sender (ops : List StoreOp) (data : SessionData) :
    (ops.foldl apply data).senderSeqNum = (ops.filterMap senderNum?).getLastD data.senderSeqNum :=
  foldl_apply_num (by
    intro data op
    cases op with
    | store | setSenderSeqNum | setTargetSeqNum | reset => rfl) ops data

theorem foldl_apply_target (ops : List StoreOp) (data : SessionData) :
    (ops.foldl apply data).targetSeqNum = (ops.filterMap targetNum?).getLastD data.targetSeqNum :=
  foldl_apply_num (by
    intro data op
    cases op with
    | store | setSenderSeqNum | setTargetSeqNum | reset => rfl) ops data

/-- A text that was stored stays, under its number or replaced there. -/
theorem isSome_find?_foldl_apply {k : Int} {ops : List StoreOp} {data : SessionData}
    (h : (data.messages.find? k).isSome) : ((ops.foldl apply data).messages.find? k).isSome := by
  induction ops generalizing data with
  | nil => exact h
  | cons op ops ih =>
      rw [List.foldl_cons]
      refine ih ?_
      cases op with
      | store seqnum wire =>
          by_cases hk : k = seqnum
          · subst hk
            simp [apply]
          · rw [apply, SortedMap.find?_insert_ne _ hk]
            exact h
      | setSenderSeqNum | setTargetSeqNum | reset => exact h

/-- The texts of a store are empty exactly if no call stores one. -/
theorem messages_foldl_apply_eq_empty_iff {ops : List StoreOp} :
    ∀ {data : SessionData}, data.messages = .empty →
      ((ops.foldl apply data).messages = .empty ↔ ∀ op ∈ ops, op.isText = false) := by
  induction ops with
  | nil => exact fun h => by simp [h]
  | cons op ops ih =>
      intro data hdata
      rw [List.foldl_cons, List.forall_mem_cons]
      cases op with
      | store seqnum wire =>
          constructor
          · intro hempty
            have hsome : ((ops.foldl apply (apply data (.store seqnum wire))).messages.find?
                seqnum).isSome := isSome_find?_foldl_apply (by simp [apply])
            rw [hempty] at hsome
            cases hsome
          · exact fun h => Bool.noConfusion h.1
      | setSenderSeqNum | setTargetSeqNum | reset =>
          rw [ih (by exact hdata)]
          simp [isText]

end StoreOp

/-! ## The torn record -/

namespace StoreHandle

theorem read_short {file : Bytes} {length : Nat} (h : file.length < length) (failure : String) :
    read length file failure = .error failure := if_neg (by omega)

/-- What a cut leaves of two parts, when it falls behind the first. -/
theorem take_append_of_le {bytes rest : Bytes} {length k : Nat} (h : bytes.length = length)
    (hk : length ≤ k) : (bytes ++ rest).take k = bytes ++ rest.take (k - length) := by
  rw [List.take_append, h, List.take_of_length_le (by omega)]

/-- The loop fails at a record of which something is missing. -/
theorem loadLoop_torn {op : StoreOp} (hop : op.Storable) {k : Nat} (hk₀ : 0 < k)
    (hk : k < op.record.length) (data : SessionData) (fuel : Nat) :
    ∃ failure, loadLoop (fuel + 1) (op.record.take k) data = .error failure := by
  obtain ⟨k, rfl⟩ : ∃ j, k = j + 1 := ⟨k - 1, by omega⟩
  have hshort : ∀ (num : Int) (failure : String), k < 4 →
      read 4 ((intBytes num).take k) failure = .error failure := by
    intro num failure hlt
    refine read_short ?_ failure
    rw [List.length_take]
    omega
  cases op with
  | setSenderSeqNum num =>
      simp only [StoreOp.record, List.length_cons, length_intBytes] at hk
      simp only [StoreOp.record, List.take_succ_cons, loadLoop]
      rw [if_pos (.inl trivial), hshort num _ (by omega)]
      exact ⟨_, rfl⟩
  | setTargetSeqNum num =>
      simp only [StoreOp.record, List.length_cons, length_intBytes] at hk
      simp only [StoreOp.record, List.take_succ_cons, loadLoop]
      rw [if_pos (.inr trivial), hshort num _ (by omega)]
      exact ⟨_, rfl⟩
  | store seqnum wire =>
      obtain ⟨hseq, hlen⟩ := hop
      have hlength : ofLeBytes (leBytes 8 wire.length) = wire.length := ofLeBytes_leBytes (by omega)
      simp only [StoreOp.record, List.cons_append, List.append_assoc, List.length_cons,
        List.length_append, length_intBytes, length_leBytes] at hk
      simp only [StoreOp.record, List.cons_append, List.append_assoc, List.take_succ_cons, loadLoop]
      rw [if_neg (by decide), if_pos trivial]
      -- The cut falls into the number, the length or the text.
      by_cases hnum : k < 4
      · rw [read_short (by rw [List.length_take]; omega)]
        exact ⟨_, rfl⟩
      rw [take_append_of_le (length_intBytes seqnum) (by omega), read_append (length_intBytes _)]
      simp only [bind, Except.bind]
      by_cases hlenBytes : k < 12
      · rw [read_short (by rw [List.length_take]; omega)]
        exact ⟨_, rfl⟩
      rw [take_append_of_le (length_leBytes 8 wire.length) (by omega),
        read_append (length_leBytes 8 _)]
      dsimp only
      rw [hlength, read_short (by rw [List.length_take]; omega)]
      exact ⟨_, rfl⟩
  | reset => exact hop.elim

/-- The loop goes through whole records in front of anything. -/
theorem loadLoop_records_append : ∀ {ops : List StoreOp}, (∀ op ∈ ops, op.Storable) →
    ∀ (rest : Bytes) (data : SessionData) (fuel : Nat),
      loadLoop (ops.length + fuel) (ops.flatMap StoreOp.record ++ rest) data =
        loadLoop fuel rest (ops.foldl StoreOp.apply data)
  | [], _, rest, data, fuel => by simp
  | op :: ops, h, rest, data, fuel => by
      have hlength : (op :: ops).length + fuel = ops.length + fuel + 1 := by
        rw [List.length_cons]
        omega
      rw [hlength, List.flatMap_cons, List.append_assoc,
        loadLoop_record (h op (List.mem_cons_self ..)),
        loadLoop_records_append (fun op hop => h op (List.mem_cons_of_mem _ hop))]
      rfl

theorem length_le_records {ops : List StoreOp} (h : ∀ op ∈ ops, op.Storable) :
    ops.length ≤ (ops.flatMap StoreOp.record).length := by
  induction ops with
  | nil => exact le_refl _
  | cons op ops ih =>
      have hop : 1 ≤ op.record.length := by
        have hop := h op (List.mem_cons_self ..)
        cases op with
        | reset => exact hop.elim
        | _ => simp [StoreOp.record]
      have hops := ih fun op hop => h op (List.mem_cons_of_mem _ hop)
      rw [List.flatMap_cons, List.length_append, List.length_cons]
      omega

/-- A file that ends in a torn record is not read. -/
theorem load_torn {ops : List StoreOp} {last : StoreOp} (hops : ∀ op ∈ ops, op.Storable)
    (hlast : last.Storable) {k : Nat} (hk₀ : 0 < k) (hk : k < last.record.length) :
    ∃ failure, load (ops.flatMap StoreOp.record ++ last.record.take k) = .error failure := by
  have hlength := length_le_records hops
  obtain ⟨fuel, hfuel⟩ : ∃ fuel,
      (ops.flatMap StoreOp.record ++ last.record.take k).length = ops.length + (fuel + 1) := by
    rw [List.length_append, List.length_take, Nat.min_eq_left hk.le]
    exact ⟨(ops.flatMap StoreOp.record).length + k - ops.length - 1, by omega⟩
  rw [load, hfuel, loadLoop_records_append hops]
  exact loadLoop_torn hlast hk₀ hk _ fuel

end StoreHandle

/-! ## The session -/

namespace StoredSession

/-- A session that is constructed on the file starts with these data. -/
def Restores (settings : SessionSettings) (file : Bytes) (data : SessionData) : Prop :=
  (load settings file).cache.senderSeqNum = data.senderSeqNum ∧
    (load settings file).cache.targetSeqNum = data.targetSeqNum ∧
    (load settings file).cache.messages = data.messages

/-- A session on a file that ends with a whole record starts with its data. -/
theorem restores_records (settings : SessionSettings) {ops : List StoreOp}
    (hops : ∀ op ∈ ops, op.Storable) :
    Restores settings (ops.flatMap StoreOp.record) (StoredCache.dataOf ops) := by
  unfold Restores load
  rw [StoreHandle.load_records hops]
  exact ⟨rfl, rfl, rfl⟩

/-- A session on a file with a torn last record starts with the data of the whole records
exactly if these store no text and leave both numbers at one. -/
theorem restores_torn_iff (settings : SessionSettings) {ops : List StoreOp} {last : StoreOp}
    (hops : ∀ op ∈ ops, op.Storable) (hlast : last.Storable) {k : Nat} (hk₀ : 0 < k)
    (hk : k < last.record.length) :
    Restores settings (ops.flatMap StoreOp.record ++ last.record.take k)
        (StoredCache.dataOf ops) ↔
      (∀ op ∈ ops, op.isText = false) ∧ (ops.filterMap StoreOp.senderNum?).getLastD 1 = 1 ∧
        (ops.filterMap StoreOp.targetNum?).getLastD 1 = 1 := by
  obtain ⟨failure, hload⟩ := StoreHandle.load_torn hops hlast hk₀ hk
  have hmessages : (SortedMap.empty : SortedMap Int Bytes) = (StoredCache.dataOf ops).messages ↔
      ∀ op ∈ ops, op.isText = false :=
    eq_comm.trans (StoreOp.messages_foldl_apply_eq_empty_iff rfl)
  unfold Restores load
  rw [hload]
  change (1 : Int) = _ ∧ (1 : Int) = _ ∧ SortedMap.empty = _ ↔ _
  rw [hmessages, StoredCache.dataOf, StoreOp.foldl_apply_sender, StoreOp.foldl_apply_target,
    eq_comm (a := (1 : Int)), eq_comm (a := (1 : Int))]
  constructor
  · exact fun h => ⟨h.2.2, h.1, h.2.1⟩
  · exact fun h => ⟨h.2.1, h.2.2, h.1⟩

/-- A store with a sequence number and a message, behind it a torn record. -/
def tornOps : List StoreOp := [.setSenderSeqNum 2, .store 1 (ascii "8=FIX.4.4")]

theorem restores_torn_iff_test :
    ¬Restores {} (tornOps.flatMap StoreOp.record ++ (StoreOp.setTargetSeqNum 3).record.take 4)
      (StoredCache.dataOf tornOps) := by
  have hops : ∀ op ∈ tornOps, op.Storable :=
    List.forall_mem_cons.mpr ⟨And.intro (by decide) (by decide), List.forall_mem_singleton.mpr
      ⟨And.intro (by decide) (by decide), by decide⟩⟩
  have hlast : (StoreOp.setTargetSeqNum 3).Storable := And.intro (by decide) (by decide)
  rw [restores_torn_iff {} hops hlast (by decide) (by decide)]
  exact fun h => absurd h.2.1 (by decide)

/-- A session forgets that it has sent four messages once a byte of the next record is
written. -/
theorem not_restores_torn : ¬∀ (settings : SessionSettings) (ops : List StoreOp) (last : StoreOp)
    (k : Nat), (∀ op ∈ ops, op.Storable) → last.Storable → 0 < k → k < last.record.length →
      Restores settings (ops.flatMap StoreOp.record ++ last.record.take k)
        (StoredCache.dataOf ops) := by
  intro h
  have hops : ∀ op ∈ [StoreOp.setSenderSeqNum 5], op.Storable :=
    List.forall_mem_singleton.mpr (And.intro (by decide) (by decide))
  have hlast : (StoreOp.setTargetSeqNum 3).Storable := And.intro (by decide) (by decide)
  have hrestores := h {} [.setSenderSeqNum 5] (.setTargetSeqNum 3) 1 hops hlast (by decide)
    (by decide)
  have hsender : (1 : Int) = 5 := hrestores.1
  exact absurd hsender (by decide)

end StoredSession

end OpenFix
