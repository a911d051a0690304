import OpenFix.Lib.SortedMap
import OpenFix.Message

/-!
# The session cache

`MemoryCache` holds the two sequence numbers, the texts that were sent under
each number and the queue of messages that came too early.  The numbers are
`int`s, so an increment wraps.

The hash map of texts is kept in key order, which is the order `getMessages`
sorts its answer into.  What the cache writes to its store is recorded in
`store`, in order.
-/

namespace OpenFix

/-- A call of the store. -/
inductive StoreOp where
  | store (seqnum : Int) (wire : Bytes)
  | setSenderSeqNum (num : Int)
  | setTargetSeqNum (num : Int)
  | reset
deriving Repr, DecidableEq

structure MemoryCache where
  senderSeqNum : Int
  targetSeqNum : Int
  /-- The texts, by the number they were sent under. -/
  messages : SortedMap Int Bytes
  seqNumsDirty : Bool
  /-- The numbers whose texts are not in the store yet. -/
  pendingStoreSeqNums : List Int
  inboundQueue : SortedMap Int Message
  /-- The calls of the store, in order. -/
  store : List StoreOp

namespace MemoryCache

/-- A cache as it is constructed. -/
def new : MemoryCache := ⟨1, 1, .empty, false, [], .empty, []⟩

def setSenderSeqNum (c : MemoryCache) (num : Int) : MemoryCache :=
  { c with senderSeqNum := num, seqNumsDirty := true }

def setTargetSeqNum (c : MemoryCache) (num : Int) : MemoryCache :=
  { c with targetSeqNum := num, seqNumsDirty := true }

def nextSenderSeqNum (c : MemoryCache) : MemoryCache := c.setSenderSeqNum (i32 (c.senderSeqNum + 1))

def nextTargetSeqNum (c : MemoryCache) : MemoryCache := c.setTargetSeqNum (i32 (c.targetSeqNum + 1))

/-- Record the text of an outbound message. -/
def cache (c : MemoryCache) (seqnum : Int) (wire : Bytes) : MemoryCache :=
  { c with
    messages := c.messages.insert seqnum wire
    pendingStoreSeqNums := c.pendingStoreSeqNums ++ [seqnum] }

/-- The texts numbered `begin` to `endSeqNo`, where an end of 0 is no bound. -/
def getMessages (c : MemoryCache) (beginSeqNo endSeqNo : Int) : List (Int × Bytes) :=
  (c.messages.filterKeys fun k => beginSeqNo ≤ k && (endSeqNo = 0 || k ≤ endSeqNo)).entries

/-- Put a message into the queue of early ones. -/
def queueInbound (c : MemoryCache) (seqnum : Int) (msg : Message) : MemoryCache :=
  { c with inboundQueue := c.inboundQueue.insert seqnum msg }

/-- Drop the first queued message. -/
def eraseInbound (c : MemoryCache) : MemoryCache :=
  { c with inboundQueue := c.inboundQueue.eraseMin }

def reset (c : MemoryCache) : MemoryCache :=
  { c with
    messages := .empty
    inboundQueue := .empty
    pendingStoreSeqNums := []
    senderSeqNum := 0
    targetSeqNum := 0
    seqNumsDirty := false
    store := c.store ++ [.reset] }

/-- The store calls for the pending texts. -/
def pendingOps (c : MemoryCache) : List StoreOp :=
  c.pendingStoreSeqNums.filterMap fun seq => (c.messages.find? seq).map (.store seq)

def flushSeqNums (c : MemoryCache) : MemoryCache :=
  let store := c.store ++ c.pendingOps
  if c.seqNumsDirty then
    { c with
      pendingStoreSeqNums := []
      seqNumsDirty := false
      store := store ++ [.setSenderSeqNum c.senderSeqNum, .setTargetSeqNum c.targetSeqNum] }
  else { c with pendingStoreSeqNums := [], store := store }

section

variable (c : MemoryCache) (seqnum : Int) (wire : Bytes) (msg : Message)

@[simp] theorem senderSeqNum_nextTargetSeqNum :
    c.nextTargetSeqNum.senderSeqNum = c.senderSeqNum := rfl

@[simp] theorem targetSeqNum_nextTargetSeqNum :
    c.nextTargetSeqNum.targetSeqNum = i32 (c.targetSeqNum + 1) := rfl

@[simp] theorem inboundQueue_nextTargetSeqNum :
    c.nextTargetSeqNum.inboundQueue = c.inboundQueue := rfl

@[simp] theorem messages_nextTargetSeqNum : c.nextTargetSeqNum.messages = c.messages := rfl

@[simp] theorem messages_cache :
    (c.cache seqnum wire).messages = c.messages.insert seqnum wire := rfl

@[simp] theorem targetSeqNum_eraseInbound : c.eraseInbound.targetSeqNum = c.targetSeqNum := rfl

@[simp] theorem inboundQueue_eraseInbound :
    c.eraseInbound.inboundQueue = c.inboundQueue.eraseMin := rfl

@[simp] theorem targetSeqNum_queueInbound :
    (c.queueInbound seqnum msg).targetSeqNum = c.targetSeqNum := rfl

@[simp] theorem inboundQueue_queueInbound :
    (c.queueInbound seqnum msg).inboundQueue = c.inboundQueue.insert seqnum msg := rfl

@[simp] theorem senderSeqNum_reset : c.reset.senderSeqNum = 0 := rfl

@[simp] theorem targetSeqNum_reset : c.reset.targetSeqNum = 0 := rfl

end

/-- A flush writes to the store and changes no number, text or queue. -/
theorem flushSeqNums_keeps (c : MemoryCache) :
    c.flushSeqNums.senderSeqNum = c.senderSeqNum ∧ c.flushSeqNums.targetSeqNum = c.targetSeqNum ∧
      c.flushSeqNums.messages = c.messages ∧ c.flushSeqNums.inboundQueue = c.inboundQueue := by
  unfold flushSeqNums
  split
  · exact ⟨rfl, rfl, rfl, rfl⟩
  · exact ⟨rfl, rfl, rfl, rfl⟩

end MemoryCache

end OpenFix
