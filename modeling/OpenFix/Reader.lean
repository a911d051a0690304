import OpenFix.Framing
import OpenFix.Lib.Run

/-!
# The connections of a reader thread

A reader thread keeps a buffer for each descriptor.  A connection that was
accepted is unknown until its first messages name a session, and is closed when
they do not, or when that session is connected already.  `disconnect` closes a
descriptor and clears its buffer.

The network has a table with the SSL objects of the connections that use TLS, by
descriptor too.  A descriptor that is in the table is read through its object, and
`disconnect` takes it out.

The kernel gives a new connection any descriptor that is not open.  The messages
that a connection gives are its own if each connection that was rejected on the
way left nothing behind (`messages_own`).  The four places that reject one close the
descriptor, and leave its buffer and its SSL object where they are.

What a connection received and what was found in it is recorded, also after it
was closed.
-/

namespace OpenFix

def senderCompIDPattern : Bytes := buildTagPattern Field.senderCompID

def targetCompIDPattern : Bytes := buildTagPattern Field.targetCompID

/-- What one call of `read` gets. -/
structure Reception where
  chunks : List Chunk
  stop : RecvEnd

/-- A connection, with what it received and the messages that `read` returned for it. -/
structure Peer where
  /-- How many connections there were before. -/
  number : Nat
  receptions : List Reception
  messages : List Bytes

structure Reader where
  buffer : ReadBuffer
  /-- The SSL objects of the network for the descriptors of this thread, each with the number of
  the connection that it was made for. -/
  tlsConnections : SortedMap Nat Nat
  /-- The descriptors of connections with a session, and its name. -/
  connections : SortedMap Nat Bytes
  /-- The descriptors of the others, and the sessions of their acceptor. -/
  unknownConnections : SortedMap Nat (List Bytes)
  running : Bool
  /-- The descriptors that are open. -/
  opened : SortedMap Nat Peer
  /-- The connections that were closed. -/
  closed : List Peer
  /-- How many connections there were. -/
  count : Nat

/-- What happens to a reader thread. -/
inductive ReaderEvent where
  /-- A connection is accepted, with TLS or without. -/
  | accept (fd : Nat) (sessions : List Bytes) (tls : Bool)
  /-- A session connects. -/
  | connect (fd : Nat) (session : Bytes) (tls : Bool)
  /-- A descriptor is readable, and its connection gives a reception.  An SSL object of another
  connection makes something else of it.  Some sessions are connected at that time. -/
  | readable (fd : Nat) (reception foreign : Reception) (isConnected : Bytes → Bool)
  | disconnect (fd : Nat)
  | stop

/-- The session that the first message of a connection is for. -/
def route (sessions : List Bytes) (isConnected : Bytes → Bool) (msg : Bytes) : Option Bytes :=
  match getTagValueView msg senderCompIDPattern 0 with
  | none | some ([], _) => none
  | some (sender, pos) =>
      match getTagValueView msg targetCompIDPattern pos with
      | none | some ([], _) => none
      | some (target, _) =>
          -- The names are from the view of the peer.
          let cpty := target ++ ascii ":" ++ sender
          if !sessions.contains cpty then none
          else if isConnected cpty then none
          else some cpty

namespace Reader

def new : Reader := ⟨.new, .empty, .empty, .empty, true, .empty, [], 0⟩

/-- The kernel closes a descriptor. -/
def close (r : Reader) (fd : Nat) : Reader :=
  { r with
    opened := r.opened.filterKeys fun k => k ≠ fd
    closed := r.closed ++ (r.opened.find? fd).toList }

/-- The kernel opens a descriptor.  With TLS its entry in the table is written. -/
def openFD (r : Reader) (fd : Nat) (tls : Bool) : Reader :=
  { r with
    tlsConnections := if tls then r.tlsConnections.insert fd r.count else r.tlsConnections
    opened := r.opened.insert fd ⟨r.count, [], []⟩
    count := r.count + 1 }

def accept (r : Reader) (fd : Nat) (sessions : List Bytes) (tls : Bool) : Reader :=
  { r.openFD fd tls with unknownConnections := r.unknownConnections.insert fd sessions }

def connect (r : Reader) (fd : Nat) (session : Bytes) (tls : Bool) : Reader :=
  { r.openFD fd tls with connections := r.connections.insert fd session }

/-- What the calls of `readConnection` give, which go through the SSL object of the descriptor if
there is one. -/
def readConnection (r : Reader) (fd : Nat) (peer : Peer) (reception foreign : Reception) :
    Reception :=
  match r.tlsConnections.find? fd with
  | none => reception
  | some number => if number = peer.number then reception else foreign

/-- A call of `read`, and the messages it returns. -/
def receive (r : Reader) (fd : Nat) (reception foreign : Reception) : Reader × List Bytes :=
  let peer := (r.opened.find? fd).getD ⟨r.count, [], []⟩
  let got := r.readConnection fd peer reception foreign
  let (result, buffer) := r.buffer.read fd got.chunks got.stop
  let msgs := match result with
    | .ok msgs => msgs
    | .error _ => []
  ({ r with
    buffer := buffer
    opened := r.opened.insert fd
      ⟨peer.number, peer.receptions ++ [reception], peer.messages ++ msgs⟩ }, msgs)

def processRead (r : Reader) (fd : Nat) (reception foreign : Reception)
    (isConnected : Bytes → Bool) : Reader :=
  if fd ∈ r.connections.keys then (r.receive fd reception foreign).1
  else
    match r.unknownConnections.find? fd with
    | none => r
    | some sessions =>
        match r.receive fd reception foreign with
        | (r, []) => r
        | (r, msg :: _) =>
            let r := { r with
              unknownConnections := r.unknownConnections.filterKeys fun k => k ≠ fd }
            match route sessions isConnected msg with
            | none => r.close fd
            | some cpty => { r with connections := r.connections.insert fd cpty }

/-- Take the SSL object of a descriptor out of the table. -/
def removeConnection (r : Reader) (fd : Nat) : SortedMap Nat Nat :=
  r.tlsConnections.filterKeys fun k => k ≠ fd

def disconnect (r : Reader) (fd : Nat) : Reader :=
  let r := { r.close fd with
    tlsConnections := r.removeConnection fd
    buffer := r.buffer.clear fd }
  if fd ∈ r.connections.keys then
    { r with connections := r.connections.filterKeys fun k => k ≠ fd }
  else { r with unknownConnections := r.unknownConnections.filterKeys fun k => k ≠ fd }

/-- Close every descriptor.  The thread ends after that. -/
def stop (r : Reader) : Reader :=
  { r with
    tlsConnections := r.tlsConnections.filterKeys fun k =>
      k ∉ r.connections.keys ∧ k ∉ r.unknownConnections.keys
    connections := .empty
    unknownConnections := .empty
    running := false
    opened := .empty
    closed := r.closed ++ r.opened.entries.map Prod.snd }

def step : ReaderEvent → Reader → Reader
  | .accept fd sessions tls, r => r.accept fd sessions tls
  | .connect fd session tls, r => r.connect fd session tls
  | .readable fd reception foreign isConnected, r =>
      r.processRead fd reception foreign isConnected
  | .disconnect fd, r => r.disconnect fd
  | .stop, r => r.stop

/-- The descriptor of a new connection is not open, and a thread that was stopped gets no
new ones. -/
def Possible (r : Reader) : ReaderEvent → Prop
  | .accept fd _ _ | .connect fd _ _ => r.running = true ∧ fd ∉ r.opened.keys
  | _ => True

/-- A connection that is closed because of its first message uses no TLS and has an empty buffer
then: what it sent ends with a message. -/
def Clean (r : Reader) : ReaderEvent → Prop
  | .readable fd reception foreign isConnected =>
      fd ∉ r.connections.keys → ∀ sessions, r.unknownConnections.find? fd = some sessions →
        ∀ msg ∈ (r.receive fd reception foreign).2.head?, route sessions isConnected msg = none →
          (r.receive fd reception foreign).1.buffer.buffer fd = [] ∧
            r.tlsConnections.find? fd = none
  | _ => True

/-- All connections so far. -/
def peers (r : Reader) : List Peer := r.closed ++ r.opened.entries.map Prod.snd

end Reader

/-! ## What a connection gives on its own -/

/-- The messages of receptions and what is left of them, from what a buffer holds. -/
def extractReceptions (buffer : Bytes) : List Reception → List Bytes × Bytes
  | [] => ([], buffer)
  | reception :: receptions =>
      let (left, msgs) := ReadBuffer.readLoop buffer [] reception.chunks
      let (msgs, left) := match reception.stop with
        | .wouldBlock => (msgs, left)
        | .failed => (msgs, [])
        | .closed => ([], left)
      let rest := extractReceptions left receptions
      (msgs ++ rest.1, rest.2)

theorem extractReceptions_append (buffer : Bytes) (receptions receptions' : List Reception) :
    extractReceptions buffer (receptions ++ receptions') =
      ((extractReceptions buffer receptions).1 ++
          (extractReceptions (extractReceptions buffer receptions).2 receptions').1,
        (extractReceptions (extractReceptions buffer receptions).2 receptions').2) := by
  induction receptions generalizing buffer with
  | nil => rfl
  | cons reception receptions ih =>
      rw [List.cons_append, extractReceptions, extractReceptions]
      dsimp only
      rw [ih, List.append_assoc]

namespace ReadBuffer

theorem buffer_insert_ne (m : ReadBuffer) {fd fd' : Nat} (h : fd' ≠ fd) (b : Bytes) :
    ReadBuffer.buffer ⟨m.bufferMap.insert fd b⟩ fd' = m.buffer fd' := by
  rw [buffer, SortedMap.find?_insert_ne _ h]
  rfl

theorem buffer_clear_self (m : ReadBuffer) (fd : Nat) : (m.clear fd).buffer fd = [] := by
  rw [buffer, clear, SortedMap.find?_filterKeys, if_neg (by simp)]
  rfl

theorem buffer_clear_ne (m : ReadBuffer) {fd fd' : Nat} (h : fd' ≠ fd) :
    (m.clear fd).buffer fd' = m.buffer fd' := by
  rw [buffer, clear, SortedMap.find?_filterKeys, if_pos (by simpa using h)]
  rfl

end ReadBuffer

namespace Reader

/-- A call of `read` extracts from the buffer of its descriptor, when it is not read through the
SSL object of another connection. -/
theorem receive_extracts {r : Reader} {fd : Nat} {reception foreign : Reception}
    (h : r.readConnection fd ((r.opened.find? fd).getD ⟨r.count, [], []⟩) reception foreign =
      reception) :
    extractReceptions (r.buffer.buffer fd) [reception] =
      ((r.receive fd reception foreign).2,
        (r.receive fd reception foreign).1.buffer.buffer fd) := by
  rw [extractReceptions, receive, h, ReadBuffer.read]
  dsimp only
  cases reception.stop with
  | wouldBlock => simp [extractReceptions]
  | failed => simp [extractReceptions]
  | closed => simp [extractReceptions]

theorem buffer_receive_ne (r : Reader) {fd fd' : Nat} (h : fd' ≠ fd)
    (reception foreign : Reception) :
    (r.receive fd reception foreign).1.buffer.buffer fd' = r.buffer.buffer fd' := by
  rw [receive, ReadBuffer.read]
  dsimp only
  generalize r.readConnection fd _ reception foreign = got
  cases got.stop with
  | wouldBlock => exact r.buffer.buffer_insert_ne h _
  | failed => exact r.buffer.buffer_insert_ne h _
  | closed => exact r.buffer.buffer_insert_ne h _

/-! ## The invariant -/

/-- What each connection gave is its own, and a descriptor that is not open has an empty
buffer and no SSL object. -/
structure Sound (r : Reader) : Prop where
  opened : ∀ fd peer, r.opened.find? fd = some peer →
    extractReceptions [] peer.receptions = (peer.messages, r.buffer.buffer fd)
  free : r.running = true → ∀ fd, r.opened.find? fd = none →
    r.buffer.buffer fd = [] ∧ r.tlsConnections.find? fd = none
  tls : ∀ fd peer number, r.opened.find? fd = some peer →
    r.tlsConnections.find? fd = some number → number = peer.number
  known : ∀ fd, fd ∈ r.connections.keys ∨ fd ∈ r.unknownConnections.keys → fd ∈ r.opened.keys
  apart : ∀ fd ∈ r.connections.keys, fd ∉ r.unknownConnections.keys
  closed : ∀ peer ∈ r.closed, (extractReceptions [] peer.receptions).1 = peer.messages

theorem sound_new : Sound new where
  opened fd peer h := by cases h
  free _ fd _ := ⟨rfl, rfl⟩
  tls fd peer number h := by cases h
  known fd h := by
    rcases h with h | h
    · cases h
    · cases h
  apart fd h := by cases h
  closed peer h := by cases h

/-- A new connection on a descriptor that is not open. -/
theorem Sound.open {r : Reader} (h : Sound r) {fd : Nat} {tls : Bool} (hrun : r.running = true)
    (hnew : fd ∉ r.opened.keys) {connections : SortedMap Nat Bytes}
    {unknownConnections : SortedMap Nat (List Bytes)}
    (hconn : ∀ k ∈ connections.keys, k = fd ∨ k ∈ r.connections.keys)
    (hunknown : ∀ k ∈ unknownConnections.keys, k = fd ∨ k ∈ r.unknownConnections.keys)
    (hapart : ∀ k ∈ connections.keys, k ∉ unknownConnections.keys) :
    Sound { r.openFD fd tls with
      connections := connections
      unknownConnections := unknownConnections } := by
  have hnone : r.opened.find? fd = none := by
    cases hfind : r.opened.find? fd with
    | none => rfl
    | some peer => exact (hnew (SortedMap.mem_keys_iff_find?.mpr ⟨peer, hfind⟩)).elim
  obtain ⟨hbuffer, htls⟩ := h.free hrun fd hnone
  have hother : ∀ k ≠ fd, (r.openFD fd tls).tlsConnections.find? k = r.tlsConnections.find? k := by
    intro k hk
    cases tls with
    | false => rfl
    | true => exact SortedMap.find?_insert_ne _ hk _
  exact {
    opened := fun k peer hk => by
      dsimp only [Reader.openFD] at hk ⊢
      by_cases heq : k = fd
      · subst heq
        rw [SortedMap.find?_insert_self] at hk
        cases hk
        rw [hbuffer]
        rfl
      · rw [SortedMap.find?_insert_ne _ heq] at hk
        exact h.opened k peer hk
    free := fun _ k hk => by
      rw [show ({ r.openFD fd tls with
        connections := connections
        unknownConnections := unknownConnections } : Reader).opened =
          r.opened.insert fd ⟨r.count, [], []⟩ from rfl] at hk
      by_cases heq : k = fd
      · subst heq
        rw [SortedMap.find?_insert_self] at hk
        cases hk
      · rw [SortedMap.find?_insert_ne _ heq] at hk
        exact ⟨(h.free hrun k hk).1, (hother k heq).trans (h.free hrun k hk).2⟩
    tls := fun k peer number hk hnumber => by
      rw [show ({ r.openFD fd tls with
        connections := connections
        unknownConnections := unknownConnections } : Reader).opened =
          r.opened.insert fd ⟨r.count, [], []⟩ from rfl] at hk
      by_cases heq : k = fd
      · -- The entry of a descriptor that was not open is the one just made.
        subst heq
        rw [SortedMap.find?_insert_self] at hk
        cases hk
        cases tls with
        | false => exact absurd (htls.symm.trans hnumber) (Option.some_ne_none _).symm
        | true =>
            have hself : (r.tlsConnections.insert k r.count).find? k = some number := hnumber
            rw [SortedMap.find?_insert_self] at hself
            exact (Option.some.inj hself).symm
      · rw [SortedMap.find?_insert_ne _ heq] at hk
        exact h.tls k peer number hk ((hother k heq).symm.trans hnumber)
    known := fun k hk => by
      have hmem : k = fd ∨ k ∈ r.opened.keys := hk.elim
        (fun hk => (hconn k hk).imp_right fun hk => h.known k (.inl hk))
        fun hk => (hunknown k hk).imp_right fun hk => h.known k (.inr hk)
      exact SortedMap.mem_keys_insert.mpr hmem
    apart := hapart
    closed := h.closed }

/-- An open descriptor is read through no SSL object but its own. -/
theorem Sound.readConnection_eq {r : Reader} (h : Sound r) {fd : Nat} {peer : Peer}
    (hpeer : r.opened.find? fd = some peer) (reception foreign : Reception) :
    r.readConnection fd peer reception foreign = reception := by
  rw [readConnection]
  split
  next => rfl
  next number hnumber => rw [if_pos (h.tls fd peer number hpeer hnumber)]

theorem Sound.receive {r : Reader} (h : Sound r) {fd : Nat} (hopen : fd ∈ r.opened.keys)
    (reception foreign : Reception) : Sound (r.receive fd reception foreign).1 := by
  obtain ⟨peer, hpeer⟩ := SortedMap.mem_keys_iff_find?.mp hopen
  have hextracts := receive_extracts (by
    rw [hpeer]
    exact h.readConnection_eq hpeer reception foreign)
  have hopened : (r.receive fd reception foreign).1.opened = r.opened.insert fd
      ⟨peer.number, peer.receptions ++ [reception],
        peer.messages ++ (r.receive fd reception foreign).2⟩ := by
    simp only [Reader.receive, hpeer, Option.getD_some]
  exact {
    opened := fun k peer' hk => by
      rw [hopened] at hk
      by_cases heq : k = fd
      · subst heq
        rw [SortedMap.find?_insert_self] at hk
        cases hk
        rw [extractReceptions_append, h.opened k peer hpeer, hextracts]
      · rw [SortedMap.find?_insert_ne _ heq] at hk
        rw [r.buffer_receive_ne heq]
        exact h.opened k peer' hk
    free := fun hrun k hk => by
      rw [hopened] at hk
      by_cases heq : k = fd
      · subst heq
        rw [SortedMap.find?_insert_self] at hk
        cases hk
      · rw [SortedMap.find?_insert_ne _ heq] at hk
        rw [r.buffer_receive_ne heq]
        exact h.free hrun k hk
    tls := fun k peer' number hk hnumber => by
      rw [hopened] at hk
      by_cases heq : k = fd
      · subst heq
        rw [SortedMap.find?_insert_self] at hk
        cases hk
        exact h.tls k peer number hpeer hnumber
      · rw [SortedMap.find?_insert_ne _ heq] at hk
        exact h.tls k peer' number hk hnumber
    known := fun k hk => by
      rw [hopened, SortedMap.mem_keys_insert]
      exact .inr (h.known k hk)
    apart := h.apart
    closed := h.closed }

/-- A connection is closed and leaves nothing behind. -/
theorem Sound.close {r : Reader} (h : Sound r) {fd : Nat} {buffer : ReadBuffer}
    {tlsConnections : SortedMap Nat Nat}
    {connections : SortedMap Nat Bytes} {unknownConnections : SortedMap Nat (List Bytes)}
    (hself : buffer.buffer fd = [] ∧ tlsConnections.find? fd = none)
    (hother : ∀ k ≠ fd, buffer.buffer k = r.buffer.buffer k ∧
      tlsConnections.find? k = r.tlsConnections.find? k)
    (hconn : ∀ k ∈ connections.keys, k ≠ fd ∧ k ∈ r.opened.keys)
    (hunknown : ∀ k ∈ unknownConnections.keys, k ≠ fd ∧ k ∈ r.opened.keys)
    (hapart : ∀ k ∈ connections.keys, k ∉ unknownConnections.keys) :
    Sound { r.close fd with
      buffer := buffer
      tlsConnections := tlsConnections
      connections := connections
      unknownConnections := unknownConnections } where
  opened k peer hk := by
    dsimp only [Reader.close] at hk ⊢
    rw [SortedMap.find?_filterKeys] at hk
    by_cases heq : k = fd
    · rw [if_neg (by simpa using heq)] at hk
      cases hk
    · rw [if_pos (by simpa using heq)] at hk
      rw [(hother k heq).1]
      exact h.opened k peer hk
  free hrun k hk := by
    dsimp only [Reader.close] at hk ⊢
    rw [SortedMap.find?_filterKeys] at hk
    by_cases heq : k = fd
    · rw [heq]
      exact hself
    · rw [if_pos (by simpa using heq)] at hk
      rw [(hother k heq).1, (hother k heq).2]
      exact h.free hrun k hk
  tls k peer number hk hnumber := by
    dsimp only [Reader.close] at hk hnumber
    rw [SortedMap.find?_filterKeys] at hk
    by_cases heq : k = fd
    · rw [if_neg (by simpa using heq)] at hk
      cases hk
    · rw [if_pos (by simpa using heq)] at hk
      exact h.tls k peer number hk ((hother k heq).2.symm.trans hnumber)
  known k hk := by
    obtain ⟨hne, hmem⟩ : k ≠ fd ∧ k ∈ r.opened.keys := hk.elim (hconn k) (hunknown k)
    obtain ⟨peer, hpeer⟩ := SortedMap.mem_keys_iff_find?.mp hmem
    refine SortedMap.mem_keys_iff_find?.mpr ⟨peer, ?_⟩
    rw [Reader.close, SortedMap.find?_filterKeys, if_pos (by simpa using hne)]
    exact hpeer
  apart := hapart
  closed peer hpeer := by
    rcases List.mem_append.mp hpeer with hpeer | hpeer
    · exact h.closed peer hpeer
    · rw [Option.mem_toList] at hpeer
      rw [h.opened fd peer hpeer]

/-- The tables lose entries, or a connection that is open moves from one to the other. -/
theorem Sound.move {r : Reader} (h : Sound r) {connections : SortedMap Nat Bytes}
    {unknownConnections : SortedMap Nat (List Bytes)}
    (hknown : ∀ k, k ∈ connections.keys ∨ k ∈ unknownConnections.keys → k ∈ r.opened.keys)
    (hapart : ∀ k ∈ connections.keys, k ∉ unknownConnections.keys) :
    Sound { r with connections := connections, unknownConnections := unknownConnections } :=
  ⟨h.opened, h.free, h.tls, hknown, hapart, h.closed⟩

theorem mem_keys_filter {α : Type} {m : SortedMap Nat α} {fd k : Nat}
    (h : k ∈ (m.filterKeys fun k => k ≠ fd).keys) : k ≠ fd ∧ k ∈ m.keys := by
  obtain ⟨v, hv⟩ := SortedMap.mem_keys_iff.mp h
  obtain ⟨hmem, hne⟩ := SortedMap.mem_entries_filterKeys.mp hv
  exact ⟨by simpa using hne, SortedMap.mem_keys_iff.mpr ⟨v, hmem⟩⟩

theorem opened_receive_of_mem {r : Reader} {fd k : Nat} {reception foreign : Reception}
    (h : k ∈ r.opened.keys) : k ∈ (r.receive fd reception foreign).1.opened.keys := by
  rw [receive]
  exact SortedMap.mem_keys_insert.mpr (.inr h)

theorem Sound.processRead {r : Reader} (h : Sound r) {fd : Nat} {reception foreign : Reception}
    {isConnected : Bytes → Bool} (hclean : Clean r (.readable fd reception foreign isConnected)) :
    Sound (r.processRead fd reception foreign isConnected) := by
  rw [Reader.processRead]
  split
  next hconn => exact h.receive (h.known fd (.inl hconn)) reception foreign
  next hconn =>
    cases hfind : r.unknownConnections.find? fd with
    | none => exact h
    | some sessions =>
        have hunknown : fd ∈ r.unknownConnections.keys :=
          SortedMap.mem_keys_iff_find?.mpr ⟨sessions, hfind⟩
        have hopen := h.known fd (.inr hunknown)
        have hreceive := h.receive hopen reception foreign
        have hclean := hclean hconn sessions hfind
        have hknown : ∀ k, k ∈ r.connections.keys ∨ k ∈ r.unknownConnections.keys →
            k ∈ (r.receive fd reception foreign).1.opened.keys := fun k hk =>
          opened_receive_of_mem (h.known k hk)
        have htables : (r.receive fd reception foreign).1.connections = r.connections ∧
            (r.receive fd reception foreign).1.unknownConnections = r.unknownConnections ∧
            (r.receive fd reception foreign).1.tlsConnections = r.tlsConnections :=
          ⟨rfl, rfl, rfl⟩
        generalize r.receive fd reception foreign = received at *
        obtain ⟨r', msgs⟩ := received
        cases msgs with
        | nil => exact hreceive
        | cons msg msgs =>
            obtain ⟨hconnections, hunknowns, htls⟩ := htables
            dsimp only at hconnections hunknowns htls hknown hclean hreceive ⊢
            rw [hunknowns]
            cases hroute : route sessions isConnected msg with
            | none =>
                obtain ⟨hbuffer, hentry⟩ := hclean msg rfl hroute
                refine hreceive.close ⟨hbuffer, htls ▸ hentry⟩ (fun _ _ => ⟨rfl, rfl⟩) (fun k hk => ?_)
                  (fun k hk => ?_) fun k hk hk' => ?_
                · rw [hconnections] at hk
                  exact ⟨fun heq => hconn (heq ▸ hk), hknown k (.inl hk)⟩
                · obtain ⟨hne, hk⟩ := mem_keys_filter hk
                  exact ⟨hne, hknown k (.inr hk)⟩
                · rw [hconnections] at hk
                  exact h.apart k hk (mem_keys_filter hk').2
            | some cpty =>
                refine hreceive.move (fun k hk => ?_) fun k hk hk' => ?_
                · rcases hk with hk | hk
                  · rw [hconnections] at hk
                    rcases SortedMap.mem_keys_insert.mp hk with rfl | hk
                    · exact hknown k (.inr hunknown)
                    · exact hknown k (.inl hk)
                  · exact hknown k (.inr (mem_keys_filter hk).2)
                · obtain ⟨hne, hk'⟩ := mem_keys_filter hk'
                  rw [hconnections] at hk
                  rcases SortedMap.mem_keys_insert.mp hk with heq | hk
                  · exact hne heq
                  · exact h.apart k hk hk'

theorem Sound.disconnect {r : Reader} (h : Sound r) (fd : Nat) : Sound (r.disconnect fd) := by
  have hself : (r.buffer.clear fd).buffer fd = [] ∧ (r.removeConnection fd).find? fd = none :=
    ⟨r.buffer.buffer_clear_self fd, by
      rw [removeConnection, SortedMap.find?_filterKeys, if_neg (by simp)]⟩
  have hother : ∀ k ≠ fd, (r.buffer.clear fd).buffer k = r.buffer.buffer k ∧
      (r.removeConnection fd).find? k = r.tlsConnections.find? k := by
    intro k hk
    refine ⟨r.buffer.buffer_clear_ne hk, ?_⟩
    rw [removeConnection, SortedMap.find?_filterKeys, if_pos (by simpa using hk)]
  have heq : r.disconnect fd = if fd ∈ r.connections.keys then
      { r.close fd with
        tlsConnections := r.removeConnection fd
        buffer := r.buffer.clear fd
        connections := r.connections.filterKeys fun k => k ≠ fd }
      else
      { r.close fd with
        tlsConnections := r.removeConnection fd
        buffer := r.buffer.clear fd
        unknownConnections := r.unknownConnections.filterKeys fun k => k ≠ fd } := rfl
  rw [heq]
  split
  next hconn =>
    refine h.close hself hother (fun k hk => ?_) (fun k hk => ?_) fun k hk => ?_
    · obtain ⟨hne, hk⟩ := mem_keys_filter hk
      exact ⟨hne, h.known k (.inl hk)⟩
    · refine ⟨?_, h.known k (.inr hk)⟩
      rintro rfl
      exact h.apart k hconn hk
    · exact h.apart k (mem_keys_filter hk).2
  next hconn =>
    refine h.close hself hother (fun k hk => ?_) (fun k hk => ?_) fun k hk hk' => ?_
    · exact ⟨fun heq => hconn (heq ▸ hk), h.known k (.inl hk)⟩
    · obtain ⟨hne, hk⟩ := mem_keys_filter hk
      exact ⟨hne, h.known k (.inr hk)⟩
    · exact h.apart k hk (mem_keys_filter hk').2

theorem Sound.stop {r : Reader} (h : Sound r) : Sound r.stop where
  opened fd peer hfind := by cases hfind
  free hrun := by cases hrun
  tls fd peer number hfind := by cases hfind
  known fd hk := by
    rcases hk with hk | hk
    · cases hk
    · cases hk
  apart fd hk := by cases hk
  closed peer hpeer := by
    rcases List.mem_append.mp hpeer with hpeer | hpeer
    · exact h.closed peer hpeer
    · obtain ⟨⟨fd, peer'⟩, hmem, rfl⟩ := List.mem_map.mp hpeer
      rw [h.opened fd peer' (SortedMap.find?_eq_some_iff.mpr hmem)]

theorem Sound.step {r : Reader} (h : Sound r) {i : ReaderEvent} (hpossible : Possible r i)
    (hclean : Clean r i) : Sound (step i r) := by
  cases i with
  | accept fd sessions tls =>
      refine h.open hpossible.1 hpossible.2 (fun k hk => .inr hk)
        (fun k hk => SortedMap.mem_keys_insert.mp hk) fun k hk hk' => ?_
      rcases SortedMap.mem_keys_insert.mp hk' with rfl | hk'
      · exact hpossible.2 (h.known k (.inl hk))
      · exact h.apart k hk hk'
  | connect fd session tls =>
      refine h.open hpossible.1 hpossible.2 (fun k hk => SortedMap.mem_keys_insert.mp hk)
        (fun k hk => .inr hk) fun k hk hk' => ?_
      rcases SortedMap.mem_keys_insert.mp hk with rfl | hk
      · exact hpossible.2 (h.known k (.inr hk'))
      · exact h.apart k hk hk'
  | readable fd reception foreign isConnected => exact h.processRead hclean
  | disconnect fd => exact h.disconnect fd
  | stop => exact h.stop

/-- A connection gives the messages of what it received, and of nothing else. -/
theorem messages_own {r : Reader}
    (h : Run.Reached new step (fun r i => Possible r i ∧ Clean r i) r) :
    ∀ peer ∈ r.peers, peer.messages = (extractReceptions [] peer.receptions).1 := by
  have hsound : Sound r := h.invariant sound_new fun r i hi hr => hr.step hi.1 hi.2
  intro peer hpeer
  rcases List.mem_append.mp hpeer with hpeer | hpeer
  · exact (hsound.closed peer hpeer).symm
  · obtain ⟨⟨fd, peer'⟩, hmem, rfl⟩ := List.mem_map.mp hpeer
    rw [hsound.opened fd peer' (SortedMap.find?_eq_some_iff.mpr hmem)]

/-- In runs where each connection that is rejected leaves an empty buffer and no SSL object,
connections that receive the same give the same messages, whatever earlier ones sent. -/
theorem messages_isolated {r r' : Reader}
    (h : Run.Reached new step (fun r i => Possible r i ∧ Clean r i) r)
    (h' : Run.Reached new step (fun r i => Possible r i ∧ Clean r i) r') {peer peer' : Peer}
    (hpeer : peer ∈ r.peers) (hpeer' : peer' ∈ r'.peers)
    (hsame : peer.receptions = peer'.receptions) : peer.messages = peer'.messages := by
  rw [messages_own h peer hpeer, messages_own h' peer' hpeer', hsame]

/-- A frame, `8=A`, `9=0` and `10=1`, that names no session. -/
def strayFrame : Bytes := [56, 61, 65, 1, 57, 61, 48, 1, 49, 48, 61, 49, 1]

/-- The frame, in one chunk. -/
def strayReception : Reception := ⟨[⟨strayFrame, by decide, by decide⟩], .wouldBlock⟩

/-- The frame, and the beginning of another one. -/
def dirtyReception : Reception := ⟨[⟨strayFrame ++ [56, 61], by decide, by decide⟩], .wouldBlock⟩

/-- What an SSL object makes of bytes that are no records of its connection. -/
def brokenReception : Reception := ⟨[], .closed⟩

/-- A connection that receives this and is rejected. -/
def rejected (r : Reader) (reception : Reception) (tls : Bool) : Reader :=
  step (.readable 5 reception brokenReception fun _ => false) (step (.accept 5 [] tls) r)

theorem reached_rejected {allowed : Reader → ReaderEvent → Prop} {r : Reader}
    (h : Run.Reached new step allowed r) {reception : Reception} {tls : Bool}
    (haccept : allowed r (.accept 5 [] tls))
    (hread : allowed (step (.accept 5 [] tls) r)
      (.readable 5 reception brokenReception fun _ => false)) :
    Run.Reached new step allowed (r.rejected reception tls) := (h.step haccept).step hread

/-- The second of two connections that are rejected gives what the first one gives. -/
theorem messages_isolated_test :
    ((((new.rejected strayReception false).rejected strayReception false).peers).getLast
        (by decide)).messages =
      ((new.rejected strayReception false).peers.getLast (by decide)).messages := by
  have hclean : ∀ r : Reader,
      (r.receive 5 strayReception brokenReception).1.buffer.buffer 5 = [] ∧
        r.tlsConnections.find? 5 = none →
      Clean r (.readable 5 strayReception brokenReception fun _ => false) :=
    fun r h _ _ _ _ _ _ => h
  have hfirst : Run.Reached new step (fun r i => Possible r i ∧ Clean r i)
      (new.rejected strayReception false) :=
    reached_rejected .init ⟨⟨rfl, by decide⟩, trivial⟩ ⟨trivial, hclean _ (by decide)⟩
  have hsecond : Run.Reached new step (fun r i => Possible r i ∧ Clean r i)
      ((new.rejected strayReception false).rejected strayReception false) :=
    reached_rejected hfirst ⟨⟨rfl, by decide⟩, trivial⟩ ⟨trivial, hclean _ (by decide)⟩
  exact messages_isolated hsecond hfirst (List.getLast_mem _) (List.getLast_mem _) rfl

/-- What a rejected connection left over is in the message of the next one. -/
theorem not_messages_isolated : ¬∀ r r' : Reader, Run.Reached new step Possible r →
    Run.Reached new step Possible r' → ∀ peer ∈ r.peers, ∀ peer' ∈ r'.peers,
      peer.receptions = peer'.receptions → peer.messages = peer'.messages := by
  intro h
  have hfirst : Run.Reached new step Possible (new.rejected dirtyReception false) :=
    reached_rejected .init ⟨rfl, by decide⟩ trivial
  have hsecond : Run.Reached new step Possible
      ((new.rejected dirtyReception false).rejected strayReception false) :=
    reached_rejected hfirst ⟨rfl, by decide⟩ trivial
  have halone : Run.Reached new step Possible (new.rejected strayReception false) :=
    reached_rejected .init ⟨rfl, by decide⟩ trivial
  have hmessages := h _ _ hsecond halone _ (List.getLast_mem (by decide)) _
    (List.getLast_mem (by decide)) rfl
  exact absurd hmessages (by decide)

/-- A connection without TLS that gets the descriptor of a rejected one with TLS is read through
the SSL object of that, and gives nothing. -/
example : (((new.rejected strayReception true).rejected strayReception false).peers.map
    Peer.messages) = [[strayFrame], []] := by decide

end Reader

end OpenFix
