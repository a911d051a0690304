import OpenFix.Config
import OpenFix.Lib.AssocList
import OpenFix.Lib.Joined
import OpenFix.Lib.Run
import OpenFix.Store

/-!
# Two sessions of an application

What keeps two sessions apart is the strings that their CompIDs are joined to: the
path of the store file, with `-` between the two, and the key of the acceptor, with
`:`.  The file writer has one instance for a path, and an acceptor one handler for a
key.  A CompID may hold the separator, and then two pairs may be joined to the same
string.

Which file a path names is up to the operating system.  All that is assumed is that
plain names name different files of a directory.
-/

namespace OpenFix

open Run Joined

/-! ## Names -/

/-- The settings of a session with the port that an acceptor listens on. -/
structure AcceptorSettings extends SessionSettings where
  acceptPort : Int := 0

namespace AcceptorSettings

def compIDs (settings : AcceptorSettings) : Bytes × Bytes :=
  (settings.senderCompID, settings.targetCompID)

def getSessionID (settings : AcceptorSettings) : Bytes :=
  settings.senderCompID ++ ascii ":" ++ settings.targetCompID

/-- The name of the store file in its directory. -/
def storeName (settings : AcceptorSettings) : Bytes :=
  settings.senderCompID ++ ascii "-" ++ settings.targetCompID ++ ascii ".data"

/-- The port as an `int`. -/
def port (settings : AcceptorSettings) : Int := i32 settings.acceptPort

def IsAcceptor (settings : AcceptorSettings) : Prop := settings.getSessionType = .ok .acceptor

theorem getSessionID_eq (settings : AcceptorSettings) :
    settings.getSessionID = join 58 settings.compIDs := by
  simp [getSessionID, join, compIDs, ascii]

theorem storeName_eq (settings : AcceptorSettings) :
    settings.storeName = join 45 settings.compIDs ++ ascii ".data" := by
  simp [storeName, join, compIDs, ascii]

end AcceptorSettings

/-- A name of one component, which a path can end in. -/
structure PlainName (name : Bytes) : Prop where
  noSlash : 47 ∉ name
  noNul : 0 ∉ name
  notDots : name ∉ [[], ascii ".", ascii ".."]

/-- The directory of the store files. -/
structure DataDirectory (F : Type) where
  /-- `DataPath`. -/
  dataPath : Bytes
  /-- The file that a path names. -/
  resolve : Bytes → F
  resolve_plain : ∀ name name', PlainName name → PlainName name' →
    resolve (dataPath ++ ascii "/" ++ name) = resolve (dataPath ++ ascii "/" ++ name') → name = name'

/-! ## The store -/

/-- A step of a session on its store, or of the writer thread on the instance of it. -/
inductive StoreStep where
  | store (seqnum : Int) (msg : Bytes)
  | setSenderSeqNum (num : Int)
  | setTargetSeqNum (num : Int)
  /-- The two stores of `reset`. -/
  | resetFlag
  | resetDirty
  | flush

/-- What the writer instance does. -/
def StoreStep.writerStep : StoreStep → WriterStep
  | .store seqnum msg => .writeRaw (0 :: (intBytes seqnum ++ leBytes 8 msg.length)) msg
  | .setSenderSeqNum num => .write (1 :: intBytes num)
  | .setTargetSeqNum num => .write (2 :: intBytes num)
  | .resetFlag => .resetFlag
  | .resetDirty => .resetDirty
  | .flush => .flush

/-- The instances of the file writer, by path, and what the files hold. -/
structure FileStore (F : Type) where
  instances : List (Bytes × WriterInstance)
  disk : F → Bytes

variable {F : Type}

namespace FileStore

def createInstance (fileName : Bytes) (s : FileStore F) : FileStore F :=
  { s with instances := AssocList.insert fileName (.new false) s.instances }

/-- A step of an instance, which finds its file as it is by now. -/
def write [DecidableEq F] (dir : DataDirectory F) (path : Bytes) (i : WriterStep)
    (s : FileStore F) : FileStore F :=
  match AssocList.find? path s.instances with
  | none => s
  | some w =>
      match WriterInstance.step { w with file := s.disk (dir.resolve path) } i with
      | none => s
      | some w =>
          { instances := AssocList.set path w s.instances
            disk := Function.update s.disk (dir.resolve path) w.file }

end FileStore

def DataDirectory.storePath (dir : DataDirectory F) (settings : AcceptorSettings) : Bytes :=
  dir.dataPath ++ ascii "/" ++ settings.storeName

def FileStore.createStore (dir : DataDirectory F) (settings : AcceptorSettings) (s : FileStore F) :
    FileStore F :=
  s.createInstance (dir.storePath settings)

/-! ## The acceptors -/

/-- For each port the handlers by their keys.  A handler goes by the name of its session. -/
abbrev Acceptors := List (Int × List (Bytes × Bytes))

namespace Acceptors

/-- The handler that a connection to the port is bound to, if its messages give the key. -/
def select (port : Int) (key : Bytes) (m : Acceptors) : Option Bytes :=
  (AssocList.find? port m).bind (AssocList.find? key)

def hasAcceptor (settings : AcceptorSettings) (m : Acceptors) : Bool :=
  (m.select settings.port settings.getSessionID).isSome

/-- A new socket may fail to be bound. -/
def addAcceptor (settings : AcceptorSettings) (handler : Bytes) (bound : Bool) (m : Acceptors) :
    Acceptors :=
  match AssocList.find? settings.port m with
  | some sessions =>
      AssocList.set settings.port (AssocList.set settings.getSessionID handler sessions) m
  | none =>
      if bound then AssocList.set settings.port [(settings.getSessionID, handler)] m else m

def removeAcceptor (settings : AcceptorSettings) (m : Acceptors) : Acceptors :=
  match AssocList.find? settings.port m with
  | none => m
  | some sessions =>
      let sessions := AssocList.erase settings.getSessionID sessions
      if sessions.isEmpty then AssocList.erase settings.port m
      else AssocList.set settings.port sessions m

/-- `NetworkHandler::start`. -/
def start (settings : AcceptorSettings) (handler : Bytes) (bound : Bool) (m : Acceptors) :
    Acceptors :=
  match settings.getSessionType with
  | .ok .acceptor =>
      if m.hasAcceptor settings then m else m.addAcceptor settings handler bound
  | .ok .initiator | .error _ => m

/-- `NetworkHandler::stop`. -/
def stop (settings : AcceptorSettings) (m : Acceptors) : Acceptors :=
  match settings.getSessionType with
  | .ok .acceptor => m.removeAcceptor settings
  | .ok .initiator | .error _ => m

end Acceptors

/-! ## The application -/

structure Application (F : Type) where
  sessionMap : List (Bytes × AcceptorSettings)
  store : FileStore F
  acceptors : Acceptors

inductive ApplicationStep where
  | createSession (sessionName : Bytes) (settings : AcceptorSettings)
  | store (sessionName : Bytes) (i : StoreStep)
  | start (sessionName : Bytes) (bound : Bool)
  | stop (sessionName : Bytes)

/-- The session that takes the step. -/
def ApplicationStep.actor : ApplicationStep → Option Bytes
  | .createSession _ _ => none
  | .store sessionName _ | .start sessionName _ | .stop sessionName => some sessionName

namespace Application

/-- An application without sessions, on a disk with some files. -/
def new (disk : F → Bytes) : Application F := ⟨[], ⟨[], disk⟩, []⟩

def createSession (dir : DataDirectory F) (sessionName : Bytes) (settings : AcceptorSettings)
    (app : Application F) : Except Bytes (Application F) :=
  if (AssocList.find? sessionName app.sessionMap).isSome then
    .error (ascii "Session already exists with name: " ++ sessionName)
  else
    .ok { app with
      sessionMap := AssocList.set sessionName settings app.sessionMap
      store := app.store.createStore dir settings }

variable [DecidableEq F]

def step (dir : DataDirectory F) (i : ApplicationStep) (app : Application F) : Application F :=
  match i with
  | .createSession sessionName settings =>
      match app.createSession dir sessionName settings with
      | .ok app => app
      | .error _ => app
  | .store sessionName i =>
      match AssocList.find? sessionName app.sessionMap with
      | none => app
      | some settings =>
          { app with store := app.store.write dir (dir.storePath settings) i.writerStep }
  | .start sessionName bound =>
      match AssocList.find? sessionName app.sessionMap with
      | none => app
      | some settings =>
          { app with acceptors := app.acceptors.start settings sessionName bound }
  | .stop sessionName =>
      match AssocList.find? sessionName app.sessionMap with
      | none => app
      | some settings => { app with acceptors := app.acceptors.stop settings }

/-- What `load` returns for a session. -/
def load (dir : DataDirectory F) (settings : AcceptorSettings) (app : Application F) :
    Except String SessionData :=
  StoreHandle.load (app.store.disk (dir.resolve (dir.storePath settings)))

/-- The application has created both sessions, under different names. -/
structure Created (disk : F → Bytes) (dir : DataDirectory F) (a b : AcceptorSettings)
    (name name' : Bytes) (app : Application F) : Prop where
  reached : Reached (new disk) (step dir) (fun _ _ => True) app
  differ : name ≠ name'
  first : AssocList.find? name app.sessionMap = some a
  second : AssocList.find? name' app.sessionMap = some b

/-- Whatever is done in an application, what `load` returns for `b` is what it returns
without the steps of `a`, and the key of `a` does not select the handler of `b`. -/
def Undisturbed (dir : DataDirectory F) (a b : AcceptorSettings) : Prop :=
  ∀ disk name name' app, Created disk dir a b name name' app →
    (∀ steps, (runOf (step dir) app steps).load dir b =
      (runOf (step dir) app (steps.filter fun i => i.actor ≠ some name)).load dir b) ∧
    (a.IsAcceptor → app.acceptors.select a.port a.getSessionID ≠ some name')

/-- Neither session has to do with the other. -/
def Isolated (dir : DataDirectory F) (a b : AcceptorSettings) : Prop :=
  Undisturbed dir a b ∧ Undisturbed dir b a

end Application

/-! ## Names that are the same -/

/-- The CompIDs can be part of a plain name. -/
def AcceptorSettings.Plain (settings : AcceptorSettings) : Prop :=
  ∀ b ∈ [(47 : UInt8), 0], b ∉ settings.senderCompID ∧ b ∉ settings.targetCompID

instance (settings : AcceptorSettings) : Decidable settings.Plain :=
  inferInstanceAs (Decidable (∀ b ∈ [(47 : UInt8), 0],
    b ∉ settings.senderCompID ∧ b ∉ settings.targetCompID))

/-- No sender goes on, over a separator, with what the target of the other begins with.
If a CompID is not part of a plain name, the operating system must tell the files apart. -/
structure Apart (dir : DataDirectory F) (a b : AcceptorSettings) : Prop where
  file : if a.Plain ∧ b.Plain then ¬Shifted 45 a.compIDs b.compIDs ∧ ¬Shifted 45 b.compIDs a.compIDs
    else dir.resolve (dir.storePath a) ≠ dir.resolve (dir.storePath b)
  key : a.IsAcceptor → b.IsAcceptor → a.port = b.port →
    ¬Shifted 58 a.compIDs b.compIDs ∧ ¬Shifted 58 b.compIDs a.compIDs

namespace AcceptorSettings

variable {a b : AcceptorSettings}

theorem join_ne_iff (hne : a.compIDs ≠ b.compIDs) (sep : UInt8) :
    join sep a.compIDs ≠ join sep b.compIDs ↔
      ¬Shifted sep a.compIDs b.compIDs ∧ ¬Shifted sep b.compIDs a.compIDs := by
  rw [Ne, join_eq_iff, not_or, not_or, and_iff_right hne]

theorem Plain.plainName (h : a.Plain) : PlainName a.storeName where
  noSlash := by
    obtain ⟨hsender, htarget⟩ := h 47 (by decide)
    simp [storeName, hsender, htarget, ascii]
  noNul := by
    obtain ⟨hsender, htarget⟩ := h 0 (by decide)
    simp [storeName, hsender, htarget, ascii]
  notDots := by
    -- The name is too long.
    intro hmem
    have hlength : a.storeName.length < 3 := by
      simp only [List.mem_cons, List.not_mem_nil, or_false] at hmem
      rcases hmem with h | h | h
      · rw [h]
        decide
      · rw [h]
        decide
      · rw [h]
        decide
    have hlong : (ascii ".data").length = 5 := by decide
    rw [storeName, List.length_append, hlong] at hlength
    omega

theorem storeName_inj : a.storeName = b.storeName ↔ join 45 a.compIDs = join 45 b.compIDs := by
  rw [storeName_eq, storeName_eq]
  exact List.append_left_inj _

end AcceptorSettings

variable {dir : DataDirectory F} {a b : AcceptorSettings}

/-- The files are different. -/
theorem resolve_ne_iff (hne : a.compIDs ≠ b.compIDs) :
    dir.resolve (dir.storePath a) ≠ dir.resolve (dir.storePath b) ↔
      if a.Plain ∧ b.Plain then ¬Shifted 45 a.compIDs b.compIDs ∧ ¬Shifted 45 b.compIDs a.compIDs
      else dir.resolve (dir.storePath a) ≠ dir.resolve (dir.storePath b) := by
  split
  next hplain =>
    rw [← AcceptorSettings.join_ne_iff hne, Ne, Ne, ← AcceptorSettings.storeName_inj, not_iff_not]
    constructor
    · exact dir.resolve_plain _ _ hplain.1.plainName hplain.2.plainName
    · intro hname
      rw [DataDirectory.storePath, DataDirectory.storePath, hname]
  next => exact Iff.rfl

/-! ## Different files -/

/-- The file holds the same, and so do the instances that write to it. -/
structure SameFile (dir : DataDirectory F) (f : F) (s t : FileStore F) : Prop where
  disk : s.disk f = t.disk f
  instances : ∀ path, dir.resolve path = f →
    AssocList.find? path s.instances = AssocList.find? path t.instances

namespace SameFile

variable {f : F} {r s t : FileStore F}

theorem refl (s : FileStore F) : SameFile dir f s s := ⟨rfl, fun _ _ => rfl⟩

theorem symm (h : SameFile dir f s t) : SameFile dir f t s :=
  ⟨h.disk.symm, fun path hpath => (h.instances path hpath).symm⟩

theorem trans (h : SameFile dir f r s) (h' : SameFile dir f s t) : SameFile dir f r t :=
  ⟨h.disk.trans h'.disk, fun path hpath => (h.instances path hpath).trans (h'.instances path hpath)⟩

theorem createInstance (h : SameFile dir f s t) (fileName : Bytes) :
    SameFile dir f (s.createInstance fileName) (t.createInstance fileName) where
  disk := h.disk
  instances path hpath := by
    unfold FileStore.createInstance
    dsimp only
    by_cases heq : path = fileName
    · subst heq
      rw [AssocList.find?_insert_self, AssocList.find?_insert_self, h.instances path hpath]
    · rw [AssocList.find?_insert_ne heq, AssocList.find?_insert_ne heq, h.instances path hpath]

variable [DecidableEq F]

/-- An instance of another file leaves the file alone. -/
theorem write_other {path : Bytes} (hne : dir.resolve path ≠ f) (i : WriterStep) (s : FileStore F) :
    SameFile dir f (s.write dir path i) s := by
  unfold FileStore.write
  split
  next => exact refl s
  next =>
    split
    next => exact refl s
    next =>
      refine ⟨Function.update_of_ne hne.symm _ _, fun path' hpath' => ?_⟩
      have hpath : path' ≠ path := by
        rintro rfl
        exact hne hpath'
      exact AssocList.find?_set_ne hpath _ _

/-- An instance of the file does the same in both. -/
theorem write (h : SameFile dir f s t) (path : Bytes) (i : WriterStep) :
    SameFile dir f (s.write dir path i) (t.write dir path i) := by
  by_cases hf : dir.resolve path = f
  · subst hf
    unfold FileStore.write
    rw [h.instances path rfl, h.disk]
    split
    next => exact h
    next =>
      split
      next => exact h
      next w _ _ =>
        refine ⟨?_, fun path' hpath' => ?_⟩
        · dsimp only
          rw [Function.update_self, Function.update_self]
        · dsimp only
          by_cases heq : path' = path
          · rw [heq, AssocList.find?_set_self, AssocList.find?_set_self]
          · rw [AssocList.find?_set_ne heq, AssocList.find?_set_ne heq, h.instances path' hpath']
  · exact ((write_other hf i s).trans h).trans (write_other hf i t).symm

end SameFile

namespace Application

variable [DecidableEq F] {app app' : Application F}

/-- A session that was created stays. -/
theorem find?_sessionMap_step {name : Bytes} {settings : AcceptorSettings}
    (h : AssocList.find? name app.sessionMap = some settings) (i : ApplicationStep) :
    AssocList.find? name (step dir i app).sessionMap = some settings := by
  cases i with
  | createSession sessionName settings' =>
      rw [step, createSession]
      split
      next happ =>
        split at happ
        next => cases happ
        next hnone =>
          cases happ
          have hne : name ≠ sessionName := by
            rintro rfl
            rw [h] at hnone
            exact hnone rfl
          exact (AssocList.find?_set_ne hne _ _).trans h
      next => exact h
  | store sessionName i =>
      rw [step]
      split
      next => exact h
      next => exact h
  | start sessionName bound =>
      rw [step]
      split
      next => exact h
      next => exact h
  | stop sessionName =>
      rw [step]
      split
      next => exact h
      next => exact h

/-- A step of `a` is for `b` as if it was not taken. -/
theorem step_own {name : Bytes} {i : ApplicationStep} (hactor : i.actor = some name)
    (h : AssocList.find? name app.sessionMap = some a)
    (hne : dir.resolve (dir.storePath a) ≠ dir.resolve (dir.storePath b)) :
    (step dir i app).sessionMap = app.sessionMap ∧
      SameFile dir (dir.resolve (dir.storePath b)) (step dir i app).store app.store := by
  cases i with
  | createSession sessionName settings => cases hactor
  | store sessionName i =>
      cases hactor
      rw [step, h]
      exact ⟨rfl, SameFile.write_other hne _ _⟩
  | start sessionName bound =>
      cases hactor
      rw [step, h]
      exact ⟨rfl, SameFile.refl _⟩
  | stop sessionName =>
      cases hactor
      rw [step, h]
      exact ⟨rfl, SameFile.refl _⟩

/-- A step with the same sessions does the same to the file. -/
theorem step_same {f : F} (hsessions : app.sessionMap = app'.sessionMap)
    (hfile : SameFile dir f app.store app'.store) (i : ApplicationStep) :
    (step dir i app).sessionMap = (step dir i app').sessionMap ∧
      SameFile dir f (step dir i app).store (step dir i app').store := by
  cases i with
  | createSession sessionName settings =>
      rw [step, step, createSession, createSession, hsessions]
      split
      next happ =>
        split at happ
        next => cases happ
        next hnone =>
          cases happ
          rw [if_neg hnone]
          exact ⟨rfl, hfile.createInstance _⟩
      next happ =>
        split at happ
        next hsome =>
          rw [if_pos hsome]
          exact ⟨hsessions, hfile⟩
        next => cases happ
  | store sessionName i =>
      rw [step, step, hsessions]
      split
      next => exact ⟨hsessions, hfile⟩
      next => exact ⟨rfl, hfile.write _ _⟩
  | start sessionName bound =>
      rw [step, step, hsessions]
      split
      next => exact ⟨hsessions, hfile⟩
      next => exact ⟨rfl, hfile⟩
  | stop sessionName =>
      rw [step, step, hsessions]
      split
      next => exact ⟨hsessions, hfile⟩
      next => exact ⟨rfl, hfile⟩

/-- The file of `b` is at the end what it is without the steps of `a`. -/
theorem run_sameFile {name : Bytes} (hne : dir.resolve (dir.storePath a) ≠
    dir.resolve (dir.storePath b)) : ∀ (steps : List ApplicationStep) {app app' : Application F},
    AssocList.find? name app.sessionMap = some a → app.sessionMap = app'.sessionMap →
    SameFile dir (dir.resolve (dir.storePath b)) app.store app'.store →
    SameFile dir (dir.resolve (dir.storePath b)) (runOf (step dir) app steps).store
      (runOf (step dir) app' (steps.filter fun i => i.actor ≠ some name)).store
  | [], _, _, _, _, hfile => hfile
  | i :: steps, app, app', hname, hsessions, hfile => by
      have hname' : AssocList.find? name (step dir i app).sessionMap = some a :=
        find?_sessionMap_step hname i
      by_cases hactor : i.actor = some name
      · rw [List.filter_cons_of_neg (by simp [hactor])]
        obtain ⟨hsame, hown⟩ := step_own hactor hname hne
        exact run_sameFile hne steps hname' (hsame.trans hsessions) (hown.trans hfile)
      · rw [List.filter_cons_of_pos (by simp [hactor])]
        obtain ⟨hsame, hboth⟩ := step_same hsessions hfile i
        exact run_sameFile hne steps hname' hsame hboth

end Application

/-! ## Different keys -/

namespace Acceptors

/-- Every registration satisfies `P`. -/
def All (P : Int → Bytes → Bytes → Prop) (m : Acceptors) : Prop :=
  ∀ entry ∈ m, ∀ registration ∈ entry.2, P entry.1 registration.1 registration.2

variable {P : Int → Bytes → Bytes → Prop} {m : Acceptors} {settings : AcceptorSettings}
  {handler : Bytes}

theorem All.select (h : m.All P) {port : Int} {key : Bytes}
    (hselect : m.select port key = some handler) : P port key handler := by
  obtain ⟨sessions, hsessions, hkey⟩ := Option.bind_eq_some_iff.mp hselect
  exact h _ (AssocList.mem_of_find? hsessions) _ (AssocList.mem_of_find? hkey)

theorem All.set (h : m.All P) {port : Int} {sessions : List (Bytes × Bytes)}
    (hsessions : ∀ registration ∈ sessions, P port registration.1 registration.2) :
    All P (AssocList.set port sessions m) := by
  intro entry hentry
  rcases AssocList.mem_set hentry with rfl | hentry
  · exact hsessions
  · exact h entry hentry

theorem All.start (h : m.All P) {bound : Bool}
    (hnew : settings.IsAcceptor → P settings.port settings.getSessionID handler) :
    All P (m.start settings handler bound) := by
  unfold Acceptors.start
  split
  next hacceptor =>
    have hnew := hnew hacceptor
    split
    next => exact h
    next =>
      unfold addAcceptor
      split
      next sessions hsessions =>
        refine h.set fun registration hregistration => ?_
        rcases AssocList.mem_set hregistration with rfl | hregistration
        · exact hnew
        · exact h _ (AssocList.mem_of_find? hsessions) registration hregistration
      next =>
        split
        next =>
          refine h.set fun registration hregistration => ?_
          rw [List.mem_singleton.mp hregistration]
          exact hnew
        next => exact h
  next => exact h
  next => exact h

theorem All.stop (h : m.All P) : All P (m.stop settings) := by
  unfold Acceptors.stop
  split
  next =>
    unfold removeAcceptor
    split
    next => exact h
    next sessions hsessions =>
      dsimp only
      split
      next => exact fun entry hentry => h entry (AssocList.mem_of_mem_erase hentry)
      next =>
        refine h.set fun registration hregistration => ?_
        have hmem := AssocList.mem_of_mem_erase hregistration
        exact h _ (AssocList.mem_of_find? hsessions) registration hmem
  next => exact h
  next => exact h

theorem All.mono {Q : Int → Bytes → Bytes → Prop} (h : m.All P)
    (himp : ∀ {port key handler}, P port key handler → Q port key handler) : m.All Q :=
  fun entry hentry registration hregistration => himp (h entry hentry registration hregistration)

end Acceptors

namespace Application

variable [DecidableEq F] {app : Application F}

/-- A handler is registered with its own port and key. -/
def Registered (app : Application F) (port : Int) (key handler : Bytes) : Prop :=
  ∃ settings, AssocList.find? handler app.sessionMap = some settings ∧ settings.IsAcceptor ∧
    port = settings.port ∧ key = settings.getSessionID

theorem registered_step (h : app.acceptors.All app.Registered) (i : ApplicationStep) :
    (step dir i app).acceptors.All (step dir i app).Registered := by
  have hmono : app.acceptors.All (step dir i app).Registered :=
    h.mono fun ⟨settings, hname, hrest⟩ => ⟨settings, find?_sessionMap_step hname i, hrest⟩
  cases i with
  | createSession sessionName settings =>
      rw [step] at hmono ⊢
      split at hmono
      next happ =>
        unfold createSession at happ
        split at happ
        next => cases happ
        next =>
          cases happ
          exact hmono
      next => exact h
  | store sessionName i =>
      rw [step] at hmono ⊢
      split at hmono
      next => exact h
      next => exact hmono
  | start sessionName bound =>
      rw [step] at hmono ⊢
      cases hname : AssocList.find? sessionName app.sessionMap with
      | none => exact h
      | some settings =>
          rw [hname] at hmono
          exact hmono.start fun hacceptor => ⟨settings, hname, hacceptor, rfl, rfl⟩
  | stop sessionName =>
      rw [step] at hmono ⊢
      split at hmono
      next => exact h
      next => exact hmono.stop

theorem registered_run {disk : F → Bytes} (h : Reached (new disk) (step dir) (fun _ _ => True) app) :
    app.acceptors.All app.Registered :=
  h.invariant (P := fun app => app.acceptors.All app.Registered)
    (fun _ hentry => absurd hentry List.not_mem_nil) fun _ i _ h => registered_step h i

theorem undisturbed (hfile : dir.resolve (dir.storePath a) ≠ dir.resolve (dir.storePath b))
    (hkey : a.IsAcceptor → b.IsAcceptor → a.port = b.port → a.getSessionID ≠ b.getSessionID) :
    Undisturbed dir a b := by
  intro disk name name' app h
  constructor
  · intro steps
    have hsame := run_sameFile hfile steps h.first rfl (SameFile.refl app.store)
    exact congrArg StoreHandle.load hsame.disk
  · intro hacceptor hselect
    obtain ⟨settings, hsettings, hacceptor', hport, hid⟩ := (registered_run h.reached).select hselect
    rw [h.second] at hsettings
    cases hsettings
    exact hkey hacceptor hacceptor' hport hid

end Application

/-! ## The same name -/

/-- The instance of a path, with what its file holds. -/
structure FileStore.Holds (dir : DataDirectory F) (path : Bytes) (w : WriterInstance)
    (s : FileStore F) : Prop where
  instances : AssocList.find? path s.instances = some w
  disk : s.disk (dir.resolve path) = w.file

theorem FileStore.Holds.write [DecidableEq F] {path : Bytes} {w w' : WriterInstance}
    {s : FileStore F} (h : s.Holds dir path w) {i : WriterStep} (hw : w.step i = some w') :
    (s.write dir path i).Holds dir path w' := by
  have hfresh : ({ w with file := s.disk (dir.resolve path) } : WriterInstance) = w := by
    rw [h.disk]
  unfold FileStore.write
  rw [h.instances]
  dsimp only
  rw [hfresh, hw]
  exact ⟨AssocList.find?_set_self _ _ _, Function.update_self _ _ _⟩

/-- Names without separators are apart. -/
theorem apart_of_plain (ha : a.Plain) (hb : b.Plain)
    (hsep : ∀ sep ∈ [(45 : UInt8), 58], sep ∉ a.senderCompID ∧ sep ∉ b.senderCompID) :
    Apart dir a b where
  file := by
    rw [if_pos ⟨ha, hb⟩]
    obtain ⟨hsepa, hsepb⟩ := hsep 45 (by decide)
    exact ⟨fun h => hsepb h.mem.2, fun h => hsepa h.mem.2⟩
  key _ _ _ := by
    obtain ⟨hsepa, hsepb⟩ := hsep 58 (by decide)
    exact ⟨fun h => hsepb h.mem.2, fun h => hsepa h.mem.2⟩

namespace Application

variable [DecidableEq F]

/-- What the steps of a session do to its instance. -/
theorem run_store {name : Bytes} : ∀ {steps : List StoreStep} {w w' : WriterInstance}
    {app : Application F}, AssocList.find? name app.sessionMap = some a →
    app.store.Holds dir (dir.storePath a) w →
    (steps.map StoreStep.writerStep).foldlM WriterInstance.step w = some w' →
    (runOf (step dir) app (steps.map (.store name))).store.Holds dir (dir.storePath a) w'
  | [], _, _, _, _, h, hrun => by
      cases hrun
      exact h
  | i :: steps, w, w', app, hname, h, hrun => by
      rw [List.map_cons, List.foldlM_cons] at hrun
      obtain ⟨next, hnext, hrest⟩ := Option.bind_eq_some_iff.mp hrun
      have hstep : step dir (.store name i) app =
          { app with store := app.store.write dir (dir.storePath a) i.writerStep } := by
        rw [step, hname]
      have hholds : (step dir (.store name i) app).store.Holds dir (dir.storePath a) next := by
        rw [hstep]
        exact h.write hnext
      have hname : AssocList.find? name (step dir (.store name i) app).sessionMap = some a :=
        find?_sessionMap_step hname (.store name i)
      have hrun := run_store hname hholds hrest
      exact hrun

/-- An application with two sessions, which are called `0` and `1`, and no files. -/
def pair (dir : DataDirectory F) (a b : AcceptorSettings) : Application F :=
  runOf (step dir) (new fun _ => []) [.createSession [0] a, .createSession [1] b]

theorem created_pair : Created (fun _ => []) dir a b [0] [1] (pair dir a b) where
  reached := Reached.init.runOf (fun _ _ => True.intro) _
  differ := by decide
  first := rfl
  second := rfl

theorem holds_pair : (pair dir a b).store.Holds dir (dir.storePath a) (.new false) where
  instances := by
    change AssocList.find? (dir.storePath a) (AssocList.insert (dir.storePath b)
      (WriterInstance.new false) [(dir.storePath a, WriterInstance.new false)]) = _
    by_cases heq : dir.storePath a = dir.storePath b
    · rw [← heq, AssocList.find?_insert_self, AssocList.find?_cons_self]
      rfl
    · rw [AssocList.find?_insert_ne heq, AssocList.find?_cons_self]
  disk := rfl

/-- The sender's number is set to 2 and written to the file. -/
def saveSender : List StoreStep :=
  [.setSenderSeqNum 2, .flush, .flush, .flush, .flush, .flush]

/-- The number that one session saves in a file, the other loads from it. -/
theorem Undisturbed.resolve_ne (h : Undisturbed dir a b) :
    dir.resolve (dir.storePath a) ≠ dir.resolve (dir.storePath b) := by
  intro heq
  obtain ⟨hload, -⟩ := h _ _ _ _ created_pair
  have hload := hload (saveSender.map (.store [0]))
  have hsaved : (runOf (step dir) (pair dir a b) (saveSender.map (.store [0]))).load dir b =
      .ok ⟨.empty, 2, 1⟩ := by
    have hrun : ∃ w', (saveSender.map StoreStep.writerStep).foldlM WriterInstance.step
        (.new false) = some w' ∧ w'.file = 1 :: intBytes 2 := ⟨_, rfl, rfl⟩
    obtain ⟨w', hrun, hfile⟩ := hrun
    have hname : AssocList.find? [0] (pair dir a b).sessionMap = some a := rfl
    have hholds := run_store hname holds_pair hrun
    have hstorable : ∀ op ∈ [StoreOp.setSenderSeqNum 2], op.Storable := by
      intro op hop
      rw [List.mem_singleton.mp hop]
      exact ⟨by decide, by decide⟩
    rw [load, ← heq, hholds.disk, hfile]
    exact StoreHandle.load_records hstorable
  have hwithout : (runOf (step dir) (pair dir a b) ((saveSender.map (.store [0])).filter
      fun i => i.actor ≠ some [0])).load dir b = .ok .new := rfl
  rw [hsaved, hwithout] at hload
  cases hload

/-- The handler that one session registers under a key, the other's key selects. -/
theorem Undisturbed.key_ne (h : Undisturbed dir a b) (ha : a.IsAcceptor) (hb : b.IsAcceptor)
    (hport : a.port = b.port) : a.getSessionID ≠ b.getSessionID := by
  intro heq
  have hcreated : Created (fun _ => []) dir a b [0] [1] (pair dir a b) := created_pair
  have hstarted : Created (fun _ => []) dir a b [0] [1] (step dir (.start [1] true) (pair dir a b)) :=
    { hcreated with reached := hcreated.reached.step True.intro }
  obtain ⟨-, hselect⟩ := h _ _ _ _ hstarted
  refine hselect ha ?_
  have hacceptors : (step dir (.start [1] true) (pair dir a b)).acceptors =
      [(b.port, [(b.getSessionID, [1])])] := by
    change Acceptors.start b [1] true [] = _
    unfold Acceptors.start
    rw [show b.getSessionType = _ from hb]
    rfl
  rw [hacceptors, heq, hport, Acceptors.select, AssocList.find?_cons_self]
  exact AssocList.find?_cons_self _ _ _

/-- Two sessions are isolated exactly if their names are apart. -/
theorem isolated_iff (dir : DataDirectory F) (a b : AcceptorSettings)
    (hne : a.compIDs ≠ b.compIDs) : Isolated dir a b ↔ Apart dir a b := by
  have hkey_iff : a.getSessionID ≠ b.getSessionID ↔
      ¬Shifted 58 a.compIDs b.compIDs ∧ ¬Shifted 58 b.compIDs a.compIDs := by
    rw [AcceptorSettings.getSessionID_eq, AcceptorSettings.getSessionID_eq]
    exact AcceptorSettings.join_ne_iff hne 58
  constructor
  · intro h
    exact ⟨(resolve_ne_iff hne).mp h.1.resolve_ne, fun ha hb hport =>
      hkey_iff.mp (h.1.key_ne ha hb hport)⟩
  · intro h
    have hfile := (resolve_ne_iff hne).mpr h.file
    have hkey : a.IsAcceptor → b.IsAcceptor → a.port = b.port → a.getSessionID ≠ b.getSessionID :=
      fun ha hb hport => hkey_iff.mpr (h.key ha hb hport)
    exact ⟨undisturbed hfile hkey, undisturbed hfile.symm fun hb ha hport =>
      (hkey ha hb hport.symm).symm⟩

/-- A directory where every path is a file of its own. -/
def plainDirectory : DataDirectory Bytes :=
  ⟨ascii "./data", id, fun _ _ _ _ h => List.append_cancel_left h⟩

def sessionOf (sender target : String) : AcceptorSettings :=
  { senderCompID := ascii sender, targetCompID := ascii target, sessionTypeStr := ascii "acceptor" }

theorem isolated_iff_test :
    (sessionOf "A" "B").compIDs ≠ (sessionOf "A" "C").compIDs ∧
      Isolated plainDirectory (sessionOf "A" "B") (sessionOf "A" "C") := by
  refine ⟨by decide, (isolated_iff plainDirectory _ _ (by decide)).mpr ?_⟩
  exact apart_of_plain (by decide +kernel) (by decide +kernel) (by decide +kernel)

/-- Both names of the store are `A-B-C`. -/
theorem not_isolated : ¬∀ (F : Type) (_ : DecidableEq F) (dir : DataDirectory F)
    (a b : AcceptorSettings), a.compIDs ≠ b.compIDs → Isolated dir a b := by
  intro hall
  have hboth := hall Bytes inferInstance plainDirectory (sessionOf "A-B" "C") (sessionOf "A" "B-C")
    (by decide)
  exact hboth.1.resolve_ne (by decide)

end Application

end OpenFix
