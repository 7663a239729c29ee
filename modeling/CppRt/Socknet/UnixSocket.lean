import CppRt.Library.Transition
import CppRt.Socknet.UnixAddress
import Mathlib.Logic.Function.Basic

/-!
unix_socket objects of any processes and the files they are bound to. bind removes
whatever is at its path before it binds, and the destructor removes whatever is at the
path its socket has been bound to: both go by the name, and neither asks whose the
file is. All the objects are there from the start, which only leaves out their
constructors.
-/

namespace CppRt.Socknet
open Library Transition

variable {Socket Process : Type*}

/-- The file system by the sockets bound there; for each object the name its descriptor has
and whether it is there to be used. -/
structure Files (Socket : Type*) where
  entry : SunPath → Option Socket
  bound : Socket → Option SunPath
  live : Socket → Bool

def getLocalPath (files : Files Socket) (socket : Socket) : Option Bytes :=
  extractPath (report (files.bound socket))

inductive FileEvent (Socket : Type*) where
  /-- bind has returned -/
  | bound (socket : Socket) (path : SunPath)
  /-- ::bind has failed after ::unlink -/
  | refused (socket : Socket) (path : SunPath)
  /-- the path given to bind is too long -/
  | tooLong (socket : Socket)
  /-- the destructor has unlinked this path -/
  | destroyed (socket : Socket) (path : SunPath)
  /-- an exception has left the destructor, which ends the process -/
  | terminated (socket : Socket)

section Step
variable [DecidableEq Socket] [DecidableEq Process]

def Files.unlink (files : Files Socket) (path : SunPath) : Files Socket :=
  { files with entry := Function.update files.entry path none }

/-- `::bind` of a socket that has no name. An empty path gives it one outside the file system. -/
def Files.bind (files : Files Socket) (socket : Socket) (path : SunPath) : Files Socket where
  entry := if path.bytes = [] then files.entry else Function.update files.entry path (some socket)
  bound := Function.update files.bound socket (some path)
  live := files.live

inductive Files.Step (process : Socket → Process) (files : Files Socket) :
    Option (FileEvent Socket) → Files Socket → Prop where
  | tooLong {socket : Socket} {localPath : Bytes} (alive : files.live socket = true)
      (filled : fillAddress localPath = none) : Step process files (some (.tooLong socket)) files
  | bind {socket : Socket} {localPath : Bytes} {path : SunPath} (alive : files.live socket = true)
      (filled : fillAddress localPath = some path) (unnamed : files.bound socket = none) :
      Step process files (some (.bound socket path)) ((files.unlink path).bind socket path)
  -- for whatever reason; a socket that has a name cannot be bound again
  | refuse {socket : Socket} {localPath : Bytes} {path : SunPath} (alive : files.live socket = true)
      (filled : fillAddress localPath = some path) :
      Step process files (some (.refused socket path)) (files.unlink path)
  | destroy {socket : Socket} {localPath : Bytes} {path : SunPath} (alive : files.live socket = true)
      (got : getLocalPath files socket = some localPath) (filled : fillAddress localPath = some path) :
      Step process files (some (.destroyed socket path))
        { files.unlink path with live := Function.update files.live socket false }
  | terminate {socket : Socket} (alive : files.live socket = true)
      (throws : (getLocalPath files socket).bind fillAddress = none) :
      Step process files (some (.terminated socket))
        { files with live := fun other => files.live other && process other != process socket }

def unixSockets (process : Socket → Process) : System (Files Socket) (FileEvent Socket) where
  start files := files = ⟨fun _ => none, fun _ => none, fun _ => true⟩
  step := Files.Step process

end Step

theorem getLocalPath_bound {files : Files Socket} {socket : Socket} {path : SunPath}
    (bound : files.bound socket = some path) : getLocalPath files socket = some path.bytes := by
  rw [getLocalPath, bound, extractPath_bound]

theorem getLocalPath_unbound {files : Files Socket} {socket : Socket} (unnamed : files.bound socket = none) :
    getLocalPath files socket = none := by
  rw [getLocalPath, unnamed, extractPath_unbound]

def FileEvent.effect [DecidableEq Socket] (path : SunPath) (entry : Option Socket) : FileEvent Socket → Option Socket
  | .bound socket at_ => if at_ = path then some socket else entry
  | .refused _ at_ => if at_ = path then none else entry
  | .tooLong _ => entry
  | .destroyed _ at_ => if at_ = path then none else entry
  | .terminated _ => entry

section Ownership
variable [DecidableEq Socket] [DecidableEq Process] {process : Socket → Process}
variable {files next : Files Socket} {event : FileEvent Socket} {trace : List (FileEvent Socket)} {path : SunPath}

theorem Files.Step.destroyed {socket : Socket}
    (step : files.Step process (some (.destroyed socket path)) next) :
    files.bound socket = some path ∧ next.entry = Function.update files.entry path none := by
  cases step with
  | @destroy _ localPath _ alive got filled =>
    refine ⟨?_, rfl⟩
    cases named : files.bound socket with
    | none => cases (getLocalPath_unbound named).symm.trans got
    | some own =>
      cases (getLocalPath_bound named).symm.trans got
      cases (fillAddress_bytes own).symm.trans filled
      rfl

omit [DecidableEq Socket] [DecidableEq Process] in
theorem Files.unlink_entry {at_ : SunPath} :
    (files.unlink at_).entry path = if at_ = path then none else files.entry path := by
  by_cases same : at_ = path
  · rw [if_pos same, ← same]
    exact Function.update_self _ _ _
  · rw [if_neg same]
    exact Function.update_of_ne (Ne.symm same) _ _

theorem Files.Step.effect (step : files.Step process (some event) next) (named : path.bytes ≠ []) :
    next.entry path = event.effect path (files.entry path) := by
  cases step with
  | tooLong | terminate => rfl
  | @bind socket localPath at_ alive filled unnamed =>
    change (if at_.bytes = [] then (files.unlink at_).entry
      else Function.update (files.unlink at_).entry at_ (some socket)) path =
        if at_ = path then some socket else files.entry path
    by_cases same : at_ = path
    · rw [if_neg (same ▸ named), if_pos same, same, Function.update_self]
    · have kept : (files.unlink at_).entry path = files.entry path := by rw [unlink_entry, if_neg same]
      rw [if_neg same]
      split
      · exact kept
      · rw [Function.update_of_ne (Ne.symm same), kept]
  | refuse => exact unlink_entry
  | destroy => exact unlink_entry

theorem entry_of_reaches (reached : (unixSockets process).Reaches trace files) (named : path.bytes ≠ []) :
    files.entry path = trace.foldl (FileEvent.effect path) none := by
  refine reached.invariant (fun trace files => files.entry path = trace.foldl (FileEvent.effect path) none) ?_ ?_
  · intro first begins
    obtain rfl := begins
    rfl
  · intro trace files label next _ kept step
    cases label with
    | none => cases step
    | some event =>
      have now := Files.Step.effect step named
      rw [kept] at now
      simpa using now

omit [DecidableEq Process] in
theorem foldl_effect {socket : Socket} {after : List (FileEvent Socket)}
    (last : ∀ other, .bound other path ∉ after) :
    after.foldl (FileEvent.effect path) none = none ∧
      (after.foldl (FileEvent.effect path) (some socket) = some socket ↔
        (∀ other, .destroyed other path ∉ after) ∧ ∀ other, .refused other path ∉ after) := by
  induction after with
  | nil => simp
  | cons event rest ih =>
    obtain ⟨gone, stays⟩ := ih fun other member => last other (List.mem_cons_of_mem _ member)
    cases event with
    | bound other at_ =>
      have different : at_ ≠ path := fun same => last other (same ▸ List.mem_cons_self)
      simpa [FileEvent.effect, different] using ⟨gone, stays⟩
    | refused other at_ =>
      by_cases same : at_ = path
      · subst same
        simp only [List.foldl_cons, FileEvent.effect, if_true, gone, true_and]
        refine ⟨(fun wrong => by cases wrong), fun both => ?_⟩
        exact absurd List.mem_cons_self (both.2 other)
      · have apart : path ≠ at_ := fun wrong => same wrong.symm
        simpa [FileEvent.effect, same, apart] using ⟨gone, stays⟩
    | destroyed other at_ =>
      by_cases same : at_ = path
      · subst same
        simp only [List.foldl_cons, FileEvent.effect, if_true, gone, true_and]
        refine ⟨(fun wrong => by cases wrong), fun both => ?_⟩
        exact absurd List.mem_cons_self (both.1 other)
      · have apart : path ≠ at_ := fun wrong => same wrong.symm
        simpa [FileEvent.effect, same, apart] using ⟨gone, stays⟩
    | tooLong | terminated => simpa [FileEvent.effect] using ⟨gone, stays⟩

/-- A destructor removes the entry of the path its own socket was bound to, whoever has it
by then. The last socket bound to a path is reachable there exactly as long as no other
socket that had the path is destroyed and no later bind to it fails. -/
theorem unlinks_by_name (reached : (unixSockets process).Reaches trace files) :
    (∀ socket path next, files.Step process (some (.destroyed socket path)) next →
      files.bound socket = some path ∧ next.entry = Function.update files.entry path none) ∧
    ∀ before socket path after, trace = before ++ .bound socket path :: after → path.bytes ≠ [] →
      (∀ other, .bound other path ∉ after) →
      (files.entry path = some socket ↔
        (∀ other, .destroyed other path ∉ after) ∧ ∀ other, .refused other path ∉ after) := by
  refine ⟨fun socket path next step => step.destroyed, ?_⟩
  intro before socket path after shape named last
  have entry := entry_of_reaches reached named
  rw [shape, List.foldl_append, List.foldl_cons, FileEvent.effect, if_pos rfl] at entry
  rw [entry]
  exact (foldl_effect last).2

end Ownership

def fileP : SunPath := ⟨[47, 112], by decide, by decide⟩

theorem reaches_destroyed_first : ∃ files, (unixSockets (id : Bool → Bool)).Reaches
      [.bound false fileP, .bound true fileP, .destroyed false fileP] files ∧
      files.live true = true ∧ files.entry fileP = none := by
  have filled : fillAddress fileP.bytes = some fileP := fillAddress_bytes fileP
  let start : Files Bool := ⟨fun _ => none, fun _ => none, fun _ => true⟩
  let first := (start.unlink fileP).bind false fileP
  let second := (first.unlink fileP).bind true fileP
  have binds : (unixSockets (id : Bool → Bool)).step start (some (.bound false fileP)) first :=
    Files.Step.bind rfl filled rfl
  have bindsToo : (unixSockets (id : Bool → Bool)).step first (some (.bound true fileP)) second :=
    Files.Step.bind rfl filled rfl
  have own : getLocalPath second false = some fileP.bytes := getLocalPath_bound rfl
  have destroys : (unixSockets (id : Bool → Bool)).step second (some (.destroyed false fileP)) _ :=
    Files.Step.destroy rfl own filled
  exact ⟨_, (((System.Reaches.first rfl).tail binds).tail bindsToo).tail destroys, rfl, rfl⟩

/-- The second is the last to have bound the path, is still there, and cannot be reached. -/
theorem live_socket_unreachable :
    ¬∀ trace files, (unixSockets (id : Bool → Bool)).Reaches trace files →
      ∀ before socket path after, trace = before ++ .bound socket path :: after → path.bytes ≠ [] →
        (∀ other, .bound other path ∉ after) → files.live socket = true → files.entry path = some socket := by
  intro all
  obtain ⟨files, reached, alive, gone⟩ := reaches_destroyed_first
  have there := all _ _ reached [.bound false fileP] true fileP [.destroyed false fileP] rfl (by decide)
    (fun other member => by simp at member) alive
  cases gone.symm.trans there

theorem unlinks_by_name_first : ∃ files, (unixSockets (id : Bool → Bool)).Reaches
      [.bound false fileP, .bound true fileP, .destroyed false fileP] files ∧ files.entry fileP ≠ some true := by
  obtain ⟨files, reached, _⟩ := reaches_destroyed_first
  refine ⟨files, reached, fun there => ?_⟩
  have kept := ((unlinks_by_name reached).2 [.bound false fileP] true fileP [.destroyed false fileP] rfl (by decide)
    (fun other member => by simp at member)).mp there
  exact kept.1 false List.mem_cons_self

end CppRt.Socknet
