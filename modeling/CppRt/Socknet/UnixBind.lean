import CppRt.Socknet.BaseSocket
import CppRt.Socknet.UnixSocket

/-!
unix_socket::bind with its three steps told apart: it fills in the address, unlinks the
path, and binds. What is at a path can be a socket, another file or a directory, and both
system calls can fail. A bind that fails has unlinked all the same.
-/

namespace CppRt.Socknet
open Library Transition

variable {Socket Process : Type*}

inductive Node (Socket : Type*) where
  | socket (socket : Socket)
  | file
  | directory

/-- The file system, and the name each socket has. An empty path names nothing in it. -/
structure Names (Socket : Type*) where
  entry : SunPath → Option (Node Socket)
  bound : Socket → Option SunPath
  nameless : ∀ path, path.bytes = [] → entry path = none

def Errno.ENOENT : Errno := .other 2
def Errno.EISDIR : Errno := .other 21
def Errno.EINVAL : Errno := .other 22
def Errno.EADDRINUSE : Errno := .other 98

def Names.remove (names : Names Socket) (path : SunPath) : Names Socket where
  entry := Function.update names.entry path none
  bound := names.bound
  nameless := by
    intro other empty
    by_cases same : other = path
    · rw [same, Function.update_self]
    · rw [Function.update_of_ne same, names.nameless other empty]

/-- `::unlink`; a refusal is an error that has nothing to do with what is at the path. -/
def Names.unlink (names : Names Socket) (path : SunPath) (refusal : Option Errno) :
    Except Errno Unit × Names Socket :=
  match refusal, names.entry path with
  | some errno, _ => (.error errno, names)
  | none, none => (.error .ENOENT, names)
  | none, some .directory => (.error .EISDIR, names)
  | none, some .file => (.ok (), names.remove path)
  | none, some (.socket _) => (.ok (), names.remove path)

section Bind
variable [DecidableEq Socket]

def Names.add (names : Names Socket) (socket : Socket) (path : SunPath) : Names Socket where
  entry := if path.bytes = [] then names.entry else Function.update names.entry path (some (.socket socket))
  bound := Function.update names.bound socket (some path)
  nameless := by
    intro other empty
    split
    · exact names.nameless other empty
    · have different : other ≠ path := fun same => ‹path.bytes ≠ []› (same ▸ empty)
      rw [Function.update_of_ne different, names.nameless other empty]

def Names.bind (names : Names Socket) (socket : Socket) (path : SunPath) (refusal : Option Errno) :
    Except Errno Unit × Names Socket :=
  match refusal, names.bound socket, names.entry path with
  | some errno, _, _ => (.error errno, names)
  | none, some _, _ => (.error .EINVAL, names)
  | none, none, some _ => (.error .EADDRINUSE, names)
  | none, none, none => (.ok (), names.add socket path)

/-- `unix_socket::bind`; the first errno is whatever it is when the path is too long. -/
def UnixSocket.bind (errno : Errno) (names : Names Socket) (socket : Socket) (localPath : Bytes)
    (unlinking binding : Option Errno) : Except SocketException Unit × Names Socket :=
  match fillAddress localPath with
  | none => (.error ⟨"Path to socket file is too long", errno⟩, names)
  | some addr =>
    -- the result of unlink is not looked at
    let (_, unlinked) := names.unlink addr unlinking
    match unlinked.bind socket addr binding with
    | (.error errno, after) => (.error ⟨"Set of local path failed (bind)", errno⟩, after)
    | (.ok (), after) => (.ok (), after)

end Bind

section Calls
variable {names : Names Socket} {socket : Socket} {path : SunPath} {refusal : Option Errno}

theorem Names.unlink_cases (names : Names Socket) (path : SunPath) (refusal : Option Errno) :
    names.unlink path refusal = (.ok (), names.remove path) ∨
      ∃ errno, names.unlink path refusal = (.error errno, names) := by
  unfold unlink
  split
  · exact .inr ⟨_, rfl⟩
  · exact .inr ⟨_, rfl⟩
  · exact .inr ⟨_, rfl⟩
  · exact .inl rfl
  · exact .inl rfl

theorem Names.unlink_bound : (names.unlink path refusal).2.bound = names.bound := by
  rcases names.unlink_cases path refusal with removed | ⟨errno, failed⟩
  · rw [removed]
    rfl
  · rw [failed]

theorem Names.unlink_other {other : SunPath} (different : other ≠ path) :
    (names.unlink path refusal).2.entry other = names.entry other := by
  rcases names.unlink_cases path refusal with removed | ⟨errno, failed⟩
  · rw [removed]
    exact Function.update_of_ne different _ _
  · rw [failed]

theorem Names.unlink_self :
    (names.unlink path refusal).2.entry path = if (names.unlink path refusal).1.isOk then none else names.entry path := by
  rcases names.unlink_cases path refusal with removed | ⟨errno, failed⟩
  · rw [removed]
    exact Function.update_self _ _ _
  · rw [failed]
    rfl

theorem Names.unlink_unless {other : SunPath} (apart : other ≠ path ∨ path.bytes = []) :
    (names.unlink path refusal).2.entry other = names.entry other := by
  by_cases same : other = path
  · have empty : other.bytes = [] := same ▸ apart.resolve_left (fun different => different same)
    rw [Names.nameless _ other empty, Names.nameless _ other empty]
  · exact unlink_other same

variable [DecidableEq Socket]

theorem Names.bind_cases (names : Names Socket) (socket : Socket) (path : SunPath) (refusal : Option Errno) :
    (names.bind socket path refusal = (.ok (), names.add socket path) ∧ names.bound socket = none) ∨
      ∃ errno, names.bind socket path refusal = (.error errno, names) := by
  cases refusal with
  | some errno => exact .inr ⟨errno, rfl⟩
  | none =>
    cases named : names.bound socket with
    | some own => exact .inr ⟨.EINVAL, by simp only [bind, named]⟩
    | none =>
      cases there : names.entry path with
      | some node => exact .inr ⟨.EADDRINUSE, by simp only [bind, named, there]⟩
      | none => exact .inl ⟨by simp only [bind, named, there], rfl⟩

theorem Names.entry_add : (names.add socket path).entry =
    if path.bytes = [] then names.entry else Function.update names.entry path (some (.socket socket)) := rfl

theorem Names.add_self (named : path.bytes ≠ []) : (names.add socket path).entry path = some (.socket socket) := by
  rw [entry_add, if_neg named, Function.update_self]

theorem Names.add_other {other : SunPath} (apart : other ≠ path ∨ path.bytes = []) :
    (names.add socket path).entry other = names.entry other := by
  rw [entry_add]
  split
  · rfl
  · have different : other ≠ path := apart.resolve_right ‹path.bytes ≠ []›
    exact Function.update_of_ne different _ _

end Calls

/-- A bind that has thrown after it unlinked. -/
structure Names.Refused (names after : Names Socket) (path : SunPath) (unlinked : Bool) : Prop where
  bound : after.bound = names.bound
  others : ∀ other, other ≠ path → after.entry other = names.entry other
  entry : after.entry path = if unlinked then none else names.entry path

theorem Names.refused_unlink {names : Names Socket} {path : SunPath} {refusal : Option Errno} :
    names.Refused (names.unlink path refusal).2 path (names.unlink path refusal).1.isOk where
  bound := unlink_bound
  others := fun _ different => unlink_other different
  entry := unlink_self

section View
variable {names : Names Socket} {path : SunPath}

def Node.occupant : Node Socket → Option Socket
  | .socket own => some own
  | .file => none
  | .directory => none

def Names.files (names : Names Socket) (live : Socket → Bool) : Files Socket where
  entry path := (names.entry path).bind Node.occupant
  bound := names.bound
  live := live

theorem unlink_occupant : ((names.unlink path none).2.entry path).bind Node.occupant = none := by
  unfold Names.unlink
  cases there : names.entry path with
  | none => simp [there]
  | some node =>
    cases node with
    | directory => simp [there, Node.occupant]
    | file | socket => simp [Names.remove]

theorem Files.eq_of {files others : Files Socket} (entry : ∀ path, files.entry path = others.entry path)
    (bound : files.bound = others.bound) (live : files.live = others.live) : files = others := by
  cases files
  cases others
  rw [Files.mk.injEq]
  exact ⟨funext entry, bound, live⟩

theorem files_unlink {live : Socket → Bool} :
    (names.unlink path none).2.files live = (names.files live).unlink path := by
  apply Files.eq_of
  · intro other
    rw [Files.unlink_entry]
    by_cases same : path = other
    · subst same
      rw [if_pos rfl]
      exact unlink_occupant
    · rw [if_neg same]
      exact congrArg (Option.bind · Node.occupant) (Names.unlink_other (Ne.symm same))
  · exact Names.unlink_bound
  · rfl

end View

structure Names.Bound [DecidableEq Socket] (names after : Names Socket) (socket : Socket) (path : SunPath) : Prop where
  unnamed : names.bound socket = none
  bound : after.bound = Function.update names.bound socket (some path)
  others : ∀ other, other ≠ path ∨ path.bytes = [] → after.entry other = names.entry other
  entry : path.bytes ≠ [] → after.entry path = some (.socket socket)

section Outcomes
variable [DecidableEq Socket] {names : Names Socket} {socket : Socket} {localPath : Bytes} {path : SunPath}
variable {errno : Errno} {unlinking binding refusal : Option Errno}

theorem bind_tooLong (filled : fillAddress localPath = none) :
    UnixSocket.bind errno names socket localPath unlinking binding =
      (.error ⟨"Path to socket file is too long", errno⟩, names) := by
  rw [UnixSocket.bind, filled]

theorem bind_filled (errno : Errno) (names : Names Socket) (filled : fillAddress localPath = some path) :
    (UnixSocket.bind errno names socket localPath unlinking binding =
        (.ok (), (names.unlink path unlinking).2.add socket path) ∧ names.bound socket = none) ∨
      ∃ number, UnixSocket.bind errno names socket localPath unlinking binding =
        (.error ⟨"Set of local path failed (bind)", number⟩, (names.unlink path unlinking).2) := by
  rcases (names.unlink path unlinking).2.bind_cases socket path binding with ⟨binds, unnamed⟩ | ⟨number, fails⟩
  · rw [Names.unlink_bound] at unnamed
    left
    simp only [UnixSocket.bind, filled, binds, unnamed, and_self]
  · right
    exact ⟨number, by simp only [UnixSocket.bind, filled, fails]⟩

theorem Names.bound_add (unnamed : names.bound socket = none) :
    names.Bound ((names.unlink path refusal).2.add socket path) socket path where
  unnamed := unnamed
  bound := by
    change Function.update (names.unlink path refusal).2.bound socket (some path) = _
    rw [unlink_bound]
  others := fun _ apart => (add_other apart).trans (unlink_unless apart)
  entry := fun named => add_self named

def bindEvent (socket : Socket) (localPath : Bytes) (result : Except SocketException Unit) : FileEvent Socket :=
  match fillAddress localPath, result with
  | none, _ => .tooLong socket
  | some path, .ok () => .bound socket path
  | some path, .error _ => .refused socket path

theorem files_add {live : Socket → Bool} :
    (names.add socket path).files live = (names.files live).bind socket path := by
  apply Files.eq_of
  · intro other
    change ((names.add socket path).entry other).bind Node.occupant =
      (if path.bytes = [] then (names.files live).entry
        else Function.update (names.files live).entry path (some socket)) other
    by_cases empty : path.bytes = []
    · rw [Names.add_other (.inr empty), if_pos empty]
      rfl
    · rw [if_neg empty]
      by_cases same : other = path
      · rw [same, Names.add_self empty, Function.update_self]
        rfl
      · rw [Names.add_other (.inl same), Function.update_of_ne same]
        rfl
  · rfl
  · rfl

theorem bind_step [DecidableEq Process] {process : Socket → Process} {live : Socket → Bool}
    (alive : live socket = true) :
    Files.Step process (names.files live)
      (some (bindEvent socket localPath (UnixSocket.bind errno names socket localPath none binding).1))
      ((UnixSocket.bind errno names socket localPath none binding).2.files live) := by
  cases filled : fillAddress localPath with
  | none =>
    have event : bindEvent socket localPath (.error ⟨"Path to socket file is too long", errno⟩) = .tooLong socket := by
      simp only [bindEvent, filled]
    rw [bind_tooLong filled, event]
    exact .tooLong alive filled
  | some path =>
    rcases bind_filled errno names filled with ⟨binds, unnamed⟩ | ⟨number, fails⟩
    · have event : bindEvent socket localPath (.ok ()) = .bound socket path := by simp only [bindEvent, filled]
      rw [binds, event, files_add, files_unlink]
      exact .bind alive filled unnamed
    · have event (exception : SocketException) :
          bindEvent socket localPath (.error exception) = .refused socket path := by
        simp only [bindEvent, filled]
      rw [fails, event, files_unlink]
      exact .refuse alive filled

/-- A path that is too long changes nothing. A bind that fails later leaves the names of the
sockets and every other path as they were, and its own path as the unlink has left it. A bind
that returns has changed no path but its own, which is the socket's unless it is empty. -/
theorem bind_leaves (errno : Errno) (names : Names Socket) (socket : Socket) (localPath : Bytes)
    (unlinking binding : Option Errno) :
    match fillAddress localPath, UnixSocket.bind errno names socket localPath unlinking binding with
    | none, (result, after) => result = .error ⟨"Path to socket file is too long", errno⟩ ∧ after = names
    | some path, (.error _, after) => names.Refused after path (names.unlink path unlinking).1.isOk
    | some path, (.ok (), after) => names.Bound after socket path := by
  cases filled : fillAddress localPath with
  | none =>
    rw [bind_tooLong filled]
    exact ⟨rfl, rfl⟩
  | some path =>
    rcases bind_filled errno names filled with ⟨binds, unnamed⟩ | ⟨number, fails⟩
    · rw [binds]
      exact Names.bound_add unnamed
    · rw [fails]
      exact Names.refused_unlink

end Outcomes

def boundTwice : Names Bool where
  entry := Function.update (fun _ => none) fileP (some (.socket false))
  bound := fun socket => some (if socket then ⟨[], by decide, by decide⟩ else fileP)
  nameless := by
    intro path empty
    have different : path ≠ fileP := by
      intro same
      rw [same] at empty
      cases empty
    exact Function.update_of_ne different _ _

/-- The second cannot be bound again, and the first can no longer be reached. -/
theorem failed_bind_unlinks :
    ¬∀ (errno : Errno) (names : Names Bool) (socket : Bool) (localPath : Bytes) (unlinking binding : Option Errno),
      let called := UnixSocket.bind errno names socket localPath unlinking binding
      ((∃ exception, called.1 = .error exception) → called.2 = names) ∧
      (called.1 = .ok () → ∀ path, fillAddress localPath = some path → called.2.entry path = some (.socket socket) ∧
        ∀ other, other ≠ path → called.2.entry other = names.entry other) := by
  intro all
  have filled : fillAddress fileP.bytes = some fileP := fillAddress_bytes fileP
  have there : boundTwice.entry fileP = some (.socket false) := by simp [boundTwice]
  have unlinks : boundTwice.unlink fileP none = (.ok (), boundTwice.remove fileP) := by
    simp only [Names.unlink, there]
  have binds : UnixSocket.bind .EINVAL boundTwice true fileP.bytes none none =
      (.error ⟨"Set of local path failed (bind)", .EINVAL⟩, boundTwice.remove fileP) := by
    simp only [UnixSocket.bind, filled, unlinks]
    rfl
  have kept := (all .EINVAL boundTwice true fileP.bytes none none).1
  simp only [binds] at kept
  have gone : (boundTwice.remove fileP).entry fileP = none := by simp [Names.remove]
  rw [kept ⟨_, rfl⟩, there] at gone
  cases gone

end CppRt.Socknet
