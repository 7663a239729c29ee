import Mathlib.Data.List.Basic
import Mathlib.Logic.Function.Basic

/-!
The list of addresses that getaddrinfo returns, and the walk over it that both sock_connect
and sock_create_passive make: for each address in turn a socket is asked for, and what is
done with it decides whether the walk ends there or goes on. What the calls come to is given
with each address.
-/

namespace CppRt.SockInet

structure AddrInfo where
  ai_family : Int
  ai_socktype : Int
  ai_protocol : Int
  ai_addr : List UInt8
  ai_addrlen : UInt32

/-- An entry of the list. The descriptor that socket gives for it is `none` for -1; the
results are those of the other calls made for it. -/
structure Address (Results : Type*) extends AddrInfo where
  socket : Option Nat
  results : Results

structure Hints where
  ai_flags : Int
  ai_family : Int
  ai_socktype : Int

def AF_INET : Int := 2

abbrev Resolver (Results : Type*) :=
  Option String → Option String → Hints → Except Int (List (Address Results))

/-- A socket as the kernel has it. -/
structure Sock where
  domain : Int
  type : Int
  protocol : Int
  reuseAddr : Bool
  name : Option (List UInt8)
  /-- what listen was given, of a socket that listens -/
  backlog : Option Int
  /-- what it is connected to -/
  peer : Option (List UInt8) := none

structure Process where
  sockets : Nat → Option Sock
  closed : List Nat
  freed : Nat

def Process.put (process : Process) (sfd : Nat) (sock : Sock) : Process :=
  { process with sockets := Function.update process.sockets sfd (some sock) }

def Process.socket (process : Process) (sfd : Nat) (info : AddrInfo) : Process :=
  process.put sfd {
    domain := info.ai_family
    type := info.ai_socktype
    protocol := info.ai_protocol
    reuseAddr := false
    name := none
    backlog := none }

def Process.close (process : Process) (sfd : Nat) : Process :=
  { process with
    sockets := Function.update process.sockets sfd none
    closed := process.closed ++ [sfd] }

def Process.modify (process : Process) (sfd : Nat) (change_ : Sock → Sock) : Process :=
  { process with sockets := Function.update process.sockets sfd ((process.sockets sfd).map change_) }

def Process.freeaddrinfo (process : Process) : Process :=
  { process with freed := process.freed + 1 }

inductive Attempt where
  | taken
  | again
  | gaveUp
  deriving DecidableEq

/-- How the loop ends: by a break with these values of sfd and rp, with rp at NULL, or by a
return from inside. -/
inductive Walk (Results : Type*) where
  | broke (sfd : Nat) (rp : Address Results)
  | exhausted
  | returned

variable {Results : Type*}

def walk (body : Address Results → Nat → Process → Attempt × Process) :
    List (Address Results) → Process → Walk Results × Process
  | [], process => (.exhausted, process)
  | rp :: rest, process =>
    match rp.socket with
    | none => walk body rest process
    | some sfd =>
      match body rp sfd (process.socket sfd rp.toAddrInfo) with
      | (.taken, process) => (.broke sfd rp, process)
      | (.again, process) => walk body rest process
      | (.gaveUp, process) => (.returned, process)

def Process.ending (process : Process) (sfd : Nat) (made : Sock) : Attempt → Process
  | .taken => process.put sfd made
  | .again => { process with closed := process.closed ++ [sfd] }
  | .gaveUp => { process with closed := process.closed ++ [sfd], freed := process.freed + 1 }

def Process.passed (process : Process) (addresses : List (Address Results)) : Process :=
  { process with closed := process.closed ++ addresses.filterMap (·.socket) }

/-- socket gives out no number that is in use. When it is called for an address, the walk
has none open of its own. -/
def Process.Fresh (process : Process) (addresses : List (Address Results)) : Prop :=
  ∀ rp ∈ addresses, ∀ sfd, rp.socket = some sfd → process.sockets sfd = none

def Comes (body : Address Results → Nat → Process → Attempt × Process) (verdict : Address Results → Attempt)
    (made : Address Results → Sock) : Prop :=
  ∀ (rp : Address Results) (sfd : Nat) (process : Process), process.sockets sfd = none →
    body rp sfd (process.socket sfd rp.toAddrInfo) = (verdict rp, process.ending sfd (made rp) (verdict rp))

def decides (verdict : Address Results → Attempt) (rp : Address Results) : Bool :=
  rp.socket.isSome && verdict rp != .again

section Calls
variable {process : Process} {sfd : Nat} {sock : Sock} {change_ : Sock → Sock}

@[simp] theorem Process.modify_put : (process.put sfd sock).modify sfd change_ = process.put sfd (change_ sock) := by
  simp [modify, put]

@[simp] theorem Process.close_put (unused : process.sockets sfd = none) :
    (process.put sfd sock).close sfd = { process with closed := process.closed ++ [sfd] } := by
  have sockets : Function.update process.sockets sfd none = process.sockets := by
    rw [Function.update_eq_self_iff, unused]
  simp [close, put, sockets]

end Calls

section Walk
variable {body : Address Results → Nat → Process → Attempt × Process}
variable {verdict : Address Results → Attempt} {made : Address Results → Sock}
variable {process : Process} {before rest addresses : List (Address Results)} {rp : Address Results} {sfd : Nat}

theorem walk_passes (comes : Comes body verdict made) (fresh : process.Fresh before)
    (passing : ∀ rp ∈ before, decides verdict rp = false) :
    walk body (before ++ rest) process = walk body rest (process.passed before) := by
  induction before generalizing process with
  | nil => simp [Process.passed]
  | cons rp before ih =>
    have passes := passing rp List.mem_cons_self
    have others := fun rp member => passing rp (List.mem_cons_of_mem _ member)
    have later : process.Fresh before := fun rp member => fresh rp (List.mem_cons_of_mem _ member)
    rw [List.cons_append, walk]
    cases given : rp.socket with
    | none =>
      change walk body (before ++ rest) process = _
      rw [ih later others]
      simp [Process.passed, given]
    | some sfd =>
      have again : verdict rp = .again := by simpa [decides, given] using passes
      have attempt := comes rp sfd process (fresh rp List.mem_cons_self sfd given)
      rw [again] at attempt
      simp only [attempt]
      have stays : (process.ending sfd (made rp) .again).Fresh before := later
      rw [ih stays others]
      simp [Process.passed, Process.ending, given]

theorem walk_exhausts (comes : Comes body verdict made) (fresh : process.Fresh addresses)
    (nowhere : addresses.find? (decides verdict) = none) :
    walk body addresses process = (.exhausted, process.passed addresses) := by
  have passing : ∀ rp ∈ addresses, decides verdict rp = false := by
    intro rp member
    simpa using List.find?_eq_none.mp nowhere rp member
  have walked : walk body (addresses ++ []) process = _ := walk_passes comes fresh passing
  rwa [List.append_nil] at walked

/-- The walk ends at the first address at which its body does not go on. -/
theorem walk_at (comes : Comes body verdict made) (fresh : process.Fresh (before ++ rp :: rest))
    (passing : ∀ other ∈ before, decides verdict other = false) (ends : decides verdict rp = true)
    (given : rp.socket = some sfd) :
    walk body (before ++ rp :: rest) process =
      (if verdict rp = .taken then .broke sfd rp else .returned,
        (process.passed before).ending sfd (made rp) (verdict rp)) := by
  have early : process.Fresh before := fun other member => fresh other (List.mem_append_left _ member)
  have unused : (process.passed before).sockets sfd = none :=
    fresh rp (List.mem_append_right _ List.mem_cons_self) sfd given
  rw [walk_passes comes early passing, walk]
  simp only [given, comes rp sfd _ unused]
  have final : verdict rp ≠ .again := by simpa [decides, given] using ends
  cases outcome : verdict rp with
  | taken => rfl
  | again => exact absurd outcome final
  | gaveUp => rfl

theorem walk_ends (comes : Comes body verdict made) (fresh : process.Fresh addresses)
    (found : addresses.find? (decides verdict) = some rp) (given : rp.socket = some sfd) :
    ∃ before rest, addresses = before ++ rp :: rest ∧ (∀ other ∈ before, decides verdict other = false) ∧
      walk body addresses process =
        (if verdict rp = .taken then .broke sfd rp else .returned,
          (process.passed before).ending sfd (made rp) (verdict rp)) := by
  obtain ⟨ends, before, rest, shape, skipped⟩ := List.find?_eq_some_iff_append.mp found
  subst shape
  have passing : ∀ other ∈ before, decides verdict other = false := by
    intro other member
    simpa using skipped other member
  exact ⟨before, rest, rfl, passing, walk_at comes fresh passing ends given⟩

theorem walk_untried {others : List (Address Results)} (given : rp.socket = some sfd)
    (ends : ∀ process, (body rp sfd process).1 ≠ .again) :
    walk body (before ++ rp :: rest) process = walk body (before ++ rp :: others) process := by
  induction before generalizing process with
  | nil =>
    have final := ends (process.socket sfd rp.toAddrInfo)
    simp only [List.nil_append, walk, given]
    cases attempt : body rp sfd (process.socket sfd rp.toAddrInfo) with
    | mk outcome after =>
      cases outcome with
      | taken | gaveUp => rfl
      | again => exact absurd (congrArg Prod.fst attempt) final
  | cons first before ih =>
    cases asked : first.socket with
    | none =>
      simp only [List.cons_append, walk, asked]
      exact ih
    | some number =>
      simp only [List.cons_append, walk, asked]
      cases attempt : body first number (process.socket number first.toAddrInfo) with
      | mk outcome after =>
        cases outcome with
        | taken | gaveUp => rfl
        | again => exact ih

end Walk

end CppRt.SockInet
