import CppRt.SockInet.AddressList

/-!
sock_create_passive, which sock_listen and sock_bind call. A listening call gives up when
SO_REUSEADDR cannot be set, and closes the socket there. It also gives up when listen fails
after the loop, and there it does not.
-/

namespace CppRt.SockInet

def AI_PASSIVE : Int := 1
def SOCK_STREAM : Int := 1

structure PassiveResults where
  setsockopt : Bool
  bind : Bool

abbrev PassiveAddress := Address PassiveResults

structure Outcome where
  result : Int
  addrlen : Option UInt32
  process : Process

def bindAttempt (rp : PassiveAddress) (sfd : Nat) (process : Process) : Attempt × Process :=
  if rp.results.bind then (.taken, process.modify sfd fun sock => { sock with name := some rp.ai_addr })
  else (.again, process.close sfd)

def passiveAttempt (doListen : Bool) (rp : PassiveAddress) (sfd : Nat) (process : Process) : Attempt × Process :=
  if doListen then
    if rp.results.setsockopt then
      bindAttempt rp sfd (process.modify sfd fun sock => { sock with reuseAddr := true })
    else (.gaveUp, (process.close sfd).freeaddrinfo)
  else bindAttempt rp sfd process

/-- `listened` is whether listen succeeds. -/
def sockCreatePassive (getaddrinfo : Resolver PassiveResults) (listened : Bool) (service : Option String) (type : Int)
    (addrlen : Option UInt32) (doListen : Bool) (backlog : Int) (process : Process) : Outcome :=
  match getaddrinfo none service ⟨AI_PASSIVE, AF_INET, type⟩ with
  | .error _ => ⟨-1, addrlen, process⟩
  | .ok result =>
    match walk (passiveAttempt doListen) result process with
    | (.returned, process) => ⟨-1, addrlen, process⟩
    | (.exhausted, process) => ⟨-1, addrlen, process.freeaddrinfo⟩
    | (.broke sfd rp, process) =>
      if doListen then
        if listened then
          ⟨sfd, addrlen.map fun _ => rp.ai_addrlen,
            (process.modify sfd fun sock => { sock with backlog := some backlog }).freeaddrinfo⟩
        -- here sfd stays open
        else ⟨-1, addrlen, process.freeaddrinfo⟩
      else ⟨sfd, addrlen.map fun _ => rp.ai_addrlen, process.freeaddrinfo⟩

def sockListen (getaddrinfo : Resolver PassiveResults) (listened : Bool) (service : Option String) (backlog : Int)
    (addrlen : Option UInt32) (process : Process) : Outcome :=
  sockCreatePassive getaddrinfo listened service SOCK_STREAM addrlen true backlog process

/-- Nothing listens, so that no listen can fail. -/
def sockBind (getaddrinfo : Resolver PassiveResults) (service : Option String) (type : Int) (addrlen : Option UInt32)
    (process : Process) : Outcome :=
  sockCreatePassive getaddrinfo true service type addrlen false 0 process

def boundTo (rp : PassiveAddress) (reuseAddr : Bool) (backlog : Option Int) : Sock where
  domain := rp.ai_family
  type := rp.ai_socktype
  protocol := rp.ai_protocol
  reuseAddr := reuseAddr
  name := some rp.ai_addr
  backlog := backlog

def usable (rp : PassiveAddress) : Bool := rp.socket.isSome && rp.results.bind

def stops (rp : PassiveAddress) : Bool := rp.socket.isSome && (!rp.results.setsockopt || rp.results.bind)

/-- The call leaks nothing, and it is the first usable address that it picks. -/
structure Tidy (found : Except Int (List PassiveAddress)) (doListen : Bool) (backlog : Int) (addrlen : Option UInt32)
    (before : Process) (after : Outcome) : Prop where
  failed : after.result = -1 → after.process.sockets = before.sockets ∧ after.addrlen = addrlen
  succeeded : after.result ≠ -1 → ∃ addresses rp sfd, found = .ok addresses ∧ addresses.find? usable = some rp ∧
    rp.socket = some sfd ∧ after.result = (sfd : Int) ∧ before.sockets sfd = none ∧
    after.process.sockets = Function.update before.sockets sfd
      (some (boundTo rp doListen (if doListen then some backlog else none))) ∧
    after.addrlen = addrlen.map fun _ => rp.ai_addrlen
  freed : after.process.freed = before.freed + if found.isOk then 1 else 0

/-- A socket is set up to listen and cannot. -/
def CannotListen (found : Except Int (List PassiveAddress)) (doListen listened : Bool) : Prop :=
  doListen = true ∧ listened = false ∧
    ∃ addresses rp, found = .ok addresses ∧ addresses.find? stops = some rp ∧ rp.results.setsockopt = true

def passiveVerdict (doListen : Bool) (rp : PassiveAddress) : Attempt :=
  if doListen && !rp.results.setsockopt then .gaveUp else if rp.results.bind then .taken else .again

theorem passiveAttempt_comes (doListen : Bool) :
    Comes (passiveAttempt doListen) (passiveVerdict doListen) (boundTo · doListen none) := by
  intro rp sfd process unused
  unfold passiveAttempt passiveVerdict bindAttempt Process.socket
  cases doListen with
  | false =>
    cases rp.results.bind with
    | true => simp [Process.ending, boundTo]
    | false => simp [Process.ending, unused]
  | true =>
    cases rp.results.setsockopt with
    | false => simp [Process.ending, Process.freeaddrinfo, unused]
    | true =>
      cases rp.results.bind with
      | true => simp [Process.ending, boundTo]
      | false => simp [Process.ending, unused]

section Verdict
variable {doListen : Bool} {rp : PassiveAddress} {addresses : List PassiveAddress}

theorem decides_passive : decides (passiveVerdict doListen) rp = if doListen then stops rp else usable rp := by
  unfold decides passiveVerdict stops usable
  cases doListen <;> cases rp.results.setsockopt <;> cases rp.results.bind <;> simp

theorem taken_passive : passiveVerdict doListen rp = .taken ↔
    (doListen = true → rp.results.setsockopt = true) ∧ rp.results.bind = true := by
  unfold passiveVerdict
  cases doListen <;> cases rp.results.setsockopt <;> cases rp.results.bind <;> simp

theorem refused_of_gaveUp (verdict : passiveVerdict doListen rp = .gaveUp) : rp.results.setsockopt = false := by
  unfold passiveVerdict at verdict
  cases set_ : rp.results.setsockopt with
  | false => rfl
  | true => cases bound : rp.results.bind <;> simp [set_, bound] at verdict

theorem usable_of_taken {before rest : List PassiveAddress} (given : rp.socket.isSome = true)
    (taken : passiveVerdict doListen rp = .taken)
    (skipped : ∀ other ∈ before, decides (passiveVerdict doListen) other = false) :
    (before ++ rp :: rest).find? usable = some rp := by
  have bound := (taken_passive.mp taken).2
  apply List.find?_eq_some_iff_append.mpr
  refine ⟨by simp [usable, given, bound], before, rest, rfl, fun other member => ?_⟩
  have passes := skipped other member
  rw [decides_passive] at passes
  cases doListen with
  | false => simpa using passes
  | true =>
    simp only [stops, if_true, Bool.and_eq_false_iff, Bool.or_eq_false_iff] at passes
    simp only [usable, Bool.not_eq_true', Bool.and_eq_false_iff]
    exact passes.imp_right And.right

theorem cannotListen_ok {listened : Bool} : CannotListen (.ok addresses) doListen listened ↔
    doListen = true ∧ listened = false ∧
      ∃ rp, addresses.find? (decides (passiveVerdict doListen)) = some rp ∧ rp.results.setsockopt = true := by
  cases doListen with
  | false => simp [CannotListen]
  | true =>
    have same : decides (passiveVerdict true) = stops := funext fun _ => decides_passive
    rw [same]
    unfold CannotListen
    constructor
    · rintro ⟨_, fails, others, rp, listed, found, set_⟩
      cases listed
      exact ⟨rfl, fails, rp, found, set_⟩
    · rintro ⟨_, fails, rp, found, set_⟩
      exact ⟨rfl, fails, addresses, rp, rfl, found, set_⟩

end Verdict

section Outcomes
variable {getaddrinfo : Resolver PassiveResults} {listened doListen : Bool} {service : Option String} {type backlog : Int}
variable {addrlen : Option UInt32} {process after : Process} {found : Except Int (List PassiveAddress)}
variable {addresses : List PassiveAddress} {rp : PassiveAddress} {sfd : Nat}

theorem Tidy.unopened (sockets : after.sockets = process.sockets)
    (freed : after.freed = process.freed + if found.isOk then 1 else 0) :
    Tidy found doListen backlog addrlen process ⟨-1, addrlen, after⟩ where
  failed := fun _ => ⟨sockets, rfl⟩
  succeeded := fun wrong => absurd rfl wrong
  freed := freed

theorem Tidy.opened (first : addresses.find? usable = some rp) (given : rp.socket = some sfd)
    (unused : process.sockets sfd = none)
    (sockets : after.sockets = Function.update process.sockets sfd
      (some (boundTo rp doListen (if doListen then some backlog else none))))
    (freed : after.freed = process.freed + 1) :
    Tidy (.ok addresses) doListen backlog addrlen process ⟨sfd, addrlen.map fun _ => rp.ai_addrlen, after⟩ where
  failed := by
    intro (wrong : (sfd : Int) = -1)
    omega
  succeeded := fun _ => ⟨addresses, rp, sfd, rfl, first, given, rfl, unused, sockets, rfl⟩
  freed := freed

theorem not_tidy (unused : process.sockets sfd = none) (isOpen : after.sockets sfd ≠ none) :
    ¬Tidy found doListen backlog addrlen process ⟨-1, addrlen, after⟩ := by
  intro tidy
  have same := (tidy.failed rfl).1
  exact isOpen ((congrFun same sfd).trans unused)

theorem passive_error {number : Int} (fails : getaddrinfo none service ⟨AI_PASSIVE, AF_INET, type⟩ = .error number) :
    sockCreatePassive getaddrinfo listened service type addrlen doListen backlog process =
      ⟨-1, addrlen, process⟩ := by
  rw [sockCreatePassive, fails]

section Found
variable (resolves : getaddrinfo none service ⟨AI_PASSIVE, AF_INET, type⟩ = .ok addresses)

include resolves

theorem passive_exhausted (walked : walk (passiveAttempt doListen) addresses process = (.exhausted, after)) :
    sockCreatePassive getaddrinfo listened service type addrlen doListen backlog process =
      ⟨-1, addrlen, after.freeaddrinfo⟩ := by
  simp only [sockCreatePassive, resolves, walked]

theorem passive_returned (walked : walk (passiveAttempt doListen) addresses process = (.returned, after)) :
    sockCreatePassive getaddrinfo listened service type addrlen doListen backlog process =
      ⟨-1, addrlen, after⟩ := by
  simp only [sockCreatePassive, resolves, walked]

theorem passive_broke (walked : walk (passiveAttempt doListen) addresses process = (.broke sfd rp, after))
    (listens : doListen = true → listened = true) :
    sockCreatePassive getaddrinfo listened service type addrlen doListen backlog process =
      ⟨sfd, addrlen.map fun _ => rp.ai_addrlen,
        (if doListen then after.modify sfd fun sock => { sock with backlog := some backlog } else after).freeaddrinfo⟩ := by
  cases doListen with
  | false => simp [sockCreatePassive, resolves, walked]
  | true => simp [sockCreatePassive, resolves, walked, listens rfl]

theorem passive_cannotListen (walked : walk (passiveAttempt true) addresses process = (.broke sfd rp, after)) :
    sockCreatePassive getaddrinfo false service type addrlen true backlog process =
      ⟨-1, addrlen, after.freeaddrinfo⟩ := by
  simp [sockCreatePassive, resolves, walked]

end Found

theorem tidy_broke {before : List PassiveAddress}
    (resolves : getaddrinfo none service ⟨AI_PASSIVE, AF_INET, type⟩ = .ok addresses)
    (walked : walk (passiveAttempt doListen) addresses process =
      (.broke sfd rp, (process.passed before).put sfd (boundTo rp doListen none)))
    (first : addresses.find? usable = some rp) (given : rp.socket = some sfd) (unused : process.sockets sfd = none)
    (listens : doListen = true → listened = true) :
    Tidy (.ok addresses) doListen backlog addrlen process
      (sockCreatePassive getaddrinfo listened service type addrlen doListen backlog process) := by
  rw [passive_broke resolves walked listens]
  apply Tidy.opened first given unused
  · cases doListen with
    | false => rfl
    | true =>
      rw [if_pos rfl, if_pos rfl, Process.modify_put]
      rfl
  · cases doListen with
    | false => rfl
    | true => rfl

theorem tidy_resolved (resolves : getaddrinfo none service ⟨AI_PASSIVE, AF_INET, type⟩ = .ok addresses)
    (fresh : process.Fresh addresses) :
    Tidy (.ok addresses) doListen backlog addrlen process
        (sockCreatePassive getaddrinfo listened service type addrlen doListen backlog process) ↔
      ¬CannotListen (.ok addresses) doListen listened := by
  rw [cannotListen_ok]
  have comes := passiveAttempt_comes doListen
  cases ends : addresses.find? (decides (passiveVerdict doListen)) with
  | none =>
    have walked := walk_exhausts comes fresh ends
    rw [passive_exhausted resolves walked]
    have tidy : Tidy (.ok addresses) doListen backlog addrlen process
        ⟨-1, addrlen, (process.passed addresses).freeaddrinfo⟩ := .unopened rfl rfl
    simpa using tidy
  | some rp =>
    obtain ⟨given, final⟩ : rp.socket.isSome = true ∧ passiveVerdict doListen rp ≠ .again := by
      simpa [decides] using List.find?_some ends
    obtain ⟨sfd, socket⟩ := Option.isSome_iff_exists.mp given
    obtain ⟨before, rest, shape, skipped, walked⟩ := walk_ends comes fresh ends socket
    have member : rp ∈ addresses := List.mem_of_find?_eq_some ends
    have unused := fresh rp member sfd socket
    cases verdict : passiveVerdict doListen rp with
    | again => exact absurd verdict final
    | gaveUp =>
      rw [verdict, if_neg (by decide)] at walked
      rw [passive_returned resolves walked]
      have refused := refused_of_gaveUp verdict
      have tidy : Tidy (.ok addresses) doListen backlog addrlen process
          ⟨-1, addrlen, (process.passed before).ending sfd (boundTo rp doListen none) .gaveUp⟩ := .unopened rfl rfl
      simpa [refused] using tidy
    | taken =>
      rw [verdict, if_pos rfl] at walked
      have first : addresses.find? usable = some rp := shape ▸ usable_of_taken given verdict skipped
      by_cases listens : doListen = true → listened = true
      · have fine : ¬(doListen = true ∧ listened = false ∧
            ∃ other, some rp = some other ∧ other.results.setsockopt = true) := by
          intro wrong
          cases wrong.2.1.symm.trans (listens wrong.1)
        exact iff_of_true (tidy_broke resolves walked first socket unused listens) fine
      · simp only [Classical.not_imp, Bool.not_eq_true] at listens
        obtain ⟨rfl, rfl⟩ := listens
        rw [passive_cannotListen resolves walked]
        have set_ := (taken_passive.mp verdict).1 rfl
        have isOpen : ((process.passed before).ending sfd (boundTo rp true none) .taken).freeaddrinfo.sockets sfd ≠
            none := by
          simp [Process.ending, Process.put, Process.freeaddrinfo]
        exact iff_of_false (not_tidy unused isOpen) (not_not_intro ⟨rfl, rfl, rp, rfl, set_⟩)

/-- sock_create_passive leaks nothing and picks the first usable address, unless it listens
and listen fails. -/
theorem tidy_iff (getaddrinfo : Resolver PassiveResults) (listened : Bool) (service : Option String) (type : Int)
    (addrlen : Option UInt32) (doListen : Bool) (backlog : Int) (process : Process)
    (fresh : ∀ addresses, getaddrinfo none service ⟨AI_PASSIVE, AF_INET, type⟩ = .ok addresses →
      process.Fresh addresses) :
    Tidy (getaddrinfo none service ⟨AI_PASSIVE, AF_INET, type⟩) doListen backlog addrlen process
        (sockCreatePassive getaddrinfo listened service type addrlen doListen backlog process) ↔
      ¬CannotListen (getaddrinfo none service ⟨AI_PASSIVE, AF_INET, type⟩) doListen listened := by
  cases resolves : getaddrinfo none service ⟨AI_PASSIVE, AF_INET, type⟩ with
  | error number =>
    rw [passive_error resolves]
    refine iff_of_true (.unopened rfl rfl) ?_
    rintro ⟨_, _, addresses, rp, wrong, _⟩
    cases wrong
  | ok addresses => exact tidy_resolved resolves (fresh addresses resolves)

theorem sockBind_tidy (resolves : getaddrinfo none service ⟨AI_PASSIVE, AF_INET, type⟩ = .ok addresses)
    (fresh : process.Fresh addresses) :
    Tidy (.ok addresses) false 0 addrlen process (sockBind getaddrinfo service type addrlen process) := by
  apply (tidy_resolved resolves fresh).mpr
  rintro ⟨wrong, _⟩
  cases wrong

end Outcomes

def oneAddress : PassiveAddress where
  ai_family := AF_INET
  ai_socktype := SOCK_STREAM
  ai_protocol := 6
  ai_addr := [2, 0, 48, 57]
  ai_addrlen := 16
  socket := some 3
  results := ⟨true, true⟩

def noSockets : Process where
  sockets := fun _ => none
  closed := []
  freed := 0

theorem noSockets_fresh : noSockets.Fresh [oneAddress] := fun _ _ _ _ => rfl

/-- sock_listen returns -1, and descriptor 3 is open. -/
theorem listen_leaks : ¬∀ (getaddrinfo : Resolver PassiveResults) (listened : Bool) (service : Option String) (type : Int)
    (addrlen : Option UInt32) (doListen : Bool) (backlog : Int) (process : Process),
    (∀ addresses, getaddrinfo none service ⟨AI_PASSIVE, AF_INET, type⟩ = .ok addresses → process.Fresh addresses) →
    Tidy (getaddrinfo none service ⟨AI_PASSIVE, AF_INET, type⟩) doListen backlog addrlen process
      (sockCreatePassive getaddrinfo listened service type addrlen doListen backlog process) := by
  intro all
  have fresh : ∀ addresses, (.ok [oneAddress] : Except Int _) = .ok addresses → noSockets.Fresh addresses := by
    intro addresses same
    cases same
    exact noSockets_fresh
  have tidy := all (fun _ _ _ => .ok [oneAddress]) false (some "12345") SOCK_STREAM none true 10 noSockets fresh
  have closed : (some _ : Option Sock) = none := congrFun (tidy.failed rfl).1 3
  cases closed

theorem tidy_listening : Tidy (.ok [oneAddress]) true 10 none noSockets
    (sockListen (fun _ _ _ => .ok [oneAddress]) true (some "12345") 10 none noSockets) := by
  refine (tidy_iff (fun _ _ _ => .ok [oneAddress]) true (some "12345") SOCK_STREAM none true 10 noSockets ?_).mpr ?_
  · intro addresses same
    cases same
    exact noSockets_fresh
  · rintro ⟨_, wrong, _⟩
    cases wrong

end CppRt.SockInet
