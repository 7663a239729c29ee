import CppRt.SockInet.AddressList

/-!
sock_connect. The loop leaves sfd at whatever the last socket call gave, and only whether rp
has come to NULL tells a connection from a descriptor that has been closed.
-/

namespace CppRt.SockInet

abbrev ActiveAddress := Address Bool

def ENOSYS : Int := 38

structure Connected where
  result : Int
  errno : Option Int
  process : Process

def connectAttempt (rp : ActiveAddress) (sfd : Nat) (process : Process) : Attempt × Process :=
  if rp.results then (.taken, process.modify sfd fun sock => { sock with peer := some rp.ai_addr })
  else (.again, process.close sfd)

def sockConnect (getaddrinfo : Resolver Bool) (host service : Option String) (type : Int) (process : Process) :
    Connected :=
  match getaddrinfo host service ⟨0, AF_INET, type⟩ with
  | .error _ => ⟨-1, some ENOSYS, process⟩
  | .ok result =>
    match walk connectAttempt result process with
    | (.broke sfd _, process) => ⟨sfd, none, process.freeaddrinfo⟩
    | (.exhausted, process) => ⟨-1, none, process.freeaddrinfo⟩
    -- the body never returns
    | (.returned, process) => ⟨-1, none, process⟩

def connectedTo (rp : ActiveAddress) : Sock where
  domain := rp.ai_family
  type := rp.ai_socktype
  protocol := rp.ai_protocol
  reuseAddr := false
  name := none
  backlog := none
  peer := some rp.ai_addr

def reachable (rp : ActiveAddress) : Bool := rp.socket.isSome && rp.results

/-- What a call comes to that is given this list. Every descriptor that is opened is either
returned or among those closed. -/
structure FirstReachable (addresses : List ActiveAddress) (before : Process) (after : Connected) : Prop where
  returns : after.result ≠ -1 ↔ ∃ rp ∈ addresses, reachable rp = true
  first : ∀ skipped rp rest (sfd : Nat), addresses = skipped ++ rp :: rest → (∀ other ∈ skipped, reachable other = false) →
    rp.socket = some sfd → rp.results = true → after.result = (sfd : Int) ∧ before.sockets sfd = none ∧
      after.process.sockets = Function.update before.sockets sfd (some (connectedTo rp)) ∧
      after.process.closed = before.closed ++ skipped.filterMap (·.socket)
  failed : after.result = -1 → after.process.sockets = before.sockets ∧
    after.process.closed = before.closed ++ addresses.filterMap (·.socket)
  freed : after.process.freed = before.freed + 1

def connectVerdict (rp : ActiveAddress) : Attempt := if rp.results then .taken else .again

theorem connectAttempt_comes : Comes connectAttempt connectVerdict connectedTo := by
  intro rp sfd process unused
  unfold connectAttempt connectVerdict Process.socket
  cases rp.results with
  | true => simp [Process.ending, connectedTo]
  | false => simp [Process.ending, unused]

theorem decides_connect : decides connectVerdict = reachable := by
  funext rp
  unfold decides connectVerdict reachable
  cases rp.results <;> simp

section Outcomes
variable {getaddrinfo : Resolver Bool} {host service : Option String} {type : Int} {process after : Process}
variable {addresses skipped rest : List ActiveAddress} {rp : ActiveAddress} {sfd : Nat}

theorem connect_exhausted (resolves : getaddrinfo host service ⟨0, AF_INET, type⟩ = .ok addresses)
    (walked : walk connectAttempt addresses process = (.exhausted, after)) :
    sockConnect getaddrinfo host service type process = ⟨-1, none, after.freeaddrinfo⟩ := by
  simp only [sockConnect, resolves, walked]

theorem connect_broke (resolves : getaddrinfo host service ⟨0, AF_INET, type⟩ = .ok addresses)
    (walked : walk connectAttempt addresses process = (.broke sfd rp, after)) :
    sockConnect getaddrinfo host service type process = ⟨sfd, none, after.freeaddrinfo⟩ := by
  simp only [sockConnect, resolves, walked]

theorem connect_at (resolves : getaddrinfo host service ⟨0, AF_INET, type⟩ = .ok (skipped ++ rp :: rest))
    (fresh : process.Fresh (skipped ++ rp :: rest)) (unreachable : ∀ other ∈ skipped, reachable other = false)
    (given : rp.socket = some sfd) (connects : rp.results = true) :
    sockConnect getaddrinfo host service type process =
      ⟨sfd, none, ((process.passed skipped).put sfd (connectedTo rp)).freeaddrinfo⟩ := by
  have passing : ∀ other ∈ skipped, decides connectVerdict other = false := by
    rw [decides_connect]
    exact unreachable
  have ends : decides connectVerdict rp = true := by
    rw [decides_connect]
    simp [reachable, given, connects]
  have taken : connectVerdict rp = .taken := if_pos connects
  have walked := walk_at connectAttempt_comes fresh passing ends given
  rw [taken, if_pos rfl] at walked
  exact connect_broke resolves walked

theorem connect_nowhere (resolves : getaddrinfo host service ⟨0, AF_INET, type⟩ = .ok addresses)
    (fresh : process.Fresh addresses) (unreachable : ∀ other ∈ addresses, reachable other = false) :
    sockConnect getaddrinfo host service type process =
      ⟨-1, none, (process.passed addresses).freeaddrinfo⟩ := by
  have nowhere : addresses.find? (decides connectVerdict) = none := by
    rw [decides_connect, List.find?_eq_none]
    intro rp member
    simpa using unreachable rp member
  exact connect_exhausted resolves (walk_exhausts connectAttempt_comes fresh nowhere)

theorem firstReachable_none (unreachable : ∀ other ∈ addresses, reachable other = false) :
    FirstReachable addresses process ⟨-1, none, (process.passed addresses).freeaddrinfo⟩ where
  returns := by
    refine iff_of_false (fun wrong => wrong rfl) ?_
    rintro ⟨rp, member, reached⟩
    cases (unreachable rp member).symm.trans reached
  first := by
    intro skipped rp rest sfd shape _ given connects
    have member : rp ∈ addresses := shape ▸ List.mem_append_right _ List.mem_cons_self
    have never := unreachable rp member
    simp [reachable, given, connects] at never
  failed := fun _ => ⟨rfl, rfl⟩
  freed := rfl

theorem first_unique {others more : List ActiveAddress} {other : ActiveAddress}
    (same : skipped ++ rp :: rest = others ++ other :: more) (before : ∀ one ∈ skipped, reachable one = false)
    (also : ∀ one ∈ others, reachable one = false) (reached : reachable rp = true)
    (reachedToo : reachable other = true) : skipped = others ∧ rp = other := by
  have first : (skipped ++ rp :: rest).find? reachable = some rp := by
    apply List.find?_eq_some_iff_append.mpr
    exact ⟨reached, skipped, rest, rfl, fun one member => by simp [before one member]⟩
  have taken (list tail : List ActiveAddress) (last : ActiveAddress)
      (unreachable : ∀ one ∈ list, reachable one = false) (ends : reachable last = true) :
      (list ++ last :: tail).takeWhile (fun one => !reachable one) = list := by
    rw [List.takeWhile_append_of_pos (by simpa using unreachable), List.takeWhile_cons_of_neg (by simp [ends]),
      List.append_nil]
  have lists : skipped = others := by
    rw [← taken skipped rest rp before reached, same, taken others more other also reachedToo]
  subst lists
  exact ⟨rfl, (List.cons.inj (List.append_cancel_left same)).1⟩

theorem firstReachable_at (fresh : process.Fresh (skipped ++ rp :: rest))
    (unreachable : ∀ other ∈ skipped, reachable other = false) (given : rp.socket = some sfd)
    (connects : rp.results = true) :
    FirstReachable (skipped ++ rp :: rest) process
      ⟨sfd, none, ((process.passed skipped).put sfd (connectedTo rp)).freeaddrinfo⟩ where
  returns := by
    have reached : reachable rp = true := by simp [reachable, given, connects]
    refine iff_of_true ?_ ⟨rp, List.mem_append_right _ List.mem_cons_self, reached⟩
    intro (wrong : (sfd : Int) = -1)
    omega
  first := by
    intro others other more number shape also givenToo connectsToo
    obtain ⟨rfl, rfl⟩ := first_unique shape unreachable also (by simp [reachable, given, connects])
      (by simp [reachable, givenToo, connectsToo])
    obtain rfl := Option.some.inj (given.symm.trans givenToo)
    have unused := fresh rp (List.mem_append_right _ List.mem_cons_self) sfd given
    exact ⟨rfl, unused, rfl, rfl⟩
  failed := by
    intro (wrong : (sfd : Int) = -1)
    omega
  freed := rfl

/-- Whichever address list getaddrinfo returns, the first reachable address is connected to,
whatever comes after it, and the rest is closed. -/
theorem connects_first (getaddrinfo : Resolver Bool) (host service : Option String) (type : Int) (process : Process)
    (fresh : ∀ addresses, getaddrinfo host service ⟨0, AF_INET, type⟩ = .ok addresses → process.Fresh addresses) :
    match getaddrinfo host service ⟨0, AF_INET, type⟩ with
    | .error _ => sockConnect getaddrinfo host service type process = ⟨-1, some ENOSYS, process⟩
    | .ok addresses =>
      FirstReachable addresses process (sockConnect getaddrinfo host service type process) ∧
      ∀ skipped rp rest others, addresses = skipped ++ rp :: rest → reachable rp = true →
        sockConnect (fun _ _ _ => .ok (skipped ++ rp :: others)) host service type process =
          sockConnect getaddrinfo host service type process := by
  cases resolves : getaddrinfo host service ⟨0, AF_INET, type⟩ with
  | error number => simp only [sockConnect, resolves]
  | ok addresses =>
    have free := fresh addresses resolves
    constructor
    · cases found : addresses.find? reachable with
      | none =>
        have unreachable : ∀ other ∈ addresses, reachable other = false := by
          intro other member
          simpa using List.find?_eq_none.mp found other member
        rw [connect_nowhere resolves free unreachable]
        exact firstReachable_none unreachable
      | some rp =>
        obtain ⟨reached, skipped, rest, rfl, passed⟩ := List.find?_eq_some_iff_append.mp found
        have unreachable : ∀ other ∈ skipped, reachable other = false := by
          intro other member
          simpa using passed other member
        obtain ⟨given, connects⟩ : rp.socket.isSome = true ∧ rp.results = true := by
          simpa [reachable] using reached
        obtain ⟨sfd, socket⟩ := Option.isSome_iff_exists.mp given
        rw [connect_at resolves free unreachable socket connects]
        exact firstReachable_at free unreachable socket connects
    · intro skipped rp rest others shape reached
      subst shape
      obtain ⟨given, connects⟩ : rp.socket.isSome = true ∧ rp.results = true := by
        simpa [reachable] using reached
      obtain ⟨sfd, socket⟩ := Option.isSome_iff_exists.mp given
      have ends (now : Process) : (connectAttempt rp sfd now).1 ≠ .again := by
        unfold connectAttempt
        rw [if_pos connects]
        exact fun wrong => by cases wrong
      simp only [sockConnect, resolves]
      rw [walk_untried socket ends]

end Outcomes

def twoAddresses : List ActiveAddress :=
  [{ ai_family := AF_INET, ai_socktype := 1, ai_protocol := 6, ai_addr := [2, 0, 48, 57], ai_addrlen := 16
     socket := some 3, results := false },
   { ai_family := AF_INET, ai_socktype := 1, ai_protocol := 6, ai_addr := [2, 0, 48, 58], ai_addrlen := 16
     socket := some 3, results := true }]

theorem connects_first_second : (sockConnect (fun _ _ _ => .ok twoAddresses) (some "localhost") (some "12345") 1
    ⟨fun _ => none, [], 0⟩).process.closed = [3] := by
  have both := connects_first (fun _ _ _ => .ok twoAddresses) (some "localhost") (some "12345") 1 ⟨fun _ => none, [], 0⟩
    (fun _ _ _ _ _ _ => rfl)
  have refuses : ∀ other ∈ twoAddresses.take 1, reachable other = false := by
    intro other member
    obtain rfl := List.mem_singleton.mp member
    rfl
  exact (both.1.first (twoAddresses.take 1) _ [] 3 rfl refuses rfl rfl).2.2.2

end CppRt.SockInet
