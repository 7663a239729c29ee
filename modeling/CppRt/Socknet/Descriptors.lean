import CppRt.Library.Transition
import CppRt.Socknet.Syscall
import Mathlib.Data.List.Count
import Mathlib.Logic.Function.Basic

/-!
Sockets of any threads over one descriptor table. socket() and accept() give out a number
that is not in use. The destructor closes its number, and again when close was
interrupted, although an interrupted close has released the number all the same: by
then it can be the number of another socket.
-/

namespace CppRt.Socknet
open Library Transition

variable {Socket : Type*}

/-- Where a base_socket object is; `closing` is the loop of its destructor. -/
inductive Phase where
  | unborn
  | live (fd : Nat)
  | closing (fd : Nat)
  | destroyed
  deriving DecidableEq

structure Table (Socket : Type*) where
  owner : Nat → Option Socket
  phase : Socket → Phase

inductive DescriptorEvent (Socket : Type*) where
  | created (socket : Socket) (fd : Nat)
  | destroying (socket : Socket) (fd : Nat)
  /-- one call of close, which releases the descriptor it finds whatever its result -/
  | closed (socket : Socket) (fd : Nat) (owner : Socket) (result : Except Errno Unit)
  /-- one call of close that finds no descriptor: EBADF -/
  | notOpen (socket : Socket) (fd : Nat)

variable [DecidableEq Socket]

def Table.place (table : Table Socket) (socket : Socket) (phase : Phase) : Table Socket :=
  { table with phase := Function.update table.phase socket phase }

def Table.setOwner (table : Table Socket) (fd : Nat) (owner : Option Socket) : Table Socket :=
  { table with owner := Function.update table.owner fd owner }

inductive Table.Step (table : Table Socket) : Option (DescriptorEvent Socket) → Table Socket → Prop where
  | create {socket : Socket} {fd : Nat} (fresh : table.phase socket = .unborn) (unused : table.owner fd = none) :
      Step table (some (.created socket fd)) ((table.setOwner fd (some socket)).place socket (.live fd))
  | destroy {socket : Socket} {fd : Nat} (alive : table.phase socket = .live fd) :
      Step table (some (.destroying socket fd)) (table.place socket (.closing fd))
  -- TEMP_FAILURE_RETRY goes round again after EINTR and after nothing else
  | close {socket owner : Socket} {fd : Nat} {result : Except Errno Unit} (loops : table.phase socket = .closing fd)
      (isOpen : table.owner fd = some owner) :
      Step table (some (.closed socket fd owner result))
        ((table.setOwner fd none).place socket (if interrupted result then .closing fd else .destroyed))
  | notOpen {socket : Socket} {fd : Nat} (loops : table.phase socket = .closing fd) (unused : table.owner fd = none) :
      Step table (some (.notOpen socket fd)) (table.place socket .destroyed)

def descriptors (Socket : Type*) [DecidableEq Socket] : System (Table Socket) (DescriptorEvent Socket) where
  start table := table = ⟨fun _ => none, fun _ => .unborn⟩
  step := Table.Step

/-- No destructor is still at the number that a new socket gets. -/
def NotHeld (table : Table Socket) : Option (DescriptorEvent Socket) → Prop
  | some (.created _ fd) => ∀ other, table.phase other ≠ .closing fd
  | _ => True

def DescriptorEvent.releases (socket : Socket) : DescriptorEvent Socket → Bool
  | .closed _ _ owner _ => owner = socket
  | _ => false

/-- Every close is of the closer's own descriptor, and every descriptor is released once. -/
structure Owned (trace : List (DescriptorEvent Socket)) (table : Table Socket) : Prop where
  own : ∀ socket fd owner result, .closed socket fd owner result ∈ trace → owner = socket
  kept : ∀ socket fd, table.phase socket = .live fd → table.owner fd = some socket
  once : ∀ socket, trace.countP (DescriptorEvent.releases socket) ≤ 1
  released : ∀ socket, table.phase socket = .destroyed → trace.countP (DescriptorEvent.releases socket) = 1

def Table.Keeps (table : Table Socket) (socket : Socket) (releases : Nat) : Prop :=
  match table.phase socket with
  | .unborn => releases = 0 ∧ ∀ fd, table.owner fd ≠ some socket
  | .live at_ => releases = 0 ∧ ∀ fd, table.owner fd = some socket ↔ fd = at_
  | .closing at_ => (releases = 0 ∧ ∀ fd, table.owner fd = some socket ↔ fd = at_) ∨
      releases = 1 ∧ table.owner at_ = none ∧ ∀ fd, table.owner fd ≠ some socket
  | .destroyed => releases = 1 ∧ ∀ fd, table.owner fd ≠ some socket

structure Sound (trace : List (DescriptorEvent Socket)) (table : Table Socket) : Prop where
  own : ∀ socket fd owner result, .closed socket fd owner result ∈ trace → owner = socket
  keeps : ∀ socket, table.Keeps socket (trace.countP (DescriptorEvent.releases socket))

section Sound
variable {trace : List (DescriptorEvent Socket)} {table next : Table Socket} {event : DescriptorEvent Socket}

theorem count_snoc {socket : Socket} (quiet : event.releases socket = false) :
    (trace ++ [event]).countP (DescriptorEvent.releases socket) =
      trace.countP (DescriptorEvent.releases socket) := by
  simp [quiet]

omit [DecidableEq Socket] in
theorem Table.Keeps.frame {other : Socket} {releases : Nat} (keeps : table.Keeps other releases)
    (phase : next.phase other = table.phase other)
    (owner : ∀ fd, next.owner fd = some other ↔ table.owner fd = some other)
    (closed : ∀ fd, table.phase other = .closing fd → table.owner fd = none → next.owner fd = none) :
    next.Keeps other releases := by
  unfold Table.Keeps at keeps ⊢
  rw [phase]
  cases at_ : table.phase other with
  | unborn | destroyed | live =>
    rw [at_] at keeps
    simpa [owner] using keeps
  | closing fd =>
    rw [at_] at keeps
    rcases keeps with open_ | ⟨once, unused, nowhere⟩
    · left
      simpa [owner] using open_
    · right
      exact ⟨once, closed fd at_ unused, fun at_ wrong => nowhere at_ ((owner at_).mp wrong)⟩

theorem Sound.closes_own (sound : Sound trace table) {socket owner : Socket} {fd : Nat}
    (loops : table.phase socket = .closing fd) (isOpen : table.owner fd = some owner) :
    owner = socket ∧ trace.countP (DescriptorEvent.releases socket) = 0 ∧
      ∀ at_, table.owner at_ = some socket ↔ at_ = fd := by
  have keeps := sound.keeps socket
  unfold Table.Keeps at keeps
  rw [loops] at keeps
  rcases keeps with ⟨none_, here⟩ | ⟨_, unused, _⟩
  · have own := (here fd).mpr rfl
    exact ⟨Option.some.inj (isOpen.symm.trans own), none_, here⟩
  · cases unused.symm.trans isOpen

theorem Sound.create {socket : Socket} {fd : Nat} (sound : Sound trace table)
    (fresh : table.phase socket = .unborn) (unused : table.owner fd = none)
    (free : ∀ other, table.phase other ≠ .closing fd) :
    Sound (trace ++ [.created socket fd]) ((table.setOwner fd (some socket)).place socket (.live fd)) := by
  refine ⟨by simpa using sound.own, fun other => ?_⟩
  have before := sound.keeps other
  rw [count_snoc rfl]
  by_cases same : other = socket
  · subst same
    unfold Table.Keeps at before ⊢
    rw [fresh] at before
    simp only [Table.place, Table.setOwner, Function.update_self]
    refine ⟨before.1, fun at_ => ?_⟩
    by_cases here : at_ = fd
    · simp [here]
    · simp [here, before.2]
  · refine before.frame (Function.update_of_ne same _ _) ?_ ?_
    · intro at_
      by_cases here : at_ = fd
      · subst here
        simp [Table.place, Table.setOwner, unused, Ne.symm same]
      · simp [Table.place, Table.setOwner, here]
    · intro at_ loops none_
      have apart : at_ ≠ fd := by
        intro here
        exact free other (here ▸ loops)
      simpa [Table.place, Table.setOwner, apart] using none_

theorem Sound.destroy {socket : Socket} {fd : Nat} (sound : Sound trace table)
    (alive : table.phase socket = .live fd) :
    Sound (trace ++ [.destroying socket fd]) (table.place socket (.closing fd)) := by
  refine ⟨by simpa using sound.own, fun other => ?_⟩
  have before := sound.keeps other
  rw [count_snoc rfl]
  by_cases same : other = socket
  · subst same
    unfold Table.Keeps at before ⊢
    rw [alive] at before
    simp only [Table.place, Function.update_self]
    exact .inl before
  · exact before.frame (Function.update_of_ne same _ _) (fun _ => Iff.rfl) fun _ _ none_ => none_

theorem Sound.close {socket owner : Socket} {fd : Nat} {result : Except Errno Unit} (sound : Sound trace table)
    (loops : table.phase socket = .closing fd) (isOpen : table.owner fd = some owner) :
    Sound (trace ++ [.closed socket fd owner result])
      ((table.setOwner fd none).place socket (if interrupted result then .closing fd else .destroyed)) := by
  obtain ⟨rfl, none_, here⟩ := sound.closes_own loops isOpen
  constructor
  · intro closer at_ whose outcome member
    rcases List.mem_append.mp member with before | now
    · exact sound.own closer at_ whose outcome before
    · cases List.mem_singleton.mp now
      rfl
  · intro other
    have before := sound.keeps other
    by_cases same : other = owner
    · subst same
      have count : (trace ++ [DescriptorEvent.closed other fd other result]).countP
          (DescriptorEvent.releases other) = 1 := by
        simp [DescriptorEvent.releases, none_]
      have nowhere (at_ : Nat) : Function.update table.owner fd none at_ ≠ some other := by
        by_cases this_ : at_ = fd
        · simp [this_]
        · simp [this_, here]
      rw [count]
      unfold Table.Keeps
      simp only [Table.place, Table.setOwner, Function.update_self]
      by_cases again : interrupted result = true
      · rw [if_pos again]
        exact .inr ⟨trivial, by simp, nowhere⟩
      · rw [if_neg again]
        exact ⟨trivial, nowhere⟩
    · rw [count_snoc (by simp [DescriptorEvent.releases, Ne.symm same])]
      refine before.frame (Function.update_of_ne same _ _) ?_ ?_
      · intro at_
        by_cases this_ : at_ = fd
        · subst this_
          simp [Table.place, Table.setOwner, isOpen, Ne.symm same]
        · simp [Table.place, Table.setOwner, this_]
      · intro at_ _ unused
        by_cases this_ : at_ = fd
        · simp [Table.place, Table.setOwner, this_]
        · simpa [Table.place, Table.setOwner, this_] using unused

theorem Sound.notOpen {socket : Socket} {fd : Nat} (sound : Sound trace table)
    (loops : table.phase socket = .closing fd) (unused : table.owner fd = none) :
    Sound (trace ++ [.notOpen socket fd]) (table.place socket .destroyed) := by
  refine ⟨by simpa using sound.own, fun other => ?_⟩
  have before := sound.keeps other
  rw [count_snoc rfl]
  by_cases same : other = socket
  · subst same
    unfold Table.Keeps at before ⊢
    rw [loops] at before
    simp only [Table.place, Function.update_self]
    rcases before with ⟨_, here⟩ | ⟨once, _, nowhere⟩
    · cases unused.symm.trans ((here fd).mpr rfl)
    · exact ⟨once, nowhere⟩
  · exact before.frame (Function.update_of_ne same _ _) (fun _ => Iff.rfl) fun _ _ none_ => none_

theorem sound_of_reaches (reached : ((descriptors Socket).within NotHeld).Reaches trace table) :
    Sound trace table := by
  refine reached.invariant Sound ?_ ?_
  · intro first begins
    obtain rfl := begins
    refine ⟨fun _ _ _ _ member => ?_, fun socket => ?_⟩
    · cases member
    · exact ⟨rfl, fun _ wrong => by cases wrong⟩
  · intro trace table label next _ sound step
    obtain ⟨guarded, step⟩ := step
    cases step with
    | create fresh unused => exact sound.create fresh unused guarded
    | destroy alive => exact sound.destroy alive
    | close loops isOpen => exact sound.close loops isOpen
    | notOpen loops unused => exact sound.notOpen loops unused

theorem owned_of_sound (sound : Sound trace table) : Owned trace table := by
  refine ⟨sound.own, fun socket fd alive => ?_, fun socket => ?_, fun socket gone => ?_⟩
  · have keeps := sound.keeps socket
    unfold Table.Keeps at keeps
    rw [alive] at keeps
    exact (keeps.2 fd).mpr rfl
  · have keeps := sound.keeps socket
    unfold Table.Keeps at keeps
    split at keeps <;> omega
  · have keeps := sound.keeps socket
    unfold Table.Keeps at keeps
    rw [gone] at keeps
    exact keeps.1

/-- As long as no number that a destructor still holds is given to a new socket, every socket
keeps its descriptor until its own destructor releases it, once. And whenever such a number
is given to a new socket, the destructor's next close can be of that socket's descriptor. -/
theorem owned_unless_held :
    (∀ trace (table : Table Socket), ((descriptors Socket).within NotHeld).Reaches trace table → Owned trace table) ∧
    ∀ trace (table : Table Socket), (descriptors Socket).Reaches trace table → ∀ socket fd next,
      table.Step (some (.created socket fd)) next → ¬NotHeld table (some (.created socket fd)) →
      ∃ other last, other ≠ socket ∧ next.Step (some (.closed other fd socket (.ok ()))) last := by
  refine ⟨fun trace table reached => owned_of_sound (sound_of_reaches reached), ?_⟩
  intro trace table _ socket fd next step held
  simp only [NotHeld, not_forall, not_not] at held
  obtain ⟨other, loops⟩ := held
  cases step with
  | create fresh unused =>
    have different : other ≠ socket := by
      intro same
      subst same
      cases fresh.symm.trans loops
    refine ⟨other, _, different, Table.Step.close ?_ ?_⟩
    · exact (Function.update_of_ne different _ _).trans loops
    · exact Function.update_self _ _ _

end Sound

/-- Close of the first socket's number is interrupted, the second socket gets the number, and
the first closes it again. -/
theorem closes_anothers : ¬∀ trace table, (descriptors Bool).Reaches trace table → Owned trace table := by
  intro all
  let start : Table Bool := ⟨fun _ => none, fun _ => .unborn⟩
  let live := (start.setOwner 3 (some false)).place false (.live 3)
  let closing := live.place false (.closing 3)
  let again := (closing.setOwner 3 none).place false (.closing 3)
  let reused := (again.setOwner 3 (some true)).place true (.live 3)
  have created : (descriptors Bool).step start (some (.created false 3)) live := Table.Step.create rfl rfl
  have destroying : (descriptors Bool).step live (some (.destroying false 3)) closing := Table.Step.destroy rfl
  have interrupts : (descriptors Bool).step closing (some (.closed false 3 false (.error .EINTR))) again :=
    Table.Step.close rfl rfl
  have reuses : (descriptors Bool).step again (some (.created true 3)) reused := Table.Step.create rfl rfl
  have closes : (descriptors Bool).step reused (some (.closed false 3 true (.ok ()))) _ := Table.Step.close rfl rfl
  have reached := (((((System.Reaches.first rfl).tail created).tail destroying).tail interrupts).tail reuses).tail closes
  have own := (all _ _ reached).own false 3 true (.ok ()) (by simp)
  cases own

end CppRt.Socknet
