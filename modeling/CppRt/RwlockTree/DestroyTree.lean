import CppRt.RwlockTree.Sequential

/-!
destroy_tree and the destructor. The recursion deletes the nodes below root, children
first; `leaf = NULL` at its end clears the parameter of the call and not the pointer it
was read from, so that root still points to the deleted node. What follows then reads
or deletes a node that is not there.
-/

namespace CppRt.RwlockTree
open Library Transition Concurrent

variable {Addr : Type*}

/-- Why a call does not return: an access to what is not there, or no steps left. -/
inductive Stop where
  | undefined
  | unfinished
  deriving DecidableEq

def checked {Value : Type*} : Option Value → Except Stop Value
  | none => .error .undefined
  | some value => .ok value

namespace Memory

def without [DecidableEq Addr] (memory : Memory Addr) (labels : List Addr) : Memory Addr :=
  { memory with heap := fun leaf => if leaf ∈ labels then none else memory.heap leaf }

def delete [DecidableEq Addr] (memory : Memory Addr) (leaf : Addr) : Option (Memory Addr) :=
  (memory.heap leaf).map fun _ => { memory with heap := Function.update memory.heap leaf none }

end Memory

def destroyTree [DecidableEq Addr] : Nat → Option Addr → Memory Addr → Except Stop (Memory Addr)
  | _, none, memory => .ok memory
  | 0, some _, _ => .error .unfinished
  | fuel + 1, some leaf, memory => do
    let left ← checked (memory.load (.child leaf .left))
    let memory ← destroyTree fuel left memory
    let right ← checked (memory.load (.child leaf .right))
    let memory ← destroyTree fuel right memory
    checked (memory.delete leaf)

section Spec
variable [DecidableEq Addr] {memory : Memory Addr} {tree : SearchTree Addr Int} {pointer : Option Addr}

theorem Memory.Shows.without (shown : memory.Shows pointer tree) {labels : List Addr}
    (apart : ∀ leaf ∈ tree.labels, leaf ∉ labels) : (memory.without labels).Shows pointer tree := by
  have kept (leaf : Addr) (member : leaf ∈ tree.labels) : (memory.without labels).heap leaf = memory.heap leaf :=
    if_neg (apart leaf member)
  exact shown.frame (fun leaf member => Memory.keyValue_congr (kept leaf member))
    fun leaf member side => Memory.load_congr (kept leaf member)

theorem Memory.without_congr {labels others : List Addr} (same : ∀ leaf, leaf ∈ labels ↔ leaf ∈ others) :
    memory.without labels = memory.without others := by
  unfold Memory.without
  congr 1
  funext leaf
  simp only [same]

theorem Memory.without_without (labels others : List Addr) :
    (memory.without labels).without others = memory.without (labels ++ others) := by
  unfold Memory.without
  congr 1
  funext leaf
  by_cases here : leaf ∈ labels <;> simp [here]

theorem Memory.delete_without {labels : List Addr} {leaf : Addr} (alive : memory.heap leaf ≠ none)
    (outside : leaf ∉ labels) : (memory.without labels).delete leaf = some (memory.without (labels ++ [leaf])) := by
  obtain ⟨node, there⟩ := Option.ne_none_iff_exists'.mp alive
  unfold Memory.delete Memory.without
  simp only [if_neg outside, there, Option.map_some, Option.some.injEq]
  congr 1
  funext other
  by_cases same : other = leaf
  · simp [same]
  · simp [same]

/-- destroy_tree deletes the nodes of the tree it is given, each once, and nothing else. -/
theorem destroyTree_shows (shown : memory.Shows pointer tree) (distinct : tree.labels.Nodup) (fuel : Nat) :
    destroyTree fuel pointer memory = .ok (memory.without tree.labels) ∨
      fuel < tree.labels.length ∧ destroyTree fuel pointer memory = .error .unfinished := by
  induction tree generalizing memory pointer fuel with
  | empty =>
    obtain rfl : pointer = none := shown
    left
    cases fuel <;> simp [destroyTree, Memory.without]
  | node leaf key left right first second =>
    obtain ⟨rfl, own, ⟨toLeft, leftLink, leftShown⟩, toRight, rightLink, rightShown⟩ := shown
    obtain ⟨leftDistinct, rightDistinct, notLeft, notRight, disjoint⟩ := SearchTree.nodup_node distinct
    simp only [SearchTree.labels_node, List.length_append, List.length_cons]
    cases fuel with
    | zero => exact .inr ⟨by omega, rfl⟩
    | succ fuel =>
      rcases first leftShown leftDistinct fuel with destroyed | ⟨short, stopped⟩
      · have link : (memory.without left.labels).load (.child leaf .right) = some toRight :=
          (Memory.load_congr (if_neg notLeft)).trans rightLink
        have shownThen := rightShown.without fun other there here => disjoint other here there
        rcases second shownThen rightDistinct fuel with destroyedToo | ⟨short, stopped⟩
        · left
          have alive : memory.heap leaf ≠ none := by
            intro wrong
            rw [Memory.keyValue, wrong] at own
            cases own
          have outside : leaf ∉ left.labels ++ right.labels := by
            simpa using ⟨notLeft, notRight⟩
          have all (other : Addr) : other ∈ left.labels ++ right.labels ++ [leaf] ↔
              other ∈ left.labels ++ leaf :: right.labels := by
            simp only [List.mem_append, List.mem_cons, List.not_mem_nil, or_false]
            tauto
          have last := Memory.delete_without alive outside
          rw [Memory.without_without] at destroyedToo
          rw [Memory.without_congr all] at last
          simp [destroyTree, checked, leftLink, destroyed, link, destroyedToo, last, bind, Except.bind]
        · right
          refine ⟨by omega, ?_⟩
          simp [destroyTree, checked, leftLink, destroyed, link, stopped, bind, Except.bind]
      · right
        refine ⟨by omega, ?_⟩
        simp [destroyTree, checked, leftLink, stopped, bind, Except.bind]

end Spec

structure Lifetime (Addr : Type*) where
  memory : Memory Addr
  destructed : Bool

inductive Event where
  | inserted (key : Int)
  | searched (key : Int) (result : Bool)
  | destroyed
  | destructed
  | undefined

section Lifetime
variable [DecidableEq Addr]

inductive Step (state : Lifetime Addr) : Option Event → Lifetime Addr → Prop where
  | insert {key : Int} {later : Memory Addr} (alive : state.destructed = false)
      (returned : Returns state.memory (.insert key) .inserted later) :
      Step state (some (.inserted key)) { state with memory := later }
  | search {key : Int} {result : Bool} {later : Memory Addr} (alive : state.destructed = false)
      (returned : Returns state.memory (.search key) (.found result) later) :
      Step state (some (.searched key result)) { state with memory := later }
  | destroyTree {fuel : Nat} {later : Memory Addr} (alive : state.destructed = false)
      (returned : destroyTree fuel state.memory.root state.memory = .ok later) :
      Step state (some .destroyed) { state with memory := later }
  -- the destructor calls destroy_tree
  | destruct {fuel : Nat} {later : Memory Addr} (alive : state.destructed = false)
      (returned : destroyTree fuel state.memory.root state.memory = .ok later) :
      Step state (some .destructed) ⟨later, true⟩
  | undefined {call : Call} (alive : state.destructed = false) (faults : Faults state.memory call) :
      Step state (some .undefined) state
  | undefinedDestroy {fuel : Nat} (alive : state.destructed = false)
      (stops : destroyTree fuel state.memory.root state.memory = .error .undefined) :
      Step state (some .undefined) state

def lifetime (Addr : Type*) [DecidableEq Addr] : System (Lifetime Addr) Event where
  start state := state = ⟨⟨none, fun _ => none⟩, false⟩
  step := Step

end Lifetime

inductive Reachable (memory : Memory Addr) : Addr → Prop where
  | root {leaf : Addr} (read : memory.root = some leaf) : Reachable memory leaf
  | child {parent leaf : Addr} {side : Side} (above : Reachable memory parent)
      (read : memory.load (.child parent side) = some (some leaf)) : Reachable memory leaf

/-- What a call does to the keys that should be there. -/
def Event.keep (keys : List Int) : Event → List Int
  | .inserted key => keys ++ [key]
  | .searched _ _ => keys
  | .undefined => keys
  | .destroyed => []
  | .destructed => []

def present (trace : List Event) : List Int := trace.foldl Event.keep []

@[simp] theorem present_snoc (trace : List Event) (event : Event) :
    present (trace ++ [event]) = event.keep (present trace) := by
  simp [present]

/-- What it takes to be usable across destroy_tree. -/
structure Usable (trace : List Event) (state : Lifetime Addr) : Prop where
  allocated : state.destructed = false → ∀ leaf, Reachable state.memory leaf → state.memory.heap leaf ≠ none
  defined : .undefined ∉ trace
  freed : state.destructed = true → ∀ leaf, state.memory.heap leaf = none
  found : Throughout (fun before event => ∀ key result, event = .searched key result →
    (result = true ↔ key ∈ present before)) trace

/-- destroy_tree is only called on a tree into which nothing has been inserted. -/
def DestroysEmpty (trace : List Event) : Prop :=
  Throughout (fun before event => event = .destroyed → ∀ key, .inserted key ∉ before) trace

section Invariant
variable {trace : List Event} {memory later : Memory Addr} {tree : SearchTree Addr Int} {pointer : Option Addr}

theorem Memory.Shows.reachable (shown : memory.Shows pointer tree) {leaf next : Addr} {side : Side}
    (member : leaf ∈ tree.labels) (read : memory.load (.child leaf side) = some (some next)) :
    next ∈ tree.labels := by
  induction tree generalizing pointer with
  | empty => cases member
  | node label key left right first second =>
    obtain ⟨rfl, own, ⟨toLeft, leftLink, leftShown⟩, toRight, rightLink, rightShown⟩ := shown
    have head {tree : SearchTree Addr Int} {pointer : Option Addr} (shown : memory.Shows pointer tree)
        (points : pointer = some next) : next ∈ tree.labels := by
      cases tree with
      | empty => cases shown.symm.trans points
      | node _ _ _ _ =>
        cases shown.1.symm.trans points
        simp
    simp only [SearchTree.labels_node, List.mem_append, List.mem_cons] at member ⊢
    rcases member with inLeft | rfl | inRight
    · exact .inl (first leftShown inLeft)
    · cases side with
      | left => exact .inl (head leftShown (Option.some.inj (leftLink.symm.trans read)))
      | right => exact .inr (.inr (head rightShown (Option.some.inj (rightLink.symm.trans read))))
    · exact .inr (.inr (second rightShown inRight))

theorem Memory.Holds.reachable (holds : memory.Holds tree) {leaf : Addr} (reachable : Reachable memory leaf) :
    leaf ∈ tree.labels := by
  induction reachable with
  | root read =>
    cases tree with
    | empty => cases holds.shows.symm.trans read
    | node _ _ _ _ =>
      cases holds.shows.1.symm.trans read
      simp
  | child above read ih => exact holds.shows.reachable ih read

variable [DecidableEq Addr]

theorem destroyed_of_holds (holds : memory.Holds tree) {fuel : Nat}
    (returned : destroyTree fuel memory.root memory = .ok later) :
    later = memory.without tree.labels ∧ ∀ leaf, later.heap leaf = none := by
  rcases destroyTree_shows holds.shows holds.distinct fuel with destroyed | ⟨_, stopped⟩
  · cases destroyed.symm.trans returned
    refine ⟨rfl, fun leaf => ?_⟩
    by_cases inside : leaf ∈ tree.labels
    · exact if_pos inside
    · refine (if_neg inside).trans ?_
      by_contra there
      exact inside (holds.all leaf there)
  · cases stopped.symm.trans returned

theorem not_undefined_of_holds (holds : memory.Holds tree) (fuel : Nat) :
    destroyTree fuel memory.root memory ≠ .error .undefined := by
  intro stops
  rcases destroyTree_shows holds.shows holds.distinct fuel with destroyed | ⟨_, stopped⟩
  · cases destroyed.symm.trans stops
  · cases stopped.symm.trans stops

/-- root points to a node that has been deleted. -/
def Dangling (memory : Memory Addr) : Prop := ∃ leaf, memory.root = some leaf ∧ memory.heap leaf = none

def Astray (memory : Memory Addr) (leaf : Addr) : Pc Addr → Prop
  | .test _ .root => memory.root = some leaf
  | .descend _ .root => memory.root = some leaf
  | .less _ pointer => pointer = some leaf
  | .readRoot _ => memory.root = some leaf
  | .visit _ pointer => pointer = some leaf
  | .equal _ at_ => at_ = leaf
  | _ => False

theorem Local.astray {pc after : Pc Addr} {action : Option (Action Call Ret)} {leaf : Addr}
    (moved : Local memory pc action later after) (gone : memory.heap leaf = none)
    (astray : Astray memory leaf pc) : later = memory ∧ Astray memory leaf after := by
  have unread : memory.keyValue leaf = none := by rw [Memory.keyValue, gone]; rfl
  cases moved with
  | @testNull key place read =>
    cases place with
    | root => cases (congrArg some astray).symm.trans read
    | child => exact astray.elim
  | @testNode key place _ read =>
    cases place with
    | root => exact ⟨rfl, astray⟩
    | child => exact astray.elim
  | @descend key place pointer read =>
    cases place with
    | root =>
      refine ⟨rfl, ?_⟩
      exact (Option.some.inj read).symm.trans astray
    | child => exact astray.elim
  | less read | lessNot read =>
    cases astray
    cases unread.symm.trans read
  | readRoot => exact ⟨rfl, astray⟩
  | visitNull => cases astray
  | visitNode =>
    cases astray
    exact ⟨rfl, rfl⟩
  | equal read | different read =>
    cases astray
    cases unread.symm.trans read
  | fault fails => exact ⟨rfl, astray⟩
  | _ => exact astray.elim

theorem not_returns_of_dangling (dangling : Dangling memory) (call : Call) (ret : Ret) :
    ¬Returns memory call ret later := by
  intro returned
  obtain ⟨leaf, root, gone⟩ := dangling
  have stays {last : Memory Addr} {pc : Pc Addr} (executes : Executes memory call.locked last pc) :
      last = memory ∧ Astray memory leaf pc := by
    induction executes with
    | refl => cases call <;> exact ⟨rfl, root⟩
    | tail before moved ih =>
      obtain ⟨rfl, astray⟩ := ih
      exact moved.astray gone astray
  have ends := (stays returned).2
  cases ret <;> exact ends

theorem not_destroyed_of_dangling (dangling : Dangling memory) (fuel : Nat) :
    destroyTree fuel memory.root memory ≠ .ok later := by
  intro returned
  obtain ⟨leaf, root, gone⟩ := dangling
  rw [root] at returned
  cases fuel with
  | zero => cases returned
  | succ fuel => simp [destroyTree, Memory.load, gone, checked, bind, Except.bind] at returned

theorem present_nil (nothing : ∀ key, .inserted key ∉ trace) : present trace = [] := by
  induction trace using List.reverseRecOn with
  | nil => rfl
  | append_singleton trace event ih =>
    have earlier := ih fun key member => nothing key (List.mem_append_left _ member)
    rw [present_snoc, earlier]
    cases event with
    | inserted key => exact absurd (List.mem_append_right _ List.mem_cons_self) (nothing key)
    | _ => rfl

structure Lived (trace : List Event) (state : Lifetime Addr) : Prop where
  holds : state.destructed = false → ∃ tree, state.memory.Holds tree ∧ tree.keys.Perm (present trace) ∧
    ∀ key, .inserted key ∈ trace → key ∈ present trace
  defined : .undefined ∉ trace
  freed : state.destructed = true → ∀ leaf, state.memory.heap leaf = none
  found : Throughout (fun before event => ∀ key result, event = .searched key result →
    (result = true ↔ key ∈ present before)) trace

variable {state next : Lifetime Addr} {event : Event}

namespace Lived
variable {key : Int} {result : Bool} {fuel : Nat}

theorem insert (lived : Lived trace state) (alive : state.destructed = false)
    (returned : Returns state.memory (.insert key) .inserted later) :
    Lived (trace ++ [.inserted key]) { state with memory := later } := by
  obtain ⟨tree, holds, same, inserted⟩ := lived.holds alive
  obtain ⟨target, grown⟩ := grown_of_returns holds returned
  refine ⟨?_, by simpa using lived.defined, ?_, by simpa using lived.found⟩
  · intro _
    refine ⟨tree.insert target key, grown.holds_insert holds, ?_, ?_⟩
    · rw [present_snoc]
      exact SearchTree.insert_keys.trans ((same.cons key).trans (List.perm_append_singleton key _).symm)
    · intro other member
      rw [present_snoc]
      rcases List.mem_append.mp member with before | now
      · exact List.mem_append_left _ (inserted other before)
      · cases List.mem_singleton.mp now
        exact List.mem_append_right _ List.mem_cons_self
  · intro gone
    cases alive.symm.trans gone

theorem search (lived : Lived trace state) (alive : state.destructed = false)
    (returned : Returns state.memory (.search key) (.found result) later) :
    Lived (trace ++ [.searched key result]) { state with memory := later } := by
  obtain ⟨tree, holds, same, inserted⟩ := lived.holds alive
  obtain ⟨unchanged, answer⟩ := found_of_returns holds returned
  subst unchanged
  have kept : tree.keys.Perm (present (trace ++ [.searched key result])) := by simpa [Event.keep] using same
  refine ⟨(fun _ => ⟨tree, holds, kept, ?_⟩), by simpa using lived.defined, lived.freed, ?_⟩
  · simpa [Event.keep] using inserted
  · rw [throughout_snoc]
    refine ⟨lived.found, fun other answered shape => ?_⟩
    cases shape
    cases answer
    simp [same.mem_iff]

theorem destroyTree (lived : Lived trace state) (alive : state.destructed = false)
    (returned : RwlockTree.destroyTree fuel state.memory.root state.memory = .ok later)
    (nothing : ∀ key, .inserted key ∉ trace) : Lived (trace ++ [.destroyed]) { state with memory := later } := by
  obtain ⟨tree, holds, same, inserted⟩ := lived.holds alive
  obtain ⟨left_, gone⟩ := destroyed_of_holds holds returned
  rw [present_nil nothing] at same
  have empty : tree = .empty := by
    cases tree with
    | empty => rfl
    | node => simp at same
  subst empty
  have root : later.root = none := by rw [left_]; exact holds.shows
  have fresh : later.Holds .empty := ⟨root, holds.distinct, trivial, fun leaf there => absurd (gone leaf) there⟩
  refine ⟨(fun _ => ⟨.empty, fresh, ?_, ?_⟩), by simpa using lived.defined, fun _ => gone, by simpa using lived.found⟩
  · rw [present_snoc]
    exact .nil
  · intro key member
    exact absurd (by simpa using member) (nothing key)

theorem dangling (lived : Lived trace state) (alive : state.destructed = false)
    (returned : RwlockTree.destroyTree fuel state.memory.root state.memory = .ok later)
    (something : ¬∀ key, .inserted key ∉ trace) : Dangling later := by
  obtain ⟨tree, holds, same, inserted⟩ := lived.holds alive
  obtain ⟨left_, gone⟩ := destroyed_of_holds holds returned
  cases tree with
  | empty =>
    simp only [not_forall, not_not] at something
    obtain ⟨key, member⟩ := something
    exact absurd (same.mem_iff.mpr (inserted key member)) (by simp)
  | node leaf key left right =>
    refine ⟨leaf, ?_, gone leaf⟩
    rw [left_]
    exact holds.shows.1

theorem destruct (lived : Lived trace state) (alive : state.destructed = false)
    (returned : RwlockTree.destroyTree fuel state.memory.root state.memory = .ok later) :
    Lived (trace ++ [.destructed]) ⟨later, true⟩ := by
  obtain ⟨tree, holds, _⟩ := lived.holds alive
  obtain ⟨_, gone⟩ := destroyed_of_holds holds returned
  exact ⟨(fun wrong => by cases wrong), by simpa using lived.defined, fun _ => gone, by simpa using lived.found⟩

theorem step (lived : Lived trace state) (step : Step state (some event) next) :
    (event = .destroyed → ∀ key, .inserted key ∉ trace) ∧ Lived (trace ++ [event]) next ∨
      ¬(event = .destroyed → ∀ key, .inserted key ∉ trace) ∧ next.destructed = false ∧ Dangling next.memory := by
  cases step with
  | insert alive returned => exact .inl ⟨(fun wrong => by cases wrong), lived.insert alive returned⟩
  | search alive returned => exact .inl ⟨(fun wrong => by cases wrong), lived.search alive returned⟩
  | destroyTree alive returned =>
    by_cases nothing : ∀ key, .inserted key ∉ trace
    · exact .inl ⟨fun _ => nothing, lived.destroyTree alive returned nothing⟩
    · exact .inr ⟨fun only => nothing (only rfl), alive, lived.dangling alive returned nothing⟩
  | destruct alive returned => exact .inl ⟨(fun wrong => by cases wrong), lived.destruct alive returned⟩
  | undefined alive faults =>
    obtain ⟨tree, holds, _⟩ := lived.holds alive
    exact absurd faults (not_faults holds _)
  | @undefinedDestroy fuel alive stops =>
    obtain ⟨tree, holds, _⟩ := lived.holds alive
    exact absurd stops (not_undefined_of_holds holds fuel)

end Lived

theorem lived_or_dangling (reached : (lifetime Addr).Reaches trace state) :
    DestroysEmpty trace ∧ Lived trace state ∨
      ¬DestroysEmpty trace ∧ state.destructed = false ∧ Dangling state.memory := by
  refine reached.invariant (fun trace state => DestroysEmpty trace ∧ Lived trace state ∨
    ¬DestroysEmpty trace ∧ state.destructed = false ∧ Dangling state.memory) ?_ ?_
  · intro first begins
    obtain rfl := begins
    left
    refine ⟨throughout_nil, fun _ => ⟨.empty, Memory.holds_empty, .nil, ?_⟩, ?_, ?_, throughout_nil⟩
    · intro key member
      cases member
    · intro member
      cases member
    · intro wrong
      cases wrong
  · intro trace state label next _ kept step
    cases label with
    | none => cases step
    | some event =>
      simp only [Option.toList_some, DestroysEmpty, throughout_snoc]
      rcases kept with ⟨empties, lived⟩ | ⟨not_, alive, dangling⟩
      · rcases lived.step step with ⟨now, later⟩ | ⟨now, later⟩
        · exact .inl ⟨⟨empties, now⟩, later⟩
        · exact .inr ⟨fun both => now both.2, later⟩
      · right
        refine ⟨fun both => not_ both.1, ?_⟩
        cases step with
        | insert _ returned | search _ returned => exact absurd returned (not_returns_of_dangling dangling _ _)
        | destroyTree _ returned | destruct _ returned => exact absurd returned (not_destroyed_of_dangling dangling _)
        | undefined | undefinedDestroy => exact ⟨alive, dangling⟩

omit [DecidableEq Addr] in
theorem not_usable_of_dangling (alive : state.destructed = false) (dangling : Dangling state.memory) :
    ¬Usable trace state := by
  intro usable
  obtain ⟨leaf, root, gone⟩ := dangling
  exact usable.allocated alive leaf (.root root) gone

omit [DecidableEq Addr] in
theorem usable_of_lived (lived : Lived trace state) : Usable trace state where
  allocated alive leaf reachable := by
    obtain ⟨tree, holds, _⟩ := lived.holds alive
    exact holds.allocated (holds.reachable reachable)
  defined := lived.defined
  freed := lived.freed
  found := lived.found

theorem steps_of_lived [Infinite Addr] (lived : Lived trace state) (alive : state.destructed = false) :
    (∀ key, ∃ next, Step state (some (.inserted key)) next) ∧
    (∀ key, ∃ result next, Step state (some (.searched key result)) next) ∧
    (∃ next, Step state (some .destroyed) next) ∧ ∃ next, Step state (some .destructed) next := by
  obtain ⟨tree, holds, _⟩ := lived.holds alive
  have destroyed : destroyTree tree.labels.length state.memory.root state.memory = .ok (state.memory.without tree.labels) := by
    rcases destroyTree_shows holds.shows holds.distinct tree.labels.length with destroyed | ⟨short, _⟩
    · exact destroyed
    · exact absurd short (Nat.lt_irrefl _)
  refine ⟨fun key => ?_, fun key => ?_, ⟨_, .destroyTree alive destroyed⟩, ⟨_, .destruct alive destroyed⟩⟩
  · obtain ⟨target, fresh⟩ := exists_fresh holds
    obtain ⟨later, returned⟩ := insert_returns holds fresh key
    exact ⟨_, .insert alive returned⟩
  · obtain ⟨ret, returned⟩ := search_returns holds key
    obtain ⟨_, rfl⟩ := found_of_returns holds returned
    exact ⟨_, _, .search alive returned⟩

/-- The btree is usable exactly in the runs in which destroy_tree is never called after an
insert; in these every further call returns. -/
theorem usable_iff_destroys_empty [Infinite Addr] (reached : (lifetime Addr).Reaches trace state) :
    (Usable trace state ↔ DestroysEmpty trace) ∧
    (DestroysEmpty trace → state.destructed = false →
      (∀ key, ∃ next, Step state (some (.inserted key)) next) ∧
      (∀ key, ∃ result next, Step state (some (.searched key result)) next) ∧
      (∃ next, Step state (some .destroyed) next) ∧ ∃ next, Step state (some .destructed) next) := by
  rcases lived_or_dangling reached with ⟨empties, lived⟩ | ⟨fails, alive, dangling⟩
  · exact ⟨⟨fun _ => empties, fun _ => usable_of_lived lived⟩, fun _ alive => steps_of_lived lived alive⟩
  · refine ⟨⟨fun usable => ?_, fun empties => ?_⟩, fun empties => ?_⟩
    · exact absurd usable (not_usable_of_dangling alive dangling)
    · exact absurd empties fails
    · exact absurd empties fails

end Invariant

theorem reaches_inserted_destroyed :
    ∃ state : Lifetime Nat, (lifetime Nat).Reaches [.inserted 1, .destroyed] state ∧
      state.destructed = false ∧ Dangling state.memory := by
  have empty : (⟨none, fun _ => none⟩ : Memory Nat).Holds .empty := Memory.holds_empty
  have fresh : (⟨none, fun _ => none⟩ : Memory Nat).heap 0 = none := rfl
  obtain ⟨memory, returned⟩ := insert_returns empty fresh 1
  obtain ⟨target, grown⟩ := grown_of_returns empty returned
  have holds : memory.Holds (.node target 1 .empty .empty) := grown.holds_insert empty
  have destroyed : destroyTree 1 memory.root memory = .ok (memory.without [target]) := by
    rcases destroyTree_shows holds.shows holds.distinct 1 with destroyed | ⟨short, _⟩
    · exact destroyed
    · exact absurd short (Nat.lt_irrefl _)
  have inserts : (lifetime Nat).step ⟨⟨none, fun _ => none⟩, false⟩ (some (.inserted 1)) ⟨memory, false⟩ :=
    Step.insert rfl returned
  have destroys : (lifetime Nat).step ⟨memory, false⟩ (some .destroyed) ⟨memory.without [target], false⟩ :=
    Step.destroyTree rfl destroyed
  refine ⟨_, ((System.Reaches.first rfl).tail inserts).tail destroys, rfl, target, holds.shows.1, ?_⟩
  exact if_pos List.mem_cons_self

theorem unusable_after_destroy :
    ¬∀ trace state, (lifetime Nat).Reaches trace state → Usable trace state := by
  intro all
  obtain ⟨state, reached, alive, dangling⟩ := reaches_inserted_destroyed
  exact not_usable_of_dangling alive dangling (all _ _ reached)

theorem usable_iff_destroys_empty_once :
    ∃ state : Lifetime Nat, (lifetime Nat).Reaches [.inserted 1, .destroyed] state ∧
      ¬DestroysEmpty [.inserted 1, .destroyed] := by
  obtain ⟨state, reached, alive, dangling⟩ := reaches_inserted_destroyed
  refine ⟨state, reached, fun empties => ?_⟩
  exact not_usable_of_dangling alive dangling ((usable_iff_destroys_empty reached).1.mpr empties)

end CppRt.RwlockTree
