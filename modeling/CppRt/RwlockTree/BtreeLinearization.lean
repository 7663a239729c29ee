import CppRt.RwlockTree.BtreeInvariant

/-!
btree refines a set of keys. An insert takes effect when it writes the key of its
node, a search when it finds its key or reaches a null pointer. Both happen inside
the locked section, and a step inside it fails on no access.
-/

namespace CppRt.RwlockTree
open Library Concurrent RwLock

open Classical in
/-- A set of keys that only grows. -/
noncomputable def keySet : Sequential (Set Int) Call Ret where
  initial := ∅
  apply keys call := match call with
    | .insert key => some (insert key keys, .inserted)
    | .search key => some (keys, .found (decide (key ∈ keys)))

section History
variable {history : List (Call × Ret)} {keys : Set Int} {key : Int}

theorem mem_iff_inserted (valid : keySet.History history keys) :
    key ∈ keys ↔ (.insert key, .inserted) ∈ history := by
  induction valid with
  | nil => simp [keySet]
  | @snoc history before later call ret _ applied ih =>
    cases call with
    | insert other =>
      cases applied
      rw [Set.mem_insert_iff, ih]
      simp [or_comm]
    | search other =>
      cases applied
      simp [ih]

theorem mem_of_found (valid : keySet.History history keys)
    (found : (.search key, .found true) ∈ history) : key ∈ keys := by
  induction valid with
  | nil => cases found
  | @snoc history before later call ret _ applied ih =>
    cases call with
    | insert other =>
      cases applied
      exact Set.mem_insert_of_mem _ (ih (by simpa using found))
    | search other =>
      cases applied
      rcases List.mem_append.mp found with earlier | now
      · exact ih earlier
      · have both : key = other ∧ other ∈ before := by simpa using now
        exact both.1 ▸ both.2

end History

variable {Addr : Type*}

def Field.stage (key : Int) : Field → Status Call Ret
  | .keyValue => .pending (.insert key)
  | .left => .done .inserted
  | .right => .done .inserted

def Pc.status : Pc Addr → Status Call Ret
  | .outside => .idle
  | .wrlock key => .pending (.insert key)
  | .test key _ => .pending (.insert key)
  | .descend key _ => .pending (.insert key)
  | .less key _ => .pending (.insert key)
  | .notLess key _ => .pending (.insert key)
  | .allocate key _ => .pending (.insert key)
  | .link key _ _ => .pending (.insert key)
  | .locate key _ field => field.stage key
  | .store key _ field _ => field.stage key
  | .unlockWrite => .done .inserted
  | .rdlock key => .pending (.search key)
  | .readRoot key => .pending (.search key)
  | .visit key _ => .pending (.search key)
  | .equal key _ => .pending (.search key)
  | .lessThan key _ => .pending (.search key)
  | .follow key _ _ => .pending (.search key)
  | .unlockRead found => .done (.found found)
  | .returning ret => .done ret

variable [DecidableEq Addr]

theorem Local.holds {memory later : Memory Addr} {pc after : Pc Addr} {action : Option (Action Call Ret)}
    (moved : Local memory pc action later after) : pc.holds ≠ .outside ∧ after.holds = pc.holds := by
  cases moved with
  | @store key place field target => cases field <;> exact ⟨Section.noConfusion, rfl⟩
  | fault fails => cases pc <;> first | exact fails.elim | exact ⟨Section.noConfusion, rfl⟩
  | _ => exact ⟨Section.noConfusion, rfl⟩

theorem Local.only_writes {memory later : Memory Addr} {pc after : Pc Addr}
    {action : Option (Action Call Ret)} (moved : Local memory pc action later after) :
    pc.holds = .writing ∨ later = memory := by
  cases moved with
  | allocate | link | store => exact .inl rfl
  | _ => exact .inr rfl

/-- A step inside an operation either is silent or is the one by which it takes effect. -/
theorem Local.refines {memory later : Memory Addr} {pc after : Pc Addr} {action : Option (Action Call Ret)}
    (moved : Local memory pc action later after) (knows : Knows memory pc) :
    action = none ∧ later.keys = memory.keys ∧ after.status = pc.status ∨
      ∃ call ret, action = some (.commit call ret) ∧ pc.status = .pending call ∧
        keySet.apply memory.keys call = some (later.keys, ret) ∧ after.status = .done ret := by
  cases moved with
  | fault fails => exact absurd fails knows.not_fails
  | neither read smaller =>
    obtain ⟨_, at_, own, larger⟩ := knows
    cases own.symm.trans read
    exact absurd larger smaller
  | allocate fresh => exact .inl ⟨rfl, Memory.keys_allocate fresh, rfl⟩
  | @link key place target _ linked =>
    left
    obtain ⟨old, tree, holds, rfl, fresh, rfl⟩ := knows
    have grown := Grown.of_link fresh (holds.place_owner fresh key) linked
    refine ⟨rfl, ?_, rfl⟩
    ext other
    rw [grown.mem_keys, Memory.keys_allocate fresh]
    simp [Node.fresh]
  | @store key place field target later written =>
    have owner := Growing.place_owner knows
    obtain ⟨old, tree, _, _, grown⟩ := knows
    have next := grown.write owner written
    cases field with
    | keyValue =>
      right
      refine ⟨_, _, rfl, rfl, ?_, rfl⟩
      have added : insert key memory.keys = later.keys := by
        ext other
        rw [Set.mem_insert_iff, next.mem_keys, grown.mem_keys]
        simp [Field.write, Field.before, Node.fresh, eq_comm]
      simp only [keySet, added]
    | left | right =>
      left
      refine ⟨rfl, ?_, rfl⟩
      ext other
      rw [next.mem_keys, grown.mem_keys]
      rfl
  | visitNull =>
    right
    have absent := Searching.null knows
    exact ⟨_, _, rfl, rfl, by simp [keySet, absent], rfl⟩
  | @equal key leaf read =>
    right
    have present : key ∈ memory.keys := ⟨leaf, read⟩
    exact ⟨_, _, rfl, rfl, by simp [keySet, present], rfl⟩
  | _ => exact .inl ⟨rfl, rfl, rfl⟩

def discipline (Thread : Type*) [DecidableEq Thread] : (guarded Thread : Guarded _ (Memory Addr) _ _ _).Discipline where
  holds := Pc.holds
  Resting memory := ∃ tree, memory.Holds tree
  Knows := Knows
  resting_initial := ⟨_, Memory.holds_empty⟩
  holds_outside := rfl
  holds_entry call := by cases call <;> rfl
  holds_returning _ := rfl
  holds_rdlock takes := by
    cases takes
    exact ⟨rfl, rfl⟩
  holds_wrlock takes := by
    cases takes
    exact ⟨rfl, rfl⟩
  holds_unlock leaves := by
    cases leaves with
    | insert => exact ⟨Section.noConfusion, rfl⟩
    | search => exact ⟨Section.noConfusion, rfl⟩
  holds_moves moved := moved.holds
  only_writes moved := moved.only_writes
  knows_outside {memory pc} out := by
    cases pc with
    | outside | wrlock | rdlock | returning => trivial
    | _ => cases out
  knows_rdlock takes resting := by
    obtain ⟨tree, holds⟩ := resting
    cases takes
    exact Searching.root holds
  knows_wrlock takes resting := by
    obtain ⟨tree, holds⟩ := resting
    cases takes
    exact ⟨_, rfl, Descending.root holds⟩
  knows_moves moved knows := moved.knows knows
  resting_unlock leaves writes knows := by
    cases leaves with
    | insert => exact knows
    | search => cases writes

def refinement (Thread : Type*) [DecidableEq Thread] :
    (guarded Thread : Guarded _ (Memory Addr) _ _ _).Refinement (discipline Thread) keySet where
  contents := Memory.keys
  status := Pc.status
  contents_initial := by
    ext key
    simp [guarded, Memory.keys, Memory.keyValue, keySet]
  status_outside := rfl
  status_entry call := by cases call <;> rfl
  status_returning _ := rfl
  status_rdlock takes := by
    cases takes
    rfl
  status_wrlock takes := by
    cases takes
    rfl
  status_unlock leaves _ := by cases leaves <;> rfl
  moves_refine moved knows := moved.refines knows

noncomputable def linearization (Thread Addr : Type*) [DecidableEq Thread] [DecidableEq Addr] :
    Linearization (btree Thread Addr) keySet :=
  (refinement Thread).linearization

end CppRt.RwlockTree
