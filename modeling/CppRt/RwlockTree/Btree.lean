import CppRt.Library.Guarded
import CppRt.RwlockTree.Memory

/-!
btree: insert and search, one step per test of a pointer, comparison, allocation,
pointer link, field write, lock and unlock. The recursion of insert and search is a
tail recursion, so a position holds the arguments of the call it is in. Reading a
field without a value, or following a null pointer, is a fault.
-/

namespace CppRt.RwlockTree
open Library Concurrent

variable {Addr : Type*}

inductive Call where
  | insert (key : Int)
  | search (key : Int)
  deriving DecidableEq

inductive Ret where
  | inserted
  | found (result : Bool)
  deriving DecidableEq

/-- Where a thread is: the next access it will make. -/
inductive Pc (Addr : Type*) where
  | outside
  | wrlock (key : Int)
  /-- `if(root!=NULL)`, and the same test of `leaf->left` or `leaf->right` -/
  | test (key : Int) (place : Place Addr)
  /-- reading the pointer once more to call `insert(key, pointer)` -/
  | descend (key : Int) (place : Place Addr)
  /-- `if(key < leaf->key_value)` of insert -/
  | less (key : Int) (leaf : Option Addr)
  /-- `else if(key >= leaf->key_value)` -/
  | notLess (key : Int) (leaf : Addr)
  /-- `new node` -/
  | allocate (key : Int) (place : Place Addr)
  /-- storing what `new` returned -/
  | link (key : Int) (place : Place Addr) (fresh : Addr)
  /-- reading the pointer just stored -/
  | locate (key : Int) (place : Place Addr) (field : Field)
  /-- writing a field of the node it points to -/
  | store (key : Int) (place : Place Addr) (field : Field) (target : Addr)
  | unlockWrite
  | rdlock (key : Int)
  | readRoot (key : Int)
  /-- `if(leaf!=NULL)` of search -/
  | visit (key : Int) (leaf : Option Addr)
  /-- `if (key == leaf->key_value)` -/
  | equal (key : Int) (leaf : Addr)
  /-- `if (key < leaf->key_value)` of search -/
  | lessThan (key : Int) (leaf : Addr)
  /-- reading the pointer to call `search(key, pointer)` -/
  | follow (key : Int) (leaf : Addr) (side : Side)
  | unlockRead (found : Bool)
  | returning (ret : Ret)

def entry : Call → Pc Addr
  | .insert key => .wrlock key
  | .search key => .rdlock key

def Field.effect (key : Int) : Field → Option (Action Call Ret)
  | .keyValue => some (.commit (.insert key) .inserted)
  | .left => none
  | .right => none

def Field.next (key : Int) (place : Place Addr) : Field → Pc Addr
  | .keyValue => .locate key place .left
  | .left => .locate key place .right
  | .right => .unlockWrite

variable [DecidableEq Addr]

def Pc.Fails (memory : Memory Addr) : Pc Addr → Prop
  | .test _ place => memory.load place = none
  | .descend _ place => memory.load place = none
  | .less _ leaf => leaf.bind memory.keyValue = none
  | .notLess _ leaf => memory.keyValue leaf = none
  | .link _ place fresh => memory.point place (some fresh) = none
  | .locate _ place _ => (memory.load place).join = none
  | .store key _ field target => memory.modify target (field.write key) = none
  | .equal _ leaf => memory.keyValue leaf = none
  | .lessThan _ leaf => memory.keyValue leaf = none
  | .follow _ leaf side => memory.load (.child leaf side) = none
  | _ => False

/-- One access of a thread inside its locked section. -/
inductive Local (memory : Memory Addr) :
    Pc Addr → Option (Action Call Ret) → Memory Addr → Pc Addr → Prop where
  | testNull {key : Int} {place : Place Addr} (read : memory.load place = some none) :
      Local memory (.test key place) none memory (.allocate key place)
  | testNode {key : Int} {place : Place Addr} {leaf : Addr} (read : memory.load place = some (some leaf)) :
      Local memory (.test key place) none memory (.descend key place)
  | descend {key : Int} {place : Place Addr} {leaf : Option Addr} (read : memory.load place = some leaf) :
      Local memory (.descend key place) none memory (.less key leaf)
  | less {key other : Int} {leaf : Addr} (read : memory.keyValue leaf = some other) (smaller : key < other) :
      Local memory (.less key (some leaf)) none memory (.test key (.child leaf .left))
  | lessNot {key other : Int} {leaf : Addr} (read : memory.keyValue leaf = some other) (larger : ¬key < other) :
      Local memory (.less key (some leaf)) none memory (.notLess key leaf)
  | notLess {key other : Int} {leaf : Addr} (read : memory.keyValue leaf = some other) (larger : key ≥ other) :
      Local memory (.notLess key leaf) none memory (.test key (.child leaf .right))
  -- neither comparison holds only if the key was changed between the two reads
  | neither {key other : Int} {leaf : Addr} (read : memory.keyValue leaf = some other) (smaller : ¬key ≥ other) :
      Local memory (.notLess key leaf) none memory .unlockWrite
  | allocate {key : Int} {place : Place Addr} {target : Addr} (fresh : memory.heap target = none) :
      Local memory (.allocate key place) none (memory.allocate target) (.link key place target)
  | link {key : Int} {place : Place Addr} {target : Addr} {later : Memory Addr}
      (linked : memory.point place (some target) = some later) :
      Local memory (.link key place target) none later (.locate key place .keyValue)
  | locate {key : Int} {place : Place Addr} {field : Field} {target : Addr}
      (read : memory.load place = some (some target)) :
      Local memory (.locate key place field) none memory (.store key place field target)
  | store {key : Int} {place : Place Addr} {field : Field} {target : Addr} {later : Memory Addr}
      (written : memory.modify target (field.write key) = some later) :
      Local memory (.store key place field target) (field.effect key) later (field.next key place)
  | readRoot {key : Int} :
      Local memory (.readRoot key) none memory (.visit key memory.root)
  | visitNull {key : Int} :
      Local memory (.visit key none) (some (.commit (.search key) (.found false))) memory (.unlockRead false)
  | visitNode {key : Int} {leaf : Addr} :
      Local memory (.visit key (some leaf)) none memory (.equal key leaf)
  | equal {key : Int} {leaf : Addr} (read : memory.keyValue leaf = some key) :
      Local memory (.equal key leaf) (some (.commit (.search key) (.found true))) memory (.unlockRead true)
  | different {key other : Int} {leaf : Addr} (read : memory.keyValue leaf = some other)
      (different : key ≠ other) : Local memory (.equal key leaf) none memory (.lessThan key leaf)
  | lessThan {key other : Int} {leaf : Addr} (read : memory.keyValue leaf = some other) :
      Local memory (.lessThan key leaf) none memory
        (.follow key leaf (if key < other then .left else .right))
  | follow {key : Int} {leaf : Addr} {side : Side} {next : Option Addr}
      (read : memory.load (.child leaf side) = some next) :
      Local memory (.follow key leaf side) none memory (.visit key next)
  | fault {pc : Pc Addr} (fails : pc.Fails memory) : Local memory pc (some .fault) memory pc

inductive Rdlock : Pc Addr → Pc Addr → Prop where
  | search {key : Int} : Rdlock (.rdlock key) (.readRoot key)

inductive Wrlock : Pc Addr → Pc Addr → Prop where
  | insert {key : Int} : Wrlock (.wrlock key) (.test key .root)

inductive Unlock : Pc Addr → Pc Addr → Prop where
  | insert : Unlock .unlockWrite (.returning .inserted)
  | search {found : Bool} : Unlock (.unlockRead found) (.returning (.found found))

def guarded (Thread : Type*) : Guarded Thread (Memory Addr) (Pc Addr) Call Ret where
  initial := ⟨none, fun _ => none⟩
  outside := .outside
  entry := entry
  returning := .returning
  rdlock := Rdlock
  wrlock := Wrlock
  unlock := Unlock
  moves := Local

abbrev State (Thread Addr : Type*) := Guarded.State Thread (Memory Addr) (Pc Addr)

abbrev btree (Thread Addr : Type*) [DecidableEq Thread] [DecidableEq Addr] :
    Object Thread (State Thread Addr) Call Ret :=
  (guarded Thread).object

end CppRt.RwlockTree
