import Mathlib.Tactic.Common

/-!
Results of system calls: a value, or the error number left in errno. Of the error numbers
only those that the library or close tell apart have a name.
-/

namespace CppRt.Socknet

inductive Errno where
  | EINTR
  | EBADF
  | ECONNRESET
  | ECONNREFUSED
  | other (number : Nat)
  deriving DecidableEq

variable {Value : Type*}

def interrupted : Except Errno Value → Bool
  | .error .EINTR => true
  | _ => false

/-- `TEMP_FAILURE_RETRY` of a call whose successive attempts come to these results; `none`
as long as each has been interrupted. -/
def tempFailureRetry : List (Except Errno Value) → Option (Except Errno Value)
  | [] => none
  | result :: results => if interrupted result then tempFailureRetry results else some result

theorem tempFailureRetry_final {results : List (Except Errno Value)} {result : Except Errno Value}
    (returned : tempFailureRetry results = some result) : interrupted result = false ∧ result ∈ results := by
  induction results with
  | nil => cases returned
  | cons first rest ih =>
    unfold tempFailureRetry at returned
    split at returned
    · obtain ⟨final, member⟩ := ih returned
      exact ⟨final, List.mem_cons_of_mem _ member⟩
    · cases returned
      exact ⟨by simpa using ‹¬interrupted result = true›, List.mem_cons_self⟩

end CppRt.Socknet
