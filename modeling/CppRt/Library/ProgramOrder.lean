import CppRt.Library.Concurrent
import CppRt.Library.Family

/-!
Threads that run lists of requests on an atomic object have done them in their order: what has
taken effect for a thread, and what it has left, are its program.
-/

namespace CppRt.Library.Concurrent
open Transition Family

variable {Thread Contents Call Ret Request : Type*} [DecidableEq Thread] {spec : Sequential Contents Call Ret}
variable {call : Request → Call} {program : Thread → List Request} {trace : List (Label Thread Call Ret Empty)}
variable {state : Joint (Atomic Thread Contents Call Ret) (Thread → List Request)}

def Joint.left (state : Joint (Atomic Thread Contents Call Ret) (Thread → List Request)) (thread : Thread) : List Request :=
  (state.client thread).drop (state.object.status thread).answer.toList.length

/-- What a thread has done, in its order. -/
def performed (thread : Thread) (trace : List (Label Thread Call Ret Empty)) : List Call :=
  (entries thread (commits trace)).map Prod.fst

omit [DecidableEq Thread] in
theorem Joint.left_congr (state next : Joint (Atomic Thread Contents Call Ret) (Thread → List Request)) {thread : Thread}
    (status : next.object.status thread = state.object.status thread) (client : next.client thread = state.client thread) :
    next.left thread = state.left thread := by
  unfold left
  rw [status, client]

theorem performed_quiet {label : Label Thread Call Ret Empty} {thread : Thread} (quiet : commits [label] = []) :
    performed thread (trace ++ [label]) = performed thread trace := by
  rw [performed, commits_append, quiet, List.append_nil]
  rfl

theorem performed_commit {thread : Thread} {asks : Call} {ret : Ret} :
    performed thread (trace ++ [.act thread (.commit asks ret)]) = performed thread trace ++ [asks] := by
  rw [performed, commits_append, commits_commit, entries_append, entries_self, List.map_append]
  rfl

theorem performed_other {thread other : Thread} {asks : Call} {ret : Ret} (different : other ≠ thread) :
    performed thread (trace ++ [.act other (.commit asks ret)]) = performed thread trace := by
  rw [performed, commits_append, commits_commit, entries_append, entries_other different, List.append_nil]
  rfl

theorem program_order (reached : (compose spec.atomic (spec.programs call program)).Reaches trace state) :
    ∀ thread, performed thread trace ++ (state.left thread).map call = (program thread).map call := by
  refine invariant_of_moves (fun trace state => ∀ thread,
    performed thread trace ++ (state.left thread).map call = (program thread).map call) reached ?_ ?_
  · rintro _ rfl thread
    rfl
  · intro trace state label next _ kept move thread
    have before := kept thread
    cases move with
    | call other asks asked idle =>
      rw [Option.toList_some, performed_quiet rfl, ← before]
      by_cases same : thread = other
      · subst same
        simp only [Joint.left, Function.update_self, idle, Status.answer, Option.toList_none, List.length_nil]
      · congr 2
        exact Joint.left_congr state _ (Function.update_of_ne same _ _) rfl
    | commit other asks ret later asked pending applied =>
      rw [Option.toList_some]
      by_cases same : thread = other
      · subst same
        obtain ⟨request, head, rfl⟩ := Option.map_eq_some_iff.mp asked
        obtain ⟨rest, shape⟩ := List.head?_eq_some_iff.mp head
        rw [performed_commit, ← before]
        simp [Joint.left, pending, shape, Status.answer]
      · rw [performed_other (Ne.symm same), ← before]
        congr 2
        exact Joint.left_congr state _ (Function.update_of_ne same _ _) rfl
    | ret other asks ret later asked answers finished resumed =>
      obtain rfl : later = Function.update state.client other (state.client other).tail := resumed
      rw [Option.toList_some, performed_quiet rfl, ← before]
      by_cases same : thread = other
      · subst same
        simp only [Joint.left, Function.update_self, finished, Status.answer, Option.toList_none, Option.toList_some,
          List.length_nil, List.length_singleton, List.drop_zero, List.drop_one]
      · congr 2
        exact Joint.left_congr state _ (Function.update_of_ne same _ _) (Function.update_of_ne same _ _)
    | work other note later free idle worked => exact worked.elim

theorem performed_all (reached : (compose spec.atomic (spec.programs call program)).Reaches trace state)
    {thread : Thread} (empty : state.client thread = []) : performed thread trace = (program thread).map call := by
  have order := program_order reached thread
  rwa [Joint.left, empty, List.drop_nil, List.map_nil, List.append_nil] at order

end CppRt.Library.Concurrent
