import CppRt.Socknet.TcpServerThreaded

/-!
What isolates the sessions of tcp_server_threaded: that each of the calls made for them
comes to a result the code goes on from. The first call of a run that does not ends it.
-/

namespace CppRt.Socknet
open Library Transition
open ThreadPool (Created)

/-- The sessions are isolated from each other and from main, and the handle of each is closed
when it is over and not before. -/
structure Isolated (trace : List ServerEvent) (server : Server) : Prop where
  caught : server.terminated = false
  accepts : .acceptFailed ∈ trace ∨ server.main = .accepting ∨ ∃ i, server.main = .launching i
  closed : ∀ i, closes i trace = if (server.session i).finished then 1 else 0
  alone : ∀ label next, server.Step label next →
    ∃ i, ∀ other, other ≠ i → next.session other = server.session other
  ends : server.Running → ∀ i, i < server.next → server.CanEnd i

/-- What the system calls made for the sessions have to come to. -/
def ServerEvent.Mild : ServerEvent → Prop
  | .accepted _ handle => handle ≠ 0
  | .acceptFailed => True
  | .launched _ created => created.err = 0
  | .sent _ attempts => ∀ errno, attempts.result = .error errno → errno.gone = true
  | .disconnected _ result => ∀ errno, result = .error errno → errno = .ECONNRESET
  | .closed _ result => interrupted result = false

/-- How a session fits to where main is, to how often its handle has been closed, to its number
and to the number of the next session. -/
def Session.Fits (main : Main) (closes i next : Nat) : Session → Prop
  | .absent => closes = 0 ∧ next ≤ i
  | .accepted handle => closes = 0 ∧ i < next ∧ main = .launching i ∧ 0 < handle
  | .started handle => closes = 0 ∧ i < next ∧ 0 < handle
  | .ended => closes = 1 ∧ i < next
  | .lost => False
  | _ => closes = 0 ∧ i < next

structure Server.Sound (trace : List ServerEvent) (server : Server) : Prop where
  caught : server.terminated = false
  main : server.main = .accepting ∨ (∃ i handle, server.main = .launching i ∧ server.session i = .accepted handle) ∨
    server.main = .returned ∧ .acceptFailed ∈ trace
  fits : ∀ i, (server.session i).Fits server.main (closes i trace) i server.next

section Sound
variable {trace : List ServerEvent} {server next : Server} {event : ServerEvent} {i : Nat}

theorem Session.Fits.elsewhere {session : Session} {main later : Main} {closes number next : Nat}
    (fits : session.Fits main closes i number) (other : main ≠ .launching i) (grows : number ≤ next)
    (apart : number ≤ i → next ≤ i) : session.Fits later closes i next := by
  cases session with
  | absent => exact ⟨fits.1, apart fits.2⟩
  | accepted handle => exact absurd fits.2.2.1 other
  | started handle => exact ⟨fits.1, Nat.lt_of_lt_of_le fits.2.1 grows, fits.2.2⟩
  | lost => exact fits
  | _ => exact ⟨fits.1, Nat.lt_of_lt_of_le fits.2 grows⟩

namespace Server

theorem Sound.fitsAt (sound : Sound trace server) {session : Session} (at_ : server.session i = session) :
    session.Fits server.main (closes i trace) i server.next := by
  have fits := sound.fits i
  rwa [at_] at fits

theorem Sound.fresh (sound : Sound trace server) (late : server.next ≤ i) :
    server.session i = .absent ∧ closes i trace = 0 := by
  cases at_ : server.session i with
  | absent =>
    have fits := sound.fitsAt at_
    exact ⟨rfl, fits.1⟩
  | lost =>
    have fits := sound.fitsAt at_
    exact fits.elim
  | accepted | started =>
    have fits := sound.fitsAt at_
    have early := fits.2.1
    omega
  | _ =>
    have fits := sound.fitsAt at_
    have early := fits.2
    omega

theorem Sound.goes (sound : Sound trace server) {session : Session} {more : List ServerEvent}
    (launched : ∀ handle, server.session i ≠ .accepted handle)
    (fits : session.Fits server.main (closes i (trace ++ more)) i server.next)
    (quiet : ∀ other, other ≠ i → closes other (trace ++ more) = closes other trace) :
    Sound (trace ++ more) (server.setSession i session) := by
  refine ⟨sound.caught, ?_, fun other => ?_⟩
  · rcases sound.main with accepting | ⟨launching, handle, at_, accepted⟩ | ⟨returned, failed⟩
    · exact .inl accepting
    · have different : launching ≠ i := by
        intro same
        subst same
        exact launched handle accepted
      exact .inr (.inl ⟨launching, handle, at_, (Function.update_of_ne different _ _).trans accepted⟩)
    · exact .inr (.inr ⟨returned, List.mem_append_left _ failed⟩)
  · by_cases same : other = i
    · subst same
      simpa [setSession] using fits
    · rw [quiet other same]
      simpa [setSession, same] using sound.fits other

theorem Sound.accept (sound : Sound trace server) {handle : Int} (at_ : server.main = .accepting)
    (valid : 0 ≤ handle) (nonzero : handle ≠ 0) :
    Sound (trace ++ [.accepted server.next handle]) (server.accept handle) := by
  have silent (other : Nat) : closes other (trace ++ [.accepted server.next handle]) = closes other trace :=
    closes_snoc rfl
  rw [Server.accept, if_neg nonzero]
  refine ⟨sound.caught, .inr (.inl ⟨server.next, handle, rfl, Function.update_self _ _ _⟩), fun other => ?_⟩
  rw [silent]
  by_cases same : other = server.next
  · subst same
    simp only [setSession, Function.update_self]
    exact ⟨(sound.fresh (Nat.le_refl _)).2, Nat.lt_succ_self _, rfl, by omega⟩
  · simp only [setSession, Function.update_of_ne same]
    exact (sound.fits other).elsewhere (by rw [at_]; exact Main.noConfusion) (Nat.le_succ _)
      fun late => by omega

theorem Sound.launch (sound : Sound trace server) {handle : Int} {created : Created}
    (at_ : server.main = .launching i) (accepted : server.session i = .accepted handle) (zero : created.err = 0) :
    Sound (trace ++ [.launched i created]) (server.launch i handle created) := by
  have silent (other : Nat) : closes other (trace ++ [.launched i created]) = closes other trace := closes_snoc rfl
  cases created with
  | error number positive =>
    have wrong : number = 0 := zero
    omega
  | success =>
    rw [launch_success]
    refine ⟨sound.caught, .inl rfl, fun other => ?_⟩
    rw [silent]
    by_cases same : other = i
    · subst same
      have fits := sound.fitsAt accepted
      simp only [setSession, Function.update_self]
      exact ⟨fits.1, fits.2.1, fits.2.2.2⟩
    · simp only [setSession, Function.update_of_ne same]
      refine (sound.fits other).elsewhere ?_ (Nat.le_refl _) id
      rw [at_]
      exact fun wrong => same (Main.launching.inj wrong).symm

theorem Sound.step {label : Option ServerEvent} (sound : Sound trace server) (step : server.Step label next)
    (mild : ∀ event, label = some event → event.Mild) : Sound (trace ++ label.toList) next := by
  cases step with
  | accept running at_ valid => exact sound.accept at_ valid (mild _ rfl)
  | acceptFails running at_ =>
    refine ⟨sound.caught, .inr (.inr ⟨rfl, List.mem_append_right _ List.mem_cons_self⟩), fun other => ?_⟩
    have silent : closes other (trace ++ [.acceptFailed]) = closes other trace := closes_snoc rfl
    simp only [Option.toList_some, silent]
    exact (sound.fits other).elsewhere (by rw [at_]; exact Main.noConfusion) (Nat.le_refl _) id
  | launch running at_ accepted => exact sound.launch at_ accepted (mild _ rfl)
  | @construct i handle errno socket running at_ valid =>
    have fits := sound.fitsAt at_
    refine sound.goes (fun _ wrong => by cases at_.symm.trans wrong) ?_ fun other _ => by simp
    simpa [Session.Fits] using ⟨fits.1, fits.2.1⟩
  | @constructThrows i handle errno exception running at_ invalid =>
    have fits := sound.fitsAt at_
    have positive := fits.2.2
    rw [BaseSocket.ofHandle, if_neg (by omega)] at invalid
    cases invalid
  | @send i socket attempts running at_ =>
    have fits := sound.fitsAt at_
    obtain ⟨value, after, returned⟩ := socket.send_returns (mild _ rfl)
    rw [continues_returned _ returned]
    refine sound.goes (fun _ wrong => by cases at_.symm.trans wrong) ?_ fun other _ => closes_snoc rfl
    rw [Option.toList_some, closes_snoc rfl]
    exact fits
  | @peerDisconnected i socket running at_ =>
    have fits := sound.fitsAt at_
    refine sound.goes (fun _ wrong => by cases at_.symm.trans wrong) ?_ fun other _ => by simp
    rw [Option.toList_none, List.append_nil]
    split <;> exact fits
  | @disconnect i socket result running at_ =>
    have fits := sound.fitsAt at_
    obtain ⟨after, returned⟩ := socket.disconnect_returns (mild _ rfl)
    rw [continues_returned _ returned]
    refine sound.goes (fun _ wrong => by cases at_.symm.trans wrong) ?_ fun other _ => closes_snoc rfl
    rw [Option.toList_some, closes_snoc rfl]
    exact fits
  | @close i sockfd result running at_ =>
    have fits := sound.fitsAt at_
    have final : interrupted result = false := mild _ rfl
    refine sound.goes (fun _ wrong => by cases at_.symm.trans wrong) ?_ ?_
    · rw [final, Option.toList_some, closes_closed, fits.1]
      exact ⟨rfl, fits.2⟩
    · intro other different
      exact closes_snoc (by simp [ServerEvent.closes, Ne.symm different])

theorem Sound.canEnd (sound : server.Sound trace) (running : server.Running) (early : i < server.next) :
    server.CanEnd i := by
  cases at_ : server.session i with
  | absent =>
    have fits := sound.fitsAt at_
    have late := fits.2
    omega
  | accepted handle =>
    have fits := sound.fitsAt at_
    exact canEnd_accepted running fits.2.2.1 at_ fits.2.2.2
  | started handle =>
    have fits := sound.fitsAt at_
    exact canEnd_started running at_ fits.2.2
  | send socket => exact canEnd_send running at_
  | peerDisconnected socket => exact canEnd_peerDisconnected running at_
  | disconnect socket => exact canEnd_disconnect running at_
  | close sockfd => exact canEnd_close running at_
  | ended => exact ⟨[], server, .refl, running.1, at_, fun _ _ => rfl⟩
  | lost =>
    have fits := sound.fitsAt at_
    exact fits.elim

end Server

theorem sound_of_mild (reached : tcpServerThreaded.Reaches trace server) (mild : ∀ event ∈ trace, event.Mild) :
    server.Sound trace := by
  refine reached.invariant (fun trace server => (∀ event ∈ trace, event.Mild) → server.Sound trace) ?_ ?_ mild
  · intro first begins _
    obtain rfl := begins
    exact ⟨rfl, .inl rfl, fun _ => ⟨rfl, Nat.zero_le _⟩⟩
  · intro trace server label next _ kept step mild
    have before := kept fun event member => mild event (List.mem_append_left _ member)
    exact before.step step fun event same => mild event (by simp [same])

theorem isolated_of_sound (sound : server.Sound trace) : Isolated trace server := by
  refine ⟨sound.caught, ?_, fun i => ?_, fun _ _ step => step.alone, fun running i early => sound.canEnd running early⟩
  · rcases sound.main with accepting | ⟨launching, _, at_, _⟩ | ⟨_, failed⟩
    · exact .inr (.inl accepting)
    · exact .inr (.inr ⟨launching, at_⟩)
    · exact .inl failed
  · have fits := sound.fits i
    cases at_ : server.session i <;> rw [at_] at fits
    case lost => exact fits.elim
    all_goals exact fits.1

theorem not_isolated_of_step (reached : tcpServerThreaded.Reaches trace server) (sound : server.Sound trace)
    (step : server.Step (some event) next) (severe : ¬event.Mild) : ¬Isolated (trace ++ [event]) next := by
  intro isolated
  have accepting : .acceptFailed ∉ trace := acceptFailed_stops reached step.running
  have stops (stopped : next.main = .returned ∨ next.main = .undefined) : .acceptFailed ∈ trace ++ [event] := by
    rcases isolated.accepts with failed | accepting | ⟨launching, at_⟩
    · exact failed
    · rw [accepting] at stopped
      rcases stopped with wrong | wrong <;> cases wrong
    · rw [at_] at stopped
      rcases stopped with wrong | wrong <;> cases wrong
  cases step with
  | @accept handle running at_ valid =>
    have zero : handle = 0 := by simpa [ServerEvent.Mild] using severe
    have failed := stops (.inl (by rw [Server.accept, if_pos zero]))
    simp [accepting] at failed
  | acceptFails => exact severe trivial
  | @launch i handle created running at_ accepted =>
    cases created with
    | success => exact severe rfl
    | error number positive =>
      have failed := stops (.inr (by rw [Server.launch_error]))
      simp [accepting] at failed
  | @send i socket attempts running at_ =>
    have caught := isolated.caught
    obtain ⟨exception, threw⟩ := socket.send_throws severe
    rw [Server.continues_threw _ threw] at caught
    cases caught
  | @disconnect i socket result running at_ =>
    have caught := isolated.caught
    obtain ⟨exception, threw⟩ := socket.disconnect_throws severe
    rw [Server.continues_threw _ threw] at caught
    cases caught
  | @close i sockfd result running at_ =>
    have again : interrupted result = true := by simpa [ServerEvent.Mild] using severe
    have closed := isolated.closed i
    have before := sound.fitsAt at_
    rw [closes_closed, before.1, again] at closed
    simp [Server.setSession, Session.finished] at closed

theorem mild_or_not_isolated (reached : tcpServerThreaded.Reaches trace server) :
    (∀ event ∈ trace, event.Mild) ∨
      ∃ before state, before <+: trace ∧ tcpServerThreaded.Reaches before state ∧ ¬Isolated before state := by
  refine reached.invariant (fun trace _ => (∀ event ∈ trace, event.Mild) ∨
    ∃ before state, before <+: trace ∧ tcpServerThreaded.Reaches before state ∧ ¬Isolated before state) ?_ ?_
  · intro first _
    exact .inl fun event member => by cases member
  · intro trace server label next reached kept step
    rcases kept with mild | ⟨before, state, part, reaches, broken⟩
    · cases label with
      | none => exact .inl (by simpa using mild)
      | some event =>
        by_cases now : event.Mild
        · refine .inl fun other member => ?_
          rcases List.mem_append.mp member with earlier | last
          · exact mild other earlier
          · cases List.mem_singleton.mp last
            exact now
        · exact .inr ⟨_, next, List.prefix_refl _, reached.tail step,
            not_isolated_of_step reached (sound_of_mild reached mild) step now⟩
    · exact .inr ⟨before, state, part.trans (List.prefix_append _ _), reaches, broken⟩

end Sound

/-- The sessions of a run are isolated all along exactly when every call made for them has come
to what it has to. -/
theorem isolated_iff_mild {trace : List ServerEvent} {server : Server}
    (reached : tcpServerThreaded.Reaches trace server) :
    (∀ before state, before <+: trace → tcpServerThreaded.Reaches before state → Isolated before state) ↔
      ∀ event ∈ trace, event.Mild := by
  constructor
  · intro isolated
    rcases mild_or_not_isolated reached with mild | ⟨before, state, part, reaches, broken⟩
    · exact mild
    · exact absurd (isolated before state part reaches) broken
  · intro mild before state part reaches
    exact isolated_of_sound (sound_of_mild reaches fun event member => mild event (part.subset member))

theorem reaches_sent (attempts : Attempts Nat) : ∃ server : Server,
    tcpServerThreaded.Reaches [.accepted 0 4, .launched 0 .success, .sent 0 attempts]
      (server.continues 0 ((⟨4, false⟩ : BaseSocket).send attempts) .peerDisconnected) ∧ server.Running := by
  let start : Server := ⟨.accepting, fun _ => .absent, 0, false⟩
  let accepted : Server := start.accept 4
  let launched : Server := accepted.launch 0 4 .success
  have accepts : tcpServerThreaded.step start (some (.accepted 0 4)) accepted :=
    Server.Step.accept ⟨rfl, Main.noConfusion, Main.noConfusion⟩ rfl (by decide)
  have launches : tcpServerThreaded.step accepted (some (.launched 0 .success)) launched :=
    Server.Step.launch ⟨rfl, Main.noConfusion, Main.noConfusion⟩ rfl rfl
  have running : launched.Running := ⟨rfl, Main.noConfusion, Main.noConfusion⟩
  have constructs : tcpServerThreaded.step launched none (launched.setSession 0 (.send ⟨4, false⟩)) :=
    @Server.Step.construct _ 0 4 .EBADF _ running rfl rfl
  have sends : tcpServerThreaded.step (launched.setSession 0 (.send ⟨4, false⟩)) (some (.sent 0 attempts)) _ :=
    Server.Step.send running rfl
  exact ⟨_, ((((System.Reaches.first rfl).tail accepts).tail launches).tail constructs).tail sends, running⟩

/-- ETIMEDOUT, 110, is thrown by send, and nothing in the thread catches it: the whole process
ends, and the handle is never closed by its owner. -/
theorem send_error_terminates : ¬∀ trace server, tcpServerThreaded.Reaches trace server → Isolated trace server := by
  intro isolated
  obtain ⟨server, reached, running⟩ := reaches_sent (.once (.error (.other 110)) rfl)
  have caught := (isolated _ _ reached).caught
  cases caught

theorem isolated_iff_mild_sent : ∃ server : Server,
    tcpServerThreaded.Reaches [.accepted 0 4, .launched 0 .success, .sent 0 (.once (.ok 27) rfl)] server ∧
      Isolated [.accepted 0 4, .launched 0 .success, .sent 0 (.once (.ok 27) rfl)] server := by
  obtain ⟨server, reached, running⟩ := reaches_sent (.once (.ok 27) rfl)
  refine ⟨_, reached, (isolated_iff_mild reached).mpr ?_ _ _ (List.prefix_refl _) reached⟩
  intro event member
  simp only [List.mem_cons, List.not_mem_nil, or_false] at member
  rcases member with rfl | rfl | rfl
  · exact (by decide : (4 : Int) ≠ 0)
  · exact rfl
  · intro errno wrong
    cases wrong

end CppRt.Socknet
