import CppRt.Library.Transition
import CppRt.Socknet.BaseSocket

/-!
tcp_socket::sendAll, one step per ::send. The kernel takes any part of what it is offered,
is interrupted any number of times, or fails; a call that is interrupted is repeated by
base_socket::send with the same arguments. The bytes sent are counted in a size_t and
returned as an int.
-/

namespace CppRt.Socknet
open Library.Transition

def intMax : Nat := 2147483647

/-- One ::send: where in the buffer its bytes begin, how many it is offered, what it comes to. -/
structure Send where
  offset : BitVec 64
  offered : BitVec 64
  result : Except Errno Nat

inductive Control where
  | looping
  | finished (value : BitVec 32)
  | early (ret : BitVec 32)
  | threw (exception : SocketException)

def Control.value : Control → Option (BitVec 32)
  | .finished value => some value
  | .early ret => some ret
  | _ => none

structure Sending where
  socket : BaseSocket
  sent : BitVec 64
  control : Control

/-- What the kernel can do with this many bytes; one call takes no more than INT_MAX of them. -/
def Possible (offered : BitVec 64) : Except Errno Nat → Prop
  | .ok taken => 1 ≤ taken ∧ taken ≤ offered.toNat ∧ taken ≤ intMax
  | .error _ => True

def afterSend (sent : BitVec 64) : Except SocketException Int × BaseSocket → Sending
  | (.error exception, socket) => ⟨socket, sent, .threw exception⟩
  | (.ok value, socket) =>
    let ret := BitVec.ofInt 32 value
    if ret.slt 0 then ⟨socket, sent, .early ret⟩ else ⟨socket, sent + ret.setWidth 64, .looping⟩

inductive SendStep (len : BitVec 64) : Sending → Option Send → Sending → Prop where
  | leave {socket : BaseSocket} {sent : BitVec 64} (all : sent = len) :
      SendStep len ⟨socket, sent, .looping⟩ none ⟨socket, sent, .finished (sent.setWidth 32)⟩
  | retry {socket : BaseSocket} {sent : BitVec 64} (more : sent ≠ len) :
      SendStep len ⟨socket, sent, .looping⟩ (some ⟨sent, len - sent, .error .EINTR⟩) ⟨socket, sent, .looping⟩
  | send {socket : BaseSocket} {sent : BitVec 64} {result : Except Errno Nat} (more : sent ≠ len)
      (possible : Possible (len - sent) result) (final : interrupted result = false) :
      SendStep len ⟨socket, sent, .looping⟩ (some ⟨sent, len - sent, result⟩)
        (afterSend sent (socket.send (.once result final)))

def sendAll (socket : BaseSocket) (len : BitVec 64) : System Sending Send where
  start sending := sending = ⟨socket, 0, .looping⟩
  step := SendStep len

section Slices
variable (buffer : Nat → UInt8)

def slice (start count : Nat) : List UInt8 := (List.range' start count).map buffer

def Send.taken (call : Send) : List UInt8 :=
  match call.result with
  | .ok taken => slice buffer call.offset.toNat taken
  | .error _ => []

def transmitted (trace : List Send) : List UInt8 := trace.flatMap (Send.taken buffer)

theorem slice_append (first second : Nat) :
    slice buffer 0 first ++ slice buffer first second = slice buffer 0 (first + second) := by
  have joined : List.range' 0 first ++ List.range' first second = List.range' 0 (first + second) := by
    simpa using List.range'_append_1 (s := 0) (m := first) (n := second)
  rw [slice, slice, slice, ← joined, List.map_append]

@[simp] theorem length_slice (start count : Nat) : (slice buffer start count).length = count := by
  simp [slice]

@[simp] theorem transmitted_nil : transmitted buffer [] = [] := rfl

@[simp] theorem transmitted_snoc (trace : List Send) (call : Send) :
    transmitted buffer (trace ++ [call]) = transmitted buffer trace ++ call.taken buffer := by
  simp [transmitted]

end Slices

section Step
variable {socket : BaseSocket} {sent : BitVec 64}

theorem toInt_of_small {value : BitVec 32} (small : value.toNat ≤ intMax) : value.toInt = value.toNat := by
  apply BitVec.toInt_eq_toNat_of_lt
  unfold intMax at small
  omega

theorem afterSend_ok {taken : Nat} (small : taken ≤ intMax) :
    afterSend sent (socket.send (.once (.ok taken) rfl)) = ⟨socket, sent + BitVec.ofNat 64 taken, .looping⟩ := by
  have bound : taken ≤ 2147483647 := small
  have value : BitVec.ofInt 32 (taken : Int) = BitVec.ofNat 32 taken := BitVec.ofInt_natCast 32 taken
  have narrow : (BitVec.ofNat 32 taken).toNat = taken := by
    rw [BitVec.toNat_ofNat]
    omega
  have nonnegative : ¬(BitVec.ofNat 32 taken).slt 0 = true := by
    have zero : (0 : BitVec 32).toInt = 0 := rfl
    rw [BitVec.slt_iff_toInt_lt, toInt_of_small (by rw [narrow]; exact small), zero]
    omega
  have wide : (BitVec.ofNat 32 taken).setWidth 64 = BitVec.ofNat 64 taken := by bv_omega
  rw [socket.send_ok rfl]
  simp only [afterSend, value, if_neg nonnegative, wide]

theorem afterSend_error {errno : Errno} (final : interrupted (.error errno : Except Errno Nat) = false) :
    afterSend sent (socket.send (.once (.error errno) final)) =
      if errno.gone then ⟨{ socket with peerDisconnected := true }, sent, .early (-1)⟩
      else ⟨socket, sent, .threw ⟨"Send failed (send)", errno⟩⟩ := by
  rw [socket.send_error rfl]
  split
  · rfl
  · rfl

end Step

def Send.accepted (call : Send) : Bool := call.result.isOk

def Send.settled (call : Send) : Bool := !interrupted call.result

/-- sendAll transmits a prefix of the buffer, in order. -/
structure SendsPrefix (buffer : Nat → UInt8) (socket : BaseSocket) (len : BitVec 64) (trace : List Send)
    (sending : Sending) : Prop where
  transmitted : transmitted buffer trace = slice buffer 0 sending.sent.toNat
  within : sending.sent.toNat ≤ len.toNat
  offers : ∀ call ∈ trace, call.offset.toNat + call.offered.toNat = len.toNat
  accepts : trace.countP Send.accepted ≤ len.toNat
  stops : trace.countP Send.settled ≤ len.toNat + 1
  goes_on : sending.control = .looping → ∃ label next, (sendAll socket len).step sending label next ∧
    ∀ call, label = some call → call.settled = true
  leaves : ∀ next, (sendAll socket len).step sending none next → ∃ value, next.control = .finished value
  ends : ∀ (run : Nat → Sending) (calls : Nat → Option Send), run 0 = sending →
    (∀ index, (sendAll socket len).step (run index) (calls index) (run (index + 1))) →
    ∃ first, ∀ index, first ≤ index → ∃ call, calls index = some call ∧ call.result = .error .EINTR
  finished : ∀ value, sending.control = .finished value → sending.sent = len
  early : ∀ ret, sending.control = .early ret → sending.socket.peerDisconnected = true ∧
    ∃ before last, trace = before ++ [last] ∧
      (last.result = .error .ECONNRESET ∨ last.result = .error .ECONNREFUSED)
  throws : ∀ call ∈ trace, ∀ errno, call.result = .error errno → errno ≠ .EINTR → errno.gone = false →
    sending.control = .threw ⟨"Send failed (send)", errno⟩

def Send.Fine (call : Send) : Prop := call.accepted = true ∨ call.settled = false

/-- Where sendAll stands after its calls. -/
inductive Stands (len : BitVec 64) : List Send → Sending → Prop where
  | looping {trace : List Send} {socket : BaseSocket} {sent : BitVec 64} (fine : ∀ call ∈ trace, call.Fine) :
      Stands len trace ⟨socket, sent, .looping⟩
  | finished {trace : List Send} {socket : BaseSocket} (fine : ∀ call ∈ trace, call.Fine) :
      Stands len trace ⟨socket, len, .finished (len.setWidth 32)⟩
  | early {before : List Send} {last : Send} {errno : Errno} {socket : BaseSocket} {sent : BitVec 64}
      (fine : ∀ call ∈ before, call.Fine) (failed : last.result = .error errno) (gone : errno.gone = true)
      (more : sent ≠ len) :
      Stands len (before ++ [last]) ⟨{ socket with peerDisconnected := true }, sent, .early (-1)⟩
  | threw {before : List Send} {last : Send} {errno : Errno} {socket : BaseSocket} {sent : BitVec 64}
      (fine : ∀ call ∈ before, call.Fine) (failed : last.result = .error errno) :
      Stands len (before ++ [last]) ⟨socket, sent, .threw ⟨"Send failed (send)", errno⟩⟩

structure SendSound (buffer : Nat → UInt8) (len : BitVec 64) (trace : List Send) (sending : Sending) : Prop where
  transmitted : transmitted buffer trace = slice buffer 0 sending.sent.toNat
  within : sending.sent.toNat ≤ len.toNat
  offers : ∀ call ∈ trace, call.offset.toNat + call.offered.toNat = len.toNat
  accepts : trace.countP Send.accepted ≤ sending.sent.toNat
  stands : Stands len trace sending

section Sound
variable {buffer : Nat → UInt8} {socket : BaseSocket} {len : BitVec 64} {trace : List Send}
variable {sending next : Sending} {label : Option Send}

theorem offered_rest {sent : BitVec 64} (within : sent.toNat ≤ len.toNat) :
    sent.toNat + (len - sent).toNat = len.toNat := by
  bv_omega

theorem sent_add {sent : BitVec 64} {taken : Nat} (within : sent.toNat ≤ len.toNat)
    (fits : taken ≤ (len - sent).toNat) : (sent + BitVec.ofNat 64 taken).toNat = sent.toNat + taken := by
  have rest := offered_rest within
  bv_omega

theorem every_snoc {holds : Send → Prop} {call : Send} (earlier : ∀ other ∈ trace, holds other) (last : holds call) :
    ∀ other ∈ trace ++ [call], holds other := by
  rw [List.forall_mem_append, List.forall_mem_singleton]
  exact ⟨earlier, last⟩

theorem SendSound.step (sound : SendSound buffer len trace sending) (step : SendStep len sending label next) :
    SendSound buffer len (trace ++ label.toList) next := by
  obtain ⟨same, within, offers, accepts, stands⟩ := sound
  have offersMore {sent : BitVec 64} {result : Except Errno Nat} (within : sent.toNat ≤ len.toNat) :
      ∀ call ∈ trace ++ [⟨sent, len - sent, result⟩], call.offset.toNat + call.offered.toNat = len.toNat :=
    every_snoc offers (offered_rest within)
  cases step with
  | @leave socket sent all =>
    rw [Option.toList_none, List.append_nil]
    cases stands with
    | looping fine =>
      refine ⟨same, within, offers, accepts, ?_⟩
      rw [all]
      exact .finished fine
  | @retry socket sent more =>
    cases stands with
    | looping fine =>
      refine ⟨?_, within, offersMore within, ?_, .looping (every_snoc fine (.inr rfl))⟩
      · simpa [Send.taken] using same
      · simpa [Send.accepted, Except.isOk, Except.toBool] using accepts
  | @send socket sent result more possible final =>
    cases stands with
    | looping fine =>
      cases result with
      | ok taken =>
        obtain ⟨some, fits, small⟩ := possible
        have bound : sent.toNat ≤ len.toNat := within
        have total := sent_add bound fits
        have rest := offered_rest bound
        rw [afterSend_ok small]
        refine ⟨?_, ?_, offersMore within, ?_, .looping (every_snoc fine (.inl rfl))⟩
        · rw [Option.toList_some, transmitted_snoc, same, total]
          exact slice_append buffer sent.toNat taken
        · change (sent + BitVec.ofNat 64 taken).toNat ≤ len.toNat
          omega
        · have one : [(⟨sent, len - sent, .ok taken⟩ : Send)].countP Send.accepted = 1 := rfl
          have kept : trace.countP Send.accepted ≤ sent.toNat := accepts
          rw [Option.toList_some, List.countP_append, one, total]
          omega
      | error errno =>
        have nothing : [(⟨sent, len - sent, .error errno⟩ : Send)].countP Send.accepted = 0 := rfl
        have kept : (trace ++ [(⟨sent, len - sent, .error errno⟩ : Send)]).countP Send.accepted ≤ sent.toNat := by
          rw [List.countP_append, nothing]
          exact accepts
        have unchanged : CppRt.Socknet.transmitted buffer (trace ++ [⟨sent, len - sent, .error errno⟩]) =
            slice buffer 0 sent.toNat := by
          simpa [Send.taken] using same
        rw [afterSend_error final]
        by_cases gone : errno.gone = true
        · rw [if_pos gone]
          exact ⟨unchanged, within, offersMore within, kept, .early fine rfl gone more⟩
        · rw [if_neg gone]
          exact ⟨unchanged, within, offersMore within, kept, .threw fine rfl⟩

theorem sendSound_of_reaches (buffer : Nat → UInt8) (reached : (sendAll socket len).Reaches trace sending) :
    SendSound buffer len trace sending := by
  refine reached.invariant (SendSound buffer len) ?_ (fun _ _ _ _ _ sound step => sound.step step)
  rintro _ rfl
  exact ⟨rfl, Nat.zero_le _, by simp, Nat.zero_le _, .looping (by simp)⟩

def Sending.rank (len : BitVec 64) (sending : Sending) : Nat :=
  match sending.control with
  | .looping => (len - sending.sent).toNat + 1
  | _ => 0

theorem SendStep.rank_lt (step : SendStep len sending label next) :
    (∃ call, label = some call ∧ call.result = .error .EINTR ∧ next = sending) ∨
      next.rank len < sending.rank len := by
  cases step with
  | retry => exact .inl ⟨_, rfl, rfl, rfl⟩
  | leave => exact .inr (Nat.succ_pos _)
  | @send socket sent result more possible final =>
    right
    cases result with
    | ok taken =>
      obtain ⟨some, fits, small⟩ := possible
      rw [afterSend_ok small]
      simp only [Sending.rank]
      bv_omega
    | error errno =>
      rw [afterSend_error final]
      split
      · exact Nat.succ_pos _
      · exact Nat.succ_pos _

/-- A sendAll that never comes to an end is, from some point on, only interrupted. -/
theorem interrupted_of_endless {run : Nat → Sending} {calls : Nat → Option Send}
    (steps : ∀ index, SendStep len (run index) (calls index) (run (index + 1))) :
    ∃ first, ∀ index, first ≤ index → ∃ call, calls index = some call ∧ call.result = .error .EINTR := by
  have falls : Antitone fun index => (run index).rank len := by
    refine antitone_nat_of_succ_le fun index => ?_
    rcases (steps index).rank_lt with ⟨_, _, _, same⟩ | lower
    · rw [same]
    · exact lower.le
  obtain ⟨first, settles⟩ := WellFoundedLT.antitone_chain_condition falls
  refine ⟨first, fun index later => ?_⟩
  rcases (steps index).rank_lt with ⟨call, shown, interrupted, _⟩ | lower
  · exact ⟨call, shown, interrupted⟩
  · have now := settles index later
    have next := settles (index + 1) (Nat.le_succ_of_le later)
    omega

theorem settled_le {calls : List Send} (fine : ∀ call ∈ calls, call.Fine) :
    calls.countP Send.settled ≤ calls.countP Send.accepted := by
  apply List.countP_mono_left
  intro call member settled
  rcases fine call member with accepted | unsettled
  · exact accepted
  · cases settled.symm.trans unsettled

theorem Stands.settled_le (stands : Stands len trace sending) :
    trace.countP Send.settled ≤ trace.countP Send.accepted + 1 := by
  cases stands with
  | looping fine | finished fine =>
    have all := CppRt.Socknet.settled_le fine
    omega
  | @early before last _ _ _ fine | @threw before last _ _ _ fine =>
    have earlier := CppRt.Socknet.settled_le fine
    have one : [last].countP Send.settled ≤ 1 := List.countP_le_length
    rw [List.countP_append, List.countP_append]
    omega

theorem eintr_of_fine {call : Send} {errno : Errno} (fine : call.Fine) (failed : call.result = .error errno) :
    errno = .EINTR := by
  rw [Send.Fine, Send.accepted, Send.settled, failed] at fine
  cases errno <;> simp [Except.isOk, Except.toBool, interrupted] at fine ⊢

theorem Stands.throws {call : Send} {errno : Errno} (stands : Stands len trace sending) (member : call ∈ trace)
    (failed : call.result = .error errno) (named : errno ≠ .EINTR) (stays : errno.gone = false) :
    sending.control = .threw ⟨"Send failed (send)", errno⟩ := by
  cases stands with
  | looping fine | finished fine => exact absurd (eintr_of_fine (fine call member) failed) named
  | early fine failedLast gone =>
    rcases List.mem_append.mp member with earlier | last
    · exact absurd (eintr_of_fine (fine call earlier) failed) named
    · obtain rfl := List.mem_singleton.mp last
      cases failed.symm.trans failedLast
      cases stays.symm.trans gone
  | threw fine failedLast =>
    rcases List.mem_append.mp member with earlier | last
    · exact absurd (eintr_of_fine (fine call earlier) failed) named
    · obtain rfl := List.mem_singleton.mp last
      cases failed.symm.trans failedLast
      rfl

/-- Whatever the kernel takes of each offer, sendAll transmits a prefix of the buffer in order, leaves its
loop for the reasons it should, after no more than len accepting calls, and does leave it unless it is
interrupted for ever. -/
theorem sends_prefix (buffer : Nat → UInt8) (reached : (sendAll socket len).Reaches trace sending) :
    SendsPrefix buffer socket len trace sending := by
  obtain ⟨same, within, offers, accepts, stands⟩ := sendSound_of_reaches buffer reached
  constructor
  case transmitted => exact same
  case within => exact within
  case offers => exact offers
  case accepts => omega
  case stops =>
    have settled := stands.settled_le
    omega
  case goes_on =>
    intro looping
    obtain ⟨socket, sent, control⟩ := sending
    obtain rfl : control = .looping := looping
    by_cases all : sent = len
    · exact ⟨none, _, .leave all, fun _ wrong => by cases wrong⟩
    · have possible : Possible (len - sent) (.ok 1) := by
        refine ⟨Nat.le_refl 1, ?_, by decide⟩
        bv_omega
      refine ⟨_, _, .send all possible rfl, fun call shown => ?_⟩
      obtain rfl := Option.some.inj shown
      rfl
  case leaves =>
    intro next step
    cases step with
    | leave => exact ⟨_, rfl⟩
  case ends =>
    intro run calls _ steps
    exact interrupted_of_endless steps
  case finished =>
    intro value finished
    cases stands with
    | finished => rfl
    | _ => cases finished
  case early =>
    intro ret early
    cases stands with
    | @early before last errno _ _ fine failed gone =>
      refine ⟨rfl, before, last, rfl, ?_⟩
      cases errno with
      | ECONNRESET => exact .inl failed
      | ECONNREFUSED => exact .inr failed
      | _ => cases gone
    | _ => cases early
  case throws => exact fun call member errno failed named stays => stands.throws member failed named stays

end Sound

section Value
variable {socket : BaseSocket} {len sent : BitVec 64} {trace : List Send} {sending : Sending} {value : BitVec 32}

/-- The int is non-negative if and only if every byte has been accepted, and is then their number. -/
def Truthful (buffer : Nat → UInt8) (len : BitVec 64) (trace : List Send) (value : BitVec 32) : Prop :=
  (0 ≤ value.toInt ↔ (transmitted buffer trace).length = len.toNat) ∧ (0 ≤ value.toInt → value.toInt = len.toNat)

def Send.lost (call : Send) : Prop := ∃ errno, call.result = .error errno ∧ errno.gone = true

theorem truthful_finished_iff (buffer : Nat → UInt8) (whole : (transmitted buffer trace).length = len.toNat) :
    Truthful buffer len trace (len.setWidth 32) ↔ len.toNat ≤ intMax := by
  have narrow : (len.setWidth 32).toNat = len.toNat % 4294967296 := by simp
  constructor
  · rintro ⟨counts, exact_⟩
    have same := exact_ (counts.mpr whole)
    have bound := BitVec.toInt_lt (x := len.setWidth 32)
    unfold intMax
    omega
  · intro small
    have bound : len.toNat ≤ 2147483647 := small
    have kept : (len.setWidth 32).toNat = len.toNat := by omega
    have positive : (len.setWidth 32).toInt = (len.setWidth 32).toNat :=
      toInt_of_small (by rw [kept]; exact small)
    rw [Truthful, positive, kept]
    exact ⟨iff_of_true (Int.natCast_nonneg _) whole, fun _ => rfl⟩

/-- The int tells the truth exactly when it can hold the length or the peer was lost on the way. -/
theorem truthful_iff (buffer : Nat → UInt8) (reached : (sendAll socket len).Reaches trace sending)
    (returned : sending.control.value = some value) :
    Truthful buffer len trace value ↔ len.toNat ≤ intMax ∨ ∃ call ∈ trace, call.lost := by
  obtain ⟨same, within, _, _, stands⟩ := sendSound_of_reaches buffer reached
  have count : (transmitted buffer trace).length = sending.sent.toNat := by rw [same, length_slice]
  cases stands with
  | looping | threw => cases returned
  | finished fine =>
    obtain rfl := Option.some.inj returned
    rw [truthful_finished_iff buffer count]
    refine (or_iff_left ?_).symm
    rintro ⟨call, member, errno, failed, gone⟩
    rw [eintr_of_fine (fine call member) failed] at gone
    cases gone
  | @early before last errno _ sent fine failed gone more =>
    obtain rfl := Option.some.inj returned
    refine iff_of_true ⟨iff_of_false (by decide) fun whole => ?_, fun wrong => absurd wrong (by decide)⟩
      (.inr ⟨last, by simp, errno, failed, gone⟩)
    exact more (BitVec.eq_of_toNat_eq (count.symm.trans whole))

theorem SendStep.takes {taken : Nat} (more : sent ≠ len) (possible : Possible (len - sent) (.ok taken)) :
    SendStep len ⟨socket, sent, .looping⟩ (some ⟨sent, len - sent, .ok taken⟩)
      ⟨socket, sent + BitVec.ofNat 64 taken, .looping⟩ := by
  have step : SendStep len ⟨socket, sent, .looping⟩ (some ⟨sent, len - sent, .ok taken⟩) _ :=
    .send more possible rfl
  rwa [afterSend_ok possible.2.2] at step

theorem reaches_two (socket : BaseSocket) {first second : Nat} (small : 1 ≤ first ∧ first ≤ intMax)
    (also : 1 ≤ second ∧ second ≤ intMax) :
    (sendAll socket (BitVec.ofNat 64 (first + second))).Reaches
      [⟨0, BitVec.ofNat 64 (first + second), .ok first⟩, ⟨BitVec.ofNat 64 first, BitVec.ofNat 64 second, .ok second⟩]
      ⟨socket, BitVec.ofNat 64 (first + second), .finished ((BitVec.ofNat 64 (first + second)).setWidth 32)⟩ := by
  unfold intMax at small also
  have rest : BitVec.ofNat 64 (first + second) - BitVec.ofNat 64 first = BitVec.ofNat 64 second := by bv_omega
  have total : BitVec.ofNat 64 first + BitVec.ofNat 64 second = BitVec.ofNat 64 (first + second) := by bv_omega
  have one : (sendAll socket (BitVec.ofNat 64 (first + second))).step ⟨socket, 0, .looping⟩
      (some ⟨0, BitVec.ofNat 64 (first + second), .ok first⟩) ⟨socket, BitVec.ofNat 64 first, .looping⟩ := by
    have takes : SendStep (BitVec.ofNat 64 (first + second)) ⟨socket, 0, .looping⟩ _ _ :=
      SendStep.takes (by bv_omega) ⟨small.1, by bv_omega, small.2⟩
    simpa [sendAll] using takes
  have two : (sendAll socket (BitVec.ofNat 64 (first + second))).step ⟨socket, BitVec.ofNat 64 first, .looping⟩
      (some ⟨BitVec.ofNat 64 first, BitVec.ofNat 64 second, .ok second⟩)
      ⟨socket, BitVec.ofNat 64 (first + second), .looping⟩ := by
    have takes : SendStep (BitVec.ofNat 64 (first + second)) ⟨socket, BitVec.ofNat 64 first, .looping⟩ _ _ :=
      SendStep.takes (by bv_omega) ⟨also.1, by bv_omega, also.2⟩
    rwa [rest, total] at takes
  exact (((System.Reaches.first rfl).tail one).tail two).tail (.leave rfl)

/-- Two gigabytes, all of them accepted, come back as a negative number. -/
theorem not_truthful_long : ∃ trace sending value,
    (sendAll ⟨4, false⟩ 0x80000000).Reaches trace sending ∧ sending.control.value = some value ∧
    ¬Truthful (fun _ => 0) 0x80000000 trace value := by
  have reached : (sendAll ⟨4, false⟩ 0x80000000).Reaches _ _ :=
    @reaches_two ⟨4, false⟩ 2147483647 1 (by decide) (by decide)
  have sound := sendSound_of_reaches (fun _ => 0) reached
  refine ⟨_, _, _, reached, rfl, fun truthful => ?_⟩
  have whole := congrArg List.length sound.transmitted
  rw [length_slice] at whole
  exact absurd ((truthful_finished_iff _ whole).mp truthful) (by decide)

theorem sends_prefix_three : ∃ trace, (sendAll ⟨4, false⟩ 3).Reaches trace ⟨⟨4, false⟩, 3, .finished 3⟩ ∧
    SendsPrefix (fun i => UInt8.ofNat i) ⟨4, false⟩ 3 trace ⟨⟨4, false⟩, 3, .finished 3⟩ ∧
    transmitted (fun i => UInt8.ofNat i) trace = [0, 1, 2] := by
  have reached : (sendAll ⟨4, false⟩ 3).Reaches _ ⟨⟨4, false⟩, 3, .finished 3⟩ :=
    @reaches_two ⟨4, false⟩ 2 1 (by decide) (by decide)
  exact ⟨_, reached, sends_prefix _ reached, by decide⟩

theorem truthful_three : ∃ trace, (sendAll ⟨4, false⟩ 3).Reaches trace ⟨⟨4, false⟩, 3, .finished 3⟩ ∧
    Truthful (fun i => UInt8.ofNat i) 3 trace 3 := by
  have reached : (sendAll ⟨4, false⟩ 3).Reaches _ ⟨⟨4, false⟩, 3, .finished 3⟩ :=
    @reaches_two ⟨4, false⟩ 2 1 (by decide) (by decide)
  exact ⟨_, reached, (truthful_iff _ reached rfl).mpr (.inl (by decide))⟩

end Value

end CppRt.Socknet
