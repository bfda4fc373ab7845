import Kazoo.Exceptions
import Kazoo.Lib.Machine
import Kazoo.Text
import Mathlib.Data.List.Infix
import Mathlib.Data.Rat.Defs
import Mathlib.Tactic.Linarith

/-!
# The pinger

`RWPinger` of `kazoo/protocol/connection.py`, the iterator that looks for a read/write server while
the connection is read-only.  Every branch of its loop over the hosts returns in the first turn, and
the next call begins with the first host again.
-/

namespace Kazoo

/-- What surrounds a call of `next`: the times that are read, the `randint` of the jitter, and what the
servers answer to `isro`. -/
structure PingCall where
  entered : ℚ
  jitter : Nat
  now : ℚ
  attempted : ℚ
  probe : PyStr × Nat → Except Exn Bytes

/-- What `next` returns or raises. -/
inductive Pinged
  | server (server : PyStr × Nat)
  -- `False`
  | notFound
  -- `None`
  | noHosts
  | raised (e : Exn)
  | stopIteration
  deriving DecidableEq

/-- Where the generator is. -/
inductive PingerFrame
  | unstarted
  | running (delay : ℚ)
  | finished
  deriving DecidableEq

structure RWPinger where
  hosts : List (PyStr × Nat)
  lastAttempt : Option ℚ
  frame : PingerFrame
  -- the servers to which it has connected
  probes : List (PyStr × Nat)

/-- `b"rw"`. -/
def RW : Bytes := [0x72, 0x77]

namespace RWPinger

/-- The loop over the hosts.  No branch goes on to the next host, or to `delay *= 2` behind the loop
unless there are no hosts, and that `delay` is a variable of the call. -/
def pingHosts (call : PingCall) (p : RWPinger) : List (PyStr × Nat) → Pinged × RWPinger
  | [] => (.noHosts, p)
  | server :: _ =>
    let p := { p with lastAttempt := some call.attempted, probes := p.probes ++ [server] }
    match call.probe server with
    | .ok result => (if result = RW then .server server else .notFound, p)
    | .error e =>
      if e = .connectionDropped then (.notFound, p) else (.raised e, { p with frame := .finished })

/-- The call comes before the back-off is over. -/
def TooSoon (p : RWPinger) (delay : ℚ) (call : PingCall) : Prop :=
  call.now < p.lastAttempt.getD 0 + delay + call.jitter / 100

instance (p : RWPinger) (delay : ℚ) (call : PingCall) : Decidable (p.TooSoon delay call) :=
  inferInstanceAs (Decidable (_ < _))

/-- `_next_server`. -/
def nextServer (p : RWPinger) (delay : ℚ) (call : PingCall) : Pinged × RWPinger :=
  if p.TooSoon delay call then (.notFound, p) else p.pingHosts call p.hosts

/-- `__iter__` up to its loop. -/
def enter (p : RWPinger) (call : PingCall) : RWPinger :=
  { p with
    lastAttempt := if p.lastAttempt.getD 0 = 0 then some call.entered else p.lastAttempt
    frame := .running (1 / 2) }

def next (p : RWPinger) (call : PingCall) : Pinged × RWPinger :=
  match p.frame with
  | .unstarted => (p.enter call).nextServer (1 / 2) call
  | .running delay => p.nextServer delay call
  | .finished => (.stopIteration, p)

/-- What the calls return. -/
def yields (p : RWPinger) : List PingCall → List Pinged
  | [] => []
  | call :: calls => (p.next call).1 :: yields (p.next call).2 calls

/-- The delay of the next call. -/
def delay (p : RWPinger) : ℚ :=
  match p.frame with
  | .running delay => delay
  | .unstarted | .finished => 1 / 2

/-- The call comes after the back-off interval, and the servers answer or drop the connection. -/
def Timely (p : RWPinger) (call : PingCall) : Prop :=
  p.frame ≠ .finished ∧
    ¬ (if p.frame = .unstarted then p.enter call else p).TooSoon p.delay call ∧
    ∀ server ∈ p.hosts, call.probe server ≠ .error .connectionDropped → (call.probe server).isOk = true

instance (p : RWPinger) (call : PingCall) : Decidable (p.Timely call) :=
  inferInstanceAs (Decidable (_ ∧ _ ∧ _))

end RWPinger

/-- The calls of `next` of a pinger that `_server_pinger` has made. -/
def pinging (hosts : List (PyStr × Nat)) : Machine RWPinger PingCall where
  init := ⟨hosts, none, .unstarted, []⟩
  enabled _ call := call.jitter ≤ 100
  post p call := (p.next call).2

instance (hosts : List (PyStr × Nat)) (p : RWPinger) (call : PingCall) :
    Decidable ((pinging hosts).enabled p call) := inferInstanceAs (Decidable (call.jitter ≤ 100))

namespace RWPinger

/-- Any `len(hosts)` consecutive probes go to all hosts. -/
def Covers (hosts : List (PyStr × Nat)) (p : RWPinger) (calls : List PingCall) : Prop :=
  ∀ window, window <:+: ((pinging hosts).exec p calls).probes.drop p.probes.length →
    window.length = hosts.length → ∀ server ∈ hosts, server ∈ window

/-- A host that always answers `rw` is returned by one of any `len(hosts)` consecutive calls. -/
def Finds (hosts : List (PyStr × Nat)) (p : RWPinger) (calls : List PingCall) : Prop :=
  ∀ server ∈ hosts, (∀ call ∈ calls, call.probe server = .ok RW) →
    ∀ window, window <:+: p.yields calls → window.length = hosts.length → .server server ∈ window

/-- The delay is greater after each full round. -/
def BacksOff (hosts : List (PyStr × Nat)) (p : RWPinger) (calls : List PingCall) : Prop :=
  ∀ front round back, calls = front ++ round ++ back → round.length = hosts.length →
    ((pinging hosts).exec p front).delay < ((pinging hosts).exec p (front ++ round)).delay

section

variable {hosts : List (PyStr × Nat)} {first : PyStr × Nat} {rest : List (PyStr × Nat)} {p : RWPinger}
  {call : PingCall} {calls : List PingCall}

/-- The hosts and the delay of a pinger never change. -/
structure Fixed (hosts : List (PyStr × Nat)) (p : RWPinger) : Prop where
  hosts : p.hosts = hosts
  delay : p.delay = 1 / 2

theorem fixed_pingHosts (h : Fixed hosts p) (call : PingCall) (l : List (PyStr × Nat)) :
    Fixed hosts (p.pingHosts call l).2 := by
  cases l with
  | nil => exact h
  | cons server l =>
    unfold pingHosts
    dsimp only
    split
    · exact ⟨h.hosts, h.delay⟩
    · split
      · exact ⟨h.hosts, h.delay⟩
      · exact ⟨h.hosts, rfl⟩

theorem fixed_nextServer (h : Fixed hosts p) (delay : ℚ) (call : PingCall) :
    Fixed hosts (p.nextServer delay call).2 := by
  unfold nextServer
  split
  · exact h
  · exact fixed_pingHosts h call _

theorem Fixed.next (h : Fixed hosts p) (call : PingCall) : Fixed hosts (p.next call).2 := by
  unfold RWPinger.next
  split
  · exact fixed_nextServer (p := p.enter call) ⟨h.hosts, rfl⟩ _ call
  · exact fixed_nextServer h _ call
  · exact h

theorem Fixed.exec (h : Fixed hosts p) (calls : List PingCall) :
    Fixed hosts ((pinging hosts).exec p calls) := by
  induction calls generalizing p with
  | nil => exact h
  | cons call calls ih => exact ih (h.next call)

theorem fixed_of_reachable (hr : (pinging hosts).Reachable p) : Fixed hosts p :=
  hr.invariant ⟨rfl, rfl⟩ fun _ call _ h _ _ => h.next call

/-- The first host is asked, and no other. -/
theorem nextServer_first {delay : ℚ} (hhosts : p.hosts = first :: rest) (hdue : ¬ p.TooSoon delay call)
    (hprobe : call.probe first ≠ .error .connectionDropped → (call.probe first).isOk = true) :
    (p.nextServer delay call).1 = (if call.probe first = .ok RW then .server first else .notFound) ∧
      (p.nextServer delay call).2.probes = p.probes ++ [first] := by
  rw [nextServer, if_neg hdue, hhosts, pingHosts]
  cases hresult : call.probe first with
  | ok result =>
    by_cases hrw : result = RW
    · simp [hrw]
    · simp [hrw]
  | error e =>
    by_cases hdropped : e = .connectionDropped
    · simp [hdropped]
    · rw [hresult] at hprobe
      cases hprobe fun heq => hdropped (Except.error.inj heq)

theorem Fixed.timely (h : Fixed (first :: rest) p) (ht : p.Timely call) :
    (p.next call).1 = (if call.probe first = .ok RW then .server first else .notFound) ∧
      (p.next call).2.probes = p.probes ++ [first] := by
  obtain ⟨hrunning, hdue, hprobes⟩ := ht
  have hprobe := hprobes first (h.hosts ▸ List.mem_cons_self)
  unfold RWPinger.next
  split
  · next hframe =>
    rw [if_pos hframe, h.delay] at hdue
    exact nextServer_first (p := p.enter call) h.hosts hdue hprobe
  · next delay hframe =>
    have hdelay : p.delay = delay := by rw [RWPinger.delay, hframe]
    rw [if_neg (by rw [hframe]; simp), hdelay] at hdue
    exact nextServer_first h.hosts hdue hprobe
  · next hframe => exact absurd hframe hrunning

/-! ## Runs -/

theorem Fixed.probes (h : Fixed (first :: rest) p) (hlegal : (pinging (first :: rest)).Legal Timely p calls) :
    ((pinging (first :: rest)).exec p calls).probes = p.probes ++ List.replicate calls.length first := by
  induction calls generalizing p with
  | nil => exact (List.append_nil _).symm
  | cons call calls ih =>
    obtain ⟨-, htimely, hlegal⟩ := hlegal
    refine (ih (h.next call) hlegal).trans ?_
    show (p.next call).2.probes ++ _ = _
    rw [(h.timely htimely).2, List.append_assoc]
    rfl

theorem Fixed.yields (h : Fixed (first :: rest) p) (hlegal : (pinging (first :: rest)).Legal Timely p calls) :
    p.yields calls =
      calls.map fun call => if call.probe first = .ok RW then .server first else .notFound := by
  induction calls generalizing p with
  | nil => rfl
  | cons call calls ih =>
    obtain ⟨-, htimely, hlegal⟩ := hlegal
    rw [RWPinger.yields, (h.timely htimely).1, ih (h.next call) hlegal]
    rfl

theorem Fixed.covers_iff (h : Fixed (first :: rest) p)
    (hlegal : (pinging (first :: rest)).Legal Timely p calls) :
    Covers (first :: rest) p calls ↔
      calls.length < (first :: rest).length ∨ ∀ server ∈ first :: rest, server = first := by
  have hprobes : ((pinging (first :: rest)).exec p calls).probes.drop p.probes.length =
      List.replicate calls.length first := by
    rw [h.probes hlegal, List.drop_left]
  unfold Covers
  rw [hprobes]
  constructor
  · intro hcovers
    refine or_iff_not_imp_left.mpr fun hlong server hserver => ?_
    have hround : List.replicate (first :: rest).length first <:+: List.replicate calls.length first :=
      List.infix_replicate_iff.mpr ⟨by simpa using hlong, by rw [List.length_replicate]⟩
    exact List.eq_of_mem_replicate (hcovers _ hround List.length_replicate server hserver)
  · rintro (hshort | hsame) window hwindow hlength server hserver
    · have hle := hwindow.length_le
      rw [List.length_replicate] at hle
      omega
    · rw [hsame server hserver, (List.infix_replicate_iff.mp hwindow).2, hlength]
      exact List.mem_replicate.mpr ⟨Nat.succ_ne_zero _, rfl⟩

theorem Fixed.finds_iff (h : Fixed (first :: rest) p)
    (hlegal : (pinging (first :: rest)).Legal Timely p calls) :
    Finds (first :: rest) p calls ↔ calls.length < (first :: rest).length ∨
      ∀ server ∈ first :: rest, (∀ call ∈ calls, call.probe server = .ok RW) → server = first := by
  unfold Finds
  rw [h.yields hlegal]
  constructor
  · intro hfinds
    refine or_iff_not_imp_left.mpr fun hlong server hserver hrw => ?_
    have hround : (calls.take (first :: rest).length).map (fun call : PingCall =>
        if call.probe first = .ok RW then Pinged.server first else .notFound) <:+:
          calls.map fun call => if call.probe first = .ok RW then .server first else .notFound :=
      ((List.take_prefix _ calls).map _).isInfix
    have hlength : (calls.take (first :: rest).length).length = (first :: rest).length :=
      List.length_take_of_le (Nat.le_of_not_lt hlong)
    have hmem := hfinds server hserver hrw _ hround (by rw [List.length_map, hlength])
    obtain ⟨call, -, heq⟩ := List.mem_map.mp hmem
    split at heq
    · exact (Pinged.server.inj heq).symm
    · cases heq
  · rintro (hshort | hsame) server hserver hrw window hwindow hlength
    · have hle := hwindow.length_le
      rw [List.length_map] at hle
      omega
    · obtain rfl := hsame server hserver hrw
      obtain ⟨round, hround, rfl⟩ := List.infix_map_iff.mp hwindow
      cases round with
      | nil => cases hlength
      | cons call round =>
        refine List.mem_map.mpr ⟨call, List.mem_cons_self, ?_⟩
        exact if_pos (hrw call (hround.subset List.mem_cons_self))

theorem Fixed.backsOff_iff (h : Fixed (first :: rest) p) (calls : List PingCall) :
    BacksOff (first :: rest) p calls ↔ calls.length < (first :: rest).length := by
  constructor
  · intro hbacksOff
    by_contra hlong
    have hlt := hbacksOff [] (calls.take (first :: rest).length) (calls.drop (first :: rest).length)
      (by rw [List.nil_append, List.take_append_drop])
      (List.length_take_of_le (Nat.le_of_not_lt hlong))
    rw [(h.exec _).delay, (h.exec _).delay] at hlt
    exact lt_irrefl _ hlt
  · rintro hshort front round back rfl hlength
    simp only [List.length_append] at hshort
    omega

/-- All hosts are asked in any round if and only if they are the same host, and the delay never grows,
so only a run that ends in its first round does what a pinger is for. -/
theorem pinger_iff (hr : (pinging (first :: rest)).Reachable p)
    (hlegal : (pinging (first :: rest)).Legal Timely p calls) :
    (Covers (first :: rest) p calls ↔
      calls.length < (first :: rest).length ∨ ∀ server ∈ first :: rest, server = first) ∧
    (Finds (first :: rest) p calls ↔ calls.length < (first :: rest).length ∨
      ∀ server ∈ first :: rest, (∀ call ∈ calls, call.probe server = .ok RW) → server = first) ∧
    (BacksOff (first :: rest) p calls ↔ calls.length < (first :: rest).length) ∧
    (Covers (first :: rest) p calls ∧ Finds (first :: rest) p calls ∧ BacksOff (first :: rest) p calls ↔
      calls.length < (first :: rest).length) := by
  have h := fixed_of_reachable hr
  have hcovers := h.covers_iff hlegal
  have hfinds := h.finds_iff hlegal
  have hbacksOff := h.backsOff_iff calls
  refine ⟨hcovers, hfinds, hbacksOff, fun hall => hbacksOff.mp hall.2.2, fun hshort => ?_⟩
  exact ⟨hcovers.mpr (.inl hshort), hfinds.mpr (.inl hshort), hbacksOff.mpr hshort⟩

end

/-- The second of the two hosts can write, the first one cannot. -/
def secondWrites (now : ℚ) : PingCall where
  entered := 0
  jitter := 0
  now := now
  attempted := now
  probe server := .ok (if server = (str "10.0.0.2", 2181) then RW else [0x72, 0x6f])

/-- The pinger of two hosts, after the first call has started its clock. -/
def startedPinger : RWPinger :=
  (pinging [(str "10.0.0.1", 2181), (str "10.0.0.2", 2181)]).exec
    ⟨[(str "10.0.0.1", 2181), (str "10.0.0.2", 2181)], none, .unstarted, []⟩ [secondWrites 0]

theorem reachable_startedPinger :
    (pinging [(str "10.0.0.1", 2181), (str "10.0.0.2", 2181)]).Reachable startedPinger :=
  .of_legal (by decide +kernel)

theorem pinger_iff_startedPinger :
    ¬ Covers [(str "10.0.0.1", 2181), (str "10.0.0.2", 2181)] startedPinger
      [secondWrites 1, secondWrites 2] := by
  have hlegal : (pinging [(str "10.0.0.1", 2181), (str "10.0.0.2", 2181)]).Legal Timely startedPinger
      [secondWrites 1, secondWrites 2] := by decide +kernel
  exact mt (pinger_iff reachable_startedPinger hlegal).1.mp (by decide +kernel)

/-- In two timely calls the second host is not found. -/
theorem pinger_stuck :
    ¬ ∀ (hosts : List (PyStr × Nat)) (p : RWPinger) (calls : List PingCall), 2 ≤ hosts.length →
      (pinging hosts).Reachable p → (pinging hosts).Legal Timely p calls →
      Covers hosts p calls ∧ Finds hosts p calls ∧ BacksOff hosts p calls := by
  intro h
  have hfinds := (h _ startedPinger [secondWrites 1, secondWrites 2] (by decide)
    reachable_startedPinger (by decide +kernel)).2.1
  have hmem := hfinds (str "10.0.0.2", 2181) (by simp) (by decide +kernel) _ (List.infix_refl _)
    (by decide +kernel)
  revert hmem
  decide +kernel

end RWPinger

end Kazoo
