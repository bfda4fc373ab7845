import Kazoo.Hosts
import Kazoo.Lib.Machine
import Mathlib.Data.Rat.Defs

/-!
# The connect loop

`_connect_loop`, `_connect_attempt` and `_connect` of `kazoo/protocol/connection.py`, with the calls
of `set_hosts` that other threads make in between.  A loop goes through the hosts as they were
expanded at its start, and divides by the number of hosts that the client has by then.
-/

namespace Kazoo

/-! ## The hosts of an argument -/

/-- A list with a chroot and nothing in front of it. -/
def ChrootOnly : Hosts → Prop
  | .text _ => False
  | .list hosts => ∃ chroot, hosts = [chroot] ∧ isabs chroot.strip = true

section Hosts

variable {urlsplit : PyStr → Except Exn SplitResult} {hosts : Hosts} {randomizeHosts : Option Bool}
  {c c' : HostConfig}

theorem mapM_eq_nil_iff {α β : Type} {f : α → Except Exn β} {l : List α} {bs : List β}
    (h : l.mapM f = .ok bs) : bs = [] ↔ l = [] := by
  cases l with
  | nil =>
    obtain rfl := pure_inj h
    exact iff_of_true rfl rfl
  | cons a l =>
    rw [List.mapM_cons] at h
    obtain ⟨b, -, h⟩ := bind_eq_ok h
    obtain ⟨bs', -, h⟩ := bind_eq_ok h
    obtain rfl := pure_inj h
    exact iff_of_false (List.cons_ne_nil b bs') (List.cons_ne_nil a l)

theorem split_eq_nil_iff {hostPorts : List PyStr} {chroot : Option PyStr}
    (h : splitChroot hosts = .ok (hostPorts, chroot)) : hostPorts = [] ↔ ChrootOnly hosts := by
  cases hosts with
  | text hosts =>
    obtain rfl := (Prod.mk.inj (Except.ok.inj h)).1
    exact iff_of_false (List.splitOn_ne_nil _ _) id
  | list hosts =>
    rw [splitChroot] at h
    rcases List.eq_nil_or_concat' hosts with rfl | ⟨front, last, rfl⟩
    · cases h
    rw [List.getLast?_concat] at h
    dsimp only at h
    have hconcat : ∀ chroot, front ++ [last] = [chroot] ↔ front = [] ∧ last = chroot := by
      simp [List.append_eq_singleton_iff]
    split at h
    · next habs =>
      obtain rfl := (Prod.mk.inj (Except.ok.inj h)).1
      rw [List.dropLast_concat]
      constructor
      · intro hfront
        exact ⟨last, (hconcat last).mpr ⟨hfront, rfl⟩, habs⟩
      · rintro ⟨chroot, heq, -⟩
        exact ((hconcat chroot).mp heq).1
    · next habs =>
      obtain rfl := (Prod.mk.inj (Except.ok.inj h)).1
      refine iff_of_false (by simp) ?_
      rintro ⟨chroot, heq, hstrip⟩
      rw [((hconcat chroot).mp heq).2] at habs
      exact habs hstrip

/-- Only a list without hosts has none. -/
theorem addresses_eq_nil_iff {addresses : List (PyStr × Nat)} {chroot : Option PyStr}
    (h : collectHosts urlsplit hosts = .ok (addresses, chroot)) :
    addresses = [] ↔ ChrootOnly hosts := by
  obtain ⟨⟨hostPorts, chroot'⟩, hsplit, h⟩ := bind_eq_ok h
  obtain ⟨addresses', hmap, h⟩ := bind_eq_ok h
  obtain ⟨rfl, -⟩ := Prod.mk.inj (pure_inj h)
  exact (mapM_eq_nil_iff hmap).trans (split_eq_nil_iff hsplit)

/-- A call that does not name such a list leaves hosts behind, accepted or not. -/
theorem setHosts_hosts_ne_nil (hne : c.hosts ≠ []) (hhosts : ¬ ChrootOnly hosts) :
    (setHosts urlsplit hosts randomizeHosts c).2.hosts ≠ [] := by
  cases hread : collectHosts urlsplit hosts with
  | error e => rwa [setHosts_of_unread hread]
  | ok collected =>
    obtain ⟨addresses, chroot⟩ := collected
    have haddresses := mt (addresses_eq_nil_iff hread).mp hhosts
    rcases setHosts_of_read randomizeHosts c hread with
      ⟨_, -, hset⟩ | ⟨_, -, -, hset⟩ <;> rwa [hset]

/-- The hosts of an accepted argument. -/
theorem setHosts_hosts_eq_nil_iff (h : setHosts urlsplit hosts randomizeHosts c = (.ok (), c')) :
    c'.hosts = [] ↔ ChrootOnly hosts := by
  cases hread : collectHosts urlsplit hosts with
  | error e =>
    rw [setHosts_of_unread hread] at h
    cases h
  | ok collected =>
    obtain ⟨addresses, chroot⟩ := collected
    rcases setHosts_of_read randomizeHosts c hread with
      ⟨_, -, hset⟩ | ⟨_, -, -, hset⟩
    · rw [hset] at h
      cases h
    · obtain rfl := (Prod.mk.inj (hset.symm.trans h)).2
      exact addresses_eq_nil_iff hread

end Hosts

/-! ## The loop -/

/-- The host as it was given, an address of it, and the port. -/
structure HostPort where
  host : PyStr
  hostip : PyStr
  port : Nat
  deriving DecidableEq

/-- What surrounds the loop: the library functions, the session timeout in milliseconds. -/
structure Surroundings where
  urlsplit : PyStr → Except Exn SplitResult
  /-- The addresses and ports that `getaddrinfo` yields, or none for a `gaierror`. -/
  getaddrinfo : PyStr → Nat → Option (List (PyStr × Nat))
  sessionTimeout : Rat

inductive DialStage
  /-- `_connect_loop` is about to expand the hosts. -/
  | looping
  /-- `for host, hostip, port in host_ports`. -/
  | iterating (hostPorts : List HostPort)
  /-- `_connect` creates a connection to the target. -/
  | dialling (target : HostPort) (hostPorts : List HostPort)
  /-- The `Connect` is submitted, and its reply is waited for so long. -/
  | invoking (timeout : Rat) (hostPorts : List HostPort)
  /-- The loop of `_connect_attempt`; in the read-only mode, with the hosts of the pinger. -/
  | serving (readTimeout connectTimeout : Rat) (pinged : Option (List (PyStr × Nat)))
      (hostPorts : List HostPort)
  | ended
  /-- The connection thread died of a `ZeroDivisionError`. -/
  | zeroDivisionError
  deriving DecidableEq

namespace DialStage

def iterates : DialStage → Bool
  | .iterating _ => true
  | _ => false

def dials : DialStage → Bool
  | .dialling _ _ => true
  | _ => false

def invokes : DialStage → Bool
  | .invoking _ _ => true
  | _ => false

def serves : DialStage → Bool
  | .serving _ _ _ _ => true
  | _ => false

/-- The hosts that the pinger asks in the meantime. -/
def pinged : DialStage → List (PyStr × Nat)
  | .serving _ _ (some pinged) _ => pinged
  | _ => []

end DialStage

structure Connecting where
  config : HostConfig
  stopped : Bool
  rwServer : Option (PyStr × Nat)
  stage : DialStage

inductive ConnectAct
  /-- Another thread calls `set_hosts`. -/
  | setHosts (hosts : Hosts) (randomizeHosts : Option Bool)
  | stop
  /-- `_expand_client_hosts`, in the order in which the hosts are tried. -/
  | expand (hostPorts : List HostPort)
  /-- The retry policy gives up. -/
  | giveUp
  /-- The next turn of the loop over the hosts. -/
  | next
  | created (succeeded : Bool)
  /-- The reply to the `Connect`, the negotiated timeout and the read-only flag, or none at all. -/
  | replied (result : Option (Int × Bool))
  /-- The pinger has found a server, and the connection is dropped for it. -/
  | foundServer (server : PyStr × Nat)
  /-- The connection comes to its end. -/
  | closed (stopConnecting : Bool)

/-- The quotient of two numbers in Python; none is the `ZeroDivisionError`. -/
def pyDiv (a b : Rat) : Option Rat := if b = 0 then none else some (a / b)

theorem pyDiv_ne_none {a : Rat} {l : List (PyStr × Nat)} (h : l ≠ []) : pyDiv a l.length ≠ none := by
  rw [pyDiv, if_neg]
  · exact Option.some_ne_none _
  · exact_mod_cast (List.length_pos_iff.mpr h).ne'

namespace Connecting

/-- `_expand_client_hosts`, before the list is shuffled. -/
def expandClientHosts (W : Surroundings) (c : HostConfig) : List HostPort :=
  c.hosts.flatMap fun (host, port) =>
    ((W.getaddrinfo host.strip port).getD []).map fun (hostip, port) => ⟨host.strip, hostip, port⟩

/-- `_connect_attempt` up to the call of `_connect`: a server that the pinger has found takes the
place of the host and the port. -/
def attempt (s : Connecting) (target : HostPort) (hostPorts : List HostPort) : Connecting :=
  match s.rwServer with
  | some (host, port) =>
    { s with rwServer := none, stage := .dialling ⟨host, target.hostip, port⟩ hostPorts }
  | none => { s with stage := .dialling target hostPorts }

/-- The rest of `_connect`, once there is a connection, up to the reply. -/
def invoke (W : Surroundings) (s : Connecting) (hostPorts : List HostPort) : DialStage :=
  match pyDiv (W.sessionTimeout / 1000) s.config.hosts.length with
  | some timeout => .invoking timeout hostPorts
  | none => .zeroDivisionError

/-- The rest of `_connect`, once there is a reply. -/
def negotiate (s : Connecting) (timeOut : Int) (readOnly : Bool) (hostPorts : List HostPort) :
    DialStage :=
  -- `SessionExpiredError`
  if timeOut ≤ 0 then .iterating hostPorts
  else
    match pyDiv timeOut s.config.hosts.length with
    | some connectTimeout =>
      .serving (timeOut * 2 / 3) connectTimeout (if readOnly then some s.config.hosts else none)
        hostPorts
    | none => .zeroDivisionError

def enabled (W : Surroundings) (s : Connecting) : ConnectAct → Prop
  | .setHosts _ _ | .stop => True
  | .expand hostPorts =>
    s.stage = .looping ∧ if s.config.randomizeHosts then hostPorts.Perm (expandClientHosts W s.config)
      else hostPorts = expandClientHosts W s.config
  | .giveUp => s.stage = .looping
  | .next => s.stage.iterates = true
  | .created _ => s.stage.dials = true
  | .replied _ => s.stage.invokes = true
  | .foundServer server => server ∈ s.stage.pinged
  | .closed _ => s.stage.serves = true

instance (W : Surroundings) (s : Connecting) (a : ConnectAct) : Decidable (enabled W s a) := by
  cases a <;> unfold enabled <;> infer_instance

def post (W : Surroundings) (s : Connecting) : ConnectAct → Connecting
  | .setHosts hosts randomizeHosts =>
    { s with config := (Kazoo.setHosts W.urlsplit hosts randomizeHosts s.config).2 }
  | .stop => { s with stopped := true }
  | .expand hostPorts => if hostPorts = [] then s else { s with stage := .iterating hostPorts }
  | .giveUp => { s with stage := .ended }
  | .next =>
    match s.stage with
    | .iterating (target :: hostPorts) =>
      if s.stopped then { s with stage := .ended } else s.attempt target hostPorts
    | _ => { s with stage := .looping }
  | .created succeeded =>
    match s.stage with
    | .dialling _ hostPorts =>
      { s with stage := if succeeded then s.invoke W hostPorts else .iterating hostPorts }
    | _ => s
  | .replied result =>
    match s.stage, result with
    | .invoking _ hostPorts, some (timeOut, readOnly) =>
      { s with stage := s.negotiate timeOut readOnly hostPorts }
    | .invoking _ hostPorts, none => { s with stage := .iterating hostPorts }
    | _, _ => s
  | .foundServer server =>
    match s.stage with
    | .serving _ _ _ hostPorts =>
      { s with rwServer := some server, stage := .iterating hostPorts }
    | _ => s
  | .closed stopConnecting =>
    match s.stage with
    | .serving _ _ _ hostPorts =>
      { s with stage := if stopConnecting then .ended else .iterating hostPorts }
    | _ => s

/-- A client with the configuration `c` that `__init__` has made. -/
def connecting (W : Surroundings) (c : HostConfig) : Machine Connecting ConnectAct where
  init := ⟨c, false, none, .looping⟩
  enabled := enabled W
  post := post W

/-- No call of `set_hosts` is given a chroot without hosts. -/
def NamesHosts (_ : Connecting) : ConnectAct → Prop
  | .setHosts hosts _ => ¬ ChrootOnly hosts
  | _ => True

/-- Every call of `set_hosts` returns. -/
def Accepted (W : Surroundings) (s : Connecting) : ConnectAct → Prop
  | .setHosts hosts randomizeHosts =>
    (Kazoo.setHosts W.urlsplit hosts randomizeHosts s.config).1 = .ok ()
  | _ => True

instance (W : Surroundings) (c : HostConfig) (s : Connecting) (a : ConnectAct) :
    Decidable ((connecting W c).enabled s a) :=
  inferInstanceAs (Decidable (enabled W s a))

instance (W : Surroundings) (s : Connecting) (a : ConnectAct) : Decidable (Accepted W s a) := by
  cases a <;> unfold Accepted <;> infer_instance

section Runs

variable {W : Surroundings} {s : Connecting} {a : ConnectAct}

/-- The divisions of `_connect` are defined, now and in the next step. -/
def Divides (s : Connecting) : Prop := s.config.hosts ≠ [] ∧ s.stage ≠ .zeroDivisionError

theorem invoke_ne (h : s.config.hosts ≠ []) (hostPorts : List HostPort) :
    s.invoke W hostPorts ≠ .zeroDivisionError := by
  unfold invoke
  split
  · exact fun h => nomatch h
  · next hnone => exact absurd hnone (pyDiv_ne_none h)

theorem negotiate_ne (h : s.config.hosts ≠ []) (timeOut : Int) (readOnly : Bool)
    (hostPorts : List HostPort) : s.negotiate timeOut readOnly hostPorts ≠ .zeroDivisionError := by
  unfold negotiate
  split
  · exact fun h => nomatch h
  · split
    · exact fun h => nomatch h
    · next hnone => exact absurd hnone (pyDiv_ne_none h)

/-- One step: only `set_hosts` touches the hosts, and only the two divisions can fail. -/
theorem Divides.step (h : s.Divides) (hnames : NamesHosts s a) : (post W s a).Divides := by
  obtain ⟨hhosts, hstage⟩ := h
  cases a with
  | setHosts hosts randomizeHosts => exact ⟨setHosts_hosts_ne_nil hhosts hnames, hstage⟩
  | stop => exact ⟨hhosts, hstage⟩
  | expand hostPorts =>
    simp only [post]
    split
    · exact ⟨hhosts, hstage⟩
    · exact ⟨hhosts, fun h => nomatch h⟩
  | giveUp => exact ⟨hhosts, fun h => nomatch h⟩
  | next =>
    simp only [post]
    split
    · split
      · exact ⟨hhosts, fun h => nomatch h⟩
      · unfold attempt
        split <;> exact ⟨hhosts, fun h => nomatch h⟩
    · exact ⟨hhosts, fun h => nomatch h⟩
  | created succeeded =>
    simp only [post]
    split
    · refine ⟨hhosts, ?_⟩
      cases succeeded with
      | true => exact invoke_ne hhosts _
      | false => exact fun h => nomatch h
    · exact ⟨hhosts, hstage⟩
  | replied result =>
    simp only [post]
    split
    · exact ⟨hhosts, negotiate_ne hhosts _ _ _⟩
    · exact ⟨hhosts, fun h => nomatch h⟩
    · exact ⟨hhosts, hstage⟩
  | foundServer server =>
    simp only [post]
    split
    · exact ⟨hhosts, fun h => nomatch h⟩
    · exact ⟨hhosts, hstage⟩
  | closed stopConnecting =>
    simp only [post]
    split
    · refine ⟨hhosts, ?_⟩
      cases stopConnecting <;> exact fun h => nomatch h
    · exact ⟨hhosts, hstage⟩

/-- An accepted argument leaves hosts behind unless it is a chroot alone, and in every run in which
neither `__init__` nor `set_hosts` is given such an argument `_connect` divides by a number of hosts
that is not zero. -/
theorem connect_divides (W : Surroundings) :
    (∀ hosts randomizeHosts c c', setHosts W.urlsplit hosts randomizeHosts c = (.ok (), c') →
      (c'.hosts ≠ [] ↔ ¬ ChrootOnly hosts)) ∧
    ∀ hosts randomize c, setHosts W.urlsplit hosts none ⟨randomize, [], none⟩ = (.ok (), c) →
      ¬ ChrootOnly hosts → ∀ s, (connecting W c).Reach NamesHosts s → s.Divides := by
  constructor
  · intro hosts randomizeHosts c c' hset
    exact not_congr (setHosts_hosts_eq_nil_iff hset)
  · intro hosts randomize c hset hnames s hr
    have hinit : (connecting W c).init.Divides :=
      ⟨mt (setHosts_hosts_eq_nil_iff hset).mp hnames, fun h => nomatch h⟩
    exact hr.invariant hinit fun _ _ _ hdivides _ hok => hdivides.step hok

end Runs

/-! ## A client of one server -/

/-- Every name is its own address, and every host is read as one on this machine. -/
def oneServer : Surroundings := ⟨localhost, fun host port => some [(host, port)], 10000⟩

def served : HostConfig := ⟨true, [(str "127.0.0.1", 2181)], some (str "/app")⟩

/-- The hosts are replaced while the connection is made. -/
def replacing (hosts : Hosts) : List ConnectAct :=
  [.expand [⟨str "127.0.0.1", str "127.0.0.1", 2181⟩], .next, .setHosts hosts none, .created true]

/-- Replaced by the same host, in the list form. -/
theorem connect_divides_replacing :
    ((connecting oneServer served).exec ⟨served, false, none, .looping⟩
      (replacing (.list [str "127.0.0.1:2181", str "/app"]))).Divides := by
  have hr : (connecting oneServer served).Reach NamesHosts ((connecting oneServer served).exec _
      (replacing (.list [str "127.0.0.1:2181", str "/app"]))) :=
    .of_legal ⟨by decide +kernel, trivial, by decide +kernel, trivial, by decide +kernel,
      (fun ⟨_, heq, _⟩ => nomatch heq), by decide +kernel, trivial, trivial⟩
  exact (connect_divides oneServer).2 (.text (str "127.0.0.1:2181/app")) true served rfl id _ hr

/-- Replaced by none, with a call that is accepted. -/
theorem connect_divides_by_zero :
    ¬ ∀ (W : Surroundings) (hosts : Hosts) (randomize : Bool) (c : HostConfig) (s : Connecting),
      setHosts W.urlsplit hosts none ⟨randomize, [], none⟩ = (.ok (), c) →
      (connecting W c).Reach (Accepted W) s → s.Divides := by
  intro h
  have hr : (connecting oneServer served).Reach (Accepted oneServer)
      ((connecting oneServer served).exec _ (replacing (.list [str "/app"]))) :=
    .of_legal (by decide +kernel)
  exact absurd (h oneServer (.text (str "127.0.0.1:2181/app")) true served _ rfl hr).2
    (by decide +kernel)

end Connecting

end Kazoo
