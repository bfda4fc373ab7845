import Kazoo.ConnectLoop

/-!
# The server that the pinger has found

`_send_ping` leaves the host and the port of a read/write server in `_rw_server`, and the next
`_connect_attempt` of `kazoo/protocol/connection.py` takes them in place of the host and the port of
the entry whose turn it is.  The address of the entry stays.
-/

namespace Kazoo

/-- A connection, with the server that has been found for the next attempt, and the entries over which
the loop goes. -/
structure DialHistory where
  connecting : Connecting
  found : Option (PyStr × Nat)
  expansion : List HostPort

namespace DialHistory

def post (W : Surroundings) (x : DialHistory) (act : ConnectAct) : DialHistory where
  connecting := x.connecting.post W act
  found :=
    match act with
    | .foundServer server => some server
    | .next => if (x.connecting.post W .next).stage.dials then none else x.found
    | _ => x.found
  expansion :=
    match act with
    | .expand hostPorts => hostPorts
    | _ => x.expansion

/-- The runs of a client, with their history. -/
def dialHistory (W : Surroundings) (c : HostConfig) : Machine DialHistory ConnectAct where
  init := ⟨⟨c, false, none, .looping⟩, none, []⟩
  enabled x := x.connecting.enabled W
  post := post W

instance (W : Surroundings) (c : HostConfig) (x : DialHistory) (act : ConnectAct) :
    Decidable ((dialHistory W c).enabled x act) :=
  inferInstanceAs (Decidable (x.connecting.enabled W act))

/-- `getaddrinfo` knows the address for the host of the server. -/
def AddressOf (W : Surroundings) (server : PyStr × Nat) (hostip : PyStr) : Prop :=
  ∃ x ∈ (W.getaddrinfo server.1.strip server.2).getD [], x.1 = hostip

instance (W : Surroundings) (server : PyStr × Nat) (hostip : PyStr) :
    Decidable (AddressOf W server hostip) := inferInstanceAs (Decidable (∃ x ∈ _, _))

/-- An attempt is made at a server that has been found, and otherwise at an entry of the expansion. -/
def DialsFound (W : Surroundings) (x : DialHistory) (act : ConnectAct) : Prop :=
  act = .next → ∀ target hostPorts, (x.connecting.post W .next).stage = .dialling target hostPorts →
    (∀ server ∈ x.found, target.host = server.1 ∧ target.port = server.2 ∧
      AddressOf W server target.hostip) ∧
    (x.found = none → target ∈ x.expansion)

/-- The entry whose turn it is has an address of the server that has been found. -/
def Shared (W : Surroundings) (x : DialHistory) (act : ConnectAct) : Prop :=
  act = .next → x.connecting.stopped = false →
    ∀ entry hostPorts, x.connecting.stage = .iterating (entry :: hostPorts) →
      ∀ server ∈ x.connecting.rwServer, AddressOf W server entry.hostip

/-- The entries that are left for the turns to come. -/
def remaining : DialStage → List HostPort
  | .iterating hostPorts | .dialling _ hostPorts | .invoking _ hostPorts | .serving _ _ _ hostPorts =>
    hostPorts
  | .looping | .ended | .zeroDivisionError => []

/-- The connection knows the server that has been found, and goes over what has been expanded. -/
structure Recorded (x : DialHistory) : Prop where
  found : x.found = x.connecting.rwServer
  expansion : remaining x.connecting.stage ⊆ x.expansion

section

variable {W : Surroundings} {c : HostConfig} {x : DialHistory} {act : ConnectAct}

theorem remaining_invoke (s : Connecting) (hostPorts : List HostPort) :
    remaining (s.invoke W hostPorts) ⊆ hostPorts := by
  unfold Connecting.invoke
  split
  · exact List.Subset.refl _
  · exact List.nil_subset _

theorem remaining_negotiate (s : Connecting) (timeOut : Int) (readOnly : Bool)
    (hostPorts : List HostPort) : remaining (s.negotiate timeOut readOnly hostPorts) ⊆ hostPorts := by
  unfold Connecting.negotiate
  split
  · exact List.Subset.refl _
  · split
    · exact List.Subset.refl _
    · exact List.nil_subset _

theorem dials_attempt (s : Connecting) (entry : HostPort) (hostPorts : List HostPort) :
    (s.attempt entry hostPorts).stage.dials = true ∧ (s.attempt entry hostPorts).rwServer = none ∧
      remaining (s.attempt entry hostPorts).stage = hostPorts := by
  unfold Connecting.attempt
  split
  · exact ⟨rfl, rfl, rfl⟩
  · next hnone => exact ⟨rfl, hnone, rfl⟩

/-- A turn of the loop is an attempt at the next entry, or the end of the loop. -/
theorem next_cases (W : Surroundings) (s : Connecting) :
    (∃ entry hostPorts, s.stage = .iterating (entry :: hostPorts) ∧ s.stopped = false ∧
      s.post W .next = s.attempt entry hostPorts) ∨
    ∃ stage, stage.dials = false ∧ remaining stage = [] ∧ s.post W .next = { s with stage := stage } := by
  unfold Connecting.post
  dsimp only
  split
  · next entry hostPorts hstage =>
    split
    · exact .inr ⟨.ended, rfl, rfl, rfl⟩
    · next hrunning => exact .inl ⟨entry, hostPorts, hstage, Bool.eq_false_iff.mpr hrunning, rfl⟩
  · exact .inr ⟨.looping, rfl, rfl, rfl⟩

theorem Recorded.next (h : x.Recorded) : (x.post W .next).Recorded := by
  rcases next_cases W x.connecting with
    ⟨entry, hostPorts, hstage, -, hpost⟩ | ⟨stage, hdials, hremaining, hpost⟩
  · obtain ⟨hdials, hnone, hremaining⟩ := dials_attempt x.connecting entry hostPorts
    rw [← hpost] at hdials hnone hremaining
    constructor
    · exact (if_pos hdials).trans hnone.symm
    · have hall := h.expansion
      rw [hstage] at hall
      exact hremaining ▸ (List.cons_subset.mp hall).2
  · constructor
    · have hstays : (x.connecting.post W .next).stage.dials ≠ true := by
        rw [hpost]
        exact Bool.eq_false_iff.mp hdials
      refine (if_neg hstays).trans (h.found.trans ?_)
      show _ = (x.connecting.post W .next).rwServer
      rw [hpost]
    · show remaining (x.connecting.post W .next).stage ⊆ _
      rw [hpost]
      exact hremaining ▸ List.nil_subset _

theorem Recorded.post (h : x.Recorded) (hen : x.connecting.enabled W act) : (x.post W act).Recorded := by
  obtain ⟨hfound, hall⟩ := h
  cases act with
  | setHosts hosts randomizeHosts => exact ⟨hfound, hall⟩
  | stop => exact ⟨hfound, hall⟩
  | expand hostPorts =>
    constructor
    · refine hfound.trans ?_
      show _ = (x.connecting.post W (.expand hostPorts)).rwServer
      simp only [Connecting.post]
      split <;> rfl
    · show remaining (x.connecting.post W (.expand hostPorts)).stage ⊆ hostPorts
      simp only [Connecting.post]
      split
      · rw [hen.1]
        exact List.nil_subset _
      · exact List.Subset.refl _
  | giveUp => exact ⟨hfound, List.nil_subset _⟩
  | next => exact Recorded.next ⟨hfound, hall⟩
  | created succeeded =>
    show Recorded ⟨x.connecting.post W (.created succeeded), x.found, x.expansion⟩
    unfold Connecting.post
    dsimp only
    split
    · next target hostPorts hstage =>
      rw [hstage] at hall
      refine ⟨hfound, List.Subset.trans ?_ hall⟩
      cases succeeded with
      | true => exact remaining_invoke _ _
      | false => exact List.Subset.refl _
    · exact ⟨hfound, hall⟩
  | replied result =>
    show Recorded ⟨x.connecting.post W (.replied result), x.found, x.expansion⟩
    unfold Connecting.post
    dsimp only
    split
    · next hstage =>
      rw [hstage] at hall
      exact ⟨hfound, List.Subset.trans (remaining_negotiate _ _ _ _) hall⟩
    · next hstage =>
      rw [hstage] at hall
      exact ⟨hfound, hall⟩
    · exact ⟨hfound, hall⟩
  | foundServer server =>
    show Recorded ⟨x.connecting.post W (.foundServer server), some server, x.expansion⟩
    cases hstage : x.connecting.stage with
    | serving readTimeout connectTimeout pinged hostPorts =>
      rw [hstage] at hall
      unfold Connecting.post
      rw [hstage]
      exact ⟨rfl, hall⟩
    | _ =>
      replace hen : server ∈ x.connecting.stage.pinged := hen
      rw [hstage] at hen
      cases hen
  | closed stopConnecting =>
    show Recorded ⟨x.connecting.post W (.closed stopConnecting), x.found, x.expansion⟩
    unfold Connecting.post
    dsimp only
    split
    · next hstage =>
      rw [hstage] at hall
      refine ⟨hfound, ?_⟩
      cases stopConnecting with
      | true => exact List.nil_subset _
      | false => exact hall
    · exact ⟨hfound, hall⟩

/-- The attempt takes the address of the entry, whatever has been found. -/
theorem Recorded.dialsFound_iff (h : x.Recorded) : DialsFound W x act ↔ Shared W x act := by
  unfold DialsFound Shared
  refine forall_congr' fun hact => ?_
  rcases next_cases W x.connecting with
    ⟨entry, hostPorts, hstage, hrunning, hpost⟩ | ⟨stage, hdials, -, hpost⟩
  · rw [hpost, hstage, hrunning, h.found]
    have hentry : entry ∈ x.expansion := by
      have hall := h.expansion
      rw [hstage] at hall
      exact hall List.mem_cons_self
    cases hserver : x.connecting.rwServer with
    | none =>
      refine iff_of_true (fun target rest htarget => ⟨fun _ hnone => (by cases hnone), fun _ => ?_⟩)
        fun _ _ _ _ server hnone => (by cases hnone)
      unfold Connecting.attempt at htarget
      rw [hserver] at htarget
      cases htarget
      exact hentry
    | some server =>
      have hdials : (x.connecting.attempt entry hostPorts).stage =
          .dialling ⟨server.1, entry.hostip, server.2⟩ hostPorts := by
        unfold Connecting.attempt
        rw [hserver]
      rw [hdials]
      constructor
      · intro hright _ entry' rest' heq server' hserver'
        cases heq
        cases hserver'
        exact ((hright _ _ rfl).1 server rfl).2.2
      · intro hshared target rest htarget
        cases htarget
        refine ⟨fun server' hserver' => ?_, fun hnone => by cases hnone⟩
        cases hserver'
        exact ⟨rfl, rfl, hshared rfl entry hostPorts rfl server rfl⟩
  · refine iff_of_true (fun target rest htarget => ?_) fun hrunning entry rest hstage => ?_
    · rw [hpost] at htarget
      replace htarget : stage = .dialling target rest := htarget
      rw [htarget] at hdials
      cases hdials
    · -- such a turn would have been an attempt
      have hattempt : x.connecting.post W .next = x.connecting.attempt entry rest := by
        unfold Connecting.post
        rw [hstage, hrunning]
        rfl
      have hdials' := (dials_attempt x.connecting entry rest).1
      rw [← hattempt, hpost] at hdials'
      exact absurd hdials' (Bool.eq_false_iff.mp hdials)

/-- In a run every attempt is made at a server that has been found, or else at an entry, if and only if
each server that has been found shares an address with the entry whose turn it is. -/
theorem dialsFound_iff_shared (W : Surroundings) (c : HostConfig) (acts : List ConnectAct) :
    (dialHistory W c).Legal (DialsFound W) (dialHistory W c).init acts ↔
      (dialHistory W c).Legal (Shared W) (dialHistory W c).init acts := by
  have hinit : (dialHistory W c).init.Recorded := ⟨rfl, List.nil_subset _⟩
  exact Machine.legal_congr hinit (fun _ _ h hen => h.post hen) fun _ _ h _ => h.dialsFound_iff

end

/-- Two servers, in this order. -/
def twoServers : HostConfig := ⟨false, [(str "10.0.0.1", 2181), (str "10.0.0.2", 2182)], none⟩

/-- The connection to the first server is read-only, until that server can write again. -/
def regained : List ConnectAct :=
  [.expand [⟨str "10.0.0.1", str "10.0.0.1", 2181⟩, ⟨str "10.0.0.2", str "10.0.0.2", 2182⟩], .next,
    .created true, .replied (some (10000, true)), .foundServer (str "10.0.0.1", 2181)]

/-- The next attempt is made at the second server, with the port of the first. -/
theorem dialsFound_another :
    ¬ ∀ (W : Surroundings) (c : HostConfig) (acts : List ConnectAct),
      (dialHistory W c).Legal Machine.Free (dialHistory W c).init acts →
      (dialHistory W c).Legal (DialsFound W) (dialHistory W c).init acts := by
  intro h
  have hlegal := h Connecting.oneServer twoServers (regained ++ [.next]) (by decide +kernel)
  obtain ⟨-, hdials, -⟩ := (Machine.legal_append_iff.mp hlegal).2
  obtain ⟨-, -, haddress⟩ := (hdials rfl ⟨str "10.0.0.1", str "10.0.0.2", 2181⟩ [] rfl).1
    (str "10.0.0.1", 2181) rfl
  revert haddress
  decide +kernel

end DialHistory

end Kazoo
