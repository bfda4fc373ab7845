import Kazoo.AnswerOrder
import Kazoo.SystemImage

/-!
# Reading what was committed

A server may be behind what the others have committed.  `sync` is answered when the server has caught up
with what was committed at the call.  Since the answers come in the order of the requests, and in one session
in the order of the transactions, whatever is asked for behind a `sync` that was answered is at least as new.
-/

namespace Kazoo

def Request.isSync : Request → Bool
  | .sync _ => true
  | _ => false

/-- The answer to a request of a session, and whether it is that of a `Sync` without an error. -/
structure Heard where
  asyncObject : AsyncId
  synced : Bool
  zxid : Nat
  deriving DecidableEq, Repr

/-- The client with its servers, and what it has asked them. -/
structure Syncing (ν : Type) where
  image : Image ν
  -- history: the last transaction that was committed when a request was made
  made : AsyncId → Nat
  -- history: the requests whose answers were read, newest first
  answered : List AsyncId
  -- history: the answers since the session began
  heard : List Heard

/-- The request that a step makes. -/
def ImageAct.makes {ν : Type} : ImageAct ν → Option AsyncId
  | .client (.callCheck _ a) => some a
  | _ => none

/-- The step ends the session. -/
def Image.resets {ν : Type} (s : Image ν) : ImageAct ν → Bool
  | .client act => s.sys.resets act
  | _ => false

namespace Syncing

variable {ν : Type} [DecidableEq ν]

def new (chroot : PyStr) : Syncing ν where
  image := .new chroot
  made := fun _ => 0
  answered := []
  heard := []

/-- What `_read_response` reads for the head of `_pending`, where the xids match. -/
def answers (s : Syncing ν) : ImageAct ν → List Heard
  | .read header _ _ =>
    (s.image.sys.client.answering header).toList.flatMap fun e =>
      e.asyncObject.toList.map fun a => ⟨a, e.request.isSync && header.err = 0, header.zxid.toNat⟩
  | _ => []

def step (react : Listeners) (s : Syncing ν) (act : ImageAct ν) : Option (Syncing ν) :=
  (s.image.step react act).map fun image =>
    { image
      made := act.makes.elim s.made fun a => Function.update s.made a s.image.committed
      answered := (s.answers act).map (·.asyncObject) ++ s.answered
      heard := if s.image.resets act then [] else s.answers act ++ s.heard }

/-- The server answers a `Sync` once it has applied what was committed when the request was made. -/
def CatchesUp (s : Syncing ν) (act : ImageAct ν) : Prop :=
  ∀ x ∈ s.answers act, x.synced = true → s.made x.asyncObject ≤ x.zxid

instance (s : Syncing ν) (act : ImageAct ν) : Decidable (s.CatchesUp act) :=
  inferInstanceAs (Decidable (∀ x ∈ s.answers act, x.synced = true → s.made x.asyncObject ≤ x.zxid))

end Syncing

def syncing {ν : Type} [DecidableEq ν] (react : Listeners) (chroot : PyStr) :
    Machine (Syncing ν) (ImageAct ν) where
  init := .new chroot
  enabled := fun s act => (s.step react act).isSome
  post := fun s act => (s.step react act).getD s

instance {ν : Type} [DecidableEq ν] (react : Listeners) (chroot : PyStr) (s : Syncing ν)
    (act : ImageAct ν) : Decidable ((syncing react chroot).enabled s act) :=
  inferInstanceAs (Decidable ((s.step react act).isSome = true))

/-! ## Order in a list without repetition -/

/-- Of two elements of a list without repetition one comes first. -/
theorem not_sublist_swap {α : Type} {l : List α} (hnodup : l.Nodup) {a b : α} (h : [a, b].Sublist l) :
    ¬ [b, a].Sublist l := by
  induction l with
  | nil => cases h
  | cons x l ih =>
    obtain ⟨hx, hnodup⟩ := List.nodup_cons.mp hnodup
    intro h'
    cases h with
    | cons _ h =>
      cases h' with
      | cons _ h' => exact ih hnodup h h'
      | cons_cons _ h' => exact hx (h.subset (by simp))
    | cons_cons _ h =>
      cases h' with
      | cons _ h' => exact hx (h'.subset (by simp))
      | cons_cons _ h' => exact hx (h'.subset (by simp))

namespace Image

variable {ν : Type} [DecidableEq ν] {react : Listeners} {chroot : PyStr} {s s' : Image ν} {act : ImageAct ν}

theorem enabled_of_step_client {a : Act} (h : s.step react (.client a) = some s') : s.sys.enabled a := by
  obtain ⟨hcond, -⟩ := Option.ite_none_right_eq_some.mp h
  exact hcond.2

/-- The client takes at most one step, and reads what the step says that it reads. -/
theorem sys_of_step (h : s.step react act = some s') :
    (s'.sys = s.sys ∧ ∀ header buffer offset, act ≠ .read header buffer offset) ∨
      ∃ a, s.sys.enabled a ∧ s'.sys = s.sys.post react a ∧
        ∀ header buffer offset, a = .read header buffer offset ↔ act = .read header buffer offset := by
  cases act with
  | commit =>
    cases h
    exact .inl ⟨rfl, by simp⟩
  | apply j watched =>
    obtain ⟨-, ⟨⟩⟩ := Option.ite_none_right_eq_some.mp h
    exact .inl ⟨rfl, by simp⟩
  | answer =>
    obtain ⟨j, -, rfl⟩ := Option.map_eq_some_iff.mp h
    exact .inl ⟨rfl, by simp⟩
  | accept j readOnly sessionId protocolVersion passwd =>
    obtain ⟨hcond, ⟨⟩⟩ := Option.ite_none_right_eq_some.mp h
    exact .inr ⟨_, hcond.1, rfl, by simp⟩
  | authenticated n =>
    obtain ⟨hcond, ⟨⟩⟩ := Option.ite_none_right_eq_some.mp h
    exact .inr ⟨_, hcond.1, rfl, by simp⟩
  | read header buffer offset =>
    obtain ⟨hen, h⟩ := Option.ite_none_right_eq_some.mp h
    refine .inr ⟨.read header buffer offset, hen, ?_, by simp⟩
    split at h
    · cases h
      rfl
    · split at h
      · obtain ⟨-, ⟨⟩⟩ := Option.ite_none_right_eq_some.mp h
        rfl
      · obtain ⟨-, ⟨⟩⟩ := Option.ite_none_right_eq_some.mp h
        rfl
      · cases h
  | client a =>
    obtain ⟨⟨halone, hen⟩, ⟨⟩⟩ := Option.ite_none_right_eq_some.mp h
    refine .inr ⟨a, hen, rfl, fun header buffer offset => ⟨?_, by simp⟩⟩
    rintro rfl
    cases halone

theorem reach_sys (hr : (systemImage react chroot).Reachable s) : (system react chroot).Reachable s.sys := by
  refine hr.invariant (P := fun s => (system react chroot).Reachable s.sys) .init fun s act _ h hen _ => ?_
  obtain ⟨hsys, -⟩ | ⟨a, ha, hsys, -⟩ := sys_of_step (post_of_enabled hen)
  · rw [hsys]
    exact h
  · rw [hsys]
    exact .step h ha trivial

end Image

namespace Syncing

variable {ν : Type} [DecidableEq ν] {react : Listeners} {chroot : PyStr} {s s' : Syncing ν}
  {act : ImageAct ν}

/-! ## Steps -/

theorem step_eq_some (h : s.step react act = some s') : ∃ image, s.image.step react act = some image ∧
    s' = { image
           made := act.makes.elim s.made fun a => Function.update s.made a s.image.committed
           answered := (s.answers act).map (·.asyncObject) ++ s.answered
           heard := if s.image.resets act then [] else s.answers act ++ s.heard } := by
  obtain ⟨image, himage, heq⟩ := Option.map_eq_some_iff.mp h
  exact ⟨image, himage, heq.symm⟩

theorem post_of_enabled (hen : (syncing react chroot).enabled s act) :
    s.step react act = some ((syncing react chroot).post s act) := by
  obtain ⟨s', hs'⟩ := Option.isSome_iff_exists.mp hen
  show s.step react act = some ((s.step react act).getD s)
  rw [hs', Option.getD_some]

theorem reach_image (hr : (syncing react chroot).Reachable s) :
    (systemImage react chroot).Reachable s.image := by
  refine hr.invariant (P := fun s => (systemImage react chroot).Reachable s.image) .init
    fun s act _ h hen _ => ?_
  obtain ⟨image, himage, heq⟩ := step_eq_some (post_of_enabled hen)
  have hpost : (systemImage react chroot).post s.image act = image := by
    show (s.image.step react act).getD s.image = image
    rw [himage, Option.getD_some]
  rw [heq, ← hpost]
  exact .step h (show (s.image.step react act).isSome = true by rw [himage]; rfl) trivial

/-! ## The answers of a step -/

omit [DecidableEq ν] in
theorem answers_of_not_read (h : ∀ header buffer offset, act ≠ .read header buffer offset) :
    s.answers act = [] := by
  cases act with
  | read header buffer offset => exact absurd rfl (h header buffer offset)
  | _ => rfl

omit [DecidableEq ν] in
theorem answers_read (header : ReplyHeader) (buffer : Bytes) (offset : Nat) :
    s.answers (.read header buffer offset) = (s.image.sys.client.answering header).toList.flatMap fun e =>
      e.asyncObject.toList.map fun a => ⟨a, e.request.isSync && header.err = 0, header.zxid.toNat⟩ := rfl

omit [DecidableEq ν] in
theorem answers_asyncObject (header : ReplyHeader) (buffer : Bytes) (offset : Nat) :
    (s.answers (.read header buffer offset)).map (·.asyncObject) =
      ((s.image.sys.client.answering header).bind (·.asyncObject)).toList := by
  rw [answers_read]
  cases s.image.sys.client.answering header with
  | none => rfl
  | some e => cases he : e.asyncObject <;> simp [he]

omit [DecidableEq ν] in
theorem answers_zxid (header : ReplyHeader) (buffer : Bytes) (offset : Nat) :
    ((s.answers (.read header buffer offset)).map (·.zxid)).Sublist [header.zxid.toNat] := by
  rw [answers_read]
  cases s.image.sys.client.answering header with
  | none => simp
  | some e => cases he : e.asyncObject <;> simp [he]

omit [DecidableEq ν] in
theorem answers_aside {header : ReplyHeader} (buffer : Bytes) (offset : Nat)
    (h : header.xid = PING_XID ∨ header.xid = AUTH_XID ∨ header.xid = WATCH_XID ∨
      s.image.sys.client.pending = []) : s.answers (.read header buffer offset) = [] := by
  have hnone : s.image.sys.client.answering header = none := by
    unfold Client.answering
    split
    · rfl
    · next e rest hpending =>
      rw [if_neg]
      rintro ⟨hping, hauth, hwatch, -⟩
      obtain hxid | hxid | hxid | hnil := h
      · exact hping hxid
      · exact hauth hxid
      · exact hwatch hxid
      · cases hnil.symm.trans hpending
  rw [answers_read, hnone]
  rfl

/-! ## The order of the answers -/

/-- What was answered, and what will be, in the order in which it was appended to `_queue`. -/
def Ordered (s : Syncing ν) : Prop :=
  (s.answered.reverse ++ s.image.sys.onTheWay).Sublist s.image.sys.accepted

theorem ordered_step (h : s.Ordered) (hc : s.image.sys.Coherent) (hstep : s.step react act = some s') :
    s'.Ordered := by
  obtain ⟨image, himage, rfl⟩ := step_eq_some hstep
  unfold Ordered at h ⊢
  dsimp only
  obtain ⟨hsys, hread⟩ | ⟨a, hen, hsys, hread⟩ := Image.sys_of_step himage
  · rw [hsys, answers_of_not_read hread]
    exact h
  · rw [hsys, Sys.accepted_post]
    by_cases hreads : ∃ header buffer offset, a = .read header buffer offset
    · obtain ⟨header, buffer, offset, rfl⟩ := hreads
      obtain rfl := (hread header buffer offset).mp rfl
      have hnext := Sys.onTheWay_read react hen header buffer offset
      rw [answers_asyncObject, List.reverse_append, List.append_assoc]
      have hone : ((s.image.sys.client.answering header).bind (·.asyncObject)).toList.reverse =
          ((s.image.sys.client.answering header).bind (·.asyncObject)).toList := by
        cases (s.image.sys.client.answering header).bind (·.asyncObject) <;> rfl
      rw [hone]
      show (s.answered.reverse ++ (_ ++ (s.image.sys.read react header buffer offset).onTheWay)).Sublist
        (s.image.sys.accepted ++ [])
      rw [List.append_nil]
      exact ((List.Sublist.refl _).append hnext).trans h
    · have hnot : ∀ header buffer offset, a ≠ .read header buffer offset := fun header buffer offset heq =>
        hreads ⟨header, buffer, offset, heq⟩
      have hnext := Sys.onTheWay_post react hc hen hnot
      rw [answers_of_not_read fun header buffer offset heq => hnot _ _ _ ((hread _ _ _).mpr heq)]
      have happend := (List.Sublist.refl s.answered.reverse).append hnext
      rw [← List.append_assoc] at happend
      exact happend.trans (h.append (List.Sublist.refl _))

omit [DecidableEq ν] in
theorem ordered_new : (new chroot : Syncing ν).Ordered := by
  show ([] : List AsyncId).Sublist []
  exact .slnil

theorem ordered_of_reach (hr : (syncing react chroot).Reachable s) : s.Ordered := by
  refine hr.invariant (P := Ordered) ordered_new fun s act hreach h hen _ => ?_
  exact ordered_step h (Sys.coherent_of_reach (Image.reach_sys (reach_image hreach))) (post_of_enabled hen)

/-- No request is answered before one that was appended to `_queue` before it, whatever connections and
sessions they are answered in. -/
theorem answers_in_order (hr : (syncing react chroot).Reachable s) :
    s.answered.reverse.Sublist s.image.sys.accepted :=
  (List.sublist_append_left _ _).trans (ordered_of_reach hr)

/-! ## What `sync` brings -/

/-- The answers since the session began. -/
structure Session (s : Syncing ν) : Prop where
  answered : (s.heard.map (·.asyncObject)).Sublist s.answered
  zxid : (s.heard.map (·.zxid)).Sublist s.image.seen
  synced : ∀ x ∈ s.heard, x.synced = true → s.made x.asyncObject ≤ x.zxid

/-- The zxids of the answers are those that the client has seen. -/
theorem zxid_step (h : (s.heard.map (·.zxid)).Sublist s.image.seen) {image : Image ν}
    (hstep : s.image.step react act = some image) :
    ((if s.image.resets act then [] else s.answers act ++ s.heard).map (·.zxid)).Sublist image.seen := by
  have hsteps := Image.steps_of_step hstep
  cases hsteps with
  | commit | apply | answer | accept | authenticated => exact h
  | @readAside header buffer offset hxid =>
    rw [answers_aside buffer offset (hxid.elim .inl fun hauth => .inr (.inl hauth))]
    exact h
  | @readEvent header buffer offset _ _ hxid =>
    rw [answers_aside buffer offset (.inr (.inr (.inl hxid)))]
    exact h
  | @readUnread header buffer offset _ _ _ hpending =>
    rw [answers_aside buffer offset (.inr (.inr (.inr hpending)))]
    exact h
  | @readAnswer header buffer offset zxid _ _ _ _ hzxid =>
    have hone := answers_zxid (s := s) header buffer offset
    rw [hzxid, Int.toNat_natCast] at hone
    show ((s.answers _ ++ s.heard).map (·.zxid)).Sublist ([zxid] ++ s.image.seen)
    rw [List.map_append]
    exact hone.append h
  | @client a =>
    show ((if s.image.sys.resets a = true then [] else s.heard).map (·.zxid)).Sublist
      (if s.image.sys.resets a = true then [] else s.image.seen)
    split
    · exact .slnil
    · exact h

/-- A request that has been appended keeps what was committed when it was made. -/
theorem made_step (hissued : ∀ a ∈ s.image.sys.accepted, a ∈ s.image.sys.issued)
    (hstep : s.step react act = some s') {a : AsyncId} (ha : a ∈ s.image.sys.accepted) :
    s'.made a = s.made a := by
  obtain ⟨image, himage, rfl⟩ := step_eq_some hstep
  dsimp only
  cases hmakes : act.makes with
  | none => rfl
  | some b =>
    have hne : a ≠ b := by
      rintro rfl
      cases act with
      | client act =>
        cases act with
        | callCheck item b =>
          cases hmakes
          exact (Image.enabled_of_step_client himage).2 (hissued a ha)
        | _ => cases hmakes
      | _ => cases hmakes
    exact Function.update_of_ne hne _ _

omit [DecidableEq ν] in
theorem makes_of_mem_answers {x : Heard} (hx : x ∈ s.answers act) : act.makes = none := by
  cases act with
  | client => cases hx
  | _ => rfl

theorem session_step (h : s.Session) (hordered : s.Ordered)
    (hissued : ∀ a ∈ s.image.sys.accepted, a ∈ s.image.sys.issued)
    (hstep : s.step react act = some s') (hcatches : s.CatchesUp act) : s'.Session := by
  have hmade := fun a => made_step hissued hstep (a := a)
  obtain ⟨image, himage, rfl⟩ := step_eq_some hstep
  constructor
  · dsimp only
    split
    · exact List.nil_sublist _
    · rw [List.map_append]
      exact (List.Sublist.refl _).append h.answered
  · exact zxid_step h.zxid himage
  · intro x hx hsynced
    dsimp only at hx hmade ⊢
    split at hx
    · cases hx
    · obtain hnew | hold := List.mem_append.mp hx
      · rw [makes_of_mem_answers hnew]
        exact hcatches x hnew hsynced
      · have hanswered : x.asyncObject ∈ s.answered :=
          h.answered.subset (List.mem_map_of_mem hold)
        have haccepted := hordered.subset (List.mem_append_left _ (List.mem_reverse.mpr hanswered))
        rw [hmade _ haccepted]
        exact h.synced x hold hsynced

omit [DecidableEq ν] in
theorem session_new : (new chroot : Syncing ν).Session where
  answered := .slnil
  zxid := .slnil
  synced := fun _ hx => by cases hx

theorem session_of_reach (hr : (syncing react chroot).Reach CatchesUp s) : s.Session := by
  refine hr.invariant (P := Session) session_new fun s act hreach h hen hcatches => ?_
  have hfree : (syncing react chroot).Reachable s := hreach.mono fun _ _ _ => trivial
  have honce := Sys.appendedOnce_of_reach (Image.reach_sys (reach_image hfree))
  exact session_step h (ordered_of_reach hfree) (fun _ => honce.issued) (post_of_enabled hen) hcatches

/-- Where the server catches up for each `Sync`, the answer to a request that was appended to `_queue`
after a `Sync` is as new as what was committed when that `Sync` was made, if the session in which the `Sync`
was answered goes on. -/
theorem sync_then_read (hr : (syncing react chroot).Reach CatchesUp s) {x y : Heard} (hx : x ∈ s.heard)
    (hy : y ∈ s.heard) (hsynced : x.synced = true)
    (horder : [x.asyncObject, y.asyncObject].Sublist s.image.sys.accepted) :
    s.made x.asyncObject ≤ y.zxid := by
  have hfree : (syncing react chroot).Reachable s := hr.mono fun _ _ _ => trivial
  have hsession := session_of_reach hr
  have hnodup := (Sys.appendedOnce_of_reach (Image.reach_sys (reach_image hfree))).nodup
  have hseen := (Image.system_image (reach_image hfree)).1
  have hzxids : s.heard.Pairwise fun newer older => newer.zxid ≥ older.zxid :=
    List.pairwise_map.mp (hseen.sublist hsession.zxid)
  obtain ⟨newer, older, hheard⟩ := List.append_of_mem hy
  rw [hheard] at hx hzxids
  obtain hnewer | hrest := List.mem_append.mp hx
  · -- the answers come in the order of the requests
    have hpair : [x, y].Sublist s.heard := by
      rw [hheard]
      exact (List.singleton_sublist.mpr hnewer).append (List.singleton_sublist.mpr List.mem_cons_self)
    have hback := ((hpair.map (·.asyncObject)).trans hsession.answered).reverse.trans
      (answers_in_order hfree)
    exact absurd hback (not_sublist_swap hnodup horder)
  · obtain rfl | holder := List.mem_cons.mp hrest
    · exact absurd horder (List.nodup_iff_sublist.mp hnodup _)
    · exact (hsession.synced x (by rw [hheard]; simp [holder]) hsynced).trans
        ((List.pairwise_cons.mp (List.pairwise_append.mp hzxids).2.1).1 x holder)

/-! ## A server that is behind -/

/-- There is a transaction that server `false` has not applied when the client connects to it.  One thread
calls `sync`, and another reads. -/
def syncAndRead : List (ImageAct Bool) :=
  [.commit] ++ Image.connecting false ++
    (Sys.calling (.sync (str "/a")) 0 ++ Sys.calling (.exists (str "/a") none) 1 ++ Sys.sending ++
      Sys.sending).map .client ++
    [.apply false false, .answer, .answer, .read ⟨1, 1, 0⟩ [0, 0, 0, 2, 47, 97] 0, .read ⟨2, 1, -101⟩ [] 0]

def bothHeard : Syncing Bool := (syncing .quiet []).exec (.new []) syncAndRead

theorem reach_bothHeard : (syncing .quiet []).Reach CatchesUp bothHeard := .of_legal (by decide +kernel)

theorem answers_in_order_bothHeard :
    bothHeard.answered = [1, 0] ∧ bothHeard.answered.reverse.Sublist bothHeard.image.sys.accepted :=
  ⟨by decide +kernel, answers_in_order (reach_bothHeard.mono fun _ _ _ => trivial)⟩

theorem sync_then_read_bothHeard : bothHeard.made 0 = 1 ∧ bothHeard.made 0 ≤ 1 := by
  have hread : (⟨1, false, 1⟩ : Heard) ∈ bothHeard.heard := by decide +kernel
  have hsync : (⟨0, true, 1⟩ : Heard) ∈ bothHeard.heard := by decide +kernel
  have horder : [0, 1].Sublist bothHeard.image.sys.accepted := by decide +kernel
  have hle := sync_then_read reach_bothHeard hsync hread rfl horder
  dsimp only at hle
  exact ⟨by decide +kernel, hle⟩

/-- The connection is lost before the `Sync` is answered.  What is asked for after that may be answered by a
server that is as far behind as before. -/
def syncLost : List (ImageAct Bool) :=
  [.commit] ++ Image.connecting false ++
    (Sys.calling (.sync (str "/a")) 0 ++ Sys.sending).map .client ++ Image.reconnecting false ++
    Image.asking 1 0

theorem lost_sync_promises_nothing :
    let s := (syncing .quiet []).exec (.new []) syncLost
    (syncing .quiet []).Legal CatchesUp (.new []) syncLost ∧
      s.image.sys.accepted = [0, 1] ∧ s.heard = [⟨1, false, 0⟩] ∧ s.made 0 = 1 := by
  decide +kernel

end Syncing

end Kazoo
