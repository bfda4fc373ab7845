import Kazoo.Recipe.SemaphoreCapacity

/-!
# Acquired semaphores

Whether a semaphore that says that it is acquired has its lease.  `_best_effort_cleanup` deletes the
lease and leaves `is_acquired` as it is, also when the lease was held before the call that failed; and
nothing tells the semaphore that a delete has been carried out whose caller got an exception.
-/

namespace Kazoo

namespace SemaphoreStage

variable {ι : Type}

/-- In `release`. -/
def InRelease : SemaphoreStage ι → Prop
  | .releasing | .deleting | .resting => True
  | _ => False

/-- In the `finally` of `_inner_acquire`, with `return True` to come. -/
def Returning : SemaphoreStage ι → Prop
  | .unlocking _ ending | .freeing _ ending => ending = .returned true
  | _ => False

instance (stage : SemaphoreStage ι) : Decidable stage.InRelease := by
  unfold InRelease
  split <;> infer_instance

instance (stage : SemaphoreStage ι) : Decidable stage.Returning := by
  unfold Returning
  split <;> infer_instance

end SemaphoreStage

namespace Pool

variable {σ θ ι : Type} {S : Semaphores σ θ ι}

/-- No call of `acquire` or `release` of the semaphore is running. -/
def Idle (s : Pool S) (k : σ) : Prop := ∀ i, S.object i = k → s.threads i = .idle

/-- Between calls, a semaphore that says that it is acquired has its lease. -/
def Owns (s : Pool S) (k : σ) : Prop :=
  s.Idle k → (s.objects k).isAcquired = true → k ∈ s.leases

/-- The semaphore does not count on its lease, or gives it back. -/
def Spares (s : Pool S) (k : σ) : Prop :=
  (∀ i, S.object i = k → ¬ (s.threads i).Returning) ∧
    ((s.objects k).isAcquired = true → ∃ i, S.object i = k ∧ (s.threads i).InRelease)

/-- The lease is deleted only when the semaphore spares it; `client.exists` does not find a lease that
is gone; and `release` does not raise when the lease is gone and `is_acquired` still set. -/
def Mindful (k : σ) (s : Pool S) : SemaphoreAct S → Prop
  | .clean i | .delete i => S.object i = k → k ∈ s.leases → s.Spares k
  | .serveLate n => s.late[n]? = some (.deleteLease k) → k ∈ s.leases → s.Spares k
  | .look i place | .confirm i place => S.object i = k →
      ∀ x ∈ s.shown? (S.client k) place, k ∈ x.2 → k ∈ s.leases
  | .fail i e => S.object i = k → s.threads i = .deleting → e.retried = false →
      (s.objects k).isAcquired = true → k ∈ s.leases
  | .giveUp i => S.object i = k → s.threads i = .resting →
      (s.objects k).isAcquired = true → k ∈ s.leases
  | _ => True

/-- What such steps keep, whoever is in a call. -/
structure Owning (s : Pool S) (k : σ) : Prop where
  flag : (s.objects k).isAcquired = true →
    k ∈ s.leases ∨ ∃ i, S.object i = k ∧ (s.threads i).InRelease
  returning : ∀ i, S.object i = k → (s.threads i).Returning → k ∈ s.leases

variable {s s' : Pool S} {i : θ} {k k' : σ}

theorem Owning.owns (h : s.Owning k) : s.Owns k := by
  intro hidle hflag
  rcases h.flag hflag with hmem | ⟨i, hi, hrelease⟩
  · exact hmem
  · rw [hidle i hi] at hrelease
    exact hrelease.elim

theorem owning_new : (new : Pool S).Owning k := 
  ⟨fun hflag => absurd hflag Bool.false_ne_true, fun _ _ => False.elim⟩

/-! ## One step -/

theorem Owning.congr (h : s.Owning k)
    (hflag : (s'.objects k).isAcquired = (s.objects k).isAcquired)
    (hleases : k ∈ s.leases → k ∈ s'.leases) (hthreads : s'.threads = s.threads) : s'.Owning k := by
  refine ⟨fun hacquired => ?_, fun i hi hreturning => ?_⟩
  · rw [hflag] at hacquired
    rw [hthreads]
    exact (h.flag hacquired).imp_left hleases
  · rw [hthreads] at hreturning
    exact hleases (h.returning i hi hreturning)

variable [DecidableEq θ]

theorem Owning.setStage (h : s.Owning k) {stage : SemaphoreStage ι}
    (hreturning : S.object i = k → stage.Returning → k ∈ s.leases)
    (hrelease : S.object i = k → (s.threads i).InRelease → ¬ stage.InRelease →
      (s.objects k).isAcquired = true → k ∈ s.leases) : (s.setStage i stage).Owning k := by
  refine ⟨fun hflag => ?_, fun j hj hstage => ?_⟩
  · rcases h.flag hflag with hmem | ⟨j, hj, hstage⟩
    · exact .inl hmem
    by_cases hne : j = i
    · subst hne
      by_cases hnext : stage.InRelease
      · exact .inr ⟨j, hj, by rwa [setStage_threads_self]⟩
      · exact .inl (hrelease hj hstage hnext hflag)
    · exact .inr ⟨j, hj, by rwa [setStage_threads_of_ne hne]⟩
  · by_cases hne : j = i
    · subst hne
      rw [setStage_threads_self] at hstage
      exact hreturning hj hstage
    · rw [setStage_threads_of_ne hne] at hstage
      exact h.returning j hj hstage

/-- A step within `acquire`, or the first of `release`. -/
theorem Owning.goOn (h : s.Owning k) {old stage : SemaphoreStage ι} (hi : s.threads i = old)
    (hold : ¬ old.InRelease) (hreturning : stage.Returning → old.Returning) :
    (s.setStage i stage).Owning k := by
  apply h.setStage
  · intro hobject hstage
    exact h.returning i hobject (by rw [hi]; exact hreturning hstage)
  · intro _ hrelease
    rw [hi] at hrelease
    exact absurd hrelease hold

variable [DecidableEq σ]

omit [DecidableEq θ] in
theorem Owning.setObject (h : s.Owning k) (o : SemaphoreObject)
    (hflag : k' = k → o.isAcquired = true → (s.objects k).isAcquired = true ∨ k ∈ s.leases) :
    (s.setObject k' o).Owning k := by
  refine ⟨fun hacquired => ?_, h.returning⟩
  by_cases hk : k = k'
  · subst hk
    rw [setObject_objects_self] at hacquired
    rcases hflag rfl hacquired with hbefore | hmem
    · exact h.flag hbefore
    · exact .inl hmem
  · rw [setObject_objects_of_ne hk] at hacquired
    exact h.flag hacquired

omit [DecidableEq θ] in
/-- A delete of a lease is carried out. -/
theorem Owning.erase (h : s.Owning k) (hspares : k' = k → k ∈ s.leases → s.Spares k) :
    (s.setLeases (s.leases.erase k')).Owning k := by
  by_cases hk : k' = k
  · subst hk
    by_cases hmem : k' ∈ s.leases
    · obtain ⟨hreturning, hflag⟩ := hspares rfl hmem
      exact ⟨fun hacquired => .inr (hflag hacquired),
        fun i hi hstage => absurd hstage (hreturning i hi)⟩
    · exact h.congr rfl (fun hmem' => absurd hmem' hmem) rfl
  · exact h.congr rfl (fun hmem => (List.mem_erase_of_ne (Ne.symm hk)).mpr hmem) rfl

/-- `_inner_acquire` is over. -/
theorem Owning.finish (h : s.Owning k) {old : SemaphoreStage ι} {ending : Ending}
    (hi : s.threads i = old) (hold : ¬ old.InRelease)
    (hending : S.object i = k → ending = .returned true → k ∈ s.leases) :
    (s.finish i ending).Owning k := by
  cases ending with
  | returned gotten =>
    have hset : (s.setObject (S.object i)
        { s.objects (S.object i) with isAcquired := gotten }).Owning k := by
      apply h.setObject
      intro hobject hgotten
      exact .inr (hending hobject (congrArg _ hgotten))
    exact hset.goOn hi hold False.elim
  | raised e =>
    unfold Pool.finish
    dsimp only
    split
    · exact h.goOn hi hold False.elim
    · split <;> exact h.goOn hi hold False.elim

omit [DecidableEq θ] in
/-- The semaphore changes, its flag apart. -/
theorem Owning.setOther (h : s.Owning k) {o : SemaphoreObject}
    (ho : o.isAcquired = (s.objects k').isAcquired) : (s.setObject k' o).Owning k := by
  apply h.setObject
  intro hk hacquired
  subst hk
  exact .inl (ho ▸ hacquired)

theorem Owning.cleaned (h : s.Owning k) (hi : s.threads i = .cleaning) :
    (s.cleaned i).Owning k := by
  have hset : (s.setObject (S.object i)
      { s.objects (S.object i) with cancelled := false }).Owning k := h.setOther rfl
  exact hset.goOn hi id False.elim

variable [DecidableEq ι]

omit [DecidableEq θ] [DecidableEq σ] in
/-- A step of a lock object. -/
theorem Owning.lockStep (h : s.Owning k) {act : LockAct S.locks} {place : Nat}
    (hstep : s.lockStep k' act place = some s') : s'.Owning k := by
  obtain ⟨world, -, -, ⟨-, rfl | rfl⟩ | ⟨children, x, -, -, -, rfl⟩⟩ := lockStep_cases hstep
  all_goals exact h.congr rfl id rfl

omit [DecidableEq ι] in
theorem Owning.failing (h : s.Owning k) {e : Exn} (hmindful : s.Mindful k (.fail i e))
    (hstep : s.failing i e = some s') : s'.Owning k := by
  unfold Pool.failing at hstep
  split at hstep
  case h_5 l hi | h_6 l hi =>
    cases hstep
    exact h.goOn hi id fun heq => Ending.noConfusion heq
  case h_7 l hi =>
    cases hstep
    have hlost : (s.lose (.createLease l)).Owning k := h.congr rfl id rfl
    exact hlost.goOn hi id fun heq => Ending.noConfusion heq
  case h_8 hi =>
    cases hstep
    have hlost : (s.lose (.deleteLease (S.object i))).Owning k := h.congr rfl id rfl
    split
    · exact hlost.cleaned hi
    · exact hlost.goOn hi id False.elim
  case h_9 hi =>
    split at hstep <;> cases hstep
    have hlost : (s.lose (.deleteLease (S.object i))).Owning k := h.congr rfl id rfl
    apply hlost.setStage
    · intro _ hreturning
      split at hreturning <;> exact hreturning.elim
    · intro hobject _ hnext
      split at hnext
      · exact absurd trivial hnext
      · next hretried => exact hmindful hobject hi (Bool.eq_false_iff.mpr hretried)
  case h_10 => cases hstep
  all_goals
    next hi =>
      cases hstep
      exact h.finish hi id fun _ heq => Ending.noConfusion heq

omit [DecidableEq ι] in
/-- `client.exists` shows whether the lease is there. -/
theorem Owning.confirm (h : s.Owning k) {place : Nat} {x : PoolState S} {l : ι}
    {stage : SemaphoreStage ι} (hi : s.threads i = .confirming l)
    (hthere : S.object i = k → S.object i ∈ x.2 → k ∈ s.leases)
    (hreturning : stage.Returning → S.object i ∈ x.2) :
    (((s.see (S.client (S.object i)) place).setObject (S.object i)
      { s.objects (S.object i) with isAcquired := S.object i ∈ x.2 }).setStage i stage).Owning k := by
  have hseen : (s.see (S.client (S.object i)) place).Owning k := h.congr rfl id rfl
  have hset : ((s.see (S.client (S.object i)) place).setObject (S.object i)
      { s.objects (S.object i) with isAcquired := S.object i ∈ x.2 }).Owning k := by
    apply hseen.setObject
    intro hobject hfound
    exact .inr (hthere hobject (of_decide_eq_true hfound))
  apply hset.setStage
  · intro hobject hstage
    exact hthere hobject (hreturning hstage)
  · intro _ hrelease
    have hrelease : (s.threads i).InRelease := hrelease
    rw [hi] at hrelease
    exact hrelease.elim

omit [DecidableEq ι] in
/-- `release` deletes the lease. -/
theorem Owning.delete (h : s.Owning k) (hspares : S.object i = k → k ∈ s.leases → s.Spares k) :
    ((((s.setLeases (s.leases.erase (S.object i))).synced (S.client (S.object i))).setObject
      (S.object i) { s.objects (S.object i) with isAcquired := false }).setStage i .idle).Owning k := by
  have herased : ((s.setLeases (s.leases.erase (S.object i))).synced
      (S.client (S.object i))).Owning k := (h.erase hspares).congr rfl id rfl
  have hset : (((s.setLeases (s.leases.erase (S.object i))).synced
      (S.client (S.object i))).setObject (S.object i)
        { s.objects (S.object i) with isAcquired := false }).Owning k :=
    herased.setObject _ fun _ heq => Bool.noConfusion heq
  apply hset.setStage (fun _ => False.elim)
  rintro rfl - - hacquired
  rw [setObject_objects_self] at hacquired
  cases hacquired

omit [DecidableEq θ] [DecidableEq ι] in
/-- A write is carried out whose caller has gone. -/
theorem Owning.serve (h : s.Owning k) {r : LateWrite σ ι}
    (hspares : r = .deleteLease k → k ∈ s.leases → s.Spares k) : (s.serve r).Owning k := by
  cases r with
  | createLease l =>
    unfold Pool.serve
    dsimp only
    split
    · exact h
    · exact h.congr rfl (List.mem_cons_of_mem _) rfl
  | deleteLease k' =>
    apply h.erase
    rintro rfl hmem
    exact hspares rfl hmem
  | deleteLock l name => exact h.congr rfl id rfl

theorem Owning.step (h : s.Owning k) {act : SemaphoreAct S} (hmindful : s.Mindful k act)
    (hstep : s.step act = some s') : s'.Owning k := by
  cases steps_of_step hstep with
  | @acquire i blocking timed hi =>
    have hcalls : { s with calls := Function.update s.calls i ⟨blocking, timed⟩ }.Owning k :=
      h.congr rfl id rfl
    have hset : ({ s with calls := Function.update s.calls i ⟨blocking, timed⟩ }.setObject
        (S.object i) { s.objects (S.object i) with cancelled := false }).Owning k :=
      hcalls.setOther rfl
    exact hset.goOn hi id False.elim
  | attempt hi => split <;> exact h.goOn hi id False.elim
  | @ensure i existed hi =>
    have hset : (s.setObject (S.object i)
        { s.objects (S.object i) with assuredPath := true }).Owning k := h.setOther rfl
    cases existed <;> exact hset.goOn hi id False.elim
  | check hi | store hi | again hi | release hi | wake hi | locked hi | notLocked hi =>
    exact h.goOn hi id (by simp [SemaphoreStage.Returning])
  | checkFailed hi | giveUp hi => exact h.finish hi id fun _ heq => Ending.noConfusion heq
  | @look i place x hi =>
    have hseen : (s.see (S.client (S.object i)) place).Owning k := h.congr rfl id rfl
    exact hseen.goOn hi id False.elim
  | @lookFound i place x hi hshown hfound =>
    have hseen : (s.see (S.client (S.object i)) place).Owning k := h.congr rfl id rfl
    refine hseen.finish hi id ?_
    rintro rfl -
    exact hmindful rfl x hshown hfound
  | @make i l world hi =>
    have hmade : ({ s with made := Function.update s.made l true }.setWorld world).Owning k :=
      h.congr rfl id rfl
    exact hmade.goOn hi id False.elim
  | lock _ _ hlock | free _ _ hlock => exact h.lockStep hlock
  | lockRaised hi | countCancelled hi | createExists hi | timeOut hi =>
    exact h.goOn hi id fun heq => Ending.noConfusion heq
  | @count i place l x hi =>
    have hseen : (s.see (S.client (S.object i)) place).Owning k := h.congr rfl id rfl
    split <;> exact hseen.goOn hi id False.elim
  | @create i l hi =>
    have hleased : ((s.setLeases (S.object i :: s.leases)).synced
        (S.client (S.object i))).Owning k := h.congr rfl (List.mem_cons_of_mem _) rfl
    exact hleased.goOn hi id False.elim
  | @confirm i place l x hi hshown =>
    have hthere : S.object i = k → S.object i ∈ x.2 → k ∈ s.leases := by
      rintro rfl hfound
      exact hmindful rfl x hshown hfound
    apply h.confirm hi hthere
    intro hreturning
    split at hreturning
    · next hfound => exact hfound
    · split at hreturning
      · exact hreturning.elim
      · cases hreturning
  | @unlock i l ending world hi =>
    have hworld : (s.setWorld world).Owning k := h.congr rfl id rfl
    exact hworld.goOn hi id id
  | @freed i l ending hi =>
    refine h.finish hi id fun hobject hreturned => ?_
    exact h.returning i hobject (by rw [hi]; exact hreturned)
  | freedRaised hi => exact h.finish hi id fun _ heq => Ending.noConfusion heq
  | fail hfails => exact h.failing hmindful hfails
  | againRelease => exact h.setStage (fun _ => False.elim) fun _ _ hnext => absurd trivial hnext
  | giveUpRelease hi => exact h.setStage (fun _ => False.elim) fun hobject _ _ => hmindful hobject hi
  | @clean i hi =>
    have herased : ((s.setLeases (s.leases.erase (S.object i))).synced
        (S.client (S.object i))).Owning k := (h.erase hmindful).congr rfl id rfl
    exact herased.cleaned hi
  | test =>
    split
    · exact h.setStage (fun _ => False.elim) fun _ _ hnext => absurd trivial hnext
    · next hflag =>
      apply h.setStage (fun _ => False.elim)
      rintro rfl - - hacquired
      exact absurd hacquired hflag
  | delete => exact h.delete hmindful
  | cancel => exact h.setOther rfl
  | @serveLate n r hn =>
    have hlate : { s with late := s.late.eraseIdx n }.Owning k := h.congr rfl id rfl
    apply hlate.serve
    rintro rfl hmem
    exact hmindful hn hmem
  | loseLate | serveLateNode => exact h.congr rfl id rfl

theorem owning_of_reach (h : (leasing S).Reach (Mindful k) s) : s.Owning k := by
  refine h.invariant (P := fun s => s.Owning k) owning_new ?_
  intro s act _ hs hen hmindful
  obtain ⟨s', hs'⟩ := Option.isSome_iff_exists.mp hen
  show ((s.step act).getD s).Owning k
  rw [hs']
  exact hs.step hmindful hs'

/-! ## A step that is not mindful -/

omit [DecidableEq θ] [DecidableEq σ] [DecidableEq ι] in
theorem isAcquired_of_not_spares (h : ¬ s.Spares k)
    (hreturning : ∀ i, S.object i = k → ¬ (s.threads i).Returning) :
    (s.objects k).isAcquired = true := by
  by_contra hflag
  exact h ⟨hreturning, fun hacquired => absurd hacquired hflag⟩

omit [DecidableEq σ] [DecidableEq ι] in
/-- The others are as idle as they were. -/
theorem Idle.before {stage old : SemaphoreStage ι} (h : (s.setStage i stage).Idle k)
    (hi : s.threads i = old) (hold : ¬ old.Returning) :
    ∀ j, S.object j = k → ¬ (s.threads j).Returning := by
  intro j hj hreturning
  by_cases hne : j = i
  · rw [hne, hi] at hreturning
    exact hold hreturning
  · have hidle := h j hj
    rw [setStage_threads_of_ne hne] at hidle
    rw [hidle] at hreturning
    exact hreturning

/-- Where no call is running afterwards, the semaphore says that it is acquired, and is not. -/
theorem not_owns_of_not_mindful (hnodup : s.leases.Nodup) {act : SemaphoreAct S}
    (hmindful : ¬ s.Mindful k act) (hstep : s.step act = some s') (hidle : s'.Idle k) :
    ¬ s'.Owns k := by
  suffices hwrong : (s'.objects k).isAcquired = true ∧ k ∉ s'.leases from
    fun howns => hwrong.2 (howns hidle hwrong.1)
  cases steps_of_step hstep with
  | clean hi =>
    obtain ⟨rfl, hrest⟩ := Classical.not_imp.mp hmindful
    obtain ⟨hmem, hspares⟩ := Classical.not_imp.mp hrest
    have hflag := isAcquired_of_not_spares hspares (Idle.before hidle hi id)
    refine ⟨?_, hnodup.not_mem_erase⟩
    show ((Pool.setObject _ _ _).objects _).isAcquired = true
    rw [setObject_objects_self]
    exact hflag
  | @delete i hi =>
    obtain ⟨rfl, hrest⟩ := Classical.not_imp.mp hmindful
    obtain ⟨hmem, hspares⟩ := Classical.not_imp.mp hrest
    have hreturning : ∀ j, S.object j = S.object i → ¬ (s.threads j).Returning :=
      Idle.before hidle hi id
    exact absurd ⟨hreturning, fun _ => ⟨i, rfl, by rw [hi]; trivial⟩⟩ hspares
  | @serveLate n r hr =>
    obtain ⟨hn, hrest⟩ := Classical.not_imp.mp hmindful
    obtain ⟨hmem, hspares⟩ := Classical.not_imp.mp hrest
    obtain rfl := Option.some.inj (hr.symm.trans hn)
    have hflag := isAcquired_of_not_spares hspares fun j hj hreturning => by
      rw [show s.threads j = .idle from hidle j hj] at hreturning
      exact hreturning
    exact ⟨hflag, hnodup.not_mem_erase⟩
  | look hi hshown hfound =>
    obtain ⟨rfl, hrest⟩ := Classical.not_imp.mp hmindful
    simp only [not_forall] at hrest
    obtain ⟨x, hshown', hfound', -⟩ := hrest
    obtain rfl := Option.some.inj (hshown.symm.trans hshown')
    exact absurd hfound' hfound
  | lookFound hi hshown hfound =>
    obtain ⟨rfl, hrest⟩ := Classical.not_imp.mp hmindful
    simp only [not_forall] at hrest
    obtain ⟨x, -, -, hgone⟩ := hrest
    refine ⟨?_, hgone⟩
    show ((Pool.setObject _ _ _).objects _).isAcquired = true
    rw [setObject_objects_self]
  | @confirm i place l x hi hshown =>
    obtain ⟨rfl, hrest⟩ := Classical.not_imp.mp hmindful
    simp only [not_forall] at hrest
    obtain ⟨x, hshown', hfound, -⟩ := hrest
    obtain rfl := Option.some.inj (hshown.symm.trans hshown')
    have hidle := hidle i rfl
    rw [setStage_threads_self, if_pos hfound] at hidle
    cases hidle
  | @fail i e _ hfails =>
    obtain ⟨rfl, hrest⟩ := Classical.not_imp.mp hmindful
    obtain ⟨hi, hrest⟩ := Classical.not_imp.mp hrest
    obtain ⟨hretried, hrest⟩ := Classical.not_imp.mp hrest
    obtain ⟨hflag, hgone⟩ := Classical.not_imp.mp hrest
    unfold failing at hfails
    rw [hi] at hfails
    dsimp only at hfails
    split at hfails <;> cases hfails
    exact ⟨hflag, hgone⟩
  | giveUp hi =>
    obtain ⟨rfl, hrest⟩ := Classical.not_imp.mp hmindful
    obtain ⟨hresting, -⟩ := Classical.not_imp.mp hrest
    cases hi.symm.trans hresting
  | giveUpRelease =>
    obtain ⟨rfl, hrest⟩ := Classical.not_imp.mp hmindful
    obtain ⟨-, hrest⟩ := Classical.not_imp.mp hrest
    obtain ⟨hflag, hgone⟩ := Classical.not_imp.mp hrest
    exact ⟨hflag, hgone⟩
  | _ => exact absurd trivial hmindful

/-! ## Runs -/

/-- A semaphore that says that it is acquired has its lease, between the calls of every run whose
steps are mindful of it.  A step that is not leaves it without the lease, if it is the last one of a
call or falls between two calls. -/
theorem acquired_owns (S : Semaphores σ θ ι) (k : σ) :
    (∀ s, (leasing S).Reach (Mindful k) s → s.Owns k) ∧
      ∀ s act, (leasing S).Reachable s → (leasing S).enabled s act → ¬ s.Mindful k act →
        ((leasing S).post s act).Idle k → ¬ ((leasing S).post s act).Owns k := by
  refine ⟨fun s h => (owning_of_reach h).owns, fun s act h hen hmindful => ?_⟩
  obtain ⟨s', hs'⟩ := Option.isSome_iff_exists.mp hen
  show ((s.step act).getD s).Idle k → ¬ ((s.step act).getD s).Owns k
  rw [hs']
  exact not_owns_of_not_mindful (inv_of_reachable h).chronicle.nodup hmindful hs'

/-- The semaphore gets its lease. -/
def heldLease : List (SemaphoreAct oneLease) :=
  counts false 0 1 ++ [.create false, .confirm false 11] ++ frees false

instance (s : Pool oneLease) (k : Bool) (act : SemaphoreAct oneLease) :
    Decidable (s.Mindful k act) := by
  unfold Mindful Spares
  split <;> infer_instance

/-- A second call of `acquire` finds the lease. -/
theorem acquired_owns_again :
    ((leasing oneLease).exec (leasing oneLease).init (heldLease ++
      [.acquire false true false, .attempt false, .look false 17])).Owns false :=
  (acquired_owns oneLease false).1 _ (.of_legal (by decide +kernel))

/-- A second call of `acquire` fails, and its cleanup deletes the lease that was held before. -/
theorem acquired_without_lease :
    ¬ ∀ s, (leasing oneLease).Reachable s → s.Owns false := by
  intro h
  have howns := h ((leasing oneLease).exec (leasing oneLease).init (heldLease ++
    [.acquire false true false, .attempt false, .fail false .connectionLoss, .giveUp false,
      .clean false])) (.of_legal (by decide +kernel))
  revert howns
  unfold Owns Idle
  decide +kernel

end Pool

end Kazoo
