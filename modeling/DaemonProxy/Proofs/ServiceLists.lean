import DaemonProxy.Model.ServiceLoop
import DaemonProxy.Proofs.ServiceInvariant

/-! # Loops over the lists of services

`svc_run_active` walks along both lists while the services it visits change their place in them. The views after each of
the two loops are folds over the lists as they were when the loop began.
-/

namespace DaemonProxy.Proofs

open Lib Model

variable {ι : Type} [DecidableEq ι] {s : Daemon ι} {v : View ι} {x : ι}

namespace View

/-- A signal reaches a service of the sigwake list. -/
def wakeOne (signum : ℤ) (v : View ι) (x : ι) : View ι :=
  if (v.objects x).autostartSignals signum then v.handleStart x v.now else v

def wake (v : View ι) (signum : ℤ) : View ι := v.sigwake.foldl (wakeOne signum) v

def wakeAll (v : View ι) (signals : List ℤ) : View ι := signals.foldl wake v

/-- A service of the active list is run. -/
def runChecked (check : Service → Bool) (fork : ι → Option ℤ) (v : View ι) (x : ι) : View ι :=
  v.run x (fork x) (decide ((v.objects x).state = .reaped ∧ (v.objects x).autoRestart = false) && check (v.objects x))

def runServices (v : View ι) (check : Service → Bool) (fork : ι → Option ℤ) : View ι :=
  v.active.foldl (runChecked check fork) v

/-- `svc_run_active`. -/
def runActive (v : View ι) (signals : List ℤ) (check : Service → Bool) (fork : ι → Option ℤ) : View ι :=
  (v.wakeAll signals).runServices check fork

/-! ## What the loops do not change -/

theorem handleStart_sigwake (v : View ι) (x : ι) (when : ℤ) : (v.handleStart x when).sigwake = v.sigwake := by
  rw [handleStart]
  split <;> rfl

theorem handleStart_svcList (v : View ι) (x : ι) (when : ℤ) : (v.handleStart x when).svcList = v.svcList := by
  rw [handleStart]
  split <;> rfl

theorem wakeOne_sigwake (signum : ℤ) (v : View ι) (x : ι) : (wakeOne signum v x).sigwake = v.sigwake := by
  rw [wakeOne]
  split
  · exact handleStart_sigwake ..
  · rfl

/-- A run leaves the other services on the active list. -/
theorem run_active {fork : Option ℤ} {triggered : Bool} (listed : x ∈ v.active) :
    (v.run x fork triggered).active = v.active ∨ (v.run x fork triggered).active = v.active.filter (· ≠ x) := by
  have stays : Links.setListed x true v.active = v.active := by rw [Links.setListed, if_pos rfl, if_pos listed]
  have start : ∀ w : View ι, w.active = v.active → (w.runStart x fork).active = v.active ∨
      (w.runStart x fork).active = v.active.filter (· ≠ x) := by
    intro w same
    rw [runStart]
    split
    · exact .inl ((congrArg (Links.setListed x true) same).trans stays)
    · split
      · exact .inr (congrArg (Links.setListed x false) same)
      · refine .inl ((congrArg (Links.setListed x true ∘ Links.setListed x true) same).trans ?_)
        rw [Function.comp_apply, stays, stays]
  rw [run]
  split
  · exact start v rfl
  · split
    · exact start (v.restart x) stays
    · exact .inr rfl
  · exact .inr rfl

end View

/-- The rest of the list is still its end when the first element of that rest is taken out, or stays. -/
theorem suffix_of_run {list list' rest : List ι} (nodup : list.Nodup) (tail : x :: rest <:+ list)
    (after : list' = list ∨ list' = list.filter (· ≠ x)) : rest <:+ list' := by
  rcases after with rfl | rfl
  · exact (List.suffix_cons x rest).trans tail
  · obtain ⟨front, rfl⟩ := tail
    have absent : x ∉ rest := (List.nodup_cons.mp (List.nodup_append.mp nodup).2.1).1
    refine ⟨front.filter (· ≠ x), ?_⟩
    rw [List.filter_append, List.filter_cons_of_neg (by simp),
      List.filter_eq_self.mpr fun y inside => decide_eq_true (ne_of_mem_of_not_mem inside absent)]

/-! ## The loops -/

omit [DecidableEq ι] in
theorem length_le_of_listed {list : List ι} (nodup : list.Nodup) (within : ∀ x ∈ list, x ∈ v.svcList) :
    list.length ≤ v.svcList.length := (List.subperm_of_subset nodup within).length_le

theorem Shows.wake (shows : Shows s v) (orderly : Orderly v) (signum : ℤ) :
    Ends (svcWake signum) s fun _ s' => Shows s' (v.wake signum) ∧ Orderly (v.wake signum) := by
  -- What is left of the list leads from the view so far to the final one.
  let P : List ι → Daemon ι → Prop := fun todo s => ∃ w, Shows s w ∧ Orderly w ∧ todo <:+ w.sigwake ∧
    todo.foldl (View.wakeOne signum) w = v.wake signum
  simp only [svcWake, ends_bind, ends_get, ends_pure, shows.sigwake.head_eq]
  refine (Links.each_spec (P := P) ?_ ⟨v, shows, orderly, List.suffix_rfl, rfl⟩ ?_).mono ?_
  · rintro x rest s ⟨w, shows, orderly, tail, final⟩
    have member : x ∈ w.svcList := ((orderly.sigwake x).mp (tail.subset List.mem_cons_self)).1
    have here : s.objects x = w.objects x := by rw [shows.objects]
    refine ⟨shows.sigwake.next_eq tail, ?_⟩
    have tail' : rest <:+ (View.wakeOne signum w x).sigwake := by
      rw [View.wakeOne_sigwake]
      exact (List.suffix_cons x rest).trans tail
    simp only [ends_bind, ends_svcAt, here, ends_ite, ends_get, ends_pure]
    rw [List.foldl_cons, View.wakeOne] at final
    rw [View.wakeOne] at tail'
    split
    · next wakes =>
      rw [if_pos wakes] at final tail'
      rw [shows.now]
      exact (shows.handleStart member _).mono fun _ s' after => ⟨_, after.1, orderly.handleStart member _, tail', final⟩
    · next sleeps =>
      rw [if_neg sleeps] at final tail'
      exact ⟨w, shows, orderly, tail', final⟩
  · rw [shows.svcList]
    exact length_le_of_listed shows.sigwake.nodup fun x inside => ((orderly.sigwake x).mp inside).1
  · rintro _ s' ⟨-, w, shows', orderly', -, rfl⟩
    exact ⟨shows', orderly'⟩

theorem Shows.wakeAll (shows : Shows s v) (orderly : Orderly v) (signals : List ℤ) :
    Ends (svcWakeAll signals) s fun _ s' => Shows s' (v.wakeAll signals) ∧ Orderly (v.wakeAll signals) := by
  induction signals generalizing s v with
  | nil => exact (ends_pure _).mpr ⟨shows, orderly⟩
  | cons signum later ih =>
    simp only [svcWakeAll, ends_bind]
    exact (shows.wake orderly signum).mono fun _ s' woken => ih woken.1 woken.2

theorem Shows.runServices (shows : Shows s v) (orderly : Orderly v) (check : Service → Bool) (fork : ι → Option ℤ) :
    Ends (svcRunServices (fun svc => some (check svc)) fork) s fun visited s' => visited = v.active ∧
      Shows s' (v.runServices check fork) ∧ Orderly (v.runServices check fork) := by
  let P : List ι → Daemon ι → Prop := fun todo s => ∃ w, Shows s w ∧ Orderly w ∧ todo <:+ w.active ∧
    todo.foldl (View.runChecked check fork) w = v.runServices check fork
  simp only [svcRunServices, ends_bind, ends_get, shows.active.head_eq]
  refine (Links.each_spec (P := P) ?_ ⟨v, shows, orderly, List.suffix_rfl, rfl⟩ ?_).mono ?_
  · rintro x rest s ⟨w, shows, orderly, tail, final⟩
    have listed : x ∈ w.active := tail.subset List.mem_cons_self
    have member : x ∈ w.svcList := ((orderly.active x).mp listed).1
    have here : s.objects x = w.objects x := by rw [shows.objects]
    refine ⟨shows.active.next_eq tail, ?_⟩
    have run : Ends (svcRunChecked (fun svc => some (check svc)) fork x) s fun _ s' =>
        Shows s' (View.runChecked check fork w x) := by
      simp only [svcRunChecked, ends_bind, ends_svcAt, here, ends_ite, View.runChecked]
      split
      · next asks => simpa [asks] using shows.run member (orderly.known x member)
      · next skips => simpa [skips] using shows.run member (orderly.known x member)
    refine run.mono fun _ s' after => ⟨_, after, orderly.run member _ _, ?_, final⟩
    exact suffix_of_run shows.active.nodup tail (View.run_active listed)
  · rw [shows.svcList]
    exact length_le_of_listed shows.active.nodup fun x inside => ((orderly.active x).mp inside).1
  · rintro visited s' ⟨rfl, w, shows', orderly', -, rfl⟩
    exact ⟨rfl, shows', orderly'⟩

theorem Shows.wakeNew (shows : Shows s v) (orderly : Orderly v) (signals : List ℤ) :
    Ends (svcWakeNew signals) s fun _ s' => Shows s' (v.wakeAll signals) ∧ Orderly (v.wakeAll signals) := by
  simp only [svcWakeNew, ends_bind, ends_get, ends_ite, ends_pure, shows.sigwake.head_eq]
  split
  · exact shows.wakeAll orderly signals
  · next none =>
    -- With an empty list nothing is woken.
    have empty : v.sigwake = [] := by simpa using none
    have idle : ∀ signum, v.wake signum = v := fun signum => by rw [View.wake, empty, List.foldl_nil]
    have same : v.wakeAll signals = v := by
      induction signals with
      | nil => rfl
      | cons signum later ih => rwa [View.wakeAll, List.foldl_cons, idle]
    rw [same]
    exact ⟨shows, orderly⟩

theorem Shows.runActive (shows : Shows s v) (orderly : Orderly v) (signals : List ℤ) (check : Service → Bool)
    (fork : ι → Option ℤ) :
    Ends (svcRunActive signals (fun svc => some (check svc)) fork) s fun _ s' =>
      Shows s' (v.runActive signals check fork) ∧ Orderly (v.runActive signals check fork) := by
  simp only [svcRunActive, ends_bind]
  refine (shows.wakeNew orderly signals).mono fun _ s₁ result => ?_
  obtain ⟨shows₁, orderly₁⟩ := result
  exact (shows₁.runServices orderly₁ check fork).mono fun _ s₂ after => after.2

/-! ## Calls in any order -/

/-- The call is about a service. -/
def ValidCall (services : List ι) : SvcCall ι → Prop
  | .handleStart x _ | .cancelStart x | .handleReaped x _ | .run x _ _ | .setTriggers x _ _ _ _ | .delete x => x ∈ services
  | .create .. | .runActive .. | .clock .. | .children .. => True

theorem ends_onService {call : SvcM ι Unit} {post : Unit → Daemon ι → Prop} :
    Ends (onService x call) s post ↔ x ∈ s.svcList ∧ Ends call s post := by
  simp only [onService, ends_bind, ends_get, ends_ite, ends_failure]
  split
  · next member => exact (and_iff_right member).symm
  · next absent => exact iff_of_false id fun both => absent both.1

/-- A call about a service ends and leaves the lists in order. -/
theorem Shows.call {call : SvcCall ι} (shows : Shows s v) (orderly : Orderly v) (valid : ValidCall v.svcList call) :
    Ends (svcCallProgram call) s fun _ s' => ∃ v', Shows s' v' ∧ Orderly v' := by
  cases call with
  | create name mem =>
    simp only [svcCallProgram, ends_ite, ends_bind, ends_pure]
    split
    · refine (shows.byNameCreate orderly name mem).mono fun _ s' after => ?_
      rcases after with ⟨same, -⟩ | ⟨x, -, absent, created⟩
      · exact ⟨v, same, orderly⟩
      · exact ⟨_, created, orderly.create absent name⟩
    · exact ⟨v, shows, orderly⟩
  | handleStart x when =>
    simp only [svcCallProgram, ends_onService, ends_bind, ends_pure, shows.svcList]
    exact ⟨valid, (shows.handleStart valid when).mono fun _ s' after => ⟨_, after.1, orderly.handleStart valid when⟩⟩
  | cancelStart x =>
    simp only [svcCallProgram, ends_onService, ends_bind, ends_pure, shows.svcList]
    exact ⟨valid, shows.cancelStart.mono fun _ s' after => ⟨_, after, orderly.cancelStart valid⟩⟩
  | handleReaped x wstat =>
    simp only [svcCallProgram, ends_onService, shows.svcList]
    exact ⟨valid, (shows.handleReaped wstat).mono fun _ s' after => ⟨_, after, orderly.handleReaped valid wstat⟩⟩
  | run x fork triggered =>
    simp only [svcCallProgram, ends_onService, shows.svcList]
    exact ⟨valid, (shows.run valid (orderly.known x valid)).mono fun _ s' after => ⟨_, after, orderly.run valid fork triggered⟩⟩
  | runActive signals check fork =>
    simp only [svcCallProgram, ends_bind, ends_pure]
    exact (shows.runActive orderly signals check fork).mono fun _ s' after => ⟨_, after⟩
  | setTriggers x autostart signals enableSigs triggered =>
    simp only [svcCallProgram, ends_onService, shows.svcList]
    refine ⟨valid, (shows.applyTriggers valid autostart signals enableSigs triggered).mono fun _ s' after => ?_⟩
    exact ⟨_, after, orderly.applyTriggers valid autostart signals enableSigs triggered⟩
  | delete x =>
    have nodup := shows.indexed.nodup
    simp only [svcCallProgram, ends_onService, shows.svcList] at nodup ⊢
    exact ⟨valid, (shows.delete valid).mono fun _ s' after => ⟨_, after, orderly.delete nodup valid⟩⟩
  | clock now =>
    simp only [svcCallProgram, ends_modify]
    exact ⟨_, shows.setNow now, orderly.congr rfl rfl rfl rfl⟩
  | children table =>
    simp only [svcCallProgram, ends_modify]
    exact ⟨_, shows.setChildren table, orderly.congr rfl rfl rfl rfl⟩

/-- A call about anything else is no step. -/
theorem validCall_of_step {s' : Daemon ι} {call : SvcCall ι} (shows : Shows s v) (step : svcCallStep s call = some s') :
    ValidCall v.svcList call := by
  have member : ∀ {x} {program : SvcM ι Unit}, ((onService x program).run s).map Prod.snd = some s' → x ∈ v.svcList := by
    intro x program step
    obtain ⟨result, run, -⟩ := Option.map_eq_some_iff.mp step
    have ends : Ends (onService x program) s fun _ _ => True := ⟨_, _, run, trivial⟩
    rw [ends_onService, shows.svcList] at ends
    exact ends.1
  cases call with
  | create | runActive | clock | children => trivial
  | handleStart | cancelStart | handleReaped | run | setTriggers | delete => exact member step

theorem svcCallStep_orderly {s' : Daemon ι} {call : SvcCall ι} (shows : Shows s v) (orderly : Orderly v)
    (step : svcCallStep s call = some s') : ∃ v', Shows s' v' ∧ Orderly v' :=
  ((shows.call orderly (validCall_of_step shows step)).at_state step).elim fun _ after => after

end DaemonProxy.Proofs
