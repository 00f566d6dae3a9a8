import DaemonProxy.Proofs.ServiceLists

/-! # The lists of services

Whatever calls are made, the active list holds the services that have something to do, the sigwake list holds those that
signals can start, and `svc_run_active` runs each service of the active list once.
-/

namespace DaemonProxy.Soundness

open Lib Model Proofs

variable {ι : Type}

/-- A list of services in order: its pointers form a list without repetition that leads through exactly the services for
which `holds`, and only these have a back pointer. -/
structure ListOrdered (s : Daemon ι) (links : Links ι) (holds : Service → Prop) (list : List ι) : Prop where
  represents : links.Represents list
  linked : ∀ x, (links.prevPtr x).isSome ↔ x ∈ list
  members : ∀ x, x ∈ list ↔ x ∈ s.svcList ∧ holds (s.objects x)

theorem listOrdered_active {s : Daemon ι} {v : View ι} (shows : Shows s v) (orderly : Orderly v) :
    ListOrdered s s.activeList (fun svc => svc.state = .start ∨ svc.state = .reaped) v.active := by
  refine ⟨shows.active, fun x => shows.active.mem_iff, fun x => ?_⟩
  rw [shows.svcList, shows.objects]
  exact orderly.active x

theorem listOrdered_sigwake {s : Daemon ι} {v : View ι} (shows : Shows s v) (orderly : Orderly v) :
    ListOrdered s s.sigwakeList (fun svc => svc.sigwake = true) v.sigwake := by
  refine ⟨shows.sigwake, fun x => shows.sigwake.mem_iff, fun x => ?_⟩
  rw [shows.svcList, shows.objects]
  exact orderly.sigwake x

/-- After any sequence of calls both lists are in order, every further call about a service ends, and the final loop of
`svc_run_active` visits the list as it was when the loop began. -/
theorem service_lists_ordered [DecidableEq ι] {calls : List (SvcCall ι)} {s : Daemon ι}
    (reached : exec? svcCallStep Daemon.init calls = some s) :
    (∃ active, ListOrdered s s.activeList (fun svc => svc.state = .start ∨ svc.state = .reaped) active) ∧
    (∃ sigwake, ListOrdered s s.sigwakeList (fun svc => svc.sigwake = true) sigwake) ∧
    (∀ call, ValidCall s.svcList call → (svcCallStep s call).isSome) ∧
    ∀ signals (check : Service → Bool) fork, Ends (svcWakeNew signals) s fun _ s₁ => ∃ listed,
      ListOrdered s₁ s₁.activeList (fun svc => svc.state = .start ∨ svc.state = .reaped) listed ∧
      Ends (svcRunServices (fun svc => some (check svc)) fork) s₁ fun visited _ => visited = listed ∧ visited.Nodup := by
  obtain ⟨v, shows, orderly⟩ : ∃ v, Shows s v ∧ Orderly v := by
    apply exec?_preserves (I := fun s => ∃ v, Shows s v ∧ Orderly v) _ ⟨.init, shows_init, orderly_init⟩ reached
    rintro s call s' ⟨v, shows, orderly⟩ step
    exact svcCallStep_orderly shows orderly step
  refine ⟨⟨_, listOrdered_active shows orderly⟩, ⟨_, listOrdered_sigwake shows orderly⟩, fun call valid => ?_,
    fun signals check fork => ?_⟩
  · rw [shows.svcList] at valid
    obtain ⟨_, s', run, -⟩ := shows.call orderly valid
    rw [svcCallStep, run]
    rfl
  · refine (shows.wakeNew orderly signals).mono fun _ s₁ ⟨shows₁, orderly₁⟩ => ?_
    refine ⟨_, listOrdered_active shows₁ orderly₁, (shows₁.runServices orderly₁ check fork).mono fun visited _ after => ?_⟩
    exact ⟨after.1, after.1 ▸ shows₁.active.nodup⟩

/-- Three services: one waits for a later time, one is forked and reaped, and one is to be started by a signal. -/
theorem service_lists_ordered_three : ∃ s, exec? svcCallStep (Daemon.init : Daemon ℕ) [.clock 5, .create (bytesOf "a") (some 0),
      .create (bytesOf "b") (some 1), .create (bytesOf "c") (some 2), .handleStart 0 9, .handleStart 1 5,
      .runActive [] (fun _ => false) (fun _ => some 100), .setTriggers 2 false (· = 10) true false, .handleReaped 1 0] = some s ∧
    (s.objects 0).state = .start ∧ (s.objects 1).state = .reaped ∧ (s.objects 2).state = .down ∧
    ∃ active, ListOrdered s s.activeList (fun svc => svc.state = .start ∨ svc.state = .reaped) active := by
  obtain ⟨s, reached, states⟩ := (Option.any_eq_true _ _).mp (show (exec? svcCallStep (Daemon.init : Daemon ℕ) [.clock 5,
      .create (bytesOf "a") (some 0), .create (bytesOf "b") (some 1), .create (bytesOf "c") (some 2), .handleStart 0 9,
      .handleStart 1 5, .runActive [] (fun _ => false) (fun _ => some 100), .setTriggers 2 false (· = 10) true false,
      .handleReaped 1 0]).any (fun s => (s.objects 0).state = .start ∧ (s.objects 1).state = .reaped ∧
        (s.objects 2).state = .down) = true by decide +kernel)
  obtain ⟨waits, ended, down⟩ := of_decide_eq_true states
  exact ⟨s, reached, waits, ended, down, (service_lists_ordered reached).1⟩

end DaemonProxy.Soundness
