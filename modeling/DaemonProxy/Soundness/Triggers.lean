import DaemonProxy.Proofs.Triggers

/-! # Triggers

Whatever signals arrive, children exit, forks fail and commands are executed, `svc_run_active` leaves no service down that
has the trigger `always` or a trigger signal that is pending.
-/

namespace DaemonProxy.Soundness

open Lib Model Proofs

variable {ι : Type} [DecidableEq ι]

/-- In front of `svc_run_active`, in any run in which the timestamps of signals increase, `signal.clear` takes counts off and
no pending start is cancelled: the call ends, and every trigger has been served. -/
theorem triggers_not_lost {sigList : List SigListItem} {events : List (LoopEvent ι)} {s : Supervisor ι}
    (reached : exec? (loopStep sigList) .init events = some s)
    (along : Along? (loopStep sigList) (TriggerAllowed sigList) .init events) (phase : s.phase = .reaping)
    (fork : ι → Option ℤ) :
    ∃ s', loopStep sigList s (.runActive fork) = some s' ∧
      ∀ x ∈ s'.daemon.svcList, (s'.daemon.objects x).autoRestart = true ∨
        Signalled s'.sig.signals.slots (s'.daemon.objects x) → (s'.daemon.objects x).state ≠ .down := by
  obtain ⟨v, shows, orderly, inv⟩ : ∃ v, Shows s.daemon v ∧ Orderly v ∧ TriggerInv s v := by
    apply exec?_preserves_along (I := fun s => ∃ v, Shows s.daemon v ∧ Orderly v ∧ TriggerInv s v) _ _ reached along
    · rintro s event s' allowed ⟨v, shows, orderly, inv⟩ step
      obtain ⟨v', shows', orderly', move⟩ := loopStep_moves shows orderly step
      exact ⟨v', shows', orderly', inv.step shows orderly allowed move⟩
    · exact ⟨.init, shows_init, orderly_init, .init, nofun⟩
  obtain ⟨s', step⟩ : ∃ s', loopStep sigList s (.runActive fork) = some s' := inv.runs shows orderly phase fork
  obtain ⟨v', shows', -, move⟩ := loopStep_moves shows orderly step
  refine ⟨s', step, ?_⟩
  cases move with
  | runActive _ news =>
    rw [shows'.svcList, shows'.objects]
    exact inv.serves shows orderly news fork
  | same commands => exact nomatch phase.symm.trans commands

/-- Two services, one with `always` and one with `SIGUSR1`, which arrives after the first run. -/
theorem triggers_not_lost_two :
    let events : List (LoopEvent ℕ) := [.iterate ⟨5, 0, by decide, by decide⟩, .runActive (fun _ => none),
      .autoUp (some 0) true (some (bytesOf "a\t1\talways")), .autoUp (some 1) true (some (bytesOf "b\t1\tSIGUSR1")),
      .arrive 10 (by decide) ⟨6, 0, by decide, by decide⟩, .iterate ⟨7, 0, by decide, by decide⟩]
    ∃ s s', exec? (loopStep linuxSigList) .init events = some s ∧
      loopStep linuxSigList s (.runActive fun x => some (100 + x)) = some s' ∧
      ∀ x ∈ s'.daemon.svcList, (s'.daemon.objects x).autoRestart = true ∨
        Signalled s'.sig.signals.slots (s'.daemon.objects x) → (s'.daemon.objects x).state ≠ .down := by
  intro events
  obtain ⟨s, reached, phase⟩ := (Option.any_eq_true _ _).mp
    (show (exec? (loopStep linuxSigList) .init events).any (fun s => s.phase = .reaping) = true by decide +kernel)
  have along : Along? (loopStep linuxSigList) (TriggerAllowed linuxSigList) .init events := by decide +kernel
  obtain ⟨s', step, served⟩ := triggers_not_lost reached along (of_decide_eq_true phase) fun x => some (100 + x)
  exact ⟨s, s', reached, step, served⟩

end DaemonProxy.Soundness
