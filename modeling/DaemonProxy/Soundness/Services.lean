import DaemonProxy.Proofs.ServiceChildren
import DaemonProxy.Proofs.ServiceCommands

/-! # Reaping services, and signals to them

A service is found by the pid of its child for as long as no fork gives a pid that another service
still carries. A service keeps its pid after its child is reaped, until its next start, so the index of
pids is not limited to services that run, and a pid that comes back can hide a service from `waitpid`.

As long as no reap goes to another service, `pid` and `wait_status` tell which services are up, and
`service.signal` reaches nothing but children that have not been reaped.
-/

namespace DaemonProxy.Soundness

open Lib Model Proofs

section Reaping

variable {ι : Type} [DecidableEq ι]

instance (s : Daemon ι) (x : ι) : (fork : Option ℤ) → Decidable (PidFresh s x fork)
  | none => isTrue nofun
  | some pid => decidable_of_iff (∀ y ∈ s.svcList, y ≠ x → (s.objects y).pid ≠ pid)
      ⟨fun fresh _ same => Option.some.inj same ▸ fresh, fun fresh => fresh pid rfl⟩

instance (s : Daemon ι) (event : SvcEvent ι) : Decidable (ForkFresh s event) :=
  match event with
  | .run x fork _ => inferInstanceAs (Decidable (PidFresh s x fork))
  | .create .. | .autoUp .. | .start .. | .cancel .. | .delete .. | .clock .. | .wakeBySignal .. | .adopt .. | .exit ..
  | .reap .. => isTrue trivial

end Reaping

/-- Service `a` runs as pid 100 and is reaped. -/
def firstRun : List (SvcEvent ℕ) :=
  [.create (bytesOf "a") (some 0), .create (bytesOf "b") (some 1), .clock 5, .start (bytesOf "a") 5,
    .run 0 (some 100) false, .exit 100 0, .reap 100, .run 0 none false]

/-- Then service `b` runs with the given pid and ends. -/
def secondRun (pid : ℤ) : List (SvcEvent ℕ) :=
  [.start (bytesOf "b") 5, .run 1 (some pid) false, .exit pid 256]

section Signalling

variable {ι κ : Type} [DecidableEq ι] [DecidableEq κ]

/-- The new calls of `kill` and `killpg` go to a child of a service that has been forked and not yet reaped. -/
def KillsChildren (s s' : Server ι κ) : Prop :=
  s'.kills = s.kills ∨ ∃ call, s'.kills = s.kills ++ [call] ∧ 0 < call.pid ∧
    ∃ x ∈ s.loop.daemon.svcList, ∃ child ∈ s.loop.daemon.children call.pid, child.owner = some x

omit [DecidableEq ι] [DecidableEq κ] in
theorem killsChildren_of_attended {s s' : Server ι κ} {v : View ι} (shows : Shows s.loop.daemon v) (attended : Attended v)
    (signals : Signals s s') : KillsChildren s s' := by
  obtain ⟨-, none | ⟨x, member, signum, group, positive, running, kills⟩⟩ := signals
  · exact .inl none
  rw [shows.svcList] at member
  rw [shows.objects] at positive running kills
  have isUp := (attended.steady x member).up_iff.mpr ⟨positive, running⟩
  have owner := (attended.owner (v.objects x).pid x).mpr ⟨member, isUp, rfl⟩
  obtain ⟨child, inTable, own⟩ := Option.bind_eq_some_iff.mp owner
  refine .inr ⟨_, kills, positive, x, shows.svcList ▸ member, child, ?_, own⟩
  rw [shows.children]
  exact inTable

/-- In a run where each reap reaches its own service, the services that are up are those with a pid and no status, and
`service.signal` sends signals to live children only. -/
theorem signals_reach_children (events : List (SvcEvent ι)) (own : Along? svcStep ReapsOwn Daemon.init events)
    {before : List (SvcEvent ι)} (leading : before <+: events) :
    ∃ s, exec? svcStep Daemon.init before = some s ∧
      (∀ x ∈ s.svcList, (s.objects x).state = .up ↔ 0 < (s.objects x).pid ∧ (s.objects x).waitStatus < 0) ∧
      ∀ (server : Server ι κ) sigList passed env args outcome, server.loop.daemon = s →
        runServerCommand sigList passed env .svcSignal args server = some outcome → KillsChildren server outcome.server := by
  obtain ⟨s, run, v, shows, orderly, attended⟩ :=
    exec?_invariant svcStep_attended init_svcAttended (own.of_prefix leading)
  refine ⟨s, run, fun x member => ?_, ?_⟩
  · rw [shows.svcList] at member
    rw [shows.objects]
    exact (attended.steady x member).up_iff
  · rintro server sigList passed env args outcome rfl ran
    obtain ⟨⟨result, c⟩, handled, rfl⟩ := Option.map_eq_some_iff.mp ran
    apply killsChildren_of_attended shows attended
    obtain ⟨_, -, signals⟩ | ⟨_, -, signals⟩ :=
      (ctlCmdSvcSignal_settles (c := ⟨server, args, []⟩) shows orderly sigList env).of_run handled
    · exact signals
    · exact signals

instance (s : Daemon ι) (event : SvcEvent ι) : Decidable (ReapsOwn s event) :=
  match event with
  | .reap pid =>
      match entry : s.children pid with
      | some (.zombie none wstat) => decidable_of_iff (0 ≤ wstat) (by simp [ReapsOwn, entry])
      | some (.zombie (some x) wstat) =>
          decidable_of_iff (0 ≤ wstat ∧ ((svcByPid pid).run s).map Prod.fst = some (some x)) (by simp [ReapsOwn, entry])
      | some (.running _) | none => isTrue (by simp [ReapsOwn, entry])
  | .create .. | .autoUp .. | .start .. | .cancel .. | .delete .. | .clock .. | .wakeBySignal .. | .adopt .. | .exit ..
  | .run .. => isTrue trivial

end Signalling

/-- Two services, one of which has ended, while the other one runs with the pid that the first one still carries. -/
theorem signals_reach_children_shared :
    ∃ s, exec? svcStep Daemon.init (firstRun ++ secondRun 100) = some s ∧
      (∀ x ∈ s.svcList, (s.objects x).state = .up ↔ 0 < (s.objects x).pid ∧ (s.objects x).waitStatus < 0) ∧
      ∀ (server : Server ℕ ℕ) sigList passed env args outcome, server.loop.daemon = s →
        runServerCommand sigList passed env .svcSignal args server = some outcome → KillsChildren server outcome.server :=
  signals_reach_children (firstRun ++ secondRun 100) (by decide +kernel) List.prefix_rfl

end DaemonProxy.Soundness
