import DaemonProxy.Proofs.ServiceDelete
import DaemonProxy.Soundness.Refusals

/-! # Deleting services

A service that waits for its start can be deleted, and so can one that is down, but for one that has run since it was last
started: it still has the pid of the process that ended.
-/

namespace DaemonProxy.Soundness

open Lib Model Proofs

variable {n : ℕ} {ι κ : Type} [DecidableEq ι] [DecidableEq κ]

/-- In any state that the daemon can reach, `service.delete` of a service that exists ends. If the service is down or waits for
its start, it is accepted and leaves no trace of the service exactly if the service has no pid while it is down; if the service
is up, it is refused and changes nothing. -/
theorem service_delete_iff {sigList : List SigListItem} {standard : ℕ} {fds : FdTable κ} {openFds : List ℤ} {guard : ℤ}
    {execOnExit : Bool} {events : List (System.Event n ι κ)} {s : System n ι κ}
    (run : exec? (System.step sigList) (System.init standard fds openFds guard execOnExit) events = some s)
    {x : ι} (member : x ∈ s.server.loop.daemon.svcList) {svc : Service} (object : s.server.loop.daemon.objects x = svc)
    {args rest : StrSeg} (names : strsegTokNext args tab = some (svc.name, rest)) (env : CallEnv ι κ) (passed : Option ℤ) :
    ∃ input server', (System.serverCall sigList env passed (bytesOf "service.delete") args).run s.awakeServer = some (input, server') ∧
      (svc.state = .down ∨ svc.state = .start →
        (input.error = none ∧ Absent x svc.name server'.loop.daemon ↔ (svc.state = .down → svc.pid = 0))) ∧
      (svc.state = .up → input.error ≠ none ∧ server' = s.awakeServer) := by
  subst object
  obtain ⟨known, each⟩ := services_reached pidFits_new (fun _ _ => PidFits.move) run
  have fits : PidFits (s.server.loop.daemon.objects x) := each x member
  obtain ⟨v, shows, orderly, named⟩ := known
  have awake : Shows s.awakeServer.loop.daemon v := shows.setNext s.world.next
  rw [shows.svcList] at member
  rw [shows.objects] at fits names ⊢
  have finishes : Finishes (serverHandler sigList passed env .svcDelete) ⟨s.awakeServer, args, []⟩ _ _ :=
    ctlCmdSvcDelete_finishes (c := ⟨s.awakeServer, args, []⟩) awake orderly named member names env
  have found : findServerCommand (bytesOf "service.delete") = some .svcDelete := by decide
  obtain ⟨input, c, called, -, ⟨accepted, none, absent⟩ | ⟨text, refused, running, same⟩⟩ := serverCall_finishes found finishes
  · refine ⟨input, c.server, called, fun _ => ?_, fun up => ?_⟩
    · exact ⟨fun _ _ => le_antisymm none fits.nonneg, fun _ => ⟨accepted, absent⟩⟩
    · exact absurd (fits.up up) (not_lt.mpr none)
  · refine ⟨input, c.server, called, fun stopped => ?_, fun _ => ?_⟩
    · rw [refused]
      refine ⟨fun deleted => (nomatch deleted.1), fun noPid => ?_⟩
      rcases stopped with down | start
      · exact absurd (noPid down) running.ne'
      · exact absurd (fits.start start) running.ne'
    · rw [refused]
      exact ⟨nofun, same⟩

/-- A service that was never started is deleted. -/
theorem service_delete_fresh :
    ∃ s input server', exec? (System.step []) processOne (madeRun "service.tags\ta\tb") = some s ∧
      s.server.loop.daemon.svcList = [0] ∧
      (System.serverCall [] {} none (bytesOf "service.delete") (some (bytesOf "a"))).run s.awakeServer = some (input, server') ∧
      input.error = none ∧ Absent 0 (bytesOf "a") server'.loop.daemon := by
  obtain ⟨s, run, holds⟩ := (Option.any_eq_true _ _).mp
    (show (exec? (System.step []) processOne (madeRun "service.tags\ta\tb")).any (fun s =>
      s.server.loop.daemon.svcList = [0] ∧ (s.server.loop.daemon.objects 0).name = bytesOf "a" ∧
        (s.server.loop.daemon.objects 0).state = .down ∧ (s.server.loop.daemon.objects 0).pid = 0) = true by decide +kernel)
  obtain ⟨svcList, name, down, noPid⟩ := of_decide_eq_true holds
  have member : 0 ∈ s.server.loop.daemon.svcList := svcList ▸ List.mem_singleton_self 0
  have names : strsegTokNext (some (bytesOf "a")) tab = some ((s.server.loop.daemon.objects 0).name, none) := by
    rw [name]
    rfl
  obtain ⟨input, server', called, deleted, -⟩ := service_delete_iff run member rfl names {} none
  obtain ⟨accepted, absent⟩ := (deleted (.inl down)).mpr fun _ => noPid
  exact ⟨s, input, server', run, svcList, called, accepted, name ▸ absent⟩

/-- A service is made and started, and in the next iterations its process runs, ends and is reaped. -/
def ranOnce : List (System.Event 1 (Fin 1) (Fin 1)) :=
  [.new 0 1 false true true, .iterate (.ofSeconds 1) (fun _ => false) [], .runActive (fun _ => none) fun _ => [],
    .read (Fin.last 0) (someLines ["service.args\ta\ttrue", "service.start\ta"]) []] ++
  List.replicate 6 (.call (Fin.last 0) svcRoom false fun _ => []) ++
  [.finish (fun _ => []) (fun _ => false) [], .iterate (.ofSeconds 2) (fun _ => false) [],
    .runActive (fun _ => some 100) fun _ => [], .finish (fun _ => []) (fun _ => false) [], .exit 100 0,
    .iterate (.ofSeconds 3) (fun _ => false) [], .reap 100, .runActive (fun _ => none) fun _ => []]

/-- The process of a service has ended and the service is down, but it cannot be deleted. -/
theorem ended_service_not_deleted :
    ∃ s input server', exec? (System.step []) processOne ranOnce = some s ∧ s.server.loop.daemon.svcList = [0] ∧
      (s.server.loop.daemon.objects 0).state = .down ∧ s.server.loop.daemon.children 100 = none ∧
      (System.serverCall [] {} none (bytesOf "service.delete") (some (bytesOf "a"))).run s.awakeServer = some (input, server') ∧
      input.error ≠ none ∧ server'.loop.daemon.svcList = [0] := by
  obtain ⟨s, run, holds⟩ := (Option.any_eq_true _ _).mp
    (show (exec? (System.step []) processOne ranOnce).any (fun s =>
      s.server.loop.daemon.svcList = [0] ∧ (s.server.loop.daemon.objects 0).state = .down ∧
        s.server.loop.daemon.children 100 = none ∧
        ((System.serverCall [] {} none (bytesOf "service.delete") (some (bytesOf "a"))).run s.awakeServer).any
          (fun result => result.1.error.isSome && result.2.loop.daemon.svcList = [0]) = true) = true by decide +kernel)
  obtain ⟨svcList, down, reaped, called⟩ := of_decide_eq_true holds
  obtain ⟨⟨input, server'⟩, called, still⟩ := (Option.any_eq_true _ _).mp called
  rw [Bool.and_eq_true, decide_eq_true_iff] at still
  exact ⟨s, input, server', run, svcList, down, reaped, called, Option.isSome_iff_ne_none.mp still.1, still.2⟩

/-! ## What is reported and found -/

theorem ranOnce_ends :
    ∃ s, exec? (System.step []) processOne ranOnce = some s ∧ 0 ∈ s.server.loop.daemon.svcList ∧
      (s.server.loop.daemon.objects 0).name = bytesOf "a" ∧
      (stateReport 3 (noticeOf (s.server.loop.daemon.objects 0))).2 ≠ none := by
  obtain ⟨s, run, holds⟩ := (Option.any_eq_true _ _).mp
    (show (exec? (System.step []) processOne ranOnce).any (fun s =>
      0 ∈ s.server.loop.daemon.svcList ∧ (s.server.loop.daemon.objects 0).name = bytesOf "a" ∧
        (stateReport 3 (noticeOf (s.server.loop.daemon.objects 0))).2 ≠ none) = true by decide +kernel)
  exact ⟨s, run, of_decide_eq_true holds⟩

variable {sigList : List SigListItem} {standard : ℕ} {fds : FdTable κ} {openFds : List ℤ} {guard : ℤ} {execOnExit : Bool}
  {events : List (System.Event n ι κ)} {s : System n ι κ}

/-- In any state that the daemon can reach and at any time, `service.state` says `start` only of a service that waits for its
start, and of it until then, an exit status only of one that has ended, and `up` of one that is up. -/
theorem state_words_sound
    (run : exec? (System.step sigList) (System.init standard fds openFds guard execOnExit) events = some s)
    {x : ι} (member : x ∈ s.server.loop.daemon.svcList) {svc : Service} (object : s.server.loop.daemon.objects x = svc) (now : ℤ) :
    let report := stateReport now (noticeOf svc)
    (report.1 = .start → svc.state = .start) ∧
      (svc.state = .start → svc.startTime ≠ 0 → 0 ≤ wrap 64 (svc.startTime - now) → report = (.start, none)) ∧
      (report.2 ≠ none → svc.state = .down ∨ svc.state = .reaped) ∧
      (svc.state = .up → svc.startTime ≠ 0 → report = (.up, none)) := by
  have fits : TimesFit svc := object ▸ (services_reached (fun _ => .inl rfl) (fun _ _ => TimesFit.move) run).holds x member
  rw [TimesFit] at fits
  dsimp only [stateReport, noticeOf]
  cases state : svc.state <;> simp only [state] at fits <;> grind

/-- The service that ran once is reported with its exit status. -/
theorem state_words_ended :
    ∃ s, exec? (System.step []) processOne ranOnce = some s ∧ (stateReport 3 (noticeOf (s.server.loop.daemon.objects 0))).2 ≠ none ∧
      ((s.server.loop.daemon.objects 0).state = .down ∨ (s.server.loop.daemon.objects 0).state = .reaped) := by
  obtain ⟨s, run, member, -, ended⟩ := ranOnce_ends
  exact ⟨s, run, ended, (state_words_sound run member rfl 3).2.2.1 ended⟩

/-- In any state that the daemon can reach, `svc_by_name` finds the one service that has the name, if there is one. -/
theorem services_by_name
    (run : exec? (System.step sigList) (System.init standard fds openFds guard execOnExit) events = some s) (name : Bytes) :
    let daemon := s.server.loop.daemon
    ∃ found, (svcByName name false none).run daemon = some (found, daemon) ∧ (found ≠ none → svcCheckName name = true) ∧
      ∀ x, found = some x ↔ x ∈ daemon.svcList ∧ (daemon.objects x).name = name := by
  obtain ⟨v, shows, orderly, named⟩ := server_reached (I := fun s => Known s.loop) known_init (fun _ _ => Known.serverAct) run
  obtain ⟨found, _, ends, result⟩ := svcByName_spec shows orderly name false none
  dsimp only
  rw [shows.svcList, shows.objects]
  rcases result with ⟨x, member, same, rfl, rfl⟩ | ⟨absent, ⟨rfl, rfl, -⟩ | ⟨_, ⟨⟩, -⟩⟩
  · refine ⟨some x, ends, fun _ => same ▸ (named.valid x member).2, fun y => ⟨?_, ?_⟩⟩
    · rintro ⟨⟩
      exact ⟨member, same⟩
    · rintro ⟨member', same'⟩
      rw [named.unique x member y member' (same.trans same'.symm)]
  · refine ⟨none, ends, absurd rfl, fun y => ⟨by rintro ⟨⟩, ?_⟩⟩
    rintro ⟨member, same⟩
    exact absurd same (absent y member)

theorem services_by_name_ended :
    ∃ s, exec? (System.step []) processOne ranOnce = some s ∧
      (svcByName (bytesOf "a") false none).run s.server.loop.daemon = some (some 0, s.server.loop.daemon) := by
  obtain ⟨s, run, member, name, -⟩ := ranOnce_ends
  obtain ⟨found, lookup, -, finds⟩ := services_by_name run (bytesOf "a")
  rw [(finds 0).mpr ⟨member, name⟩] at lookup
  exact ⟨s, run, lookup⟩

end DaemonProxy.Soundness
