import DaemonProxy.Proofs.Numbers
import DaemonProxy.Proofs.ServiceDelete
import DaemonProxy.Soundness.Refusals

/-! # Scheduled starts

`service.start NAME T` turns its seconds into 32.32 fixed point and compares the difference to the clock with -100000, which is
a small part of a second there.
-/

namespace DaemonProxy.Soundness

open Lib Model Proofs

variable {n : ℕ} {ι κ : Type} [DecidableEq ι] [DecidableEq κ]

/-- The service has arguments to start with. -/
def Configured (packed : Bytes) : Prop :=
  ∃ argv, packedGet packed (bytesOf "args") = some (some argv) ∧ argv ≠ [] ∧ argv.head? ≠ some tab

/-- Seconds in 32.32 fixed point. -/
def fixedPoint (seconds : ℤ) : ℤ := seconds * 4294967296

variable {seconds : ℤ}

theorem getArgTs_denoted {command : StrSeg} {arg : Bytes} (next : ctlPeekArg command = some arg)
    (integer : denoted arg = some (seconds, [])) (fits : InInt32 seconds) :
    (ctlGetArgTs command).2 = .ok (fixedPoint seconds) := by
  obtain ⟨low, high⟩ := fits
  obtain ⟨⟨token, rest⟩, taken, rfl⟩ := Option.map_eq_some_iff.mp next
  have read : strsegAtoi token = some (seconds, []) := by
    rw [strsegAtoi_eq, integer]
    dsimp only [Option.map_some]
    rw [wrap64_eq ⟨by omega, by omega⟩]
  have shifted : seconds <<< (32 : ℕ) = fixedPoint seconds := Int.shiftLeft_eq seconds 32
  have exact : wrap 64 (fixedPoint seconds) = fixedPoint seconds := by
    rw [fixedPoint]
    exact wrap64_eq ⟨by omega, by omega⟩
  simp only [ctlGetArgTs, ctlGetArgInt, taken, read, shifted, exact]

variable {c : Call ι κ}

theorem finishes_takeArgOr {α : Type} {parse : StrSeg → StrSeg × Except String α} {message : String} {value : α}
    (parsed : (parse c.command).2 = .ok value) {post : α → Call ι κ → Prop} {refused : Bytes → Call ι κ → Prop}
    (holds : post value { c with command := (parse c.command).1 }) : Finishes (takeArgOr parse message) c post refused := by
  apply Finishes.get_bind
  apply Finishes.modify_bind
  simp only [parsed]
  exact finishes_pure value holds

/-- A service with arguments that can be started waits for its start afterwards. -/
theorem startService_finishes {v : View ι} {x : ι} (shows : Shows c.server.loop.daemon v) (member : x ∈ v.svcList)
    (configured : Configured (c.server.vars x)) (startable : Startable (v.objects x)) (startTime : ℤ)
    {refused : Bytes → Call ι κ → Prop} :
    Finishes (startService x startTime) c
      (fun _ c' => (c'.server.loop.daemon.objects x).state = .start ∧
        (c'.server.loop.daemon.objects x).startTime = startTimeFor startTime v.now) refused := by
  obtain ⟨argv, stored, nonempty, first⟩ := configured
  have read : Finishes (svcGetVar x (bytesOf "args") []) c (fun value c' => value = argv ∧ c' = c) refused := by
    apply Finishes.get_bind
    rw [stored]
    exact finishes_pure argv ⟨rfl, rfl⟩
  apply read.bind
  rintro _ c ⟨rfl, rfl⟩
  rw [if_neg (by simp [nonempty, first])]
  have started : Finishes (onLoop (onDaemon (svcHandleStart x startTime))) c
      (fun done c' => done = true ∧ Shows c'.server.loop.daemon (v.start x startTime)) refused := by
    apply finishes_onLoop
    rw [ends_onDaemon]
    apply (shows.handleStart member startTime).mono
    rintro done daemon ⟨after, accepted⟩
    rw [View.handleStart, if_pos startable] at after
    exact ⟨accepted.trans (decide_eq_true startable), after⟩
  apply started.bind
  rintro _ c' ⟨rfl, after⟩
  apply finishes_modify
  have object : c'.server.loop.daemon.objects x = Service.started (v.objects x) (startTimeFor startTime v.now) := by
    rw [after.objects]
    exact Function.update_self ..
  dsimp only
  rw [object]
  exact ⟨rfl, rfl⟩

/-- The command either is refused for its timestamp or makes the service wait for its start. -/
theorem ctlCmdSvcStart_finishes {v : View ι} {x : ι} (shows : Shows c.server.loop.daemon v) (orderly : Orderly v)
    (named : Named v) (member : x ∈ v.svcList) {rest : StrSeg}
    (names : strsegTokNext c.command tab = some ((v.objects x).name, rest)) (configured : Configured (c.server.vars x))
    (startable : Startable (v.objects x)) {arg : Bytes} (next : ctlPeekArg rest = some arg)
    (integer : denoted arg = some (seconds, [])) (fits : InInt32 seconds) (env : CallEnv ι κ) :
    Finishes (Commands.ctlCmdSvcStart env) c
      (fun _ c' => -100000 ≤ wrap 64 (fixedPoint seconds - v.now) ∧ (c'.server.loop.daemon.objects x).state = .start ∧
        (c'.server.loop.daemon.objects x).startTime = startTimeFor (fixedPoint seconds) v.now)
      (fun text _ => wrap 64 (fixedPoint seconds - v.now) < -100000 ∧ text = bytesOf "invalid timestamp") := by
  have number : strsegCmp arg (bytesOf "-") ≠ 0 := by
    rw [Ne, strsegCmp_eq_zero]
    rintro rfl
    exact nomatch integer
  apply (getArgService_finds shows orderly named member names).bind
  rintro _ _ ⟨rfl, rfl⟩
  apply Finishes.get_bind
  apply Finishes.get_bind
  simp only [next, number, if_false, shows.now]
  have taken : Finishes (takeArgOr ctlGetArgTs "invalid timestamp") { c with command := rest } (fun startTime c' =>
      startTime = fixedPoint seconds ∧ c'.server = c.server)
      (fun text _ => wrap 64 (fixedPoint seconds - v.now) < -100000 ∧ text = bytesOf "invalid timestamp") :=
    finishes_takeArgOr (c := { c with command := rest }) (getArgTs_denoted next integer fits) ⟨rfl, rfl⟩
  apply taken.bind
  rintro _ c' ⟨rfl, same⟩
  split
  · next late => exact finishes_throw _ ⟨late, rfl⟩
  · next soon =>
    rw [← same] at shows configured
    apply (startService_finishes shows member configured startable _).mono
    · exact fun _ _ started => ⟨not_lt.mp soon, started⟩
    · exact fun _ _ => id

/-- A start for `seconds` at the time `now`: only seconds that are more than 100000 in the past are refused, and otherwise the
service waits until then. -/
structure StartsOnTime (x : ι) (seconds now : ℤ) (error : Option Bytes) (server' : Server ι κ) : Prop where
  rejected : error = some (bytesOf "invalid timestamp") ↔ fixedPoint seconds < now - fixedPoint 100000
  started : error ≠ some (bytesOf "invalid timestamp") → error = none ∧ (server'.loop.daemon.objects x).state = .start ∧
    (server'.loop.daemon.objects x).startTime = max (fixedPoint seconds) now

/-- The seconds are at most 100000 units of 2^-32 seconds in the past or less than 2^31 seconds ahead, and not at zero; or they
are more than 100000 and at most 2^31 seconds in the past. -/
def StartInRange (seconds now : ℤ) : Prop :=
  -100000 ≤ fixedPoint seconds - now ∧ fixedPoint seconds - now < 9223372036854775808 ∧ max (fixedPoint seconds) now ≠ 0 ∨
    -9223372036854775808 ≤ fixedPoint seconds - now ∧ fixedPoint seconds - now < -fixedPoint 100000

theorem wrapped_ahead {now : ℤ} (fits : InInt32 seconds) (clock : InInt64 now) :
    (-100000 ≤ wrap 64 (fixedPoint seconds - now) ↔
      fixedPoint seconds - now < -9223372036854775808 ∨
        -100000 ≤ fixedPoint seconds - now ∧ fixedPoint seconds - now < 9223372036854775808) := by
  obtain ⟨low, high⟩ := fits
  obtain ⟨early, late⟩ := clock
  have below : -18446744073709551616 < fixedPoint seconds - now := by
    rw [fixedPoint]
    omega
  have above : fixedPoint seconds - now < 18446744073709551616 - 100000 := by
    rw [fixedPoint]
    omega
  generalize fixedPoint seconds - now = ahead at below above ⊢
  simp only [wrap, Int.bmod]
  split <;> omega

theorem startTimeFor_eq {when now : ℤ} (low : -9223372036854775808 ≤ when - now) (high : when - now < 9223372036854775808) :
    startTimeFor when now = max when now ↔ max when now ≠ 0 := by
  have ahead : tsAfter when now ↔ now < when := by
    rw [tsAfter, wrap64_eq ⟨low, high⟩]
    omega
  simp only [startTimeFor, ahead]
  split <;> split <;> omega

/-- In any state that the daemon can reach, `service.start` with an integer that fits the format, for a service that has arguments
and can be started, ends, and starts the service on time exactly if the seconds are in range. -/
theorem start_time_iff {sigList : List SigListItem} {standard : ℕ} {fds : FdTable κ} {openFds : List ℤ} {guard : ℤ}
    {execOnExit : Bool} {events : List (System.Event n ι κ)} {s : System n ι κ}
    (run : exec? (System.step sigList) (System.init standard fds openFds guard execOnExit) events = some s)
    {x : ι} (member : x ∈ s.server.loop.daemon.svcList) {svc : Service} (object : s.server.loop.daemon.objects x = svc)
    (startable : Startable svc) (configured : Configured (s.server.vars x)) {now : ℤ} (clock : InInt64 now)
    (time : s.server.loop.daemon.now = now) {args rest : StrSeg} (names : strsegTokNext args tab = some (svc.name, rest))
    {arg : Bytes} (next : ctlPeekArg rest = some arg) {seconds : ℤ} (integer : denoted arg = some (seconds, []))
    (fits : InInt32 seconds) (env : CallEnv ι κ) (passed : Option ℤ) :
    ∃ input server', (System.serverCall sigList env passed (bytesOf "service.start") args).run s.awakeServer = some (input, server') ∧
      (StartsOnTime x seconds now input.error server' ↔ StartInRange seconds now) := by
  subst object time
  obtain ⟨v, shows, orderly, named⟩ := known_of_run run
  have member' : x ∈ v.svcList := by
    rw [← shows.svcList]
    exact member
  have objects : s.server.loop.daemon.objects = v.objects := shows.objects
  have now : s.server.loop.daemon.now = v.now := shows.now
  rw [objects] at startable names
  rw [now] at clock ⊢
  have finishes : Finishes (serverHandler sigList passed env .svcStart) ⟨s.awakeServer, args, []⟩ _ _ :=
    ctlCmdSvcStart_finishes (c := ⟨s.awakeServer, args, []⟩) shows orderly named member' names configured startable next integer
      fits env
  have found : findServerCommand (bytesOf "service.start") = some .svcStart := by decide
  obtain ⟨input, c, called, -, ⟨accepted, soon, state, startTime⟩ | ⟨text, refused, late, rfl⟩⟩ := serverCall_finishes found finishes
  · refine ⟨input, c.server, called, ?_⟩
    have lower : -100000 ≤ fixedPoint seconds - v.now ∨ fixedPoint seconds - v.now < -9223372036854775808 := by
      rw [wrapped_ahead fits clock] at soon
      omega
    rw [accepted]
    constructor
    · rintro ⟨rejected, started⟩
      have kept : ¬fixedPoint seconds < v.now - fixedPoint 100000 := fun past => nomatch rejected.mpr past
      have near : -100000 ≤ fixedPoint seconds - v.now ∧ fixedPoint seconds - v.now < 9223372036854775808 := by
        rw [wrapped_ahead fits clock] at soon
        simp only [fixedPoint] at kept soon ⊢
        omega
      have exact := startTime.symm.trans (started nofun).2.2
      rw [startTimeFor_eq (by omega) near.2] at exact
      exact .inl ⟨near.1, near.2, exact⟩
    · rintro (⟨near, above, nonzero⟩ | ⟨low, past⟩)
      · refine ⟨iff_of_false nofun ?_, fun _ => ⟨rfl, state, ?_⟩⟩
        · simp only [fixedPoint] at near ⊢
          omega
        · rw [startTime, startTimeFor_eq (by omega) above]
          exact nonzero
      · simp only [fixedPoint] at low past lower
        omega
  · refine ⟨input, c.server, called, ?_⟩
    rw [refused]
    rw [← not_le, wrapped_ahead fits clock] at late
    constructor
    · rintro ⟨rejected, -⟩
      have past := rejected.mp rfl
      exact .inr ⟨by omega, by omega⟩
    · rintro (⟨near, above, -⟩ | ⟨low, past⟩)
      · exact absurd (.inr ⟨near, above⟩) late
      · exact ⟨iff_of_true rfl (by omega), fun other => absurd rfl other⟩

/-- A service with arguments, ten seconds after the clock started. -/
def configuredRun : List (System.Event 1 (Fin 1) (Fin 1)) :=
  [.new 0 1 false true true, .iterate (.ofSeconds 10) (fun _ => false) [], .runActive (fun _ => none) fun _ => [],
    .read (Fin.last 0) (someLines ["service.args\ta\ttrue"]) []] ++
  List.replicate 3 (.call (Fin.last 0) svcRoom false fun _ => [])

/-- The service can be started at the time twelve. -/
theorem start_time_twelve :
    ∃ s input server', exec? (System.step []) processOne configuredRun = some s ∧ s.server.loop.daemon.now = fixedPoint 10 ∧
      (System.serverCall [] {} none (bytesOf "service.start") (some (bytesOf "a\t12"))).run s.awakeServer = some (input, server') ∧
      StartsOnTime 0 12 (fixedPoint 10) input.error server' := by
  obtain ⟨s, run, holds⟩ := (Option.any_eq_true _ _).mp
    (show (exec? (System.step []) processOne configuredRun).any (fun s =>
      s.server.loop.daemon.svcList = [0] ∧ (s.server.loop.daemon.objects 0).name = bytesOf "a" ∧
        Startable (s.server.loop.daemon.objects 0) ∧ s.server.loop.daemon.now = fixedPoint 10 ∧
        packedGet (s.server.vars 0) (bytesOf "args") = some (some (bytesOf "true"))) = true by decide +kernel)
  obtain ⟨svcList, name, startable, time, argv⟩ := of_decide_eq_true holds
  have member : 0 ∈ s.server.loop.daemon.svcList := svcList ▸ List.mem_singleton_self 0
  have names : strsegTokNext (some (bytesOf "a\t12")) tab = some ((s.server.loop.daemon.objects 0).name, some (bytesOf "12")) := by
    rw [name]
    rfl
  have integer : denoted (bytesOf "12") = some (12, []) := by decide +kernel
  obtain ⟨input, server', called, onTime⟩ := start_time_iff run member rfl startable
    ⟨bytesOf "true", argv, by decide, by decide⟩ (by decide) time names rfl integer ⟨by decide, by decide⟩ {} none
  exact ⟨s, input, server', run, time, called, onTime.mpr (.inl (by decide))⟩

/-- One second in the past is refused. -/
theorem recent_start_refused :
    ∃ s input server', exec? (System.step []) processOne configuredRun = some s ∧ s.server.loop.daemon.now = fixedPoint 10 ∧
      (System.serverCall [] {} none (bytesOf "service.start") (some (bytesOf "a\t9"))).run s.awakeServer = some (input, server') ∧
      input.error = some (bytesOf "invalid timestamp") ∧ ¬StartsOnTime 0 9 (fixedPoint 10) input.error server' := by
  obtain ⟨s, run, holds⟩ := (Option.any_eq_true _ _).mp
    (show (exec? (System.step []) processOne configuredRun).any (fun s => s.server.loop.daemon.now = fixedPoint 10 ∧
      ((System.serverCall [] {} none (bytesOf "service.start") (some (bytesOf "a\t9"))).run s.awakeServer).any
        (fun result => result.1.error = some (bytesOf "invalid timestamp")) = true) = true by decide +kernel)
  obtain ⟨time, called⟩ := of_decide_eq_true holds
  obtain ⟨⟨input, server'⟩, called, refused⟩ := (Option.any_eq_true _ _).mp called
  have error : input.error = some (bytesOf "invalid timestamp") := of_decide_eq_true refused
  refine ⟨s, input, server', run, time, called, error, ?_⟩
  intro onTime
  exact absurd (onTime.rejected.mp error) (by decide)

end DaemonProxy.Soundness
