import DaemonProxy.Proofs.ServiceMoves

/-! # Deleting services

`service.delete` asks for the pid of a service, which outlives the process: it is cleared by the next start only.
-/

namespace DaemonProxy.Proofs

open Lib Model

variable {ι κ : Type} [DecidableEq ι] [DecidableEq κ] {c : Call ι κ} {v : View ι} {x : ι} {α : Type}

/-! ## The pid of a service -/

/-- What the state of a service says about its pid. -/
structure PidFits (svc : Service) : Prop where
  nonneg : 0 ≤ svc.pid
  start : svc.state = .start → svc.pid = 0
  up : svc.state = .up → 0 < svc.pid

theorem pidFits_new (name : Bytes) : PidFits (Service.new name) := ⟨le_rfl, nofun, nofun⟩

theorem PidFits.move {svc svc' : Service} (fits : PidFits svc) (move : LifeMove svc svc') : PidFits svc' := by
  cases move with
  | start startable startTime => exact ⟨le_rfl, fun _ => rfl, nofun⟩
  | cancel state => exact ⟨fits.nonneg, nofun, nofun⟩
  | fork state positive startTime => exact ⟨positive.le, nofun, fun _ => positive⟩
  | reap | settle => exact ⟨fits.nonneg, nofun, nofun⟩
  | configure => exact ⟨fits.nonneg, fits.start, fits.up⟩

/-! ## The command -/

theorem finishes_onLoop {m : LoopM ι α} {post : α → Call ι κ → Prop} {refused : Bytes → Call ι κ → Prop}
    (ends : Ends m c.server.loop fun a loop => post a (withLoop c loop)) : Finishes (onLoop m) c post refused := by
  have looped : Finishes (ExceptT.lift (zoom (fun c : Call ι κ => c.server.loop)
      (fun loop c => { c with server := { c.server with loop } }) m) : CmdM ι κ α) c
      (fun a c' => ∃ loop, c' = { c with server := { c.server with loop } } ∧ post a (withLoop c loop)) refused :=
    finishes_lift (ends_zoom.mpr (ends.mono fun a loop holds => ⟨loop, rfl, holds⟩))
  apply Finishes.get_bind
  apply looped.bind
  rintro a _ ⟨loop, rfl, holds⟩
  exact .modify_bind (finishes_pure a holds)

/-- The command names a service that exists. -/
theorem getArgService_finds (shows : Shows c.server.loop.daemon v) (orderly : Orderly v) (named : Named v) (member : x ∈ v.svcList)
    {rest : StrSeg} (names : strsegTokNext c.command tab = some ((v.objects x).name, rest)) {refused : Bytes → Call ι κ → Prop} :
    Finishes (getArgService true none) c (fun y c' => y = x ∧ c' = { c with command := rest }) refused := by
  have looked : Finishes (onLoop (ctlGetArgService true none c.command)) c
      (fun result c' => ∃ loop, Lookup c.server.loop v true none c.command result loop ∧ c' = withLoop c loop) refused :=
    finishes_onLoop ((ctlGetArgService_lookup shows orderly true none c.command).mono fun result loop looked =>
      ⟨loop, looked, rfl⟩)
  apply Finishes.get_bind
  apply Finishes.get_bind
  apply looked.bind
  rintro ⟨rest', result⟩ _ ⟨loop, looked, rfl⟩
  apply Finishes.modify_bind
  cases looked with
  | refused nothing =>
    obtain ⟨nonempty, valid⟩ := named.valid x member
    exact absurd rfl ((nothing _ _ names nonempty valid).1 x member)
  | @found name _ y names' memberY namedY =>
    cases names.symm.trans names'
    obtain rfl := named.unique y memberY x member namedY
    have inList : y ∈ c.server.loop.daemon.svcList := shows.svcList ▸ member
    rw [withLoop_self]
    simp only [not_not.mpr inList, if_false]
    exact finishes_pure y ⟨rfl, rfl⟩
  | created _ _ _ _ allowed => exact nomatch allowed

/-- The service is in no list and no index any more, and nothing else has its name. -/
structure Absent (x : ι) (name : Bytes) (d : Daemon ι) : Prop where
  svcList : x ∉ d.svcList
  unnamed : ∀ y ∈ d.svcList, (d.objects y).name ≠ name
  byName : IndexHolds strsegCmp (fun y => (d.objects y).name) d.byName (· ∈ d.svcList)
  byPid : IndexHolds comparePid (fun y => (d.objects y).pid) d.byPid fun y => y ∈ d.svcList ∧ (d.objects y).pid ≠ 0
  active : ∃ list, d.activeList.Represents list ∧ x ∉ list
  sigwake : ∃ list, d.sigwakeList.Represents list ∧ x ∉ list

theorem absent_delete {d : Daemon ι} (nodup : v.svcList.Nodup) (named : Named v) (member : x ∈ v.svcList)
    (shows : Shows d (v.delete x)) : Absent x (v.objects x).name d where
  svcList inside := by
    rw [shows.svcList] at inside
    exact ((mem_swapRemove nodup member).mp inside).1 rfl
  unnamed y inside same := by
    rw [shows.svcList] at inside
    obtain ⟨other, old⟩ := (mem_swapRemove nodup member).mp inside
    rw [shows.objects, View.delete_objects other] at same
    exact other (named.unique y old x member same)
  byName := shows.indexed.names
  byPid := shows.indexed.pids
  active := ⟨_, shows.active, fun listed => by simp [View.delete, View.setSigwake, View.setSvc, View.setActive, mem_setListed] at listed⟩
  sigwake := ⟨_, shows.sigwake, fun listed => by simp [View.delete, View.setSigwake, View.setSvc, View.setActive, mem_setListed] at listed⟩

theorem ctlCmdSvcDelete_finishes (shows : Shows c.server.loop.daemon v) (orderly : Orderly v) (named : Named v)
    (member : x ∈ v.svcList) {rest : StrSeg} (names : strsegTokNext c.command tab = some ((v.objects x).name, rest))
    (env : CallEnv ι κ) :
    Finishes (Commands.ctlCmdSvcDelete env) c
      (fun _ c' => (v.objects x).pid ≤ 0 ∧ Absent x (v.objects x).name c'.server.loop.daemon)
      (fun _ c' => 0 < (v.objects x).pid ∧ c'.server = c.server) := by
  have nodup : v.svcList.Nodup := shows.svcList ▸ shows.indexed.nodup
  have object : c.server.loop.daemon.objects x = v.objects x := by rw [shows.objects]
  apply (getArgService_finds shows orderly named member names).bind
  rintro _ _ ⟨rfl, rfl⟩
  apply Finishes.get_bind
  dsimp only
  rw [object]
  split
  · next running => exact finishes_throw _ ⟨running, rfl⟩
  · next stopped =>
    apply Finishes.modify_bind
    apply finishes_onLoop
    rw [ends_onDaemon]
    apply (shows.delete member).mono
    intro _ d after
    exact ⟨not_lt.mp stopped, absent_delete nodup named member after⟩

end DaemonProxy.Proofs
