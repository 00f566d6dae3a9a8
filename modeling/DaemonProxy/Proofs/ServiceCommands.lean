import DaemonProxy.Proofs.CommandFrames
import DaemonProxy.Proofs.ServiceLoop

/-! # The commands about services

What `ctl_get_arg_service` finds or makes, and what a command that is refused has done by then.
-/

namespace DaemonProxy.Proofs

open Lib Model

variable {ι κ : Type} [DecidableEq ι] [DecidableEq κ] {c : Call ι κ} {v : View ι} {α : Type}

/-! ## Rules -/

/-- The events that a part of the main loop causes are broadcast. -/
def withLoop (c : Call ι κ) (loop : Supervisor ι) : Call ι κ := { c with
  server := { c.server with loop }
  out := c.out ++ (reports (loop.daemon.history.drop c.server.loop.daemon.history.length)).map fun notice => (true, notice) }

theorem settles_onLoop {m : LoopM ι α} {post : α → Call ι κ → Prop} {refused : Bytes → Call ι κ → Prop}
    (ensures : Ensures m c.server.loop fun a loop => post a (withLoop c loop)) : Settles (onLoop m) c post refused := by
  have looped : Settles (ExceptT.lift (zoom (fun c : Call ι κ => c.server.loop)
      (fun loop c => { c with server := { c.server with loop } }) m) : CmdM ι κ α) c
      (fun a c' => ∃ loop, c' = { c with server := { c.server with loop } } ∧ post a (withLoop c loop)) refused :=
    settles_lift (Ensures.zoom (ensures.mono fun a loop holds => ⟨loop, rfl, holds⟩))
  apply Settles.get_bind
  apply looped.bind
  rintro a _ ⟨loop, rfl, holds⟩
  exact .modify_bind (settles_pure a holds)

/-- Nothing is reported where nothing happened. -/
theorem withLoop_self (c : Call ι κ) : withLoop c c.server.loop = c := by
  rw [withLoop, List.drop_length]
  simp [reports]

/-! ## Services by name -/

/-- The service that a command is about, and the command without its name. -/
inductive GotService (c : Call ι κ) (v : View ι) (existing : Bool) (mem : Option ι) : ι → Call ι κ → View ι → Prop
  | found {name : Bytes} {rest : StrSeg} {x : ι} (names : strsegTokNext c.command tab = some (name, rest))
      (member : x ∈ v.svcList) (named : (v.objects x).name = name) :
      GotService c v existing mem x { c with command := rest } v
  | created {name : Bytes} {rest : StrSeg} {x : ι} {daemon : Daemon ι}
      (names : strsegTokNext c.command tab = some (name, rest)) (nonempty : name ≠ []) (valid : svcCheckName name = true)
      (unknown : ∀ y ∈ v.svcList, (v.objects y).name ≠ name) (allowed : existing = false) (memory : mem = some x)
      (absent : x ∉ v.svcList) (shows : Shows daemon (v.create x name)) :
      GotService c v existing mem x
        { c with
          command := rest
          server := { c.server with
            loop := { c.server.loop with
              daemon
              lastAutomatic := Function.update c.server.loop.lastAutomatic x none
              requested := Function.update c.server.loop.requested x false }
            vars := Function.update c.server.vars x []
            uses := Function.update c.server.uses x ⟨false, false, false⟩ } }
        (v.create x name)

/-- No service has the name, and none is made for it. -/
def NoService (v : View ι) (existing : Bool) (mem : Option ι) (command : StrSeg) : Prop :=
  ∀ name rest, strsegTokNext command tab = some (name, rest) → name ≠ [] → svcCheckName name = true →
    (∀ x ∈ v.svcList, (v.objects x).name ≠ name) ∧ (existing = false → ∀ x ∈ mem, x ∈ v.svcList)

theorem getArgService_settles (shows : Shows c.server.loop.daemon v) (orderly : Orderly v) (existing : Bool) (mem : Option ι) :
    Settles (getArgService existing mem) c (fun x c' => ∃ v', GotService c v existing mem x c' v')
      fun _ c' => c'.server = c.server ∧ NoService v existing mem c.command := by
  have looked : Settles (onLoop (ctlGetArgService existing mem c.command)) c
      (fun result c' => ∃ loop, Lookup c.server.loop v existing mem c.command result loop ∧ c' = withLoop c loop)
      fun _ c' => c'.server = c.server ∧ NoService v existing mem c.command :=
    settles_onLoop ((ctlGetArgService_lookup shows orderly existing mem c.command).ensures.mono fun result loop looked =>
      ⟨loop, looked, rfl⟩)
  apply Settles.get_bind
  apply Settles.get_bind
  apply looked.bind
  rintro ⟨rest, result⟩ _ ⟨loop, looked, rfl⟩
  apply Settles.modify_bind
  cases looked with
  | refused nothing =>
    rw [withLoop_self]
    exact settles_throw _ ⟨rfl, nothing⟩
  | @found name rest x names member named =>
    have inList : x ∈ c.server.loop.daemon.svcList := shows.svcList ▸ member
    rw [withLoop_self]
    simp only [not_not.mpr inList, if_false]
    exact settles_pure x ⟨v, .found names member named⟩
  | @created name rest x daemon names nonempty valid unknown allowed memory absent created =>
    have outside : x ∉ c.server.loop.daemon.svcList := shows.svcList ▸ absent
    simp only [outside, not_false_eq_true, if_true]
    refine .modify_bind (settles_pure x ⟨v.create x name, ?_⟩)
    -- The only thing that happened is the creation, which is not reported.
    have quiet : reports (daemon.history.drop c.server.loop.daemon.history.length) = [] := by
      have history : daemon.history = v.history ++ [.created x] := created.history
      rw [history, shows.history, List.drop_left]
      rfl
    simp only [withLoop, quiet, List.map_nil, List.append_nil]
    exact .created names nonempty valid unknown allowed memory absent created

/-- For a command that does not make services. -/
theorem getArgService_existing (shows : Shows c.server.loop.daemon v) (orderly : Orderly v) :
    Settles (getArgService true none) c
      (fun x c' => x ∈ v.svcList ∧ ∃ name rest, strsegTokNext c.command tab = some (name, rest) ∧
        (v.objects x).name = name ∧ c' = { c with command := rest })
      fun _ c' => c'.server = c.server := by
  refine (getArgService_settles shows orderly true none).mono ?_ fun _ _ refused => refused.1
  rintro x c' ⟨v', got⟩
  cases got with
  | found names member named => exact ⟨member, _, _, names, named, rfl⟩
  | created names nonempty valid unknown allowed => exact nomatch allowed

/-! ## `service.signal` -/

/-- The calls of `kill` that a command makes. -/
def Signals (s s' : Server ι κ) : Prop :=
  s' = { s with kills := s'.kills } ∧ (s'.kills = s.kills ∨ ∃ x ∈ s.loop.daemon.svcList, ∃ signum group,
    0 < (s.loop.daemon.objects x).pid ∧ (s.loop.daemon.objects x).waitStatus < 0 ∧
      s'.kills = s.kills ++ [⟨(s.loop.daemon.objects x).pid, signum, group⟩])

theorem signals_self (s : Server ι κ) : Signals s s := ⟨rfl, .inl rfl⟩

theorem svcSendSignal_settles {x : ι} (member : x ∈ c.server.loop.daemon.svcList)
    (runs : 0 < (c.server.loop.daemon.objects x).pid ∧ (c.server.loop.daemon.objects x).waitStatus < 0) (signum : ℤ)
    (group delivered : Bool) {refused : Bytes → Call ι κ → Prop} :
    Settles (svcSendSignal x signum group delivered) c (fun _ c' => Signals c.server c'.server) refused := by
  apply Settles.get_bind
  rw [if_neg (not_le.mpr runs.1)]
  exact .modify_bind (settles_pure _ ⟨rfl, .inr ⟨x, member, signum, group, runs.1, runs.2, rfl⟩⟩)

theorem ctlCmdSvcSignal_settles (shows : Shows c.server.loop.daemon v) (orderly : Orderly v) (sigList : List SigListItem)
    (env : CallEnv ι κ) : Settles (ctlCmdSvcSignal sigList env) c (fun _ c' => Signals c.server c'.server)
      fun _ c' => Signals c.server c'.server := by
  have unchanged : ∀ {c' : Call ι κ}, c'.server = c.server → Signals c.server c'.server := fun same => same ▸ signals_self _
  apply ((getArgService_existing shows orderly).mono (fun _ _ got => got) fun _ _ => unchanged).bind
  rintro x _ ⟨member, name, rest, -, -, rfl⟩
  refine (Fixes.takeArg _).before (fun _ _ same => unchanged same) fun signum c₁ same₁ => ?_
  refine Fixes.takeGroup.before (fun _ _ same => unchanged (same.trans same₁)) fun group c₂ same₂ => ?_
  have same : c₂.server = c.server := same₂.trans same₁
  apply Settles.get_bind
  split
  case isTrue => exact settles_throw _ (unchanged same)
  case isFalse running =>
    rw [not_or, not_le, not_le] at running
    rw [← shows.svcList, ← same] at member
    apply (svcSendSignal_settles member running signum group env.kill).bind
    intro sent c₃ sends
    rw [same] at sends
    split
    · exact settles_pure _ sends
    · exact settles_throw _ sends

end DaemonProxy.Proofs
