import DaemonProxy.Lib.Run
import DaemonProxy.Model.Args

/-! # The loops over pending signals, and the signal machine

Controllers and services enumerate the pending signals by feeding the timestamp of each event
back into `sig_get_new_events`. Neither loop has a bound of its own: here one runs on the answers
of `ctl_out_buf_ready` and the other on a step budget, and the value `none` says that the loop was
still running when these were used up.
-/

namespace DaemonProxy.Model

open Lib

/-- What one call of `ctl_deliver_signals` did. -/
structure Delivery where
  delivered : List SigStatus
  lastSignalTs : ℤ
  finished : Bool

/-- `ctl_deliver_signals`, for the answers of `ctl_out_buf_ready` to its successive calls. -/
def ctlDeliverSignals (slots : List SigStatus) : List Bool → ℤ → Option Delivery
  | [], lastSignalTs =>
      match sigGetNewEvents slots lastSignalTs with
      | none => some ⟨[], lastSignalTs, true⟩
      | some _ => none
  | ready :: answers, lastSignalTs =>
      match sigGetNewEvents slots lastSignalTs with
      | none => some ⟨[], lastSignalTs, true⟩
      | some event =>
          if ready then
            (ctlDeliverSignals slots answers event.lastReceivedTs).map fun rest =>
              { rest with delivered := event :: rest.delivered }
          else some ⟨[], lastSignalTs, false⟩

/-- The loop of `svc_check_sigwake`, for at most the given number of calls. -/
def sigwakeLoop (slots : List SigStatus) (autostart : ℤ → Bool) : ℕ → ℤ → Option Bool
  | 0, _ => none
  | budget + 1, ts =>
      match sigGetNewEvents slots ts with
      | none => some false
      | some event =>
          if autostart event.signum then some true
          else sigwakeLoop slots autostart budget event.lastReceivedTs

/-- `svc_check_sigwake` of a service with the given flag and `autostart_signals`. -/
def svcCheckSigwake (slots : List SigStatus) (sigwake : Bool) (autostart : ℤ → Bool)
    (budget : ℕ) : Option Bool :=
  if sigwake then sigwakeLoop slots autostart budget 0 else some false

/-- What can happen to the signal tables. The kernel only delivers positive signal numbers. -/
inductive SigEvent where
  | arrive (sig : ℤ) (positive : 0 < sig) (t : Timespec)
  | merge
  | clear (command : StrSeg)

/-- One step of the signal machine. -/
def sigStep (sigList : List SigListItem) (s : SigState) : SigEvent → SigState
  | .arrive sig _ t => sigHandler s sig t
  | .merge => mergeNewSignals s
  | .clear command => (ctlCmdSignalClear sigList s command).1

end DaemonProxy.Model
