import DaemonProxy.Model.Signal

/-! # Command arguments (`controller.c`)

The `ctl_get_arg` family takes the next tab-separated token off the command and either yields a
value or sets the error message of the command. The remaining command is returned in both cases,
since a failing call may already have consumed its token.
-/

namespace DaemonProxy.Model

open Lib

/-- The separator of command arguments. -/
def tab : UInt8 := 9

def ctlPeekArg (command : StrSeg) : Option Bytes := (strsegTokNext command tab).map Prod.fst

def ctlGetArg (command : StrSeg) : StrSeg × Except String Bytes :=
  match strsegTokNext command tab with
  | none => (command, .error "missing argument")
  | some (token, rest) => (rest, .ok token)

def ctlGetArgInt (command : StrSeg) : StrSeg × Except String ℤ :=
  match strsegTokNext command tab with
  | none => (command, .error "Expected integer")
  | some (token, rest) =>
      match strsegAtoi token with
      | some (value, []) => (rest, .ok value)
      | _ => (rest, .error "Expected integer")

/-- `ctl_get_arg_signal`. A name that `sig_num_by_name` does not know is answered by zero there,
which the test for a negative number lets through. -/
def ctlGetArgSignal (sigList : List SigListItem) (command : StrSeg) : StrSeg × Except String ℤ :=
  match strsegTokNext command tab with
  | none => (command, .error "Expected signal argument")
  | some ([], rest) => (rest, .error "Expected signal argument")
  | some (c :: name, rest) =>
      if (digit? c).isSome then
        match strsegAtoi (c :: name) with
        | some (i, []) =>
            if i < 0 ∨ i >>> (16 : ℕ) ≠ 0 then (rest, .error "Invalid signal number") else (rest, .ok i)
        | _ => (rest, .error "Invalid signal number")
      else
        let signum := sigNumByName sigList (c :: name)
        if 0 > signum then (rest, .error "Invalid signal argument") else (rest, .ok signum)

/-- The arguments `ctl_cmd_signal_clear` passes on: the signal number and the 64-bit count. -/
def signalClearArgs (sigList : List SigListItem) (command : StrSeg) : Except String (ℤ × ℤ) :=
  match ctlGetArgSignal sigList command with
  | (_, .error message) => .error message
  | (rest, .ok sig) =>
      match ctlGetArgInt rest with
      | (_, .error message) => .error message
      | (_, .ok count) => .ok (sig, count)

/-- `ctl_cmd_signal_clear`: a rejected command leaves the tables alone. -/
def ctlCmdSignalClear (sigList : List SigListItem) (s : SigState) (command : StrSeg) :
    SigState × Except String Unit :=
  match signalClearArgs sigList command with
  | .error message => (s, .error message)
  | .ok (sig, count) => (sigMarkSeen s sig count, .ok ())

end DaemonProxy.Model
