import DaemonProxy.Model.Commands

/-! # Socket addresses

The address that `strseg_parse_sockaddr` writes, next to what it leaves of the string, and the handler of `fd.socket` with
its variable `addr`.
-/

namespace DaemonProxy.Model

open Lib

/-- The four bytes of an IPv4 address, in the order in which they are written and sent. -/
structure Quad where
  b1 : UInt8
  b2 : UInt8
  b3 : UInt8
  b4 : UInt8
  deriving DecidableEq, Repr

/-- `INADDR_ANY`. -/
def inaddrAny : Quad := ⟨0, 0, 0, 0⟩

/-- `htons` and `ntohs`, on a machine that stores the low byte first. -/
def htons (v : UInt16) : UInt16 := UInt16.ofNat (v.toNat % 256 * 256 + v.toNat / 256)

/-- The members of `struct sockaddr_un` and `struct sockaddr_in` besides the family. -/
inductive Sockaddr
  | un (sunPath : Bytes)
  | inet (sinAddr : Quad) (sinPort : UInt16)
  deriving DecidableEq, Repr

namespace Sockaddr

/-- The address in front of a port, and what follows it. -/
def inetHostAddr (inetPton : Bytes → Option Quad) (string : Bytes) : Option (Quad × Bytes) :=
  if string.head? = some 42 then some (inaddrAny, string.tail)
  else
    let nameBuf := string.takeWhile fun c => c = 46 ∨ (digit? c).isSome
    if nameBuf = [] ∨ 255 ≤ nameBuf.length then none
    else (inetPton nameBuf).map fun sinAddr => (sinAddr, string.drop nameBuf.length)

/-- The port, which the cast to `short` and the argument of `htons` reduce to 16 bits. -/
def sinPort (portInt : ℤ) : UInt16 := htons (UInt16.ofInt (wrap 16 portInt))

/-- The end of the case `AF_INET`, behind the address. -/
def inetPort (sinAddr : Quad) : Bytes → Option (Sockaddr × Bytes)
  | 58 :: port => (strsegAtoi port).map fun (portInt, rest) => (.inet sinAddr (sinPort portInt), rest)
  | rest => some (.inet sinAddr 0, rest)

/-- `strseg_parse_sockaddr`: `a_out` and what is left of the string. -/
def strsegParseSockaddr (inetPton : Bytes → Option Quad) (domain : SockDomain) (string : Bytes) : Option (Sockaddr × Bytes) :=
  if string = [] then none
  else
    match domain with
    | .unix =>
        if sunPathSize ≤ string.length then none
        else some (.un (string ++ List.replicate (sunPathSize - string.length) 0), [])
    | .inet => (inetHostAddr inetPton string).bind fun (sinAddr, rest) => inetPort sinAddr rest
    | .inet6 => none

end Sockaddr

/-! ## The handler of `fd.socket` -/

/-- What `ctl_cmd_fd_socket` does with its variable `addr`. -/
inductive AddrEvent
  /-- A call of `strseg_parse_sockaddr`, with the address if it returns true. -/
  | parsed (domain : SockDomain) (string : Bytes) (addr : Option Sockaddr)
  /-- `addr` is passed to `create_missing_dirs`; `none` is a variable that was not written. -/
  | dirs (domain : SockDomain) (addr : Option Sockaddr)
  /-- `addr` is passed to `bind`. -/
  | bound (domain : SockDomain) (addr : Option Sockaddr)
  deriving DecidableEq, Repr

/-- A call of `ctl_cmd_fd_socket`. -/
structure SocketCall (ι κ : Type) where
  call : Call ι κ
  /-- `addr`, once it is written. -/
  addr : Option Sockaddr := none
  events : List AddrEvent := []

abbrev SocketM (ι κ : Type) := ExceptT Bytes (StateT (SocketCall ι κ) Option)

namespace SocketM

variable {ι κ : Type} [DecidableEq ι] [DecidableEq κ] {α : Type}

/-- The parts of the handler that have nothing to do with `addr`. -/
def onCall (m : CmdM ι κ α) : SocketM ι κ α := zoom SocketCall.call (fun call s => { s with call }) m.run

/-- `addr` is used, if the condition holds. -/
def noteIf (used : Bool) (event : Option Sockaddr → AddrEvent) : SocketM ι κ Unit :=
  modify fun s => { s with events := if used then s.events ++ [event s.addr] else s.events }

/-- The address argument, and the flags with it. A call that returns false does not write to `addr`. -/
def takeAddress (inetPton : Bytes → Option Quad) (flags : FdFlags) : SocketM ι κ (Bytes × FdFlags) := do
  match ctlGetArg (← get).call.command with
  | (rest, .ok addrspec) => do
      onCall (modify fun c => { c with command := rest })
      let result := Sockaddr.strsegParseSockaddr inetPton flags.domain addrspec
      modify fun s => { s with
        addr := (result.map Prod.fst).or s.addr
        events := s.events ++ [.parsed flags.domain addrspec (result.map Prod.fst)] }
      if result.map Prod.snd = some [] then return (addrspec, { flags with bind := true })
      else onCall (refuse "invalid address")
  | (_, .error _) => if flags.bind then onCall (refuse "expected address argument") else return ([], flags)

/-- The descriptor, once `socket` has returned it, is bound and gets its name. -/
def bindSocket (env : CallEnv ι κ) (name : Bytes) (flags : FdFlags) (addrspec : Bytes) (fd : ℤ) : SocketM ι κ Unit := do
  noteIf (flags.bind && env.setsockopt) (.bound flags.domain)
  match socketFailure env flags with
  | some failed => onCall do
      modifyServer fun s => s.close fd
      refuseWith (bytesOf failed ++ bytesOf ": " ++ env.strerror)
  | none => onCall (nameFd name fd flags addrspec env)

/-- The directories and the socket are made. -/
def makeSocket (env : CallEnv ι κ) (name : Bytes) (flags : FdFlags) (addrspec : Bytes) : SocketM ι κ Unit := do
  noteIf (flags.mkdir && flags.domain = .unix) (.dirs .unix)
  match ← onCall (openOne env) with
  | none => onCall (refuseWith (bytesOf "socket: " ++ env.strerror))
  | some fd => bindSocket env name flags addrspec fd

def ctlCmdFdSocket (inetPton : Bytes → Option Quad) (env : CallEnv ι κ) : SocketM ι κ Unit := do
  let (name, _) ← onCall (getArgFd false true)
  let opts ← onCall (takeArgOr ctlGetArg "missing flags argument")
  let flags ← onCall (takeFlags socketFlag opts { socket := true })
  let (addrspec, flags) ← takeAddress inetPton flags
  if (ctlPeekArg (← get).call.command).isSome then onCall (refuse "unexpected argument after address")
  else makeSocket env name flags addrspec

end SocketM

end DaemonProxy.Model
