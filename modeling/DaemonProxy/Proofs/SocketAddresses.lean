import DaemonProxy.Proofs.Sockaddr

/-! # The address variable of `fd.socket`

Without what it notes of `addr`, the handler is the one of the model of all commands. What it notes is determined by the
arguments: an address argument is parsed before it is used, and without one only `mkdir` uses the variable.
-/

namespace DaemonProxy.Proofs

open Lib Model

variable {ι κ : Type} [DecidableEq ι] [DecidableEq κ] {α β : Type}

/-! ## The notes change nothing else -/

/-- The program does what the other does, besides taking notes. -/
def Erases (noting : SocketM ι κ α) (plain : CmdM ι κ α) : Prop :=
  ∀ s, (noting.run.run s).map (fun result => (result.1, result.2.call)) = plain.run.run s.call

namespace Erases

variable {noting : SocketM ι κ α} {plain : CmdM ι κ α}

omit [DecidableEq ι] [DecidableEq κ]

theorem onCall (m : CmdM ι κ α) : Erases (SocketM.onCall m) m := by
  intro s
  change ((m.run.run s.call).map fun result => (result.1, ({ s with call := result.2 } : SocketCall ι κ))).map _ = m.run.run s.call
  rw [Option.map_map]
  exact Option.map_id'

theorem pure (a : α) : Erases (pure a : SocketM ι κ α) (pure a : CmdM ι κ α) := fun _ => rfl

theorem bind {f : α → SocketM ι κ β} {g : α → CmdM ι κ β} (first : Erases noting plain) (second : ∀ a, Erases (f a) (g a)) :
    Erases (noting >>= f) (plain >>= g) := by
  intro s
  have same := first s
  change ((noting.run.run s).bind _).map _ = (plain.run.run s.call).bind _
  rw [← same]
  cases noting.run.run s with
  | none => rfl
  | some result =>
    obtain ⟨result, s'⟩ := result
    cases result with
    | ok a => exact second a s'
    | error e => rfl

/-- A step that touches nothing but the notes. -/
theorem noted {f : SocketCall ι κ → SocketCall ι κ} (kept : ∀ s, (f s).call = s.call) {rest : Unit → SocketM ι κ α}
    (later : Erases (rest ()) plain) : Erases (modify f >>= rest) plain := by
  intro s
  rw [← kept s]
  exact later (f s)

theorem get_bind {f : SocketCall ι κ → SocketM ι κ α} {g : Call ι κ → CmdM ι κ α} (second : ∀ s, Erases (f s) (g s.call)) :
    Erases (get >>= f) (get >>= g) := fun s => second s s

theorem ite {p : Prop} [Decidable p] {other : SocketM ι κ α} {plainOther : CmdM ι κ α} (first : Erases noting plain)
    (second : Erases other plainOther) : Erases (if p then noting else other) (if p then plain else plainOther) := by
  split
  · exact first
  · exact second

theorem noteIf (used : Bool) (event : Option Sockaddr → AddrEvent) {rest : Unit → SocketM ι κ α} (later : Erases (rest ()) plain) :
    Erases (SocketM.noteIf used event >>= rest) plain := by
  apply noted
  · intro s
    rfl
  · exact later

end Erases

variable (inetPton : Bytes → Option Quad) (env : CallEnv ι κ)

omit [DecidableEq ι] [DecidableEq κ] in
theorem takeAddress_erases (decides : env.inetPton = fun name => (inetPton name).isSome) (flags : FdFlags) :
    Erases (SocketM.takeAddress inetPton flags) (takeAddress env flags) := by
  apply Erases.get_bind
  intro s
  cases ctlGetArg s.call.command with
  | mk rest result =>
    cases result with
    | error message => exact .ite (.onCall _) (.pure _)
    | ok addrspec =>
      apply (Erases.onCall _).bind
      rintro ⟨⟩
      apply Erases.noted
      · intro s
        rfl
      · rw [strsegParseSockaddr_rest, decides]
        exact .ite (.pure _) (.onCall _)

/-- The handler is that of the model of all commands. -/
theorem ctlCmdFdSocket_erases (decides : env.inetPton = fun name => (inetPton name).isSome) :
    Erases (SocketM.ctlCmdFdSocket inetPton env) (ctlCmdFdSocket env) := by
  apply (Erases.onCall _).bind
  intro name
  apply (Erases.onCall _).bind
  intro opts
  apply (Erases.onCall _).bind
  intro flags
  apply (takeAddress_erases inetPton env decides flags).bind
  intro address
  apply Erases.get_bind
  intro s
  apply Erases.ite (.onCall _)
  apply Erases.noteIf
  apply (Erases.onCall _).bind
  rintro (_ | fd)
  · exact .onCall _
  · apply Erases.noteIf
    cases socketFailure env address.2 with
    | none => exact .onCall _
    | some failed => exact .onCall _

/-! ## What is noted -/

/-- The domain and the address of an event that uses the variable. -/
def AddrEvent.use : AddrEvent → Option (SockDomain × Option Sockaddr)
  | .parsed .. => none
  | .dirs domain addr => some (domain, addr)
  | .bound domain addr => some (domain, addr)

/-- The variable holds an address that a call wrote for this domain. -/
def WrittenBefore (events : List AddrEvent) (domain : SockDomain) (addr : Option Sockaddr) : Prop :=
  ∃ string written, addr = some written ∧ .parsed domain string (some written) ∈ events

/-- Every address that is used was written before, by a successful call for the same domain. -/
def UsesParsed (events : List AddrEvent) : Prop :=
  ∀ before event after domain addr, events = before ++ event :: after → AddrEvent.use event = some (domain, addr) →
    WrittenBefore before domain addr

theorem usesParsed_nil : UsesParsed [] := by
  intro before event after domain addr split
  cases before <;> cases split

variable {events : List AddrEvent}

theorem UsesParsed.concat {event : AddrEvent} (uses : UsesParsed events)
    (written : ∀ domain addr, AddrEvent.use event = some (domain, addr) → WrittenBefore events domain addr) :
    UsesParsed (events ++ [event]) := by
  intro before event' after domain addr split used
  rcases after.eq_nil_or_concat' with rfl | ⟨front, last, rfl⟩
  · obtain ⟨rfl, ⟨⟩⟩ := List.append_inj' split rfl
    exact written domain addr used
  · rw [← List.cons_append, ← List.append_assoc] at split
    exact uses before event' front domain addr (List.append_inj' split rfl).1 used

theorem not_usesParsed (used : AddrEvent.dirs .unix none ∈ events) : ¬UsesParsed events := by
  intro uses
  obtain ⟨before, after, split⟩ := List.append_of_mem used
  obtain ⟨_, _, ⟨⟩, -⟩ := uses before _ after .unix none split rfl

/-- The flags of `fd.socket` and the arguments after them, if it accepts its first two arguments. -/
def socketArgs (fds : FdTable κ) (args : StrSeg) : Option (FdFlags × StrSeg) :=
  (fdArg fds args).bind fun (_, rest) => (strsegTokNext rest tab).bind fun (opts, rest) =>
    (parseFlags socketFlag (commaList opts) { socket := true }).toOption.map (·, rest)

/-- `mkdir` is asked for, for a socket of the file system that is not bound, and there is no address. -/
def BareMkdir (fds : FdTable κ) (args : StrSeg) : Prop :=
  ∃ flags, socketArgs fds args = some (flags, none) ∧ flags.mkdir = true ∧ flags.domain = .unix ∧ flags.bind = false

/-- What is noted in the end. -/
def Noted (bare : Prop) (s : SocketCall ι κ) : Prop := (¬bare ∧ UsesParsed s.events) ∨ (bare ∧ .dirs .unix none ∈ s.events)

section Notes

variable {s : SocketCall ι κ} {flags : FdFlags}

theorem settles_onCall {m : CmdM ι κ α} {post : α → SocketCall ι κ → Prop} {refused : Bytes → SocketCall ι κ → Prop}
    (settles : Settles m s.call (fun a c => post a { s with call := c }) fun e c => refused e { s with call := c }) :
    Settles (SocketM.onCall m) s post refused := by
  refine ⟨show Ensures (zoom SocketCall.call (fun call s => { s with call }) m.run) s _ from Ensures.zoom ?_⟩
  refine settles.ensures.mono fun result c holds => ?_
  cases result with
  | ok a => exact holds
  | error e => exact holds

/-- Whatever the call does, the notes stay. -/
theorem onCall_keeps (m : CmdM ι κ α) :
    Settles (SocketM.onCall m) s (fun _ s' => s'.addr = s.addr ∧ s'.events = s.events) fun _ s' => s'.events = s.events := by
  refine settles_onCall ⟨fun result c _ => ?_⟩
  cases result with
  | ok a => exact ⟨rfl, rfl⟩
  | error e => rfl

omit [DecidableEq ι] [DecidableEq κ] in
theorem Settles.noteIf {used : Bool} {event : Option Sockaddr → AddrEvent} {rest : Unit → SocketM ι κ α}
    {post : α → SocketCall ι κ → Prop} {refused : Bytes → SocketCall ι κ → Prop}
    (settles : Settles (rest ()) { s with events := if used then s.events ++ [event s.addr] else s.events } post refused) :
    Settles (SocketM.noteIf used event >>= rest) s post refused := Settles.modify_bind settles

theorem WrittenBefore.concat {domain : SockDomain} {addr : Option Sockaddr}
    (written : WrittenBefore events domain addr) (event : AddrEvent) : WrittenBefore (events ++ [event]) domain addr := by
  obtain ⟨string, a, same, member⟩ := written
  exact ⟨string, a, same, List.mem_append_left _ member⟩

/-- An address is used if the condition holds, and then it was written. -/
theorem UsesParsed.noted {addr : Option Sockaddr} {used : Bool} {domain : SockDomain} {event : AddrEvent}
    (uses : UsesParsed events) (use : AddrEvent.use event = some (domain, addr)) (written : used = true → WrittenBefore events domain addr) :
    UsesParsed (if used then events ++ [event] else events) := by
  cases used with
  | false => exact uses
  | true =>
    refine uses.concat fun domain' addr' same => ?_
    cases use.symm.trans same
    exact written rfl

variable {P : List AddrEvent → Prop}

/-- The end of `bindSocket`. -/
theorem onCall_after (m : CmdM ι κ α) (holds : P s.events) :
    Settles (SocketM.onCall m) s (fun _ s' => P s'.events) fun _ s' => P s'.events :=
  (onCall_keeps m).mono (fun _ _ same => same.2.symm ▸ holds) fun _ _ same => same.symm ▸ holds

theorem bindSocket_notes (name addrspec : Bytes) (fd : ℤ)
    (holds : P (if flags.bind && env.setsockopt then s.events ++ [.bound flags.domain s.addr] else s.events)) :
    Settles (SocketM.bindSocket env name flags addrspec fd) s (fun _ s' => P s'.events) fun _ s' => P s'.events := by
  apply Settles.noteIf
  cases socketFailure env flags with
  | none | some => exact onCall_after _ holds

/-- What is noted once the arguments are read. -/
def notesOf (flags : FdFlags) (s : SocketCall ι κ) : List AddrEvent :=
  if flags.mkdir && flags.domain = .unix then s.events ++ [.dirs .unix s.addr] else s.events

theorem makeSocket_notes (name addrspec : Bytes) (holds : P (notesOf flags s))
    (bound : P (if flags.bind && env.setsockopt then notesOf flags s ++ [.bound flags.domain s.addr] else notesOf flags s)) :
    Settles (SocketM.makeSocket env name flags addrspec) s (fun _ s' => P s'.events) fun _ s' => P s'.events := by
  apply Settles.noteIf
  apply ((onCall_keeps _).mono (fun _ _ => id) fun _ _ same => same.symm ▸ holds).bind
  rintro (_ | fd) s' ⟨addr, events⟩
  · exact onCall_after _ (events ▸ holds)
  · apply bindSocket_notes
    rw [addr, events]
    exact bound

/-- The address argument: it was parsed for the domain, or there is none and the socket is not to be bound. -/
theorem takeAddress_notes (fresh : s.addr = none ∧ s.events = []) :
    Settles (SocketM.takeAddress inetPton flags) s
      (fun result s' => result.2.domain = flags.domain ∧ result.2.mkdir = flags.mkdir ∧
        ((s.call.command ≠ none ∧ UsesParsed s'.events ∧ WrittenBefore s'.events flags.domain s'.addr) ∨
          (s.call.command = none ∧ s' = s ∧ result.2 = flags ∧ flags.bind = false)))
      fun _ s' => UsesParsed s'.events ∧ ¬(s.call.command = none ∧ flags.bind = false) := by
  apply Settles.get_bind
  rw [ctlGetArg]
  cases command : s.call.command with
  | none =>
    dsimp only [strsegTokNext, Option.map_none]
    split
    · next bind =>
      refine settles_onCall (settles_throw _ ⟨?_, ?_⟩)
      · rw [fresh.2]
        exact usesParsed_nil
      · rw [bind]
        exact fun none => absurd none.2 (by decide)
    · next unbound => exact settles_pure _ ⟨rfl, rfl, .inr ⟨rfl, rfl, rfl, by simpa using unbound⟩⟩
  | some text =>
    have given : ¬(some text = none ∧ flags.bind = false) := by rintro ⟨⟨⟩, -⟩
    dsimp only [strsegTokNext, Option.map_some]
    generalize (splitAtSep tab text).1 = addrspec
    refine (settles_onCall (settles_modify ⟨rfl, rfl⟩) : Settles _ s (fun _ s' => s'.addr = s.addr ∧ s'.events = s.events) _).bind ?_
    rintro ⟨⟩ s₁ ⟨addr, events⟩
    rw [fresh.1] at addr
    rw [fresh.2] at events
    apply Settles.modify_bind
    rw [addr, events]
    cases parsed : Sockaddr.strsegParseSockaddr inetPton flags.domain addrspec with
    | none => exact settles_onCall (settles_throw _ ⟨usesParsed_nil.concat (by rintro _ _ ⟨⟩), given⟩)
    | some result =>
      have uses : UsesParsed [.parsed flags.domain addrspec (some result.1)] := usesParsed_nil.concat (by rintro _ _ ⟨⟩)
      dsimp only [Option.map_some]
      split
      · refine settles_pure _ ⟨rfl, rfl, .inl ⟨Option.some_ne_none _, uses, addrspec, result.1, rfl, List.mem_singleton_self _⟩⟩
      · exact settles_onCall (settles_throw _ ⟨uses, given⟩)

omit [DecidableEq ι] [DecidableEq κ] in
theorem takeArgOr_exact {c : Call ι κ} (message : String) :
    Settles (takeArgOr ctlGetArg message) c
      (fun token c' => ∃ rest, strsegTokNext c.command tab = some (token, rest) ∧ c' = { c with command := rest })
      fun _ _ => strsegTokNext c.command tab = none := by
  rw [takeArgOr, takeArgWith]
  apply Settles.get_bind
  rw [ctlGetArg]
  cases strsegTokNext c.command tab with
  | none => exact .modify_bind (settles_throw _ rfl)
  | some taken => exact .modify_bind (settles_pure _ ⟨taken.2, rfl, rfl⟩)

/-- What is left to do once the address argument is read. -/
theorem makeSocket_noted {bare : Prop} (given : Bool) (name addrspec : Bytes)
    (written : given = true → ¬bare ∧ UsesParsed s.events ∧ WrittenBefore s.events flags.domain s.addr)
    (missing : given = false → flags.bind = false ∧ s.addr = none ∧ s.events = [] ∧
      (bare ↔ flags.mkdir = true ∧ flags.domain = .unix)) :
    Settles (SocketM.makeSocket env name flags addrspec) s (fun _ s' => Noted bare s') fun _ s' => Noted bare s' := by
  cases given with
  | true =>
    obtain ⟨whole, uses, before⟩ := written rfl
    have dirs : UsesParsed (notesOf flags s) := by
      refine uses.noted rfl fun used => ?_
      simp only [Bool.and_eq_true, decide_eq_true_eq] at used
      rw [← used.2]
      exact before
    have still : WrittenBefore (notesOf flags s) flags.domain s.addr := by
      rw [notesOf]
      split
      · exact before.concat _
      · exact before
    exact makeSocket_notes (P := fun events => (¬bare ∧ UsesParsed events) ∨ (bare ∧ .dirs .unix none ∈ events)) env name addrspec
      (.inl ⟨whole, dirs⟩) (.inl ⟨whole, dirs.noted rfl fun _ => still⟩)
  | false =>
    obtain ⟨unbound, addr, events, bareIff⟩ := missing rfl
    have noted : (¬bare ∧ UsesParsed (notesOf flags s)) ∨ (bare ∧ .dirs .unix none ∈ notesOf flags s) := by
      rw [notesOf, addr, events]
      by_cases mkdir : flags.mkdir = true ∧ flags.domain = .unix
      · rw [if_pos (by simpa using mkdir)]
        exact .inr ⟨bareIff.mpr mkdir, List.mem_singleton_self _⟩
      · rw [if_neg (by simpa using mkdir)]
        exact .inl ⟨fun bare => mkdir (bareIff.mp bare), usesParsed_nil⟩
    apply makeSocket_notes (P := fun events => (¬bare ∧ UsesParsed events) ∨ (bare ∧ .dirs .unix none ∈ events)) env name addrspec noted
    rw [unbound]
    exact noted

/-- The notes of a whole call are determined by the arguments. -/
theorem ctlCmdFdSocket_notes (sound : FdSound s.call.server.fds) (fresh : s.addr = none ∧ s.events = []) :
    Settles (SocketM.ctlCmdFdSocket inetPton env) s (fun _ s' => Noted (BareMkdir s.call.server.fds s.call.command) s')
      fun _ s' => Noted (BareMkdir s.call.server.fds s.call.command) s' := by
  have early {s' : SocketCall ι κ} (none : socketArgs s.call.server.fds s.call.command = none) (events : s'.events = s.events) :
      Noted (BareMkdir s.call.server.fds s.call.command) s' := by
    refine .inl ⟨?_, by rw [events, fresh.2]; exact usesParsed_nil⟩
    rintro ⟨flags, args, -⟩
    rw [none] at args
    cases args
  have named : Settles (SocketM.onCall (getArgFd false true)) s
      (fun result s₁ => ∃ rest, fdArg s.call.server.fds s.call.command = some (result.1, rest) ∧
        s₁ = { s with call := { s.call with command := rest } })
      fun _ s' => Noted (BareMkdir s.call.server.fds s.call.command) s' := by
    refine settles_onCall ((getArgFd_exact sound).mono ?_ ?_)
    · rintro result _ ⟨rest, found, rfl⟩
      exact ⟨rest, found, rfl⟩
    · rintro _ _ ⟨-, none⟩
      exact early (by rw [socketArgs, none, Option.bind_none]) rfl
  apply named.bind
  rintro ⟨name, old⟩ _ ⟨rest, found, rfl⟩
  have args : socketArgs s.call.server.fds s.call.command = (strsegTokNext rest tab).bind fun taken =>
      (parseFlags socketFlag (commaList taken.1) { socket := true }).toOption.map (·, taken.2) := by
    rw [socketArgs, found]
    rfl
  have options : Settles (SocketM.onCall (takeArgOr ctlGetArg "missing flags argument"))
      { s with call := { s.call with command := rest } }
      (fun opts s₂ => ∃ rest', strsegTokNext rest tab = some (opts, rest') ∧ s₂ = { s with call := { s.call with command := rest' } })
      fun _ s' => Noted (BareMkdir s.call.server.fds s.call.command) s' := by
    refine settles_onCall ((takeArgOr_exact _).mono ?_ ?_)
    · rintro opts _ ⟨rest', taken, rfl⟩
      exact ⟨rest', taken, rfl⟩
    · intro _ _ none
      exact early (args.trans (congrArg (Option.bind · _) none)) rfl
  apply options.bind
  rintro opts _ ⟨rest', taken, rfl⟩
  rw [taken, Option.bind_some] at args
  have flagged : Settles (SocketM.onCall (takeFlags socketFlag opts { socket := true }))
      { s with call := { s.call with command := rest' } }
      (fun flags s₃ => socketArgs s.call.server.fds s.call.command = some (flags, rest') ∧
        s₃ = { s with call := { s.call with command := rest' } })
      fun _ s' => Noted (BareMkdir s.call.server.fds s.call.command) s' := by
    refine settles_onCall ((takeFlags_settles ..).mono ?_ ?_)
    · rintro flags _ ⟨rfl, parsed⟩
      exact ⟨by rw [args, parsed]; rfl, rfl⟩
    · rintro text _ ⟨rfl, parsed⟩
      exact early (by rw [args, parsed]; rfl) rfl
  apply flagged.bind
  clear args
  rintro flags _ ⟨args, rfl⟩
  have bareIff : BareMkdir s.call.server.fds s.call.command ↔
      rest' = none ∧ flags.mkdir = true ∧ flags.domain = .unix ∧ flags.bind = false := by
    constructor
    · rintro ⟨_, args', rest⟩
      cases args.symm.trans args'
      exact ⟨rfl, rest⟩
    · rintro ⟨rfl, rest⟩
      exact ⟨flags, args, rest⟩
  apply ((takeAddress_notes (s := { s with call := { s.call with command := rest' } }) inetPton fresh).mono (fun _ _ => id) ?_).bind
  · rintro ⟨addrspec, flags'⟩ s₄ ⟨domain, mkdir, given | missing⟩
    · apply Settles.get_bind
      have whole : ¬BareMkdir s.call.server.fds s.call.command := fun bare => given.1 (bareIff.mp bare).1
      split
      · exact settles_onCall (settles_throw _ (.inl ⟨whole, given.2.1⟩))
      · refine makeSocket_noted env true name addrspec (fun _ => ⟨whole, given.2.1, ?_⟩) (by rintro ⟨⟩)
        rw [domain]
        exact given.2.2
    · obtain ⟨none, rfl, rfl, unbound⟩ := missing
      apply Settles.get_bind
      rw [if_neg (by rw [ctlPeekArg, none]; decide)]
      refine makeSocket_noted env false name addrspec (by rintro ⟨⟩) fun _ => ⟨unbound, fresh.1, fresh.2, ?_⟩
      rw [bareIff]
      exact ⟨fun bare => ⟨bare.2.1, bare.2.2.1⟩, fun both => ⟨none, both.1, both.2, unbound⟩⟩
  · rintro _ s' ⟨uses, given⟩
    exact .inl ⟨fun bare => given ⟨(bareIff.mp bare).1, (bareIff.mp bare).2.2.2⟩, uses⟩

end Notes

end DaemonProxy.Proofs
