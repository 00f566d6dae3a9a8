import DaemonProxy.Proofs.SystemLoop

/-! # Commands about services that are refused

A command finds or makes its service before it looks at the other arguments, and `service.auto_up` sets the interval before
it looks at the triggers. `HalfApplied` says when a command that is then refused has already changed something.
-/

set_option linter.unusedSectionVars false

namespace DaemonProxy.Proofs

open Lib Model

variable {ι κ : Type}

/-- The services, what is known of them, their variables and the indexes and lists they are in are the same. -/
structure SameServices (s s' : Server ι κ) : Prop where
  svcList : s'.loop.daemon.svcList = s.loop.daemon.svcList
  objects : ∀ x ∈ s.loop.daemon.svcList, s'.loop.daemon.objects x = s.loop.daemon.objects x
  vars : ∀ x ∈ s.loop.daemon.svcList, s'.vars x = s.vars x
  uses : ∀ x ∈ s.loop.daemon.svcList, s'.uses x = s.uses x
  byName : s'.loop.daemon.byName = s.loop.daemon.byName
  byPid : s'.loop.daemon.byPid = s.loop.daemon.byPid
  active : s'.loop.daemon.activeList = s.loop.daemon.activeList
  sigwake : s'.loop.daemon.sigwakeList = s.loop.daemon.sigwakeList

theorem SameServices.refl (s : Server ι κ) : SameServices s s :=
  ⟨rfl, fun _ _ => rfl, fun _ _ => rfl, fun _ _ => rfl, rfl, rfl, rfl, rfl⟩

variable [DecidableEq ι] [DecidableEq κ] {c : Call ι κ} {v : View ι} {α : Type} {x : ι}

/-- The service that a command is about, whether it is made for the command, and the other arguments. -/
def target (s : Server ι κ) (mem : Option ι) (args : StrSeg) : Option (ι × Bool × StrSeg) :=
  match strsegTokNext args tab with
  | none => none
  | some (name, rest) =>
      if name = [] ∨ svcCheckName name = false then none
      else
        match s.loop.daemon.svcList.find? fun x => (s.loop.daemon.objects x).name = name with
        | some x => some (x, false, rest)
        | none => (mem.filter (· ∉ s.loop.daemon.svcList)).map fun x => (x, true, rest)

/-- `service.tags` and `service.args` find no room for the value of a new service. -/
def varHalfApplied (name : String) (made : Bool) (rest : StrSeg) (stored : Bool) : Prop :=
  made ∧ hasRoom [] (bytesOf name) (listValue rest) stored = false

/-- `service.fds` finds an invalid name, or no room, for a new service. -/
def fdsHalfApplied (made : Bool) (rest : StrSeg) (stored : Bool) : Prop :=
  made ∧ ((∃ name ∈ Bytewise.strsegTokens tab ((rest.getD []).length + 2) rest, svcCheckName name = false) ∨
    strsegCmp (rest.getD []) Bytewise.nullFds ≠ 0 ∧ hasRoom [] (bytesOf "fds") (some (rest.getD [])) stored = false)

/-- `service.auto_up` is refused after it made the service or changed the interval. -/
def autoUpHalfApplied (sigList : List SigListItem) (s : Server ι κ) (x : ι) (made : Bool) (rest : StrSeg) (stored : Bool) : Prop :=
  match autoUpArgs rest with
  | none => made
  | some (interval, triggers) =>
      (made ∨ ∃ new ∈ interval, new ≠ (s.loop.daemon.objects x).restartInterval) ∧
        (triggersOf sigList triggers = none ∨
          hasRoom (if made then [] else s.vars x) (bytesOf "triggers") (listValue (some (triggers.getD []))) stored = false)

/-- The command is refused, but not before it changed something. -/
def HalfApplied (sigList : List SigListItem) (s : Server ι κ) (env : CallEnv ι κ) (command : ServerCommand) (args : StrSeg) : Prop :=
  ∃ x made rest, target s env.svcMem args = some (x, made, rest) ∧
    match command with
    | .svcTags => varHalfApplied "tags" made rest env.stored
    | .svcArgs => varHalfApplied "args" made rest env.stored
    | .svcFds => fdsHalfApplied made rest env.stored
    | .svcAutoUp => autoUpHalfApplied sigList s x made rest env.stored
    | _ => False

/-! ## The service -/

section Target

variable {s : Server ι κ} {args rest : StrSeg} {name : Bytes} {mem : Option ι}

theorem target_found (shows : Shows s.loop.daemon v) (named : Named v) (names : strsegTokNext args tab = some (name, rest))
    (member : x ∈ v.svcList) (has : (v.objects x).name = name) : target s mem args = some (x, false, rest) := by
  obtain ⟨nonempty, valid⟩ := named.valid x member
  rw [has] at nonempty valid
  have found : v.svcList.find? (fun x => (v.objects x).name = name) = some x := by
    cases first : v.svcList.find? (fun x => (v.objects x).name = name) with
    | none => exact absurd has (by simpa using List.find?_eq_none.mp first x member)
    | some y =>
      have same : (v.objects y).name = name := by simpa using List.find?_some first
      rw [named.unique y (List.mem_of_find?_eq_some first) x member (same.trans has.symm)]
  simp [target, names, nonempty, valid, shows.svcList, shows.objects, found]

theorem target_created (shows : Shows s.loop.daemon v) (names : strsegTokNext args tab = some (name, rest)) (nonempty : name ≠ [])
    (valid : svcCheckName name = true) (unknown : ∀ y ∈ v.svcList, (v.objects y).name ≠ name) (memory : mem = some x)
    (absent : x ∉ v.svcList) : target s mem args = some (x, true, rest) := by
  have missing : v.svcList.find? (fun x => (v.objects x).name = name) = none := by simpa using unknown
  simp [target, names, nonempty, valid, shows.svcList, shows.objects, missing, memory, absent]

theorem target_none (shows : Shows s.loop.daemon v) (nothing : NoService v false mem args) : target s mem args = none := by
  rw [target]
  split
  · rfl
  next name rest names =>
    split
    · rfl
    next given =>
      rw [not_or, Bool.not_eq_false] at given
      obtain ⟨unknown, none⟩ := nothing name rest names given.1 given.2
      have missing : v.svcList.find? (fun x => (v.objects x).name = name) = Option.none := by simpa using unknown
      cases mem with
      | none => simp [shows.svcList, shows.objects, missing]
      | some y => simp [shows.svcList, shows.objects, missing, none rfl y rfl]

end Target

/-! ## Commands that make services -/

variable {s : Server ι κ}

/-- The service is made although the command is refused. -/
theorem not_same_of_created {s' : Server ι κ} (absent : x ∉ s.loop.daemon.svcList) (present : x ∈ s'.loop.daemon.svcList) :
    ¬SameServices s s' := fun same => absent (same.svcList ▸ present)

/-- A command that may make its service, with what it does to one that exists and to a new one. -/
theorem exact_made {f : ι → CmdM ι κ Unit} (half : ι → Bool → StrSeg → Prop) {mem : Option ι}
    (shows : Shows c.server.loop.daemon v) (orderly : Orderly v) (named : Named v)
    (existing : ∀ x rest, x ∈ c.server.loop.daemon.svcList → Settles (f x) { c with command := rest }
      (fun _ _ => ¬half x false rest) fun _ c' => SameServices c.server c'.server ↔ ¬half x false rest)
    (made : ∀ x c₁, c₁.server.vars x = [] → Settles (f x) c₁ (fun _ _ => ¬half x true c₁.command)
      fun _ c' => c'.server.loop.daemon.svcList = c₁.server.loop.daemon.svcList ∧ half x true c₁.command) :
    Settles (getArgService false mem >>= f) c
      (fun _ _ => ¬∃ x made rest, target c.server mem c.command = some (x, made, rest) ∧ half x made rest)
      fun _ c' => SameServices c.server c'.server ↔
        ¬∃ x made rest, target c.server mem c.command = some (x, made, rest) ∧ half x made rest := by
  -- the condition, where the service is known
  have condition : ∀ {x : ι} {made : Bool} {rest : StrSeg}, target c.server mem c.command = some (x, made, rest) →
      ((∃ x made rest, target c.server mem c.command = some (x, made, rest) ∧ half x made rest) ↔ half x made rest) := by
    intro x made rest found
    constructor
    · rintro ⟨_, _, _, found', halfway⟩
      cases found.symm.trans found'
      exact halfway
    · exact fun halfway => ⟨x, made, rest, found, halfway⟩
  apply ((getArgService_settles shows orderly false mem).mono (fun _ _ => id) ?_).bind
  swap
  · rintro _ c' ⟨same, nothing⟩
    rw [target_none shows nothing, same]
    exact ⟨nofun, fun _ => .refl _⟩
  rintro x c₁ ⟨v', got⟩
  cases got with
  | @found name rest _ names member has =>
    have found : target c.server mem c.command = some (x, false, rest) := target_found shows named names member has
    rw [condition found]
    exact existing x rest (shows.svcList ▸ member)
  | @created name rest _ daemon names nonempty valid unknown allowed memory absent created =>
    have found : target c.server mem c.command = some (x, true, rest) :=
      target_created shows names nonempty valid unknown memory absent
    rw [condition found]
    refine (made x _ (Function.update_self ..)).mono (fun _ _ => id) ?_
    rintro _ c' ⟨svcList, halfway⟩
    have present : x ∈ c'.server.loop.daemon.svcList := by
      rw [svcList, created.svcList]
      exact View.mem_create.mpr (.inr rfl)
    rw [← shows.svcList] at absent
    exact ⟨fun same => absurd same (not_same_of_created absent present), fun whole => absurd halfway whole⟩

variable {refused : Bytes → Call ι κ → Prop}

/-- The event at the end of a command: nothing is refused any more. -/
theorem announce_settles (x : ι) (name unset : Bytes) (notice : Service → Bytes → Notice) {post : Prop} (holds : post) :
    Settles (do tellAll (notice (← svcOf x) (← svcGetVar x name unset))) c (fun _ _ => post) refused := by
  apply Settles.get_bind
  have read : Settles (svcGetVar x name unset) c (fun _ _ => post) refused := by
    apply Settles.get_bind
    split
    · exact settles_pure _ holds
    · exact settles_lift ensures_failure
  apply read.bind
  exact fun _ _ _ => settles_modify holds

/-! ### Variables -/

/-- A variable of a service is set. -/
def withVar (s : Server ι κ) (x : ι) (name : Bytes) (value : Option Bytes) : Server ι κ :=
  { s with vars := Function.update s.vars x (packedSet (s.vars x) name value) }

theorem svcSetVar_sets (x : ι) (name : Bytes) (value : Option Bytes) (stored : Bool) :
    Settles (svcSetVar x name value stored) c
      (fun done c' => done = hasRoom (c.server.vars x) name value stored ∧
        c' = if done then { c with server := withVar c.server x name value } else c) refused := by
  apply Settles.get_bind
  dsimp only
  split
  case isTrue room => exact .modify_bind (settles_pure _ ⟨room.symm, rfl⟩)
  case isFalse none => exact settles_pure _ ⟨by simpa using none, rfl⟩

theorem svcSetVar_settles (x : ι) (name : Bytes) (value : Option Bytes) (stored : Bool) :
    Settles (svcSetVar x name value stored) c
      (fun done c' => done = hasRoom (c.server.vars x) name value stored ∧
        c'.server.loop = c.server.loop ∧ (done = false → c' = c)) refused := by
  refine (svcSetVar_sets x name value stored).mono ?_ fun _ _ => id
  rintro done _ ⟨room, rfl⟩
  cases done with
  | true => exact ⟨room, rfl, nofun⟩
  | false => exact ⟨room, rfl, fun _ => rfl⟩

theorem ctlCmdSvcVar_exact (shows : Shows c.server.loop.daemon v) (orderly : Orderly v) (named : Named v) (var : SvcVar)
    (name message : String) (env : CallEnv ι κ) :
    Settles (ctlCmdSvcVar var name message env) c
      (fun _ _ => ¬∃ x made rest, target c.server env.svcMem c.command = some (x, made, rest) ∧ varHalfApplied name made rest env.stored)
      fun _ c' => SameServices c.server c'.server ↔
        ¬∃ x made rest, target c.server env.svcMem c.command = some (x, made, rest) ∧ varHalfApplied name made rest env.stored := by
  refine exact_made (fun _ made rest => varHalfApplied name made rest env.stored) shows orderly named ?_ ?_
  · intro x rest _
    have whole : ¬varHalfApplied name false rest env.stored := fun halfway => nomatch halfway.1
    apply Settles.get_bind
    apply (svcSetVar_settles ..).bind
    rintro done c₁ ⟨-, -, same⟩
    cases done with
    | true => exact announce_settles x _ _ (fun svc text => .svcVar var svc.name text) whole
    | false =>
      rw [same rfl]
      exact settles_throw _ ⟨fun _ => whole, fun _ => .refl _⟩
  · intro x c₁ fresh
    apply Settles.get_bind
    apply (svcSetVar_settles ..).bind
    rintro done c₂ ⟨room, loop, -⟩
    rw [fresh] at room
    cases done with
    | true =>
      refine announce_settles x _ _ (fun svc text => .svcVar var svc.name text) fun halfway => ?_
      exact nomatch room.trans halfway.2
    | false => exact settles_throw _ ⟨by rw [loop], rfl, room.symm⟩

/-! ### Handles -/

theorem checkFdNames_settles (names : List Bytes) (c : Call ι κ) :
    Settles (checkFdNames names) c (fun _ c' => c'.server = c.server ∧ ∀ name ∈ names, svcCheckName name = true)
      fun _ c' => c'.server = c.server ∧ ∃ name ∈ names, svcCheckName name = false := by
  induction names generalizing c with
  | nil => exact settles_pure _ ⟨rfl, nofun⟩
  | cons name rest ih =>
    rw [checkFdNames]
    split
    case isTrue invalid => exact settles_throw _ ⟨rfl, name, List.mem_cons_self, invalid⟩
    case isFalse valid =>
      rw [Bool.not_eq_false] at valid
      have later : ∀ c₁ : Call ι κ, c₁.server = c.server → Settles (checkFdNames rest) c₁
          (fun _ c' => c'.server = c.server ∧ ∀ name' ∈ name :: rest, svcCheckName name' = true)
          fun _ c' => c'.server = c.server ∧ ∃ name' ∈ name :: rest, svcCheckName name' = false := by
        intro c₁ same
        refine (ih c₁).mono ?_ ?_
        · exact fun _ _ ⟨same', all⟩ => ⟨same'.trans same, List.forall_mem_cons.mpr ⟨valid, all⟩⟩
        · exact fun _ _ ⟨same', name', member, invalid⟩ => ⟨same'.trans same, name', List.mem_cons_of_mem _ member, invalid⟩
      apply (onFds_peeks (peeks_fdByName name)).bind
      rintro found _ rfl
      split
      · exact .modify_bind (later _ rfl)
      · exact later _ rfl

/-- Whether `svc_set_fds` finds room. -/
def fdsRoom (packed newFds : Bytes) (stored : Bool) : Bool :=
  decide (strsegCmp newFds Bytewise.nullFds = 0) || hasRoom packed (bytesOf "fds") (some newFds) stored

theorem svcSetFds_settles (x : ι) (newFds : Bytes) (stored : Bool) :
    Settles (svcSetFds x newFds stored) c
      (fun done c' => done = fdsRoom (c.server.vars x) newFds stored ∧
        c'.server.loop = c.server.loop ∧ (done = false → c' = c)) refused := by
  have stores : Settles (storeFds x newFds stored) c
      (fun done c' => done = fdsRoom (c.server.vars x) newFds stored ∧
        c'.server.loop = c.server.loop ∧ (done = false → c' = c)) refused := by
    rw [storeFds]
    split
    case isTrue null =>
      apply (svcSetVar_settles ..).bind
      rintro done c₁ ⟨-, loop, -⟩
      exact settles_pure _ ⟨by simp [fdsRoom, null], loop, nofun⟩
    case isFalse other =>
      refine (svcSetVar_settles ..).mono ?_ fun _ _ => id
      rintro done c₁ ⟨room, rest⟩
      exact ⟨by simp [fdsRoom, other, room], rest⟩
  apply stores.bind
  rintro done c₁ ⟨room, loop, same⟩
  cases done with
  | true => exact .modify_bind (settles_pure _ ⟨room, loop, nofun⟩)
  | false => exact settles_pure _ ⟨room, loop, same⟩

theorem ctlCmdSvcFds_exact (shows : Shows c.server.loop.daemon v) (orderly : Orderly v) (named : Named v) (env : CallEnv ι κ) :
    Settles (ctlCmdSvcFds env) c
      (fun _ _ => ¬∃ x made rest, target c.server env.svcMem c.command = some (x, made, rest) ∧ fdsHalfApplied made rest env.stored)
      fun _ c' => SameServices c.server c'.server ↔
        ¬∃ x made rest, target c.server env.svcMem c.command = some (x, made, rest) ∧ fdsHalfApplied made rest env.stored := by
  refine exact_made (fun _ made rest => fdsHalfApplied made rest env.stored) shows orderly named ?_ ?_
  · intro x rest _
    have whole : ¬fdsHalfApplied false rest env.stored := fun halfway => nomatch halfway.1
    have unchanged : ∀ {c' : Call ι κ}, c'.server = c.server → (SameServices c.server c'.server ↔ ¬fdsHalfApplied false rest env.stored) :=
      fun same => ⟨fun _ => whole, fun _ => same ▸ .refl _⟩
    apply Settles.get_bind
    dsimp only
    apply ((checkFdNames_settles _ { c with command := rest }).mono (fun _ _ => id) fun _ _ refused => unchanged refused.1).bind
    rintro _ c₁ ⟨same₁, -⟩
    apply (svcSetFds_settles ..).bind
    rintro done c₂ ⟨-, -, same₂⟩
    cases done with
    | true => exact announce_settles x _ _ (fun svc text => .svcVar .fds svc.name text) whole
    | false =>
      rw [same₂ rfl]
      exact settles_throw _ (unchanged same₁)
  · intro x c₁ fresh
    apply Settles.get_bind
    dsimp only
    apply ((checkFdNames_settles ..).mono (fun _ _ => id) ?_).bind
    swap
    · rintro _ c' ⟨same, invalid⟩
      exact ⟨by rw [same], rfl, .inl invalid⟩
    rintro _ c₂ ⟨same, valid⟩
    apply (svcSetFds_settles ..).bind
    rintro done c₃ ⟨room, loop, -⟩
    rw [same, fresh, fdsRoom] at room
    cases done with
    | true =>
      refine announce_settles x _ _ (fun svc text => .svcVar .fds svc.name text) ?_
      rintro ⟨-, ⟨name, member, invalid⟩ | ⟨other, none⟩⟩
      · exact nomatch (valid name member).symm.trans invalid
      · simp [other, none] at room
    | false =>
      simp only [Bool.false_eq, Bool.or_eq_false_iff, decide_eq_false_iff_not] at room
      exact settles_throw _ ⟨by rw [loop, same], rfl, .inr room⟩

/-! ### Triggers -/

variable {sigList : List SigListItem}

/-- The new interval of a service, where there is one. -/
def withInterval (s : Supervisor ι) (x : ι) (interval : Option ℤ) : Supervisor ι :=
  let svc := s.daemon.objects x
  let changed := { svc with restartInterval := interval.getD svc.restartInterval }
  { s with daemon := s.daemon.setSvc x changed }

omit [DecidableEq κ] in
/-- The interval is one that `svc_set_restart_interval` accepts. -/
theorem Timed.eq_withInterval {rest triggers : StrSeg} {interval : Option ℤ} {s s' : Supervisor ι}
    (args : autoUpArgs rest = some (interval, triggers)) (timed : Timed x interval s s') : s' = withInterval s x interval := by
  cases interval with
  | none =>
    cases timed
    simp [withInterval, Daemon.setSvc]
  | some interval =>
    have accepted : ¬interval >>> (32 : ℕ) < 1 := by
      rw [autoUpArgs] at args
      split at args
      · split at args <;> cases args
      next number _ =>
        split at args
        · cases args
        next valid =>
          cases args
          rw [not_or, not_lt] at valid
          rw [Int.shiftLeft_eq, Int.shiftRight_eq_div_pow]
          omega
    rw [Timed, svcSetRestartInterval, if_neg accepted] at timed
    cases timed
    rfl

/-- `svc_set_triggers` refuses before it does anything. -/
theorem svcSetTriggers_refuses (s : Supervisor ι) (triggers : StrSeg) (room : Bool) :
    Ensures (svcSetTriggers sigList x (triggers.getD []) room) s fun done s' =>
      (done = false → s' = s) ∧ (done = false ↔ triggersOf sigList triggers = none ∨ room = false) := by
  rw [svcSetTriggers, triggersOf]
  split
  next parsed => exact ensures_pure ⟨fun _ => rfl, iff_of_true rfl (.inl parsed)⟩
  next autostart sigs parsed =>
    split
    case isTrue none => exact ensures_pure ⟨fun _ => rfl, iff_of_true rfl (.inr none)⟩
    case isFalse stored =>
      have accepted : ∀ s', (true = false → s' = s) ∧ (true = false ↔
          Bytewise.parseTriggers sigList ((triggers.getD []).length + 2) (some (triggers.getD [])) = none ∨ room = false) := by
        refine fun s' => ⟨by rintro ⟨⟩, iff_of_false (by rintro ⟨⟩) ?_⟩
        rintro (none | none)
        · cases none.symm.trans parsed
        · exact stored none
      apply Ensures.get_bind
      dsimp only
      split
      · exact ensures_failure
      · refine Ensures.any_bind fun _ s₁ => ?_
        split
        · exact Ensures.modify_bind (ensures_pure (accepted _))
        · exact ensures_pure (accepted _)

theorem sameServices_setInterval (member : x ∈ s.loop.daemon.svcList) (interval : Option ℤ) :
    SameServices s { s with loop := withInterval s.loop x interval } ↔
      ¬∃ new ∈ interval, new ≠ (s.loop.daemon.objects x).restartInterval := by
  constructor
  · rintro same ⟨new, rfl, differs⟩
    have kept := congrArg Service.restartInterval (same.objects x member)
    simp [withInterval, Daemon.setSvc] at kept
    exact differs kept
  · intro unchanged
    have kept : interval.getD (s.loop.daemon.objects x).restartInterval = (s.loop.daemon.objects x).restartInterval := by
      cases interval with
      | none => rfl
      | some new => exact not_not.mp fun differs => unchanged ⟨new, rfl, differs⟩
    simp only [withInterval, kept, Daemon.setSvc, Function.update_eq_self]
    exact .refl _

theorem ctlCmdSvcAutoUp_exact (shows : Shows c.server.loop.daemon v) (orderly : Orderly v) (named : Named v) (env : CallEnv ι κ) :
    Settles (Commands.ctlCmdSvcAutoUp sigList env) c
      (fun _ _ => ¬∃ x made rest, target c.server env.svcMem c.command = some (x, made, rest) ∧
        autoUpHalfApplied sigList c.server x made rest env.stored)
      fun _ c' => SameServices c.server c'.server ↔ ¬∃ x made rest, target c.server env.svcMem c.command = some (x, made, rest) ∧
        autoUpHalfApplied sigList c.server x made rest env.stored := by
  refine exact_made (fun x made rest => autoUpHalfApplied sigList c.server x made rest env.stored) shows orderly named ?_ ?_
  · intro x rest member
    apply ((takeInterval_run x).mono (fun _ _ => id) ?_).bind
    swap
    · rintro _ c' ⟨same, args⟩
      have whole : ¬autoUpHalfApplied sigList c.server x false rest env.stored := by simp [autoUpHalfApplied, args]
      exact ⟨fun _ => whole, fun _ => same ▸ .refl _⟩
    rintro _ c₁ ⟨interval, args, timed, server⟩
    have timedServer := timed.eq_withInterval args
    rw [autoUpHalfApplied, args]
    apply Settles.get_bind
    apply (setTriggers_run x _ env.stored).bind
    rintro done c₂ ⟨set, loop⟩
    obtain ⟨same, refused⟩ := svcSetTriggers_refuses _ _ _ _ _ set
    rw [show c₁.server.vars = c.server.vars from by rw [server]] at refused
    cases done with
    | true =>
      apply announce_settles x _ _ (fun svc text => .svcAutoUp svc.name svc.restartInterval text)
      exact fun halfway => nomatch refused.mpr halfway.2
    | false =>
      refine settles_throw _ ?_
      rw [loop rfl, same rfl, server, timedServer, sameServices_setInterval member, not_iff_not]
      exact ⟨fun changed => ⟨.inr changed, refused.mp rfl⟩, fun halfway => halfway.1.resolve_left nofun⟩
  · intro x c₁ fresh
    apply ((takeInterval_run x).mono (fun _ _ => id) ?_).bind
    swap
    · rintro _ c' ⟨same, args⟩
      exact ⟨by rw [same], by simp [autoUpHalfApplied, args]⟩
    rintro _ c₂ ⟨interval, args, timed, server⟩
    have timedServer := timed.eq_withInterval args
    rw [autoUpHalfApplied, args]
    apply Settles.get_bind
    apply (setTriggers_run x _ env.stored).bind
    rintro done c₃ ⟨set, loop⟩
    obtain ⟨same, refused⟩ := svcSetTriggers_refuses _ _ _ _ _ set
    rw [show c₂.server.vars x = [] from by rw [server]; exact fresh] at refused
    cases done with
    | true =>
      apply announce_settles x _ _ (fun svc text => .svcAutoUp svc.name svc.restartInterval text)
      exact fun halfway => nomatch refused.mpr halfway.2
    | false =>
      refine settles_throw _ ⟨?_, .inl rfl, refused.mp rfl⟩
      rw [loop rfl, same rfl, timedServer]
      rfl

/-! ## Commands about services that exist -/

/-- The command changes nothing where it is refused. -/
def Harmless (m : CmdM ι κ α) (s : Server ι κ) (c : Call ι κ) : Prop :=
  Settles m c (fun _ _ => True) fun _ c' => SameServices s c'.server

theorem harmless_throw {e : Bytes} (s : Server ι κ) (same : c.server = s) : Harmless (throw e : CmdM ι κ α) s c :=
  settles_throw e (same ▸ .refl _)

omit [DecidableEq κ] in
theorem svcHandleStart_refuses (when : ℤ) (daemon : Daemon ι) :
    Ensures (svcHandleStart x when) daemon fun done daemon' => done = false → daemon' = daemon := by
  apply Ensures.get_bind
  split
  · exact ensures_pure fun _ => rfl
  · refine .get_bind (.any_bind fun _ _ => .any_bind fun _ _ => .any_bind fun _ _ => .any_bind fun _ _ => ?_)
    exact .any_bind fun _ _ => .any_bind fun _ _ => .any_bind fun _ _ => ensures_pure nofun

omit [DecidableEq κ] in
theorem svcCancelStart_refuses (daemon : Daemon ι) :
    Ensures (svcCancelStart x) daemon fun done daemon' => done = false → daemon' = daemon := by
  apply Ensures.get_bind
  split
  · exact ensures_pure fun _ => rfl
  · exact .any_bind fun _ _ => .any_bind fun _ _ => .any_bind fun _ _ => ensures_pure nofun

/-- A function on the services that refuses before it does anything. -/
theorem harmless_onLoop {m : SvcM ι Bool} {message : String} {rest : CmdM ι κ Unit} (same : c.server = s)
    (refuses : Ensures m c.server.loop.daemon fun done daemon' => done = false → daemon' = c.server.loop.daemon)
    (accepted : ∀ c', Harmless rest s c') :
    Harmless (do if ← onLoop (onDaemon m) then rest else refuse message) s c := by
  have looped : Settles (onLoop (onDaemon m)) c (fun done c' => done = false → c' = c) fun _ c' => SameServices s c'.server := by
    refine settles_onLoop (Ensures.zoom (refuses.mono ?_))
    intro done daemon' unchanged refused
    rw [unchanged refused]
    exact withLoop_self c
  refine looped.bind fun done c₁ unchanged => ?_
  cases done with
  | true => exact accepted c₁
  | false =>
    rw [unchanged rfl]
    exact harmless_throw s same

theorem startService_harmless (startTime : ℤ) (same : c.server = s) : Harmless (startService x startTime) s c := by
  refine (Fixes.svcGetVar ..).before (fun _ c' kept => (kept.trans same) ▸ .refl _) fun argv c₁ kept => ?_
  split
  · exact harmless_throw s (kept.trans same)
  · exact harmless_onLoop (kept.trans same) (svcHandleStart_refuses _ _) fun _ => settles_modify trivial

section Known

variable (shows : Shows c.server.loop.daemon v) (orderly : Orderly v)
include shows orderly

/-- The first argument of a command that makes no services. -/
theorem harmless_existing {f : ι → CmdM ι κ Unit} (rest : ∀ x c', c'.server = c.server → Harmless (f x) c.server c') :
    Harmless (getArgService true none >>= f) c.server c := by
  apply ((getArgService_existing shows orderly).mono (fun _ _ => id) fun _ c' same => same ▸ .refl _).bind
  rintro x _ ⟨-, name, args, -, -, rfl⟩
  exact rest x _ rfl

theorem ctlCmdSvcStart_harmless (env : CallEnv ι κ) : Harmless (Commands.ctlCmdSvcStart env) c.server c := by
  refine harmless_existing shows orderly fun x c₁ same => ?_
  apply Settles.get_bind
  apply Settles.get_bind
  split
  · exact startService_harmless _ same
  next when _ =>
    split
    · exact harmless_onLoop same (svcCancelStart_refuses _) fun _ => settles_pure _ trivial
    refine (Fixes.takeArgOr ..).before (fun _ c' kept => (kept.trans same) ▸ .refl _) fun startTime c₂ kept => ?_
    split
    · exact harmless_throw _ (kept.trans same)
    · exact startService_harmless _ (kept.trans same)

theorem ctlCmdSvcSignal_harmless (sigList : List SigListItem) (env : CallEnv ι κ) :
    Harmless (ctlCmdSvcSignal sigList env) c.server c := by
  refine (ctlCmdSvcSignal_settles shows orderly sigList env).mono (fun _ _ _ => trivial) ?_
  rintro _ c' ⟨signals, -⟩
  rw [signals]
  exact ⟨rfl, fun _ _ => rfl, fun _ _ => rfl, fun _ _ => rfl, rfl, rfl, rfl, rfl⟩

theorem ctlCmdSvcDelete_harmless (env : CallEnv ι κ) : Harmless (Commands.ctlCmdSvcDelete env) c.server c := by
  refine harmless_existing shows orderly fun x c₁ same => ?_
  apply Settles.get_bind
  split
  · exact harmless_throw _ same
  · exact .modify_bind (settles_onLoop fun _ _ _ => trivial)

end Known

/-- The commands about services. -/
def aboutServices : ServerCommand → Bool
  | .svcTags | .svcArgs | .svcFds | .svcAutoUp | .svcStart | .svcSignal | .svcDelete => true
  | _ => false

/-- A command that is refused changed something exactly if it is half applied, and no such command is accepted. -/
theorem serverHandler_exact (known : Known c.server.loop) (sigList : List SigListItem) (passed : Option ℤ) (env : CallEnv ι κ)
    {command : ServerCommand} (services : aboutServices command = true) :
    Settles (serverHandler sigList passed env command) c
      (fun _ _ => ¬HalfApplied sigList c.server env command c.command)
      fun _ c' => SameServices c.server c'.server ↔ ¬HalfApplied sigList c.server env command c.command := by
  obtain ⟨v, shows, orderly, named⟩ := known
  have harmless : ∀ {m : CmdM ι κ Unit}, Harmless m c.server c →
      Settles m c (fun _ _ => ¬∃ x made rest, target c.server env.svcMem c.command = some (x, made, rest) ∧ False)
        fun _ c' => SameServices c.server c'.server ↔
          ¬∃ x made rest, target c.server env.svcMem c.command = some (x, made, rest) ∧ False := by
    intro m settles
    have never : ¬∃ x made rest, target c.server env.svcMem c.command = some (x, made, rest) ∧ False := by simp
    exact settles.mono (fun _ _ _ => never) fun _ _ same => ⟨fun _ => never, fun _ => same⟩
  cases command with
  | svcTags => exact ctlCmdSvcVar_exact shows orderly named .tags "tags" "unable to set tags" env
  | svcArgs => exact ctlCmdSvcVar_exact shows orderly named .args "args" "unable to set argv" env
  | svcFds => exact ctlCmdSvcFds_exact shows orderly named env
  | svcAutoUp => exact ctlCmdSvcAutoUp_exact shows orderly named env
  | svcStart => exact harmless (ctlCmdSvcStart_harmless shows orderly env)
  | svcSignal => exact harmless (ctlCmdSvcSignal_harmless shows orderly sigList env)
  | svcDelete => exact harmless (ctlCmdSvcDelete_harmless shows orderly env)
  | _ => exact nomatch services

end DaemonProxy.Proofs
