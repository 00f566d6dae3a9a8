import DaemonProxy.Lib.Memory
import DaemonProxy.Model.Service

/-! # Service objects as bytes, and their variables (`service.c`)

`struct service_s` is laid out in memory in the order of its declaration, for the 64-bit ABI: `int` takes 4 bytes
and pointers 8. The variables of a service are packed as `name=value` strings, each with a NUL, in a buffer that
lies behind the name when a service pool is used and on the heap otherwise. The functions below work on the bytes;
`none` stands for a return of `false`, before which nothing has been written.
-/

namespace DaemonProxy.Model.Bytewise

open Lib

/-! ## Layout -/

/-- The members of `struct service_s`; the bit fields share one byte. -/
inductive SvcMember
  | state | nameBuf | name | vars | nameIndexNode | pidIndexNode | activePrevPtr | activeNext | sigwakePrevPtr
  | sigwakeNext | pid | flags | waitStatus | startTime | reapTime | restartInterval | autostartSignals
  deriving DecidableEq

namespace SvcMember

def declared : List SvcMember :=
  [.state, .nameBuf, .name, .vars, .nameIndexNode, .pidIndexNode, .activePrevPtr, .activeNext, .sigwakePrevPtr,
    .sigwakeNext, .pid, .flags, .waitStatus, .startTime, .reapTime, .restartInterval, .autostartSignals]

def size : SvcMember → ℕ
  | .state | .pid | .waitStatus => 4
  | .nameBuf => nameBufSize
  | .name | .vars => 16
  | .nameIndexNode | .pidIndexNode => 40
  | .activePrevPtr | .activeNext | .sigwakePrevPtr | .sigwakeNext | .startTime | .reapTime | .restartInterval => 8
  | .flags => 1
  | .autostartSignals => 128

def align : SvcMember → ℕ
  | .state | .pid | .waitStatus => 4
  | .nameBuf | .flags => 1
  | _ => 8

/-- The least multiple of `align` that is at least `n`. -/
def roundUp (n align : ℕ) : ℕ := (n + align - 1) / align * align

/-- Places the members one after the other from `start` on. -/
def place (start : ℕ) : List SvcMember → SvcMember → ℕ
  | [], _ => start
  | here :: later, x =>
      if here = x then roundUp start here.align else place (roundUp start here.align + here.size) later x

def offset (x : SvcMember) : ℕ := place 0 declared x

end SvcMember

/-- `sizeof(service_t)`. -/
def sizeofService : ℕ := SvcMember.offset .autostartSignals + SvcMember.size .autostartSignals

/-- `svc_pool_size_each`, as `svc_preallocate` computes it. -/
def svcPoolSizeEach (dataSizeEach : ℕ) : ℕ := ((sizeofService + dataSizeEach - 1) ||| 0xF) + 1

/-- Where `len` lies in a `strseg_t`; `data` comes first. -/
def segLen : ℕ := 8

/-! ## String segments in memory -/

/-- A `strseg_t`. -/
structure Seg where
  data : ℕ
  len : ℤ
  deriving DecidableEq

def Seg.bytes (m : Memory) (s : Seg) : Bytes := m.read s.data s.len.toNat

/-- `strseg_tok_next` on bytes in memory: the token and what is left. -/
def segTokNext (m : Memory) (string : Seg) (sep : UInt8) : Option (Seg × Seg) :=
  if string.len < 0 then none
  else
    let len := (splitAtSep sep (string.bytes m)).1.length
    some (⟨string.data, len⟩, ⟨string.data + len + 1, string.len - (len + 1)⟩)

/-! ## Variables -/

/-- Where the variables of a service are stored: in a pool slot of the given size, or in memory for which `realloc`
gives a new address or fails. -/
inductive VarStorage
  | pool (sizeEach : ℕ)
  | heap (realloc : Option ℕ)

/-- `svc->vars`. -/
def svcVars (svc : ℕ) (m : Memory) : Seg :=
  ⟨m.load (svc + SvcMember.offset .vars) 8, wrap 32 (m.load (svc + SvcMember.offset .vars + segLen) 4)⟩

/-- The search loop of `svc_get_var` and `svc_set_var`: the value of the variable if there is one, and what
follows it. -/
def findVar (m : Memory) (name : Bytes) : ℕ → Seg → Option Seg × Seg
  | 0, tail => (none, tail)
  | fuel + 1, tail =>
      if tail.len > 0 then
        match segTokNext m tail 0 with
        | none => (none, tail)
        | some (entry, rest) =>
            match segTokNext m entry 61 with
            | none => findVar m name fuel rest
            | some (key, oldval) =>
                if strsegCmp (key.bytes m) name = 0 then (some oldval, rest) else findVar m name fuel rest
      else (none, tail)

def svcGetVar (svc : ℕ) (name : Bytes) (m : Memory) : Option Bytes :=
  let vars := svcVars svc m
  (findVar m name vars.len.toNat vars).1.map (Seg.bytes m)

/-- By how much `svc_set_var` changes the size of the variables; an `int`. -/
def varSizeDiff (name : Bytes) (value : Option Bytes) (oldval : Option Seg) : ℤ :=
  wrap 32 (match oldval with
    | some oldval =>
        match value with
        | some value => value.length - oldval.len
        | none => -(oldval.len + 1 + name.length + 1)
    | none =>
        match value with
        | some value => name.length + 1 + value.length + 1
        | none => 0)

/-- The check for room in `svc_set_var`: the memory and the address of the buffer to go on with. -/
def varRoom (storage : VarStorage) (svc : ℕ) (sizediff : ℤ) (m : Memory) : Option (Memory × ℕ) :=
  let vars := svcVars svc m
  if sizediff > 0 then
    match storage with
    | .pool sizeEach =>
        let bufSize : ℤ := sizeEach - (vars.data - svc)
        if wrap 32 (vars.len + sizediff) > bufSize then none else some (m, vars.data)
    | .heap none => none
    | .heap (some buf) =>
        -- a negative size is a huge `size_t`, for which there is no block
        if wrap 32 (vars.len + sizediff) < 0 then none
        else some ((m.move buf vars.data vars.len.toNat).store (svc + SvcMember.offset .vars) 8 buf, buf)
  else some (m, vars.data)

/-- The stores of `svc_set_var` once there is room. -/
def putVar (svc : ℕ) (name : Bytes) (value : Option Bytes) (oldval : Option Seg) (tail : Seg) (sizediff : ℤ)
    (m : Memory) : Memory :=
  let m := m.store (svc + SvcMember.offset .vars + segLen) 4 (((svcVars svc m).len + sizediff) % 4294967296).toNat
  let m := if sizediff ≠ 0 ∧ tail.len > 0 then m.move (tail.data + sizediff).toNat tail.data tail.len.toNat else m
  match value with
  | none => m
  | some value =>
      match oldval with
      | some oldval => (m.write oldval.data value).write (oldval.data + value.length) [0]
      | none =>
          let m := (m.write tail.data name).write (tail.data + name.length) [61]
          (m.write (tail.data + name.length + 1) value).write (tail.data + name.length + 1 + value.length) [0]

/-- Translates a pointer into the new buffer. -/
def Seg.translate (old new : ℕ) (s : Seg) : Seg := ⟨s.data - old + new, s.len⟩

def svcSetVar (storage : VarStorage) (svc : ℕ) (name : Bytes) (value : Option Bytes) (m : Memory) : Option Memory :=
  let vars := svcVars svc m
  let found := findVar m name vars.len.toNat vars
  let sizediff := varSizeDiff name value found.1
  (varRoom storage svc sizediff m).map fun room =>
    putVar svc name value (found.1.map (·.translate vars.data room.2)) (found.2.translate vars.data room.2) sizediff room.1

/-- The size that `svc_set_var` asks `realloc` for, if the variables grow. -/
def varRequest (svc : ℕ) (name : Bytes) (value : Option Bytes) (m : Memory) : ℤ :=
  let vars := svcVars svc m
  vars.len + varSizeDiff name value (findVar m name vars.len.toNat vars).1

/-! ## The calls that set variables -/

/-- Sets the bits under `mask` in the byte of the bit fields. -/
def setFlags (svc : ℕ) (mask bits : UInt8) (m : Memory) : Memory :=
  let x := svc + SvcMember.offset .flags
  m.write x [(m x &&& ~~~mask) ||| bits]

def svcSetTags (storage : VarStorage) (svc : ℕ) (newTags : Bytes) (m : Memory) : Option Memory :=
  svcSetVar storage svc (bytesOf "tags") (if newTags = [] then none else some newTags) m

def svcSetArgv (storage : VarStorage) (svc : ℕ) (newArgv : Bytes) (m : Memory) : Option Memory :=
  svcSetVar storage svc (bytesOf "args") (if newArgv = [] then none else some newArgv) m

/-- The tokens that `while (strseg_tok_next(&string, sep, &tok))` goes through. -/
def strsegTokens (sep : UInt8) : ℕ → StrSeg → List Bytes
  | 0, _ => []
  | fuel + 1, string =>
      match strsegTokNext string sep with
      | none => []
      | some (token, rest) => token :: strsegTokens sep fuel rest

/-- The bits of `uses_control_event`, `uses_control_cmd` and `uses_control_socket`. -/
def controlFlags (newFds : Bytes) : UInt8 :=
  let names := strsegTokens 9 (newFds.length + 2) (some newFds)
  (if bytesOf "control.event" ∈ names then 4 else 0) ||| (if bytesOf "control.cmd" ∈ names then 8 else 0) |||
    (if bytesOf "control.socket" ∈ names then 16 else 0)

/-- The default value of the variable `fds`. -/
def nullFds : Bytes := bytesOf "null\tnull\tnull"

def svcSetFds (storage : VarStorage) (svc : ℕ) (newFds : Bytes) (m : Memory) : Option Memory :=
  let stored :=
    if strsegCmp newFds nullFds = 0 then
      -- the answer of this call is not looked at
      some ((svcSetVar storage svc (bytesOf "fds") none m).getD m)
    else svcSetVar storage svc (bytesOf "fds") (some newFds) m
  stored.map (setFlags svc 28 (controlFlags newFds))

/-- The loop of `svc_set_triggers` over the names: whether `always` is one of them, and the signals. -/
def parseTriggers (sigList : List SigListItem) : ℕ → StrSeg → Option (Bool × List ℤ)
  | 0, _ => some (false, [])
  | fuel + 1, list =>
      match strsegTokNext list 9 with
      | none => some (false, [])
      | some (trigger, rest) =>
          if trigger = [] then some (false, [])
          else if strsegCmp trigger (bytesOf "always") = 0 then
            (parseTriggers sigList fuel rest).map fun found => (true, found.2)
          else
            let signum := sigNumByName sigList trigger
            -- `sigaddset` fails above 64
            if 0 < signum ∧ signum ≤ 64 then
              (parseTriggers sigList fuel rest).map fun found => (found.1, signum :: found.2)
            else none

/-- The bytes of a `sigset_t`. -/
def sigsetBytes (signals : List ℤ) : Bytes :=
  (List.range (SvcMember.size .autostartSignals)).map fun i =>
    (List.range 8).foldl
      (fun byte bit => if ((8 * i + bit + 1 : ℕ) : ℤ) ∈ signals then byte ||| (1 <<< UInt8.ofNat bit) else byte) 0

/-- What the rest of the daemon writes during a call (list links, index nodes, states and times, of any service):
everything but the buffer of the name and the segments `name` and `vars` of this service. -/
structure OtherWrites (svc : ℕ) where
  run : Memory → Memory
  frame : ∀ m x, svc + SvcMember.offset .nameBuf ≤ x → x < svc + SvcMember.offset .nameIndexNode → run m x = m x

/-- `svc_set_triggers`; `later` is what `svc_set_sigwake` and `svc_handle_start` write. -/
def svcSetTriggers (sigList : List SigListItem) (storage : VarStorage) (svc : ℕ) (triggersTsv : Bytes)
    (later : OtherWrites svc) (m : Memory) : Option Memory :=
  match parseTriggers sigList (triggersTsv.length + 2) (some triggersTsv) with
  | none => none
  | some (autostart, sigs) =>
      (svcSetVar storage svc (bytesOf "triggers") (if triggersTsv = [] then none else some triggersTsv) m).map fun m =>
        let m := setFlags svc 3 ((if autostart then 1 else 0) ||| (if sigs = [] then 0 else 2)) m
        later.run (m.write (svc + SvcMember.offset .autostartSignals) (sigsetBytes sigs))

/-- `RBTreeNode_Init`, and the assignment to `Object`. -/
def indexNodeInit (node object : ℕ) (m : Memory) : Memory := (m.store (node + 24) 4 2).store (node + 32) 8 object

/-- `svc_ctor`; `index` is what `RBTree_Add` writes. -/
def svcCtor (storage : VarStorage) (svc : ℕ) (name : Bytes) (index : OtherWrites svc) (m : Memory) : Memory :=
  let m := m.write svc (List.replicate sizeofService 0)
  let m := m.store (svc + SvcMember.offset .state) 4 1
  let m := m.write (svc + SvcMember.offset .nameBuf) name
  let m := m.store (svc + SvcMember.offset .name) 8 (svc + SvcMember.offset .nameBuf)
  let m := m.store (svc + SvcMember.offset .name + segLen) 4 name.length
  let m := match storage with
    | .pool _ => m.store (svc + SvcMember.offset .vars) 8 (svc + SvcMember.offset .nameBuf + name.length + 1)
    | .heap _ => m
  let m := indexNodeInit (svc + SvcMember.offset .nameIndexNode) svc m
  let m := indexNodeInit (svc + SvcMember.offset .pidIndexNode) svc m
  index.run m

/-- The calls that set a variable. -/
inductive VarCall (svc : ℕ)
  | tags (newTags : Bytes)
  | argv (newArgv : Bytes)
  | fds (newFds : Bytes)
  | triggers (triggersTsv : Bytes) (later : OtherWrites svc)

def svcCall (sigList : List SigListItem) (storage : VarStorage) {svc : ℕ} (m : Memory) : VarCall svc → Option Memory
  | .tags newTags => svcSetTags storage svc newTags m
  | .argv newArgv => svcSetArgv storage svc newArgv m
  | .fds newFds => svcSetFds storage svc newFds m
  | .triggers triggersTsv later => svcSetTriggers sigList storage svc triggersTsv later m

end DaemonProxy.Model.Bytewise
