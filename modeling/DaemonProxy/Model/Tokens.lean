import DaemonProxy.Model.Commands

/-! # Loops that take a string apart

The two ways in which `strseg.c` splits a string, on bytes in memory: `strseg_tok_next`, called until it returns false,
and `strseg_split_1`, as the flags of `fd.pipe` are read with it.
-/

namespace DaemonProxy.Model.Bytewise

open Lib

/-- `while (strseg_tok_next(&string, sep, &tok))`: the tokens, and the string after the call that returns false, which
does not change it. `none` when more calls than the fuel return true. -/
def segTokens (m : Memory) (sep : UInt8) : ℕ → Seg → Option (List Seg × Seg)
  | 0, _ => none
  | fuel + 1, string =>
      match segTokNext m string sep with
      | none => some ([], string)
      | some (tok, rest) => (segTokens m sep fuel rest).map fun later => (tok :: later.1, later.2)

/-- `strseg_split_1`: the result, the string and the remainder. Without a separator only the length of the remainder is
written. -/
def segSplit1 (m : Memory) (string : Seg) (sep : UInt8) (remainder : Seg) : Bool × Seg × Seg :=
  match splitAtSep sep (string.bytes m) with
  | (before, some after) =>
      (true, ⟨string.data, before.length⟩, ⟨string.data + before.length + 1, after.length⟩)
  | (_, none) => (false, string, { remainder with len := 0 })

/-- `opt= opts; strseg_split_1(&opt, ',', &opts);`: `opt` and `opts` afterwards. -/
def nextOption (m : Memory) (opts : Seg) : Seg × Seg := (segSplit1 m opts 44 opts).2

/-- The options that the flag loop of `ctl_cmd_fd_pipe` compares with the flags it knows, if it knows them all. -/
def pipeOptions (m : Memory) : ℕ → Seg → Option (List Seg)
  | 0, _ => none
  | fuel + 1, opts =>
      if opts.len > 0 then
        let (opt, opts) := nextOption m opts
        if opt.len ≤ 0 then pipeOptions m fuel opts
        else (pipeOptions m fuel opts).map (opt :: ·)
      else some []

/-- The flag loop of `ctl_cmd_fd_pipe`. -/
def pipeFlagLoop (m : Memory) : ℕ → Seg → FdFlags → Option (Except Bytes FdFlags)
  | 0, _, _ => none
  | fuel + 1, opts, flags =>
      if opts.len > 0 then
        let (opt, opts) := nextOption m opts
        if opt.len ≤ 0 then pipeFlagLoop m fuel opts flags
        else
          match pipeFlag (opt.bytes m) flags with
          | .ok flags => pipeFlagLoop m fuel opts flags
          | .error text => some (.error text)
      else some (.ok flags)

end DaemonProxy.Model.Bytewise
