import DaemonProxy.Model.Tokens
import DaemonProxy.Proofs.StrSeg

/-! # Both splitters take a string apart alike

One call of either splitter cuts the string at its first separator (`CutsAt`). The loops follow by induction on the number
of separators that are left, and what the tokens hold is `List.splitOn`.
-/

namespace DaemonProxy.Proofs

open Lib Model Model.Bytewise

variable {m : Memory} {sep : UInt8} {string first later last : Seg} {tokens : List Seg} {fuel : ℕ}

theorem length_bytes : (string.bytes m).length = string.len.toNat := Memory.length_read

/-- The string is cut at its first separator. -/
structure CutsAt (m : Memory) (sep : UInt8) (string first later : Seg) : Prop where
  first_nonneg : 0 ≤ first.len
  later_nonneg : 0 ≤ later.len
  free : sep ∉ first.bytes m
  whole : string.bytes m = first.bytes m ++ sep :: later.bytes m
  tok_next : segTokNext m string sep = some (first, later)
  split : ∀ remainder, segSplit1 m string sep remainder = (true, first, later)

theorem cutsAt_of_mem (nonneg : 0 ≤ string.len) (member : sep ∈ string.bytes m) : ∃ first later, CutsAt m sep string first later := by
  obtain ⟨before, after, same, free⟩ := List.eq_append_cons_of_mem member
  have size : string.len.toNat = before.length + (1 + after.length) := by
    rw [← length_bytes (m := m), same, List.length_append, List.length_cons, Nat.add_comm after.length]
  have parts := same
  rw [Seg.bytes, size, Memory.read_add, Memory.read_add] at parts
  obtain ⟨front, back⟩ := List.append_inj parts Memory.length_read
  have behind : m.read (string.data + before.length + 1) after.length = after := (List.cons.inj back).2
  have cut : splitAtSep sep (string.bytes m) = (before, some after) := by rw [same, splitAtSep_token free]
  have rest : string.len - ((before.length : ℤ) + 1) = after.length := by omega
  refine ⟨⟨string.data, before.length⟩, ⟨string.data + before.length + 1, after.length⟩, ?_⟩
  refine ⟨Int.natCast_nonneg _, Int.natCast_nonneg _, ?_, ?_, ?_, ?_⟩
  · rw [Seg.bytes, Int.toNat_natCast, front]
    exact free
  · rw [same, Seg.bytes, Seg.bytes, Int.toNat_natCast, Int.toNat_natCast, front, behind]
  · rw [segTokNext, if_neg (by omega), cut, ← rest]
  · intro remainder
    rw [segSplit1, cut]

/-- Without a separator the rest of the string is its only token. -/
theorem segTokNext_last (nonneg : 0 ≤ string.len) (free : sep ∉ string.bytes m) :
    ∃ data, segTokNext m string sep = some (string, ⟨data, -1⟩) := by
  have size : ((string.bytes m).length : ℤ) = string.len := by
    rw [length_bytes]
    omega
  refine ⟨string.data + (string.bytes m).length + 1, ?_⟩
  rw [segTokNext, if_neg (by omega), splitAtSep_of_notMem free]
  change some ((⟨string.data, ((string.bytes m).length : ℤ)⟩ : Seg), (⟨_, string.len - ((string.bytes m).length + 1)⟩ : Seg)) = _
  rw [size, show string.len - (string.len + 1) = -1 by omega]

theorem nextOption_last (free : 44 ∉ string.bytes m) : nextOption m string = (string, { string with len := 0 }) := by
  rw [nextOption, segSplit1, splitAtSep_of_notMem free]

/-! ## The flag loop of `fd.pipe` -/

/-- The tokens that are not empty. -/
def nonemptyTokens (tokens : List Seg) : List Seg := tokens.filter (0 < ·.len)

theorem pipeOptions_last (nonneg : 0 ≤ string.len) (free : 44 ∉ string.bytes m) :
    pipeOptions m (fuel + 2) string = some (nonemptyTokens [string]) := by
  rw [pipeOptions, nextOption_last free, nonemptyTokens]
  by_cases empty : string.len = 0
  · rw [if_neg (by omega), List.filter_cons_of_neg (by simp [empty]), List.filter_nil]
  · rw [if_pos (by omega), List.filter_cons_of_pos (by simp; omega), List.filter_nil]
    change (if string.len ≤ 0 then _ else (pipeOptions m (fuel + 1) _).map _) = _
    rw [if_neg (by omega), pipeOptions, if_neg (lt_irrefl _), Option.map_some]

theorem pipeOptions_cons (cuts : CutsAt m 44 string first later) (rest : pipeOptions m fuel later = some (nonemptyTokens tokens)) :
    pipeOptions m (fuel + 1) string = some (nonemptyTokens (first :: tokens)) := by
  have positive : string.len > 0 := by
    have size := congrArg List.length cuts.whole
    rw [length_bytes, List.length_append, List.length_cons] at size
    omega
  rw [pipeOptions, if_pos positive, nextOption, cuts.split, nonemptyTokens]
  change (if first.len ≤ 0 then pipeOptions m fuel later else (pipeOptions m fuel later).map _) = _
  rw [rest]
  by_cases empty : first.len ≤ 0
  · rw [if_pos empty, List.filter_cons_of_neg (by simpa using empty), nonemptyTokens]
  · rw [if_neg empty, List.filter_cons_of_pos (by simpa using empty), Option.map_some, nonemptyTokens]

/-- With its flags taken in, the loop comes to what `parseFlags` makes of the options. -/
theorem pipeFlagLoop_eq {options : List Seg} {flags : FdFlags} (found : pipeOptions m fuel string = some options) :
    pipeFlagLoop m fuel string flags = some (parseFlags pipeFlag (options.map (Seg.bytes m)) flags) := by
  induction fuel generalizing string options flags with
  | zero => cases found
  | succ fuel ih =>
    rw [pipeOptions] at found
    rw [pipeFlagLoop]
    by_cases more : string.len > 0
    · rw [if_pos more] at found ⊢
      dsimp only at found ⊢
      by_cases empty : (nextOption m string).1.len ≤ 0
      · rw [if_pos empty] at found ⊢
        exact ih found
      · rw [if_neg empty] at found ⊢
        obtain ⟨others, rest, rfl⟩ := Option.map_eq_some_iff.mp found
        have nonempty : (nextOption m string).1.bytes m ≠ [] := by
          rw [← List.length_pos_iff, length_bytes]
          omega
        rw [List.map_cons, parseFlags.eq_3 _ _ _ _ nonempty]
        cases pipeFlag ((nextOption m string).1.bytes m) flags with
        | error text => rfl
        | ok flags => exact ih rest
    · rw [if_neg more] at found ⊢
      cases found
      rfl

/-! ## Whole strings -/

/-- The tokens of a string, with the string that is left. The flag loop goes through the tokens that are not empty. -/
structure TakenApart (m : Memory) (sep : UInt8) (string : Seg) (tokens : List Seg) (last : Seg) : Prop where
  ends : ∀ fuel, (string.bytes m).count sep + 1 < fuel → segTokens m sep fuel string = some (tokens, last)
  number : tokens.length = (string.bytes m).count sep + 1
  parts : tokens.map (Seg.bytes m) = (string.bytes m).splitOn sep
  final : last.len = -1
  options : sep = 44 → ∀ fuel, (string.bytes m).count sep + 1 < fuel → pipeOptions m fuel string = some (nonemptyTokens tokens)

theorem TakenApart.single (nonneg : 0 ≤ string.len) (free : sep ∉ string.bytes m) : ∃ last, TakenApart m sep string [string] last := by
  obtain ⟨data, taken⟩ := segTokNext_last nonneg free
  have absent : (string.bytes m).count sep = 0 := List.count_eq_zero.mpr free
  refine ⟨⟨data, -1⟩, ?_, by rw [absent]; rfl, ?_, rfl, ?_⟩
  · intro fuel enough
    obtain ⟨fuel, rfl⟩ : ∃ before, fuel = before + 2 := ⟨fuel - 2, by omega⟩
    rw [segTokens, taken]
    rfl
  · rw [List.splitOn_eq_singleton free, List.map_singleton]
  · rintro rfl fuel enough
    obtain ⟨fuel, rfl⟩ : ∃ before, fuel = before + 2 := ⟨fuel - 2, by omega⟩
    exact pipeOptions_last nonneg free

theorem CutsAt.count (cuts : CutsAt m sep string first later) : (string.bytes m).count sep = (later.bytes m).count sep + 1 := by
  rw [cuts.whole, List.count_append, List.count_eq_zero.mpr cuts.free, Nat.zero_add, List.count_cons_self]

theorem TakenApart.cons (cuts : CutsAt m sep string first later) (rest : TakenApart m sep later tokens last) :
    TakenApart m sep string (first :: tokens) last := by
  have more := cuts.count
  refine ⟨?_, by rw [List.length_cons, rest.number, more], ?_, rest.final, ?_⟩
  · intro fuel enough
    obtain ⟨fuel, rfl⟩ : ∃ before, fuel = before + 1 := ⟨fuel - 1, by omega⟩
    rw [segTokens, cuts.tok_next]
    change (segTokens m sep fuel later).map _ = _
    rw [rest.ends fuel (by omega), Option.map_some]
  · rw [cuts.whole, List.splitOn_append_cons_self_of_not_mem cuts.free, List.map_cons, rest.parts]
  · rintro rfl fuel enough
    obtain ⟨fuel, rfl⟩ : ∃ before, fuel = before + 1 := ⟨fuel - 1, by omega⟩
    exact pipeOptions_cons cuts (rest.options rfl fuel (by omega))

/-- By induction on the number of separators. -/
theorem takenApart_exists (nonneg : 0 ≤ string.len) : ∃ tokens last, TakenApart m sep string tokens last := by
  induction number : (string.bytes m).count sep generalizing string with
  | zero =>
    obtain ⟨last, apart⟩ := TakenApart.single nonneg (List.count_eq_zero.mp number)
    exact ⟨[string], last, apart⟩
  | succ n ih =>
    have member : sep ∈ string.bytes m := by
      rw [← List.count_pos_iff, number]
      exact Nat.succ_pos n
    obtain ⟨first, later, cuts⟩ := cutsAt_of_mem nonneg member
    have fewer : (later.bytes m).count sep = n := by
      rw [cuts.count] at number
      exact Nat.succ.inj number
    obtain ⟨tokens, last, rest⟩ := ih cuts.later_nonneg fewer
    exact ⟨first :: tokens, last, rest.cons cuts⟩

end DaemonProxy.Proofs
