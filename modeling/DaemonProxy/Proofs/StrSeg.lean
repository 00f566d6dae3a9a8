import DaemonProxy.Model.ServiceVars

/-! # Tokens of strings

`strseg_tok_next` takes a string apart at every separator, as `List.splitOn` does.
-/

namespace DaemonProxy.Proofs

open Model

variable {sep : UInt8} {string token rest : Bytes}

theorem splitAtSep_of_notMem (free : sep ∉ string) : splitAtSep sep string = (string, none) := by
  induction string with
  | nil => rfl
  | cons c string ih =>
    rw [List.mem_cons, not_or] at free
    rw [splitAtSep, if_neg (Ne.symm free.1), ih free.2]

theorem splitAtSep_token (free : sep ∉ token) : splitAtSep sep (token ++ sep :: rest) = (token, some rest) := by
  induction token with
  | nil => rw [List.nil_append, splitAtSep, if_pos rfl]
  | cons c token ih =>
    rw [List.mem_cons, not_or] at free
    rw [List.cons_append, splitAtSep, if_neg (Ne.symm free.1), ih free.2]

/-- The loop around `strseg_tok_next`; a string has at most one token more than bytes. -/
theorem strsegTokens_eq {fuel : ℕ} (enough : string.length + 1 < fuel) :
    Bytewise.strsegTokens sep fuel (some string) = string.splitOn sep := by
  induction fuel generalizing string with
  | zero => omega
  | succ fuel ih =>
    rw [Bytewise.strsegTokens]
    by_cases member : sep ∈ string
    · obtain ⟨token, rest, rfl, free⟩ := List.eq_append_cons_of_mem member
      have shorter : rest.length + 1 < fuel := by
        simp only [List.length_append, List.length_cons] at enough
        omega
      rw [strsegTokNext, Option.map_some, splitAtSep_token free, List.splitOn_append_cons_self_of_not_mem free,
        ← ih shorter]
    · obtain ⟨fuel, rfl⟩ : ∃ before, fuel = before + 1 := ⟨fuel - 1, by omega⟩
      rw [strsegTokNext, Option.map_some, splitAtSep_of_notMem member, List.splitOn_eq_singleton member]
      rfl

/-- A string is one token, or a token, a separator and a string. -/
theorem splitOn_induction {motive : Bytes → List Bytes → Prop} (last : ∀ token, sep ∉ token → motive token [token])
    (next : ∀ token rest, sep ∉ token → motive rest (rest.splitOn sep) →
      motive (token ++ sep :: rest) (token :: rest.splitOn sep))
    (string : Bytes) : motive string (string.splitOn sep) := by
  by_cases inside : sep ∈ string
  · obtain ⟨token, rest, same, free⟩ := List.eq_append_cons_of_mem inside
    have shorter : rest.length < string.length := by
      rw [same, List.length_append, List.length_cons]
      omega
    rw [same, List.splitOn_append_cons_self_of_not_mem free]
    exact next token rest free (splitOn_induction last next rest)
  · rw [List.splitOn_eq_singleton inside]
    exact last string inside
termination_by string.length

theorem mem_of_mem_splitOn {string token : Bytes} {c : UInt8} (part : token ∈ string.splitOn sep) (member : c ∈ token) : c ∈ string := by
  induction string using @splitOn_induction sep with
  | last string free => exact List.mem_singleton.mp part ▸ member
  | next first rest free ih =>
    rw [List.mem_append, List.mem_cons]
    rcases List.mem_cons.mp part with rfl | part
    · exact .inl member
    · exact .inr (.inr (ih part))

theorem notMem_of_mem_splitOn {string token : Bytes} (part : token ∈ string.splitOn sep) : sep ∉ token := by
  induction string using @splitOn_induction sep with
  | last string free => exact List.mem_singleton.mp part ▸ free
  | next first rest free ih =>
    rcases List.mem_cons.mp part with rfl | part
    · exact free
    · exact ih part

theorem exists_mem_splitOn {string : Bytes} {c : UInt8} (member : c ∈ string) (other : c ≠ sep) : ∃ token ∈ string.splitOn sep, c ∈ token := by
  induction string using @splitOn_induction sep with
  | last string free => exact ⟨string, List.mem_singleton_self _, member⟩
  | next first rest free ih =>
    rcases List.mem_append.mp member with here | here
    · exact ⟨first, List.mem_cons_self, here⟩
    · obtain ⟨token, part, within⟩ := ih ((List.mem_cons.mp here).resolve_left other)
      exact ⟨token, List.mem_cons_of_mem _ part, within⟩

end DaemonProxy.Proofs
