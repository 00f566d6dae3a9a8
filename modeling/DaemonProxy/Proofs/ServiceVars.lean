import DaemonProxy.Lib.Run
import DaemonProxy.Model.ServiceVars
import DaemonProxy.Proofs.ObjectIndex
import DaemonProxy.Proofs.PackedVars

/-! # What `svc_set_var` does to the bytes

As long as the buffer of the variables stands apart from the segment `vars` itself, `svc_set_var` turns the packed
string in it into the one with the variable set, and writes nowhere else but to `vars.len`.
-/

namespace DaemonProxy.Proofs

open Lib Model Model.Bytewise

/-! ## The search -/

section Search

variable {m : Memory} {a : ℕ} {name entry : Bytes} {before after : List Bytes}

theorem segTokNext_entry {rest : Bytes} (holds : m.Holds a (entry ++ 0 :: rest)) (free : 0 ∉ entry) :
    segTokNext m ⟨a, (entry ++ 0 :: rest).length⟩ 0 =
      some (⟨a, entry.length⟩, ⟨a + entry.length + 1, rest.length⟩) := by
  have bytes : Seg.bytes m ⟨a, (entry ++ 0 :: rest).length⟩ = entry ++ 0 :: rest := holds
  rw [segTokNext, if_neg (Int.not_lt.mpr (Int.natCast_nonneg _)), bytes, splitAtSep_append free]
  simp only [List.length_append, List.length_cons, Option.some.injEq, Prod.mk.injEq, Seg.mk.injEq, true_and]
  omega

theorem segTokNext_key (holds : m.Holds a entry) :
    segTokNext m ⟨a, entry.length⟩ 61 = some (⟨a, (entryKey entry).length⟩,
      ⟨a + (entryKey entry).length + 1, entry.length - ((entryKey entry).length + 1)⟩) := by
  have bytes : Seg.bytes m ⟨a, entry.length⟩ = entry := holds
  rw [segTokNext, if_neg (Int.not_lt.mpr (Int.natCast_nonneg _)), bytes]
  rfl

theorem key_bytes (holds : m.Holds a entry) : Seg.bytes m ⟨a, (entryKey entry).length⟩ = entryKey entry := by
  obtain ⟨rest, split⟩ := splitAtSep_leads 61 entry
  rw [← split, Memory.holds_append] at holds
  exact holds.1

variable {fuel : ℕ}

theorem findVar_step {later : List Bytes} (holds : m.Holds a (pack (entry :: later))) (free : 0 ∉ entry) :
    findVar m name (fuel + 1) ⟨a, (pack (entry :: later)).length⟩ =
      if entryKey entry = name then
        (some ⟨a + (entryKey entry).length + 1, entry.length - ((entryKey entry).length + 1)⟩,
          ⟨a + entry.length + 1, (pack later).length⟩)
      else findVar m name fuel ⟨a + entry.length + 1, (pack later).length⟩ := by
  rw [pack_cons] at holds ⊢
  have holdsEntry := (Memory.holds_append.mp holds).1
  rw [findVar, if_pos (by simp; omega), segTokNext_entry holds free]
  simp only [segTokNext_key holdsEntry, key_bytes holdsEntry, strsegCmp_eq_zero]

theorem holds_later {first : Bytes} {later : List Bytes} (holds : m.Holds a (pack (first :: later))) :
    m.Holds (a + first.length + 1) (pack later) := by
  rw [pack_cons, ← List.singleton_append, Memory.holds_append, Memory.holds_append] at holds
  exact holds.2.2

theorem findVar_found (holds : m.Holds a (pack (before ++ entry :: after)))
    (free : ∀ e ∈ before ++ entry :: after, 0 ∉ e) (other : ∀ e ∈ before, entryKey e ≠ name)
    (here : entryKey entry = name) (enough : before.length < fuel) :
    findVar m name fuel ⟨a, (pack (before ++ entry :: after)).length⟩ =
      (some ⟨a + (pack before).length + name.length + 1, entry.length - (name.length + 1)⟩,
        ⟨a + (pack before).length + entry.length + 1, (pack after).length⟩) := by
  induction before generalizing a fuel with
  | nil =>
    obtain ⟨fuel, rfl⟩ := Nat.exists_eq_add_one_of_ne_zero (Nat.ne_zero_of_lt enough)
    rw [List.nil_append, findVar_step holds (free entry List.mem_cons_self), if_pos here, here]
    rfl
  | cons first before ih =>
    obtain ⟨fuel, rfl⟩ := Nat.exists_eq_add_one_of_ne_zero (Nat.ne_zero_of_lt enough)
    rw [List.cons_append] at holds free ⊢
    rw [findVar_step holds (free first List.mem_cons_self), if_neg (other first List.mem_cons_self),
      ih (holds_later holds) (fun e member => free e (List.mem_cons_of_mem _ member))
        (fun e member => other e (List.mem_cons_of_mem _ member)) (by simpa using enough)]
    simp only [pack_cons, List.length_append, List.length_cons, Prod.mk.injEq, Option.some.injEq, Seg.mk.injEq, and_true]
    omega

theorem findVar_missing {entries : List Bytes} (holds : m.Holds a (pack entries))
    (free : ∀ e ∈ entries, 0 ∉ e) (other : ∀ e ∈ entries, entryKey e ≠ name) (enough : entries.length ≤ fuel) :
    findVar m name fuel ⟨a, (pack entries).length⟩ = (none, ⟨a + (pack entries).length, 0⟩) := by
  induction entries generalizing a fuel with
  | nil => cases fuel <;> rfl
  | cons first later ih =>
    obtain ⟨fuel, rfl⟩ := Nat.exists_eq_add_one_of_ne_zero (Nat.ne_zero_of_lt enough)
    rw [findVar_step holds (free first List.mem_cons_self), if_neg (other first List.mem_cons_self),
      ih (holds_later holds) (fun e member => free e (List.mem_cons_of_mem _ member))
        (fun e member => other e (List.mem_cons_of_mem _ member)) (by simpa using enough)]
    simp only [pack_cons, List.length_append, List.length_cons, Prod.mk.injEq, Seg.mk.injEq, and_true, true_and]
    omega

theorem length_le_pack (entries : List Bytes) : entries.length ≤ (pack entries).length := by
  induction entries with
  | nil => exact le_rfl
  | cons first later ih =>
    simp only [pack_cons, List.length_append, List.length_cons]
    omega

end Search

/-! ## The stores -/

@[simp] theorem offset_state : SvcMember.offset .state = 0 := rfl

@[simp] theorem offset_nameBuf : SvcMember.offset .nameBuf = 4 := rfl

@[simp] theorem offset_name : SvcMember.offset .name = 40 := rfl

@[simp] theorem offset_vars : SvcMember.offset .vars = 56 := rfl

/-- The variables of the service stand packed at `a`. -/
structure VarsAt (svc a : ℕ) (packed : Bytes) (m : Memory) : Prop where
  vars : svcVars svc m = ⟨a, packed.length⟩
  holds : m.Holds a packed
  terminated : Terminated packed

/-- Nothing is written but to `vars.len` and to the `count` bytes at `a`. -/
def WritesVars (svc a count : ℕ) (m m' : Memory) : Prop :=
  ∀ x, (x < a ∨ a + count ≤ x) → (x < svc + 64 ∨ svc + 68 ≤ x) → m' x = m x

section Stores

variable {m : Memory} {svc a : ℕ} {packed name : Bytes}

variable {m' : Memory}

theorem svcVars_congr (same : ∀ x, svc + 56 ≤ x → x < svc + 72 → m' x = m x) :
    svcVars svc m' = svcVars svc m := by
  simp only [svcVars, offset_vars, segLen]
  rw [Memory.load_congr fun x above below => same x (by omega) (by omega),
    Memory.load_congr fun x above below => same x (by omega) (by omega)]

theorem svcVars_storeLen {len : ℕ} (at' : (svcVars svc m).data = a) (small : len < 2147483648) :
    svcVars svc (m.store (svc + 56 + 8) 4 len) = ⟨a, len⟩ := by
  have data : (m.store (svc + 56 + 8) 4 len).load (svc + 56) 8 = m.load (svc + 56) 8 := by
    apply Memory.load_congr
    intro x _ below
    exact Memory.write_outside (.inl (by omega))
  simp only [svcVars, offset_vars, segLen] at at' ⊢
  rw [data, at', Memory.load_store (by omega), wrap32_eq ⟨by omega, by omega⟩]

/-- Once `vars.len` is stored, the other stores of `svc_set_var` are one splice of the packed string. -/
theorem splice_vars {front old new rest : Bytes} (vars : VarsAt svc a (front ++ (old ++ rest)) m)
    (ends : Terminated (front ++ (new ++ rest)))
    (apart : a + front.length + max old.length new.length + rest.length ≤ svc + 56 ∨ svc + 72 ≤ a)
    (small : (front ++ (new ++ rest)).length < 2147483648) :
    VarsAt svc a (front ++ (new ++ rest)) ((m.store (svc + 56 + 8) 4 (front ++ (new ++ rest)).length).splice
        (a + front.length) old.length new rest.length) ∧
      WritesVars svc a (front.length + max old.length new.length + rest.length) m
        ((m.store (svc + 56 + 8) 4 (front ++ (new ++ rest)).length).splice (a + front.length) old.length new rest.length) := by
  have stored : svcVars svc (m.store (svc + 56 + 8) 4 (front ++ (new ++ rest)).length) =
      ⟨a, (front ++ (new ++ rest)).length⟩ := svcVars_storeLen (congrArg Seg.data vars.vars) small
  have holds : (m.store (svc + 56 + 8) 4 (front ++ (new ++ rest)).length).Holds a (front ++ (old ++ rest)) := by
    apply vars.holds.write
    rw [Memory.length_toBytes]
    simp only [List.length_append]
    omega
  refine ⟨⟨?_, holds.splice, ends⟩, ?_⟩
  · rw [svcVars_congr, stored]
    intro x above below
    exact Memory.splice_outside (by omega)
  · intro x outside notLen
    rw [Memory.splice_outside (by omega)]
    apply Memory.write_outside
    rw [Memory.length_toBytes]
    omega

/-- The memory after `vars.len` is stored. -/
def withLen (svc : ℕ) (len : ℤ) (m : Memory) : Memory := m.store (svc + 56 + 8) 4 (len % 4294967296).toNat

variable {p : ℕ} {sizediff : ℤ}

theorem moved_eq {count rest : ℕ} {bytes : Bytes} (diff : sizediff = bytes.length - count) :
    (if sizediff ≠ 0 ∧ (rest : ℤ) > 0 then m.move (((p + count : ℕ) : ℤ) + sizediff).toNat (p + count) (rest : ℤ).toNat
      else m) = if bytes.length ≠ count ∧ 0 < rest then m.move (p + bytes.length) (p + count) rest else m := by
  have target : (((p + count : ℕ) : ℤ) + sizediff).toNat = p + bytes.length := by omega
  rw [target, Int.toNat_natCast]
  exact if_congr (by omega) rfl rfl

theorem putVar_changed {count rest : ℕ} {value : Bytes} {oldLen : ℤ}
    (diff : sizediff = (value ++ [0]).length - count) :
    putVar svc name (some value) (some ⟨p, oldLen⟩) ⟨p + count, rest⟩ sizediff m =
      (withLen svc ((svcVars svc m).len + sizediff) m).splice p count (value ++ [0]) rest := by
  simp only [putVar, moved_eq diff, Memory.write_append]
  rfl

theorem putVar_removed {count rest : ℕ} {oldval : Option Seg} (diff : sizediff = -count) :
    putVar svc name none oldval ⟨p + count, rest⟩ sizediff m =
      (withLen svc ((svcVars svc m).len + sizediff) m).splice p count [] rest := by
  have empty : sizediff = (([] : Bytes).length : ℤ) - count := by simp [diff]
  simp only [putVar, moved_eq empty, Memory.splice, Memory.write_nil]
  rfl

theorem putVar_added {value : Bytes} :
    putVar svc name (some value) none ⟨p, 0⟩ sizediff m =
      (withLen svc ((svcVars svc m).len + sizediff) m).splice p 0 (addedEntry name (some value)) 0 := by
  have key : p + name.length + 1 = p + (name ++ [61]).length := by rw [List.length_append, List.length_singleton, Nat.add_assoc]
  simp only [putVar, Memory.splice, addedEntry, gt_iff_lt, lt_irrefl, and_false, if_false, Memory.write_append]
  rw [key, Memory.write_append, List.append_assoc, List.singleton_append]
  rfl

theorem svcVars_range (svc : ℕ) (m : Memory) : InInt32 (svcVars svc m).len := by
  simp only [svcVars]
  exact wrap32_range _

theorem VarsAt.small (vars : VarsAt svc a packed m) : packed.length < 2147483648 := by
  have range := svcVars_range svc m
  rw [vars.vars] at range
  obtain ⟨-, high⟩ := range
  dsimp only at high
  omega

theorem varRoom_pool {sizeEach : ℕ} {result : Memory × ℕ}
    (room : varRoom (.pool sizeEach) svc sizediff m = some result) : result = (m, (svcVars svc m).data) := by
  rw [varRoom] at room
  dsimp only at room
  split_ifs at room
  · exact (Option.some.inj room).symm
  · exact (Option.some.inj room).symm

variable {value : Option Bytes}

/-- What `svc_set_var` does when it returns true. -/
theorem svcSetVar_eq {storage : VarStorage} {len : ℤ} {oldval : Option Seg} {tail : Seg}
    (vars : svcVars svc m = ⟨a, len⟩) (found : findVar m name len.toNat ⟨a, len⟩ = (oldval, tail))
    (returns : svcSetVar storage svc name value m = some m') :
    ∃ m₁ b, varRoom storage svc (varSizeDiff name value oldval) m = some (m₁, b) ∧
      m' = putVar svc name value (oldval.map (·.translate a b)) (tail.translate a b) (varSizeDiff name value oldval) m₁ := by
  simp only [Bytewise.svcSetVar, vars, found, Option.map_eq_some_iff] at returns
  obtain ⟨⟨m₁, b⟩, granted, rfl⟩ := returns
  exact ⟨m₁, b, granted, rfl⟩

theorem translate_add {b k : ℕ} {len : ℤ} : Seg.translate a b ⟨a + k, len⟩ = ⟨b + k, len⟩ := by
  rw [Seg.translate, Nat.add_sub_cancel_left, Nat.add_comm]

theorem varSizeDiff_missing (range : InInt32 (addedEntry name value).length) :
    varSizeDiff name value none = (addedEntry name value).length := by
  unfold varSizeDiff
  rw [← wrap32_eq range]
  cases value with
  | none => rfl
  | some value =>
    congr 1
    simp only [addedEntry, List.length_append, List.length_cons, List.length_nil]
    omega

variable {entry : Bytes}

theorem length_changedEntry {value : Bytes} (here : entryKey entry = name) :
    (changedEntry name entry (some value)).length = name.length + 1 + (value.length + 1) := by
  have nameLength : name.length ≤ entry.length := here ▸ (splitAtSep_leads 61 entry).length_le
  rw [changedEntry, List.length_append, List.length_take, List.length_append, List.length_append, List.length_singleton]
  omega

theorem varSizeDiff_found (here : entryKey entry = name) (data : ℕ)
    (range : InInt32 ((changedEntry name entry value).length - (entry.length + 1))) :
    varSizeDiff name value (some ⟨data, entry.length - (name.length + 1)⟩) =
      (changedEntry name entry value).length - (entry.length + 1) := by
  unfold varSizeDiff
  rw [← wrap32_eq range]
  congr 1
  cases value with
  | none =>
    simp only [changedEntry, List.length_nil]
    omega
  | some value =>
    rw [length_changedEntry here]
    dsimp only
    omega

/-- The splice that `svc_set_var` comes down to. -/
theorem spliced_spec {front old new rest packed' : Bytes} (vars : VarsAt svc a packed m)
    (before : packed = front ++ (old ++ rest)) (after : packed' = front ++ (new ++ rest)) (ends : Terminated packed')
    (diff : sizediff = new.length - old.length) (small : packed'.length < 2147483648)
    (apart : a + max packed.length packed'.length ≤ svc + 56 ∨ svc + 72 ≤ a)
    (result : m' = (withLen svc ((svcVars svc m).len + sizediff) m).splice (a + front.length) old.length new rest.length) :
    VarsAt svc a packed' m' ∧ WritesVars svc a (max packed.length packed'.length) m m' := by
  subst before after result
  have extent : max (front ++ (old ++ rest)).length (front ++ (new ++ rest)).length =
      front.length + max old.length new.length + rest.length := by
    simp only [List.length_append]
    omega
  rw [extent, ← Nat.add_assoc, ← Nat.add_assoc] at apart
  have spliced := splice_vars vars ends apart small
  have len : (((svcVars svc m).len + sizediff) % 4294967296).toNat = (front ++ (new ++ rest)).length := by
    rw [vars.vars]
    simp only [List.length_append] at small ⊢
    omega
  rw [withLen, len, extent]
  exact spliced

section Cases

variable {value : Option Bytes} {m' : Memory} {entries : List Bytes}
  (vars : VarsAt svc a packed m) (whole : packed = pack entries) (small : (setEntry name value entries).length < 2147483648)
  (apart : a + max packed.length (setEntry name value entries).length ≤ svc + 56 ∨ svc + 72 ≤ a)

include vars whole small apart

theorem setVar_missing (other : ∀ e ∈ entries, entryKey e ≠ name)
    (result : m' = putVar svc name value none ⟨a + packed.length, 0⟩ (varSizeDiff name value none) m) :
    VarsAt svc a (setEntry name value entries) m' ∧
      WritesVars svc a (max packed.length (setEntry name value entries).length) m m' := by
  have added : setEntry name value entries = packed ++ (addedEntry name value ++ []) := by
    rw [setEntry_missing other, ← whole, List.append_nil]
  have diff : varSizeDiff name value none = (addedEntry name value).length - (([] : Bytes).length : ℤ) := by
    rw [added] at small
    simp only [List.length_append, List.length_nil] at small
    rw [varSizeDiff_missing ⟨by omega, by omega⟩, List.length_nil, Nat.cast_zero, sub_zero]
  refine spliced_spec vars (List.append_nil packed).symm added (terminated_setEntry ..) diff small apart ?_
  rw [result]
  cases value with
  | none =>
    have removed : putVar svc name none none ⟨a + packed.length + 0, ((0 : ℕ) : ℤ)⟩ (-((0 : ℕ) : ℤ)) m = _ := putVar_removed rfl
    exact removed
  | some value => exact putVar_added

theorem setVar_found {before after : List Bytes} (split : entries = before ++ entry :: after)
    (other : ∀ e ∈ before, entryKey e ≠ name) (here : entryKey entry = name) {oldval : Seg}
    (old : oldval = ⟨a + (pack before).length + name.length + 1, entry.length - (name.length + 1)⟩)
    (result : m' = putVar svc name value (some oldval) ⟨a + (pack before).length + entry.length + 1, (pack after).length⟩
      (varSizeDiff name value (some oldval)) m) :
    VarsAt svc a (setEntry name value entries) m' ∧
      WritesVars svc a (max packed.length (setEntry name value entries).length) m m' := by
  have nameLength : name.length ≤ entry.length := here ▸ (splitAtSep_leads 61 entry).length_le
  have changed : setEntry name value entries = pack before ++ (changedEntry name entry value ++ pack after) := by
    rw [split, setEntry_found other here]
  have packedLength : packed.length = (pack before).length + (entry.length + 1 + (pack after).length) := by
    rw [whole, split, pack_append, pack_cons]
    simp only [List.length_append, List.length_cons]
    omega
  have bound := vars.small
  have range : InInt32 ((changedEntry name entry value).length - (entry.length + 1)) := by
    rw [changed] at small
    simp only [List.length_append] at small
    exact ⟨by omega, by omega⟩
  have sizediff := varSizeDiff_found here (a + (pack before).length + name.length + 1) range
  rw [← old] at sizediff
  cases value with
  | none =>
    have parts : packed = pack before ++ ((entry ++ [0]) ++ pack after) := by
      rw [whole, split, pack_append, pack_cons, List.append_assoc, List.singleton_append]
    have diff : varSizeDiff name none (some oldval) = -((entry ++ [0]).length : ℤ) := by
      rw [sizediff, changedEntry, List.length_append, List.length_singleton, List.length_nil]
      omega
    refine spliced_spec vars parts changed (terminated_setEntry ..) (diff.trans (zero_sub _).symm) small apart ?_
    have tail : a + (pack before).length + entry.length + 1 = a + (pack before).length + (entry ++ [0]).length := by
      rw [List.length_append, List.length_singleton, Nat.add_assoc _ entry.length]
    rw [result, tail]
    exact putVar_removed diff
  | some value =>
    -- the entry up to its `=` (or, without one, its NUL) stays
    have kept : ((entry ++ [0]).take (name.length + 1)).length = name.length + 1 := by
      rw [List.length_take, List.length_append, List.length_singleton, Nat.min_eq_left (by omega)]
    have gone : ((entry ++ [0]).drop (name.length + 1)).length = entry.length - name.length := by
      rw [List.length_drop, List.length_append, List.length_singleton, Nat.add_sub_add_right]
    have parts : packed = (pack before ++ (entry ++ [0]).take (name.length + 1)) ++
        ((entry ++ [0]).drop (name.length + 1) ++ pack after) := by
      rw [whole, split, pack_append, pack_cons, List.append_assoc, ← List.append_assoc (List.take _ _),
        List.take_append_drop, List.append_assoc, List.singleton_append]
    have changed' : setEntry name (some value) entries = (pack before ++ (entry ++ [0]).take (name.length + 1)) ++
        ((value ++ [0]) ++ pack after) := by
      rw [changed, changedEntry]
      simp only [List.append_assoc]
    have diff : varSizeDiff name (some value) (some oldval) =
        (value ++ [0]).length - (((entry ++ [0]).drop (name.length + 1)).length : ℤ) := by
      rw [sizediff, length_changedEntry here, gone, List.length_append, List.length_singleton]
      omega
    refine spliced_spec vars parts changed' (terminated_setEntry ..) diff small apart ?_
    have start : a + (pack before ++ (entry ++ [0]).take (name.length + 1)).length =
        a + (pack before).length + name.length + 1 := by
      rw [List.length_append, kept]
      omega
    have tail : a + (pack before).length + entry.length + 1 = a + (pack before).length + name.length + 1 +
        ((entry ++ [0]).drop (name.length + 1)).length := by
      rw [gone]
      omega
    rw [result, start, tail, old]
    exact putVar_changed (old ▸ diff)

end Cases

/-- The search ends at the entry of the name, or behind the last entry. -/
theorem findVar_vars (vars : VarsAt svc a packed m) :
    ((∀ e ∈ entriesOf packed, entryKey e ≠ name) ∧
      findVar m name packed.length ⟨a, packed.length⟩ = (none, ⟨a + packed.length, 0⟩)) ∨
    ∃ before entry after, entriesOf packed = before ++ entry :: after ∧ (∀ e ∈ before, entryKey e ≠ name) ∧ entryKey entry = name ∧
      findVar m name packed.length ⟨a, packed.length⟩ =
        (some ⟨a + (pack before).length + name.length + 1, entry.length - (name.length + 1)⟩,
          ⟨a + (pack before).length + entry.length + 1, (pack after).length⟩) := by
  have whole : pack (entriesOf packed) = packed := pack_entriesOf vars.terminated
  have free : ∀ e ∈ entriesOf packed, 0 ∉ e := fun e member => entriesOf_free member
  have holds := vars.holds
  rcases exists_entry name (entriesOf packed) with other | ⟨before, entry, after, split, other, here⟩
  · have found := findVar_missing (whole.symm ▸ holds) free other (length_le_pack _)
    rw [whole] at found
    exact .inl ⟨other, found⟩
  · rw [split] at whole free
    have enough : before.length < packed.length := by
      have := length_le_pack (before ++ entry :: after)
      rw [whole] at this
      simp only [List.length_append, List.length_cons] at this
      omega
    have found := findVar_found (whole.symm ▸ holds) free other here enough
    rw [whole] at found
    exact .inr ⟨before, entry, after, split, other, here, found⟩

theorem varSizeDiff_eq (vars : VarsAt svc a packed m)
    (range : InInt32 ((packedSet packed name value).length - packed.length)) :
    varSizeDiff name value (findVar m name packed.length ⟨a, packed.length⟩).1 =
      (packedSet packed name value).length - packed.length := by
  obtain ⟨low, high⟩ := range
  rcases findVar_vars vars with ⟨other, found⟩ | ⟨before, entry, after, split, other, here, found⟩
  · have length := length_packedSet_missing value vars.terminated other
    rw [found, varSizeDiff_missing ⟨by omega, by omega⟩]
    omega
  · have length := length_packedSet_found value vars.terminated split other here
    rw [found, varSizeDiff_found here _ ⟨by omega, by omega⟩]
    omega

/-- `svc_set_var` sets the variable in the packed string that `varRoom` leaves it with, and touches nothing else. -/
theorem svcSetVar_room {storage : VarStorage} (vars : VarsAt svc a packed m)
    (range : InInt32 ((packedSet packed name value).length - packed.length))
    (returns : svcSetVar storage svc name value m = some m') :
    ∃ m₁ b, varRoom storage svc ((packedSet packed name value).length - packed.length) m = some (m₁, b) ∧
      (VarsAt svc b packed m₁ → (packedSet packed name value).length < 2147483648 →
        b + max packed.length (packedSet packed name value).length ≤ svc + 56 ∨ svc + 72 ≤ b →
        VarsAt svc b (packedSet packed name value) m' ∧
          WritesVars svc b (max packed.length (packedSet packed name value).length) m₁ m') := by
  have whole : packed = pack (entriesOf packed) := (pack_entriesOf vars.terminated).symm
  have sizediff := varSizeDiff_eq vars range
  rcases findVar_vars vars with ⟨other, found⟩ | ⟨before, entry, after, split, other, here, found⟩
  · obtain ⟨m₁, b, granted, result⟩ := svcSetVar_eq vars.vars found returns
    rw [found] at sizediff
    rw [sizediff] at granted
    rw [Option.map_none, translate_add] at result
    exact ⟨m₁, b, granted, fun moved small apart => setVar_missing moved whole small apart other result⟩
  · obtain ⟨m₁, b, granted, result⟩ := svcSetVar_eq vars.vars found returns
    rw [found] at sizediff
    rw [sizediff] at granted
    refine ⟨m₁, b, granted, fun moved small apart => setVar_found moved whole small apart split other here rfl ?_⟩
    rw [result, Option.map_some]
    simp only [Nat.add_assoc, translate_add]
    rfl

theorem svcSetVar_spec {sizeEach : ℕ} (vars : VarsAt svc a packed m)
    (small : (packedSet packed name value).length < 2147483648)
    (apart : a + max packed.length (packedSet packed name value).length ≤ svc + 56 ∨ svc + 72 ≤ a)
    (returns : svcSetVar (.pool sizeEach) svc name value m = some m') :
    VarsAt svc a (packedSet packed name value) m' ∧
      WritesVars svc a (max packed.length (packedSet packed name value).length) m m' := by
  have bound := vars.small
  obtain ⟨m₁, b, granted, after⟩ := svcSetVar_room vars ⟨by omega, by omega⟩ returns
  obtain ⟨rfl, rfl⟩ := Prod.mk.inj (varRoom_pool granted)
  rw [vars.vars] at after
  exact after vars small apart

end Stores

/-! ## The calls -/

/-- The variable that a call sets, and to what. -/
def setting {svc : ℕ} : VarCall svc → Bytes × Option Bytes
  | .tags newTags => (bytesOf "tags", if newTags = [] then none else some newTags)
  | .argv newArgv => (bytesOf "args", if newArgv = [] then none else some newArgv)
  | .fds newFds => (bytesOf "fds", if newFds = nullFds then none else some newFds)
  | .triggers triggersTsv _ => (bytesOf "triggers", if triggersTsv = [] then none else some triggersTsv)

/-- The variables after a sequence of calls, packed. -/
def packedAfter {svc : ℕ} (calls : List (VarCall svc)) : Bytes :=
  calls.foldl (fun packed call => packedSet packed (setting call).1 (setting call).2) []

@[simp] theorem packedAfter_concat {svc : ℕ} (calls : List (VarCall svc)) (call : VarCall svc) :
    packedAfter (calls ++ [call]) = packedSet (packedAfter calls) (setting call).1 (setting call).2 := by
  simp only [packedAfter, List.foldl_append, List.foldl_cons, List.foldl_nil]

section Calls

variable {m m' : Memory} {svc : ℕ} {sigList : List SigListItem} {storage : VarStorage}

theorem segTokNext_len {string token rest : Seg} {sep : UInt8} (took : segTokNext m string sep = some (token, rest)) :
    0 ≤ token.len ∧ token.len ≤ string.len ∧ rest.len = string.len - (token.len + 1) := by
  rw [segTokNext] at took
  split at took
  · exact nomatch took
  · obtain ⟨rfl, rfl⟩ := Prod.mk.inj (Option.some.inj took)
    have leads := (splitAtSep_leads sep (string.bytes m)).length_le
    rw [Seg.bytes, Memory.length_read] at leads
    dsimp only [Seg.bytes]
    omega

/-- An entry that is found lies inside the variables. -/
theorem findVar_len {name : Bytes} {fuel : ℕ} {string oldval : Seg}
    (found : (findVar m name fuel string).1 = some oldval) : -1 ≤ oldval.len ∧ oldval.len + 1 + name.length ≤ string.len := by
  induction fuel generalizing string with
  | zero => exact nomatch found
  | succ fuel ih =>
    rw [findVar] at found
    split at found
    case isFalse => exact nomatch found
    case isTrue =>
      split at found
      case h_1 => exact nomatch found
      case h_2 entry rest tookEntry =>
        have sizes := segTokNext_len tookEntry
        split at found
        case h_1 =>
          have := ih found
          omega
        case h_2 key value tookKey =>
          have parts := segTokNext_len tookKey
          split at found
          case isTrue same =>
            obtain rfl := Option.some.inj found
            have length := congrArg List.length (strsegCmp_eq_zero.mp same)
            rw [Seg.bytes, Memory.length_read] at length
            omega
          case isFalse =>
            have := ih found
            omega

theorem varRoom_shrinks {sizediff : ℤ} (shrinks : sizediff ≤ 0) :
    varRoom storage svc sizediff m = some (m, (svcVars svc m).data) := by
  unfold varRoom
  exact if_neg (by omega)

/-- Taking a variable out never fails. -/
theorem svcSetVar_none (name : Bytes) : ∃ m₁, svcSetVar storage svc name none m = some m₁ := by
  have shrinks : varSizeDiff name none (findVar m name (svcVars svc m).len.toNat (svcVars svc m)).1 ≤ 0 := by
    cases found : (findVar m name (svcVars svc m).len.toNat (svcVars svc m)).1 with
    | none => exact (wrap32_eq inInt32_zero).le
    | some oldval =>
      have lengths := findVar_len found
      obtain ⟨-, high⟩ := svcVars_range svc m
      have range : InInt32 (-(oldval.len + 1 + name.length + 1)) := ⟨by omega, by omega⟩
      refine (wrap32_eq range).trans_le ?_
      omega
  rw [Bytewise.svcSetVar, varRoom_shrinks shrinks]
  exact ⟨_, rfl⟩

/-- A call sets its variable, and after that writes only behind the segments. -/
theorem svcCall_setVar {call : VarCall svc} (returns : svcCall sigList storage m call = some m') :
    ∃ m₁, svcSetVar storage svc (setting call).1 (setting call).2 m = some m₁ ∧
      ∀ x, svc + 4 ≤ x → x < svc + 72 → m' x = m₁ x := by
  have flags : ∀ {m : Memory} {mask bits : UInt8} {x : ℕ}, x < svc + 72 → setFlags svc mask bits m x = m x := by
    intro m mask bits x below
    exact Memory.write_outside (.inl (Nat.lt_of_lt_of_le below (Nat.add_le_add_left (by decide) svc)))
  cases call with
  | tags | argv => exact ⟨m', returns, fun x _ _ => rfl⟩
  | fds newFds =>
    simp only [svcCall, Bytewise.svcSetFds, strsegCmp_eq_zero, Option.map_eq_some_iff] at returns
    obtain ⟨m₁, stored, rfl⟩ := returns
    refine ⟨m₁, ?_, fun x _ below => flags below⟩
    split_ifs at stored with null
    · obtain ⟨m₂, some⟩ : ∃ m₂, svcSetVar storage svc (bytesOf "fds") none m = some m₂ := svcSetVar_none _
      rw [some, Option.getD_some] at stored
      simpa only [setting, if_pos null, stored] using some
    · simpa only [setting, if_neg null] using stored
  | triggers triggersTsv later =>
    rw [svcCall, Bytewise.svcSetTriggers] at returns
    split at returns
    · cases returns
    · obtain ⟨m₁, stored, rfl⟩ := Option.map_eq_some_iff.mp returns
      refine ⟨m₁, stored, fun x above below => ?_⟩
      rw [later.frame _ x above below, Memory.write_outside, flags below]
      exact .inl (Nat.lt_of_lt_of_le below (Nat.add_le_add_left (by decide) svc))

theorem indexNodeInit_outside {node object x : ℕ} (before : x < node) : indexNodeInit node object m x = m x := by
  rw [indexNodeInit, Memory.store_outside (.inl (by omega)), Memory.store_outside (.inl (by omega))]

/-- The rest of the constructor is about the indexes. -/
theorem svcVars_indexed (index : OtherWrites svc) (m : Memory) :
    svcVars svc (index.run (indexNodeInit (svc + SvcMember.offset .pidIndexNode) svc
      (indexNodeInit (svc + SvcMember.offset .nameIndexNode) svc m))) = svcVars svc m := by
  rw [svcVars_congr fun x above below => index.frame _ x (by change svc + 4 ≤ x; omega) below,
    svcVars_congr fun x above below => indexNodeInit_outside (by change x < svc + 112; omega),
    svcVars_congr fun x above below => indexNodeInit_outside (by change x < svc + 72; omega)]

/-- The constructor leaves no variables. -/
theorem svcCtor_vars {sizeEach : ℕ} {name : Bytes} {index : OtherWrites svc} (room : svc + sizeofService ≤ 2 ^ 64)
    (short : name.length < 32) :
    VarsAt svc (svc + 4 + name.length + 1) [] (Bytewise.svcCtor (.pool sizeEach) svc name index m) := by
  have size : sizeofService = 352 := rfl
  refine ⟨?_, Memory.holds_nil, .inl rfl⟩
  unfold Bytewise.svcCtor
  dsimp only
  rw [svcVars_indexed]
  have data : ∀ m : Memory, (m.store (svc + 56) 8 (svc + 4 + name.length + 1)).load (svc + 56) 8 = svc + 4 + name.length + 1 :=
    fun m => Memory.load_store (by omega)
  have len : ∀ m : Memory, ((((((m.write svc (List.replicate 352 0)).store (svc + 0) 4 1).write (svc + 4) name).store
      (svc + 40) 8 (svc + 4)).store (svc + 40 + 8) 4 name.length).store (svc + 56) 8
      (svc + 4 + name.length + 1)).load (svc + 56 + 8) 4 = 0 := by
    intro m
    apply Memory.load_zero
    intro x above below
    rw [Memory.store_outside (.inr (by omega)), Memory.store_outside (.inr (by omega)),
      Memory.store_outside (.inr (by omega)), Memory.write_outside (.inr (by omega)),
      Memory.store_outside (.inr (by omega)), Memory.write_replicate (by omega) (by omega)]
  simp only [svcVars, offset_state, offset_nameBuf, offset_name, offset_vars, segLen, size]
  rw [data, len, List.length_nil, Nat.cast_zero, wrap32_eq inInt32_zero]

end Calls

end DaemonProxy.Proofs
