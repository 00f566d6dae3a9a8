import DaemonProxy.Proofs.ServiceVars

/-! # Variables in a service pool

With a service pool the variables start behind the name, inside `name_buf`. They stay apart from the members that
follow as long as they fit into the rest of `name_buf` and the padding behind it.
-/

namespace DaemonProxy.Soundness

open Lib Model Model.Bytewise Proofs

/-- What setting a variable should come to: `packed` are the variables afterwards, `m` and `m'` the memory before and
after `svc_set_var`. -/
structure SetApart (svc : ℕ) (name packed : Bytes) (m m' : Memory) : Prop where
  /-- The variables lie behind the name, where the constructor put them. -/
  vars : svcVars svc m' = ⟨svc + SvcMember.offset .nameBuf + name.length + 1, packed.length⟩
  /-- They overlap no other member. -/
  apart : ∀ member, member ≠ .nameBuf →
    svc + SvcMember.offset .nameBuf + name.length + 1 + packed.length ≤ svc + SvcMember.offset member ∨
      svc + SvcMember.offset member + member.size ≤ svc + SvcMember.offset .nameBuf + name.length + 1
  /-- The other members, but for `vars.len`, are unchanged. -/
  kept : ∀ member, member ≠ .nameBuf → ∀ x, svc + SvcMember.offset member ≤ x →
    x < svc + SvcMember.offset member + member.size →
    (x < svc + SvcMember.offset .vars + segLen ∨ svc + SvcMember.offset .vars + segLen + 4 ≤ x) → m' x = m x

theorem member_apart {member : SvcMember} (other : member ≠ .nameBuf) :
    40 ≤ SvcMember.offset member ∨ SvcMember.offset member + member.size ≤ 4 := by
  cases member <;> first | contradiction | decide

theorem setApart_of_writes {svc : ℕ} {name packed : Bytes} {count : ℕ} {m m' : Memory}
    (vars : VarsAt svc (svc + 4 + name.length + 1) packed m')
    (writes : WritesVars svc (svc + 4 + name.length + 1) count m m') (fits : name.length + packed.length ≤ 35)
    (bound : name.length + count ≤ 35) : SetApart svc name packed m m' := by
  refine ⟨vars.vars, ?_, ?_⟩
  · intro member other
    rw [offset_nameBuf]
    have := member_apart other
    omega
  · intro member other x above below notLen
    rw [offset_vars, segLen] at notLen
    have := member_apart other
    exact writes x (by omega) (by omega)

section Pool

variable (sigList : List SigListItem) (dataSizeEach svc : ℕ) (name : Bytes) (index : OtherWrites svc) (m₀ : Memory)

/-- The memory after a sequence of calls that all return true, on a service just constructed in its slot. -/
def afterCalls (calls : List (VarCall svc)) : Option Memory :=
  exec? (svcCall sigList (.pool (svcPoolSizeEach dataSizeEach)))
    (Bytewise.svcCtor (.pool (svcPoolSizeEach dataSizeEach)) svc name index m₀) calls

variable {sigList dataSizeEach svc name index m₀}

/-- While the variables fit, they stand packed behind the name. -/
theorem afterCalls_vars (room : svc + sizeofService ≤ 2 ^ 64) (short : name.length < 32) {calls : List (VarCall svc)}
    (fits : ∀ before, before <+: calls → name.length + (packedAfter before).length ≤ 35) {m : Memory}
    (run : afterCalls sigList dataSizeEach svc name index m₀ calls = some m) :
    VarsAt svc (svc + 4 + name.length + 1) (packedAfter calls) m := by
  induction calls using List.reverseRecOn generalizing m with
  | nil =>
    obtain rfl := Option.some.inj run
    exact svcCtor_vars room short
  | append_singleton calls call ih =>
    obtain ⟨middle, before, last⟩ := exec?_concat.mp run
    have fitsBefore := fits calls (List.prefix_append calls [call])
    have fitsAfter := fits (calls ++ [call]) List.prefix_rfl
    have vars := ih (fun first leading => fits first (leading.trans (List.prefix_append calls [call]))) before
    obtain ⟨m₁, set, same⟩ := svcCall_setVar last
    rw [packedAfter_concat] at fitsAfter ⊢
    obtain ⟨after, -⟩ := svcSetVar_spec vars (by omega) (.inl (by omega)) set
    refine ⟨?_, ?_, after.terminated⟩
    · rw [svcVars_congr fun x above below => same x (by omega) below, after.vars]
    · apply after.holds.congr
      intro x above below
      exact same x (by omega) (by omega)

/-- In a run of calls that all return true, setting the variables leaves the other members alone if and only if the
variables fit into what the name leaves of `name_buf` and its padding, all the time. -/
theorem pool_vars_apart_iff (valid : svcCheckName name = true) (room : svc + sizeofService ≤ 2 ^ 64)
    (calls : List (VarCall svc)) {final : Memory}
    (accepted : afterCalls sigList dataSizeEach svc name index m₀ calls = some final) :
    (∀ before call after, calls = before ++ call :: after → ∀ m m',
      afterCalls sigList dataSizeEach svc name index m₀ before = some m →
      svcSetVar (.pool (svcPoolSizeEach dataSizeEach)) svc (setting call).1 (setting call).2 m = some m' →
      SetApart svc name (packedAfter (before ++ [call])) m m') ↔
    ∀ before, before <+: calls → name.length + (packedAfter before).length ≤ 35 := by
  have short : name.length < 32 := (of_decide_eq_true valid).1
  constructor
  · intro apart before leading
    rcases List.eq_nil_or_concat' before with rfl | ⟨first, call, rfl⟩
    · change name.length + 0 ≤ 35
      omega
    · obtain ⟨rest, rfl⟩ := leading
      obtain ⟨middle, run⟩ := exec?_leading accepted (List.prefix_append _ rest)
      obtain ⟨m, earlier, last⟩ := exec?_concat.mp run
      obtain ⟨m', set, -⟩ := svcCall_setVar last
      have apartName := (apart first call rest (by simp) m m' earlier set).apart .name nofun
      rw [offset_nameBuf, offset_name] at apartName
      have size : SvcMember.size .name = 16 := rfl
      omega
  · rintro fits before call after rfl m m' run set
    have leading : before ++ [call] <+: before ++ call :: after := ⟨after, by simp⟩
    have fitsBefore := fits before (List.prefix_append ..)
    have fitsAfter := fits (before ++ [call]) leading
    have vars := afterCalls_vars room short (fun first shorter => fits first (shorter.trans (List.prefix_append ..))) run
    rw [packedAfter_concat] at fitsAfter ⊢
    obtain ⟨afterSet, writes⟩ := svcSetVar_spec vars (by omega) (.inl (by omega)) set
    exact setApart_of_writes afterSet writes fitsAfter (by omega)

end Pool

def noWrites (svc : ℕ) : OtherWrites svc := ⟨id, fun _ _ _ _ => rfl⟩

/-- Two short variables of a service with a short name. -/
theorem pool_vars_apart_short :
    ∃ final, afterCalls [] 256 4096 (bytesOf "svc") (noWrites 4096) (fun _ => 7)
        [.tags (bytesOf "a"), .argv (bytesOf "/bin/true")] = some final ∧
      ∀ before call after, [.tags (bytesOf "a"), .argv (bytesOf "/bin/true")] = before ++ call :: after → ∀ m m',
        afterCalls [] 256 4096 (bytesOf "svc") (noWrites 4096) (fun _ => 7) before = some m →
        svcSetVar (.pool (svcPoolSizeEach 256)) 4096 (setting call).1 (setting call).2 m = some m' →
        SetApart 4096 (bytesOf "svc") (packedAfter (before ++ [call])) m m' := by
  have accepted : (afterCalls [] 256 4096 (bytesOf "svc") (noWrites 4096) (fun _ => 7)
      [.tags (bytesOf "a"), .argv (bytesOf "/bin/true")]).isSome = true := by decide +kernel
  obtain ⟨final, run⟩ := Option.isSome_iff_exists.mp accepted
  have fits : ∀ before ∈ ([.tags (bytesOf "a"), .argv (bytesOf "/bin/true")] : List (VarCall 4096)).inits,
      (bytesOf "svc").length + (packedAfter before).length ≤ 35 := by decide +kernel
  refine ⟨final, run, (pool_vars_apart_iff (by decide) (by decide) _ run).mpr ?_⟩
  intro before leading
  exact fits before ((List.mem_inits ..).mpr leading)

/-- An argument list of 32 bytes for a service with a name of one byte: it is accepted, and its end is written over
the segment `name`. -/
theorem long_args_overwrite_name :
    ∃ m m', afterCalls [] 256 4096 (bytesOf "a") (noWrites 4096) (fun _ => 7) [] = some m ∧
      svcSetVar (.pool (svcPoolSizeEach 256)) 4096 (bytesOf "args") (some (bytesOf "/usr/local/bin/example\t--verbose")) m =
        some m' ∧
      m.read (4096 + SvcMember.offset .name) 4 = [4, 16, 0, 0] ∧
      m'.read (4096 + SvcMember.offset .name) 4 = bytesOf "ose\x00" ∧
      ¬SetApart 4096 (bytesOf "a") (bytesOf "args=/usr/local/bin/example\t--verbose\x00") m m' := by
  have answer : (afterCalls [] 256 4096 (bytesOf "a") (noWrites 4096) (fun _ => 7) []).bind (fun m =>
      (svcSetVar (.pool (svcPoolSizeEach 256)) 4096 (bytesOf "args")
        (some (bytesOf "/usr/local/bin/example\t--verbose")) m).map fun m' =>
        (m.read (4096 + SvcMember.offset .name) 4, m'.read (4096 + SvcMember.offset .name) 4)) =
      some ([4, 16, 0, 0], bytesOf "ose\x00") := by decide +kernel
  obtain ⟨m, start, rest⟩ := Option.bind_eq_some_iff.mp answer
  obtain ⟨m', set, reads⟩ := Option.map_eq_some_iff.mp rest
  obtain ⟨before, after⟩ := Prod.mk.inj reads
  refine ⟨m, m', start, set, before, after, fun apart => ?_⟩
  exact absurd (apart.apart .name nofun) (by decide +kernel)

end DaemonProxy.Soundness
