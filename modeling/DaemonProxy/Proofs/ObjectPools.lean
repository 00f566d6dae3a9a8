import DaemonProxy.Model.ObjectPools
import DaemonProxy.Proofs.FdSound
import DaemonProxy.Proofs.ServiceActive

/-! # Pools of objects

A pool backs a list of objects when its array has every slot once and the slots in use are the objects, in their order. Taking and
releasing a slot keep that whatever the objects are; the two modules only have to say that their own lists change the same way.
-/

namespace DaemonProxy.Proofs

open Lib Model

variable {σ ι α : Type} {all list : List ι} {p : SlotPool ι} {x : ι}

structure Backed (all list : List ι) (p : SlotPool ι) : Prop where
  perm : p.slots.Perm all
  bound : p.count ≤ p.slots.length
  live : p.live = list

theorem Backed.init (all : List ι) : Backed all [] ⟨all, 0⟩ := ⟨.refl _, Nat.zero_le _, List.take_zero⟩

theorem Backed.advance (backed : Backed all list p) (next : p.next? = some x) : Backed all (list ++ [x]) p.advance where
  perm := backed.perm
  bound := SlotPool.next?_isSome.mp (next ▸ rfl)
  live := backed.live ▸ SlotPool.live_advance next

theorem Backed.fresh (backed : Backed all list p) (nodup : all.Nodup) (next : p.next? = some x) : x ∉ list :=
  backed.live ▸ SlotPool.next?_not_live (backed.perm.nodup_iff.mpr nodup) next

theorem Backed.next?_isSome (backed : Backed all list p) : p.next?.isSome ↔ p.count < all.length := by
  rw [SlotPool.next?_isSome, backed.perm.length_eq]

theorem Backed.release [DecidableEq ι] (backed : Backed all list p) (x : ι) : Backed all (swapRemove x list) (p.release x) := by
  obtain rfl := backed.live
  by_cases member : x ∈ p.live
  · obtain ⟨front, last, live⟩ : ∃ front last, p.live = front ++ [last] := by
      rcases List.eq_nil_or_concat p.live with empty | ⟨front, last, live⟩
      · exact nomatch empty ▸ member
      · exact ⟨front, last, live.trans List.concat_eq_append⟩
    have removed : swapRemove x p.live = (p.live.set (p.live.idxOf x) last).dropLast := by
      have atEnd : p.live.getLast? = some last := by rw [live, List.getLast?_concat]
      rw [swapRemove, atEnd]
      exact if_pos member
    have length : (swapRemove x p.live).length = front.length := by
      rw [removed, List.length_dropLast, List.length_set, live, List.length_append, List.length_singleton, Nat.add_sub_cancel]
    rw [SlotPool.release_eq backed.bound live member, ← removed]
    constructor
    · -- The slot moves from among those in use to the front of the free ones.
      have moved : (swapRemove x p.live ++ x :: p.free).Perm (p.live ++ p.free) := by
        refine List.perm_middle.trans ?_
        exact (((swapRemove_perm member).append_right _).cons x).trans ((List.perm_cons_erase member).symm.append_right _)
      exact (SlotPool.live_append_free ▸ moved).trans backed.perm
    · dsimp only
      rw [List.length_append]
      omega
    · rw [SlotPool.live, ← length, List.take_left]
  · rw [SlotPool.release, if_neg member, swapRemove_of_not_mem member]
    exact backed

/-! ## A module with a pool -/

@[simp] theorem ends_apart {m : StateT σ Option α} {s : Pooled σ ι} {post : α → Pooled σ ι → Prop} :
    Ends (apart m) s post ↔ Ends m s.state fun a state => post a { s with state } := ends_zoom

/-- The module is in order, and its pool backs its list. -/
structure PoolOk (all : List ι) (objects : σ → List ι) (ok : σ → Prop) (s : Pooled σ ι) : Prop where
  state : ok s.state
  backed : Backed all (objects s.state) s.pool

/-- A slot was taken if there was one, and nothing used it before. -/
structure Taken (all : List ι) (p : SlotPool ι) (result : Option ι) : Prop where
  isSome : result.isSome ↔ p.count < all.length
  fresh : ∀ x ∈ result, x ∉ p.live

section Rules

variable {objects : σ → List ι} {ok : σ → Prop} {s : Pooled σ ι}

theorem PoolOk.new (pool : PoolOk all objects ok s) (nodup : all.Nodup) {make : Option ι → StateT σ Option (Option ι)}
    (makes : ∀ x, x ∉ objects s.state → Ends (make (some x)) s.state fun result state =>
      result = some x ∧ ok state ∧ objects state = objects s.state ++ [x]) :
    Ends (newFromPool make) s fun result s' => Taken all s.pool result ∧ PoolOk all objects ok s' := by
  simp only [newFromPool, ends_bind, ends_get]
  cases next : s.pool.next? with
  | none =>
    refine (ends_pure _).mpr ⟨⟨?_, by rintro _ ⟨⟩⟩, pool⟩
    rw [← pool.backed.next?_isSome, next]
  | some slot =>
    have fresh : slot ∉ objects s.state := pool.backed.fresh nodup next
    simp only [ends_bind, ends_apart]
    apply (makes slot fresh).mono
    rintro _ state ⟨rfl, ok, list⟩
    simp only [ends_bind, ends_modify, ends_pure]
    refine ⟨⟨?_, ?_⟩, ok, ?_⟩
    · rw [← pool.backed.next?_isSome, next]
    · intro x same
      obtain rfl := Option.some.inj same
      exact pool.backed.live ▸ fresh
    · rw [list]
      exact pool.backed.advance next

theorem PoolOk.delete [DecidableEq ι] (pool : PoolOk all objects ok s) {delete : ι → StateT σ Option Unit}
    (deletes : Ends (delete x) s.state fun _ state => ok state ∧ objects state = swapRemove x (objects s.state)) :
    Ends (deleteToPool delete x) s fun _ s' => PoolOk all objects ok s' := by
  simp only [deleteToPool, ends_bind, ends_apart, ends_modify]
  apply deletes.mono
  rintro _ state ⟨ok, list⟩
  refine ⟨ok, ?_⟩
  rw [list]
  exact pool.backed.release x

/-- A program that leaves the list as it is. -/
theorem PoolOk.apart {m : StateT σ Option α} (pool : PoolOk all objects ok s)
    (keeps : Ends m s.state fun _ state => ok state ∧ objects state = objects s.state) :
    Ends (Model.apart m) s fun _ s' => PoolOk all objects ok s' := by
  rw [ends_apart]
  apply keeps.mono
  rintro _ state ⟨ok, list⟩
  exact ⟨ok, list ▸ pool.backed⟩

end Rules

/-! ## The pool of services -/

section Services

variable [DecidableEq ι] {s : Daemon ι}

def ServicesOk (s : Daemon ι) : Prop := ∃ v, Shows s v ∧ Orderly v

theorem servicesOk_init : ServicesOk (.init : Daemon ι) := ⟨.init, shows_init, orderly_init⟩

theorem ServicesOk.new (ok : ServicesOk s) (name : Bytes) (absent : x ∉ s.svcList) :
    Ends (svcNew name (some x)) s fun result s' => result = some x ∧ ServicesOk s' ∧ s'.svcList = s.svcList ++ [x] := by
  obtain ⟨v, shows, orderly⟩ := ok
  have outside : x ∉ v.svcList := shows.svcList ▸ absent
  have inactive : x ∉ v.active := fun inside => outside ((orderly.active x).mp inside).1
  have deaf : x ∉ v.sigwake := fun inside => outside ((orderly.sigwake x).mp inside).1
  simp only [svcNew, ends_bind, ends_get, ends_ite, if_neg absent, ends_modify]
  refine (shows.ctor outside inactive deaf name).mono fun _ s' created => ?_
  refine (ends_pure _).mpr ⟨rfl, ⟨_, created, orderly.create outside name⟩, ?_⟩
  rw [created.svcList, shows.svcList]
  rfl

theorem ServicesOk.delete (ok : ServicesOk s) (member : x ∈ s.svcList) :
    Ends (svcDelete x) s fun _ s' => ServicesOk s' ∧ s'.svcList = swapRemove x s.svcList := by
  obtain ⟨v, shows, orderly⟩ := ok
  have inside : x ∈ v.svcList := shows.svcList ▸ member
  have nodup : v.svcList.Nodup := shows.svcList ▸ shows.indexed.nodup
  refine (shows.delete inside).mono fun _ s' deleted => ?_
  refine ⟨⟨_, deleted, orderly.delete nodup inside⟩, ?_⟩
  rw [deleted.svcList, shows.svcList]
  rfl

theorem ServicesOk.use (ok : ServicesOk s) (member : x ∈ s.svcList) (use : SvcUse) :
    Ends (use.program x) s fun _ s' => ServicesOk s' ∧ s'.svcList = s.svcList := by
  obtain ⟨v, shows, orderly⟩ := ok
  have inside : x ∈ v.svcList := shows.svcList ▸ member
  have final : ∀ {s' : Daemon ι} {v' : View ι}, Shows s' v' → Orderly v' → v'.svcList = v.svcList →
      ServicesOk s' ∧ s'.svcList = s.svcList :=
    fun after ordered same => ⟨⟨_, after, ordered⟩, after.svcList.trans (same.trans shows.svcList.symm)⟩
  cases use with
  | handleStart when =>
    simp only [SvcUse.program, ends_bind, ends_pure]
    refine (shows.handleStart inside when).mono fun _ s' after => ?_
    exact final after.1 (orderly.handleStart inside when) (View.handleStart_svcList ..)
  | cancelStart =>
    simp only [SvcUse.program, ends_bind, ends_pure]
    refine shows.cancelStart.mono fun _ s' after => final after (orderly.cancelStart inside) ?_
    rw [View.cancelStart]
    split <;> rfl
  | handleReaped wstat =>
    refine (shows.handleReaped wstat).mono fun _ s' after => final after (orderly.handleReaped inside wstat) ?_
    rw [View.handleReaped]
    split <;> rfl
  | run fork triggered =>
    refine (shows.run inside (orderly.known x inside)).mono fun _ s' after => ?_
    exact final after (orderly.run inside fork triggered) (View.run_frame ..).2
  | setTriggers autostart signals enableSigs triggered =>
    refine (shows.applyTriggers inside autostart signals enableSigs triggered).mono fun _ s' after => ?_
    exact final after (orderly.applyTriggers inside ..) (View.applyTriggers_frame ..).1

abbrev SvcPoolOk (all : List ι) (s : Pooled (Daemon ι) ι) : Prop := PoolOk all Daemon.svcList ServicesOk s

variable {s : Pooled (Daemon ι) ι}

theorem svcNewPooled_spec (pool : SvcPoolOk all s) (nodup : all.Nodup) (name : ShortName) :
    Ends (svcNewPooled name) s fun result s' => Taken all s.pool result ∧ SvcPoolOk all s' :=
  pool.new nodup fun _ absent => pool.state.new name absent

theorem withPooled_spec (pool : SvcPoolOk all s) (name : Bytes) {act : ι → PoolM (Daemon ι) ι Unit}
    (acts : ∀ x ∈ s.state.svcList, Ends (act x) s fun _ s' => SvcPoolOk all s') :
    Ends (withPooled name act) s fun _ s' => SvcPoolOk all s' := by
  obtain ⟨v, shows, -⟩ := pool.state
  simp only [withPooled, ends_bind, ends_apart]
  apply (svcByName_existing shows.indexed name none).mono
  rintro found _ ⟨rfl, inside⟩
  cases found with
  | none => exact (ends_pure _).mpr pool
  | some x => exact acts x (inside x rfl).1

theorem svcPoolProgram_spec (pool : SvcPoolOk all s) (nodup : all.Nodup) (op : SvcPoolOp) :
    Ends (svcPoolProgram op) s fun _ s' => SvcPoolOk all s' := by
  cases op with
  | create name =>
    simp only [svcPoolProgram, ends_bind, ends_pure]
    exact (svcNewPooled_spec pool nodup name).mono fun _ _ after => after.2
  | delete name =>
    apply withPooled_spec pool
    exact fun x member => pool.delete (pool.state.delete member)
  | use name use =>
    apply withPooled_spec pool
    exact fun x member => pool.apart (pool.state.use member use)

end Services

/-! ## The pool of handles -/

section Handles

variable [DecidableEq ι] {s : FdTable ι} {each : ℕ}

/-- The handles of a pool: names are in the index, and no pipe end has a path. -/
structure HandlesOk (each : ℕ) (s : FdTable ι) : Prop where
  indexed : FdIndexed s
  pipes : ∀ x path, (s.objects x).flags.pipe = true → (s.objects x).attr ≠ .path path
  poolSize : s.poolSize = some each

theorem handlesOk_empty (each : ℕ) : HandlesOk each (.empty (some each) : FdTable ι) :=
  ⟨(empty_inv _).ok.indexed, nofun, rfl⟩

/-- An object gets contents of its kind and keeps its name. -/
theorem HandlesOk.update (ok : HandlesOk each s) (x : ι) {f : FdObj ι → FdObj ι} (name : (f (s.objects x)).name = (s.objects x).name)
    (kind : ∀ path, (f (s.objects x)).flags.pipe = true → (f (s.objects x)).attr ≠ .path path) :
    HandlesOk each { s with objects := Function.update s.objects x (f (s.objects x)) } where
  indexed := by
    refine ⟨ok.indexed.nodup, ok.indexed.names.congr (fun _ => .rfl) fun y _ => ?_⟩
    dsimp only
    rcases eq_or_ne y x with rfl | other
    · rwa [Function.update_self]
    · rw [Function.update_of_ne other]
  pipes y := by
    dsimp only
    rcases eq_or_ne y x with rfl | other
    · rwa [Function.update_self]
    · rw [Function.update_of_ne other]
      exact ok.pipes y
  poolSize := ok.poolSize

theorem HandlesOk.dropPeer (ok : HandlesOk each s) (x : ι) :
    Ends (Model.dropPeer (s.objects x)) s fun _ s' => HandlesOk each s' ∧ s'.fdList = s.fdList := by
  rw [Model.dropPeer, ends_ite]
  split
  · next pipe =>
    cases attr : (s.objects x).attr with
    | null => exact (ends_pure _).mpr ⟨ok, rfl⟩
    | peer y =>
      refine ends_updateFd.mpr ⟨ok.update (f := fun peer => { peer with attr := .null }) y rfl ?_, rfl⟩
      exact fun _ _ => by rintro ⟨⟩
    | path text => exact absurd attr (ok.pipes x text pipe)
  · exact (ends_pure _).mpr ⟨ok, rfl⟩

theorem HandlesOk.delete (ok : HandlesOk each s) (x : ι) :
    Ends (fdDelete x) s fun _ s' => HandlesOk each s' ∧ s'.fdList = swapRemove x s.fdList := by
  have ends : Ends (fdDelete x) s fun _ s' => (∀ y path, (s'.objects y).flags.pipe = true → (s'.objects y).attr ≠ .path path) ∧
      s'.poolSize = some each ∧ s'.fdList = swapRemove x s.fdList := by
    have marked : HandlesOk each { s with deleted := (s.objects x).serial :: s.deleted } :=
      ⟨⟨ok.indexed.nodup, ok.indexed.names⟩, ok.pipes, ok.poolSize⟩
    simp only [fdDelete, ends_bind, ends_fdAt, ends_modify]
    refine (marked.dropPeer x).mono fun _ s₁ result => ?_
    obtain ⟨ok₁, list⟩ := result
    have pruned := ok₁.indexed.prune x (Nat.lt_succ_self _)
    simp only [ends_ite, ends_bind, ends_modify, ends_onFdIndex]
    split
    · exact pruned.mono fun _ _ _ => ⟨ok₁.pipes, ok₁.poolSize, congrArg (swapRemove x) list⟩
    · exact pruned.mono fun _ _ _ => ⟨ok₁.pipes, ok₁.poolSize, congrArg (swapRemove x) list⟩
  obtain ⟨_, s', run, pipes, poolSize, list⟩ := ends
  exact ⟨_, s', run, ⟨(ok.indexed.delete x _ _ run).indexed, pipes, poolSize⟩, list⟩

theorem HandlesOk.new (ok : HandlesOk each s) (size : ℕ) {name : Bytes} (room : sizeofFd + name.length + 1 ≤ each)
    (absent : x ∉ s.fdList) :
    Ends (fdNew size name (some x)) s fun result s' => result = some x ∧ HandlesOk each s' ∧ s'.fdList = s.fdList ++ [x] := by
  have fits : ¬∃ each ∈ s.poolSize, each < sizeofFd + name.length + 1 := by
    rintro ⟨_, same, small⟩
    obtain rfl := Option.some.inj (ok.poolSize.symm.trans same)
    omega
  have given : Ensures (fdNew size name (some x)) s fun result _ => result = some x := by
    rw [fdNew]
    apply Ensures.get_bind
    dsimp only
    rw [if_neg absent, if_neg fits]
    iterate 6 refine Ensures.any_bind fun _ _ => ?_
    exact ensures_pure rfl
  obtain ⟨result, s', run, after⟩ := ok.indexed.new size name (some x)
  obtain rfl := given _ _ run
  rcases after with ⟨none, -⟩ | ⟨y, h, same, -, -, rfl, indexed⟩
  · cases none
  · obtain rfl := Option.some.inj same
    refine ⟨_, _, run, rfl, ⟨indexed, ?_, ok.poolSize⟩, rfl⟩
    intro y path
    rcases eq_or_ne y x with rfl | other
    · rw [withObj_self]
      rintro ⟨⟩
    · rw [withObj_other other]
      exact ok.pipes y path

abbrev FdPoolOk (all : List ι) (each : ℕ) (s : Pooled (FdTable ι) ι) : Prop := PoolOk all FdTable.fdList (HandlesOk each) s

variable {s : Pooled (FdTable ι) ι}

theorem FdPoolOk.byName (pool : FdPoolOk all each s) (name : Bytes) : Ends (apart (fdByName name)) s fun _ s' => FdPoolOk all each s' := by
  apply pool.apart
  apply (pool.state.indexed.byName name).mono
  rintro _ _ ⟨rfl, -⟩
  exact ⟨pool.state, rfl⟩

omit [DecidableEq ι] in
theorem FdPoolOk.isConst (pool : FdPoolOk all each s) (old : Option ι) :
    Ends (apart (isConstFd old)) s fun _ s' => FdPoolOk all each s' := by
  apply pool.apart
  apply (isConstFd_spec old).mono
  rintro _ _ ⟨rfl, -⟩
  exact ⟨pool.state, rfl⟩

theorem FdPoolOk.update (pool : FdPoolOk all each s) (x : ι) {f : FdObj ι → FdObj ι} (name : ∀ fd, (f fd).name = fd.name)
    (kind : ∀ fd path, (f fd).flags.pipe = true → (f fd).attr ≠ .path path) :
    Ends (apart (updateFd x f)) s fun _ s' => FdPoolOk all each s' :=
  pool.apart (ends_updateFd.mpr ⟨pool.state.update x (name _) (kind _), rfl⟩)

theorem fdDeletePooled_spec (pool : FdPoolOk all each s) (x : ι) : Ends (fdDeletePooled x) s fun _ s' => FdPoolOk all each s' :=
  pool.delete (pool.state.delete x)

theorem deleteOldPooled_spec (pool : FdPoolOk all each s) (old : Option ι) :
    Ends (deleteOldPooled old) s fun _ s' => FdPoolOk all each s' := by
  cases old with
  | none => exact (ends_pure _).mpr pool
  | some x => exact fdDeletePooled_spec pool x

section Programs

variable (nodup : all.Nodup) (room : sizeofFd + nameBufSize ≤ each)

include nodup room

theorem fdNewPooled_spec (pool : FdPoolOk all each s) (size : ℕ) (name : ShortName) :
    Ends (fdNewPooled size name) s fun result s' => Taken all s.pool result ∧ FdPoolOk all each s' := by
  have fits : sizeofFd + name.1.length + 1 ≤ each := by
    have short := name.2
    omega
  exact pool.new nodup fun _ absent => pool.state.new size fits absent

theorem fdNewFilePooled_spec (pool : FdPoolOk all each s) (name : ShortName) (fdnum : ℤ) {flags : FdFlags}
    (file : flags.pipe = false) (path : Bytes) :
    Ends (fdNewFilePooled name fdnum flags path) s fun _ s' => FdPoolOk all each s' := by
  rw [fdNewFilePooled, ends_bind]
  refine (pool.byName name).mono fun old s₁ pool => ?_
  rw [ends_bind]
  refine (pool.isConst old).mono fun isConst s₂ pool => ?_
  split
  · exact (ends_pure _).mpr pool
  · rw [ends_bind]
    refine (fdNewPooled_spec nodup room pool _ name).mono fun result s₃ ⟨_, pool⟩ => ?_
    cases result with
    | none => exact (ends_pure _).mpr pool
    | some f =>
      rw [ends_bind]
      refine (deleteOldPooled_spec pool old).mono fun _ s₄ pool => ?_
      rw [ends_bind]
      refine (FdPoolOk.update pool f ?_ ?_).mono fun _ s₅ pool => (ends_pure (some f)).mpr pool
      · exact fun _ => rfl
      · exact fun _ _ pipe => nomatch file.symm.trans pipe

theorem fdNewPipePooled_spec (pool : FdPoolOk all each s) (name1 : ShortName) (num1 : ℤ) (name2 : ShortName) (num2 : ℤ)
    (flags : FdFlags) : Ends (fdNewPipePooled name1 num1 name2 num2 flags) s fun _ s' => FdPoolOk all each s' := by
  rw [fdNewPipePooled, ends_bind]
  refine (pool.byName name1).mono fun old1 s₁ pool => ?_
  rw [ends_bind]
  refine (FdPoolOk.byName pool name2).mono fun old2 s₂ pool => ?_
  rw [ends_bind]
  refine (FdPoolOk.isConst pool old1).mono fun const1 s₃ pool => ?_
  rw [ends_bind]
  refine (FdPoolOk.isConst pool old2).mono fun const2 s₄ pool => ?_
  split
  · exact (ends_pure _).mpr pool
  · rw [ends_bind]
    refine (fdNewPooled_spec nodup room pool _ name1).mono fun first s₅ ⟨_, pool⟩ => ?_
    cases first with
    | none => exact (ends_pure _).mpr pool
    | some f1 =>
      rw [ends_bind]
      refine (fdNewPooled_spec nodup room pool _ name2).mono fun second s₆ ⟨_, pool⟩ => ?_
      cases second with
      | none =>
        rw [ends_bind]
        exact (fdDeletePooled_spec pool f1).mono fun _ s₇ pool => (ends_pure _).mpr pool
      | some f2 =>
        rw [ends_bind]
        refine (deleteOldPooled_spec pool old1).mono fun _ s₇ pool => ?_
        rw [ends_bind]
        -- With equal names this deletes an object that is deleted already.
        refine (deleteOldPooled_spec pool old2).mono fun _ s₈ pool => ?_
        rw [ends_bind]
        refine (FdPoolOk.update pool f1 ?_ ?_).mono fun _ s₉ pool => ?_
        · exact fun _ => rfl
        · exact fun _ _ _ => nofun
        · rw [ends_bind]
          refine (FdPoolOk.update pool f2 ?_ ?_).mono fun _ s₁₀ pool => (ends_pure (some (f1, f2))).mpr pool
          · exact fun _ => rfl
          · exact fun _ _ _ => nofun

theorem fdPoolProgram_spec (pool : FdPoolOk all each s) (op : FdPoolOp) :
    Ends (fdPoolProgram op) s fun _ s' => FdPoolOk all each s' := by
  cases op with
  | file name fdnum flags path =>
    simp only [fdPoolProgram, ends_bind, ends_pure]
    exact fdNewFilePooled_spec nodup room pool name fdnum flags.2 path
  | pipe name1 num1 name2 num2 flags =>
    simp only [fdPoolProgram, ends_bind, ends_pure]
    exact fdNewPipePooled_spec nodup room pool name1 num1 name2 num2 flags
  | delete name =>
    simp only [fdPoolProgram, ends_bind]
    refine (pool.byName name).mono fun found s₁ pool => ?_
    cases found with
    | none => exact (ends_pure _).mpr pool
    | some x => exact fdDeletePooled_spec pool x

end Programs

end Handles

end DaemonProxy.Proofs
