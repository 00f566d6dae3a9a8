import DaemonProxy.Model.FdTable
import DaemonProxy.Proofs.ServiceRun

/-! # Handle objects

`FdOk` holds at every moment inside the commands, also while a new object stands beside an old one of
the same name: the index holds the objects of the list, pipe ends that have a peer have each other,
and the numbers of the objects keep those in use apart from those deleted.
-/

namespace DaemonProxy.Proofs

open Lib Model

variable {ι : Type}

/-- A pipe end is alone, or its peer is a pipe end of the list whose peer it is. -/
def PeerOk (list : List ι) (objects : ι → FdObj ι) (x : ι) : Prop :=
  (objects x).flags.pipe = true → (objects x).attr = .null ∨
    ∃ y ∈ list, (objects x).attr = .peer y ∧ (objects y).flags.pipe = true ∧ (objects y).attr = .peer x

structure FdOk (s : FdTable ι) : Prop where
  nodup : s.fdList.Nodup
  names : IndexHolds strsegCmp (fun x => (s.objects x).name) s.byName (· ∈ s.fdList)
  peers : ∀ x ∈ s.fdList, PeerOk s.fdList s.objects x
  serials : ∀ x ∈ s.fdList, (s.objects x).serial < s.created ∧ (s.objects x).serial ∉ s.deleted
  serialsDistinct : ∀ x ∈ s.fdList, ∀ y ∈ s.fdList, (s.objects x).serial = (s.objects y).serial → x = y
  deletedOnce : s.deleted.Nodup
  deletedOld : ∀ n ∈ s.deleted, n < s.created

/-- The vector and the index hold the same objects. -/
structure FdIndexed (s : FdTable ι) : Prop where
  nodup : s.fdList.Nodup
  names : IndexHolds strsegCmp (fun x => (s.objects x).name) s.byName (· ∈ s.fdList)

theorem FdOk.indexed {s : FdTable ι} (ok : FdOk s) : FdIndexed s := ⟨ok.nodup, ok.names⟩

/-- What other objects keep when one is deleted: all but the peer, which only a pipe end has. -/
structure SameFd (new old : FdObj ι) : Prop where
  name : new.name = old.name
  flags : new.flags = old.flags
  serial : new.serial = old.serial
  file : old.flags.pipe = false → new = old

theorem SameFd.refl (fd : FdObj ι) : SameFd fd fd := ⟨rfl, rfl, rfl, fun _ => rfl⟩

theorem SameFd.trans {a b c : FdObj ι} (first : SameFd a b) (second : SameFd b c) : SameFd a c where
  name := first.name.trans second.name
  flags := first.flags.trans second.flags
  serial := first.serial.trans second.serial
  file notPipe := (first.file (second.flags ▸ notPipe)).trans (second.file notPipe)

variable {s : FdTable ι}

/-- Names and numbers stay, and the peers are in order. -/
theorem FdOk.setObjects (ok : FdOk s) {objects : ι → FdObj ι}
    (keys : ∀ x ∈ s.fdList, (objects x).name = (s.objects x).name ∧ (objects x).serial = (s.objects x).serial)
    (peers : ∀ x ∈ s.fdList, PeerOk s.fdList objects x) : FdOk { s with objects } where
  nodup := ok.nodup
  names := ok.names.congr (fun _ => .rfl) fun x member => (keys x member).1
  peers := peers
  serials x member := by
    rw [(keys x member).2]
    exact ok.serials x member
  serialsDistinct x inX y inY same := by
    rw [(keys x inX).2, (keys y inY).2] at same
    exact ok.serialsDistinct x inX y inY same
  deletedOnce := ok.deletedOnce
  deletedOld := ok.deletedOld

section Rules

variable {α : Type} {x : ι}

@[simp] theorem ends_fdAt {post : FdObj ι → FdTable ι → Prop} : Ends (fdAt x) s post ↔ post (s.objects x) s := by
  simp only [fdAt, ends_bind, ends_get, ends_pure]

@[simp] theorem ends_updateFd [DecidableEq ι] {f : FdObj ι → FdObj ι} {post : Unit → FdTable ι → Prop} :
    Ends (updateFd x f) s post ↔ post () { s with objects := Function.update s.objects x (f (s.objects x)) } :=
  ends_modify

@[simp] theorem ends_onFdIndex {m : ℕ → TreeM ι α} {post : α → FdTable ι → Prop} :
    Ends (onFdIndex m) s post ↔
      Ends (m (s.fdList.length + 2)) s.byName fun a h => post a { s with byName := h } := by
  simp only [onFdIndex, ends_bind, ends_get, ends_zoom]

end Rules

variable [DecidableEq ι] {x : ι}

theorem FdIndexed.byName (indexed : FdIndexed s) (name : Bytes) :
    Ends (fdByName name) s fun found s' => s' = s ∧
      (∀ x ∈ found, x ∈ s.fdList ∧ (s.objects x).name = name) ∧
      (found = none → ∀ x ∈ s.fdList, (s.objects x).name ≠ name) := by
  simp only [fdByName, ends_bind, ends_get, ends_onFdIndex, ends_pure]
  refine (indexed.names.find strsegCmp_preorder (fun _ inside => inside) (by omega) name).mono ?_
  rintro result _ ⟨rfl, found, missing⟩
  refine ⟨rfl, fun x same => ?_, fun none x member same => ?_⟩
  · obtain ⟨member, equal⟩ := found x same
    exact ⟨member, (strsegCmp_eq_zero.mp equal).symm⟩
  · exact missing none x member (strsegCmp_eq_zero.mpr same.symm)

theorem fdByName_spec (ok : FdOk s) (name : Bytes) :
    Ends (fdByName name) s fun found s' => s' = s ∧
      (∀ x ∈ found, x ∈ s.fdList ∧ (s.objects x).name = name) ∧
      (found = none → ∀ x ∈ s.fdList, (s.objects x).name ≠ name) := ok.indexed.byName name

/-! ## Making an object -/

/-- The object that `fd_new` makes. -/
def newObj (s : FdTable ι) (size : ℕ) (name : Bytes) : FdObj ι :=
  { size := s.poolSize.getD size, flags := {}, fd := -1, attr := .null, name, serial := s.created }

/-- The table with a new object, and the index after that. -/
def withObj (s : FdTable ι) (x : ι) (size : ℕ) (name : Bytes) (h : Heap ι) : FdTable ι := { s with
  fdList := s.fdList ++ [x]
  created := s.created + 1
  objects := Function.update s.objects x (newObj s size name)
  byName := h }

theorem withObj_self (s : FdTable ι) (x : ι) (size : ℕ) (name : Bytes) (h : Heap ι) :
    (withObj s x size name h).objects x = newObj s size name := Function.update_self ..

theorem withObj_other {y : ι} (other : y ≠ x) (s : FdTable ι) (size : ℕ) (name : Bytes) (h : Heap ι) :
    (withObj s x size name h).objects y = s.objects y := Function.update_of_ne other ..

variable {size : ℕ} {name : Bytes}

theorem mem_withObj {y : ι} {h : Heap ι} :
    y ∈ (withObj s x size name h).fdList ↔ y ∈ s.fdList ∨ y = x := List.mem_append.trans (or_congr_right List.mem_singleton)

/-- An object was added. -/
structure Created (s s' : FdTable ι) (x : ι) (size : ℕ) (name : Bytes) : Prop where
  ok : FdOk s'
  fresh : x ∉ s.fdList
  list : s'.fdList = s.fdList ++ [x]
  objects : s'.objects = Function.update s.objects x (newObj s size name)
  history : s'.history = s.history

variable {s' : FdTable ι}

theorem Created.here (created : Created s s' x size name) :
    s'.objects x = newObj s size name := by
  rw [created.objects, Function.update_self]

theorem Created.other (created : Created s s' x size name) {y : ι}
    (member : y ∈ s.fdList) : s'.objects y = s.objects y := by
  have different : y ≠ x := fun same => created.fresh (same ▸ member)
  rw [created.objects, Function.update_of_ne different]

theorem Created.mem (created : Created s s' x size name) (y : ι) :
    y ∈ s'.fdList ↔ y = x ∨ y ∈ s.fdList := by
  rw [created.list, List.mem_append, List.mem_singleton, or_comm]

theorem FdOk.create (ok : FdOk s) (absent : x ∉ s.fdList) (size : ℕ) (name : Bytes) {h : Heap ι}
    (indexed : FdIndexed (withObj s x size name h)) : FdOk (withObj s x size name h) := by
  have cases : ∀ y ∈ s.fdList ++ [x], (y ∈ s.fdList ∧
      Function.update s.objects x (newObj s size name) y = s.objects y) ∨
      (y = x ∧ Function.update s.objects x (newObj s size name) y = newObj s size name) := by
    intro y inside
    rcases List.mem_append.mp inside with old | new
    · have other : y ≠ x := fun same => absent (same ▸ old)
      exact .inl ⟨old, Function.update_of_ne other ..⟩
    · obtain rfl := List.mem_singleton.mp new
      exact .inr ⟨rfl, Function.update_self ..⟩
  constructor <;> dsimp only [withObj]
  · exact indexed.nodup
  · exact indexed.names
  · intro y inside pipe
    rcases cases y inside with ⟨old, same⟩ | ⟨-, new⟩
    · rw [same] at pipe ⊢
      refine (ok.peers y old pipe).imp_right fun ⟨z, inZ, peer⟩ => ?_
      have notX : z ≠ x := fun equal => absent (equal ▸ inZ)
      rw [← Function.update_of_ne notX (newObj s size name) s.objects] at peer
      exact ⟨z, List.mem_append_left _ inZ, peer⟩
    · rw [new] at pipe
      exact nomatch pipe
  · intro y inside
    rcases cases y inside with ⟨old, same⟩ | ⟨-, new⟩
    · rw [same]
      exact ⟨Nat.lt_succ_of_lt (ok.serials y old).1, (ok.serials y old).2⟩
    · rw [new]
      exact ⟨Nat.lt_succ_self _, fun inside => (ok.deletedOld _ inside).false⟩
  · intro y inY z inZ same
    rcases cases y inY with ⟨oldY, sameY⟩ | ⟨hereY, newY⟩ <;> rcases cases z inZ with ⟨oldZ, sameZ⟩ | ⟨hereZ, newZ⟩
    · rw [sameY, sameZ] at same
      exact ok.serialsDistinct y oldY z oldZ same
    · rw [sameY, newZ] at same
      exact absurd same (ok.serials y oldY).1.ne
    · rw [newY, sameZ] at same
      exact absurd same.symm (ok.serials z oldZ).1.ne
    · rw [hereY, hereZ]
  · exact ok.deletedOnce
  · exact fun n inside => Nat.lt_succ_of_lt (ok.deletedOld n inside)

/-- `fd_new`, for the memory that it is offered. -/
theorem FdIndexed.new (indexed : FdIndexed s) (size : ℕ) (name : Bytes) (mem : Option ι) :
    Ends (fdNew size name mem) s fun result s' =>
      (result = none ∧ s' = s) ∨ ∃ x h, result = some x ∧ mem = some x ∧ x ∉ s.fdList ∧ s' = withObj s x size name h ∧
        FdIndexed s' := by
  simp only [fdNew, ends_bind, ends_get]
  cases mem with
  | none => simp only [ends_pure, and_self, true_or]
  | some x =>
    simp only [ends_ite, ends_pure, and_self, true_or]
    split
    · trivial
    · next absent =>
      split
      · trivial
      · simp only [ends_bind, ends_modify, ends_updateFd, ends_onFdIndex, ends_store, rbTreeNodeInit, ends_setColor,
          ends_get, ends_pure, ne_eq, reduceCtorEq, not_false_eq_true, true_and]
        have names : IndexHolds strsegCmp (fun y => (Function.update s.objects x (newObj s size name) y).name) s.byName
            (· ∈ s.fdList) := by
          refine indexed.names.congr (fun _ => .rfl) fun y inside => ?_
          have other : y ≠ x := fun same => absent (same ▸ inside)
          rw [Function.update_of_ne other]
        have zeroed := (names.write (x := x) (f := fun _ => ⟨.null, .null, .null, .unassigned⟩) absent
          fun _ => rfl).write (x := x) (f := (·.setColor .unassigned)) absent fun _ => rfl
        refine (zeroed.add strsegCmp_preorder absent (fun _ inside => inside) ?_ ?_).mono fun _ h added => ?_
        · simp only [List.length_append, List.length_singleton]
          omega
        · rw [Function.update_self]
          rfl
        · refine .inr ⟨x, h, rfl, rfl, absent, rfl, ?_, ?_⟩
          · exact List.nodup_append'.mpr ⟨indexed.nodup, List.nodup_singleton x, by simpa using absent⟩
          · exact added.congr (fun y => by simp [or_comm]) fun _ _ => rfl

theorem fdNew_spec (ok : FdOk s) (size : ℕ) (name : Bytes) (mem : Option ι) :
    Ends (fdNew size name mem) s fun result s' =>
      (result = none ∧ s' = s) ∨ ∃ x, result = some x ∧ Created s s' x size name := by
  refine (ok.indexed.new size name mem).mono ?_
  rintro _ _ (none | ⟨x, h, rfl, -, absent, rfl, indexed⟩)
  · exact .inl none
  · exact .inr ⟨x, rfl, ok.create absent size name indexed, absent, rfl, rfl, rfl⟩

/-! ## Deleting an object -/

/-- At most one object was deleted. -/
structure Dropped (s s' : FdTable ι) (old : Option ι) : Prop where
  ok : FdOk s'
  mem : ∀ y, y ∈ s'.fdList ↔ old ≠ some y ∧ y ∈ s.fdList
  same : ∀ y ∈ s'.fdList, SameFd (s'.objects y) (s.objects y)
  history : s'.history = s.history

/-- The objects after the pipe end `x` has left its peer. -/
structure LeftPeer (list : List ι) (objects objects' : ι → FdObj ι) (x : ι) : Prop where
  same : ∀ y, SameFd (objects' y) (objects y)
  peers : ∀ y ∈ list, y ≠ x → PeerOk (list.erase x) objects' y

theorem dropPeer_spec (ok : FdOk s) (member : x ∈ s.fdList) {t : FdTable ι} (objects : t.objects = s.objects) :
    Ends (dropPeer (s.objects x)) t fun _ t' =>
      ∃ objects', t' = { t with objects := objects' } ∧ LeftPeer s.fdList s.objects objects' x := by
  have inRest : ∀ {z}, z ∈ s.fdList → z ≠ x → z ∈ s.fdList.erase x :=
    fun inside other => (List.mem_erase_of_ne other).mpr inside
  -- Nothing has to change when no other end points here.
  have alone : (∀ y, (s.objects x).flags.pipe = true → (s.objects x).attr ≠ .peer y) →
      LeftPeer s.fdList s.objects s.objects x := by
    intro none
    refine ⟨fun y => .refl _, fun y inside other pipe => ?_⟩
    refine (ok.peers y inside pipe).imp_right fun result => ?_
    obtain ⟨z, inZ, attr, pipeZ, attrZ⟩ := result
    have notX : z ≠ x := by
      rintro rfl
      exact none y pipeZ attrZ
    exact ⟨z, inRest inZ notX, attr, pipeZ, attrZ⟩
  simp only [dropPeer, ends_ite, ends_pure]
  split
  · next pipe =>
    rcases ok.peers x member pipe with null | ⟨y, inY, attr, pipeY, attrY⟩
    · rw [null]
      exact (ends_pure _).mpr ⟨_, rfl, objects ▸ alone fun y _ attr => by cases null.symm.trans attr⟩
    · rw [attr]
      refine ends_updateFd.mpr ⟨_, rfl, ?_⟩
      rw [objects]
      have others : ∀ z, z ≠ y → Function.update s.objects y { s.objects y with attr := .null } z = s.objects z :=
        fun z other => Function.update_of_ne other ..
      constructor
      · intro z
        by_cases here : z = y
        · rw [here, Function.update_self]
          exact ⟨rfl, rfl, rfl, fun file => by cases pipeY.symm.trans file⟩
        · rw [others z here]
          exact .refl _
      · intro z inZ notX pipeZ
        by_cases here : z = y
        · rw [here, Function.update_self]
          exact .inl rfl
        · rw [others z here] at pipeZ ⊢
          refine (ok.peers z inZ pipeZ).imp_right fun result => ?_
          obtain ⟨w, inW, attrZ, pipeW, attrW⟩ := result
          have wNotX : w ≠ x := by
            rintro rfl
            exact here (FdAttr.peer.inj (attrW.symm.trans attr))
          have wNotY : w ≠ y := by
            rintro rfl
            exact notX (FdAttr.peer.inj (attrW.symm.trans attrY))
          rw [← others w wNotY] at pipeW attrW
          exact ⟨w, inRest inW wNotX, attrZ, pipeW, attrW⟩
  · next notPipe => exact ⟨_, rfl, objects ▸ alone fun y pipe _ => notPipe pipe⟩

theorem fdDelete_spec (ok : FdOk s) (member : x ∈ s.fdList) :
    Ends (fdDelete x) s fun _ s' => Dropped s s' (some x) := by
  have perm := swapRemove_perm member
  have mem : ∀ y, y ∈ swapRemove x s.fdList ↔ y ≠ x ∧ y ∈ s.fdList :=
    fun y => perm.mem_iff.trans ok.nodup.mem_erase_iff
  simp only [fdDelete, ends_bind, ends_fdAt, ends_modify]
  refine (dropPeer_spec (t := { s with deleted := (s.objects x).serial :: s.deleted }) ok member rfl).mono ?_
  rintro _ _ ⟨objects', rfl, left⟩
  have names : IndexHolds strsegCmp (fun y => (objects' y).name) s.byName (· ∈ s.fdList) :=
    ok.names.congr (fun _ => .rfl) fun y _ => (left.same y).name
  have final : ∀ (h : Heap ι) (closed : List ℤ),
      IndexHolds strsegCmp (fun y => (objects' y).name) h (fun y => y ≠ x ∧ y ∈ s.fdList) →
      Dropped s { s with
        objects := objects', deleted := (s.objects x).serial :: s.deleted, closed, byName := h,
        fdList := swapRemove x s.fdList } (some x) := by
    intro h closed pruned
    refine ⟨⟨?_, ?_, ?_, ?_, ?_, ?_, ?_⟩, ?_, ?_, rfl⟩ <;> dsimp only
    · exact perm.nodup_iff.mpr (ok.nodup.erase x)
    · exact pruned.congr (fun y => (mem y).symm) fun _ _ => rfl
    · intro y inside pipe
      obtain ⟨notX, old⟩ := (mem y).mp inside
      refine (left.peers y old notX pipe).imp_right fun result => ?_
      obtain ⟨z, inZ, rest⟩ := result
      exact ⟨z, perm.mem_iff.mpr inZ, rest⟩
    · intro y inside
      obtain ⟨notX, old⟩ := (mem y).mp inside
      rw [(left.same y).serial]
      refine ⟨(ok.serials y old).1, fun gone => ?_⟩
      rcases List.mem_cons.mp gone with same | earlier
      · exact notX (ok.serialsDistinct y old x member same)
      · exact (ok.serials y old).2 earlier
    · intro y inY z inZ same
      rw [(left.same y).serial, (left.same z).serial] at same
      exact ok.serialsDistinct y ((mem y).mp inY).2 z ((mem z).mp inZ).2 same
    · exact List.nodup_cons.mpr ⟨(ok.serials x member).2, ok.deletedOnce⟩
    · intro n inside
      rcases List.mem_cons.mp inside with rfl | earlier
      · exact (ok.serials x member).1
      · exact ok.deletedOld n earlier
    · intro y
      rw [mem, ne_eq, ne_eq, Option.some.injEq, eq_comm]
    · exact fun y _ => left.same y
  simp only [ends_ite, ends_modify, ends_bind, ends_onFdIndex]
  split
  · exact (names.prune member (fun _ inside => inside) (by omega)).mono fun _ h pruned => final h _ pruned
  · exact (names.prune member (fun _ inside => inside) (by omega)).mono fun _ h pruned => final h _ pruned

theorem deleteOld_spec (ok : FdOk s) {old : Option ι} (live : ∀ x ∈ old, x ∈ s.fdList) :
    Ends (deleteOld old) s fun _ s' => Dropped s s' old := by
  cases old with
  | none =>
    exact (ends_pure _).mpr ⟨ok, fun y => by simp, fun y _ => .refl _, rfl⟩
  | some x => exact fdDelete_spec ok (live x rfl)

omit [DecidableEq ι] in
theorem isConstFd_spec (old : Option ι) :
    Ends (isConstFd old) s fun result s' => s' = s ∧ (result = true ↔ ∃ x ∈ old, (s.objects x).flags.isConst = true) := by
  cases old with
  | none => exact (ends_pure _).mpr ⟨rfl, by simp⟩
  | some x =>
    simp only [isConstFd, ends_bind, ends_fdAt, ends_pure]
    simp

/-! ## Giving an object its contents -/

theorem FdOk.assignFile (ok : FdOk s) (member : x ∈ s.fdList) (file : (s.objects x).flags.pipe = false) {fd : FdObj ι}
    (name : fd.name = (s.objects x).name) (serial : fd.serial = (s.objects x).serial) (notPipe : fd.flags.pipe = false) :
    FdOk { s with objects := Function.update s.objects x fd } := by
  refine ok.setObjects (fun y _ => ?_) fun y inside pipe => ?_
  · by_cases here : y = x
    · rw [here, Function.update_self]
      exact ⟨name, serial⟩
    · rw [Function.update_of_ne here]
      exact ⟨rfl, rfl⟩
  · have here : y ≠ x := by
      rintro rfl
      rw [Function.update_self, notPipe] at pipe
      exact nomatch pipe
    rw [Function.update_of_ne here] at pipe ⊢
    refine (ok.peers y inside pipe).imp_right fun ⟨z, inZ, attr, pipeZ, attrZ⟩ => ?_
    have there : z ≠ x := by
      rintro rfl
      exact nomatch file.symm.trans pipeZ
    rw [← Function.update_of_ne there fd s.objects] at pipeZ attrZ
    exact ⟨z, inZ, attr, pipeZ, attrZ⟩

theorem FdOk.assignPipe (ok : FdOk s) {f1 f2 : ι} (in1 : f1 ∈ s.fdList) (in2 : f2 ∈ s.fdList) (apart : f1 ≠ f2)
    (file1 : (s.objects f1).flags.pipe = false) (file2 : (s.objects f2).flags.pipe = false) {fd1 fd2 : FdObj ι}
    (name1 : fd1.name = (s.objects f1).name) (serial1 : fd1.serial = (s.objects f1).serial)
    (name2 : fd2.name = (s.objects f2).name) (serial2 : fd2.serial = (s.objects f2).serial)
    (pipe1 : fd1.flags.pipe = true) (attr1 : fd1.attr = .peer f2) (pipe2 : fd2.flags.pipe = true)
    (attr2 : fd2.attr = .peer f1) :
    FdOk { s with objects := Function.update (Function.update s.objects f1 fd1) f2 fd2 } := by
  have at1 : Function.update (Function.update s.objects f1 fd1) f2 fd2 f1 = fd1 := by
    rw [Function.update_of_ne apart, Function.update_self]
  have at2 : Function.update (Function.update s.objects f1 fd1) f2 fd2 f2 = fd2 := Function.update_self ..
  have others : ∀ y, y ≠ f1 → y ≠ f2 → Function.update (Function.update s.objects f1 fd1) f2 fd2 y = s.objects y := by
    intro y not1 not2
    rw [Function.update_of_ne not2, Function.update_of_ne not1]
  refine ok.setObjects (fun y _ => ?_) fun y inside pipe => ?_
  · by_cases is1 : y = f1
    · rw [is1, at1]
      exact ⟨name1, serial1⟩
    · by_cases is2 : y = f2
      · rw [is2, at2]
        exact ⟨name2, serial2⟩
      · rw [others y is1 is2]
        exact ⟨rfl, rfl⟩
  · by_cases is1 : y = f1
    · rw [is1, at1]
      refine .inr ⟨f2, in2, attr1, ?_⟩
      rw [at2]
      exact ⟨pipe2, attr2⟩
    · by_cases is2 : y = f2
      · rw [is2, at2]
        refine .inr ⟨f1, in1, attr2, ?_⟩
        rw [at1]
        exact ⟨pipe1, attr1⟩
      · rw [others y is1 is2] at pipe ⊢
        refine (ok.peers y inside pipe).imp_right fun ⟨z, inZ, attr, pipeZ, attrZ⟩ => ?_
        have not1 : z ≠ f1 := by
          rintro rfl
          exact nomatch file1.symm.trans pipeZ
        have not2 : z ≠ f2 := by
          rintro rfl
          exact nomatch file2.symm.trans pipeZ
        rw [← others z not1 not2] at pipeZ attrZ
        exact ⟨z, inZ, attr, pipeZ, attrZ⟩

end DaemonProxy.Proofs
