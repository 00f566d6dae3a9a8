import DaemonProxy.Proofs.ObjectPools

/-! # The object pools

Whatever is created and deleted, the array of a pool has each slot once, and its first entries are the objects of the name index.
-/

namespace DaemonProxy.Soundness

open Lib Model Proofs

variable {σ : Type} {n : ℕ}

/-- The array is a permutation of the slots, and its first `count` entries are the objects in the index. -/
def PoolSound (pool : SlotPool (Fin n)) (names : Fin n → Bytes) (index : Heap (Fin n)) : Prop :=
  pool.slots.Perm (List.finRange n) ∧ pool.count ≤ n ∧ IndexHolds strsegCmp names index (· ∈ pool.slots.take pool.count)

/-- The creation succeeds when a slot is left, with a slot that no object holds. -/
def CreatesIfFree (create : PoolM σ (Fin n) (Option (Fin n))) (s : Pooled σ (Fin n)) : Prop :=
  Ends create s fun result _ =>
    (result.isSome ↔ s.pool.count < n) ∧ ∀ x ∈ result, x ∉ s.pool.slots.take s.pool.count

theorem Backed.poolSound {list : List (Fin n)} {pool : SlotPool (Fin n)} {names : Fin n → Bytes} {index : Heap (Fin n)}
    (backed : Backed (List.finRange n) list pool) (indexed : IndexHolds strsegCmp names index (· ∈ list)) :
    PoolSound pool names index := by
  have bound := backed.bound
  rw [backed.perm.length_eq, List.length_finRange] at bound
  rw [← backed.live] at indexed
  exact ⟨backed.perm, bound, indexed⟩

theorem Taken.creates {create : PoolM σ (Fin n) (Option (Fin n))} {s : Pooled σ (Fin n)} {after : Pooled σ (Fin n) → Prop}
    (takes : Ends create s fun result s' => Taken (List.finRange n) s.pool result ∧ after s') : CreatesIfFree create s := by
  refine takes.mono fun result _ ⟨taken, _⟩ => ⟨?_, taken.fresh⟩
  rw [taken.isSome, List.length_finRange]

/-- A step that keeps an invariant of the state does so in a run of any length. -/
theorem run_keeps {ε : Type} {program : ε → PoolM σ (Fin n) Unit} {inv : Pooled σ (Fin n) → Prop} {start : Pooled σ (Fin n)}
    (initial : inv start) (keeps : ∀ s op, inv s → Ends (program op) s fun _ s' => inv s') (ops : List ε) :
    ∃ s, exec? (fun s op => ((program op).run s).map Prod.snd) start ops = some s ∧ inv s := by
  have along : Along? (fun s op => ((program op).run s).map Prod.snd) (fun _ _ => True) start ops :=
    along?_of_forall fun _ _ => trivial
  refine exec?_invariant (fun s op inv _ => ?_) initial along
  obtain ⟨_, s', run, after⟩ := keeps s op inv
  exact ⟨s', by rw [run]; rfl, after⟩

theorem pools_never_leak (n data : ℕ) :
    (∀ ops : List SvcPoolOp, ∃ s, exec? svcPoolStep (svcPoolInit n) ops = some s ∧
      PoolSound s.pool (fun x => (s.state.objects x).name) s.state.byName ∧
      ∀ name, CreatesIfFree (svcNewPooled name) s) ∧
    ∀ ops : List FdPoolOp, ∃ s, exec? fdPoolStep (fdPoolInit n data) ops = some s ∧
      PoolSound s.pool (fun x => (s.state.objects x).name) s.state.byName ∧
      ∀ size name, CreatesIfFree (fdNewPooled size name) s := by
  have nodup : (List.finRange n).Nodup := List.nodup_finRange n
  constructor
  · intro ops
    have initial : SvcPoolOk (List.finRange n) (svcPoolInit n) := ⟨servicesOk_init, .init _⟩
    obtain ⟨s, run, pool⟩ := run_keeps initial (fun s op pool => svcPoolProgram_spec pool nodup op) ops
    obtain ⟨v, shows, -⟩ := pool.state
    refine ⟨s, run, Backed.poolSound pool.backed shows.indexed.names, fun name => ?_⟩
    exact Taken.creates (svcNewPooled_spec pool nodup name)
  · intro ops
    have room : sizeofFd + nameBufSize ≤ fdPoolSizeEach data := by
      rw [fdPoolSizeEach]
      omega
    have initial : FdPoolOk (List.finRange n) (fdPoolSizeEach data) (fdPoolInit n data) := ⟨handlesOk_empty _, .init _⟩
    obtain ⟨s, run, pool⟩ := run_keeps initial (fun s op pool => fdPoolProgram_spec nodup room pool op) ops
    refine ⟨s, run, Backed.poolSound pool.backed pool.state.indexed.names, fun size name => ?_⟩
    exact Taken.creates (fdNewPooled_spec nodup room pool size name)

end DaemonProxy.Soundness
