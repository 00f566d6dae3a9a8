import DaemonProxy.Proofs.FramingProgress
import DaemonProxy.Proofs.ServiceStart

/-! # The descriptors of the controllers

What a controller reads from, writes to and closes is a descriptor that it was given and has not closed. The code keeps
to this as long as no descriptor that is used in both directions is closed by one of them.
-/

namespace DaemonProxy.Soundness

open Lib Model Proofs

variable {n : ℕ}

/-- The controllers own their descriptors. -/
structure DescriptorsOwned (w : World n) : Prop where
  /-- The input descriptor of an allocated controller is open and was given to it; it is none that a client passed. -/
  input : ∀ i, (w.client i).stateFn ≠ none → 0 ≤ (w.client i).recv.fd →
    w.holder (w.client i).recv.fd = some (.controller i) ∧ (w.client i).recv.fd ∉ (w.client i).recv.ancillaryFd
  /-- So was the output descriptor. -/
  output : ∀ i, (w.client i).stateFn ≠ none → 0 ≤ (w.client i).send.fd →
    w.holder (w.client i).send.fd = some (.controller i) ∧ (w.client i).send.fd ∉ (w.client i).recv.ancillaryFd
  /-- Nothing is left open: what belongs to a controller is named by it. -/
  named : ∀ fd i, w.holder fd = some (.controller i) → (w.client i).stateFn ≠ none ∧
    (fd = (w.client i).recv.fd ∨ fd = (w.client i).send.fd ∨ fd ∈ (w.client i).recv.ancillaryFd)
  /-- Every `read`, `write` and `close` so far was on a descriptor that belonged to the controller; as `close` takes it
  away, none was closed twice. -/
  calls : ∀ call ∈ w.sys, call.holder = some (.controller call.client)

theorem descriptorsOwned_of_owned {w : World n} (owned : Owned w) : DescriptorsOwned w := by
  have apart : ∀ i, ¬ Gone (w.client i) → _ := fun i present =>
    handles_nodup.mp (handlesIn_of_present present ▸ owned.owned.once i)
  refine ⟨fun i allocated used => ?_, fun i allocated used => ?_, fun fd i held => ?_, owned.owned.calls⟩
  · refine ⟨(owned.owned.holds _ i).mpr (owned.recv_mem allocated used), ?_⟩
    exact (apart i (owned.present allocated (.inl used))).2.1 used
  · refine ⟨(owned.owned.holds _ i).mpr (owned.send_mem allocated (by omega)).2, ?_⟩
    exact (apart i (owned.present allocated (.inr used))).2.2 used
  · have mem := (owned.owned.holds fd i).mp held
    rw [handlesIn] at mem
    split at mem
    · cases mem
    · rename_i present
      rw [mem_handles] at mem
      exact ⟨fun free => present (.inl free), mem.imp And.right (Or.imp_left And.right)⟩

/-- In a run of manageable events the controllers own their descriptors. -/
theorem descriptors_owned {standard : ℕ} {events : List (CtlEvent n)} {w : World n}
    (reached : exec? ctlStep (World.init n standard) events = some w)
    (manageable : Along? ctlStep Manageable (World.init n standard) events) : DescriptorsOwned w := by
  apply descriptorsOwned_of_owned
  apply exec?_preserves_along (I := Owned) _ (owned_init standard) reached manageable
  exact fun w event w' manageable owned step => ctlStep_owned owned manageable step

/-- A client on a control socket passes a descriptor and runs a command, while a controller with a pipe in each
direction comes to the end of its input; the number that this frees is used again. -/
theorem descriptors_owned_client_and_pipe : ∃ w, exec? ctlStep (World.init 2 3) [.new 0 1 false true false,
      .accept true true, .read 1 (.data 101 (bytesOf "cho\ta\n") 1) [], .iterate 1 idle false fun _ => [],
      .read 0 .eof [], .openOther, .iterate 1 idle false fun _ => [], .output 1 fun _ => [.accepted 9],
      .iterate 0 idle false fun _ => [], .iterate 0 idle false fun _ => []] = some w ∧ DescriptorsOwned w := by
  obtain ⟨w, reached, -⟩ := (Option.any_eq_true _ _).mp (show (exec? ctlStep (World.init 2 3) [
      .new 0 1 false true false, .accept true true, .read 1 (.data 101 (bytesOf "cho\ta\n") 1) [],
      .iterate 1 idle false fun _ => [], .read 0 .eof [], .openOther, .iterate 1 idle false fun _ => [],
      .output 1 fun _ => [.accepted 9], .iterate 0 idle false fun _ => [], .iterate 0 idle false fun _ => []]).any
    (fun _ => true) = true by decide +kernel)
  exact ⟨w, reached, descriptors_owned reached (by decide +kernel)⟩

/-- A client on a control socket sends `exit`: its descriptor 3 is closed on the input side only. The number is used
again before the controller closes its output side, and with it a descriptor that belongs to something else. -/
theorem exit_closes_reused_number : (exec? ctlStep (World.init 1 3) [.accept true true,
      .read 0 (.data 101 (bytesOf "xit\n") 0) [], .iterate 0 idle false fun _ => [],
      .iterate 0 idle false fun _ => []]).any (fun w => decide ((w.client 0).recv.fd = -1 ∧
        (w.client 0).send.fd = 3 ∧ w.holder 3 = none)) ∧
    (exec? ctlStep (World.init 1 3) [.accept true true, .read 0 (.data 101 (bytesOf "xit\n") 0) [],
      .iterate 0 idle false fun _ => [], .iterate 0 idle false fun _ => [], .openOther,
      .iterate 0 idle false fun _ => []]).any (fun w => w.sys.any fun call => decide (call.op = .close ∧
        call.client = 0 ∧ call.fd = 3 ∧ call.holder = some .other)) := by
  decide +kernel

/-! ## Starting a service -/

/-- `svc_do_fork` does not follow a null pointer, and leaves everything as it was when it returns false. -/
def FailsCleanly (uses : ControlUses) (socketpair nonblock fork : Bool) (w : World n) : Prop :=
  Ends (svcDoForkControl uses socketpair nonblock fork) w fun started w' => started = false → Untouched w w'

/-- The start of a service fails cleanly if it uses no control socket, or if there is a free controller and the socket
can be made; without the socket, only if descriptor 0 is not open. -/
theorem start_fails_cleanly_iff (uses : ControlUses) (socketpair nonblock fork : Bool) (w : World n) :
    FailsCleanly uses socketpair nonblock fork w ↔ ((uses.socket || uses.event || uses.cmd) = true →
      (∃ i, (w.client i).stateFn = none) ∧ (socketpair = true ∧ nonblock = true ∨ w.holder 0 = none)) := by
  cases wanted : uses.socket || uses.event || uses.cmd with
  | false =>
    refine iff_of_true ?_ (by rintro ⟨⟩)
    rw [FailsCleanly, svcDoForkControl, wanted]
    have same : Untouched w w := ⟨fun _ => rfl, ⟨[], by simp, by simp, by rintro _ ⟨⟩⟩, fun _ => Iff.rfl⟩
    simp only [Bool.false_eq_true, if_false, ends_ite, svcDoForkFail, ends_pure]
    split
    · rintro ⟨⟩
    · exact fun _ => same
  | true =>
    constructor
    · rintro ⟨started, w', run, clean⟩ -
      have free : ∃ i, (w.client i).stateFn = none := by
        by_contra taken
        rw [svcDoForkControl_null wanted (not_exists.mp taken)] at run
        cases run
      obtain ⟨_, _, same, result, spec⟩ := svcDoForkControl_spec uses socketpair nonblock fork wanted free
      cases same.symm.trans run
      refine ⟨free, ?_⟩
      by_cases made : socketpair = true ∧ nonblock = true
      · exact .inl made
      · have failed : started = false := by
          rw [result]
          simp only [Bool.and_eq_false_iff]
          left
          simpa [or_iff_not_imp_left] using made
        exact (spec failed).mp (clean failed)
    · intro condition
      obtain ⟨free, safe⟩ := condition rfl
      refine (svcDoForkControl_spec uses socketpair nonblock fork wanted free).mono fun started w' result failed => ?_
      exact (result.2 failed).mpr safe

/-- `socketpair` fails, and descriptor 0 is closed with the zero-filled controller; making the socket nonblocking fails,
and our end of the pair is left open as well; there is no controller, and a null pointer is followed. -/
theorem start_failure_closes_zero : ((svcDoForkControl (n := 1) ⟨true, false, false⟩ false true true).run
      (World.init 1 3)).any (fun (started, w) => decide (started = false ∧ w.holder 0 = none)) ∧
    ((svcDoForkControl (n := 1) ⟨true, false, false⟩ true false true).run
      (World.init 1 3)).any (fun (started, w) => decide (started = false ∧ w.holder 0 = none ∧ w.holder 3 = some .other)) ∧
    ((svcDoForkControl (n := 0) ⟨true, false, false⟩ true true true).run (World.init 0 3)).isNone ∧
    (World.init 1 3).holder 0 = some .other ∧ (World.init 1 3).holder 3 = none := by
  decide +kernel

end DaemonProxy.Soundness
