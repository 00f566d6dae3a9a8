import DaemonProxy.Proofs.HeapVars
import DaemonProxy.Soundness.ServiceVars

/-! # Variables on the heap

The variables of a service that is not in a pool are a map from names to strings, whether or not `realloc` succeeds, as long
as the size of an entry that is added can be counted by an `int`.
-/

namespace DaemonProxy.Soundness

open Lib Model Model.Bytewise Proofs

/-- A call with a string, for which `realloc` fails or gives a block apart from the service, and whose entry fits. -/
structure HeapAllowed (svc : ℕ) (s : HeapState) (call : HeapCall) : Prop where
  string : StringCall call
  block : BlockApart svc s call
  fits : EntryFits s call

/-- The variables are the map of the values that were set last, and take just the bytes that they need. -/
structure StoreIsMap (svc : ℕ) (s : HeapState) : Prop where
  values : ∀ name ∈ varNames, Bytewise.svcGetVar svc name s.mem = s.last name
  len : (svcVars svc s.mem).len = ∑ name ∈ varNames, entrySize name (s.last name)
  ends : (svcVars svc s.mem).len ≠ 0 → s.mem ((svcVars svc s.mem).data + ((svcVars svc s.mem).len.toNat - 1)) = 0

/-- A service that was just constructed on the heap. -/
def heapInit (svc : ℕ) (name : Bytes) (index : OtherWrites svc) (m₀ : Memory) : HeapState :=
  ⟨Bytewise.svcCtor (.heap none) svc name index m₀, fun _ => none⟩

theorem heapInit_vars {svc : ℕ} {name : Bytes} {index : OtherWrites svc} {m₀ : Memory} (valid : svcCheckName name = true) :
    VarsAt svc 0 [] (heapInit svc name index m₀).mem := by
  have short : name.length < 32 := (of_decide_eq_true valid).1
  rw [heapInit]
  exact svcCtor_heap none short

theorem storeIsMap_of_inv {svc : ℕ} {s : HeapState} (inv : HeapInv svc s) : StoreIsMap svc s := by
  obtain ⟨⟨a, packed, at', -, stores⟩, known⟩ := inv
  refine ⟨fun name _ => svcGetVar_stores at' stores name, ?_, ?_⟩
  · rw [at'.vars, stores.length known]
  · rw [at'.vars]
    intro nonempty
    rcases at'.terminated with rfl | ⟨front, rfl⟩
    · exact absurd rfl nonempty
    · have last : [s.mem (a + front.length + 0)] = [0] := (Memory.holds_append.mp at'.holds).2
      rw [Int.toNat_natCast, List.length_append, List.length_singleton, Nat.add_sub_cancel]
      exact List.head_eq_of_cons_eq last

/-- In every run of calls that are allowed, the variables are a map in every state on the way. -/
theorem heap_vars_map {svc : ℕ} {name : Bytes} {index : OtherWrites svc} {m₀ : Memory} (valid : svcCheckName name = true)
    {calls : List HeapCall} (along : Along (heapStep svc) (HeapAllowed svc) (heapInit svc name index m₀) calls)
    {before : List HeapCall} (leading : before <+: calls) :
    StoreIsMap svc (exec (heapStep svc) (heapInit svc name index m₀) before) := by
  apply storeIsMap_of_inv
  apply exec_invariant_prefix _ _ along leading
  · intro s call inv allowed
    exact inv.step allowed.string allowed.block allowed.fits
  · exact ⟨⟨0, [], heapInit_vars valid, .inl (Nat.zero_le _), stores_nil⟩, fun _ set => absurd rfl set⟩

/-- A variable is set, a second one is not for lack of memory, and then the first is set again. -/
def threeCalls : List HeapCall :=
  [⟨bytesOf "tags", some (bytesOf "a"), some 8192⟩, ⟨bytesOf "args", some (bytesOf "/bin/true"), none⟩,
    ⟨bytesOf "tags", some [], none⟩]

theorem heap_vars_map_three :
    StoreIsMap 4096 (exec (heapStep 4096) (heapInit 4096 (bytesOf "svc") (noWrites 4096) fun _ => 7) threeCalls) := by
  have along : Along (heapStep 4096) (HeapAllowed 4096) (heapInit 4096 (bytesOf "svc") (noWrites 4096) fun _ => 7) threeCalls := by
    refine ⟨⟨?_, ?_, ?_⟩, ⟨?_, ?_, ?_⟩, ⟨?_, ?_, ?_⟩, trivial⟩
    · exact ⟨by decide, by decide, by decide⟩
    · rintro _ ⟨⟩
      exact ⟨by unfold Beside; decide +kernel, by decide +kernel⟩
    · exact fun _ => by decide
    · exact ⟨by decide, by decide, by decide⟩
    · exact nofun
    · exact fun _ => by decide
    · exact ⟨by decide, by decide, by decide⟩
    · exact nofun
    · exact fun _ => by decide
  exact heap_vars_map (by decide) along List.prefix_rfl

/-- The size of the entry wraps to a negative number: nothing is allocated, and `vars.len` becomes negative. -/
theorem svcSetVar_wraps {svc : ℕ} {m : Memory} (empty : VarsAt svc 0 [] m) (far : 2 ^ 32 ≤ svc) {text : Bytes}
    (length : text.length = 2147483642) :
    ∃ m', svcSetVar (.heap none) svc (bytesOf "tags") (some text) m = some m' ∧ (svcVars svc m').len = -2147483648 := by
  have vars : svcVars svc m = ⟨0, 0⟩ := empty.vars
  have sizediff : varSizeDiff (bytesOf "tags") (some text) none = -2147483648 := by
    unfold varSizeDiff
    dsimp only
    rw [length]
    decide
  have shrinks : varSizeDiff (bytesOf "tags") (some text) none ≤ 0 := by
    rw [sizediff]
    decide
  have added : (addedEntry (bytesOf "tags") (some text)).length = 2147483648 := by
    rw [length_addedEntry, length]
    rfl
  have set : svcSetVar (.heap none) svc (bytesOf "tags") (some text) m =
      some ((withLen svc ((svcVars svc m).len + varSizeDiff (bytesOf "tags") (some text) none) m).splice 0 0
        (addedEntry (bytesOf "tags") (some text)) 0) := by
    have found : findVar m (bytesOf "tags") (svcVars svc m).len.toNat (svcVars svc m) = (none, ⟨0, 0⟩) := by
      rw [vars]
      rfl
    unfold Bytewise.svcSetVar
    dsimp only
    rw [found, varRoom_shrinks shrinks, Option.map_some, vars]
    have put : putVar svc (bytesOf "tags") (some text) none ⟨0, 0⟩ (varSizeDiff (bytesOf "tags") (some text) none) m = _ :=
      putVar_added
    rw [vars] at put
    exact congrArg some put
  refine ⟨_, set, ?_⟩
  rw [svcVars_congr fun x above below => Memory.splice_outside (.inr (by rw [added]; omega)), vars, sizediff]
  simp only [svcVars, withLen, offset_vars, segLen]
  rw [show ((0 + -2147483648 : ℤ) % 4294967296).toNat = 2147483648 from rfl, Memory.load_store (by decide)]
  decide

/-- A value of 2147483642 bytes: the call returns true, and the value is not there. -/
theorem huge_value_lost :
    ∃ text m', text.length = 2147483642 ∧ 0 ∉ text ∧
      svcSetVar (.heap none) (2 ^ 40) (bytesOf "tags") (some text)
        (heapInit (2 ^ 40) (bytesOf "svc") (noWrites (2 ^ 40)) fun _ => 7).mem = some m' ∧
      Bytewise.svcGetVar (2 ^ 40) (bytesOf "tags") m' = none ∧ (svcVars (2 ^ 40) m').len < 0 := by
  have valid : svcCheckName (bytesOf "svc") = true := by decide
  obtain ⟨text, length, noNul⟩ : ∃ text : Bytes, text.length = 2147483642 ∧ 0 ∉ text :=
    ⟨List.replicate 2147483642 97, List.length_replicate, fun zero => absurd (List.eq_of_mem_replicate zero) (by decide)⟩
  have constructed : VarsAt (2 ^ 40) 0 [] (heapInit (2 ^ 40) (bytesOf "svc") (noWrites (2 ^ 40)) fun _ => 7).mem :=
    heapInit_vars valid
  have far : 2 ^ 32 ≤ 2 ^ 40 := by decide
  obtain ⟨m', set, negative⟩ := svcSetVar_wraps constructed far length
  refine ⟨text, m', length, noNul, set, ?_, ?_⟩
  · unfold Bytewise.svcGetVar
    dsimp only
    rw [negative]
    rfl
  · rw [negative]
    decide

end DaemonProxy.Soundness
