import Mathlib.Data.List.Infix

/-! # Runs of a deterministic labelled machine

A label carries the input of one step together with every answer the environment gives during
it, so a step is a function. `exec` is the state after a finite sequence of labels, and
`Along` says that each label of the sequence meets a condition on itself and on the state it is
taken from. An invariant that such steps preserve holds after every prefix of the run. The last
section has the same for steps that may fail, where an invariant also keeps the run from failing.
-/

namespace DaemonProxy.Lib

variable {σ ε : Type*} {step : σ → ε → σ}

/-- The state reached by a finite sequence of labels. -/
def exec (step : σ → ε → σ) (s : σ) (es : List ε) : σ := es.foldl step s

@[simp] theorem exec_nil (s : σ) : exec step s [] = s := rfl

@[simp] theorem exec_cons (s : σ) (e : ε) (es : List ε) : exec step s (e :: es) = exec step (step s e) es := rfl

theorem exec_append (s : σ) (first second : List ε) :
    exec step s (first ++ second) = exec step (exec step s first) second := List.foldl_append

/-- Every step of the run meets `allowed` in the state it is taken from. -/
def Along (step : σ → ε → σ) (allowed : σ → ε → Prop) : σ → List ε → Prop
  | _, [] => True
  | s, e :: es => allowed s e ∧ Along step allowed (step s e) es

instance instDecidableAlong {allowed : σ → ε → Prop} [∀ s e, Decidable (allowed s e)] :
    (s : σ) → (es : List ε) → Decidable (Along step allowed s es)
  | _, [] => isTrue trivial
  | s, e :: es =>
      @instDecidableAnd _ _ (inferInstanceAs (Decidable (allowed s e))) (instDecidableAlong (step s e) es)

variable {allowed : σ → ε → Prop}

theorem along_append (s : σ) (first second : List ε) :
    Along step allowed s (first ++ second) ↔
      Along step allowed s first ∧ Along step allowed (exec step s first) second := by
  induction first generalizing s with
  | nil => simp [Along]
  | cons e es ih => simp only [List.cons_append, Along, ih, exec_cons, and_assoc]

variable {s : σ} {before es : List ε}

theorem Along.of_prefix
    (along : Along step allowed s es) (leading : before <+: es) : Along step allowed s before := by
  obtain ⟨rest, rfl⟩ := leading
  exact ((along_append s before rest).mp along).1

theorem along_of_forall {allowed : ε → Prop} (all : ∀ e ∈ es, allowed e) :
    Along step (fun _ e => allowed e) s es := by
  induction es generalizing s with
  | nil => trivial
  | cons e es ih => exact ⟨all e List.mem_cons_self, ih fun other member => all other (List.mem_cons_of_mem _ member)⟩

variable {Inv : σ → Prop}

/-- What every allowed step preserves holds at the end of a run of allowed steps. -/
theorem exec_invariant
    (preserved : ∀ s e, Inv s → allowed s e → Inv (step s e)) (initial : Inv s) (along : Along step allowed s es) :
    Inv (exec step s es) := by
  induction es generalizing s with
  | nil => exact initial
  | cons e es ih => exact ih (preserved s e initial along.1) along.2

/-- The invariant holds in every state reached on the way, not only in the last one. -/
theorem exec_invariant_prefix
    (preserved : ∀ s e, Inv s → allowed s e → Inv (step s e)) (initial : Inv s) (along : Along step allowed s es) (leading : before <+: es) : Inv (exec step s before) :=
  exec_invariant preserved initial (along.of_prefix leading)

/-! ## Steps that may fail -/

section Partial

variable {step? : σ → ε → Option σ}

/-- The state reached by a finite sequence of labels, if no step fails. -/
def exec? (step? : σ → ε → Option σ) (s : σ) (es : List ε) : Option σ := es.foldlM step? s

/-- Every step of the run meets `allowed` in the state it is taken from, as far as the run goes. -/
def Along? (step? : σ → ε → Option σ) (allowed : σ → ε → Prop) : σ → List ε → Prop
  | _, [] => True
  | s, e :: es => allowed s e ∧ ∀ s' ∈ step? s e, Along? step? allowed s' es

instance instDecidableAlong? {allowed : σ → ε → Prop} [∀ s e, Decidable (allowed s e)] :
    (s : σ) → (es : List ε) → Decidable (Along? step? allowed s es)
  | _, [] => isTrue trivial
  | s, e :: es =>
      let tail : Decidable (∀ s' ∈ step? s e, Along? step? allowed s' es) :=
        match step? s e with
        | none => isTrue nofun
        | some s' =>
            match instDecidableAlong? s' es with
            | isTrue along => isTrue fun _ same => Option.some.inj same ▸ along
            | isFalse stops => isFalse fun all => stops (all s' rfl)
      @instDecidableAnd _ _ (inferInstanceAs (Decidable (allowed s e))) tail

theorem exec?_append {middle : σ} (run : exec? step? s es = some middle) (later : List ε) :
    exec? step? s (es ++ later) = exec? step? middle later := by
  rw [exec?, exec?, List.foldlM_append, ← exec?, run]
  rfl

theorem Along?.of_prefix
    (along : Along? step? allowed s es) (leading : before <+: es) : Along? step? allowed s before := by
  induction before generalizing s es with
  | nil => trivial
  | cons e before ih =>
    obtain ⟨rest, rfl⟩ := leading
    exact ⟨along.1, fun s' next => ih (along.2 s' next) (List.prefix_append ..)⟩

theorem along?_of_forall {allowed : ε → Prop} (all : ∀ e ∈ es, allowed e) :
    Along? step? (fun _ e => allowed e) s es := by
  induction es generalizing s with
  | nil => trivial
  | cons e es ih =>
    exact ⟨all e List.mem_cons_self, fun s' _ => ih fun other member => all other (List.mem_cons_of_mem _ member)⟩

/-- If allowed steps from the invariant do not fail and preserve it, no run of allowed steps fails. -/
theorem exec?_invariant
    (preserved : ∀ s e, Inv s → allowed s e → ∃ s', step? s e = some s' ∧ Inv s') (initial : Inv s) (along : Along? step? allowed s es) :
    ∃ s', exec? step? s es = some s' ∧ Inv s' := by
  induction es generalizing s with
  | nil => exact ⟨s, rfl, initial⟩
  | cons e es ih =>
    obtain ⟨middle, first, inv⟩ := preserved s e initial along.1
    obtain ⟨final, rest, inv'⟩ := ih inv (along.2 middle first)
    refine ⟨final, ?_, inv'⟩
    simpa only [exec?, List.foldlM_cons, first, Option.bind_eq_bind, Option.bind_some] using rest

variable {final : σ}

/-- What the allowed steps that do not fail preserve holds at the end of a run of allowed steps. -/
theorem exec?_preserves_along {I : σ → Prop}
    (preserved : ∀ s e s', allowed s e → I s → step? s e = some s' → I s') (initial : I s)
    (run : exec? step? s es = some final) (along : Along? step? allowed s es) : I final := by
  induction es generalizing s with
  | nil =>
    obtain rfl := Option.some.inj run
    exact initial
  | cons e es ih =>
    rw [exec?, List.foldlM_cons, Option.bind_eq_bind, Option.bind_eq_some_iff] at run
    obtain ⟨middle, first, rest⟩ := run
    exact ih (preserved s e middle along.1 initial first) rest (along.2 middle first)

/-- What the steps that do not fail preserve holds at the end of a run. -/
theorem exec?_preserves {I : σ → Prop} (preserved : ∀ s e s', I s → step? s e = some s' → I s')
    (initial : I s) (run : exec? step? s es = some final) : I final := by
  have along : Along? step? (fun _ _ => True) s es := along?_of_forall fun _ _ => trivial
  exact exec?_preserves_along (fun s e s' _ => preserved s e s') initial run along

/-- Up to its last step, a run that ends is one that ends. -/
theorem exec?_concat {e : ε} :
    exec? step? s (es ++ [e]) = some final ↔ ∃ middle, exec? step? s es = some middle ∧ step? middle e = some final := by
  simp only [exec?, List.foldlM_append, List.foldlM_cons, List.foldlM_nil, Option.bind_eq_bind, Option.bind_eq_some_iff,
    Option.pure_def, Option.some.injEq, exists_eq_right]

theorem exec?_leading (run : exec? step? s es = some final) (leading : before <+: es) :
    ∃ middle, exec? step? s before = some middle := by
  obtain ⟨rest, rfl⟩ := leading
  rw [exec?, List.foldlM_append, Option.bind_eq_bind, Option.bind_eq_some_iff] at run
  obtain ⟨middle, first, -⟩ := run
  exact ⟨middle, first⟩

/-- The states around one step of a run. -/
theorem exec?_around {after : List ε} {e : ε} (run : exec? step? s (before ++ e :: after) = some final) :
    ∃ middle next, exec? step? s before = some middle ∧ step? middle e = some next := by
  have leading : before ++ [e] <+: before ++ e :: after := ⟨after, List.append_assoc ..⟩
  obtain ⟨next, reached⟩ := exec?_leading run leading
  obtain ⟨middle, first, last⟩ := exec?_concat.mp reached
  exact ⟨middle, next, first, last⟩

/-- A step of a run of allowed steps is allowed. -/
theorem Along?.allowed_at {middle : σ} {after : List ε} {e : ε}
    (along : Along? step? allowed s (before ++ e :: after)) (run : exec? step? s before = some middle) : allowed middle e := by
  induction before generalizing s with
  | nil =>
    obtain rfl := Option.some.inj run
    exact along.1
  | cons first before ih =>
    rw [exec?, List.foldlM_cons, Option.bind_eq_bind, Option.bind_eq_some_iff] at run
    obtain ⟨s', step, rest⟩ := run
    exact ih (along.2 s' step) rest

end Partial

end DaemonProxy.Lib
