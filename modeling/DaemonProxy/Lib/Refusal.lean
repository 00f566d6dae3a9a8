import DaemonProxy.Lib.Total

/-! # Programs that may refuse

A program over a state that may also end early, with an error. What it did to the state until then stays. `Settles` is
partial correctness with a postcondition for either end, and `Maintains` the special case of an invariant of the state.
`Finishes` is total correctness: the program also ends. `Succeeds` says that it ends with a result, as an equivalence for each step.
-/

namespace DaemonProxy.Lib

universe u

variable {σ ε α β : Type u}

/-- Where the program ends with a result, `post` holds, and where it refuses, `refused` does. -/
structure Settles (m : ExceptT ε (StateT σ Option) α) (s : σ) (post : α → σ → Prop) (refused : ε → σ → Prop) : Prop where
  ensures : Ensures m.run s fun result s' =>
    match result with
    | .ok a => post a s'
    | .error e => refused e s'

section Rules

variable {s : σ} {post : α → σ → Prop} {refused : ε → σ → Prop}

variable {m : ExceptT ε (StateT σ Option) α}

theorem Settles.mono {post' : α → σ → Prop} {refused' : ε → σ → Prop}
    (settles : Settles m s post refused) (imp : ∀ a s', post a s' → post' a s')
    (impRefused : ∀ e s', refused e s' → refused' e s') : Settles m s post' refused' := by
  refine ⟨settles.ensures.mono fun result s' holds => ?_⟩
  cases result with
  | ok a => exact imp a s' holds
  | error e => exact impRefused e s' holds

/-- A program settles in one way only. -/
theorem Settles.and {post' : α → σ → Prop} {refused' : ε → σ → Prop}
    (first : Settles m s post refused) (second : Settles m s post' refused') :
    Settles m s (fun a s' => post a s' ∧ post' a s') fun e s' => refused e s' ∧ refused' e s' := by
  refine ⟨fun result s' run => ?_⟩
  have holds := first.ensures result s' run
  have holds' := second.ensures result s' run
  cases result with
  | ok a => exact ⟨holds, holds'⟩
  | error e => exact ⟨holds, holds'⟩

theorem settles_pure (a : α) (holds : post a s) : Settles (pure a : ExceptT ε (StateT σ Option) α) s post refused := by
  constructor
  intro result s' run
  cases run
  exact holds

theorem settles_throw (e : ε) (holds : refused e s) : Settles (throw e : ExceptT ε (StateT σ Option) α) s post refused := by
  constructor
  intro result s' run
  cases run
  exact holds

theorem Settles.bind {f : α → ExceptT ε (StateT σ Option) β} {middle : α → σ → Prop}
    {post : β → σ → Prop} (first : Settles m s middle refused)
    (second : ∀ a s', middle a s' → Settles (f a) s' post refused) : Settles (m >>= f) s post refused := by
  refine ⟨first.ensures.bind fun result s' holds => ?_⟩
  cases result with
  | ok a => exact (second a s' holds).ensures
  | error e => exact (settles_throw e holds).ensures

/-- A program that cannot refuse. -/
theorem settles_lift {m : StateT σ Option α} (ensures : Ensures m s post) :
    Settles (ExceptT.lift m : ExceptT ε (StateT σ Option) α) s post refused := by
  refine ⟨show Ensures (m >>= fun a => pure (Except.ok a)) s _ from ensures.bind fun a s' holds => ?_⟩
  intro result s'' run
  cases run
  exact holds

theorem Settles.get_bind {f : σ → ExceptT ε (StateT σ Option) β} {post : β → σ → Prop} (settles : Settles (f s) s post refused) :
    Settles (get >>= f) s post refused := ⟨settles.ensures⟩

theorem settles_modify {f : σ → σ} {post : PUnit → σ → Prop} (holds : post ⟨⟩ (f s)) :
    Settles (modify f : ExceptT ε (StateT σ Option) PUnit) s post refused := settles_lift (ends_modify.mpr holds).ensures

theorem Settles.modify_bind {f : σ → σ} {rest : PUnit → ExceptT ε (StateT σ Option) β} {post : β → σ → Prop}
    (settles : Settles (rest ⟨⟩) (f s) post refused) : Settles (modify f >>= rest) s post refused := ⟨settles.ensures⟩

/-- A run of a program settles as the program does. -/
theorem Settles.of_run (settles : Settles m s post refused) {result : Except ε α} {s' : σ}
    (run : m.run.run s = some (result, s')) : (∃ a, result = .ok a ∧ post a s') ∨ ∃ e, result = .error e ∧ refused e s' := by
  have holds := settles.ensures result s' run
  cases result with
  | ok a => exact .inl ⟨a, rfl, holds⟩
  | error e => exact .inr ⟨e, rfl, holds⟩

end Rules

/-! ## Total correctness -/

/-- The program ends with a result for which `post` holds, or refuses, and then `refused` does. -/
structure Finishes (m : ExceptT ε (StateT σ Option) α) (s : σ) (post : α → σ → Prop) (refused : ε → σ → Prop) : Prop where
  ends : Ends m.run s fun result s' =>
    match result with
    | .ok a => post a s'
    | .error e => refused e s'

section Total

variable {s : σ} {post : α → σ → Prop} {refused : ε → σ → Prop}

theorem Finishes.mono {m : ExceptT ε (StateT σ Option) α} {post' : α → σ → Prop} {refused' : ε → σ → Prop}
    (finishes : Finishes m s post refused) (imp : ∀ a s', post a s' → post' a s')
    (impRefused : ∀ e s', refused e s' → refused' e s') : Finishes m s post' refused' := by
  refine ⟨finishes.ends.mono fun result s' holds => ?_⟩
  cases result with
  | ok a => exact imp a s' holds
  | error e => exact impRefused e s' holds

theorem finishes_pure (a : α) (holds : post a s) : Finishes (pure a : ExceptT ε (StateT σ Option) α) s post refused :=
  ⟨.ok a, s, rfl, holds⟩

theorem finishes_throw (e : ε) (holds : refused e s) :
    Finishes (throw e : ExceptT ε (StateT σ Option) α) s post refused :=
  ⟨.error e, s, rfl, holds⟩

theorem Finishes.bind {m : ExceptT ε (StateT σ Option) α} {f : α → ExceptT ε (StateT σ Option) β} {middle : α → σ → Prop}
    {post : β → σ → Prop} (first : Finishes m s middle refused)
    (second : ∀ a s', middle a s' → Finishes (f a) s' post refused) : Finishes (m >>= f) s post refused := by
  refine ⟨(ends_bind m.run _).mpr (first.ends.mono fun result s' holds => ?_)⟩
  cases result with
  | ok a => exact (second a s' holds).ends
  | error e => exact (finishes_throw e holds).ends

theorem finishes_lift {m : StateT σ Option α} (ends : Ends m s post) :
    Finishes (ExceptT.lift m : ExceptT ε (StateT σ Option) α) s post refused := by
  obtain ⟨a, s', run, holds⟩ := ends
  refine ⟨.ok a, s', ?_, holds⟩
  show (m >>= fun a => pure (Except.ok a)).run s = _
  rw [StateT.run_bind, run]
  rfl

theorem Finishes.get_bind {f : σ → ExceptT ε (StateT σ Option) β} {post : β → σ → Prop}
    (finishes : Finishes (f s) s post refused) : Finishes (get >>= f) s post refused := ⟨finishes.ends⟩

theorem finishes_modify {f : σ → σ} {post : PUnit → σ → Prop} (holds : post ⟨⟩ (f s)) :
    Finishes (modify f : ExceptT ε (StateT σ Option) PUnit) s post refused := ⟨.ok ⟨⟩, f s, rfl, holds⟩

theorem Finishes.modify_bind {f : σ → σ} {rest : PUnit → ExceptT ε (StateT σ Option) β} {post : β → σ → Prop}
    (finishes : Finishes (rest ⟨⟩) (f s) post refused) : Finishes (modify f >>= rest) s post refused := ⟨finishes.ends⟩

theorem finishes_set {s₁ : σ} {post : PUnit → σ → Prop} (holds : post ⟨⟩ s₁) :
    Finishes (set s₁ : ExceptT ε (StateT σ Option) PUnit) s post refused := ⟨.ok ⟨⟩, s₁, rfl, holds⟩

end Total

/-! ## Acceptance -/

/-- The program ends with a result, for which `post` holds. -/
def Succeeds (m : ExceptT ε (StateT σ Option) α) (s : σ) (post : α → σ → Prop) : Prop :=
  ∃ a s', m.run.run s = some (.ok a, s') ∧ post a s'

section Acceptance

variable {s : σ} {post : α → σ → Prop}

@[simp] theorem succeeds_pure (a : α) : Succeeds (pure a : ExceptT ε (StateT σ Option) α) s post ↔ post a s := by
  constructor
  · rintro ⟨_, _, run, holds⟩
    cases run
    exact holds
  · exact fun holds => ⟨a, s, rfl, holds⟩

@[simp] theorem succeeds_throw (e : ε) : Succeeds (throw e : ExceptT ε (StateT σ Option) α) s post ↔ False := by
  constructor
  · rintro ⟨_, _, run, -⟩
    cases run
  · exact False.elim

@[simp] theorem succeeds_bind (m : ExceptT ε (StateT σ Option) α) (f : α → ExceptT ε (StateT σ Option) β) {post : β → σ → Prop} :
    Succeeds (m >>= f) s post ↔ Succeeds m s fun a s' => Succeeds (f a) s' post := by
  constructor
  · rintro ⟨b, final, run, holds⟩
    obtain ⟨⟨result, middle⟩, first, second⟩ := Option.bind_eq_some_iff.mp run
    cases result with
    | ok a => exact ⟨a, middle, first, b, final, second, holds⟩
    | error e => cases second
  · rintro ⟨a, middle, first, b, final, second, holds⟩
    exact ⟨b, final, Option.bind_eq_some_iff.mpr ⟨_, first, second⟩, holds⟩

theorem succeeds_ite (c : Prop) [Decidable c] (m n : ExceptT ε (StateT σ Option) α) :
    Succeeds (if c then m else n) s post ↔ if c then Succeeds m s post else Succeeds n s post := by
  split <;> rfl

@[simp] theorem succeeds_get {post : σ → σ → Prop} : Succeeds (get : ExceptT ε (StateT σ Option) σ) s post ↔ post s s := by
  constructor
  · rintro ⟨_, _, run, holds⟩
    cases run
    exact holds
  · exact fun holds => ⟨s, s, rfl, holds⟩

@[simp] theorem succeeds_modify {f : σ → σ} {post : PUnit → σ → Prop} :
    Succeeds (modify f : ExceptT ε (StateT σ Option) PUnit) s post ↔ post ⟨⟩ (f s) := by
  constructor
  · rintro ⟨_, _, run, holds⟩
    cases run
    exact holds
  · exact fun holds => ⟨⟨⟩, f s, rfl, holds⟩

theorem succeeds_lift {m : StateT σ Option α} : Succeeds (ExceptT.lift m : ExceptT ε (StateT σ Option) α) s post ↔ Ends m s post := by
  constructor
  · rintro ⟨a, s', run, holds⟩
    obtain ⟨⟨a', s''⟩, first, second⟩ := Option.bind_eq_some_iff.mp run
    cases second
    exact ⟨a, s', first, holds⟩
  · rintro ⟨a, s', run, holds⟩
    exact ⟨a, s', Option.bind_eq_some_iff.mpr ⟨_, run, rfl⟩, holds⟩

end Acceptance

/-! ## Invariants -/

/-- The program keeps an invariant of the state, whether it refuses or not. -/
def Maintains (I : σ → Prop) (m : ExceptT ε (StateT σ Option) α) : Prop := ∀ s, I s → Settles m s (fun _ => I) fun _ => I

namespace Maintains

variable {I : σ → Prop} {m : ExceptT ε (StateT σ Option) α}

theorem pure (a : α) : Maintains I (pure a : ExceptT ε (StateT σ Option) α) := fun _ holds => settles_pure a holds

theorem throw (e : ε) : Maintains I (throw e : ExceptT ε (StateT σ Option) α) := fun _ holds => settles_throw e holds

theorem bind {f : α → ExceptT ε (StateT σ Option) β} (first : Maintains I m) (second : ∀ a, Maintains I (f a)) :
    Maintains I (m >>= f) := fun s holds => (first s holds).bind fun a s' holds' => second a s' holds'

theorem get_bind {f : σ → ExceptT ε (StateT σ Option) β} (second : ∀ s, Maintains I (f s)) : Maintains I (get >>= f) :=
  fun s holds => (second s s holds).get_bind

theorem modify {f : σ → σ} (kept : ∀ s, I s → I (f s)) : Maintains I (modify f : ExceptT ε (StateT σ Option) PUnit) :=
  fun s holds => settles_modify (kept s holds)

theorem lift {m : StateT σ Option α} (kept : ∀ s, I s → Ensures m s fun _ => I) :
    Maintains I (ExceptT.lift m : ExceptT ε (StateT σ Option) α) := fun s holds => settles_lift (kept s holds)

end Maintains

end DaemonProxy.Lib
