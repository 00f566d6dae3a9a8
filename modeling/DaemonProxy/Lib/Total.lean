import Mathlib.Data.Nat.Notation

/-! # Total correctness of programs with a state that may fail

A program is a `StateT σ Option`. `Ends m s post` says that `m`, started in `s`, ends without
failing in a result and a state that satisfy `post`; read as a function of `s` it is the weakest
precondition of `post`, and the equivalences below push it through a program from the front. A
`while` loop runs on a fuel argument: `Ends.loop` gives the result for every sufficient amount.
-/

namespace DaemonProxy.Lib

universe u

variable {σ α β : Type u}

/-- The program ends from `s`, with a result and a state that satisfy `post`. -/
def Ends (m : StateT σ Option α) (s : σ) (post : α → σ → Prop) : Prop :=
  ∃ a s', m.run s = some (a, s') ∧ post a s'

section Rules

variable {s : σ} {post : β → σ → Prop}

@[simp] theorem ends_pure (b : β) : Ends (pure b : StateT σ Option β) s post ↔ post b s := by
  simp only [Ends, StateT.run_pure, Option.pure_def, Option.some.injEq, Prod.mk.injEq]
  constructor
  · rintro ⟨_, _, ⟨rfl, rfl⟩, holds⟩
    exact holds
  · intro holds
    exact ⟨b, s, ⟨rfl, rfl⟩, holds⟩

@[simp] theorem ends_bind (m : StateT σ Option α) (f : α → StateT σ Option β) :
    Ends (m >>= f) s post ↔ Ends m s fun a s' => Ends (f a) s' post := by
  simp only [Ends, StateT.run_bind, Option.bind_eq_bind, Option.bind_eq_some_iff, Prod.exists]
  constructor
  · rintro ⟨b, final, ⟨a, middle, first, second⟩, holds⟩
    exact ⟨a, middle, first, b, final, second, holds⟩
  · rintro ⟨a, middle, first, b, final, second, holds⟩
    exact ⟨b, final, ⟨a, middle, first, second⟩, holds⟩

theorem ends_ite (c : Prop) [Decidable c] (m n : StateT σ Option β) :
    Ends (if c then m else n) s post ↔ if c then Ends m s post else Ends n s post := by
  split <;> rfl

theorem ends_failure : Ends (failure : StateT σ Option β) s post ↔ False := by
  constructor
  · rintro ⟨_, _, run, -⟩
    cases run
  · exact False.elim

/-- A program that is known to end in a state does so with every postcondition that it satisfies. -/
theorem Ends.at_state {m : StateT σ Option β} {s' : σ} (ends : Ends m s post) (result : (m.run s).map Prod.snd = some s') :
    ∃ b, post b s' := by
  obtain ⟨b, s'', run, holds⟩ := ends
  rw [run] at result
  cases result
  exact ⟨b, holds⟩

theorem Ends.mono {m : StateT σ Option β} {weaker : β → σ → Prop} (ends : Ends m s post)
    (imp : ∀ b s', post b s' → weaker b s') : Ends m s weaker := by
  obtain ⟨b, s', run, holds⟩ := ends
  exact ⟨b, s', run, imp b s' holds⟩

/-- A program ends in one result and one state only. -/
theorem Ends.and {m : StateT σ Option β} {other : β → σ → Prop} (first : Ends m s post) (second : Ends m s other) :
    Ends m s fun b s' => post b s' ∧ other b s' := by
  obtain ⟨b, s', run, holds⟩ := first
  obtain ⟨b', s'', run', holds'⟩ := second
  cases run.symm.trans run'
  exact ⟨b, s', run, holds, holds'⟩

end Rules

section States

variable {τ : Type u} {s : σ}

@[simp] theorem ends_get {post : σ → σ → Prop} : Ends (get : StateT σ Option σ) s post ↔ post s s := by
  constructor
  · rintro ⟨_, _, run, holds⟩
    cases run
    exact holds
  · exact fun holds => ⟨s, s, rfl, holds⟩

@[simp] theorem ends_modify {f : σ → σ} {post : PUnit → σ → Prop} :
    Ends (modify f : StateT σ Option PUnit) s post ↔ post ⟨⟩ (f s) := by
  constructor
  · rintro ⟨_, _, run, holds⟩
    cases run
    exact holds
  · exact fun holds => ⟨⟨⟩, f s, rfl, holds⟩

/-- A program on a part of the state. -/
def zoom (part : τ → σ) (replace : σ → τ → τ) (m : StateT σ Option α) : StateT τ Option α :=
  fun t => (m.run (part t)).map fun result => (result.1, replace result.2 t)

@[simp] theorem ends_zoom {part : τ → σ} {replace : σ → τ → τ} {m : StateT σ Option α} {t : τ} {post : α → τ → Prop} :
    Ends (zoom part replace m) t post ↔ Ends m (part t) fun a s' => post a (replace s' t) := by
  simp only [Ends, zoom, StateT.run, Option.map_eq_some_iff, Prod.exists, Prod.mk.injEq]
  constructor
  · rintro ⟨a, t', ⟨b, s', run, rfl, rfl⟩, holds⟩
    exact ⟨b, s', run, holds⟩
  · rintro ⟨a, s', run, holds⟩
    exact ⟨a, _, ⟨a, s', run, rfl, rfl⟩, holds⟩

end States

/-! ## Partial correctness -/

section Partial

variable {s : σ} {post : β → σ → Prop}

/-- Where the program ends, its result and its state satisfy `post`. -/
def Ensures (m : StateT σ Option β) (s : σ) (post : β → σ → Prop) : Prop := ∀ b s', m.run s = some (b, s') → post b s'

theorem Ends.ensures {m : StateT σ Option β} (ends : Ends m s post) : Ensures m s post := by
  intro b s' run
  obtain ⟨_, _, run', holds⟩ := ends
  cases run.symm.trans run'
  exact holds

theorem Ensures.mono {m : StateT σ Option β} {weaker : β → σ → Prop} (ensures : Ensures m s post)
    (imp : ∀ b s', post b s' → weaker b s') : Ensures m s weaker := fun b s' run => imp b s' (ensures b s' run)

variable {m : StateT σ Option α} {f : α → StateT σ Option β}

theorem Ensures.bind {middle : α → σ → Prop}
    (first : Ensures m s middle) (second : ∀ a s', middle a s' → Ensures (f a) s' post) : Ensures (m >>= f) s post := by
  intro b final run
  rw [StateT.run_bind, Option.bind_eq_bind, Option.bind_eq_some_iff] at run
  obtain ⟨⟨a, s'⟩, run₁, run₂⟩ := run
  exact second a s' (first a s' run₁) b final run₂

/-- What is said of the second program does not depend on the first. -/
theorem Ensures.any_bind (second : ∀ a s', Ensures (f a) s' post) :
    Ensures (m >>= f) s post :=
  Ensures.bind (show Ensures m s fun _ _ => True from fun _ _ _ => trivial) fun a s' _ => second a s'

theorem Ensures.get_bind {f : σ → StateT σ Option β} (ensures : Ensures (f s) s post) : Ensures (get >>= f) s post := ensures

theorem Ensures.modify_bind {f : σ → σ} {rest : PUnit → StateT σ Option β} (ensures : Ensures (rest ⟨⟩) (f s) post) :
    Ensures (modify f >>= rest) s post := ensures

theorem ensures_modify {f : σ → σ} {post : PUnit → σ → Prop} (holds : post ⟨⟩ (f s)) :
    Ensures (modify f : StateT σ Option PUnit) s post := (ends_modify.mpr holds).ensures

theorem ensures_pure {b : β} (holds : post b s) : Ensures (pure b : StateT σ Option β) s post :=
  ((ends_pure b).mpr holds).ensures

theorem ensures_failure : Ensures (failure : StateT σ Option β) s post := nofun

/-- Where `m` ends, `m'` ends alike. -/
def Covers (m m' : StateT σ Option β) : Prop := ∀ s result, m.run s = some result → m'.run s = some result

theorem Covers.refl (m : StateT σ Option β) : Covers m m := fun _ _ run => run

theorem Covers.bind {m' : StateT σ Option α} {f' : α → StateT σ Option β} (first : Covers m m')
    (second : ∀ a, Covers (f a) (f' a)) : Covers (m >>= f) (m' >>= f') := by
  intro s result run
  simp only [StateT.run_bind, Option.bind_eq_bind, Option.bind_eq_some_iff] at run ⊢
  obtain ⟨⟨a, s'⟩, run₁, run₂⟩ := run
  exact ⟨⟨a, s'⟩, first _ _ run₁, second a _ _ run₂⟩

theorem Covers.ensures {m m' : StateT σ Option β} (covers : Covers m m') (ends : Ends m' s post) : Ensures m s post :=
  fun b s' run => ends.ensures b s' (covers s (b, s') run)

theorem Ensures.zoom {τ : Type u} {part : τ → σ} {replace : σ → τ → τ} {t : τ} {post : α → τ → Prop}
    (ensures : Ensures m (part t) fun a s' => post a (replace s' t)) : Ensures (Lib.zoom part replace m) t post := by
  intro a t' run
  obtain ⟨⟨b, s'⟩, run', same⟩ := Option.map_eq_some_iff.mp run
  cases same
  exact ensures b s' run'

end Partial

/-- `while (1) body`, where the body either goes on with a new loop state or leaves with a result. -/
def loop (body : α → StateT σ Option (α ⊕ β)) : ℕ → α → StateT σ Option β
  | 0, _ => failure
  | fuel + 1, a => do
      match ← body a with
      | .inl next => loop body fuel next
      | .inr result => pure result

variable {body : α → StateT σ Option (α ⊕ β)} {post : β → σ → Prop}

theorem ends_loop_succ {fuel : ℕ} {a : α} {s : σ} :
    Ends (loop body (fuel + 1) a) s post ↔ Ends (body a) s fun outcome s' =>
      outcome.elim (fun next => Ends (loop body fuel next) s' post) (fun result => post result s') := by
  rw [loop, ends_bind]
  constructor
  · refine fun ends => ends.mono fun outcome s' holds => ?_
    cases outcome with
    | inl next => exact holds
    | inr result => exact (ends_pure result).mp holds
  · refine fun ends => ends.mono fun outcome s' holds => ?_
    cases outcome with
    | inl next => exact holds
    | inr result => exact (ends_pure result).mpr holds

/-! ## Programs that only read -/

/-- The program leaves the state as it is. -/
structure Peeks (m : StateT σ Option α) : Prop where
  ensures : ∀ s, Ensures m s fun _ s' => s' = s

namespace Peeks

theorem pure (a : α) : Peeks (pure a : StateT σ Option α) := ⟨fun _ => ensures_pure rfl⟩

variable {m : StateT σ Option α}

theorem bind {f : α → StateT σ Option β} (first : Peeks m) (second : ∀ a, Peeks (f a)) :
    Peeks (m >>= f) := by
  refine ⟨fun s => (first.ensures s).bind ?_⟩
  rintro a _ rfl
  exact (second a).ensures _

theorem get : Peeks (get : StateT σ Option σ) := by
  constructor
  intro s result s' run
  cases run
  rfl

theorem ite {c : Prop} [Decidable c] {m' : StateT σ Option α} (first : Peeks m) (second : Peeks m') :
    Peeks (if c then m else m') := by
  split
  · exact first
  · exact second

theorem failure : Peeks (failure : StateT σ Option α) := ⟨fun _ => ensures_failure⟩

theorem loop (round : ∀ a, Peeks (body a)) (fuel : ℕ) (a : α) :
    Peeks (Lib.loop body fuel a) := by
  induction fuel generalizing a with
  | zero => exact failure
  | succ fuel ih =>
    refine bind (round a) fun outcome => ?_
    cases outcome with
    | inl next => exact ih next
    | inr result => exact pure result

theorem zoom {τ : Type u} {part : τ → σ} {replace : σ → τ → τ} (peeks : Peeks m)
    (same : ∀ t, replace (part t) t = t) : Peeks (Lib.zoom part replace m) := by
  refine ⟨fun t => Ensures.zoom ((peeks.ensures (part t)).mono ?_)⟩
  rintro _ _ rfl
  exact same t

end Peeks

/-- One round of a loop: it leaves with `post`, or goes on under the invariant with a smaller variant. -/
def Round (Inv : ℕ → α → σ → Prop) (post : β → σ → Prop) (n : ℕ) : α ⊕ β → σ → Prop
  | .inl next, s => ∃ m < n, Inv m next s
  | .inr result, s => post result s

/-- A loop whose rounds decrease the variant ends, for any fuel above the variant. -/
theorem Ends.loop {Inv : ℕ → α → σ → Prop}
    (round : ∀ n a s, Inv n a s → Ends (body a) s (Round Inv post n)) {n : ℕ} {a : α} {s : σ}
    (inv : Inv n a s) {fuel : ℕ} (enough : n < fuel) : Ends (Lib.loop body fuel a) s post := by
  induction fuel generalizing n a s with
  | zero => omega
  | succ fuel ih =>
    rw [Lib.loop, ends_bind]
    refine (round n a s inv).mono fun outcome s' holds => ?_
    cases outcome with
    | inl next =>
      obtain ⟨m, smaller, again⟩ := holds
      exact ih again (by omega)
    | inr result => exact (ends_pure result).mpr holds

/-- An invariant of the rounds holds wherever the loop leaves. -/
theorem Ensures.loop {Inv : α → σ → Prop}
    (round : ∀ a s, Inv a s → Ensures (body a) s fun outcome s' => outcome.elim (Inv · s') (post · s')) {a : α} {s : σ}
    (inv : Inv a s) (fuel : ℕ) : Ensures (Lib.loop body fuel a) s post := by
  induction fuel generalizing a s with
  | zero => exact ensures_failure
  | succ fuel ih =>
    rw [Lib.loop]
    refine (round a s inv).bind fun outcome s' holds => ?_
    cases outcome with
    | inl next => exact ih holds
    | inr result => exact ensures_pure holds

end DaemonProxy.Lib
