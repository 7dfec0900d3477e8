import Mathlib.Tactic.Common

/-!
# Programs that write

A program performs operations on a store that it never reads, and ends with a result or an error.  What it
does is therefore a list of operations and an end (`Emit`), and a run on a store performs the operations one
after another (`replay`, `Emit.run`); an operation may fail as well.

An abstract state is driven along by the operations (`Chain`).  `Emit.Spec` says that the operations of a
program form such a chain, and what holds of its result and the state it ends in; there is one rule for each
way to build a program.  A relation between abstract states and stores that every step keeps is then kept by
every run (`Chain.replay`), and one between two stores by two runs side by side (`Chain.replay_two`).
-/

namespace Emission

variable {O E α β S D D' : Type}

/-- The operations of a program in order, and how it ends. -/
structure Emit (O E α : Type) where
  /-- The operations. -/
  ops : List O
  /-- The end. -/
  result : Except E α

/-- Sequencing. -/
def Emit.bind (m : Emit O E α) (f : α → Emit O E β) : Emit O E β :=
  match m.result with
  | .ok a => ⟨m.ops ++ (f a).ops, (f a).result⟩
  | .error e => ⟨m.ops, .error e⟩

instance : Monad (Emit O E) where
  pure a := ⟨[], .ok a⟩
  bind := .bind

/-- Perform an operation. -/
def emit (o : O) : Emit O E Unit := ⟨[o], .ok ()⟩

/-- End with an error. -/
def halt (e : E) : Emit O E α := ⟨[], .error e⟩

/-- Perform operations on a store, up to the first that fails. -/
def replay (exec : O → D → Except E D) : List O → D → Except E D
  | [], d => .ok d
  | o :: os, d =>
    match exec o d with
    | .ok d => replay exec os d
    | .error e => .error e

/-- The outcome of a run on a store. -/
def Emit.run (exec : O → D → Except E D) (m : Emit O E α) (d : D) : Except E (α × D) :=
  match replay exec m.ops d with
  | .ok d =>
    match m.result with
    | .ok a => .ok (a, d)
    | .error e => .error e
  | .error e => .error e

/-- The operations lead from one abstract state to another. -/
inductive Chain (step : S → O → S → Prop) : S → List O → S → Prop
  /-- No operation. -/
  | nil (s : S) : Chain step s [] s
  /-- One operation and the rest. -/
  | cons {s s' s'' : S} {o : O} {os : List O} (hstep : step s o s') (hrest : Chain step s' os s'') :
      Chain step s (o :: os) s''

/-- The operations of the program lead from the state `s` to one that satisfies `Q` with the result, or the
program ends with an error in `F`. -/
def Emit.Spec (step : S → O → S → Prop) (F : E → Prop) (m : Emit O E α) (s : S) (Q : α → S → Prop) :
    Prop :=
  ∃ s', Chain step s m.ops s' ∧
    match m.result with
    | .ok a => Q a s'
    | .error e => F e

section Rules

variable {step : S → O → S → Prop} {F : E → Prop} {s s' s'' : S} {ops ops' : List O}

lemma Chain.append (h : Chain step s ops s') (h' : Chain step s' ops' s'') :
    Chain step s (ops ++ ops') s'' := by
  induction h with
  | nil => exact h'
  | cons hstep _ ih => exact .cons hstep (ih h')

lemma Chain.of_step {step' : S → O → S → Prop} (hchain : Chain step s ops s')
    (h : ∀ s o s', step s o s' → step' s o s') : Chain step' s ops s' := by
  induction hchain with
  | nil s => exact .nil s
  | cons hstep _ ih => exact .cons (h _ _ _ hstep) ih

lemma Chain.exists_append (h : Chain step s (ops ++ ops') s'') :
    ∃ s', Chain step s ops s' ∧ Chain step s' ops' s'' := by
  induction ops generalizing s with
  | nil => exact ⟨s, .nil s, h⟩
  | cons o os ih =>
    cases h with
    | cons hstep hrest =>
      obtain ⟨s', hfirst, hlast⟩ := ih hrest
      exact ⟨s', .cons hstep hfirst, hlast⟩

lemma spec_pure {a : α} {Q : α → S → Prop} (h : Q a s) : (pure a : Emit O E α).Spec step F s Q :=
  ⟨s, .nil s, h⟩

lemma spec_halt {e : E} {Q : α → S → Prop} (h : F e) : (halt e : Emit O E α).Spec step F s Q :=
  ⟨s, .nil s, h⟩

lemma spec_emit {o : O} {Q : Unit → S → Prop} (hstep : step s o s') (h : Q () s') :
    (emit o : Emit O E Unit).Spec step F s Q :=
  ⟨s', .cons hstep (.nil s'), h⟩

lemma Emit.Spec.bind {m : Emit O E α} {f : α → Emit O E β} {R : α → S → Prop} {Q : β → S → Prop}
    (hm : m.Spec step F s R) (hf : ∀ a s', R a s' → (f a).Spec step F s' Q) :
    (m >>= f).Spec step F s Q := by
  obtain ⟨s', hchain, hend⟩ := hm
  change (m.bind f).Spec step F s Q
  unfold Emit.bind
  cases hres : m.result with
  | error e =>
    rw [hres] at hend
    exact ⟨s', hchain, hend⟩
  | ok a =>
    rw [hres] at hend
    obtain ⟨s'', hrest, hend'⟩ := hf a s' hend
    exact ⟨s'', hchain.append hrest, hend'⟩

lemma Emit.Spec.mono {m : Emit O E α} {Q Q' : α → S → Prop} (hm : m.Spec step F s Q)
    (h : ∀ a s', Q a s' → Q' a s') : m.Spec step F s Q' := by
  obtain ⟨s', hchain, hend⟩ := hm
  refine ⟨s', hchain, ?_⟩
  cases hres : m.result with
  | error e =>
    rw [hres] at hend
    exact hend
  | ok a =>
    rw [hres] at hend
    exact h a s' hend

/-- A specification with fewer steps. -/
lemma Emit.Spec.of_step {step' : S → O → S → Prop} {m : Emit O E α} {Q : α → S → Prop}
    (hm : m.Spec step F s Q) (h : ∀ s o s', step s o s' → step' s o s') : m.Spec step' F s Q := by
  obtain ⟨s', hchain, hend⟩ := hm
  exact ⟨s', hchain.of_step h, hend⟩

lemma spec_ite {p : Prop} [Decidable p] {m m' : Emit O E α} {Q : α → S → Prop}
    (hpos : p → m.Spec step F s Q) (hneg : ¬ p → m'.Spec step F s Q) :
    (if p then m else m').Spec step F s Q := by
  by_cases h : p
  · rw [if_pos h]
    exact hpos h
  · rw [if_neg h]
    exact hneg h

end Rules

section Runs

lemma replay_append {exec : O → D → Except E D} {ops ops' : List O} {d d' : D}
    (h : replay exec ops d = .ok d') : replay exec (ops ++ ops') d = replay exec ops' d' := by
  induction ops generalizing d with
  | nil =>
    cases h
    rfl
  | cons o os ih =>
    rw [replay] at h
    rw [List.cons_append, replay]
    cases hexec : exec o d with
    | error e =>
      rw [hexec] at h
      cases h
    | ok d₁ =>
      rw [hexec] at h
      exact ih h

variable {step : S → O → S → Prop} {exec : O → D → Except E D} {exec' : O → D' → Except E D'}
  {F G : E → Prop} {s s' : S} {ops : List O}

/-- A relation that every step keeps, unless it fails with an error in `G`, is kept by a run. -/
theorem Chain.replay {R : S → D → Prop}
    (hexec : ∀ s o s' d, step s o s' → R s d →
      (∃ d', exec o d = .ok d' ∧ R s' d') ∨ ∃ e, exec o d = .error e ∧ G e)
    (h : Chain step s ops s') {d : D} (hd : R s d) :
    (∃ d', replay exec ops d = .ok d' ∧ R s' d') ∨ ∃ e, replay exec ops d = .error e ∧ G e := by
  induction h generalizing d with
  | nil s => exact Or.inl ⟨d, rfl, hd⟩
  | @cons s s' s'' o os hstep _ ih =>
    rcases hexec s o s' d hstep hd with ⟨d', hok, hd'⟩ | ⟨e, herr, he⟩
    · rw [Emission.replay, hok]
      exact ih hd'
    · rw [Emission.replay, herr]
      exact Or.inr ⟨e, rfl, he⟩

/-- A relation between two stores that every step keeps, unless it fails on both with the same error, is
kept by two runs. -/
theorem Chain.replay_two {R : S → D → D' → Prop}
    (hexec : ∀ s o s' d₁ d₂, step s o s' → R s d₁ d₂ →
      (∃ d₁' d₂', exec o d₁ = .ok d₁' ∧ exec' o d₂ = .ok d₂' ∧ R s' d₁' d₂') ∨
        ∃ e, exec o d₁ = .error e ∧ exec' o d₂ = .error e)
    (h : Chain step s ops s') {d₁ : D} {d₂ : D'} (hd : R s d₁ d₂) :
    (∃ d₁' d₂', Emission.replay exec ops d₁ = .ok d₁' ∧ Emission.replay exec' ops d₂ = .ok d₂' ∧
      R s' d₁' d₂') ∨
      ∃ e, Emission.replay exec ops d₁ = .error e ∧ Emission.replay exec' ops d₂ = .error e := by
  induction h generalizing d₁ d₂ with
  | nil s => exact Or.inl ⟨d₁, d₂, rfl, rfl, hd⟩
  | @cons s s' s'' o os hstep _ ih =>
    rcases hexec s o s' d₁ d₂ hstep hd with ⟨d₁', d₂', h₁, h₂, hd'⟩ | ⟨e, h₁, h₂⟩
    · rw [Emission.replay, Emission.replay, h₁, h₂]
      exact ih hd'
    · rw [Emission.replay, Emission.replay, h₁, h₂]
      exact Or.inr ⟨e, rfl, rfl⟩

/-- A run of a program with a specification. -/
theorem Emit.Spec.run {m : Emit O E α} {Q : α → S → Prop} {R : S → D → Prop}
    (hexec : ∀ s o s' d, step s o s' → R s d →
      (∃ d', exec o d = .ok d' ∧ R s' d') ∨ ∃ e, exec o d = .error e ∧ G e)
    (hm : m.Spec step F s Q) {d : D} (hd : R s d) :
    (∃ a d' s', m.run exec d = .ok (a, d') ∧ Q a s' ∧ R s' d') ∨
      ∃ e, m.run exec d = .error e ∧ (F e ∨ G e) := by
  obtain ⟨s', hchain, hend⟩ := hm
  rcases hchain.replay hexec hd with ⟨d', hok, hd'⟩ | ⟨e, herr, he⟩
  · cases hres : m.result with
    | error e =>
      rw [hres] at hend
      exact Or.inr ⟨e, by rw [Emit.run, hok, hres], Or.inl hend⟩
    | ok a =>
      rw [hres] at hend
      exact Or.inl ⟨a, d', s', by rw [Emit.run, hok, hres], hend, hd'⟩
  · exact Or.inr ⟨e, by rw [Emit.run, herr], Or.inr he⟩

end Runs

end Emission
