import Mathlib.Tactic.TypeStar

/-!
# Loops with fuel

A loop whose end depends on its environment is run with fuel.  The body says
whether to go on from a new state or to stop with a result; it may itself run
out of fuel.  The rules below derive facts about whole runs from facts about
one round.
-/

namespace Baulk.Support

variable {σ ρ : Type*}

/-- How one round of a loop ends. -/
inductive Step (σ ρ : Type*) where
  | next (s : σ)
  | done (r : ρ)

/-- The new state satisfies `Inv`, or the result satisfies `Post`. -/
def Step.Sat (Inv : σ → Prop) (Post : ρ → Prop) : Step σ ρ → Prop
  | .next s => Inv s
  | .done r => Post r

theorem Step.Sat.mono {Inv Inv' : σ → Prop} {Post Post' : ρ → Prop}
    {step : Step σ ρ} (h : step.Sat Inv Post) (hinv : ∀ s, Inv s → Inv' s)
    (hpost : ∀ r, Post r → Post' r) : step.Sat Inv' Post' := by
  cases step with
  | next s => exact hinv s h
  | done r => exact hpost r h

/-- Run the body until it is done; `none` when the fuel does not suffice. -/
def loop (body : σ → Option (Step σ ρ)) : Nat → σ → Option ρ
  | 0, _ => none
  | fuel + 1, s =>
      match body s with
      | none => none
      | some (.done r) => some r
      | some (.next s') => loop body fuel s'

theorem loop_next {body : σ → Option (Step σ ρ)} {fuel : Nat} {s s' : σ}
    (h : body s = some (.next s')) :
    loop body (fuel + 1) s = loop body fuel s' := by
  rw [loop, h]

theorem loop_done {body : σ → Option (Step σ ρ)} {fuel : Nat} {s : σ} {r : ρ}
    (h : body s = some (.done r)) : loop body (fuel + 1) s = some r := by
  rw [loop, h]

theorem loop_unique {body : σ → Option (Step σ ρ)} {fuel fuel' : Nat} {s : σ} {r r' : ρ}
    (h : loop body fuel s = some r) (h' : loop body fuel' s = some r') : r = r' := by
  induction fuel generalizing fuel' s with
  | zero => contradiction
  | succ fuel ih =>
      cases fuel' with
      | zero => contradiction
      | succ fuel' =>
          cases hstep : body s with
          | none =>
              rw [loop, hstep] at h
              contradiction
          | some step =>
              cases step with
              | done r'' =>
                  rw [loop_done hstep, Option.some.injEq] at h h'
                  exact h.symm.trans h'
              | next s' =>
                  rw [loop_next hstep] at h h'
                  exact ih h h'

/-- Partial correctness: an invariant of the body gives the postcondition of
the loop. -/
theorem loop_spec {body : σ → Option (Step σ ρ)} {I : σ → Prop}
    {Q : ρ → Prop}
    (hbody : ∀ s step, I s → body s = some step → step.Sat I Q) :
    ∀ {fuel : Nat} {s : σ} {r : ρ}, I s → loop body fuel s = some r →
      Q r := by
  intro fuel
  induction fuel with
  | zero =>
      intro s r _ h
      contradiction
  | succ fuel ih =>
      intro s r hs h
      cases hstep : body s with
      | none =>
          rw [loop, hstep] at h
          contradiction
      | some step =>
          have hround := hbody s step hs hstep
          cases step with
          | next s' =>
              rw [loop_next hstep] at h
              exact ih hround h
          | done r' =>
              rw [loop_done hstep, Option.some.injEq] at h
              exact h ▸ hround

/-- The states that the rounds from `s` on come to. -/
inductive LoopsTo (body : σ → Option (Step σ ρ)) (s : σ) : σ → Prop where
  | start : LoopsTo body s s
  | next {s' s'' : σ} : LoopsTo body s s' → body s' = some (.next s'') → LoopsTo body s s''

theorem LoopsTo.from_next {body : σ → Option (Step σ ρ)} {s s' s'' : σ}
    (hstep : body s = some (.next s')) (h : LoopsTo body s' s'') : LoopsTo body s s'' := by
  induction h with
  | start => exact .next .start hstep
  | next _ hstep' ih => exact .next ih hstep'

/-- Partial correctness, with an invariant that is kept only in states that the loop
comes to. -/
theorem loop_spec_of_loopsTo {body : σ → Option (Step σ ρ)} {I : σ → Prop} {Q : ρ → Prop} :
    ∀ {fuel : Nat} {s : σ} {r : ρ},
      (∀ s' step, LoopsTo body s s' → I s' → body s' = some step → step.Sat I Q) →
      I s → loop body fuel s = some r → Q r := by
  intro fuel
  induction fuel with
  | zero =>
      intro s r _ _ h
      contradiction
  | succ fuel ih =>
      intro s r hbody hs h
      cases hstep : body s with
      | none =>
          rw [loop, hstep] at h
          contradiction
      | some step =>
          have hround := hbody s step .start hs hstep
          cases step with
          | next s' =>
              rw [loop_next hstep] at h
              exact ih (fun s'' step'' hreach => hbody s'' step'' (hreach.from_next hstep))
                hround h
          | done r' =>
              rw [loop_done hstep, Option.some.injEq] at h
              exact h ▸ hround

/-- Termination: a body that always returns, and that goes on only to states
with a smaller bound, needs no more rounds than the bound says. -/
theorem loop_returns {body : σ → Option (Step σ ρ)} {B : Nat → σ → Prop}
    (hbody : ∀ m s, B m s → ∃ step, body s = some step ∧
      ∀ s', step = .next s' → ∃ m', m' < m ∧ B m' s') :
    ∀ {m fuel : Nat} {s : σ}, B m s → m < fuel →
      ∃ r, loop body fuel s = some r := by
  intro m fuel
  induction fuel generalizing m with
  | zero =>
      intro s _ h
      exact absurd h (Nat.not_lt_zero m)
  | succ fuel ih =>
      intro s hs hfuel
      obtain ⟨step, hstep, hnext⟩ := hbody m s hs
      cases step with
      | done r => exact ⟨r, loop_done hstep⟩
      | next s' =>
          obtain ⟨m', hm', hs'⟩ := hnext s' rfl
          obtain ⟨r, hr⟩ := ih hs' (by omega)
          exact ⟨r, (loop_next hstep).trans hr⟩

/-- Total correctness: the body always returns, keeps the invariant, and goes on
only to states that are smaller in a well-founded order. -/
theorem loop_total {body : σ → Option (Step σ ρ)} {I : σ → Prop}
    {Q : ρ → Prop} {less : σ → σ → Prop} (hless : WellFounded less)
    (hbody : ∀ s, I s → ∃ step, body s = some step ∧
      step.Sat (fun s' => I s' ∧ less s' s) Q) {s : σ} (hs : I s) :
    ∃ bound, ∀ fuel, bound < fuel →
      ∃ r, loop body fuel s = some r ∧ Q r := by
  induction s using hless.induction with
  | h s ih =>
      obtain ⟨step, hstep, hround⟩ := hbody s hs
      cases step with
      | done r =>
          refine ⟨0, fun fuel hfuel => ?_⟩
          obtain ⟨fuel, rfl⟩ := Nat.exists_eq_add_of_lt hfuel
          exact ⟨r, loop_done hstep, hround⟩
      | next s' =>
          obtain ⟨bound, hbound⟩ := ih s' hround.2 hround.1
          refine ⟨bound + 1, fun fuel hfuel => ?_⟩
          cases fuel with
          | zero => exact absurd hfuel (Nat.not_lt_zero _)
          | succ fuel =>
              obtain ⟨r, hr, hpost⟩ := hbound fuel (by omega)
              exact ⟨r, (loop_next hstep).trans hr, hpost⟩

/-- Total correctness by progress and patience: each round that goes on makes
progress, or loses patience without going back. -/
theorem loop_total_of_progress {body : σ → Option (Step σ ρ)} {I : σ → Prop}
    {Q : ρ → Prop} (ahead patience : σ → Nat)
    (hbody : ∀ s, I s → ∃ step, body s = some step ∧
      step.Sat (fun s' => I s' ∧ (ahead s' < ahead s ∨
        ahead s' = ahead s ∧ patience s' < patience s)) Q)
    {s : σ} (hs : I s) :
    ∃ bound, ∀ fuel, bound < fuel →
      ∃ r, loop body fuel s = some r ∧ Q r := by
  refine loop_total (I := I)
    (InvImage.wf (fun s => (ahead s, patience s))
      (Prod.lex Nat.lt_wfRel Nat.lt_wfRel).wf)
    (fun s hs => ?_) hs
  obtain ⟨step, hstep, hround⟩ := hbody s hs
  refine ⟨step, hstep, ?_⟩
  cases step with
  | done r => exact hround
  | next s' => exact ⟨hround.1, Prod.lex_def.mpr hround.2⟩

/-! ## Two loops that agree until one of them stops -/

/-- The body stops with a result in `Q`, at once or in the next round. -/
inductive Stops (body body' : σ → Option (Step σ ρ)) (Q : ρ → Prop) (s : σ) : Prop where
  | now {r : ρ} (result : Q r) (stop : body s = some (.done r))
  | soon {t t' : σ} {r : ρ} (result : Q r) (goes : body s = some (.next t))
      (goes' : body' s = some (.next t')) (stop : body t = some (.done r))

/-- Bodies that do the same until the first one stops give loops that do the same, or of
which the first one returns. -/
theorem loop_agrees {body body' : σ → Option (Step σ ρ)} {I : σ → Prop} {J Q : ρ → Prop}
    (hkeeps : ∀ s step, I s → body s = some step → step.Sat I J)
    (hbody : ∀ s, I s → body s = body' s ∨ Stops body body' Q s) (fuel : Nat) {s : σ}
    (hs : I s) :
    loop body fuel s = loop body' fuel s ∨ ∃ r, Q r ∧ loop body fuel s = some r := by
  induction fuel generalizing s with
  | zero => exact .inl rfl
  | succ fuel ih =>
      rcases hbody s hs with hsame | hstops
      · cases hstep : body s with
        | none =>
            left
            rw [loop, loop, ← hsame, hstep]
        | some step =>
            have hround := hkeeps s step hs hstep
            rw [hstep] at hsame
            cases step with
            | next t =>
                rw [loop_next hstep, loop_next hsame.symm]
                exact ih hround
            | done r =>
                left
                rw [loop_done hstep, loop_done hsame.symm]
      · cases hstops with
        | now result stop => exact .inr ⟨_, result, loop_done stop⟩
        | soon result goes goes' stop =>
            rw [loop_next goes, loop_next goes']
            cases fuel with
            | zero => exact .inl rfl
            | succ fuel => exact .inr ⟨_, result, loop_done stop⟩

/-! ## Loops along a sequence of states -/

/-- The rounds of the loop go through the states one after the other, until one
of them ends it. -/
def Follows (body : σ → Option (Step σ ρ)) (state : Nat → σ) : Prop :=
  ∀ k, body (state k) = some (.next (state (k + 1))) ∨
    ∃ r, body (state k) = some (.done r)

namespace Follows

variable {body : σ → Option (Step σ ρ)} {state : Nat → σ}

/-- A result of the loop is the result of one of its rounds. -/
theorem exists_done (h : Follows body state) {fuel k : Nat} {r : ρ}
    (hloop : loop body fuel (state k) = some r) :
    ∃ i, k ≤ i ∧ body (state i) = some (.done r) := by
  induction fuel generalizing k with
  | zero => contradiction
  | succ fuel ih =>
      rcases h k with hnext | ⟨r', hdone⟩
      · rw [loop_next hnext] at hloop
        obtain ⟨i, hi, hdone⟩ := ih hloop
        exact ⟨i, by omega, hdone⟩
      · rw [loop_done hdone, Option.some.injEq] at hloop
        exact ⟨k, Nat.le_refl k, hloop ▸ hdone⟩

/-- A round that ends the loop, or an earlier one, is reached. -/
theorem returns (h : Follows body state) {i k : Nat} {r : ρ} (hk : k ≤ i)
    (hdone : body (state i) = some (.done r)) :
    ∃ r', loop body (i - k + 1) (state k) = some r' := by
  induction hdistance : i - k generalizing k with
  | zero =>
      obtain rfl : k = i := by omega
      exact ⟨r, loop_done hdone⟩
  | succ m ih =>
      rcases h k with hnext | ⟨r', hdone'⟩
      · rw [loop_next hnext]
        exact ih (by omega) (by omega)
      · exact ⟨r', loop_done hdone'⟩

/-- The loop ends if and only if one of its rounds ends it. -/
theorem returns_iff (h : Follows body state) :
    (∃ fuel r, loop body fuel (state 0) = some r) ↔
      ∃ k r, body (state k) = some (.done r) := by
  constructor
  · rintro ⟨fuel, r, hloop⟩
    obtain ⟨k, -, hdone⟩ := h.exists_done hloop
    exact ⟨k, r, hdone⟩
  · rintro ⟨k, r, hdone⟩
    obtain ⟨r', hloop⟩ := h.returns (Nat.zero_le k) hdone
    exact ⟨_, r', hloop⟩

end Follows

/-! ## Loops over two carriers -/

variable {σ' ρ' : Type*}

/-- Carry the state and the result over. -/
def Step.map (f : σ → σ') (g : ρ → ρ') : Step σ ρ → Step σ' ρ'
  | .next s => .next (f s)
  | .done r => .done (g r)

/-- Simulation: two bodies that do the same up to `f` and `g` give loops that
do the same. -/
theorem loop_map {body : σ → Option (Step σ ρ)}
    {body' : σ' → Option (Step σ' ρ')} {f : σ → σ'} {g : ρ → ρ'}
    (hbody : ∀ s, body' (f s) = (body s).map (Step.map f g)) (fuel : Nat)
    (s : σ) : loop body' fuel (f s) = (loop body fuel s).map g := by
  induction fuel generalizing s with
  | zero => rfl
  | succ fuel ih =>
      rw [loop, loop, hbody]
      cases body s with
      | none => rfl
      | some step =>
          cases step with
          | next s' => exact ih s'
          | done r => rfl

end Baulk.Support
