import Mathlib.Data.Option.Basic

/-!
# Transducers

A transducer goes through a list from the front.  A step may fail; otherwise it gives the
next state and what it puts out.  The output of one transducer can be the input of
another one.
-/

namespace Baulk.Support

variable {σ τ α β γ : Type*}

/-- Put something out before a result. -/
def emit (out : List β) (r : σ × List β) : σ × List β :=
  (r.1, out ++ r.2)

/-- The state at the end of an input, and all that was put out. -/
def transduce (step : σ → α → Option (σ × List β)) (s : σ) : List α → Option (σ × List β)
  | [] => some (s, [])
  | a :: as => (step s a).bind fun r => (transduce step r.1 as).map (emit r.2)

theorem emit_emit (out out' : List β) (r : σ × List β) :
    emit out (emit out' r) = emit (out ++ out') r := by
  unfold emit
  rw [List.append_assoc]

section Run

variable {step : σ → α → Option (σ × List β)} {s s' : σ} {a : α} {as : List α}
  {out : List β}

theorem transduce_cons_of (h : step s a = some (s', out)) (as : List α) :
    transduce step s (a :: as) = (transduce step s' as).map (emit out) := by
  rw [transduce, h]
  rfl

/-- A first step that only puts out more than one from another state. -/
theorem transduce_cons_map (h : step s a = (step s' a).map (emit out)) (as : List α) :
    transduce step s (a :: as) = (transduce step s' (a :: as)).map (emit out) := by
  rw [transduce, transduce, h, Option.bind_map, Option.map_bind]
  congr 1
  funext r
  rw [Function.comp_apply, Function.comp_apply, Option.map_map]
  congr 1
  funext r'
  exact (emit_emit out r.2 r').symm

/-- The rest of the input is read from the state in which its beginning was left. -/
theorem transduce_append_of (h : transduce step s as = some (s', out)) (bs : List α) :
    transduce step s (as ++ bs) = (transduce step s' bs).map (emit out) := by
  induction as generalizing s out with
  | nil =>
      cases h
      exact (Option.map_id_apply).symm
  | cons a as ih =>
      rw [transduce, Option.bind_eq_some_iff] at h
      obtain ⟨r, hstep, h⟩ := h
      rw [Option.map_eq_some_iff] at h
      obtain ⟨r', hrest, heq⟩ := h
      obtain ⟨rfl, rfl⟩ := Prod.mk.inj heq
      rw [List.cons_append, transduce_cons_of hstep, ih hrest, Option.map_map]
      congr 1
      funext r''
      exact emit_emit r.2 r'.2 r''

/-- Until something is put out, what every silent step keeps holds; the first output is
that of a step from a state where it holds. -/
theorem first_output (Inv : σ → List α → Prop) (done : List α)
    (hsilent : ∀ {s done a s'}, Inv s done → step s a = some (s', []) → Inv s' (done ++ [a]))
    (hinv : Inv s done) (h : transduce step s as = some (s', out)) :
    (out = [] ∧ Inv s' (done ++ as)) ∨
      ∃ front a back t t' b now later, as = front ++ a :: back ∧ Inv t (done ++ front) ∧
        step t a = some (t', b :: now) ∧ out = b :: now ++ later ∧
        transduce step t' back = some (s', later) := by
  induction as generalizing s done out with
  | nil =>
      cases h
      rw [List.append_nil]
      exact .inl ⟨rfl, hinv⟩
  | cons a as ih =>
      rw [transduce, Option.bind_eq_some_iff] at h
      obtain ⟨⟨t, now⟩, hstep, h⟩ := h
      rw [Option.map_eq_some_iff] at h
      obtain ⟨⟨t', later⟩, hrest, heq⟩ := h
      obtain ⟨rfl, rfl⟩ := Prod.mk.inj heq
      cases now with
      | nil =>
          rcases ih _ (hsilent hinv hstep) hrest with ⟨hnil, hend⟩ | ⟨front, b, back, u, u', c, now,
            later', rfl, hfront, hb, hout, hback⟩
          · rw [List.append_assoc] at hend
            exact .inl ⟨hnil, hend⟩
          · rw [List.append_assoc] at hfront
            exact .inr ⟨a :: front, b, back, u, u', c, now, later', rfl, hfront, hb, hout, hback⟩
      | cons b now =>
          refine .inr ⟨[], a, as, s, t, b, now, later, rfl, ?_, hstep, rfl, hrest⟩
          rwa [List.append_nil]

end Run

/-! ## Two stages -/

/-- The second transducer reads what the first one puts out. -/
def stages (step : σ → α → Option (σ × List β)) (step' : τ → β → Option (τ × List γ))
    (s : σ × τ) (as : List α) : Option ((σ × τ) × List γ) :=
  (transduce step s.1 as).bind fun r =>
    (transduce step' s.2 r.2).map fun r' => ((r.1, r'.1), r'.2)

theorem stages_append_of {step : σ → α → Option (σ × List β)}
    {step' : τ → β → Option (τ × List γ)} {s s' : σ} {t t' : τ} {as : List α} {mid : List β}
    {out : List γ} (h : transduce step s as = some (s', mid))
    (h' : transduce step' t mid = some (t', out)) (bs : List α) :
    stages step step' (s, t) (as ++ bs) = (stages step step' (s', t') bs).map (emit out) := by
  unfold stages
  dsimp only
  rw [transduce_append_of h, Option.map_bind, Option.bind_map]
  congr 1
  funext r
  change (transduce step' t (mid ++ r.2)).map _ = _
  rw [transduce_append_of h', Option.map_map, Function.comp_apply, Option.map_map]
  rfl

end Baulk.Support
