import Baulk.Migrate.Layout

/-!
# Moving one folder after another

The moves stop at the first that fails.  The pairs keep out of each other's way,
so that the moves succeed if each could be made at the start, what is moved stays
so, and nothing gets lost.
-/

namespace Baulk.Migrate

open Support

/-- Neither path is above the other. -/
structure Incomparable (p q : List WString) : Prop where
  left : ¬ p <+: q
  right : ¬ q <+: p

instance (p q : List WString) : Decidable (Incomparable p q) :=
  decidable_of_iff (¬ p <+: q ∧ ¬ q <+: p)
    ⟨fun h => ⟨h.1, h.2⟩, fun h => ⟨h.left, h.right⟩⟩

/-- Two pairs, of which the first is moved first. -/
structure Apart (a b : FolderPair) : Prop where
  sources : ¬ a.1 <+: b.1
  sourceTarget : Incomparable a.1 b.2
  targetSource : Incomparable a.2 b.1
  targets : Incomparable a.2 b.2
  above : b.2.dropLast = [] ∨ ¬ b.2.dropLast <+: a.2

instance (a b : FolderPair) : Decidable (Apart a b) :=
  decidable_of_iff (¬ a.1 <+: b.1 ∧ Incomparable a.1 b.2 ∧
      Incomparable a.2 b.1 ∧ Incomparable a.2 b.2 ∧
      (b.2.dropLast = [] ∨ ¬ b.2.dropLast <+: a.2))
    ⟨fun h => ⟨h.1, h.2.1, h.2.2.1, h.2.2.2.1, h.2.2.2.2⟩,
      fun h => ⟨h.sources, h.sourceTarget, h.targetSource, h.targets, h.above⟩⟩

/-! ## One move -/

section Move

variable {f : Option Bool} {a b : FolderPair} {m : Disk}
  {result : Bool × Disk}

theorem moveFolder_of_settled (h : Settled m a) :
    moveFolder f a m = (true, m) := by
  unfold moveFolder
  by_cases hfirst : a.1 = a.2 ∧ m.exists? a.1 = true
  · rw [if_pos hfirst]
  · rw [if_neg hfirst]
    rcases h with h | ⟨hsource, htarget⟩
    · exact absurd h hfirst
    · rw [hsource, if_neg Bool.false_ne_true]
      unfold makeDirectories
      rw [if_pos htarget]

/-- What is neither below the pair nor above the target. -/
theorem Moves.frame (h : Moves f a m result) {p : List WString}
    (hsource : ¬ a.1 <+: p) (htarget : Incomparable a.2 p) :
    result.2.node p = m.node p := by
  cases h with
  | settled h => rfl
  | created hfailure hmovable hdir hmade hnew =>
      exact hmade.node_of_not htarget.right
  | renamed hfailure hmovable hdir hfree hmade hnode =>
      rw [hnode, if_neg htarget.left, if_neg hsource,
        hmade.node_of_not htarget.right]
  | failed hmade hsettled hmovable =>
      exact (hmade.below_of (List.dropLast_prefix _)).node_of_not htarget.right

/-- The same stands where a pair is looked at. -/
structure Agree (m m' : Disk) (b : FolderPair) : Prop where
  source : m'.node b.1 = m.node b.1
  target : m'.node b.2 = m.node b.2
  above : m'.node b.2.dropLast = m.node b.2.dropLast

theorem Agree.movable_iff {m' : Disk} (h : Agree m m' b) :
    Movable m' b ↔ Movable m b := by
  unfold Movable PathMap.isFile PathMap.isDir PathMap.exists?
  rw [h.source, h.target, h.above]

theorem Agree.settled_iff {m' : Disk} (h : Agree m m' b) :
    Settled m' b ↔ Settled m b := by
  unfold Settled PathMap.isDir PathMap.exists?
  rw [h.source, h.target]

theorem Agree.trans {m₁ m₂ : Disk} (h : Agree m m₁ b) (h' : Agree m₁ m₂ b) :
    Agree m m₂ b where
  source := h'.source.trans h.source
  target := h'.target.trans h.target
  above := h'.above.trans h.above

theorem Moves.agree (h : Moves f a m result) (hapart : Apart a b) :
    Agree m result.2 b where
  source := h.frame hapart.sources hapart.targetSource
  target := h.frame hapart.sourceTarget.left hapart.targets
  above := by
    rcases hapart.above with hroot | hnot
    · rw [hroot, m.root, result.2.root]
    · have hbelow := List.dropLast_prefix b.2
      exact h.frame (fun hp => hapart.sourceTarget.left (hp.trans hbelow))
        ⟨fun hp => hapart.targets.left (hp.trans hbelow), hnot⟩

theorem movable_of_settled (hproper : Proper a) (h : Settled m a) :
    Movable m a := by
  have habove : m.exists? a.2 = true → m.isFile a.2.dropLast = false := by
    intro hexists
    have hdir := PathMap.isDir_above (List.dropLast_prefix a.2) (by
      intro heq
      have hlength := congrArg List.length heq
      have hpos := List.length_pos_iff.mpr hproper.nonempty
      rw [List.length_dropLast] at hlength
      omega) (PathMap.exists_iff.mp hexists)
    unfold PathMap.isFile
    rw [hdir]
    rfl
  rcases h with ⟨heq, hexists⟩ | ⟨hsource, htarget⟩
  · exact ⟨habove (heq ▸ hexists), .inl heq⟩
  · exact ⟨habove htarget, .inr (.inl hsource)⟩

theorem Moves.settled_of_true (hproper : Proper a) {m' : Disk}
    (h : Moves f a m (true, m')) : Settled m' a := by
  cases h with
  | settled h => exact h
  | created hfailure hmovable hsource hmade htarget =>
      have hexists : m'.exists? a.2 = true :=
        PathMap.exists_iff.mpr (htarget ▸ Option.some_ne_none _)
      rcases hproper.apart with heq | hapart
      · exact .inl ⟨heq, heq ▸ hexists⟩
      · refine .inr ⟨?_, hexists⟩
        unfold PathMap.isDir at hsource ⊢
        rw [hmade.node_of_not hapart, hsource]
  | renamed hfailure hmovable hsource htarget hmade hnode =>
      have hfound := PathMap.isDir_iff.mp hsource
      have hnot : ¬ a.2 <+: a.1 := by
        intro hp
        rw [PathMap.node_eq_none_below hp htarget] at hfound
        cases hfound
      right
      constructor
      · unfold PathMap.isDir
        rw [hnode, if_neg hnot, if_pos (List.prefix_refl _)]
        rfl
      · apply PathMap.exists_iff.mpr
        rw [hnode, if_pos (List.prefix_refl _), List.drop_length, List.append_nil,
          hmade.node (hfound ▸ Option.some_ne_none _), hfound]
        exact Option.some_ne_none _

theorem Moves.movable_of_true (hproper : Proper a) {m' : Disk}
    (h : Moves f a m (true, m')) : Movable m a := by
  cases h with
  | settled h => exact movable_of_settled hproper h
  | created hfailure hmovable hsource hmade htarget => exact hmovable
  | renamed hfailure hmovable hsource htarget hmade hnode => exact hmovable

theorem Moves.keeps_settled (h : Moves f b m result) (hapart : Apart a b)
    (hsettled : Settled m a) : Settled result.2 a := by
  have htarget : result.2.exists? a.2 = m.exists? a.2 := by
    unfold PathMap.exists?
    rw [h.frame hapart.targetSource.right
      ⟨hapart.targets.right, hapart.targets.left⟩]
  rcases hsettled with ⟨heq, hexists⟩ | ⟨hsource, hexists⟩
  · rw [heq, ← htarget, ← heq] at hexists
    exact .inl ⟨heq, hexists⟩
  · refine .inr ⟨?_, htarget ▸ hexists⟩
    by_cases habove : b.1 <+: a.1
    · cases h with
      | settled h => exact hsource
      | created hfailure hmovable hdir hmade hnew =>
          unfold PathMap.isDir at hsource ⊢
          rw [hmade.node_of_not hapart.sourceTarget.left, hsource]
      | renamed hfailure hmovable hdir hfree hmade hnode =>
          unfold PathMap.isDir
          rw [hnode, if_neg hapart.sourceTarget.right, if_pos habove]
          rfl
      | failed hmade hnot hmovable =>
          unfold PathMap.isDir at hsource ⊢
          rw [(hmade.below_of (List.dropLast_prefix _)).node_of_not
            hapart.sourceTarget.left, hsource]
    · unfold PathMap.isDir at hsource ⊢
      rw [h.frame habove ⟨hapart.sourceTarget.right, hapart.sourceTarget.left⟩,
        hsource]

/-- What is not below the source stays, and what is goes with it. -/
theorem Moves.kept (h : Moves f a m result) {p : List WString}
    {n : Node Bytes} (hp : m.node p = some n) :
    result.2.node p = some n ∨
      a.1 <+: p ∧ result.2.node (a.2 ++ p.drop a.1.length) = some n := by
  have hne : m.node p ≠ none := hp ▸ Option.some_ne_none n
  cases h with
  | settled h => exact .inl hp
  | created hfailure hmovable hdir hmade hnew =>
      exact .inl (by rw [hmade.node hne, hp])
  | failed hmade hsettled hmovable =>
      exact .inl (by rw [hmade.node hne, hp])
  | renamed hfailure hmovable hdir hfree hmade hnode =>
      have hnot : ¬ a.2 <+: p := by
        intro hbelow
        exact hne (PathMap.node_eq_none_below hbelow hfree)
      by_cases hbelow : a.1 <+: p
      · right
        refine ⟨hbelow, ?_⟩
        obtain ⟨rest, rfl⟩ := hbelow
        rw [hnode, if_pos (List.prefix_append _ _), List.drop_left,
          List.drop_left, hmade.node hne, hp]
      · left
        rw [hnode, if_neg hnot, if_neg hbelow, hmade.node hne, hp]

end Move

/-! ## All moves -/

/-- The failure of the first move, if that is the one with the number. -/
def failureHere : Option (Nat × Bool) → Option Bool
  | some (0, made) => some made
  | _ => none

/-- The failure of the moves after the first. -/
def failureLater : Option (Nat × Bool) → Option (Nat × Bool)
  | some (i + 1, made) => some (i, made)
  | _ => none

/-- The moves in turn.  A failure is of the move with a number. -/
def moveAll (failure : Option (Nat × Bool)) :
    List FolderPair → Disk → Bool × Disk
  | [], m => (true, m)
  | a :: rest, m =>
      let result := moveFolder (failureHere failure) a m
      if result.1 then moveAll (failureLater failure) rest result.2 else result

section MoveAll

variable {f : Option (Nat × Bool)} {a : FolderPair}
  {l rest : List FolderPair} {m m' : Disk}

theorem moveAll_cons (h : (moveFolder (failureHere f) a m).1 = true) :
    moveAll f (a :: rest) m =
      moveAll (failureLater f) rest
        (moveFolder (failureHere f) a m).2 := by
  rw [moveAll, if_pos h]

theorem moveAll_none_cons (h : (moveFolder none a m).1 = true) :
    moveAll none (a :: rest) m = moveAll none rest (moveFolder none a m).2 :=
  moveAll_cons (f := none) h

theorem moveAll_cons_failed
    (h : (moveFolder (failureHere f) a m).1 = false) :
    moveAll f (a :: rest) m = moveFolder (failureHere f) a m := by
  rw [moveAll, if_neg (by rw [h]; exact Bool.false_ne_true)]

/-- All moves are proper and keep out of each other's way. -/
structure Separate (l : List FolderPair) : Prop where
  proper : ∀ a ∈ l, Proper a
  apart : l.Pairwise Apart

theorem Separate.tail (h : Separate (a :: rest)) : Separate rest where
  proper b hb := h.proper b (List.mem_cons_of_mem a hb)
  apart := (List.pairwise_cons.mp h.apart).2

theorem Separate.head (h : Separate (a :: rest)) : Proper a :=
  h.proper a List.mem_cons_self

theorem Separate.apart_head (h : Separate (a :: rest)) :
    ∀ b ∈ rest, Apart a b :=
  (List.pairwise_cons.mp h.apart).1

theorem moveAll_invariant {I : Disk → Prop} (hl : ∀ a ∈ l, Proper a)
    (hmove : ∀ a ∈ l, ∀ here m, I m → I (moveFolder here a m).2) (hm : I m) :
    I (moveAll f l m).2 := by
  induction l generalizing f m with
  | nil => exact hm
  | cons a rest ih =>
      have hfirst := hmove a List.mem_cons_self (failureHere f) m hm
      cases hresult : (moveFolder (failureHere f) a m).1 with
      | true =>
          rw [moveAll_cons hresult]
          exact ih (fun b hb => hl b (List.mem_cons_of_mem a hb))
            (fun b hb => hmove b (List.mem_cons_of_mem a hb)) hfirst
      | false =>
          rw [moveAll_cons_failed hresult]
          exact hfirst

theorem moveAll_frame {p : List WString} (hl : ∀ a ∈ l, Proper a)
    (hsource : ∀ a ∈ l, ¬ a.1 <+: p) (htarget : ∀ a ∈ l, Incomparable a.2 p) :
    (moveAll f l m).2.node p = m.node p := by
  refine moveAll_invariant (I := fun s => s.node p = m.node p) hl ?_ rfl
  intro a ha here s hs
  rw [(moveFolder_moves (hl a ha) here s).frame (hsource a ha) (htarget a ha), hs]

theorem moveAll_keeps_settled (hl : ∀ b ∈ l, Proper b)
    (hapart : ∀ b ∈ l, Apart a b) (h : Settled m a) :
    Settled (moveAll f l m).2 a := by
  refine moveAll_invariant (I := fun s => Settled s a) hl ?_ h
  intro b hb here s hs
  exact (moveFolder_moves (hl b hb) here s).keeps_settled (hapart b hb) hs

theorem moves_of_true {here : Option Bool} (hproper : Proper a)
    (h : (moveFolder here a m).1 = true) :
    Moves here a m (true, (moveFolder here a m).2) := by
  have hmoves := moveFolder_moves hproper here m
  have heq : moveFolder here a m = (true, (moveFolder here a m).2) :=
    Prod.ext h rfl
  rwa [heq] at hmoves

theorem settled_of_moveAll (hl : Separate l)
    (h : (moveAll f l m).1 = true) :
    ∀ a ∈ l, Settled (moveAll f l m).2 a := by
  induction l generalizing f m with
  | nil => exact fun a ha => absurd ha List.not_mem_nil
  | cons a rest ih =>
      cases hresult : (moveFolder (failureHere f) a m).1 with
      | true =>
          rw [moveAll_cons hresult] at h ⊢
          intro b hb
          rcases List.mem_cons.mp hb with rfl | hb
          · exact moveAll_keeps_settled hl.tail.proper hl.apart_head
              ((moves_of_true hl.head hresult).settled_of_true hl.head)
          · exact ih hl.tail h b hb
      | false =>
          rw [moveAll_cons_failed hresult, hresult] at h
          cases h

theorem movable_of_moveAll (hl : Separate l)
    (h : (moveAll f l m).1 = true) : ∀ a ∈ l, Movable m a := by
  induction l generalizing f m with
  | nil => exact fun a ha => absurd ha List.not_mem_nil
  | cons a rest ih =>
      cases hresult : (moveFolder (failureHere f) a m).1 with
      | true =>
          rw [moveAll_cons hresult] at h
          have hmoves := moves_of_true hl.head hresult
          intro b hb
          rcases List.mem_cons.mp hb with rfl | hb
          · exact hmoves.movable_of_true hl.head
          · exact (hmoves.agree (hl.apart_head b hb)).movable_iff.mp
              (ih hl.tail h b hb)
      | false =>
          rw [moveAll_cons_failed hresult, hresult] at h
          cases h

theorem moveFolder_of_movable (hproper : Proper a) (h : Movable m a) :
    (moveFolder none a m).1 = true := by
  have hmoves := moveFolder_moves hproper none m
  rcases hresult : moveFolder none a m with ⟨_ | _, m'⟩
  · rw [hresult] at hmoves
    cases hmoves with
    | failed hmade hsettled hmovable => exact absurd h (hmovable rfl)
  · rfl

theorem moveAll_of_movable (hl : Separate l) (h : ∀ a ∈ l, Movable m a) :
    (moveAll none l m).1 = true := by
  induction l generalizing m with
  | nil => rfl
  | cons a rest ih =>
      have hresult := moveFolder_of_movable hl.head (h a List.mem_cons_self)
      have hmoves := moves_of_true hl.head hresult
      rw [moveAll_none_cons hresult]
      refine ih hl.tail fun b hb => ?_
      exact (hmoves.agree (hl.apart_head b hb)).movable_iff.mpr
        (h b (List.mem_cons_of_mem a hb))

theorem moveAll_of_settled (h : ∀ a ∈ l, Settled m a) :
    moveAll f l m = (true, m) := by
  induction l generalizing f with
  | nil => rfl
  | cons a rest ih =>
      have hfirst := moveFolder_of_settled (f := failureHere f)
        (h a List.mem_cons_self)
      rw [moveAll, hfirst]
      exact ih fun b hb => h b (List.mem_cons_of_mem a hb)

theorem moveFolder_of_moveAll (h : (moveAll none (a :: rest) m).1 = true) :
    (moveFolder none a m).1 = true := by
  cases hresult : (moveFolder none a m).1 with
  | true => rfl
  | false =>
      rw [moveAll_cons_failed (f := none) hresult] at h
      exact hresult.symm.trans h

theorem moveAll_append (h : (moveAll none l m).1 = true) :
    moveAll none (l ++ rest) m = moveAll none rest (moveAll none l m).2 := by
  induction l generalizing m with
  | nil => rfl
  | cons a l ih =>
      have hresult := moveFolder_of_moveAll h
      rw [moveAll_none_cons hresult] at h ⊢
      rw [List.cons_append, moveAll_none_cons hresult]
      exact ih h

theorem moveAll_again (hl : Separate l) (h : (moveAll none l m).1 = true) :
    moveAll f l (moveAll none l m).2 = (true, (moveAll none l m).2) :=
  moveAll_of_settled (settled_of_moveAll hl h)

theorem moveAll_taken_up (hl : Separate l) (h : (moveAll none l m).1 = true)
    (rest : List FolderPair) :
    moveAll none (l ++ rest) (moveAll none l m).2 =
      moveAll none (l ++ rest) m := by
  have hagain := moveAll_again (f := none) hl h
  rw [moveAll_append (congrArg Prod.fst hagain), hagain, moveAll_append h]

theorem moveAll_at {made : Bool} (h : (moveAll none l m).1 = true) :
    moveAll (some (l.length, made)) (l ++ a :: rest) m =
      moveAll (some (0, made)) (a :: rest) (moveAll none l m).2 := by
  induction l generalizing m with
  | nil => rfl
  | cons b l ih =>
      have hresult := moveFolder_of_moveAll h
      rw [moveAll_none_cons hresult] at h ⊢
      rw [List.cons_append, List.length_cons,
        moveAll_cons (f := some (l.length + 1, made)) hresult]
      exact ih h

theorem moveAll_of_length_le {i : Nat} {made : Bool} (h : l.length ≤ i) :
    moveAll (some (i, made)) l m = moveAll none l m := by
  induction l generalizing i m with
  | nil => rfl
  | cons a l ih =>
      cases i with
      | zero => exact absurd h (by simp)
      | succ i =>
          have hrest : ∀ m, moveAll (some (i, made)) l m = moveAll none l m :=
            fun m => ih (Nat.le_of_succ_le_succ h)
          rw [moveAll, moveAll]
          change (if (moveFolder none a m).1 then
              moveAll (some (i, made)) l (moveFolder none a m).2
            else moveFolder none a m) = _
          rw [hrest]
          rfl

theorem moveAll_kept (hl : Separate l) {p : List WString} {n : Node Bytes}
    (hp : m.node p = some n) :
    (moveAll f l m).2.node p = some n ∨
      ∃ a ∈ l, a.1 <+: p ∧
        (moveAll f l m).2.node (a.2 ++ p.drop a.1.length) = some n := by
  induction l generalizing f m with
  | nil => exact .inl hp
  | cons a rest ih =>
      have hkept := (moveFolder_moves hl.head (failureHere f) m).kept hp
      cases hresult : (moveFolder (failureHere f) a m).1 with
      | false =>
          rw [moveAll_cons_failed hresult]
          rcases hkept with hsame | ⟨hbelow, hmoved⟩
          · exact .inl hsame
          · exact .inr ⟨a, List.mem_cons_self, hbelow, hmoved⟩
      | true =>
          rw [moveAll_cons hresult]
          rcases hkept with hsame | ⟨hbelow, hmoved⟩
          · rcases ih hl.tail hsame with hsame | ⟨b, hb, hmoved⟩
            · exact .inl hsame
            · exact .inr ⟨b, List.mem_cons_of_mem a hb, hmoved⟩
          · -- nothing below a target is below a later source
            right
            refine ⟨a, List.mem_cons_self, hbelow, ?_⟩
            rw [moveAll_frame hl.tail.proper _ _, hmoved]
            · intro b hb hbelow'
              have hapart := (hl.apart_head b hb).targetSource
              rcases List.prefix_or_prefix_of_prefix hbelow'
                (List.prefix_append a.2 (p.drop a.1.length)) with h | h
              · exact hapart.right h
              · exact hapart.left h
            · intro b hb
              have hapart := (hl.apart_head b hb).targets
              have habove := List.prefix_append a.2 (p.drop a.1.length)
              constructor
              · intro h
                rcases List.prefix_or_prefix_of_prefix h habove with h | h
                · exact hapart.right h
                · exact hapart.left h
              · intro h
                exact hapart.left (habove.trans h)

theorem moveAll_agree (hl : ∀ b ∈ l, Proper b) (hapart : ∀ b ∈ l, Apart b a) :
    Agree m (moveAll f l m).2 a := by
  refine moveAll_invariant (I := fun s => Agree m s a) hl ?_ ⟨rfl, rfl, rfl⟩
  intro b hb here s hs
  exact hs.trans ((moveFolder_moves (hl b hb) here s).agree (hapart b hb))

theorem Separate.left (h : Separate (l ++ rest)) : Separate l where
  proper b hb := h.proper b (List.mem_append_left rest hb)
  apart := (List.pairwise_append.mp h.apart).1

/-- A move that is settled cannot fail; any other one ends the run. -/
theorem moveAll_failing (made : Bool) (hl : Separate (l ++ a :: rest))
    (h : ∀ b ∈ l, Movable m b) :
    (moveAll none l m).1 = true ∧
    (Settled m a → moveAll (some (l.length, made)) (l ++ a :: rest) m =
      moveAll none (l ++ a :: rest) m) ∧
    (¬ Settled m a → ∃ m', Made (moveAll none l m).2 a.2.dropLast m' ∧
      moveAll (some (l.length, made)) (l ++ a :: rest) m = (false, m')) := by
  have htrue := moveAll_of_movable hl.left h
  have hproper : Proper a := hl.proper a (by simp)
  have hagree : Agree m (moveAll none l m).2 a := by
    refine moveAll_agree hl.left.proper fun b hb => ?_
    exact (List.pairwise_append.mp hl.apart).2.2 b hb a List.mem_cons_self
  refine ⟨htrue, fun hsettled => ?_, fun hsettled => ?_⟩
  · have hsettled' := hagree.settled_iff.mpr hsettled
    rw [moveAll_at htrue, moveAll_append htrue, moveAll, moveAll,
      moveFolder_of_settled hsettled', moveFolder_of_settled hsettled']
    rfl
  · have hmoves := moveFolder_moves hproper (some made) (moveAll none l m).2
    rcases hresult : moveFolder (some made) a (moveAll none l m).2 with ⟨_ | _, m'⟩
    · rw [hresult] at hmoves
      cases hmoves with
      | failed hmade hnot hmovable =>
          refine ⟨m', hmade, ?_⟩
          have hfailed : (moveFolder (failureHere (some (0, made))) a
              (moveAll none l m).2).1 = false := congrArg Prod.fst hresult
          rw [moveAll_at htrue, moveAll_cons_failed hfailed]
          exact hresult
    · rw [hresult] at hmoves
      cases hmoves with
      | settled h => exact absurd (hagree.settled_iff.mp h) hsettled
      | created hfailure => cases hfailure
      | renamed hfailure => cases hfailure

end MoveAll

end Baulk.Migrate
