import Baulk.Core.Narrow

/-!
# Characters and their code units

The UTF-16 form of a character is one unit or a pair of surrogates.  A text is
well-formed if it is the form of some characters; `encode_into` gives the
standard UTF-8 form of such a text.
-/

namespace Baulk

/-- The UTF-16 form of a character. -/
def utf16Units (c : Char) : WString :=
  if c.toNat < 0x10000 then [UInt16.ofNat c.toNat]
  else
    [UInt16.ofNat (0xD800 + (c.toNat - 0x10000) / 0x400),
      UInt16.ofNat (0xDC00 + (c.toNat - 0x10000) % 0x400)]

theorem utf16Units_cases (c : Char) :
    (∃ u, utf16Units c = [u] ∧ isHighSurrogate u = false ∧ isLowSurrogate u = false ∧
      u.toUInt32 = c.val) ∨
    ∃ high low, utf16Units c = [high, low] ∧ isHighSurrogate high = true ∧
      isLowSurrogate low = true ∧ surrogateRune high low = c.val := by
  have hvalid : c.toNat < 0xD800 ∨ 0xDFFF < c.toNat ∧ c.toNat < 0x110000 := c.valid
  unfold utf16Units
  by_cases hsmall : c.toNat < 0x10000
  · have hunit : (UInt16.ofNat c.toNat).toNat = c.toNat := by
      rw [UInt16.toNat_ofNat']
      exact Nat.mod_eq_of_lt hsmall
    have hhigh : isHighSurrogate (UInt16.ofNat c.toNat) = false := by
      rw [← Bool.not_eq_true, isHighSurrogate_iff, hunit]
      omega
    have hlow : isLowSurrogate (UInt16.ofNat c.toNat) = false := by
      rw [← Bool.not_eq_true, isLowSurrogate_iff, hunit]
      omega
    have hrune : (UInt16.ofNat c.toNat).toUInt32 = c.val := by
      rw [← UInt32.toNat_inj, UInt16.toNat_toUInt32, hunit]
      rfl
    rw [if_pos hsmall]
    exact .inl ⟨_, rfl, hhigh, hlow, hrune⟩
  · have hfirst : (UInt16.ofNat (0xD800 + (c.toNat - 0x10000) / 0x400)).toNat =
        0xD800 + (c.toNat - 0x10000) / 0x400 := by
      rw [UInt16.toNat_ofNat']
      omega
    have hsecond : (UInt16.ofNat (0xDC00 + (c.toNat - 0x10000) % 0x400)).toNat =
        0xDC00 + (c.toNat - 0x10000) % 0x400 := by
      rw [UInt16.toNat_ofNat']
      omega
    have hhigh : isHighSurrogate (UInt16.ofNat (0xD800 + (c.toNat - 0x10000) / 0x400)) = true := by
      rw [isHighSurrogate_iff, hfirst]
      omega
    have hlow : isLowSurrogate (UInt16.ofNat (0xDC00 + (c.toNat - 0x10000) % 0x400)) = true := by
      rw [isLowSurrogate_iff, hsecond]
      omega
    have hrune : surrogateRune (UInt16.ofNat (0xD800 + (c.toNat - 0x10000) / 0x400))
        (UInt16.ofNat (0xDC00 + (c.toNat - 0x10000) % 0x400)) = c.val := by
      rw [← UInt32.toNat_inj, surrogateRune_toNat hhigh hlow, hfirst, hsecond]
      change _ = c.toNat
      omega
    rw [if_neg hsmall]
    exact .inr ⟨_, _, rfl, hhigh, hlow, hrune⟩

/-! ## The UTF-8 form -/

theorem encodeRune_val (c : Char) : encodeRune c.val = String.utf8EncodeChar c := by
  rw [String.utf8EncodeChar_eq_utf8EncodeCharFast]
  unfold encodeRune String.utf8EncodeCharFast tagByte
  simp only [UInt32.toUInt8_and, UInt8.or_comm]
  rfl

theorem encodeUtf8_utf16Units (c : Char) (rest : WString) :
    encodeUtf8 (utf16Units c ++ rest) = String.utf8EncodeChar c ++ encodeUtf8 rest := by
  rw [← encodeRune_val]
  rcases utf16Units_cases c with ⟨u, hunits, hhigh, -, hrune⟩ |
    ⟨high, low, hunits, hhigh, hlow, hrune⟩
  · rw [hunits, List.singleton_append, encodeUtf8_cons hhigh, hrune]
  · rw [hunits, List.cons_append, List.singleton_append, encodeUtf8_pair hhigh hlow, hrune]

theorem encodeUtf8_flatMap_utf16Units (cs : List Char) :
    encodeUtf8 (cs.flatMap utf16Units) = cs.flatMap String.utf8EncodeChar := by
  induction cs with
  | nil => rfl
  | cons c cs ih => rw [List.flatMap_cons, List.flatMap_cons, encodeUtf8_utf16Units, ih]

/-! ## Texts without surrogates -/

/-- No unit of a text is a surrogate. -/
def NoSurrogate (s : WString) : Prop :=
  ∀ u ∈ s, isHighSurrogate u = false ∧ isLowSurrogate u = false

theorem noSurrogate_of_all {s : WString}
    (h : s.all (fun u => !isHighSurrogate u && !isLowSurrogate u) = true) : NoSurrogate s := by
  intro u hu
  simpa using List.all_eq_true.mp h u hu

theorem NoSurrogate.append {s t : WString} (hs : NoSurrogate s) (ht : NoSurrogate t) :
    NoSurrogate (s ++ t) := by
  intro u hu
  exact (List.mem_append.mp hu).elim (hs u) (ht u)

theorem NoSurrogate.pairedPart_append {s : WString} (h : NoSurrogate s) (t : WString) :
    pairedPart (s ++ t) = s ++ pairedPart t := by
  induction s with
  | nil => rfl
  | cons u s ih =>
      have hu := (h u List.mem_cons_self).1
      have hcons : pairedPart (u :: (s ++ t)) = u :: pairedPart (s ++ t) := by
        cases hst : s ++ t with
        | nil => simp [pairedPart, hu]
        | cons v rest => simp [pairedPart, hu]
      rw [List.cons_append, hcons, ih fun v hv => h v (List.mem_cons_of_mem _ hv)]
      rfl

theorem NoSurrogate.paired {s : WString} (h : NoSurrogate s) : Paired s := by
  have hsame := h.pairedPart_append []
  rwa [pairedPart, List.append_nil] at hsame

/-- Both sides of a unit that is no surrogate are paired where the whole text is. -/
theorem Paired.cut {c : WChar} (hhigh : isHighSurrogate c = false)
    (hlow : isLowSurrogate c = false) {s t : WString} (h : Paired (s ++ c :: t)) :
    Paired s ∧ Paired t := by
  rw [Paired, pairedPart_append_cons hhigh hlow] at h
  by_cases hs : Paired s
  · rw [if_pos hs, List.append_cancel_left_eq, List.cons.injEq] at h
    exact ⟨hs, h.2⟩
  · rw [if_neg hs] at h
    rcases pairedPart_cases s with hpaired | ⟨d, rest, -, hcut⟩
    · exact absurd hpaired hs
    · have hlength := congrArg List.length hcut
      rw [h, List.length_append, List.length_append, List.length_cons] at hlength
      omega

/-! ## Well-formed texts -/

/-- A text is the UTF-16 form of some characters. -/
def WellFormed (s : WString) : Prop :=
  ∃ cs : List Char, s = cs.flatMap utf16Units

theorem WellFormed.append {s t : WString} (hs : WellFormed s) (ht : WellFormed t) :
    WellFormed (s ++ t) := by
  obtain ⟨cs, rfl⟩ := hs
  obtain ⟨ds, rfl⟩ := ht
  exact ⟨cs ++ ds, List.flatMap_append.symm⟩

theorem WellFormed.paired {s : WString} (h : WellFormed s) : Paired s := by
  obtain ⟨cs, rfl⟩ := h
  induction cs with
  | nil => rfl
  | cons c cs ih =>
      rw [List.flatMap_cons]
      rcases utf16Units_cases c with ⟨u, hunits, hhigh, -, -⟩ | ⟨high, low, hunits, hhigh, hlow, -⟩
      · rw [hunits]
        exact ih.cons hhigh
      · rw [hunits]
        exact ih.cons_pair hhigh hlow

theorem wellFormed_singleton {u : WChar} (hhigh : isHighSurrogate u = false)
    (hlow : isLowSurrogate u = false) : WellFormed [u] := by
  have hu := u.toNat_lt
  rw [← Bool.not_eq_true, isHighSurrogate_iff] at hhigh
  rw [← Bool.not_eq_true, isLowSurrogate_iff] at hlow
  have hvalid : u.toNat.isValidChar := by
    unfold Nat.isValidChar
    omega
  have hchar : (Char.ofNatAux u.toNat hvalid).toNat = u.toNat := rfl
  refine ⟨[Char.ofNatAux u.toNat hvalid], ?_⟩
  rw [List.flatMap_singleton, utf16Units, hchar, if_pos hu, UInt16.ofNat_toNat]

theorem NoSurrogate.wellFormed {s : WString} (h : NoSurrogate s) : WellFormed s := by
  induction s with
  | nil => exact ⟨[], rfl⟩
  | cons u s ih =>
      obtain ⟨hhigh, hlow⟩ := h u List.mem_cons_self
      exact (wellFormed_singleton hhigh hlow).append
        (ih fun v hv => h v (List.mem_cons_of_mem _ hv))

/-- A well-formed text can be cut at every unit that is no surrogate. -/
theorem wellFormed_append_cons {s t : WString} {u : WChar} (hhigh : isHighSurrogate u = false)
    (hlow : isLowSurrogate u = false) :
    WellFormed (s ++ u :: t) ↔ WellFormed s ∧ WellFormed t := by
  constructor
  · rintro ⟨cs, heq⟩
    induction cs generalizing s with
    | nil => simp at heq
    | cons c cs ih =>
        rw [List.flatMap_cons] at heq
        rcases utf16Units_cases c with ⟨v, hunits, -, -, -⟩ | ⟨high, low, hunits, hchigh, hclow, -⟩
        · rw [hunits, List.singleton_append] at heq
          cases s with
          | nil => exact ⟨⟨[], rfl⟩, cs, (List.cons.inj heq).2⟩
          | cons w s =>
              obtain ⟨rfl, hrest⟩ := List.cons.inj heq
              obtain ⟨⟨ds, hds⟩, ht⟩ := ih hrest
              refine ⟨⟨c :: ds, ?_⟩, ht⟩
              rw [List.flatMap_cons, hunits, ← hds]
              rfl
        · rw [hunits, List.cons_append, List.singleton_append] at heq
          -- the unit is neither the first nor the second one of a pair
          rcases s with _ | ⟨w, _ | ⟨w', s⟩⟩
          · rw [(List.cons.inj heq).1, hchigh] at hhigh
            cases hhigh
          · rw [(List.cons.inj (List.cons.inj heq).2).1, hclow] at hlow
            cases hlow
          · simp only [List.cons_append, List.cons.injEq] at heq
            obtain ⟨rfl, rfl, hrest⟩ := heq
            obtain ⟨⟨ds, hds⟩, ht⟩ := ih hrest
            refine ⟨⟨c :: ds, ?_⟩, ht⟩
            rw [List.flatMap_cons, hunits, ← hds]
            rfl
  · rintro ⟨hs, ht⟩
    exact hs.append ((wellFormed_singleton hhigh hlow).append ht)

theorem NoSurrogate.wellFormed_append_iff {s t : WString} (h : NoSurrogate s) :
    WellFormed (s ++ t) ↔ WellFormed t := by
  induction s with
  | nil => exact Iff.rfl
  | cons u s ih =>
      obtain ⟨hhigh, hlow⟩ := h u List.mem_cons_self
      have hempty : WellFormed [] := ⟨[], rfl⟩
      have hcons : WellFormed (u :: (s ++ t)) ↔ WellFormed [] ∧ WellFormed (s ++ t) :=
        wellFormed_append_cons (s := []) hhigh hlow
      rw [List.cons_append, hcons, ih fun v hv => h v (List.mem_cons_of_mem _ hv),
        and_iff_right hempty]

end Baulk
