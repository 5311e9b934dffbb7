import Mathlib.Algebra.Order.Ring.Nat
import Mathlib.Data.List.Induction
import Mathlib.Tactic.Ring

/-!
# Numerals of a fixed width

The value of a list of digits, the highest one first, and the numeral that a
number has in a given width.
-/

namespace Baulk.Support

/-- The number that digits stand for, the highest one first. -/
def numberOf (b : Nat) (ds : List Nat) : Nat :=
  ds.foldl (fun n d => n * b + d) 0

/-- The last `w` digits of a number. -/
def numeral (b : Nat) : Nat → Nat → List Nat
  | 0, _ => []
  | w + 1, n => numeral b w (n / b) ++ [n % b]

variable {b : Nat}

theorem numberOf_concat (ds : List Nat) (d : Nat) :
    numberOf b (ds ++ [d]) = numberOf b ds * b + d := by
  unfold numberOf
  rw [List.foldl_append]
  rfl

/-- Reading on from a number moves it before the digits that follow. -/
theorem foldl_digits (ds : List Nat) (n : Nat) :
    ds.foldl (fun n d => n * b + d) n = n * b ^ ds.length + numberOf b ds := by
  induction ds using List.reverseRecOn with
  | nil => simp [numberOf]
  | append_singleton ds d ih =>
      rw [List.foldl_append, ih, numberOf_concat, List.length_append,
        List.length_singleton, Nat.pow_succ]
      change (n * b ^ ds.length + numberOf b ds) * b + d = _
      ring

theorem numberOf_cons (d : Nat) (ds : List Nat) :
    numberOf b (d :: ds) = d * b ^ ds.length + numberOf b ds := by
  rw [← foldl_digits]
  unfold numberOf
  rw [List.foldl_cons, Nat.zero_mul, Nat.zero_add]

theorem numberOf_zeros_append {zs : List Nat} (h : ∀ z ∈ zs, z = 0)
    (ds : List Nat) : numberOf b (zs ++ ds) = numberOf b ds := by
  induction zs with
  | nil => rfl
  | cons z zs ih =>
      rw [h z List.mem_cons_self]
      have hstart : numberOf b (0 :: (zs ++ ds)) = numberOf b (zs ++ ds) := by
        unfold numberOf
        rw [List.foldl_cons, Nat.zero_mul]
      rw [List.cons_append, hstart]
      exact ih fun z' hz' => h z' (List.mem_cons_of_mem _ hz')

theorem numberOf_zeros {zs : List Nat} (h : ∀ z ∈ zs, z = 0) :
    numberOf b zs = 0 := by
  have := @numberOf_zeros_append b zs h []
  rwa [List.append_nil] at this

theorem numberOf_lt {ds : List Nat} (h : ∀ d ∈ ds, d < b) :
    numberOf b ds < b ^ ds.length := by
  induction ds using List.reverseRecOn with
  | nil => exact Nat.one_pos
  | append_singleton ds d ih =>
      have hd : d < b := h d (by simp)
      have hds := ih fun d' hd' => h d' (List.mem_append_left _ hd')
      rw [numberOf_concat, List.length_append, List.length_singleton, Nat.pow_succ]
      calc numberOf b ds * b + d
          < numberOf b ds * b + b := Nat.add_lt_add_left hd _
        _ = (numberOf b ds + 1) * b := by ring
        _ ≤ b ^ ds.length * b := Nat.mul_le_mul_right b hds

/-- Digits and their complements add up to the highest number of the width. -/
theorem numberOf_complement {ds : List Nat} (h : ∀ d ∈ ds, d < b) :
    numberOf b (ds.map fun d => b - 1 - d) + numberOf b ds + 1 = b ^ ds.length := by
  induction ds with
  | nil => rfl
  | cons d ds ih =>
      have hd : d < b := h d List.mem_cons_self
      have hds := ih fun d' hd' => h d' (List.mem_cons_of_mem _ hd')
      obtain ⟨e, rfl⟩ : ∃ e, b = d + e + 1 := ⟨b - d - 1, by omega⟩
      have he : d + e + 1 - 1 - d = e := by omega
      rw [List.map_cons, numberOf_cons, numberOf_cons, List.length_map,
        List.length_cons, Nat.pow_succ, ← hds, he]
      ring

theorem length_numeral (w n : Nat) : (numeral b w n).length = w := by
  induction w generalizing n with
  | zero => rfl
  | succ w ih => rw [numeral, List.length_append, ih, List.length_singleton]

theorem lt_of_mem_numeral (hb : 0 < b) {w n d : Nat} (h : d ∈ numeral b w n) :
    d < b := by
  induction w generalizing n with
  | zero => cases h
  | succ w ih =>
      rw [numeral, List.mem_append, List.mem_singleton] at h
      rcases h with h | rfl
      · exact ih h
      · exact Nat.mod_lt _ hb

theorem numberOf_numeral {w n : Nat} (h : n < b ^ w) :
    numberOf b (numeral b w n) = n := by
  induction w generalizing n with
  | zero =>
      rw [Nat.pow_zero, Nat.lt_one_iff] at h
      rw [h]
      rfl
  | succ w ih =>
      have hdiv : n / b < b ^ w := Nat.div_lt_of_lt_mul (by rwa [Nat.pow_succ'] at h)
      rw [numeral, numberOf_concat, ih hdiv, Nat.mul_comm]
      exact Nat.div_add_mod n b

end Baulk.Support
