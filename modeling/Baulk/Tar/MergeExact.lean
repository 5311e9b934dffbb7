import Baulk.Tar.Merging
import Mathlib.Algebra.Order.Group.Unbundled.Abs
import Mathlib.Tactic.Ring

/-!
# When a merge is exact

A merge is exact if it fails or takes every value for what it spells.  The user
may be misspelled, numbers may have anything behind them and may be too large for
an `int`, and a fraction of a second counts as the seconds do.
-/

namespace Baulk.Tar

open Support (KeysNodup)

/-! ## What values spell -/

/-- The whole value is a decimal number. -/
def Spells (v : Bytes) (n : Int) : Prop :=
  ∃ t : LeadingNumber 10, t.run.junk = [] ∧ t.text = v ∧ t.value = n

/-- Seconds with a fraction, of which there may be nothing. -/
structure TimeText where
  negative : Bool
  seconds : Bytes
  point : Bool
  fraction : Bytes
  seconds_ne : seconds ≠ []
  seconds_valid : ∀ c ∈ seconds, IsDigit 10 c
  fraction_valid : ∀ c ∈ fraction, IsDigit 10 c
  fraction_nil : point = false → fraction = []

namespace TimeText

/-- The seconds as a text that is read. -/
def number (x : TimeText) : LeadingNumber 10 where
  negative := x.negative
  run :=
    { digits := x.seconds
      junk := []
      digits_ne := x.seconds_ne
      digits_valid := x.seconds_valid
      junk_valid := not_isDigit_of_head_nil }

def text (x : TimeText) : Bytes :=
  x.number.text ++ if x.point then 0x2E :: x.fraction else []

/-- The fraction as a signed number of units of `10 ^ -fraction.length` seconds. -/
def signedFraction (x : TimeText) : Int :=
  if x.negative then -digitsValue 10 x.fraction else digitsValue 10 x.fraction

/-- The time is the instant up to less than a nanosecond. -/
def Instant (x : TimeText) (t : Time) : Prop :=
  |t * 10 ^ x.fraction.length -
      (x.number.value * 10 ^ x.fraction.length + x.signedFraction) * 1000000000| <
    10 ^ x.fraction.length

/-- There is no fraction, or its nanoseconds are what the seconds leave in 30
bits. -/
def Fortunate (x : TimeText) : Prop :=
  x.fraction = [] ∨
    |x.number.value % 2 ^ 30 * 10 ^ x.fraction.length - x.signedFraction * 1000000000| <
      10 ^ x.fraction.length

end TimeText

/-- The whole value is seconds with a fraction, and the time is that instant. -/
def SpellsInstant (v : Bytes) (t : Time) : Prop :=
  ∃ x : TimeText, x.text = v ∧ x.Instant t

theorem point_not_mem_number (x : TimeText) : (0x2E : UInt8) ∉ x.number.text := by
  have hdigits : (0x2E : UInt8) ∉ x.seconds ++ [] := by
    rw [List.append_nil]
    exact fun hmem => absurd (x.seconds_valid _ hmem).1 (by decide)
  unfold LeadingNumber.text
  split
  · rw [List.mem_cons, not_or]
    exact ⟨by decide, hdigits⟩
  · exact hdigits

theorem secondsText_text (x : TimeText) : secondsText x.text = x.number.text := by
  have hall : ∀ c ∈ x.number.text, decide (c ≠ (0x2E : UInt8)) = true := fun c hc =>
    decide_eq_true fun heq => point_not_mem_number x (heq ▸ hc)
  unfold secondsText TimeText.text
  rw [List.takeWhile_append_of_pos hall]
  cases x.point with
  | false => simp
  | true => simp

theorem fractionText_text (x : TimeText) :
    (x.text.dropWhile (· ≠ 0x2E)).drop 1 = x.fraction := by
  have hall : ∀ c ∈ x.number.text, decide (c ≠ (0x2E : UInt8)) = true := fun c hc =>
    decide_eq_true fun heq => point_not_mem_number x (heq ▸ hc)
  unfold TimeText.text
  rw [List.dropWhile_append_of_pos hall]
  cases hpoint : x.point with
  | false => simp [x.fraction_nil hpoint]
  | true => simp

/-- Where the seconds fit, a time is seconds with the nanoseconds read from them. -/
theorem timeOf_text {x : TimeText} (hrange : fromCharsInt64 10 x.number.text ≠ none) :
    timeOf x.text = x.number.value * 1000000000 +
      if x.fraction = [] then 0 else x.number.value % 2 ^ 30 := by
  have hread : numberOr x.number.text = x.number.value := by
    unfold numberOr
    unfold fromCharsInt64 at hrange ⊢
    rw [fromChars_text] at hrange ⊢
    split at hrange
    · next h => rw [if_pos h]; rfl
    · exact absurd rfl hrange
  have hseconds : x.text.takeWhile (· ≠ 0x2E) = x.number.text := secondsText_text x
  unfold timeOf
  dsimp only
  rw [hseconds, fractionText_text, hread, Time.fromUnix]
  cases x.fraction with
  | nil => rfl
  | cons c f => rfl

theorem instant_timeOf_iff {x : TimeText}
    (hrange : fromCharsInt64 10 x.number.text ≠ none) :
    x.Instant (timeOf x.text) ↔ x.Fortunate := by
  unfold TimeText.Instant TimeText.Fortunate
  rw [timeOf_text hrange]
  by_cases hfraction : x.fraction = []
  · have hzero : x.signedFraction = 0 := by
      unfold TimeText.signedFraction
      rw [hfraction]
      split <;> rfl
    rw [if_pos hfraction, hzero, hfraction]
    simp
  · rw [if_neg hfraction, or_iff_right hfraction]
    have hdiff : (x.number.value * 1000000000 + x.number.value % 2 ^ 30) *
          10 ^ x.fraction.length -
        (x.number.value * 10 ^ x.fraction.length + x.signedFraction) * 1000000000 =
        x.number.value % 2 ^ 30 * 10 ^ x.fraction.length -
          x.signedFraction * 1000000000 := by
      ring
    rw [hdiff]

/-- Where the seconds are read, the code's time is the instant that is spelled if and
only if the fraction is fortunate. -/
theorem spellsInstant_timeOf_iff {v : Bytes}
    (hread : fromCharsInt64 10 (secondsText v) ≠ none) :
    SpellsInstant v (timeOf v) ↔ ∃ x : TimeText, x.text = v ∧ x.Fortunate := by
  refine exists_congr fun x => and_congr_right fun hx => ?_
  subst hx
  rw [secondsText_text] at hread
  exact instant_timeOf_iff hread

theorem numberOr_of_spells {v : Bytes} (hread : fromCharsInt64 10 v ≠ none) {n : Int}
    (hspells : Spells v n) : numberOr v = n := by
  obtain ⟨t, -, rfl, rfl⟩ := hspells
  unfold numberOr
  unfold fromCharsInt64 at hread ⊢
  rw [fromChars_text] at hread ⊢
  split at hread
  · next h => rw [if_pos h]; rfl
  · exact absurd rfl hread

/-- The number fits in an `int`. -/
def FitsInt (n : Int) : Prop :=
  -2 ^ 31 ≤ n ∧ n < 2 ^ 31

theorem toInt_fits (n : Int) : FitsInt (toInt n) := by
  have hlow := Int.le_bmod (x := n) (m := 2 ^ 32) (by decide)
  have hhigh := Int.bmod_lt (x := n) (m := 2 ^ 32) (by decide)
  unfold FitsInt toInt
  omega

theorem toInt_of_fits {n : Int} (h : FitsInt n) : toInt n = n := by
  unfold FitsInt at h
  exact Int.bmod_eq_of_le (by omega) (by omega)

theorem spells_toInt_iff {v : Bytes} :
    Spells v (toInt (numberOr v)) ↔ ∃ n, Spells v n ∧ FitsInt n := by
  constructor
  · intro hspells
    exact ⟨_, hspells, toInt_fits _⟩
  · rintro ⟨n, hspells, hfits⟩
    have hread : fromCharsInt64 10 v ≠ none := by
      obtain ⟨t, -, rfl, rfl⟩ := hspells
      unfold FitsInt at hfits
      unfold fromCharsInt64 int64Min int64Max
      rw [fromChars_text, if_pos (by omega)]
      exact Option.some_ne_none _
    rw [numberOr_of_spells hread hspells, toInt_of_fits hfits]
    exact hspells

/-! ## What a merge should do -/

/-- A field keeps its value, or has what is given. -/
def FieldSays {α : Type} (value : Option Bytes) (old new : α) (means : Bytes → α → Prop) :
    Prop :=
  value.elim (new = old) fun v => means v new

/-- Every recognised record is applied exactly, and nothing else happens. -/
structure Applied (records : PaxRecords) (h h' : Header) : Prop where
  name : FieldSays (given records paxPath) h.name h'.name fun v w => w = v
  linkName : FieldSays (given records paxLinkpath) h.linkName h'.linkName fun v w => w = v
  uname : FieldSays (given records paxUname) h.uname h'.uname fun v w => w = v
  gname : FieldSays (given records paxGname) h.gname h'.gname fun v w => w = v
  uid : FieldSays (given records paxUid) h.uid h'.uid Spells
  gid : FieldSays (given records paxGid) h.gid h'.gid Spells
  size : FieldSays (given records paxSize) h.size h'.size Spells
  accessTime : FieldSays (given records paxAtime) h.accessTime h'.accessTime SpellsInstant
  modTime : FieldSays (given records paxMtime) h.modTime h'.modTime SpellsInstant
  changeTime : FieldSays (given records paxCtime) h.changeTime h'.changeTime SpellsInstant
  xattrs : ∀ name, FieldSays (given records (paxSchilyXattr ++ name))
    (h.xattrs.lookup name) (h'.xattrs.lookup name) fun v w => w = some v
  paxRecords : h'.paxRecords = records
  rest : (h'.mode, h'.devmajor, h'.devminor, h'.format, h'.typeflag) =
    (h.mode, h.devmajor, h.devminor, h.format, h.typeflag)

/-- Equal headers, if extended attributes are looked up. -/
def SameHeader (h h' : Header) : Prop :=
  { h with xattrs := [] } = { h' with xattrs := [] } ∧
    ∀ name, h.xattrs.lookup name = h'.xattrs.lookup name

/-- A merge fails with an error or applies every record exactly, and the order in
which the map is traversed does not matter. -/
structure ExactMerge (records : PaxRecords) (h : Header) : Prop where
  error : ∀ rt ec, (mergePAX rt h records ec).1 = false →
    (mergePAX rt h records ec).2.2.code ≠ 0
  applied : ∀ rt ec, (mergePAX rt h records ec).1 = true →
    Applied records h (mergePAX rt h records ec).2.1
  order : ∀ rt rt' ec ec',
    (mergePAX rt h records ec).1 = (mergePAX rt' h records ec').1 ∧
      ((mergePAX rt h records ec).1 = true →
        SameHeader (mergePAX rt h records ec).2.1 (mergePAX rt' h records ec').2.1)

/-- What the values have to be for an exact merge. -/
structure Plain (records : PaxRecords) (h : Header) : Prop where
  uid : ∀ v, given records paxUid = some v → ∃ n, Spells v n ∧ FitsInt n
  gid : ∀ v, given records paxGid = some v → ∃ n, Spells v n ∧ FitsInt n
  size : ∀ v, given records paxSize = some v → ∃ n, Spells v n
  times : ∀ k v, IsTimeKey k → given records k = some v →
    ∃ x : TimeText, x.text = v ∧ x.Fortunate
  xattrs : ∀ name v w, given records (paxSchilyXattr ++ name) = some v →
    h.xattrs.lookup name = some w → w = v

theorem fieldSays_elim {α : Type} {value : Option Bytes} {old : α} {g : Bytes → α}
    {means : Bytes → α → Prop} :
    FieldSays value old (value.elim old g) means ↔ ∀ v, value = some v → means v (g v) := by
  cases value with
  | none => exact ⟨fun _ _ h => (by cases h), fun _ => rfl⟩
  | some v => exact ⟨fun h _ heq => by cases heq; exact h, fun h => h v rfl⟩

theorem applyRecords_rest (h : Header) (records : PaxRecords) :
    ((applyRecords h records).mode, (applyRecords h records).devmajor,
        (applyRecords h records).devminor, (applyRecords h records).format,
        (applyRecords h records).typeflag) =
      (h.mode, h.devmajor, h.devminor, h.format, h.typeflag) := by
  induction records generalizing h with
  | nil => rfl
  | cons p records ih =>
      rw [applyRecords, List.foldl_cons, ← applyRecords, ih]
      unfold applyStep
      split <;> rfl

theorem mem_of_given {records : PaxRecords} {k v : Bytes} (h : given records k = some v) :
    (k, v) ∈ records ∧ v ≠ [] := by
  unfold given at h
  obtain ⟨hlookup, hne⟩ := Option.filter_eq_some_iff.mp h
  obtain ⟨l₁, l₂, rfl, -⟩ := List.lookup_eq_some_iff.mp hlookup
  refine ⟨by simp, ?_⟩
  rintro rfl
  cases hne

/-! ## Exactness -/

section Merged

variable {records l : PaxRecords} (hkeys : KeysNodup records) (hperm : l.Perm records)

include hkeys hperm

theorem merged_field {α : Type} {f : Header → α} {key : Bytes} {g : α → Bytes → α}
    (hf : ∀ h k v, f (applyRecord h k v) = if k = key then g (f h) v else f h)
    (h : Header) :
    f (applyRecords h l) = (given records key).elim (f h) (g (f h)) := by
  have hl : KeysNodup l := (hperm.map Prod.fst).nodup_iff.mpr hkeys
  rw [applyRecords_field hf hl, given_perm hkeys hperm]

theorem merged_fieldSays {α : Type} {f : Header → α} {key : Bytes} {g : Bytes → α}
    (hf : ∀ h k v, f (applyRecord h k v) = if k = key then g v else f h)
    (h : Header) (means : Bytes → α → Prop) :
    FieldSays (given records key) (f h) (f (applyRecords h l)) means ↔
      ∀ v, given records key = some v → means v (g v) := by
  rw [merged_field hkeys hperm (f := f) (g := fun _ => g) hf]
  exact fieldSays_elim

theorem applied_iff (hread : AllReadable records) (h : Header) :
    Applied records h { applyRecords h l with paxRecords := records } ↔ Plain records h := by
  have htime : ∀ k v, IsTimeKey k → given records k = some v →
      fromCharsInt64 10 (secondsText v) ≠ none := by
    intro k v hk hv
    obtain ⟨hmem, hne⟩ := mem_of_given hv
    exact (hread _ hmem hne).2 hk
  have hnumber : ∀ k v, k = paxGid ∨ k = paxSize → given records k = some v →
      fromCharsInt64 10 v ≠ none := by
    intro k v hk hv
    obtain ⟨hmem, hne⟩ := mem_of_given hv
    exact (hread _ hmem hne).1 hk
  have hxattrs : ∀ name, (applyRecords h l).xattrs.lookup name =
      (given records (paxSchilyXattr ++ name)).elim (h.xattrs.lookup name)
        fun v => (h.xattrs.lookup name).or (some v) :=
    fun name => merged_field hkeys hperm (f := fun h => h.xattrs.lookup name)
      (g := fun old v => old.or (some v)) (fun h k v => applyRecord_xattr h name k v) h
  constructor
  · intro happlied
    refine ⟨?_, ?_, ?_, ?_, ?_⟩
    · intro v hv
      exact spells_toInt_iff.mp ((merged_fieldSays hkeys hperm (fun _ _ _ => rfl) h _).mp
        happlied.uid v hv)
    · intro v hv
      exact spells_toInt_iff.mp ((merged_fieldSays hkeys hperm (fun _ _ _ => rfl) h _).mp
        happlied.gid v hv)
    · intro v hv
      exact ⟨_, (merged_fieldSays hkeys hperm (fun _ _ _ => rfl) h _).mp happlied.size v hv⟩
    · intro k v hk hv
      refine (spellsInstant_timeOf_iff (htime k v hk hv)).mp ?_
      rcases hk with rfl | rfl | rfl
      · exact (merged_fieldSays hkeys hperm (fun _ _ _ => rfl) h _).mp
          happlied.accessTime v hv
      · exact (merged_fieldSays hkeys hperm (fun _ _ _ => rfl) h _).mp
          happlied.modTime v hv
      · exact (merged_fieldSays hkeys hperm (fun _ _ _ => rfl) h _).mp
          happlied.changeTime v hv
    · intro name v w hv hw
      have hname := happlied.xattrs name
      dsimp only at hname
      rw [hxattrs, hv, hw] at hname
      exact Option.some.inj hname
  · intro hplain
    refine ⟨?_, ?_, ?_, ?_, ?_, ?_, ?_, ?_, ?_, ?_, ?_, rfl, applyRecords_rest h l⟩
    · exact (merged_fieldSays hkeys hperm (fun _ _ _ => rfl) h _).mpr fun _ _ => rfl
    · exact (merged_fieldSays hkeys hperm (fun _ _ _ => rfl) h _).mpr fun _ _ => rfl
    · exact (merged_fieldSays hkeys hperm (fun _ _ _ => rfl) h _).mpr fun _ _ => rfl
    · exact (merged_fieldSays hkeys hperm (fun _ _ _ => rfl) h _).mpr fun _ _ => rfl
    · exact (merged_fieldSays hkeys hperm (fun _ _ _ => rfl) h _).mpr fun v hv =>
        spells_toInt_iff.mpr (hplain.uid v hv)
    · exact (merged_fieldSays hkeys hperm (fun _ _ _ => rfl) h _).mpr fun v hv =>
        spells_toInt_iff.mpr (hplain.gid v hv)
    · refine (merged_fieldSays hkeys hperm (fun _ _ _ => rfl) h _).mpr fun v hv => ?_
      obtain ⟨n, hn⟩ := hplain.size v hv
      rw [numberOr_of_spells (hnumber _ v (.inr rfl) hv) hn]
      exact hn
    · exact (merged_fieldSays hkeys hperm (fun _ _ _ => rfl) h _).mpr fun v hv =>
        (spellsInstant_timeOf_iff (htime _ v (.inl rfl) hv)).mpr
          (hplain.times _ v (.inl rfl) hv)
    · exact (merged_fieldSays hkeys hperm (fun _ _ _ => rfl) h _).mpr fun v hv =>
        (spellsInstant_timeOf_iff (htime _ v (.inr (.inl rfl)) hv)).mpr
          (hplain.times _ v (.inr (.inl rfl)) hv)
    · exact (merged_fieldSays hkeys hperm (fun _ _ _ => rfl) h _).mpr fun v hv =>
        (spellsInstant_timeOf_iff (htime _ v (.inr (.inr rfl)) hv)).mpr
          (hplain.times _ v (.inr (.inr rfl)) hv)
    · intro name
      dsimp only
      rw [hxattrs]
      refine fieldSays_elim.mpr fun v hv => ?_
      cases hw : h.xattrs.lookup name with
      | none => rfl
      | some w => rw [hplain.xattrs name v w hv hw]; rfl

theorem sameHeader_of_perm {l' : PaxRecords} (hperm' : l'.Perm records) (h : Header) :
    SameHeader { applyRecords h l with paxRecords := records }
      { applyRecords h l' with paxRecords := records } := by
  have hfield : ∀ {α : Type} {f : Header → α} {key : Bytes} {g : α → Bytes → α},
      (∀ h k v, f (applyRecord h k v) = if k = key then g (f h) v else f h) →
        f (applyRecords h l) = f (applyRecords h l') := fun hf =>
    (merged_field hkeys hperm hf h).trans (merged_field hkeys hperm' hf h).symm
  have hrest := (applyRecords_rest h l).trans (applyRecords_rest h l').symm
  have hname := hfield (f := Header.name) (g := fun _ v => v) fun _ _ _ => rfl
  have hlinkName := hfield (f := Header.linkName) (g := fun _ v => v) fun _ _ _ => rfl
  have huname := hfield (f := Header.uname) (g := fun _ v => v) fun _ _ _ => rfl
  have hgname := hfield (f := Header.gname) (g := fun _ v => v) fun _ _ _ => rfl
  have huid := hfield (f := Header.uid) (g := fun _ v => toInt (numberOr v)) fun _ _ _ => rfl
  have hgid := hfield (f := Header.gid) (g := fun _ v => toInt (numberOr v)) fun _ _ _ => rfl
  have hsize := hfield (f := Header.size) (g := fun _ v => numberOr v) fun _ _ _ => rfl
  have hatime := hfield (f := Header.accessTime) (g := fun _ v => timeOf v) fun _ _ _ => rfl
  have hmtime := hfield (f := Header.modTime) (g := fun _ v => timeOf v) fun _ _ _ => rfl
  have hctime := hfield (f := Header.changeTime) (g := fun _ v => timeOf v) fun _ _ _ => rfl
  refine ⟨?_, fun name => hfield (f := fun h => h.xattrs.lookup name)
    (g := fun old v => old.or (some v)) fun h k v => applyRecord_xattr h name k v⟩
  generalize applyRecords h l = a at *
  generalize applyRecords h l' = b at *
  cases a
  cases b
  simp_all

end Merged

/-- A merge is exact if and only if it stops at a group, a size or seconds that are not
read, or every value is plain. -/
theorem exactMerge_iff {records : PaxRecords} (hkeys : KeysNodup records) (h : Header) :
    ExactMerge records h ↔ ¬ AllReadable records ∨ Plain records h := by
  by_cases hread : AllReadable records
  · have hmerge : ∀ rt ec, ∃ ec', mergePAX rt h records ec =
        (true, { applyRecords h (rt.iterate records) with paxRecords := records }, ec') :=
      fun rt ec => (mergePAX_eq rt h records ec).1 hread
    rw [or_iff_right (not_not.mpr hread)]
    constructor
    · intro hexact
      have happlied := hexact.applied plainRuntime {}
      obtain ⟨ec', heq⟩ := hmerge plainRuntime {}
      rw [heq] at happlied
      exact (applied_iff hkeys (plainRuntime.iterate_perm records) hread h).mp
        (happlied rfl)
    · intro hplain
      refine ⟨?_, ?_, ?_⟩
      · intro rt ec hfalse
        obtain ⟨ec', heq⟩ := hmerge rt ec
        rw [heq] at hfalse
        cases hfalse
      · intro rt ec _
        obtain ⟨ec', heq⟩ := hmerge rt ec
        rw [heq]
        exact (applied_iff hkeys (rt.iterate_perm records) hread h).mpr hplain
      · intro rt rt' ec ec'
        obtain ⟨_, heq⟩ := hmerge rt ec
        obtain ⟨_, heq'⟩ := hmerge rt' ec'
        rw [heq, heq']
        exact ⟨rfl, fun _ => sameHeader_of_perm hkeys (rt.iterate_perm records)
          (rt'.iterate_perm records) h⟩
  · have hmerge : ∀ rt ec, ∃ h' ec', mergePAX rt h records ec = (false, h', ec') ∧
        ec'.code ≠ 0 := fun rt ec => (mergePAX_eq rt h records ec).2 hread
    refine iff_of_true ⟨?_, ?_, ?_⟩ (.inl hread)
    · intro rt ec _
      obtain ⟨h', ec', heq, hcode⟩ := hmerge rt ec
      rw [heq]
      exact hcode
    · intro rt ec htrue
      obtain ⟨h', ec', heq, -⟩ := hmerge rt ec
      rw [heq] at htrue
      cases htrue
    · intro rt rt' ec ec'
      obtain ⟨_, _, heq, -⟩ := hmerge rt ec
      obtain ⟨_, _, heq', -⟩ := hmerge rt' ec'
      rw [heq, heq']
      exact ⟨rfl, fun htrue => by cases htrue⟩

def twelve : LeadingNumber 10 where
  negative := false
  run :=
    { digits := narrow "12"
      junk := []
      digits_ne := by decide
      digits_valid := by
        intro c hc
        rw [← isDigit_eq_true]
        revert c
        decide +kernel
      junk_valid := not_isDigit_of_head_nil }

/-- A name and a size are merged exactly. -/
theorem exactMerge_size :
    ExactMerge [(paxPath, narrow "a"), (paxSize, narrow "12")] {} := by
  have hkeys : KeysNodup [(paxPath, narrow "a"), (paxSize, narrow "12")] := by
    unfold KeysNodup
    decide
  have hgiven : ∀ k v, given [(paxPath, narrow "a"), (paxSize, narrow "12")] k = some v →
      k = paxPath ∨ k = paxSize ∧ v = narrow "12" := by
    intro k v hv
    have hmem := (mem_of_given hv).1
    simp only [List.mem_cons, List.not_mem_nil, or_false, Prod.mk.injEq] at hmem
    exact hmem.imp And.left id
  refine (exactMerge_iff hkeys {}).mpr (.inr ⟨?_, ?_, ?_, ?_, ?_⟩)
  · intro v hv
    exact absurd ((hgiven _ v hv).imp id And.left) (by decide)
  · intro v hv
    exact absurd ((hgiven _ v hv).imp id And.left) (by decide)
  · intro v hv
    obtain hpath | ⟨-, rfl⟩ := hgiven _ v hv
    · exact absurd hpath (by decide)
    · exact ⟨12, twelve, rfl, by decide, by decide⟩
  · intro k v hk hv
    obtain rfl | ⟨rfl, -⟩ := hgiven k v hv <;> unfold IsTimeKey at hk <;>
      exact absurd hk (by decide)
  · intro name v w _ hw
    cases hw

theorem not_spells_letter (n : Int) : ¬ Spells (narrow "x") n := by
  rintro ⟨t, hjunk, htext, -⟩
  have hread := fromChars_text t n n
  have hdigit := t.run.digits_valid
  have hne := t.run.digits_ne
  unfold LeadingNumber.text DigitRun.text at htext
  rw [hjunk, List.append_nil] at htext
  split at htext
  · cases htext
  · rw [htext] at hdigit
    exact absurd (hdigit 0x78 (by decide)).2 (by decide)

theorem timeText_half {x : TimeText} (h : x.text = narrow "1.5") : ¬ x.Fortunate := by
  have hfraction : x.fraction = narrow "5" := by
    rw [← fractionText_text, h]
    decide
  have hseconds : x.number.text = narrow "1" := by
    rw [← secondsText_text, h]
    decide
  have hnegative : x.negative = false := by
    by_contra hneg
    unfold LeadingNumber.text at hseconds
    rw [if_pos (Bool.not_eq_false _ ▸ hneg)] at hseconds
    cases hseconds
  have hvalue : x.number.value = 1 := by
    have hread := fromChars_text x.number (-1) 1
    rw [hseconds, show fromChars 10 (-1) 1 (narrow "1") = some 1 by decide] at hread
    split at hread
    · exact (Option.some.inj hread).symm
    · cases hread
  have hsigned : x.signedFraction = 5 := by
    unfold TimeText.signedFraction
    rw [hnegative, hfraction]
    decide
  unfold TimeText.Fortunate
  rw [hvalue, hsigned, hfraction]
  decide

/-- A user that is no number does not stop the merge, and half a second is read as
the seconds in nanoseconds. -/
theorem merge_not_exact :
    ¬ ExactMerge [(paxUid, narrow "x")] {} ∧ ¬ ExactMerge [(paxMtime, narrow "1.5")] {} := by
  constructor
  · intro hexact
    exact not_spells_letter 0 (hexact.applied plainRuntime {} rfl).uid
  · intro hexact
    have hspells : SpellsInstant (narrow "1.5") (timeOf (narrow "1.5")) :=
      (hexact.applied plainRuntime {} rfl).modTime
    obtain ⟨x, htext, hfortunate⟩ :=
      (spellsInstant_timeOf_iff (by decide)).mp hspells
    exact timeText_half htext hfortunate

end Baulk.Tar
