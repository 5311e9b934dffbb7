import Baulk.Support.Lookup
import Baulk.Tar.Decimal
import Baulk.Tar.FileReader
import Baulk.Tar.Pax

/-!
# What merging does to a header

`mergePAX` goes over the records in the order of a hash map.  A record changes
the field of its key and no other one, so the header depends on the records by
key only.  Numbers are read with `std::from_chars`, which does not look at what
stands behind them, and the nanoseconds of a time are read from its seconds.
-/

namespace Baulk.Tar

open Support (KeysNodup insertNew lookup_insertNew)

/-! ## One record -/

/-- The number that a record of a 64-bit field is taken for. -/
def numberOr (v : Bytes) : Int :=
  (fromCharsInt64 10 v).getD 0

/-- The time that a record is taken for. -/
def timeOf (v : Bytes) : Time :=
  let ss := v.takeWhile (· ≠ 0x2E)
  let sn := (v.dropWhile (· ≠ 0x2E)).drop 1
  Time.fromUnix (numberOr ss) (if sn.isEmpty then 0 else numberOr ss)

def applyRecord (h : Header) (k v : Bytes) : Header :=
  { h with
    name := if k = paxPath then v else h.name
    linkName := if k = paxLinkpath then v else h.linkName
    uname := if k = paxUname then v else h.uname
    gname := if k = paxGname then v else h.gname
    uid := if k = paxUid then toInt (numberOr v) else h.uid
    gid := if k = paxGid then toInt (numberOr v) else h.gid
    size := if k = paxSize then numberOr v else h.size
    accessTime := if k = paxAtime then timeOf v else h.accessTime
    modTime := if k = paxMtime then timeOf v else h.modTime
    changeTime := if k = paxCtime then timeOf v else h.changeTime
    xattrs :=
      if paxSchilyXattr.isPrefixOf k then
        emplace h.xattrs (k.drop paxSchilyXattr.length) v
      else h.xattrs }

def IsTimeKey (k : Bytes) : Prop :=
  k = paxAtime ∨ k = paxMtime ∨ k = paxCtime

def secondsText (v : Bytes) : Bytes :=
  v.takeWhile (· ≠ 0x2E)

/-- The merge goes on behind the record: a group, a size and the seconds of a time
have to begin with a 64-bit number.  A user need not. -/
def Readable (k v : Bytes) : Prop :=
  (k = paxGid ∨ k = paxSize → fromCharsInt64 10 v ≠ none) ∧
    (IsTimeKey k → fromCharsInt64 10 (secondsText v) ≠ none)

theorem parsePAXTime_eq (rt : Runtime) (v : Bytes) :
    (fromCharsInt64 10 (secondsText v) ≠ none → parsePAXTime rt v = .ok (timeOf v)) ∧
      (fromCharsInt64 10 (secondsText v) = none → ∃ ec : ErrorCode,
        parsePAXTime rt v = .error ec ∧ ec.code ≠ 0) := by
  unfold parsePAXTime timeOf numberOr secondsText
  dsimp only
  cases hread : fromCharsInt64 10 (v.takeWhile (· ≠ 0x2E)) with
  | none =>
      refine ⟨fun h => absurd rfl h, fun _ => ⟨_, rfl, ?_⟩⟩
      change ErrorCode.errExtractGeneral ≠ 0
      decide
  | some sec =>
      refine ⟨fun _ => ?_, fun h => by cases h⟩
      dsimp only
      split <;> rfl

def fieldKeys : List Bytes :=
  [paxPath, paxLinkpath, paxUname, paxGname, paxUid, paxGid, paxSize, paxAtime, paxMtime,
    paxCtime]

def stoppingKeys : List Bytes :=
  [paxGid, paxSize, paxAtime, paxMtime, paxCtime]

theorem stoppingKeys_subset : stoppingKeys ⊆ fieldKeys := by
  decide

theorem readable_of_not_mem {k : Bytes} (h : k ∉ stoppingKeys) (v : Bytes) :
    Readable k v := by
  simp only [stoppingKeys, List.mem_cons, List.not_mem_nil, or_false, not_or] at h
  obtain ⟨hgid, hsize, hatime, hmtime, hctime⟩ := h
  exact ⟨fun hk => (hk.elim hgid hsize).elim,
    fun hk => (hk.elim hatime fun hk => hk.elim hmtime hctime).elim⟩

theorem readable_number {k v : Bytes} (h : k = paxGid ∨ k = paxSize) :
    Readable k v ↔ fromCharsInt64 10 v ≠ none := by
  refine ⟨fun hread => hread.1 h, fun hread => ⟨fun _ => hread, fun htime => ?_⟩⟩
  unfold IsTimeKey at htime
  rcases h with rfl | rfl <;> exact absurd htime (by decide)

theorem readable_time {k v : Bytes} (h : IsTimeKey k) :
    Readable k v ↔ fromCharsInt64 10 (secondsText v) ≠ none := by
  refine ⟨fun hread => hread.2 h, fun hread => ⟨fun hnumber => ?_, fun _ => hread⟩⟩
  unfold IsTimeKey at h
  rcases h with rfl | rfl | rfl <;> exact absurd hnumber (by decide)

/-- What a record does to a header, or that the merge stops. -/
def Merges (rt : Runtime) (h : Header) (k v : Bytes) : Prop :=
  (Readable k v → ∃ assigned, mergeRecord rt h k v = .ok (applyRecord h k v, assigned)) ∧
    (¬ Readable k v → ∃ ec : ErrorCode, mergeRecord rt h k v = .error ec ∧ ec.code ≠ 0)

theorem merges_of_ok {rt : Runtime} {h : Header} {k v : Bytes} {assigned : Option ErrorCode}
    (hread : Readable k v) (hok : mergeRecord rt h k v = .ok (applyRecord h k v, assigned)) :
    Merges rt h k v :=
  ⟨fun _ => ⟨assigned, hok⟩, fun hnot => absurd hread hnot⟩

theorem merges_number {rt : Runtime} {h : Header} {k v : Bytes} {what : String}
    {set : Int → Header} (hk : k = paxGid ∨ k = paxSize)
    (heq : mergeRecord rt h k v = match fromCharsInt64 10 v with
      | none => .error (invalidValue rt what v)
      | some n => .ok (set n, none))
    (hset : set (numberOr v) = applyRecord h k v) : Merges rt h k v := by
  unfold Merges
  rw [readable_number hk, heq, ← hset]
  unfold numberOr
  cases fromCharsInt64 10 v with
  | none =>
      refine ⟨fun hread => absurd rfl hread, fun _ => ⟨_, rfl, ?_⟩⟩
      change ErrorCode.errExtractGeneral ≠ 0
      decide
  | some n => exact ⟨fun _ => ⟨none, rfl⟩, fun hnot => absurd (Option.some_ne_none n) hnot⟩

theorem merges_time {rt : Runtime} {h : Header} {k v : Bytes} {set : Time → Header}
    (hk : IsTimeKey k)
    (heq : mergeRecord rt h k v = match parsePAXTime rt v with
      | .error ec => .error ec
      | .ok t => .ok (set t, none))
    (hset : set (timeOf v) = applyRecord h k v) : Merges rt h k v := by
  obtain ⟨hok, herror⟩ := parsePAXTime_eq rt v
  unfold Merges
  rw [readable_time hk, heq, ← hset]
  constructor
  · intro hread
    rw [hok hread]
    exact ⟨none, rfl⟩
  · intro hnot
    obtain ⟨ec, hec, hcode⟩ := herror (not_not.mp hnot)
    rw [hec]
    exact ⟨ec, rfl, hcode⟩

theorem mergeRecord_cons (rt : Runtime) (h : Header) (k : Bytes) (b : UInt8) (v : Bytes) :
    mergeRecord rt h k (b :: v) =
      match mergeText h k (b :: v) with
      | some h => .ok (h, none)
      | none =>
          match mergeTime h k with
          | some set =>
              match parsePAXTime rt (b :: v) with
              | .error ec => .error ec
              | .ok t => .ok (set t, none)
          | none => mergeNumber rt h k (b :: v) := rfl

theorem merges_cons (rt : Runtime) (h : Header) (k : Bytes) (b : UInt8) (v : Bytes) :
    Merges rt h k (b :: v) := by
  by_cases hk : k ∈ fieldKeys
  · simp only [fieldKeys, List.mem_cons, List.not_mem_nil, or_false] at hk
    rcases hk with rfl | rfl | rfl | rfl | rfl | rfl | rfl | rfl | rfl | rfl
    · exact merges_of_ok (readable_of_not_mem (by decide) _) rfl
    · exact merges_of_ok (readable_of_not_mem (by decide) _) rfl
    · exact merges_of_ok (readable_of_not_mem (by decide) _) rfl
    · exact merges_of_ok (readable_of_not_mem (by decide) _) rfl
    · -- An invalid user is reported, and the merge goes on.
      have hread := readable_of_not_mem (by decide : paxUid ∉ stoppingKeys) (b :: v)
      have heq : mergeRecord rt h paxUid (b :: v) = match fromCharsInt64 10 (b :: v) with
          | none => .ok ({ h with uid := 0 }, some (invalidValue rt "uid" (b :: v)))
          | some id => .ok ({ h with uid := toInt id }, none) := rfl
      have hset : applyRecord h paxUid (b :: v) =
          { h with uid := toInt (numberOr (b :: v)) } := rfl
      refine ⟨fun _ => ?_, fun hnot => absurd hread hnot⟩
      rw [heq, hset]
      unfold numberOr
      cases fromCharsInt64 10 (b :: v) with
      | none => exact ⟨_, rfl⟩
      | some id => exact ⟨_, rfl⟩
    · exact merges_number (.inl rfl) rfl rfl
    · exact merges_number (.inr rfl) rfl rfl
    · exact merges_time (.inl rfl) rfl rfl
    · exact merges_time (.inr (.inl rfl)) rfl rfl
    · exact merges_time (.inr (.inr rfl)) rfl rfl
  · have hstop : k ∉ stoppingKeys := fun hmem => hk (stoppingKeys_subset hmem)
    simp only [fieldKeys, List.mem_cons, List.not_mem_nil, or_false, not_or] at hk
    obtain ⟨hpath, hlink, huname, hgname, huid, hgid, hsize, hatime, hmtime, hctime⟩ := hk
    have htext : mergeText h k (b :: v) = none := by
      simp [mergeText, hpath, hlink, huname, hgname]
    have htime : mergeTime h k = none := by
      simp [mergeTime, hatime, hmtime, hctime]
    have hset : applyRecord h k (b :: v) = { h with
        xattrs := if paxSchilyXattr.isPrefixOf k = true then
            emplace h.xattrs (k.drop paxSchilyXattr.length) (b :: v)
          else h.xattrs } := by
      simp only [applyRecord, if_neg hpath, if_neg hlink, if_neg huname, if_neg hgname,
        if_neg huid, if_neg hgid, if_neg hsize, if_neg hatime, if_neg hmtime, if_neg hctime]
    refine ⟨fun _ => ⟨none, ?_⟩, fun hnot => absurd (readable_of_not_mem hstop _) hnot⟩
    rw [mergeRecord_cons, htext, htime, hset]
    dsimp only
    rw [mergeNumber, if_neg (by simpa using huid), if_neg (by simpa using hgid),
      if_neg (by simpa using hsize)]
    split <;> rfl

/-! ## All records -/

/-- One step of the merge; an empty value is skipped. -/
def applyStep (h : Header) (p : Bytes × Bytes) : Header :=
  if p.2 = [] then h else applyRecord h p.1 p.2

def applyRecords (h : Header) (records : PaxRecords) : Header :=
  records.foldl applyStep h

/-- No record stops the merge. -/
def AllReadable (records : PaxRecords) : Prop :=
  ∀ p ∈ records, p.2 ≠ [] → Readable p.1 p.2

theorem mergeRecords_eq (rt : Runtime) (records : PaxRecords) (h : Header)
    (ec : ErrorCode) :
    (AllReadable records →
        ∃ ec', mergeRecords rt records h ec = (true, applyRecords h records, ec')) ∧
      (¬ AllReadable records →
        ∃ h' ec', mergeRecords rt records h ec = (false, h', ec') ∧ ec'.code ≠ 0) := by
  induction records generalizing h ec with
  | nil =>
      exact ⟨fun _ => ⟨ec, rfl⟩, fun hnot => absurd (fun _ hp => absurd hp List.not_mem_nil) hnot⟩
  | cons p records ih =>
      obtain ⟨k, v⟩ := p
      have hsplit : AllReadable ((k, v) :: records) ↔
          (v ≠ [] → Readable k v) ∧ AllReadable records := List.forall_mem_cons
      rw [hsplit, mergeRecords, applyRecords, List.foldl_cons, ← applyRecords]
      by_cases hgood : v ≠ [] → Readable k v
      · obtain ⟨assigned, hstep⟩ : ∃ assigned,
            mergeRecord rt h k v = .ok (applyStep h (k, v), assigned) := by
          unfold applyStep
          cases v with
          | nil => exact ⟨none, rfl⟩
          | cons b v =>
              obtain ⟨assigned, hok⟩ :=
                (merges_cons rt h k b v).1 (hgood (List.cons_ne_nil b v))
              exact ⟨assigned, hok⟩
        rw [hstep, and_iff_right hgood]
        exact ih _ _
      · refine ⟨fun hall => absurd hall.1 hgood, fun _ => ?_⟩
        cases v with
        | nil => exact absurd (fun hne => absurd rfl hne) hgood
        | cons b v =>
            have hnot : ¬ Readable k (b :: v) := fun hread => hgood fun _ => hread
            obtain ⟨ec', herror, hcode⟩ := (merges_cons rt h k b v).2 hnot
            rw [herror]
            exact ⟨h, ec', rfl, hcode⟩

theorem mergePAX_eq (rt : Runtime) (h : Header) (records : PaxRecords) (ec : ErrorCode) :
    (AllReadable records → ∃ ec', mergePAX rt h records ec =
        (true, { applyRecords h (rt.iterate records) with paxRecords := records }, ec')) ∧
      (¬ AllReadable records →
        ∃ h' ec', mergePAX rt h records ec = (false, h', ec') ∧ ec'.code ≠ 0) := by
  have hiterate : AllReadable (rt.iterate records) ↔ AllReadable records :=
    forall_congr' fun p => by rw [(rt.iterate_perm records).mem_iff]
  obtain ⟨hok, herror⟩ := mergeRecords_eq rt (rt.iterate records) h ec
  rw [hiterate] at hok herror
  unfold mergePAX
  constructor
  · intro hall
    obtain ⟨ec', heq⟩ := hok hall
    rw [heq]
    exact ⟨ec', rfl⟩
  · intro hnot
    obtain ⟨h', ec', heq, hcode⟩ := herror hnot
    rw [heq]
    exact ⟨h', ec', rfl, hcode⟩

/-! ## Fields -/

/-- The value of a key, if there is one that is not empty. -/
def given (records : PaxRecords) (k : Bytes) : Option Bytes :=
  (records.lookup k).filter fun v => !v.isEmpty

theorem given_cons (p : Bytes × Bytes) (records : PaxRecords) (k : Bytes) :
    given (p :: records) k =
      if k = p.1 then (if p.2 = [] then none else some p.2) else given records k := by
  unfold given
  rw [List.lookup_cons]
  by_cases hk : k = p.1
  · rw [if_pos hk, beq_iff_eq.mpr hk]
    dsimp only
    cases hp : p.2 with
    | nil => rfl
    | cons b v => rfl
  · rw [if_neg hk, beq_eq_false_iff_ne.mpr hk]

theorem given_perm {records records' : PaxRecords} (hkeys : KeysNodup records)
    (hperm : records'.Perm records) (k : Bytes) : given records' k = given records k := by
  rw [given, given, hkeys.lookup_perm hperm]

/-- What one record makes of a value that belongs to a key, all records do. -/
theorem applyRecords_field {α : Type} {f : Header → α} {key : Bytes} {g : α → Bytes → α}
    (hf : ∀ h k v, f (applyRecord h k v) = if k = key then g (f h) v else f h)
    {records : PaxRecords} (hkeys : KeysNodup records) (h : Header) :
    f (applyRecords h records) = (given records key).elim (f h) (g (f h)) := by
  induction records generalizing h with
  | nil => rfl
  | cons p records ih =>
      obtain ⟨hnone, hrest⟩ := hkeys.cons
      rw [applyRecords, List.foldl_cons, ← applyRecords, ih hrest, given_cons]
      by_cases hkey : key = p.1
      · have hgiven : given records key = none := by
          rw [given, hkey, hnone]
          rfl
        rw [hgiven, if_pos hkey, Option.elim_none]
        unfold applyStep
        split
        · rfl
        · rw [hf, if_pos hkey.symm]
          rfl
      · have hstep : f (applyStep h p) = f h := by
          unfold applyStep
          split
          · rfl
          · rw [hf, if_neg fun heq => hkey heq.symm]
        rw [if_neg hkey, hstep]

theorem isPrefixOf_iff_append {k name : Bytes} :
    k = paxSchilyXattr ++ name ↔
      paxSchilyXattr.isPrefixOf k = true ∧ k.drop paxSchilyXattr.length = name := by
  rw [List.isPrefixOf_iff_prefix]
  constructor
  · rintro rfl
    exact ⟨List.prefix_append _ _, List.drop_left⟩
  · rintro ⟨⟨rest, rfl⟩, hdrop⟩
    rw [List.drop_left] at hdrop
    rw [hdrop]

theorem applyRecord_xattr (h : Header) (name k v : Bytes) :
    (applyRecord h k v).xattrs.lookup name =
      if k = paxSchilyXattr ++ name then (h.xattrs.lookup name).or (some v)
      else h.xattrs.lookup name := by
  have hemplace : ∀ k', (emplace h.xattrs k' v).lookup name =
      (h.xattrs.lookup name).or (if name == k' then some v else none) :=
    fun k' => lookup_insertNew h.xattrs k' name v
  unfold applyRecord
  dsimp only
  by_cases hk : k = paxSchilyXattr ++ name
  · obtain ⟨hstart, hdrop⟩ := isPrefixOf_iff_append.mp hk
    rw [if_pos hk, if_pos hstart, hemplace, if_pos (beq_iff_eq.mpr hdrop.symm)]
  · rw [if_neg hk]
    split
    · next hstart =>
      have hname : ¬ name = k.drop paxSchilyXattr.length := fun heq =>
        hk (isPrefixOf_iff_append.mpr ⟨hstart, heq.symm⟩)
      rw [hemplace, beq_eq_false_iff_ne.mpr hname, if_neg Bool.false_ne_true,
        Option.or_none]
    · rfl

end Baulk.Tar
