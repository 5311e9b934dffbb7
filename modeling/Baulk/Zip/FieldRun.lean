import Baulk.Zip.Directory
import Baulk.Zip.ExtraFields

/-!
# The walk over the extra area, field by field

The walk relies on `Sub` to take what it splits off from the number of bytes
that are left.  With such a cursor it visits the fields of the area one after the
other, and what can be observed of its variables is a fold over these fields.
-/

namespace Baulk.Zip

open Endian (Reader)

/-- What `Sub` is meant to do with the number of bytes left. -/
def Shortens (rest : Nat → Nat → Nat) : Prop :=
  ∀ size n, n ≤ size → rest size n = size - n

/-! ## The attributes of an NTFS field -/

/-- The modification times of an NTFS field: those of the attributes that stand
before any other one. -/
def ntfsTimes (mem : Memory) (address room : Nat) : List Time :=
  if 28 ≤ room ∧ IsNtfsTimes mem address then
    Time.fromWindowsPreciseTime (UInt64.ofNat (loadLe mem (address + 4) 8)) ::
      ntfsTimes mem (address + 28) (room - 28)
  else []
termination_by room

theorem ntfsTimes_cons {mem : Memory} {address room : Nat} (hroom : 28 ≤ room)
    (htimes : IsNtfsTimes mem address) :
    ntfsTimes mem address room =
      Time.fromWindowsPreciseTime (UInt64.ofNat (loadLe mem (address + 4) 8)) ::
        ntfsTimes mem (address + 28) (room - 28) := by
  rw [ntfsTimes, if_pos ⟨hroom, htimes⟩]

theorem ntfsTimes_stop {mem : Memory} {address room : Nat}
    (h : ¬(28 ≤ room ∧ IsNtfsTimes mem address)) : ntfsTimes mem address room = [] := by
  rw [ntfsTimes, if_neg h]

/-- The state after a walk that set the time. -/
def ExtraState.withTime (s : ExtraState) (times : List Time) : ExtraState :=
  { s with modified := times.getLast?.getD s.modified }

theorem ntfsLoop_eq {rest : Nat → Nat → Nat} (hrest : Shortens rest) (mem : Memory)
    {fuel : Nat} : ∀ (room address : Nat) (s : ExtraState), room < fuel →
      ∃ reads, ntfsLoop rest mem fuel ⟨address, room⟩ s =
        some { s.withTime (ntfsTimes mem address room) with reads := reads } := by
  induction fuel with
  | zero =>
      intro room address s hfuel
      exact absurd hfuel (Nat.not_lt_zero room)
  | succ fuel ih =>
      intro room address s hfuel
      by_cases htimes : 28 ≤ room ∧ IsNtfsTimes mem address
      · obtain ⟨hroom, htag, hsize⟩ := htimes
        have hcount : rest (room - 2 - 2) 24 = room - 28 := by
          rw [hrest _ _ (by omega)]
          omega
        obtain ⟨reads, hloop⟩ := ih (room - 28) (address + 28)
          (readTimes mem s address) (by omega)
        refine ⟨reads, ?_⟩
        rw [ntfsLoop, if_pos (show 4 ≤ room by omega)]
        dsimp only [Reader.read, Reader.sub]
        rw [htag, hsize, if_neg (by omega), if_neg (by decide), hcount,
          ntfsTimes_cons hroom ⟨htag, hsize⟩]
        refine hloop.trans ?_
        unfold ExtraState.withTime
        rw [List.getLast?_cons]
        rfl
      · rw [ntfsTimes_stop htimes]
        rw [ntfsLoop]
        split
        · next hsize =>
          dsimp only [Reader.read, Reader.sub] at hsize ⊢
          split
          · exact ⟨_, rfl⟩
          · next hfits =>
            have hother : loadLe mem address 2 ≠ 1 ∨ loadLe mem (address + 2) 2 ≠ 24 := by
              by_contra hboth
              rw [not_or, not_not, not_not] at hboth
              exact htimes ⟨by omega, hboth⟩
            rw [if_pos hother]
            exact ⟨_, rfl⟩
        · exact ⟨s.reads, rfl⟩

theorem handleNtfs_eq {rest : Nat → Nat → Nat} (hrest : Shortens rest) (mem : Memory)
    {fuel size : Nat} (address : Nat) (s : ExtraState) (hfuel : size < fuel) :
    ∃ reads, handleNtfs rest mem fuel ⟨address, size⟩ s =
      some { s.withTime (ntfsTimes mem (address + 4) (size - 4)) with
        reads := reads } := by
  have hempty : size ≤ 4 → ntfsTimes mem (address + 4) (size - 4) = [] :=
    fun hle => ntfsTimes_stop (fun h => by omega)
  unfold handleNtfs
  split
  · next hsize =>
    rw [hempty (Nat.le_of_lt hsize)]
    exact ⟨s.reads, rfl⟩
  · next hsize =>
    dsimp only at hsize
    rcases Nat.lt_or_ge 4 size with hlong | hfour
    · rw [Reader.discard_of_lt hlong]
      exact ntfsLoop_eq hrest mem _ _ s (by dsimp only; omega)
    · rw [hempty hfour, Reader.discard_of_le hfour]
      obtain ⟨reads, hloop⟩ := ntfsLoop_eq hrest mem 0 0 s
        (Nat.lt_of_le_of_lt (Nat.zero_le size) hfuel)
      rw [ntfsTimes_stop (fun h => by omega)] at hloop
      exact ⟨reads, hloop⟩

/-! ## Fields other than zip64 ones -/

def ExtraField.times (mem : Memory) (f : ExtraField) : List Time :=
  if f.tag = ntfsExtraID then ntfsTimes mem (f.data + 4) (f.size - 4)
  else if f.tag = extTimeExtraID ∧ 5 ≤ f.size ∧ mem f.data &&& 0x1 ≠ 0 then
    [Time.fromUnixSeconds (loadLe mem (f.data + 1) 4)]
  else []

def ExtraField.recordUnix (mem : Memory) (f : ExtraField) (file : File) : File :=
  if f.size < 8 then file
  else
    { file with
      time := Time.fromUnixSeconds (loadLe mem (f.data + 4) 4)
      linkname :=
        if 12 < f.size ∧ f.tag = unixExtraID then
          cstringView mem (f.data + 16) (f.size - 12)
        else file.linkname }

def ExtraField.record (mem : Memory) (f : ExtraField) (file : File) : File :=
  if f.tag = unixExtraID ∨ f.tag = infoZipUnixExtraID then f.recordUnix mem file
  else if f.tag = infoZipUnicodePathID then
    if f.size < 5 ∨ file.flags &&& 0x800 ≠ 0 then file
    else
      { file with
        flags := file.flags ||| 0x800
        name := cstringView mem (f.data + 5) (f.size - 5) }
  else if f.tag = infoZipUnicodeCommentExtraID then
    if f.size < 5 then file
    else { file with comment := cstringView mem (f.data + 5) (f.size - 5) }
  else if f.tag = winzipAesExtraID then
    if f.size < 7 then file
    else
      { file with
        aesVersion := UInt16.ofNat (loadLe mem f.data 2)
        aesStrength := mem (f.data + 4)
        method := UInt16.ofNat (loadLe mem (f.data + 5) 2) }
  else file

theorem handleUnix_eq (mem : Memory) (f : ExtraField) (s : ExtraState) :
    ∃ reads, handleUnix mem f.tag ⟨f.data, f.size⟩ s =
      { s with reads := reads, file := f.recordUnix mem s.file } := by
  unfold handleUnix ExtraField.recordUnix
  dsimp only
  split
  · exact ⟨s.reads, rfl⟩
  · have hdiscard : Reader.discard 4 ⟨f.data, f.size⟩ = ⟨f.data + 4, f.size - 4⟩ :=
      Reader.discard_of_lt (by dsimp only; omega)
    rw [hdiscard]
    dsimp only [Reader.read]
    rcases Nat.lt_or_ge 12 f.size with hlong | hshort
    · have hrest : Reader.discard 4 ⟨f.data + 4 + 4, f.size - 4 - 4⟩ =
          ⟨f.data + 12, f.size - 12⟩ := by
        rw [Reader.discard_of_lt (by dsimp only; omega)]
        rw [Nat.sub_sub, Nat.sub_sub]
      have hpositive : 0 < f.size - 12 := Nat.sub_pos_of_lt hlong
      simp only [hrest, hlong, hpositive, true_and]
      by_cases htag : f.tag = unixExtraID
      · rw [if_pos htag, if_pos htag]
        exact ⟨_, rfl⟩
      · rw [if_neg htag, if_neg htag]
        exact ⟨_, rfl⟩
    · have hrest : Reader.discard 4 ⟨f.data + 4 + 4, f.size - 4 - 4⟩ = ⟨0, 0⟩ :=
        Reader.discard_of_le (by dsimp only; omega)
      have hlong : ¬12 < f.size := Nat.not_lt.mpr hshort
      simp only [hrest, hlong, Nat.lt_irrefl, false_and, if_false]
      exact ⟨_, rfl⟩

theorem times_eq_nil {mem : Memory} {f : ExtraField} (hntfs : f.tag ≠ ntfsExtraID)
    (hext : f.tag ≠ extTimeExtraID) : f.times mem = [] := by
  rw [ExtraField.times, if_neg hntfs, if_neg fun h => hext h.1]

theorem handleExtTime_eq (mem : Memory) {f : ExtraField} (htag : f.tag = extTimeExtraID)
    (s : ExtraState) :
    ∃ reads, handleExtTime mem ⟨f.data, f.size⟩ s =
      { s.withTime (f.times mem) with reads := reads } := by
  have hntfs : f.tag ≠ ntfsExtraID := by
    rw [htag]
    decide
  unfold handleExtTime ExtraField.times
  rw [if_neg hntfs]
  dsimp only [Reader.pick, Reader.read]
  by_cases hshort : f.size < 5
  · rw [if_pos hshort, if_neg fun h => by omega]
    exact ⟨s.reads, rfl⟩
  · rw [if_neg hshort]
    by_cases hflag : mem f.data &&& 0x1 ≠ 0
    · rw [if_pos hflag, if_pos ⟨htag, by omega, hflag⟩]
      exact ⟨_, rfl⟩
    · rw [if_neg hflag, if_neg fun h => hflag h.2.2]
      exact ⟨_, rfl⟩

theorem handleField_eq {rest : Nat → Nat → Nat} (hrest : Shortens rest) {mem : Memory}
    {fuel : Nat} {f : ExtraField} (hzip64 : f.tag ≠ zip64ExtraID) (s : ExtraState)
    (hfuel : f.size < fuel) :
    ∃ reads, handleField rest mem fuel f s =
      some (.next { s.withTime (f.times mem) with
        reads := reads, file := f.record mem s.file }) := by
  unfold handleField
  dsimp only
  rw [if_neg hzip64]
  by_cases hntfs : f.tag = ntfsExtraID
  · obtain ⟨reads, hhandle⟩ := handleNtfs_eq hrest mem f.data s hfuel
    rw [if_pos hntfs, hhandle, ExtraField.times, if_pos hntfs, ExtraField.record, hntfs]
    exact ⟨reads, rfl⟩
  rw [if_neg hntfs]
  by_cases hunix : f.tag = unixExtraID ∨ f.tag = infoZipUnixExtraID
  · have hext : f.tag ≠ extTimeExtraID := by
      rcases hunix with htag | htag <;> rw [htag] <;> decide
    obtain ⟨reads, hhandle⟩ := handleUnix_eq mem f s
    rw [if_pos hunix, hhandle, times_eq_nil hntfs hext, ExtraField.record, if_pos hunix]
    exact ⟨reads, rfl⟩
  rw [if_neg hunix]
  by_cases hext : f.tag = extTimeExtraID
  · obtain ⟨reads, hhandle⟩ := handleExtTime_eq mem hext s
    rw [if_pos hext, hhandle, ExtraField.record, if_neg hunix, hext]
    exact ⟨reads, rfl⟩
  rw [if_neg hext, times_eq_nil hntfs hext, ExtraField.record, if_neg hunix]
  split
  · unfold handleUnicodePath
    dsimp only [Reader.pick, Reader.read]
    split
    · exact ⟨s.reads, rfl⟩
    · rw [Nat.sub_sub]
      exact ⟨_, rfl⟩
  split
  · unfold handleUnicodeComment
    dsimp only [Reader.pick, Reader.read]
    split
    · exact ⟨s.reads, rfl⟩
    · rw [Nat.sub_sub]
      exact ⟨_, rfl⟩
  split
  · unfold handleWinzipAes
    split
    · exact ⟨s.reads, rfl⟩
    · next hlong =>
      dsimp only at hlong
      have hvendor : Reader.discard 2 ⟨f.data + 2, f.size - 2⟩ =
          ⟨f.data + 4, f.size - 4⟩ := by
        rw [Reader.discard_of_lt (by dsimp only; omega), Nat.sub_sub]
      simp only [Reader.pick, Reader.read, hvendor]
      exact ⟨_, rfl⟩
  · exact ⟨s.reads, rfl⟩

/-! ## Observations -/

/-- The result of a walk agrees with an observation, which is `none` when the header
is rejected. -/
def Agrees (view : ExtraState → α) (o : Option α) : FieldResult → Prop
  | .next s => o = some (view s)
  | .rejected _ => o = none

/-- Something that can be observed of the variables of the walk, and what a field
does to it.  What was touched cannot be observed. -/
structure Observation (mem : Memory) (α : Type) where
  view : ExtraState → α
  step : α → ExtraField → Option α
  view_logs : ∀ (s : ExtraState) (reads : List Span) (visited : List ExtraField),
    view { s with reads := reads, visited := visited } = view s
  handleField_agrees : ∀ {rest : Nat → Nat → Nat}, Shortens rest →
    ∀ {fuel : Nat} (f : ExtraField) (s : ExtraState), f.size < fuel →
      ∃ r, handleField rest mem fuel f s = some r ∧ Agrees view (step (view s) f) r

theorem extraLoop_round (rest : Nat → Nat → Nat) (mem : Memory)
    (fuel address room : Nat) (s : ExtraState) :
    extraLoop rest mem (fuel + 1) ⟨address, room⟩ s =
      if 4 ≤ room then
        if room - 2 - 2 < (fieldAt mem address).size then
          some (.next (readHeader s address))
        else
          match handleField rest mem fuel (fieldAt mem address)
              (enterField mem s address) with
          | none => none
          | some (.rejected s) => some (.rejected s)
          | some (.next s) =>
              extraLoop rest mem fuel
                ⟨address + 4 + (fieldAt mem address).size,
                  rest (room - 2 - 2) (fieldAt mem address).size⟩ s
      else some (.next s) :=
  rfl

/-- With a cursor that counts, the walk ends, and what is observed of its result is
the fold over the fields of the area. -/
theorem Observation.extraLoop_agrees {mem : Memory} (o : Observation mem α)
    {rest : Nat → Nat → Nat} (hrest : Shortens rest) {fuel : Nat} :
    ∀ (room address : Nat) (s : ExtraState), room < fuel →
      ∃ r, extraLoop rest mem fuel ⟨address, room⟩ s = some r ∧
        Agrees o.view ((fieldWalk mem address room).1.foldlM o.step (o.view s)) r := by
  induction fuel with
  | zero =>
      intro room address s hfuel
      exact absurd hfuel (Nat.not_lt_zero room)
  | succ fuel ih =>
      intro room address s hfuel
      rw [extraLoop_round]
      by_cases hshort : room < 4
      · rw [if_neg (by omega), fieldWalk_stop (.inl hshort)]
        exact ⟨_, rfl, rfl⟩
      rw [if_pos (by omega)]
      by_cases hfits : (fieldAt mem address).size ≤ room - 4
      · rw [if_neg (by omega), fieldWalk_cons (by omega) hfits, List.foldlM_cons]
        obtain ⟨r, hhandle, hr⟩ := o.handleField_agrees hrest (fieldAt mem address)
          (enterField mem s address) (show (fieldAt mem address).size < fuel by omega)
        have hview : o.view (enterField mem s address) = o.view s := o.view_logs s _ _
        have hcount : rest (room - 2 - 2) (fieldAt mem address).size =
            room - 4 - (fieldAt mem address).size := by
          rw [hrest _ _ (by omega)]
          omega
        rw [hview] at hr
        rw [hhandle, hcount]
        cases r with
        | rejected s' =>
            have hnone : o.step (o.view s) (fieldAt mem address) = none := hr
            rw [hnone]
            exact ⟨_, rfl, rfl⟩
        | next s' =>
            have hsome : o.step (o.view s) (fieldAt mem address) = some (o.view s') := hr
            rw [hsome]
            exact ih _ _ s' (by omega)
      · rw [if_pos (by omega), fieldWalk_stop (.inr (by omega))]
        exact ⟨_, rfl, congrArg some (o.view_logs s _ s.visited).symm⟩

/-! ## Headers with any cursor -/

/-- A header is read: its fixed part, with the signature, and then the name, the
extra area and the comment. -/
structure ReadsHeader (env : Env) (place : Nat → Nat) (d : DirectoryReader) (buf : Bytes)
    (h : DirectoryHeader) (d' : DirectoryReader) : Prop where
  fixed : ∃ br s, d.br.readFull env directoryHeaderLen
      (List.replicate directoryHeaderLen 0) d.session = (.ok buf, br, s) ∧
    ∃ bytes, br.readFull env (field buf 28 2 + field buf 30 2 + field buf 32 2)
        (loadAt d.mem h.buffer (field buf 28 2 + field buf 30 2 + field buf 32 2)) s =
        (.ok bytes, d'.br, d'.session) ∧
      d'.mem = storeAt d.mem h.buffer bytes
  signature : field buf 0 4 = directoryHeaderSignature
  capacity : d'.capacity = max d.capacity (field buf 28 2 + field buf 30 2 + field buf 32 2)
  buffer : h.buffer = place d'.capacity
  header : h = directoryHeader buf d'.mem h.buffer

theorem ReadsHeader.readDirectoryHeaderWith_eq {env : Env} {place : Nat → Nat}
    {d d' : DirectoryReader} {buf : Bytes} {h : DirectoryHeader}
    (hread : ReadsHeader env place d buf h d') {rest : Nat → Nat → Nat} {fuel : Nat}
    {walk : FieldResult} (hwalk : h.walkExtraWith rest fuel = some walk) :
    readDirectoryHeaderWith rest env place fuel d = some (finishHeader buf walk, d') := by
  obtain ⟨⟨br, s, hfixed, bytes, hrest, hmem⟩, hsignature, hcapacity, hbuffer, hheader⟩ :=
    hread
  rw [hbuffer, hcapacity] at hrest
  unfold readDirectoryHeaderWith
  rw [hfixed]
  dsimp only
  rw [if_neg (not_not_intro hsignature), hrest]
  dsimp only
  rw [← hcapacity, ← hbuffer, ← hmem, ← hheader, hwalk]

end Baulk.Zip
