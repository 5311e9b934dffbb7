import Baulk.Support.Overwrite
import Baulk.Zip.Zip64

/-!
# Metadata from extra fields

Times, link names, names and comments that fields carry.  Six kinds of fields
write these, some of them to the record of the file and some to a variable that
is stored in the record at the end.
-/

namespace Baulk.Zip

open Support (foldl_last foldl_first lockFirst)

/-! ## What fields carry -/

/-- The text behind a version and a checksum. -/
def ExtraField.text (mem : Memory) (f : ExtraField) : Bytes :=
  cstringView mem (f.data + 5) (f.size - 5)

def ExtraField.pathText (mem : Memory) (f : ExtraField) : Option Bytes :=
  if f.tag = infoZipUnicodePathID ∧ 5 ≤ f.size then some (f.text mem) else none

def ExtraField.commentText (mem : Memory) (f : ExtraField) : Option Bytes :=
  if f.tag = infoZipUnicodeCommentExtraID ∧ 5 ≤ f.size then some (f.text mem) else none

/-- A UNIX field with more than its fixed bytes. -/
def ExtraField.HasLink (f : ExtraField) : Prop :=
  f.tag = unixExtraID ∧ 12 < f.size

instance (f : ExtraField) : Decidable f.HasLink :=
  inferInstanceAs (Decidable (_ ∧ _))

def ExtraField.linkText (mem : Memory) (f : ExtraField) : Option Bytes :=
  if f.HasLink then some (cstringView mem (f.data + 16) (f.size - 12)) else none

def ExtraField.HasUnixTime (f : ExtraField) : Prop :=
  (f.tag = unixExtraID ∨ f.tag = infoZipUnixExtraID) ∧ 8 ≤ f.size

instance (f : ExtraField) : Decidable f.HasUnixTime :=
  inferInstanceAs (Decidable (_ ∧ _))

def ExtraField.allTimes (mem : Memory) (f : ExtraField) : List Time :=
  if f.HasUnixTime then [Time.fromUnixSeconds (loadLe mem (f.data + 4) 4)]
  else f.times mem

/-! ## Effects on the record -/

/-- The bit that says that the name and the comment are UTF-8. -/
def utf8Named (file : File) : Bool :=
  file.flags &&& 0x800 != 0

theorem utf8_or (flags : UInt16) : ((flags ||| 0x800) &&& 0x800 != 0) = true := by
  have hbit : (flags ||| 0x800) &&& 0x800 = 0x800 := by
    apply UInt16.toBitVec_inj.mp
    ext i hi
    simp only [UInt16.toBitVec_and, UInt16.toBitVec_or, BitVec.getElem_and,
      BitVec.getElem_or]
    cases (0x800 : UInt16).toBitVec[i] with
    | false => rw [Bool.and_false]
    | true => rw [Bool.or_true, Bool.and_true]
  rw [hbit]
  decide

theorem recordUnix_texts (mem : Memory) (f : ExtraField) (file : File) :
    (f.recordUnix mem file).name = file.name ∧
      (f.recordUnix mem file).comment = file.comment ∧
      (f.recordUnix mem file).flags = file.flags := by
  unfold ExtraField.recordUnix
  split <;> exact ⟨rfl, rfl, rfl⟩

theorem record_comment (mem : Memory) (f : ExtraField) (file : File) :
    (f.record mem file).comment = (f.commentText mem).getD file.comment := by
  by_cases htag : f.tag = infoZipUnicodeCommentExtraID
  · unfold ExtraField.record ExtraField.commentText
    rw [htag, if_neg (by decide), if_neg (by decide), if_pos rfl]
    by_cases hshort : f.size < 5
    · rw [if_pos hshort, if_neg fun h => by omega]
      rfl
    · rw [if_neg hshort, if_pos ⟨rfl, by omega⟩]
      rfl
  · rw [ExtraField.commentText, if_neg fun h => htag h.1, Option.getD_none,
      ExtraField.record, if_neg htag]
    split
    · exact (recordUnix_texts mem f file).2.1
    split
    · split <;> rfl
    split
    · split <;> rfl
    · rfl

theorem record_linkname (mem : Memory) (f : ExtraField) (file : File) :
    (f.record mem file).linkname = (f.linkText mem).getD file.linkname := by
  by_cases hunix : f.tag = unixExtraID ∨ f.tag = infoZipUnixExtraID
  · rw [ExtraField.record, if_pos hunix]
    unfold ExtraField.recordUnix ExtraField.linkText
    by_cases hlink : f.HasLink
    · have hlong := hlink.2
      rw [if_neg (by omega), if_pos hlink]
      dsimp only
      rw [if_pos ⟨hlong, hlink.1⟩]
      rfl
    · rw [if_neg hlink]
      split
      · rfl
      · dsimp only
        rw [if_neg fun h => hlink ⟨h.2, h.1⟩]
        rfl
  · have hlink : ¬f.HasLink := fun h => hunix (.inl h.1)
    rw [ExtraField.linkText, if_neg hlink, Option.getD_none, ExtraField.record, if_neg hunix]
    split
    · split <;> rfl
    split
    · split <;> rfl
    split
    · split <;> rfl
    · rfl

theorem record_name (mem : Memory) (f : ExtraField) (file : File) :
    (utf8Named (f.record mem file), (f.record mem file).name) =
      lockFirst (ExtraField.pathText mem) (utf8Named file, file.name) f := by
  by_cases htag : f.tag = infoZipUnicodePathID
  · unfold ExtraField.record lockFirst ExtraField.pathText
    rw [htag, if_neg (by decide), if_pos rfl]
    dsimp only
    cases hutf8 : utf8Named file with
    | true =>
        rw [if_pos (.inr (bne_iff_ne.mp hutf8)), if_pos rfl, hutf8]
    | false =>
        rw [if_neg Bool.false_ne_true]
        by_cases hshort : f.size < 5
        · rw [if_pos (.inl hshort), if_neg fun h => by omega, hutf8]
          rfl
        · have hunset : ¬(f.size < 5 ∨ file.flags &&& 0x800 ≠ 0) := by
            rintro (hlt | hset)
            · exact hshort hlt
            · rw [utf8Named, bne_eq_false_iff_eq] at hutf8
              exact hset hutf8
          rw [if_neg hunset, if_pos ⟨rfl, by omega⟩, Option.elim_some]
          unfold utf8Named ExtraField.text
          dsimp only
          rw [utf8_or]
  · have hnone : f.pathText mem = none := if_neg fun h => htag h.1
    rw [lockFirst, hnone, Option.elim_none, ite_self, ExtraField.record, if_neg htag]
    split
    · obtain ⟨hname, -, hflags⟩ := recordUnix_texts mem f file
      rw [utf8Named, hname, hflags]
      rfl
    split
    · split <;> rfl
    split
    · split <;> rfl
    · rfl

/-! ## Metadata as an observation -/

/-- The record without the values that a zip64 field supplies. -/
def File.withoutSizes (file : File) : File :=
  { file with uncompressedSize := 0, compressedSize := 0, position := 0 }

/-- What a field does to the record and to the variable with the time. -/
def takeMetadata (mem : Memory) (m : File × Time) (f : ExtraField) : File × Time :=
  (f.record mem m.1, (f.times mem).getLast?.getD m.2)

theorem record_withoutSizes (mem : Memory) (f : ExtraField) (file : File) :
    f.record mem file.withoutSizes = (f.record mem file).withoutSizes := by
  unfold ExtraField.record
  split
  · unfold ExtraField.recordUnix
    split <;> rfl
  split
  · by_cases h : f.size < 5 ∨ file.flags &&& 0x800 ≠ 0
    · rw [if_pos h]
      exact if_pos h
    · rw [if_neg h]
      exact if_neg h
  split
  · split <;> rfl
  split
  · split <;> rfl
  · rfl

theorem takeMetadata_zip64 {mem : Memory} {f : ExtraField} (htag : f.tag = zip64ExtraID)
    (m : File × Time) : takeMetadata mem m f = m := by
  have htimes : f.times mem = [] :=
    times_eq_nil (by rw [htag]; decide) (by rw [htag]; decide)
  rw [takeMetadata, htimes, ExtraField.record, htag]
  rfl

theorem handleZip64_next {mem : Memory} {fb : Endian.Reader} {s s' : ExtraState}
    (h : handleZip64 mem fb s = .next s') :
    s'.file.withoutSizes = s.file.withoutSizes ∧ s'.modified = s.modified := by
  unfold handleZip64 at h
  split at h
  · cases h
  dsimp only at h
  split at h
  · cases h
  split at h <;> cases h
  exact ⟨rfl, rfl⟩

/-- The metadata, next to the sizes, which decide whether a header is rejected. -/
def metadataObservation (mem : Memory) : Observation mem (Sizes × File × Time) where
  view s := (s.sizes, s.file.withoutSizes, s.modified)
  step x f := (x.1.take mem f).map fun z => (z, takeMetadata mem x.2 f)
  view_logs _ _ _ := rfl
  handleField_agrees {rest} hrest {fuel} f s hfuel := by
    by_cases htag : f.tag = zip64ExtraID
    · refine ⟨handleZip64 mem ⟨f.data, f.size⟩ s, ?_, ?_⟩
      · unfold handleField
        rw [if_pos htag]
      · have hagrees := handleZip64_agrees mem htag s
        cases hhandle : handleZip64 mem ⟨f.data, f.size⟩ s with
        | rejected s' =>
            rw [hhandle] at hagrees
            have hnone : s.sizes.take mem f = none := hagrees
            exact congrArg (Option.map _) hnone
        | next s' =>
            rw [hhandle] at hagrees
            have hsome : s.sizes.take mem f = some s'.sizes := hagrees
            obtain ⟨hfile, hmodified⟩ := handleZip64_next hhandle
            dsimp only [Agrees]
            rw [hsome, Option.map_some, takeMetadata_zip64 htag, hfile, hmodified]
    · obtain ⟨reads, hhandle⟩ := handleField_eq hrest htag s hfuel
      refine ⟨_, hhandle, ?_⟩
      obtain ⟨husize, hsize, hposition⟩ := record_sizes mem f s.file
      have hsizes : s.sizes.take mem f = some s.sizes := if_neg htag
      dsimp only [Agrees]
      rw [hsizes, Option.map_some, takeMetadata, record_withoutSizes]
      dsimp only [ExtraState.sizes, ExtraState.withTime]
      rw [husize, hsize, hposition]

theorem foldlM_metadata (mem : Memory) (fs : List ExtraField) (z : Sizes) (m : File × Time) :
    fs.foldlM (metadataObservation mem).step (z, m) =
      (fs.foldlM (Sizes.take mem) z).map fun z => (z, fs.foldl (takeMetadata mem) m) := by
  induction fs generalizing z m with
  | nil => rfl
  | cons f fs ih =>
      rw [List.foldlM_cons, List.foldlM_cons, List.foldl_cons]
      dsimp only [metadataObservation]
      cases z.take mem f with
      | none => rfl
      | some z' => exact ih z' _

/-! ## All fields -/

def ExtraField.lastTime (mem : Memory) (f : ExtraField) : Option Time :=
  (f.times mem).getLast?

section Fold

variable (mem : Memory) (fs : List ExtraField) (m : File × Time)

theorem foldl_metadata_time :
    (fs.foldl (takeMetadata mem) m).2 =
      (fs.filterMap (ExtraField.lastTime mem)).getLast?.getD m.2 := by
  rw [← foldl_last]
  exact (List.foldl_hom Prod.snd fun _ _ => rfl).symm

theorem foldl_metadata_comment :
    (fs.foldl (takeMetadata mem) m).1.comment =
      (fs.filterMap (ExtraField.commentText mem)).getLast?.getD m.1.comment := by
  rw [← foldl_last]
  exact (List.foldl_hom (fun m : File × Time => m.1.comment)
    fun m f => (record_comment mem f m.1).symm).symm

theorem foldl_metadata_linkname :
    (fs.foldl (takeMetadata mem) m).1.linkname =
      (fs.filterMap (ExtraField.linkText mem)).getLast?.getD m.1.linkname := by
  rw [← foldl_last]
  exact (List.foldl_hom (fun m : File × Time => m.1.linkname)
    fun m f => (record_linkname mem f m.1).symm).symm

theorem foldl_metadata_name :
    (fs.foldl (takeMetadata mem) m).1.name =
      if utf8Named m.1 then m.1.name
      else (fs.filterMap (ExtraField.pathText mem)).head?.getD m.1.name := by
  rw [← foldl_first]
  exact congrArg Prod.snd
    (List.foldl_hom (fun m : File × Time => (utf8Named m.1, m.1.name))
      fun m f => (record_name mem f m.1).symm).symm

end Fold

/-! ## Whole headers -/

/-- The metadata of a header as its fields say, where the code does as it is meant to.
Nothing is said of the times of UNIX fields, nor of link names. -/
structure DirectoryHeader.FollowsFields (h : DirectoryHeader) (buf : Bytes) (file : File) :
    Prop where
  /-- The last field with a time decides if it is an NTFS or an extended timestamp
  field, unless its time is in the first second of 1970. -/
  time : ∀ f t, (h.fields.1.filter fun f => f.allTimes h.mem ≠ []).getLast? = some f →
    f.lastTime h.mem = some t → Time.toUnixSeconds t ≠ 0 → file.time = t
  dosTime : (∀ f ∈ h.fields.1, ¬f.HasUnixTime) →
    (∀ t, (h.fields.1.filterMap (ExtraField.lastTime h.mem)).getLast? = some t →
      Time.toUnixSeconds t = 0) →
    file.time = Time.fromDosDateTime (field buf 14 2) (field buf 12 2)
  linkname : (∀ f ∈ h.fields.1, ¬f.HasLink) → file.linkname = []
  /-- The first Unicode path counts, and none if the name is UTF-8 already. -/
  name : file.name =
    if utf8Named h.file then h.file.name
    else (h.fields.1.filterMap (ExtraField.pathText h.mem)).head?.getD h.file.name
  comment : file.comment =
    (h.fields.1.filterMap (ExtraField.commentText h.mem)).getLast?.getD h.file.comment

/-- The metadata of a header as all its fields say. -/
structure DirectoryHeader.StrictMetadata (h : DirectoryHeader) (buf : Bytes) (file : File) :
    Prop where
  time : ∀ f t, (h.fields.1.filter fun f => f.allTimes h.mem ≠ []).getLast? = some f →
    (f.allTimes h.mem).getLast? = some t → file.time = t
  dosTime : (∀ f ∈ h.fields.1, f.allTimes h.mem = []) →
    file.time = Time.fromDosDateTime (field buf 14 2) (field buf 12 2)
  linkname : ∀ f, (h.fields.1.filter fun f => f.HasLink).getLast? = some f →
    file.linkname = loadAt h.mem (f.data + 12) (f.size - 12)
  name : ∀ f, (h.fields.1.filter fun f =>
      f.tag = infoZipUnicodePathID ∧ 5 ≤ f.size).getLast? = some f →
    file.name = loadAt h.mem (f.data + 5) (f.size - 5)
  comment : ∀ f, (h.fields.1.filter fun f =>
      f.tag = infoZipUnicodeCommentExtraID ∧ 5 ≤ f.size).getLast? = some f →
    file.comment = loadAt h.mem (f.data + 5) (f.size - 5)

theorem getLast?_lastTime {mem : Memory} {fs : List ExtraField} {f : ExtraField} {t : Time}
    (hlast : (fs.filter fun f => f.allTimes mem ≠ []).getLast? = some f)
    (ht : f.lastTime mem = some t) :
    (fs.filterMap (ExtraField.lastTime mem)).getLast? = some t := by
  rw [List.getLast?_filter, List.find?_eq_some_iff_append] at hlast
  obtain ⟨-, later, earlier, hfs, hlater⟩ := hlast
  have hnone : later.findSome? (ExtraField.lastTime mem) = none := by
    rw [List.findSome?_eq_none_iff]
    intro g hg
    have hnil : g.allTimes mem = [] := by simpa using hlater g hg
    unfold ExtraField.allTimes at hnil
    split at hnil
    · cases hnil
    · rw [ExtraField.lastTime, hnil, List.getLast?_nil]
  rw [List.getLast?_filterMap, hfs, List.findSome?_append, hnone, Option.none_or,
    List.findSome?_cons, ht]

theorem finishHeader_ok {buf : Bytes} {s : ExtraState} {file : File}
    (h : finishHeader buf (.next s) = .ok file) :
    file = { s.file with
      time :=
        if Time.toUnixSeconds s.modified ≠ 0 then s.modified
        else Time.fromDosDateTime (field buf 14 2) (field buf 12 2) } := by
  unfold finishHeader at h
  dsimp only at h
  split at h <;> cases h
  rfl

theorem followsFields_of_fold {buf : Bytes} {h : DirectoryHeader} {s : ExtraState}
    {file : File} (hlinkname : h.file.linkname = [])
    (hfold : (s.file.withoutSizes, s.modified) =
      h.fields.1.foldl (takeMetadata h.mem) (h.file.withoutSizes, 0))
    (hfile : finishHeader buf (.next s) = .ok file) : h.FollowsFields buf file := by
  have hrecord := finishHeader_ok hfile
  have hmodified : s.modified =
      (h.fields.1.filterMap (ExtraField.lastTime h.mem)).getLast?.getD 0 :=
    (congrArg Prod.snd hfold).trans (foldl_metadata_time h.mem _ _)
  refine ⟨?_, ?_, ?_, ?_, ?_⟩
  · intro f t hlast ht hsecond
    rw [getLast?_lastTime hlast ht, Option.getD_some] at hmodified
    rw [hrecord]
    dsimp only
    rw [hmodified, if_pos hsecond]
  · intro _ hsecond
    have hzero : Time.toUnixSeconds s.modified = 0 := by
      rw [hmodified]
      cases hlast : (h.fields.1.filterMap (ExtraField.lastTime h.mem)).getLast? with
      | none => rfl
      | some t => exact hsecond t hlast
    rw [hrecord]
    dsimp only
    rw [if_neg (not_not_intro hzero)]
  · intro hnone
    have hempty : h.fields.1.filterMap (ExtraField.linkText h.mem) = [] :=
      List.filterMap_eq_nil_iff.mpr fun f hf => if_neg (hnone f hf)
    have hfinal := (congrArg (fun m => m.1.linkname) hfold).trans
      (foldl_metadata_linkname h.mem _ _)
    rw [hempty] at hfinal
    rw [hrecord]
    exact hfinal.trans hlinkname
  · have hfinal := (congrArg (fun m => m.1.name) hfold).trans
      (foldl_metadata_name h.mem _ _)
    rw [hrecord]
    exact hfinal
  · have hfinal := (congrArg (fun m => m.1.comment) hfold).trans
      (foldl_metadata_comment h.mem _ _)
    rw [hrecord]
    exact hfinal

/-- With a cursor that counts, the metadata of every header that is accepted follow its
fields. -/
theorem readDirectoryHeader_metadata {rest : Nat → Nat → Nat} (hrest : Shortens rest)
    {env : Env} {place : Nat → Nat} {d d' : DirectoryReader} {buf : Bytes}
    {h : DirectoryHeader} (hread : ReadsHeader env place d buf h d') {fuel : Nat}
    (hfuel : h.extraLen.toNat < fuel) :
    ∃ result, readDirectoryHeaderWith rest env place fuel d = some (result, d') ∧
      ∀ file, result = .ok file → h.FollowsFields buf file := by
  have hlinkname : h.file.linkname = [] := by
    rw [hread.header]
    rfl
  obtain ⟨walk, hwalk, hagrees⟩ := (metadataObservation h.mem).extraLoop_agrees hrest
    h.extraLen.toNat h.extraStart h.initialState hfuel
  have hagrees' : Agrees (metadataObservation h.mem).view
      (h.fields.1.foldlM (metadataObservation h.mem).step
        (h.initialState.sizes, h.file.withoutSizes, 0)) walk := hagrees
  refine ⟨_, hread.readDirectoryHeaderWith_eq hwalk, ?_⟩
  intro file hfile
  cases walk with
  | rejected s => cases hfile
  | next s =>
      rw [foldlM_metadata] at hagrees'
      obtain ⟨z, -, hz⟩ := Option.map_eq_some_iff.mp hagrees'
      exact followsFields_of_fold hlinkname (congrArg Prod.snd hz).symm hfile

/-! ## A header -/

/-- An entry without a name whose name is said to be UTF-8, with a Unicode path field
for the name `b`. -/
def utf8Bytes : Bytes :=
  [0x50, 0x4b, 0x01, 0x02, 0, 0, 0, 0, 0x00, 0x08] ++ List.replicate 20 0 ++ [10, 0] ++
    List.replicate 14 0 ++ [0x75, 0x70, 6, 0, 1, 0, 0, 0, 0, 0x62]

theorem utf8Bytes_read :
    ReadsHeader emptyEnv (fun _ => 0) (bufferedReader utf8Bytes)
      (utf8Bytes.take directoryHeaderLen) (headerOf utf8Bytes) (readerBehind utf8Bytes) where
  fixed := ⟨_, _, rfl, _, rfl, rfl⟩
  signature := by decide
  capacity := by decide
  buffer := rfl
  header := rfl

theorem readDirectoryHeader_metadata_bytes :
    ∃ result, readDirectoryHeaderWith (fun size n => size - n) emptyEnv (fun _ => 0) 11
        (bufferedReader utf8Bytes) = some (result, readerBehind utf8Bytes) ∧
      ∀ file, result = .ok file →
        (headerOf utf8Bytes).FollowsFields (utf8Bytes.take directoryHeaderLen) file :=
  readDirectoryHeader_metadata (fun _ _ _ => rfl) utf8Bytes_read (by decide)

theorem utf8Bytes_fields :
    (headerOf utf8Bytes).fields = ([⟨infoZipUnicodePathID, 4, 6⟩], 0) := by
  have hfield : fieldAt (headerOf utf8Bytes).mem (headerOf utf8Bytes).extraStart =
      ⟨infoZipUnicodePathID, 4, 6⟩ := by decide
  rw [DirectoryHeader.fields, fieldWalk_cons (by decide) (by decide), hfield,
    fieldWalk_stop (.inl (by decide))]
  rfl

/-- The path is not taken. -/
theorem readDirectoryHeader_metadata_not_strict :
    ¬∀ (rest : Nat → Nat → Nat), Shortens rest →
      ∀ (env : Env) (place : Nat → Nat) (d d' : DirectoryReader) (buf : Bytes)
        (h : DirectoryHeader), ReadsHeader env place d buf h d' →
      ∀ fuel, h.extraLen.toNat < fuel →
      ∃ result, readDirectoryHeaderWith rest env place fuel d = some (result, d') ∧
        ∀ file, result = .ok file → h.StrictMetadata buf file := by
  intro hall
  obtain ⟨result, hresult, hstrict⟩ := hall (fun size n => size - n) (fun _ _ _ => rfl) _ _
    _ _ _ _ utf8Bytes_read 11 (by decide)
  obtain ⟨file, hfile, hname⟩ : ∃ file, readDirectoryHeaderWith (fun size n => size - n)
      emptyEnv (fun _ => 0) 11 (bufferedReader utf8Bytes) =
        some (.ok file, readerBehind utf8Bytes) ∧ file.name = [] := ⟨_, rfl, rfl⟩
  rw [hfile, Option.some.injEq, Prod.mk.injEq] at hresult
  have hpath := (hstrict file hresult.1.symm).name ⟨infoZipUnicodePathID, 4, 6⟩ (by
    rw [utf8Bytes_fields]
    rfl)
  rw [hname] at hpath
  exact absurd hpath (by decide)

end Baulk.Zip
