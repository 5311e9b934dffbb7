import Baulk.Tar.Reader

/-!
# Tar streams as lists of entries

The format itself, without a reader: an entry is a header block, its data and
the padding to the next block edge.  Metadata entries add to what is pending
for the next visible entry; a visible entry uses it up.  A header-only entry
has no data whatever its size field says.
-/

namespace Baulk.Tar

/-- One entry of a stream. -/
structure Entry where
  block : Bytes
  data : Bytes
  padding : Bytes

namespace Entry

def encode (e : Entry) : Bytes :=
  e.block ++ (e.data ++ e.padding)

end Entry

/-- The bytes of a sequence of entries. -/
def encodeAll (entries : List Entry) : Bytes :=
  (entries.map Entry.encode).flatten

@[simp]
theorem encodeAll_nil : encodeAll [] = [] := rfl

@[simp]
theorem encodeAll_cons (e : Entry) (entries : List Entry) :
    encodeAll (e :: entries) = e.encode ++ encodeAll entries := rfl

/-- How much data stands behind a header. -/
def bodySize (h : Header) : Int :=
  if isHeaderOnlyType h.typeflag then 0 else h.size

def isPaxType (flag : UInt8) : Bool :=
  flag == typeXHeader || flag == typeXGlobalHeader

def isLongType (flag : UInt8) : Bool :=
  flag == typeGNULongName || flag == typeGNULongLink

/-- The entries that `Next` reads on its own. -/
def isMetadataType (flag : UInt8) : Bool :=
  isPaxType flag || isLongType flag

/-- What was said about the next visible entry so far. -/
structure Pending where
  paxHdrs : PaxRecords := []
  gnuLongName : Bytes := []
  gnuLongLink : Bytes := []

/-- The data and the padding are as long as a size says. -/
def Entry.fits (e : Entry) (size : Int) : Bool :=
  e.data.length == size && e.padding.length == blockPadding size

/-- What the data of a metadata entry says: something to remember, or a global
header, which is visible. -/
def interpretMetadata (rt : Runtime) (pending : Pending) (h : Header)
    (data : Bytes) : Option (Pending ⊕ Header) :=
  if isPaxType h.typeflag then
    match parsePAXData rt data pending.paxHdrs with
    | .error _ => none
    | .ok records =>
        if h.typeflag = typeXGlobalHeader then
          some (.inr (globalHeader (mergePAX rt
            { h with format := h.format &&& formatPAX } records {}).2.1))
        else some (.inl { pending with paxHdrs := records })
  else if h.typeflag = typeGNULongName then
    some (.inl { pending with gnuLongName := parseString data })
  else some (.inl { pending with gnuLongLink := parseString data })

/-- The header of any other entry. -/
def interpretOrdinary (rt : Runtime) (pending : Pending) (h : Header) :
    Option Header :=
  match completeHeader rt pending.paxHdrs pending.gnuLongName
      pending.gnuLongLink h {} with
  | (false, _, _) => none
  | (true, h, _) => if bodySize h < 0 then none else some (unifyFormat h)

/-- What an entry with the header `h` stands for. -/
def interpret (rt : Runtime) (pending : Pending) (h : Header) (e : Entry) :
    Option (Pending ⊕ Header) :=
  if bodySize h < 0 then none
  else if isMetadataType h.typeflag then
    if e.fits h.size then interpretMetadata rt pending h e.data else none
  else
    match interpretOrdinary rt pending h with
    | none => none
    | some h => if e.fits (bodySize h) then some (.inr h) else none

/-- The meaning of an entry; `none` if it is not well formed. -/
def Entry.meaning (rt : Runtime) (pending : Pending) (e : Entry) :
    Option (Pending ⊕ Header) :=
  if e.block.length ≠ blockSize ∨ isZeroBlock e.block = true then none
  else
    match parseHeader e.block with
    | .error _ => none
    | .ok h => interpret rt pending h e

def WellFormed (rt : Runtime) : Pending → List Entry → Prop
  | _, [] => True
  | pending, e :: entries =>
      match e.meaning rt pending with
      | none => False
      | some (.inl pending) => WellFormed rt pending entries
      | some (.inr _) => WellFormed rt {} entries

/-- What a client can read of an entry: the data of a global header is not for
it. -/
def clientData (h : Header) (data : Bytes) : Bytes :=
  if isMetadataType h.typeflag then [] else data

/-- The visible entries: their headers, and the data of those that have some. -/
def visible (rt : Runtime) : Pending → List Entry → List (Header × Bytes)
  | _, [] => []
  | pending, e :: entries =>
      match e.meaning rt pending with
      | none => []
      | some (.inl pending) => visible rt pending entries
      | some (.inr h) => (h, clientData h e.data) :: visible rt {} entries

/-! ## The padding -/

theorem handleRegularFile_eq (h : Header) :
    handleRegularFile h =
      if bodySize h < 0 then .error invalidHeader
      else .ok (blockPadding (bodySize h)) := rfl

theorem Entry.fits_iff {e : Entry} {size : Int} :
    e.fits size = true ↔
      (e.data.length : Int) = size ∧
        (e.padding.length : Int) = blockPadding size := by
  simp [Entry.fits]

theorem bodySize_of_metadata {h : Header}
    (hmeta : isMetadataType h.typeflag = true) : bodySize h = h.size := by
  have hnot : isHeaderOnlyType h.typeflag = false := by
    simp only [isMetadataType, isPaxType, isLongType, Bool.or_eq_true,
      beq_iff_eq] at hmeta
    rcases hmeta with (hflag | hflag) | (hflag | hflag) <;> rw [hflag] <;> rfl
  rw [bodySize, hnot]
  rfl

/-! ## Type flags -/

theorem parseHeader_typeflag {block : Bytes} {h : Header}
    (hparse : parseHeader block = .ok h) :
    h.typeflag = typeflagField block := by
  unfold parseHeader at hparse
  dsimp only at hparse
  split at hparse
  · contradiction
  split at hparse
  · cases hparse
    rfl
  · cases hparse
    repeat' split
    all_goals rfl

theorem mergeText_typeflag {h h' : Header} {k v : Bytes}
    (hmerge : mergeText h k v = some h') : h'.typeflag = h.typeflag := by
  unfold mergeText at hmerge
  repeat'
    split at hmerge
    · cases hmerge
      rfl
  contradiction

theorem mergeTime_typeflag {h : Header} {k : Bytes} {set : Time → Header}
    (hmerge : mergeTime h k = some set) (t : Time) :
    (set t).typeflag = h.typeflag := by
  unfold mergeTime at hmerge
  repeat'
    split at hmerge
    · cases hmerge
      rfl
  contradiction

theorem mergeNumber_typeflag {rt : Runtime} {h h' : Header} {k v : Bytes}
    {assigned : Option ErrorCode}
    (hmerge : mergeNumber rt h k v = .ok (h', assigned)) :
    h'.typeflag = h.typeflag := by
  unfold mergeNumber at hmerge
  split at hmerge
  · split at hmerge <;> cases hmerge <;> rfl
  split at hmerge
  · split at hmerge <;> cases hmerge
    rfl
  split at hmerge
  · split at hmerge <;> cases hmerge
    rfl
  split at hmerge <;> cases hmerge <;> rfl

theorem mergeRecord_typeflag {rt : Runtime} {h h' : Header} {k v : Bytes}
    {assigned : Option ErrorCode}
    (hmerge : mergeRecord rt h k v = .ok (h', assigned)) :
    h'.typeflag = h.typeflag := by
  unfold mergeRecord at hmerge
  split at hmerge
  · cases hmerge
    rfl
  split at hmerge
  · rename_i htext
    cases hmerge
    exact mergeText_typeflag htext
  split at hmerge
  · rename_i htime
    split at hmerge <;> cases hmerge
    exact mergeTime_typeflag htime _
  · exact mergeNumber_typeflag hmerge

theorem mergeRecords_typeflag (rt : Runtime) (records : PaxRecords) :
    ∀ (h : Header) (ec : ErrorCode),
      (mergeRecords rt records h ec).2.1.typeflag = h.typeflag := by
  induction records with
  | nil =>
      intro h ec
      rfl
  | cons record records ih =>
      intro h ec
      unfold mergeRecords
      split
      · rfl
      · rename_i hmerge
        rw [ih]
        exact mergeRecord_typeflag hmerge

theorem mergePAX_typeflag (rt : Runtime) (h : Header) (records : PaxRecords)
    (ec : ErrorCode) : (mergePAX rt h records ec).2.1.typeflag = h.typeflag := by
  have hrecords := mergeRecords_typeflag rt (rt.iterate records) h ec
  unfold mergePAX
  split <;> rename_i heq <;> rw [heq] at hrecords <;> exact hrecords

theorem interpretMetadata_typeflag {rt : Runtime} {pending : Pending}
    {h h' : Header} {data : Bytes}
    (hinterpret : interpretMetadata rt pending h data = some (.inr h')) :
    h'.typeflag = h.typeflag := by
  unfold interpretMetadata at hinterpret
  split at hinterpret
  · split at hinterpret
    · contradiction
    · split at hinterpret <;> cases hinterpret
      exact mergePAX_typeflag rt _ _ _
  · split at hinterpret <;> cases hinterpret

@[simp]
theorem unifyFormat_size (h : Header) : (unifyFormat h).size = h.size := by
  unfold unifyFormat
  split <;> rfl

@[simp]
theorem unifyFormat_typeflag (h : Header) :
    (unifyFormat h).typeflag = h.typeflag := by
  unfold unifyFormat
  split <;> rfl

@[simp]
theorem bodySize_unifyFormat (h : Header) :
    bodySize (unifyFormat h) = bodySize h := by
  simp [bodySize]

theorem resolveRegA_ordinary (h : Header)
    (hnot : isMetadataType h.typeflag = false) :
    isMetadataType (resolveRegA h).typeflag = false := by
  unfold resolveRegA
  dsimp only
  split
  · split <;> decide
  · exact hnot

/-- An ordinary entry stays one; only the old flag for regular files is
replaced. -/
theorem interpretOrdinary_typeflag {rt : Runtime} {pending : Pending}
    {h h' : Header} (hordinary : interpretOrdinary rt pending h = some h')
    (hnot : isMetadataType h.typeflag = false) :
    isMetadataType h'.typeflag = false := by
  have hmerged := mergePAX_typeflag rt h pending.paxHdrs {}
  unfold interpretOrdinary completeHeader at hordinary
  rcases hmerge : mergePAX rt h pending.paxHdrs {} with ⟨_ | _, h₁, ec⟩ <;>
    rw [hmerge] at hordinary hmerged
  · contradiction
  dsimp only at hordinary hmerged
  split at hordinary
  · contradiction
  · cases hordinary
    rw [unifyFormat_typeflag]
    rw [← hmerged] at hnot
    exact resolveRegA_ordinary _ hnot

end Baulk.Tar
