import Baulk.Zip.Relocation

/-!
# Zip archives

The archive of a list of entries as the format describes it: a local header and
the data of each entry, the central directory, and the end record with the
comment.  No header has an extra area, and every number is below the value that
refers to a zip64 field.
-/

namespace Baulk.Zip

/-! ## Records -/

/-- A record of numbers, each with its width in bytes. -/
def layout (fields : List (Nat × Nat)) : Bytes :=
  (fields.map fun f => storeLe f.2 f.1).flatten

theorem length_layout (fields : List (Nat × Nat)) :
    (layout fields).length = (fields.map Prod.fst).sum := by
  unfold layout
  rw [List.length_flatten, List.map_map]
  congr 1
  exact List.map_congr_left fun f _ => length_storeLe _ _

theorem leValue_storeLe (n width : Nat) :
    leValue (storeLe n width) = n % 256 ^ width := by
  induction width generalizing n with
  | zero => rw [Nat.pow_zero, Nat.mod_one]; rfl
  | succ width ih =>
      have hmod : n % 256 ^ (width + 1) =
          n % 256 + 256 * (n / 256 % 256 ^ width) := by
        rw [Nat.pow_succ', Nat.mod_mul]
      rw [storeLe, leValue, List.foldr_cons, ← leValue, ih, UInt8.toNat_ofNat',
        hmod]

/-- A field of a record, whatever stands behind the record. -/
theorem field_layout {fields : List (Nat × Nat)} {widths : List Nat}
    (hwidths : fields.map Prod.fst = widths) (k : Nat) {width n : Nat}
    (hk : fields[k]? = some (width, n)) (rest : Bytes) :
    field (layout fields ++ rest) (widths.take k).sum width =
      n % 256 ^ width := by
  obtain ⟨hlt, hget⟩ := List.getElem?_eq_some_iff.mp hk
  have hsplit : fields = fields.take k ++ (width, n) :: fields.drop (k + 1) := by
    rw [← hget, List.getElem_cons_drop, List.take_append_drop]
  have hlayout : layout fields = layout (fields.take k) ++
      (storeLe n width ++ layout (fields.drop (k + 1))) := by
    conv_lhs => rw [hsplit]
    unfold layout
    rw [List.map_append, List.flatten_append, List.map_cons, List.flatten_cons]
  rw [field, hlayout, List.append_assoc, ← hwidths, ← List.map_take,
    ← length_layout, List.drop_left,
    List.append_assoc, List.take_left' (length_storeLe _ _), leValue_storeLe]

/-! ## Entries -/

/-- An entry of an archive. -/
structure Entry where
  versionMadeby : UInt16
  versionNeeded : UInt16
  flags : UInt16
  method : UInt16
  dosTime : UInt16
  dosDate : UInt16
  crc32Value : UInt32
  compressedSize : UInt32
  uncompressedSize : UInt32
  internalAttrs : UInt16
  externalAttrs : UInt32
  name : Bytes
  comment : Bytes
  data : Bytes
  compressed_lt : compressedSize.toNat < 0xFFFFFFFF
  uncompressed_lt : uncompressedSize.toNat < 0xFFFFFFFF
  name_lt : name.length < 2 ^ 16
  comment_lt : comment.length < 2 ^ 16

namespace Entry

def localFields (e : Entry) : List (Nat × Nat) :=
  [(4, fileHeaderSignature), (2, e.versionNeeded.toNat), (2, e.flags.toNat),
    (2, e.method.toNat), (2, e.dosTime.toNat), (2, e.dosDate.toNat),
    (4, e.crc32Value.toNat), (4, e.compressedSize.toNat),
    (4, e.uncompressedSize.toNat), (2, e.name.length), (2, 0)]

/-- The local header with the data behind it. -/
def localPart (e : Entry) : Bytes :=
  layout e.localFields ++ e.name ++ e.data

def headerFields (e : Entry) (position : Nat) : List (Nat × Nat) :=
  [(4, directoryHeaderSignature), (2, e.versionMadeby.toNat),
    (2, e.versionNeeded.toNat), (2, e.flags.toNat), (2, e.method.toNat),
    (2, e.dosTime.toNat), (2, e.dosDate.toNat), (4, e.crc32Value.toNat),
    (4, e.compressedSize.toNat), (4, e.uncompressedSize.toNat),
    (2, e.name.length), (2, 0), (2, e.comment.length), (2, 0),
    (2, e.internalAttrs.toNat), (4, e.externalAttrs.toNat), (4, position)]

def headerWidths : List Nat :=
  [4, 2, 2, 2, 2, 2, 2, 4, 4, 4, 2, 2, 2, 2, 2, 4, 4]

theorem map_fst_headerFields (e : Entry) (position : Nat) :
    (e.headerFields position).map Prod.fst = headerWidths := rfl

/-- The header in the central directory of an entry at `position`. -/
def header (e : Entry) (position : Nat) : Bytes :=
  layout (e.headerFields position) ++ (e.name ++ e.comment)

/-- What the header says about the entry. -/
def file (e : Entry) (position : Nat) : File :=
  let file : File := {
    name := e.name
    comment := e.comment
    compressedSize := UInt64.ofNat e.compressedSize.toNat
    uncompressedSize := UInt64.ofNat e.uncompressedSize.toNat
    position := UInt64.ofNat position
    time := Time.fromDosDateTime e.dosDate.toNat e.dosTime.toNat
    crc32Value := e.crc32Value
    versionMadeby := e.versionMadeby
    versionNeeded := e.versionNeeded
    flags := e.flags
    method := e.method }
  { file with mode := resolveFileMode file e.externalAttrs }

/-- The bytes in front of the first NUL. -/
def cstring (s : Bytes) : Bytes :=
  s.takeWhile (· != 0)

theorem length_cstring_le (s : Bytes) : (cstring s).length ≤ s.length :=
  (List.takeWhile_sublist _).length_le

/-- The entry with its texts cut at the first NUL. -/
def cut (e : Entry) : Entry where
  versionMadeby := e.versionMadeby
  versionNeeded := e.versionNeeded
  flags := e.flags
  method := e.method
  dosTime := e.dosTime
  dosDate := e.dosDate
  crc32Value := e.crc32Value
  compressedSize := e.compressedSize
  uncompressedSize := e.uncompressedSize
  internalAttrs := e.internalAttrs
  externalAttrs := e.externalAttrs
  name := cstring e.name
  comment := cstring e.comment
  data := e.data
  compressed_lt := e.compressed_lt
  uncompressed_lt := e.uncompressed_lt
  name_lt := (length_cstring_le _).trans_lt e.name_lt
  comment_lt := (length_cstring_le _).trans_lt e.comment_lt

end Entry

/-! ## Archives -/

/-- The local headers and the data. -/
def localArea (es : List Entry) : Bytes :=
  es.flatMap Entry.localPart

/-- The entries with the offsets of their local headers, of which the first is
at `position`. -/
def placed : Nat → List Entry → List (Nat × Entry)
  | _, [] => []
  | position, e :: es =>
      (position, e) :: placed (position + e.localPart.length) es

/-- The headers of these entries in the central directory. -/
def headers (position : Nat) (es : List Entry) : Bytes :=
  (placed position es).flatMap fun p => p.2.header p.1

def directory (es : List Entry) : Bytes :=
  headers 0 es

def endFields (es : List Entry) (comment : Bytes) : List (Nat × Nat) :=
  [(4, 0x06054b50), (2, 0), (2, 0), (2, es.length), (2, es.length),
    (4, (directory es).length), (4, (localArea es).length),
    (2, comment.length)]

def endWidths : List Nat :=
  [4, 2, 2, 2, 2, 4, 4, 2]

theorem map_fst_endFields (es : List Entry) (comment : Bytes) :
    (endFields es comment).map Prod.fst = endWidths := rfl

def endOffset (es : List Entry) : Nat :=
  (localArea es).length + (directory es).length

/-- The archive of some entries with a comment. -/
def archive (es : List Entry) (comment : Bytes) : Bytes :=
  localArea es ++ directory es ++ (layout (endFields es comment) ++ comment)

theorem length_localArea_cons (e : Entry) (es : List Entry) :
    (localArea (e :: es)).length =
      e.localPart.length + (localArea es).length := by
  rw [localArea, List.flatMap_cons, List.length_append]
  rfl

theorem placed_append (position : Nat) (es es' : List Entry) :
    placed position (es ++ es') =
      placed position es ++ placed (position + (localArea es).length) es' := by
  induction es generalizing position with
  | nil => rfl
  | cons e es ih =>
      rw [List.cons_append, placed, ih, placed, List.cons_append,
        length_localArea_cons, Nat.add_assoc]

theorem length_placed (position : Nat) (es : List Entry) :
    (placed position es).length = es.length := by
  induction es generalizing position with
  | nil => rfl
  | cons e es ih => rw [placed, List.length_cons, ih, List.length_cons]

theorem headers_append (position : Nat) (es es' : List Entry) :
    headers position (es ++ es') =
      headers position es ++
        headers (position + (localArea es).length) es' := by
  unfold headers
  rw [placed_append, List.flatMap_append]

/-- Every local header is in the area of the local headers. -/
theorem le_of_mem_placed {position : Nat} {es : List Entry} {p : Nat × Entry}
    (h : p ∈ placed position es) :
    p.1 ≤ position + (localArea es).length := by
  induction es generalizing position with
  | nil => cases h
  | cons e es ih =>
      have hlength := length_localArea_cons e es
      rw [placed, List.mem_cons] at h
      rcases h with rfl | h
      · omega
      · have hle := ih h
        omega

theorem length_localPart (e : Entry) :
    e.localPart.length = fileHeaderLen + e.name.length + e.data.length := by
  rw [Entry.localPart, List.length_append, List.length_append, length_layout]
  rfl

theorem length_localArea_ge (es : List Entry) :
    es.length * fileHeaderLen ≤ (localArea es).length := by
  induction es with
  | nil => exact Nat.zero_le _
  | cons e es ih =>
      have hpart := length_localPart e
      rw [length_localArea_cons, List.length_cons, Nat.succ_mul]
      omega

theorem length_endFields (es : List Entry) (comment : Bytes) :
    (layout (endFields es comment)).length = directoryEndLen := by
  rw [length_layout, map_fst_endFields]
  rfl

theorem length_archive (es : List Entry) (comment : Bytes) :
    (archive es comment).length =
      endOffset es + directoryEndLen + comment.length := by
  rw [archive, List.length_append, List.length_append, List.length_append,
    length_endFields, endOffset]
  omega

theorem drop_endOffset (es : List Entry) (comment : Bytes) :
    (archive es comment).drop (endOffset es) =
      layout (endFields es comment) ++ comment := by
  unfold archive endOffset
  rw [← List.length_append, List.drop_left]

end Baulk.Zip
