import Baulk.Tar.FileReader
import Baulk.Tar.Round

/-!
# Alignment of the tar reader

On a stream of well-formed entries the reader should start each header at the
block behind the padded data of the entry before.  It does so as long as the
remaining size is the number of unread bytes when a round of `Next` begins.
The code breaks this twice: the remaining size of a header-only entry is its
size field, and the remaining size is discarded again after each metadata
header.  The main result says that nothing else goes wrong.
-/

namespace Baulk.Tar

open Support (Step loop loop_spec)

variable {R : ExtractReader} {D : Bytes} {rt : Runtime}

/-! ## The entry at the front -/

theorem wellFormed_front {pending : Pending} {entries : List Entry}
    {block rest : Bytes} {h : Header} (hwf : WellFormed rt pending entries)
    (hblock : Block (encodeAll entries) block rest h) :
    ∃ e es m, entries = e :: es ∧ block = e.block ∧
      rest = e.data ++ (e.padding ++ encodeAll es) ∧
      e.meaning rt pending = some m ∧ interpret rt pending h e = some m := by
  have hsplit := hblock.split
  have hlength := hblock.length
  cases entries with
  | nil =>
      rw [encodeAll_nil, eq_comm, List.append_eq_nil_iff] at hsplit
      rw [hsplit.1] at hlength
      contradiction
  | cons e es =>
      unfold WellFormed at hwf
      cases hmeaning : e.meaning rt pending with
      | none =>
          rw [hmeaning] at hwf
          exact hwf.elim
      | some m =>
          have hm := hmeaning
          unfold Entry.meaning at hm
          split at hm
          · contradiction
          rename_i hshape
          rw [not_or, not_not] at hshape
          rw [encodeAll_cons, Entry.encode, List.append_assoc] at hsplit
          obtain ⟨rfl, htail⟩ := List.append_inj hsplit
            (hshape.1.trans hlength.symm)
          rw [hblock.parse] at hm
          refine ⟨e, es, m, rfl, rfl, ?_, hmeaning, hm⟩
          rw [← htail, List.append_assoc]

/-- A metadata entry that is well formed is read completely. -/
theorem metadata_front {pending : Pending} {h : Header} {e : Entry}
    {data tail ahead : Bytes} {m : Pending ⊕ Header}
    (hmeta : isMetadataType h.typeflag = true) (hbody : 0 ≤ bodySize h)
    (hlength : (data.length : Int) = h.size)
    (hsplit : data ++ tail = e.data ++ (e.padding ++ ahead))
    (hinterpret : interpret rt pending h e = some m) :
    data = e.data ∧ tail = e.padding ++ ahead ∧
      (e.padding.length : Int) = blockPadding h.size ∧
      interpretMetadata rt pending h data = some m := by
  unfold interpret at hinterpret
  rw [if_neg (by omega), if_pos hmeta] at hinterpret
  split at hinterpret
  · rename_i hfits
    obtain ⟨hdata, hpadding⟩ := Entry.fits_iff.mp hfits
    obtain ⟨rfl, rfl⟩ := List.append_inj hsplit (by omega)
    exact ⟨rfl, rfl, hpadding, hinterpret⟩
  · contradiction

theorem ordinary_front {pending : Pending} {h h' : Header} {e : Entry}
    {m : Pending ⊕ Header} (hnot : isMetadataType h.typeflag = false)
    (hbody : 0 ≤ bodySize h)
    (hordinary : interpretOrdinary rt pending h = some h')
    (hinterpret : interpret rt pending h e = some m) :
    m = .inr h' ∧ (e.data.length : Int) = bodySize h' ∧
      (e.padding.length : Int) = blockPadding (bodySize h') := by
  unfold interpret at hinterpret
  rw [if_neg (by omega), hnot, hordinary] at hinterpret
  dsimp only at hinterpret
  rw [if_neg Bool.false_ne_true] at hinterpret
  split at hinterpret <;> cases hinterpret
  rename_i hfits
  exact ⟨rfl, Entry.fits_iff.mp hfits⟩

/-! ## One call -/

/-- The reader has `unread` of the current entry and then `entries` before it,
and its counters say so. -/
def Before (cursor : Cursor R D) (r : Reader R) (unread : Bytes)
    (entries : List Entry) : Prop :=
  ∃ padding, Stands cursor r.source
      (unread ++ (padding ++ encodeAll entries)) ∧
    r.remainingSize = unread.length ∧ r.paddingSize = padding.length

def FrontIsMetadata : List Entry → Prop
  | [] => False
  | e :: _ => isMetadataType (typeflagField e.block) = true

/-- What a successful `Next` returns when `entries` are next: the first visible
one of them.  The remaining size of a header-only entry is its size field. -/
def Returns (rt : Runtime) (cursor : Cursor R D) (pending : Pending)
    (entries : List Entry) (result : NextResult R) : Prop :=
  ∀ h, result.header = some h → ∃ front rest data padding,
    entries = front ++ rest ∧ WellFormed rt {} rest ∧
      visible rt pending entries = (h, data) :: visible rt {} rest ∧
      Stands cursor result.reader.source
        (data ++ (padding ++ encodeAll rest)) ∧
      result.reader.paddingSize = padding.length ∧
      (isHeaderOnlyType h.typeflag = true → data = []) ∧
      result.reader.remainingSize =
        if isHeaderOnlyType h.typeflag then h.size else data.length

theorem Returns.cons {cursor : Cursor R D} {pending pending' : Pending}
    {e : Entry} {entries : List Entry} {result : NextResult R}
    (hmeaning : e.meaning rt pending = some (.inl pending'))
    (h : Returns rt cursor pending' entries result) :
    Returns rt cursor pending (e :: entries) result := by
  intro header hheader
  obtain ⟨front, rest, data, padding, rfl, hwf, hvisible, hresult⟩ :=
    h header hheader
  refine ⟨e :: front, rest, data, padding, rfl, hwf, ?_, hresult⟩
  rw [visible, hmeaning]
  exact hvisible

theorem not_headerOnly_of_metadata {flag : UInt8}
    (hmeta : isMetadataType flag = true) : isHeaderOnlyType flag = false := by
  simp only [isMetadataType, isPaxType, isLongType, Bool.or_eq_true,
    beq_iff_eq] at hmeta
  rcases hmeta with (rfl | rfl) | (rfl | rfl) <;> rfl

/-- A round of `Next` in front of `entries`. -/
theorem nextBody_aligned {cursor : Cursor R D} {l : NextLoop R}
    {unread : Bytes} {entries : List Entry}
    {step : Step (NextLoop R) (NextResult R)}
    (hwf : WellFormed rt l.pending entries)
    (hbefore : Before cursor l.reader unread entries)
    (hskip : FrontIsMetadata entries → unread = [])
    (hstep : nextBody rt R l = some step) :
    step.Sat
      (fun l' => ∃ e es, entries = e :: es ∧
        e.meaning rt l.pending = some (.inl l'.pending) ∧
        WellFormed rt l'.pending es ∧ Before cursor l'.reader [] es)
      (Returns rt cursor l.pending entries) := by
  obtain ⟨padding, hstands, hremaining, hpadding⟩ := hbefore
  have hfront : ∀ {block rest h}, Block (encodeAll entries) block rest h →
      isMetadataType h.typeflag = true → l.reader.remainingSize = 0 := by
    intro block rest h hblock hmeta
    obtain ⟨e, es, m, rfl, rfl, -, -, -⟩ := wellFormed_front hwf hblock
    have hempty : unread = [] := by
      apply hskip
      show isMetadataType (typeflagField e.block) = true
      rw [← parseHeader_typeflag hblock.parse]
      exact hmeta
    rw [hremaining, hempty]
    rfl
  cases nextBody_round hstands hremaining hpadding hstep with
  | fail hnone =>
      intro h hsome
      rw [hnone] at hsome
      contradiction
  | remember hblock hmeta hlength hinterpret htail hreader =>
      obtain ⟨e, es, m, rfl, -, hrest, hmeaning, hm⟩ :=
        wellFormed_front hwf hblock
      obtain ⟨rfl, rfl, hpad, hmetadata⟩ :=
        metadata_front hmeta hblock.body hlength hrest hm
      have hzero := hfront hblock hmeta
      rw [hinterpret] at hmetadata
      cases hmetadata
      unfold WellFormed at hwf
      rw [hmeaning] at hwf
      refine ⟨e, es, rfl, hmeaning, hwf, e.padding, ?_, ?_, ?_⟩
      · rw [hreader]
        exact htail
      · rw [hreader]
        exact hzero
      · rw [hreader]
        exact hpad.symm
  | @global _ _ _ h h' _ _ hblock hmeta hlength hinterpret htail =>
      obtain ⟨e, es, m, rfl, -, hrest, hmeaning, hm⟩ :=
        wellFormed_front hwf hblock
      obtain ⟨rfl, rfl, hpad, hmetadata⟩ :=
        metadata_front hmeta hblock.body hlength hrest hm
      have hzero := hfront hblock hmeta
      rw [hinterpret] at hmetadata
      cases hmetadata
      unfold WellFormed at hwf
      rw [hmeaning] at hwf
      rintro _ ⟨⟩
      have hflag : isMetadataType h'.typeflag = true := by
        rw [interpretMetadata_typeflag hinterpret]
        exact hmeta
      refine ⟨[e], es, [], e.padding, rfl, hwf, ?_, htail, hpad.symm,
        fun _ => rfl, ?_⟩
      · rw [visible, hmeaning]
        simp only [clientData, hflag, if_true]
      · rw [not_headerOnly_of_metadata hflag]
        exact hzero
  | entry hblock hnot hordinary hbody htail =>
      obtain ⟨e, es, m, rfl, -, hrest, hmeaning, hm⟩ :=
        wellFormed_front hwf hblock
      obtain ⟨rfl, hdata, hpad⟩ :=
        ordinary_front hnot hblock.body hordinary hm
      unfold WellFormed at hwf
      rw [hmeaning] at hwf
      rintro _ ⟨⟩
      have hflag := interpretOrdinary_typeflag hordinary hnot
      rw [hrest] at htail
      refine ⟨[e], es, e.data, e.padding, rfl, hwf, ?_, htail, hpad.symm, ?_,
        ?_⟩
      · rw [visible, hmeaning]
        simp only [clientData, hflag, Bool.false_eq_true, if_false]
      · intro htype
        rw [bodySize, if_pos htype] at hdata
        exact List.length_eq_zero_iff.mp (by omega)
      · split
        · rfl
        · rename_i hdataType
          rw [hdata, bodySize, if_neg hdataType]

/-- A call of `Next` in front of `entries`. -/
theorem next_aligned {cursor : Cursor R D} {fuel : Nat} {ec : ErrorCode}
    {r : Reader R} {unread : Bytes} {entries : List Entry}
    {result : NextResult R} (hwf : WellFormed rt {} entries)
    (hbefore : Before cursor r unread entries)
    (hskip : FrontIsMetadata entries → unread = [])
    (h : next rt R fuel ec r = some result) :
    Returns rt cursor {} entries result := by
  refine loop_spec
    (I := fun l => ∃ unread es, WellFormed rt l.pending es ∧
      Before cursor l.reader unread es ∧
      (FrontIsMetadata es → unread = []) ∧
      ∀ result, Returns rt cursor l.pending es result →
        Returns rt cursor {} entries result) ?_
    ⟨unread, entries, hwf, hbefore, hskip, fun _ h => h⟩ h
  rintro l step ⟨unread, es, hwf, hbefore, hskip, hreturns⟩ hstep
  have hround := nextBody_aligned hwf hbefore hskip hstep
  cases step with
  | next l' =>
      obtain ⟨e, rest, rfl, hmeaning, hwf', hbefore'⟩ := hround
      exact ⟨[], rest, hwf', hbefore', fun _ => rfl,
        fun result hresult => hreturns result (hresult.cons hmeaning)⟩
  | done result => exact hreturns result hround

/-! ## Clients -/

/-- The next header block is not metadata, or nothing is left to be skipped
before it. -/
def Skippable (cursor : Cursor R D) (r : Reader R) : Prop :=
  ∀ p, cursor.At r.source p → r.remainingSize = 0 ∨
    isMetadataType (typeflagField (segment D
      (p + r.remainingSize.toNat + r.paddingSize.toNat) blockSize)) = false

/-- The headers which a client has got and the reader it has now.  It reads no
more than what is left of the current entry and stops when a call fails. -/
inductive ClientRun (rt : Runtime) (cursor : Cursor R D) (fuel : Nat)
    (r₀ : Reader R) : List Header → Reader R → Prop
  | start : ClientRun rt cursor fuel r₀ [] r₀
  | next {hs : List Header} {r r' : Reader R} {ec ec' : ErrorCode}
      {h : Header} :
      ClientRun rt cursor fuel r₀ hs r → Skippable cursor r →
      Tar.next rt R fuel ec r = some ⟨some h, ec', r'⟩ →
      ClientRun rt cursor fuel r₀ (hs ++ [h]) r'
  | read {hs : List Header} {r r' : Reader R} {n : Nat} {got : Bytes} :
      ClientRun rt cursor fuel r₀ hs r → (n : Int) ≤ r.remainingSize →
      r.read n = some (.ok got, r') → ClientRun rt cursor fuel r₀ hs r'
  | writeTo {hs : List Header} {r r' : Reader R} {w : Writer} {n : Int}
      {result : WriteResult} :
      ClientRun rt cursor fuel r₀ hs r → n ≤ r.remainingSize →
      r.writeTo w n = some (result, r') → ClientRun rt cursor fuel r₀ hs r'

theorem frontIsMetadata_of_segment {cursor : Cursor R D} {r : Reader R}
    {unread : Bytes} {entries : List Entry} (hwf : WellFormed rt {} entries)
    (hbefore : Before cursor r unread entries) (hskip : Skippable cursor r) :
    FrontIsMetadata entries → unread = [] := by
  intro hfront
  obtain ⟨padding, ⟨p, hp, hle, hdrop⟩, hremaining, hpadding⟩ := hbefore
  cases entries with
  | nil => exact hfront.elim
  | cons e es =>
      rcases hskip p hp with hzero | hordinary
      · rw [hremaining] at hzero
        exact List.length_eq_zero_iff.mp (by omega)
      · have hlength : e.block.length = blockSize := by
          unfold WellFormed at hwf
          cases hmeaning : e.meaning rt {} with
          | none =>
              rw [hmeaning] at hwf
              exact hwf.elim
          | some m =>
              unfold Entry.meaning at hmeaning
              split at hmeaning
              · contradiction
              · rename_i hshape
                rw [not_or, not_not] at hshape
                exact hshape.1
        have hblock : segment D (p + unread.length + padding.length)
            blockSize = e.block := by
          rw [segment, ← List.drop_drop, ← List.drop_drop, hdrop,
            List.drop_left, List.drop_left, encodeAll_cons, Entry.encode,
            List.append_assoc, ← hlength, List.take_left]
        rw [hremaining, hpadding, Int.toNat_natCast, Int.toNat_natCast,
          hblock] at hordinary
        have hmeta : isMetadataType (typeflagField e.block) = true := hfront
        rw [hordinary] at hmeta
        contradiction

theorem before_advance {cursor : Cursor R D} {r : Reader R} {s : R.State}
    {p : Nat} {unread padding got : Bytes} {entries : List Entry}
    (hdrop : D.drop p = unread ++ (padding ++ encodeAll entries))
    (hle : p ≤ D.length) (hpadding : r.paddingSize = padding.length)
    (hgot : got = segment D p got.length) (hroom : got.length ≤ unread.length)
    (hs : cursor.At s (p + got.length)) {remaining : Int}
    (hremaining : remaining = unread.length - got.length) :
    Before cursor { r with source := s, remainingSize := remaining }
      (unread.drop got.length) entries := by
  have htake : unread.take got.length = got := by
    rw [segment, hdrop, List.take_append_of_le_length hroom] at hgot
    exact hgot.symm
  have hunread : got ++ unread.drop got.length = unread := by
    conv_rhs => rw [← List.take_append_drop got.length unread]
    rw [htake]
  refine ⟨padding, ?_, ?_, hpadding⟩
  · refine Stands.advance hle ?_ hs
    rw [hdrop, ← List.append_assoc got, hunread]
  · rw [List.length_drop]
    show remaining = _
    omega

/-- In a run over well-formed entries whose header-only ones have no size, the
headers returned are those of the visible entries, in order, and the reader
stands before the rest. -/
theorem clientRun_before {cursor : Cursor R D} {entries : List Entry}
    {fuel : Nat} {r₀ r : Reader R} {hs : List Header}
    (hwf : WellFormed rt {} entries) (hD : D = encodeAll entries)
    (hsizes : ∀ v ∈ visible rt {} entries,
      isHeaderOnlyType v.1.typeflag = true → v.1.size = 0)
    (hstart : cursor.At r₀.source 0) (hremaining : r₀.remainingSize = 0)
    (hpadding : r₀.paddingSize = 0)
    (hrun : ClientRun rt cursor fuel r₀ hs r) :
    ∃ front rest vs unread, entries = front ++ rest ∧ WellFormed rt {} rest ∧
      visible rt {} entries = vs ++ visible rt {} rest ∧
      vs.map Prod.fst = hs ∧ Before cursor r unread rest := by
  induction hrun with
  | start =>
      refine ⟨[], entries, [], [], rfl, hwf, rfl, rfl, [], ?_, hremaining,
        hpadding⟩
      exact ⟨0, hstart, Nat.zero_le _, hD⟩
  | @next _ _ _ _ _ h _ hskip hnext ih =>
      obtain ⟨front, rest, vs, unread, rfl, hwf', hvisible, rfl, hbefore⟩ := ih
      obtain ⟨front', rest', data, padding, rfl, hwf'', hvisible', hstands,
        hpad, hempty, hrem⟩ := next_aligned hwf' hbefore
          (frontIsMetadata_of_segment hwf' hbefore hskip) hnext h rfl
      have hmem : visible rt {} (front ++ (front' ++ rest')) =
          (vs ++ [(h, data)]) ++ visible rt {} rest' := by
        rw [hvisible, hvisible', List.append_assoc]
        rfl
      refine ⟨front ++ front', rest', vs ++ [(h, data)], data, by simp, hwf'',
        hmem, by simp, padding, hstands, ?_, hpad⟩
      rw [hrem]
      split
      · rename_i htype
        rw [hempty htype]
        exact hsizes (h, data) (by rw [hmem]; simp) htype
      · rfl
  | @read _ r r' n got _ hn hread ih =>
      obtain ⟨front, rest, vs, unread, rfl, hwf', hvisible, rfl, padding,
        ⟨p, hp, hle, hdrop⟩, hrem, hpad⟩ := ih
      refine ⟨front, rest, vs, unread.drop got.length, rfl, hwf', hvisible,
        rfl, ?_⟩
      unfold Reader.read at hread
      split at hread <;> cases hread
      rename_i s hgot
      obtain ⟨hlength, hsegment, hs⟩ := cursor.read_ok hp hgot
      refine before_advance hdrop hle hpad hsegment (by omega) hs ?_
      split <;> omega
  | @writeTo _ r r' w n result _ hn hwrite ih =>
      obtain ⟨front, rest, vs, unread, rfl, hwf', hvisible, rfl, padding,
        ⟨p, hp, hle, hdrop⟩, hrem, hpad⟩ := ih
      refine ⟨front, rest, vs, unread.drop result.chunks.flatten.length, rfl,
        hwf', hvisible, rfl, ?_⟩
      unfold Reader.writeTo at hwrite
      split at hwrite <;> cases hwrite
      rename_i s hwrite
      obtain ⟨hextracted, hroom, hsegment, hs⟩ :=
        cursor.writeTo_spec hp hwrite
      have hroom' : result.chunks.flatten.length ≤ unread.length := by
        rcases hroom with hroom | hnone
        · omega
        · simp [hnone]
      refine before_advance hdrop hle hpad hsegment hroom' hs ?_
      split <;> omega

/-- The `k`-th successful `Next` returns the `k`-th visible header, and each
call starts at the block behind the padded data of the entries before. -/
theorem clientRun_aligned {cursor : Cursor R D} {entries : List Entry}
    {fuel : Nat} {r₀ r : Reader R} {hs : List Header}
    (hwf : WellFormed rt {} entries) (hD : D = encodeAll entries)
    (hsizes : ∀ v ∈ visible rt {} entries,
      isHeaderOnlyType v.1.typeflag = true → v.1.size = 0)
    (hstart : cursor.At r₀.source 0) (hremaining : r₀.remainingSize = 0)
    (hpadding : r₀.paddingSize = 0)
    (hrun : ClientRun rt cursor fuel r₀ hs r) :
    hs <+: (visible rt {} entries).map Prod.fst ∧
      ∃ front rest p, entries = front ++ rest ∧ cursor.At r.source p ∧
        (visible rt {} entries).map Prod.fst =
          hs ++ (visible rt {} rest).map Prod.fst ∧
        p + r.remainingSize + r.paddingSize = (encodeAll front).length := by
  obtain ⟨front, rest, vs, unread, rfl, -, hvisible, rfl, padding,
    ⟨p, hp, hle, hdrop⟩, hrem, hpad⟩ :=
    clientRun_before hwf hD hsizes hstart hremaining hpadding hrun
  have hheaders : (visible rt {} (front ++ rest)).map Prod.fst =
      vs.map Prod.fst ++ (visible rt {} rest).map Prod.fst := by
    rw [hvisible, List.map_append]
  refine ⟨⟨_, hheaders.symm⟩, front, rest, p, rfl, hp, hheaders, ?_⟩
  have htotal : D.length = (encodeAll front).length +
      (encodeAll rest).length := by
    rw [hD, ← List.length_append]
    simp [encodeAll]
  have hlength := congrArg List.length hdrop
  simp only [List.length_drop, List.length_append] at hlength
  omega

/-! ## Examples of both kinds -/

/-- A file of one byte and a directory. -/
def fileAndDir : List Entry :=
  [⟨plainBlock 0x61 (narrow "1" ++ List.replicate 11 0)
      (narrow "702" ++ List.replicate 5 0) typeReg, [0x78],
      List.replicate 511 0⟩,
    ⟨plainBlock 0x62 (List.replicate 12 0)
      (narrow "627" ++ List.replicate 5 0) typeDir, [], []⟩]

/-- Three directories of which the first has a size. -/
def sizedDirs : List Entry :=
  [⟨plainBlock 0x61 (narrow "1000" ++ List.replicate 8 0)
      (narrow "1127" ++ List.replicate 4 0) typeDir, [], []⟩,
    ⟨plainBlock 0x62 (List.replicate 12 0)
      (narrow "627" ++ List.replicate 5 0) typeDir, [], []⟩,
    ⟨plainBlock 0x63 (List.replicate 12 0)
      (narrow "630" ++ List.replicate 5 0) typeDir, [], []⟩]

/-- The file that holds some entries. -/
def streamFile (entries : List Entry)
    (h : (encodeAll entries).length < 2 ^ 63) : SourceFile where
  content := ⟨encodeAll entries, h⟩

theorem length_fileAndDir : (encodeAll fileAndDir).length < 2 ^ 63 := by
  simp only [encodeAll, fileAndDir, Entry.encode, List.map_cons, List.map_nil,
    List.flatten_cons, List.flatten_nil, List.length_append,
    length_plainBlock, List.length_replicate]
  decide

theorem length_sizedDirs : (encodeAll sizedDirs).length < 2 ^ 63 := by
  simp only [encodeAll, sizedDirs, Entry.encode, List.map_cons, List.map_nil,
    List.flatten_cons, List.flatten_nil, List.length_append,
    length_plainBlock, List.length_replicate]
  decide

set_option maxRecDepth 8000 in
/-- A client that reads the file gets both headers. -/
theorem fileAndDir_aligned :
    ∃ h₁ h₂, ∃ r : Reader
        (fileReader (streamFile fileAndDir length_fileAndDir) 0),
      ClientRun plainRuntime (FileReader.cursor
        (streamFile fileAndDir length_fileAndDir) 0).toCursor 2
        ⟨⟨0, 0⟩, 0, 0, 0⟩ [h₁, h₂] r ∧
      [h₁, h₂] <+: (visible plainRuntime {} fileAndDir).map Prod.fst := by
  have hrun : ∃ h₁ h₂, ∃ r : Reader
        (fileReader (streamFile fileAndDir length_fileAndDir) 0),
      ClientRun plainRuntime (FileReader.cursor
        (streamFile fileAndDir length_fileAndDir) 0).toCursor 2
        ⟨⟨0, 0⟩, 0, 0, 0⟩ [h₁, h₂] r :=
    ⟨_, _, _, .next (.read (.next .start (fun _ _ => .inl rfl)
      (rfl : next plainRuntime _ 2 {} _ = some ⟨some _, _, _⟩))
      (by decide : ((1 : Nat) : Int) ≤ 1) rfl) (fun _ _ => .inl rfl)
      (rfl : next plainRuntime _ 2 {} _ = some ⟨some _, _, _⟩)⟩
  obtain ⟨h₁, h₂, r, hrun⟩ := hrun
  refine ⟨h₁, h₂, r, hrun, ?_⟩
  have hwf : WellFormed plainRuntime {} fileAndDir := trivial
  exact (clientRun_aligned hwf rfl (by decide) rfl rfl rfl hrun).1

set_option maxRecDepth 8000 in
/-- Behind a directory with a size the next one is skipped. -/
theorem sizedDirs_misaligned :
    WellFormed plainRuntime {} sizedDirs ∧
      ∃ h₁ h₂ ec₁ ec₂, ∃ r₁ r₂ : Reader
          (fileReader (streamFile sizedDirs length_sizedDirs) 0),
        next plainRuntime (fileReader
            (streamFile sizedDirs length_sizedDirs) 0) 2 {}
            ⟨⟨0, 0⟩, 0, 0, 0⟩ = some ⟨some h₁, ec₁, r₁⟩ ∧
          next plainRuntime (fileReader
            (streamFile sizedDirs length_sizedDirs) 0) 2 {} r₁ =
              some ⟨some h₂, ec₂, r₂⟩ ∧
          ¬[h₁, h₂] <+: (visible plainRuntime {} sizedDirs).map Prod.fst := by
  refine ⟨trivial, _, _, _, _, _, _, rfl, rfl, ?_⟩
  decide

end Baulk.Tar
