import Baulk.Tar.Alignment
import Baulk.Tar.Merging
import Baulk.Tar.Metadata

/-!
# The header of a file behind metadata

Calls of `Next` return the global headers on the way to a file, and then the
header of the file.  Only what stands behind the last global header counts for
the file; what stands before one is merged into it.
-/

namespace Baulk.Tar

open Support (KeysNodup Step loop_spec)

variable {R : ExtractReader} {D : Bytes} {rt : Runtime}

/-! ## One call -/

theorem Block.unique {block rest block' rest' : Bytes} {h h' : Header}
    (hblock : Block (block' ++ rest') block rest h) (hlength : block'.length = blockSize)
    (hparse : parseHeader block' = .ok h') : block = block' ∧ rest = rest' ∧ h = h' := by
  obtain ⟨rfl, rfl⟩ := List.append_inj hblock.split (hlength.trans hblock.length.symm)
  have hsame := hblock.parse.symm.trans hparse
  exact ⟨rfl, rfl, Except.ok.inj hsame⟩

theorem MetaEntry.split {m : MetaEntry} {data tail rest : Bytes}
    (hdata : (data.length : Int) = m.header.size)
    (hsplit : m.entry.data ++ (m.entry.padding ++ rest) = data ++ tail) :
    m.entry.data = data ∧ m.entry.padding ++ rest = tail := by
  have hfits := (Entry.fits_iff.mp m.fits).1
  exact List.append_inj hsplit (by omega)

theorem interpretMetadata_inr {h h' : Header} {data : Bytes} {q : Pending}
    (hinterpret : interpretMetadata rt q h data = some (.inr h')) :
    h.typeflag = typeXGlobalHeader ∧ ∃ records,
      parsePAXData rt data q.paxHdrs = .ok records ∧
      h' = globalHeader (mergePAX rt
        { h with format := h.format &&& formatPAX } records {}).2.1 := by
  unfold interpretMetadata at hinterpret
  by_cases hpax : isPaxType h.typeflag = true
  · rw [if_pos hpax] at hinterpret
    split at hinterpret
    · cases hinterpret
    · next records hparse =>
      split at hinterpret
      · next hglobal =>
        cases hinterpret
        exact ⟨hglobal, records, hparse, rfl⟩
      · cases hinterpret
  · rw [if_neg hpax] at hinterpret
    split at hinterpret <;> cases hinterpret

/-- A successful call in front of local metadata: it remembers all of them, and
returns in the round for what stands behind them. -/
theorem next_remembers {cursor : Cursor R D} {fuel : Nat} {ec : ErrorCode}
    {r : Reader R} {result : NextResult R} {ms : List MetaEntry} {padding ahead : Bytes}
    (hlocal : ∀ m ∈ ms, ¬ m.IsGlobal)
    (hahead : ∀ block rest h, Block ahead block rest h →
      isMetadataType h.typeflag = true → h.typeflag = typeXGlobalHeader)
    (hstands : Stands cursor r.source
      (padding ++ (encodeAll (ms.map MetaEntry.entry) ++ ahead)))
    (hremaining : r.remainingSize = 0) (hpadding : r.paddingSize = padding.length)
    (h : next rt R fuel ec r = some result) (hsome : result.header ≠ none) :
    ∃ l : NextLoop R, Remembers rt ms l.pending ∧ l.reader.remainingSize = 0 ∧
      Round rt cursor l ahead (.done result) := by
  refine loop_spec
    (I := fun l => ∃ (done left : List MetaEntry) (padding : Bytes), ms = done ++ left ∧
      Remembers rt done l.pending ∧
      Stands cursor l.reader.source
        (padding ++ (encodeAll (left.map MetaEntry.entry) ++ ahead)) ∧
      l.reader.remainingSize = 0 ∧ l.reader.paddingSize = (padding.length : Int))
    (Q := fun result => result.header ≠ none →
      ∃ l : NextLoop R, Remembers rt ms l.pending ∧ l.reader.remainingSize = 0 ∧
        Round rt cursor l ahead (.done result)) ?_
    ⟨[], ms, padding, rfl, .start, hstands, hremaining, hpadding⟩ h hsome
  rintro l step ⟨done, left, padding, rfl, hremembers, hstands, hremaining, hpadding⟩ hstep
  have hunread : l.reader.remainingSize = (([] : Bytes).length : Int) := hremaining
  have hbefore : Stands cursor l.reader.source
      ([] ++ (padding ++ (encodeAll (left.map MetaEntry.entry) ++ ahead))) := hstands
  have hround := nextBody_round hbefore hunread hpadding hstep
  cases left with
  | nil =>
      rw [List.map_nil, encodeAll_nil, List.nil_append] at hround
      rw [List.append_nil]
      cases step with
      | done result => exact fun _ => ⟨l, hremembers, hremaining, hround⟩
      | next l' =>
          cases hround with
          | remember hblock hmeta _ hinterpret _ _ =>
              have hglobal := hahead _ _ _ hblock hmeta
              obtain ⟨hflag, -⟩ | ⟨hflag, -⟩ | ⟨hflag, -⟩ :=
                interpretMetadata_inl hmeta hinterpret <;>
                rw [hflag] at hglobal <;> exact absurd hglobal (by decide)
  | cons m left =>
      have hm := hlocal m (List.mem_append_right _ List.mem_cons_self)
      have hfront : encodeAll ((m :: left).map MetaEntry.entry) ++ ahead =
          m.entry.block ++ (m.entry.data ++ (m.entry.padding ++
            (encodeAll (left.map MetaEntry.entry) ++ ahead))) := by
        rw [List.map_cons, encodeAll_cons, Entry.encode]
        simp only [List.append_assoc]
      rw [hfront] at hround
      cases hround with
      | fail hnone => exact fun hsome => absurd hnone hsome
      | @remember _ data tail _ l' s hblock _ hlength hinterpret htail hreader =>
          obtain ⟨-, hrest, rfl⟩ := hblock.unique m.length m.parse
          obtain ⟨rfl, rfl⟩ := MetaEntry.split hlength hrest.symm
          have hfits := (Entry.fits_iff.mp m.fits).2
          refine ⟨done ++ [m], left, m.entry.padding, ?_, .add hremembers hinterpret, ?_, ?_,
            ?_⟩
          · rw [List.append_assoc, List.singleton_append]
          · rw [hreader]
            exact htail
          · rw [hreader]
            exact hremaining
          · rw [hreader]
            exact hfits.symm
      | global hblock _ _ hinterpret _ =>
          obtain ⟨-, -, rfl⟩ := hblock.unique m.length m.parse
          exact absurd (interpretMetadata_inr hinterpret).1 hm
      | entry hblock hnot _ _ _ =>
          obtain ⟨-, -, rfl⟩ := hblock.unique m.length m.parse
          have hmeta := m.metadata
          rw [hnot] at hmeta
          cases hmeta

/-! ## Calls up to a file -/

/-- Calls of `Next` until the header of a file is returned, with the global headers on
the way. -/
inductive FileRun (rt : Runtime) (R : ExtractReader) (fuel : Nat) :
    Reader R → List Header → Header → Reader R → Prop
  | file {r r' : Reader R} {ec ec' : ErrorCode} {h : Header} :
      next rt R fuel ec r = some ⟨some h, ec', r'⟩ →
      isMetadataType h.typeflag = false → FileRun rt R fuel r [] h r'
  | global {r r₁ r' : Reader R} {ec ec' : ErrorCode} {g h : Header} {gs : List Header} :
      next rt R fuel ec r = some ⟨some g, ec', r₁⟩ →
      isMetadataType g.typeflag = true → FileRun rt R fuel r₁ gs h r' →
      FileRun rt R fuel r (g :: gs) h r'

/-- Metadata in front of an entry, cut behind every global header. -/
structure Preamble where
  segments : List (List MetaEntry × MetaEntry)
  tail : List MetaEntry
  segments_valid : ∀ s ∈ segments, (∀ m ∈ s.1, ¬ m.IsGlobal) ∧ s.2.IsGlobal
  tail_valid : ∀ m ∈ tail, ¬ m.IsGlobal

/-- The bytes of metadata in front of `ahead`. -/
def preambleBytes (segments : List (List MetaEntry × MetaEntry)) (tail : List MetaEntry)
    (ahead : Bytes) : Bytes :=
  match segments with
  | [] => encodeAll (tail.map MetaEntry.entry) ++ ahead
  | s :: segments =>
      encodeAll (s.1.map MetaEntry.entry) ++
        (s.2.entry.block ++ (s.2.entry.data ++ (s.2.entry.padding ++
          preambleBytes segments tail ahead)))

namespace Preamble

def bytes (p : Preamble) (ahead : Bytes) : Bytes :=
  preambleBytes p.segments p.tail ahead

/-- The headers that say something about the entry, in order. -/
def locals (p : Preamble) : List MetaEntry :=
  p.segments.flatMap Prod.fst ++ p.tail

end Preamble

theorem fileRun_spec {cursor : Cursor R D} {fuel : Nat} {r r' : Reader R}
    {segments : List (List MetaEntry × MetaEntry)} {tail : List MetaEntry}
    {padding block rest : Bytes} {h₀ h : Header} {gs : List Header}
    (hsegments : ∀ s ∈ segments, (∀ m ∈ s.1, ¬ m.IsGlobal) ∧ s.2.IsGlobal)
    (htail : ∀ m ∈ tail, ¬ m.IsGlobal)
    (hlength : block.length = blockSize) (hparse : parseHeader block = .ok h₀)
    (hordinary : isMetadataType h₀.typeflag = false)
    (hstands : Stands cursor r.source
      (padding ++ preambleBytes segments tail (block ++ rest)))
    (hremaining : r.remainingSize = 0) (hpadding : r.paddingSize = padding.length)
    (hrun : FileRun rt R fuel r gs h r') :
    List.Forall₂ (fun s g => ∃ q, Remembers rt s.1 q ∧
        interpretMetadata rt q s.2.header s.2.entry.data = some (.inr g)) segments gs ∧
      ∃ q, Remembers rt tail q ∧ interpretOrdinary rt q h₀ = some h := by
  induction segments generalizing r gs padding with
  | nil =>
      have hahead : ∀ block' rest' h', Block (block ++ rest) block' rest' h' → h' = h₀ :=
        fun _ _ _ hblock => (hblock.unique hlength hparse).2.2
      have hround : ∀ {ec ec' : ErrorCode} {g : Header} {r₁ : Reader R},
          next rt R fuel ec r = some ⟨some g, ec', r₁⟩ →
          ∃ q, Remembers rt tail q ∧ interpretOrdinary rt q h₀ = some g := by
        intro ec ec' g r₁ hnext
        obtain ⟨l, hremembers, -, hround⟩ := next_remembers htail
          (fun _ _ _ hblock hmeta => by
            rw [hahead _ _ _ hblock, hordinary] at hmeta
            cases hmeta) hstands hremaining hpadding hnext (Option.some_ne_none g)
        cases hround with
        | fail hnone => cases hnone
        | global hblock hmeta _ _ _ =>
            rw [hahead _ _ _ hblock, hordinary] at hmeta
            cases hmeta
        | entry hblock _ hinterpret _ _ =>
            rw [hahead _ _ _ hblock] at hinterpret
            exact ⟨l.pending, hremembers, hinterpret⟩
      cases hrun with
      | file hnext _ => exact ⟨.nil, hround hnext⟩
      | global hnext hmeta _ =>
          obtain ⟨q, -, hinterpret⟩ := hround hnext
          rw [interpretOrdinary_typeflag hinterpret hordinary] at hmeta
          cases hmeta
  | cons s segments ih =>
      obtain ⟨hlocal, hglobal⟩ := hsegments s List.mem_cons_self
      have hahead : ∀ block' rest' h', Block (s.2.entry.block ++ (s.2.entry.data ++
          (s.2.entry.padding ++ preambleBytes segments tail (block ++ rest))))
          block' rest' h' → h' = s.2.header :=
        fun _ _ _ hblock => (hblock.unique s.2.length s.2.parse).2.2
      have hround : ∀ {ec ec' : ErrorCode} {g : Header} {r₁ : Reader R},
          next rt R fuel ec r = some ⟨some g, ec', r₁⟩ →
          ∃ q, Remembers rt s.1 q ∧
            interpretMetadata rt q s.2.header s.2.entry.data = some (.inr g) ∧
            Stands cursor r₁.source (s.2.entry.padding ++
              preambleBytes segments tail (block ++ rest)) ∧
            r₁.remainingSize = 0 ∧ r₁.paddingSize = s.2.entry.padding.length := by
        intro ec ec' g r₁ hnext
        obtain ⟨l, hremembers, hzero, hround⟩ := next_remembers hlocal
          (fun _ _ _ hblock _ => by rw [hahead _ _ _ hblock]; exact hglobal)
          hstands hremaining hpadding hnext (Option.some_ne_none g)
        cases hround with
        | fail hnone => cases hnone
        | global hblock _ hdata hinterpret htail =>
            obtain ⟨-, hrest, rfl⟩ := hblock.unique s.2.length s.2.parse
            obtain ⟨rfl, rfl⟩ := MetaEntry.split hdata hrest.symm
            exact ⟨l.pending, hremembers, hinterpret, htail, hzero,
              (Entry.fits_iff.mp s.2.fits).2.symm⟩
        | entry hblock hnot _ _ _ =>
            rw [hahead _ _ _ hblock, s.2.metadata] at hnot
            cases hnot
      cases hrun with
      | file hnext hnot =>
          obtain ⟨q, -, hinterpret, -⟩ := hround hnext
          rw [interpretMetadata_typeflag hinterpret, s.2.metadata] at hnot
          cases hnot
      | global hnext _ hrest =>
          obtain ⟨q, hremembers, hinterpret, hstands', hzero, hpad⟩ := hround hnext
          obtain ⟨hglobals, hfile⟩ := ih (fun s' hs' =>
            hsegments s' (List.mem_cons_of_mem _ hs')) hstands' hzero hpad hrest
          exact ⟨.cons ⟨q, hremembers, hinterpret⟩ hglobals, hfile⟩

/-! ## What the headers carry -/

theorem allReadable_iff {records : PaxRecords} (hkeys : KeysNodup records) :
    AllReadable records ↔
      ∀ k v, records.lookup k = some v → v ≠ [] → Readable k v := by
  constructor
  · intro hall k v hv
    exact hall (k, v) (hkeys.lookup_eq_some_iff.mp hv)
  · rintro hall ⟨k, v⟩ hmem
    exact hall k v (hkeys.lookup_eq_some_iff.mpr hmem)

theorem mergeRecords_paxRecords (rt : Runtime) (records : PaxRecords) (h : Header)
    (ec : ErrorCode) : (mergeRecords rt records h ec).2.1.paxRecords = h.paxRecords := by
  induction records generalizing h ec with
  | nil => rfl
  | cons p records ih =>
      obtain ⟨k, v⟩ := p
      rw [mergeRecords]
      cases hstep : mergeRecord rt h k v with
      | error ec' => rfl
      | ok next =>
          have hkeep : next.1.paxRecords = h.paxRecords := by
            cases v with
            | nil =>
                cases hstep
                rfl
            | cons b v =>
                by_cases hread : Readable k (b :: v)
                · obtain ⟨assigned, hok⟩ := (merges_cons rt h k b v).1 hread
                  rw [hok] at hstep
                  cases hstep
                  rfl
                · obtain ⟨ec', herror, -⟩ := (merges_cons rt h k b v).2 hread
                  rw [herror] at hstep
                  cases hstep
          exact (ih next.1 _).trans hkeep

theorem mergePAX_paxRecords (rt : Runtime) (h : Header) (records : PaxRecords)
    (ec : ErrorCode) (hfail : (mergePAX rt h records ec).1 = false) :
    (mergePAX rt h records ec).2.1.paxRecords = h.paxRecords := by
  have hkeep := mergeRecords_paxRecords rt (rt.iterate records) h ec
  unfold mergePAX at hfail ⊢
  rcases hmerge : mergeRecords rt (rt.iterate records) h ec with ⟨_ | _, h', ec'⟩
  · rw [hmerge] at hkeep
    exact hkeep
  · rw [hmerge] at hfail
    cases hfail

theorem parseHeader_paxRecords {block : Bytes} {h : Header}
    (hparse : parseHeader block = .ok h) : h.paxRecords = [] := by
  unfold parseHeader at hparse
  dsimp only at hparse
  split at hparse
  · contradiction
  split at hparse
  · cases hparse
    rfl
  · cases hparse
    repeat' split
    all_goals rfl

theorem interpretOrdinary_spec {q : Pending} {h₀ h : Header} (hkeys : KeysNodup q.paxHdrs)
    (hinterpret : interpretOrdinary rt q h₀ = some h) :
    h.paxRecords = q.paxHdrs ∧
      h.name = (if q.gnuLongName.isEmpty then
        (given q.paxHdrs paxPath).elim h₀.name id else q.gnuLongName) ∧
      h.linkName = (if q.gnuLongLink.isEmpty then
        (given q.paxHdrs paxLinkpath).elim h₀.linkName id else q.gnuLongLink) := by
  unfold interpretOrdinary completeHeader at hinterpret
  by_cases hread : AllReadable q.paxHdrs
  · obtain ⟨ec', hmerge⟩ := (mergePAX_eq rt h₀ q.paxHdrs {}).1 hread
    rw [hmerge] at hinterpret
    dsimp only at hinterpret
    split at hinterpret
    · cases hinterpret
    · cases hinterpret
      have hperm := rt.iterate_perm q.paxHdrs
      have hnodup : KeysNodup (rt.iterate q.paxHdrs) := (hperm.map Prod.fst).nodup_iff.mpr hkeys
      have hname := applyRecords_field (f := Header.name) (g := fun _ v => v)
        (fun _ _ _ => rfl) hnodup h₀
      have hlink := applyRecords_field (f := Header.linkName) (g := fun _ v => v)
        (fun _ _ _ => rfl) hnodup h₀
      rw [given_perm hkeys hperm] at hname hlink
      have hunify : ∀ h : Header, (unifyFormat h).paxRecords = h.paxRecords ∧
          (unifyFormat h).name = h.name ∧ (unifyFormat h).linkName = h.linkName := by
        intro h
        unfold unifyFormat
        split <;> exact ⟨rfl, rfl, rfl⟩
      obtain ⟨hrecords, hn, hl⟩ := hunify (resolveRegA (useLongNames q.gnuLongName
        q.gnuLongLink { applyRecords h₀ (rt.iterate q.paxHdrs) with paxRecords := q.paxHdrs }))
      rw [hrecords, hn, hl]
      unfold resolveRegA useLongNames
      dsimp only
      rw [hname, hlink]
      exact ⟨rfl, rfl, rfl⟩
  · obtain ⟨h', ec', hmerge, -⟩ := (mergePAX_eq rt h₀ q.paxHdrs {}).2 hread
    rw [hmerge] at hinterpret
    cases hinterpret

def lastValue (records : PaxRecords) (k : Bytes) : Option Bytes :=
  records.reverse.lookup k

theorem lastValue_isSome {records : PaxRecords} {r : Bytes × Bytes} (h : r ∈ records) :
    (lastValue records r.1).isSome = true :=
  List.lookup_isSome_iff.mpr ⟨r, List.mem_reverse.mpr h, beq_self_eq_true _⟩

/-- The header of a file has the last value of every key, the long name and the long
link, and a global header has no record that is not its own. -/
structure Carried (rt : Runtime) (p : Preamble) (gs : List Header) (h : Header) : Prop where
  records : ∀ k, h.paxRecords.lookup k = lastValue (xRecords rt p.locals) k
  longName : lastText typeGNULongName p.locals ≠ [] →
    h.name = lastText typeGNULongName p.locals
  longLink : lastText typeGNULongLink p.locals ≠ [] →
    h.linkName = lastText typeGNULongLink p.locals
  globals : List.Forall₂ (fun s g => ∀ k v, g.paxRecords.lookup k = some v →
    (s.2.ownRecords rt).lookup k = some v) p.segments gs

/-- Nothing that is pending at a global header, or that it says, stops the merge. -/
def MergeGoesOn (rt : Runtime) (s : List MetaEntry × MetaEntry) : Prop :=
  ∀ k v, ((xRecords rt s.1).lookup k).or ((s.2.ownRecords rt).lookup k) = some v →
    v ≠ [] → Readable k v

/-- The long text is not given, or given behind the last global header, or the entry has
it anyway. -/
def TextKept (rt : Runtime) (p : Preamble) (flag : UInt8) (key own : Bytes) : Prop :=
  lastText flag p.locals = [] ∨ lastText flag p.tail = lastText flag p.locals ∨
    (lastText flag p.tail = [] ∧
      (given (xRecords rt p.tail) key).elim own id = lastText flag p.locals)

/-- When the headers carry what they should. -/
structure Kept (rt : Runtime) (p : Preamble) (h₀ : Header) : Prop where
  plain : ∀ r ∈ xRecords rt p.locals, ¬ IsSparseKey r.1
  records : ∀ k, (xRecords rt p.tail).lookup k = lastValue (xRecords rt p.locals) k
  longName : TextKept rt p typeGNULongName paxPath h₀.name
  longLink : TextKept rt p typeGNULongLink paxLinkpath h₀.linkName
  globals : ∀ s ∈ p.segments, MergeGoesOn rt s →
    ∀ k v, (xRecords rt s.1).lookup k = some v → (s.2.ownRecords rt).lookup k = some v

theorem xRecords_append (ms ms' : List MetaEntry) :
    xRecords rt (ms ++ ms') = xRecords rt ms ++ xRecords rt ms' :=
  List.flatMap_append

theorem mem_locals_of_segment {p : Preamble} {s : List MetaEntry × MetaEntry}
    (hs : s ∈ p.segments) {r : Bytes × Bytes} (hr : r ∈ xRecords rt s.1) :
    r ∈ xRecords rt p.locals := by
  obtain ⟨m, hm, hr⟩ := List.mem_flatMap.mp hr
  exact List.mem_flatMap.mpr ⟨m, List.mem_append_left _ (List.mem_flatMap.mpr ⟨s, hs, hm⟩), hr⟩

theorem textKept_iff {p : Preamble} {flag : UInt8} {key own text : Bytes}
    (htext : text = if (lastText flag p.tail).isEmpty then
      (given (xRecords rt p.tail) key).elim own id else lastText flag p.tail) :
    (lastText flag p.locals ≠ [] → text = lastText flag p.locals) ↔
      TextKept rt p flag key own := by
  unfold TextKept
  by_cases hnone : lastText flag p.locals = []
  · exact iff_of_true (fun hne => absurd hnone hne) (.inl hnone)
  · rw [or_iff_right hnone, htext]
    by_cases htail : lastText flag p.tail = []
    · rw [htail, List.isEmpty_nil, if_pos rfl]
      constructor
      · exact fun h => .inr ⟨rfl, h hnone⟩
      · rintro (h | ⟨-, h⟩) _
        · exact absurd h.symm hnone
        · exact h
    · rw [List.isEmpty_eq_false_iff.mpr htail, if_neg Bool.false_ne_true]
      constructor
      · exact fun h => .inl (h hnone)
      · rintro (h | ⟨h, -⟩) _
        · exact h
        · exact absurd h htail

/-- A global header has only its own records exactly if what is pending is among them,
unless the merge stops. -/
theorem global_own_iff {s : List MetaEntry × MetaEntry} {q : Pending} {g : Header}
    (hknows : Knows rt s.1 q) (hplain : ∀ r ∈ xRecords rt s.1, ¬ IsSparseKey r.1)
    (hinterpret : interpretMetadata rt q s.2.header s.2.entry.data = some (.inr g)) :
    (∀ k v, g.paxRecords.lookup k = some v → (s.2.ownRecords rt).lookup k = some v) ↔
      (MergeGoesOn rt s → ∀ k v, (xRecords rt s.1).lookup k = some v →
        (s.2.ownRecords rt).lookup k = some v) := by
  obtain ⟨-, records, hparse, rfl⟩ := interpretMetadata_inr hinterpret
  have hstart : ∀ k, q.paxHdrs.lookup k =
      (q.paxHdrs.lookup k).or (([] : PaxRecords).lookup k) := fun k => by
    rw [List.lookup_nil, Option.or_none]
  obtain ⟨own, hown, hlookup⟩ := parseRecords_pending le_rfl hstart hparse
  have hownRecords : s.2.ownRecords rt = own := by
    have hsame : parsePAXData rt s.2.entry.data [] = .ok own := hown
    rw [MetaEntry.ownRecords, hsame]
  have hkeys : KeysNodup records := by
    obtain ⟨-, -, -, -, hkeys⟩ := parseRecords_ok le_rfl hparse
    exact hkeys hknows.keys
  have hall : ∀ k, records.lookup k =
      ((xRecords rt s.1).lookup k).or ((s.2.ownRecords rt).lookup k) := by
    intro k
    rw [hlookup, hknows.records hplain, hownRecords]
  have hgoes : AllReadable records ↔ MergeGoesOn rt s := by
    rw [allReadable_iff hkeys]
    simp only [hall]
    rfl
  change (∀ k v, (mergePAX rt { s.2.header with
    format := s.2.header.format &&& formatPAX } records {}).2.1.paxRecords.lookup k =
      some v → _) ↔ _
  by_cases hread : AllReadable records
  · obtain ⟨ec', hmerge⟩ := (mergePAX_eq rt { s.2.header with
      format := s.2.header.format &&& formatPAX } records {}).1 hread
    rw [hmerge, forall_prop_of_true (hgoes.mp hread)]
    simp only [hall]
    constructor
    · intro h k v hv
      exact h k v (by rw [hv]; rfl)
    · intro h k v hv
      cases hx : (xRecords rt s.1).lookup k with
      | none =>
          rw [hx] at hv
          exact hv
      | some w =>
          rw [hx] at hv
          cases hv
          exact h k v hx
  · refine iff_of_true ?_ fun hgo => absurd (hgoes.mpr hgo) hread
    have hempty : (mergePAX rt { s.2.header with
        format := s.2.header.format &&& formatPAX } records {}).2.1.paxRecords = [] := by
      obtain ⟨h', ec', hmerge, -⟩ := (mergePAX_eq rt { s.2.header with
        format := s.2.header.format &&& formatPAX } records {}).2 hread
      have hkeep := mergePAX_paxRecords rt { s.2.header with
        format := s.2.header.format &&& formatPAX } records {} (by rw [hmerge])
      have hnone : s.2.header.paxRecords = [] := parseHeader_paxRecords s.2.parse
      exact hkeep.trans hnone
    intro k v hv
    rw [hempty] at hv
    cases hv

theorem forall₂_iff_of_forall₂ {α β : Type} {P Q : α → β → Prop} {C : α → Prop}
    {l : List α} {l' : List β} (hP : List.Forall₂ P l l')
    (h : ∀ a ∈ l, ∀ b, P a b → (Q a b ↔ C a)) :
    List.Forall₂ Q l l' ↔ ∀ a ∈ l, C a := by
  induction hP with
  | nil => exact iff_of_true .nil fun a ha => absurd ha List.not_mem_nil
  | @cons a b l l' hab _ ih =>
      rw [List.forall₂_cons, List.forall_mem_cons, h a List.mem_cons_self b hab,
        ih fun a' ha' => h a' (List.mem_cons_of_mem _ ha')]

/-- The headers that calls of `Next` return for metadata and the file behind it carry
what they should exactly if nothing sparse is among the records, the first record for a
key behind the last global header has the value of the last one of all, long texts are
not lost, and global headers repeat what is pending. -/
theorem fileRun_carried_iff {cursor : Cursor R D} {fuel : Nat} {r r' : Reader R}
    (p : Preamble) {padding block rest : Bytes} {h₀ h : Header} {gs : List Header}
    (hlength : block.length = blockSize) (hparse : parseHeader block = .ok h₀)
    (hordinary : isMetadataType h₀.typeflag = false)
    (hstands : Stands cursor r.source (padding ++ p.bytes (block ++ rest)))
    (hremaining : r.remainingSize = 0) (hpadding : r.paddingSize = padding.length)
    (hrun : FileRun rt R fuel r gs h r') :
    Carried rt p gs h ↔ Kept rt p h₀ := by
  obtain ⟨hglobals, q, hremembers, hfile⟩ := fileRun_spec p.segments_valid p.tail_valid
    hlength hparse hordinary hstands hremaining hpadding hrun
  have hknows := hremembers.knows
  obtain ⟨hrecords, hname, hlink⟩ := interpretOrdinary_spec hknows.keys hfile
  have hplainTail : (∀ r ∈ xRecords rt p.locals, ¬ IsSparseKey r.1) →
      ∀ k, q.paxHdrs.lookup k = (xRecords rt p.tail).lookup k := by
    intro hplain
    refine hknows.records fun r hr => hplain r ?_
    rw [Preamble.locals, xRecords_append]
    exact List.mem_append_right _ hr
  have htexts : (∀ r ∈ xRecords rt p.locals, ¬ IsSparseKey r.1) →
      ((lastText typeGNULongName p.locals ≠ [] →
          h.name = lastText typeGNULongName p.locals) ↔
        TextKept rt p typeGNULongName paxPath h₀.name) ∧
      ((lastText typeGNULongLink p.locals ≠ [] →
          h.linkName = lastText typeGNULongLink p.locals) ↔
        TextKept rt p typeGNULongLink paxLinkpath h₀.linkName) := by
    intro hplain
    have hgiven : ∀ k, given q.paxHdrs k = given (xRecords rt p.tail) k := fun k => by
      rw [given, given, hplainTail hplain]
    rw [hknows.longName, hgiven] at hname
    rw [hknows.longLink, hgiven] at hlink
    exact ⟨textKept_iff hname, textKept_iff hlink⟩
  have hsegments : (∀ r ∈ xRecords rt p.locals, ¬ IsSparseKey r.1) →
      (List.Forall₂ (fun s g => ∀ k v, g.paxRecords.lookup k = some v →
          (s.2.ownRecords rt).lookup k = some v) p.segments gs ↔
        ∀ s ∈ p.segments, MergeGoesOn rt s → ∀ k v, (xRecords rt s.1).lookup k = some v →
          (s.2.ownRecords rt).lookup k = some v) := by
    intro hplain
    refine forall₂_iff_of_forall₂ hglobals ?_
    rintro s hs g ⟨q', hremembers', hinterpret⟩
    exact global_own_iff hremembers'.knows
      (fun r hr => hplain r (mem_locals_of_segment hs hr)) hinterpret
  constructor
  · intro hcarried
    have hplain : ∀ r ∈ xRecords rt p.locals, ¬ IsSparseKey r.1 := by
      intro r hr hsparse
      have hsome := lastValue_isSome hr
      rw [← hcarried.records, hrecords, hknows.sparse _ hsparse] at hsome
      cases hsome
    exact ⟨hplain, fun k => by rw [← hplainTail hplain, ← hrecords, hcarried.records],
      (htexts hplain).1.mp hcarried.longName, (htexts hplain).2.mp hcarried.longLink,
      (hsegments hplain).mp hcarried.globals⟩
  · intro hkept
    have hplain := hkept.plain
    exact ⟨fun k => by rw [hrecords, hplainTail hplain, hkept.records],
      (htexts hplain).1.mpr hkept.longName, (htexts hplain).2.mpr hkept.longLink,
      (hsegments hplain).mpr hkept.globals⟩

/-! ## Small examples -/

/-- An extended header with some data. -/
def extendedEntry (size chksum data : Bytes) : Entry where
  block := plainBlock 0x61 (size ++ List.replicate 10 0) (chksum ++ List.replicate 4 0)
    typeXHeader
  data := data
  padding := List.replicate (512 - data.length) 0

def plainFile : Entry where
  block := plainBlock 0x62 (List.replicate 12 0) (narrow "622" ++ List.replicate 5 0) typeReg
  data := []
  padding := []

/-- The header that stands in a block. -/
def headerOf (e : Entry) : Header :=
  match parseHeader e.block with
  | .ok h => h
  | .error _ => {}

def onePath : Entry :=
  extendedEntry (narrow "12") (narrow "1074") (narrow "10 path=b\n")

def twoPaths : Entry :=
  extendedEntry (narrow "24") (narrow "1077") (narrow "10 path=b\n10 path=c\n")

set_option maxRecDepth 8000 in
def onePathEntry : MetaEntry where
  entry := onePath
  header := headerOf onePath
  length := by decide
  nonzero := by decide
  parse := rfl
  metadata := by decide
  fits := by decide

set_option maxRecDepth 8000 in
def twoPathsEntry : MetaEntry where
  entry := twoPaths
  header := headerOf twoPaths
  length := by decide
  nonzero := by decide
  parse := rfl
  metadata := by decide
  fits := by decide

/-- A metadata entry in front of the file. -/
def behind (m : MetaEntry) (h : ¬ m.IsGlobal) : Preamble where
  segments := []
  tail := [m]
  segments_valid := fun _ hs => absurd hs List.not_mem_nil
  tail_valid := fun m' hm' => by rwa [List.mem_singleton.mp hm']

theorem onePath_not_global : ¬ onePathEntry.IsGlobal := by
  unfold MetaEntry.IsGlobal
  rw [show onePathEntry.header.typeflag = typeXHeader from parseHeader_typeflag onePathEntry.parse]
  decide

theorem twoPaths_not_global : ¬ twoPathsEntry.IsGlobal := by
  unfold MetaEntry.IsGlobal
  rw [show twoPathsEntry.header.typeflag = typeXHeader from
    parseHeader_typeflag twoPathsEntry.parse]
  decide

theorem length_behind (size chksum data : Bytes) (hsize : size.length = 2)
    (hchksum : chksum.length = 4) (hdata : data.length ≤ 512) :
    (encodeAll [extendedEntry size chksum data, plainFile]).length < 2 ^ 63 := by
  simp only [encodeAll, extendedEntry, plainFile, Entry.encode, List.map_cons, List.map_nil,
    List.flatten_cons, List.flatten_nil, List.length_append, length_plainBlock,
    List.length_replicate, List.length_nil, hsize, hchksum]
  have hname : (narrow "622").length = 3 := rfl
  omega

def onePathFile : SourceFile :=
  streamFile [onePath, plainFile] (length_behind _ _ _ rfl rfl (by decide))

def twoPathsFile : SourceFile :=
  streamFile [twoPaths, plainFile] (length_behind _ _ _ rfl rfl (by decide))

theorem onePath_typeflag : onePathEntry.header.typeflag = typeXHeader :=
  parseHeader_typeflag onePathEntry.parse

theorem xRecords_singleton {m : MetaEntry} (h : m.header.typeflag = typeXHeader) :
    xRecords rt [m] = pairsOf ((paxRecords rt m.entry.data).getD []) := by
  rw [xRecords, List.flatMap_singleton, MetaEntry.records, if_pos h]

theorem lastText_singleton {m : MetaEntry} {flag : UInt8} (h : m.header.typeflag ≠ flag) :
    lastText flag [m] = [] := by
  have hnil := lastText_concat flag [] m
  rw [if_neg h] at hnil
  exact hnil

theorem stands_behind (e : Entry) (h : (encodeAll [e, plainFile]).length < 2 ^ 63) :
    Stands (FileReader.cursor (streamFile [e, plainFile] h) 0).toCursor ⟨0, 0⟩
      ([] ++ (encodeAll [e] ++ (plainFile.block ++ []))) := by
  refine ⟨0, rfl, Nat.zero_le _, ?_⟩
  rw [List.drop_zero, List.nil_append]
  change encodeAll [e, plainFile] = _
  simp [Entry.encode, plainFile]

set_option maxRecDepth 8000 in
/-- A single path is carried. -/
theorem onePath_carried :
    ∃ h, ∃ r : Reader (fileReader onePathFile 0),
      FileRun plainRuntime (fileReader onePathFile 0) 2 ⟨⟨0, 0⟩, 0, 0, 0⟩ [] h r ∧
        Carried plainRuntime (behind onePathEntry onePath_not_global) [] h := by
  have hrun : ∃ h, ∃ r : Reader (fileReader onePathFile 0),
      FileRun plainRuntime (fileReader onePathFile 0) 2 ⟨⟨0, 0⟩, 0, 0, 0⟩ [] h r :=
    ⟨_, _, .file (rfl : next plainRuntime _ 2 {} _ = some ⟨some _, _, _⟩) rfl⟩
  obtain ⟨h, r, hrun⟩ := hrun
  refine ⟨h, r, hrun, ?_⟩
  have hrecords : xRecords plainRuntime [onePathEntry] = [(paxPath, narrow "b")] :=
    (xRecords_singleton onePath_typeflag).trans rfl
  have hkept : Kept plainRuntime (behind onePathEntry onePath_not_global)
      (headerOf plainFile) := by
    refine ⟨?_, ?_, .inl (lastText_singleton ?_), .inl (lastText_singleton ?_),
      fun s hs => absurd hs List.not_mem_nil⟩
    · change ∀ r ∈ xRecords plainRuntime [onePathEntry], _
      rw [hrecords]
      intro r hr
      rw [List.mem_singleton.mp hr]
      unfold IsSparseKey
      decide
    · change ∀ k, (xRecords plainRuntime [onePathEntry]).lookup k =
        lastValue (xRecords plainRuntime [onePathEntry]) k
      rw [hrecords]
      exact fun _ => rfl
    · rw [onePath_typeflag]
      decide
    · rw [onePath_typeflag]
      decide
  have hstands := stands_behind onePath (length_behind _ _ _ rfl rfl (by decide))
  exact (fileRun_carried_iff (behind onePathEntry onePath_not_global) (by decide) rfl rfl
    hstands rfl rfl hrun).mpr hkept

set_option maxRecDepth 8000 in
/-- Of two paths the first one is carried. -/
theorem twoPaths_not_carried :
    ∃ h, ∃ r : Reader (fileReader twoPathsFile 0),
      FileRun plainRuntime (fileReader twoPathsFile 0) 2 ⟨⟨0, 0⟩, 0, 0, 0⟩ [] h r ∧
        h.paxRecords.lookup paxPath = some (narrow "b") ∧
        ¬ Carried plainRuntime (behind twoPathsEntry twoPaths_not_global) [] h := by
  have hrun : ∃ h, ∃ r : Reader (fileReader twoPathsFile 0),
      FileRun plainRuntime (fileReader twoPathsFile 0) 2 ⟨⟨0, 0⟩, 0, 0, 0⟩ [] h r ∧
        h.paxRecords.lookup paxPath = some (narrow "b") :=
    ⟨_, _, .file (rfl : next plainRuntime _ 2 {} _ = some ⟨some _, _, _⟩) rfl, rfl⟩
  obtain ⟨h, r, hrun, hfirst⟩ := hrun
  refine ⟨h, r, hrun, hfirst, fun hcarried => ?_⟩
  have hflag : twoPathsEntry.header.typeflag = typeXHeader :=
    parseHeader_typeflag twoPathsEntry.parse
  have hrecords : xRecords plainRuntime [twoPathsEntry] =
      [(paxPath, narrow "b"), (paxPath, narrow "c")] :=
    (xRecords_singleton hflag).trans rfl
  have hlast : h.paxRecords.lookup paxPath =
      lastValue (xRecords plainRuntime [twoPathsEntry]) paxPath := hcarried.records paxPath
  rw [hrecords, hfirst] at hlast
  exact absurd hlast (by decide)

end Baulk.Tar
