import Baulk.Support.Lookup
import Baulk.Tar.PaxRecords
import Baulk.Tar.Round

/-!
# Metadata in front of an entry

Headers of metadata say something about the next entry.  They are kept in local
variables of `Next`: a map that keeps the first record for each key, and the last
long name and long link.  Since a global header is returned, the variables are
lost with it, after the records have been merged into it.
-/

namespace Baulk.Tar

open Support (KeysNodup Step insertAll insertNew loop_spec lookup_insertAll lookup_insertNew)

variable {rt : Runtime}

/-! ## Records that are stored -/

/-- The keys that are collected in a map of sparse regions. -/
def IsSparseKey (k : Bytes) : Prop :=
  k = paxGNUSparseOffset ∨ k = paxGNUSparseNumBytes

/-- The keys and values that calls of `parsePAXRecord` yield. -/
def pairsOf (calls : List (Bytes × Bytes × Nat)) : PaxRecords :=
  calls.map fun c => (c.1, c.2.1)

theorem lookup_emplace (records : PaxRecords) (k k' v : Bytes) :
    (emplace records k v).lookup k' =
      (records.lookup k').or (if k' == k then some v else none) :=
  lookup_insertNew records k k' v

theorem lookup_emplace_of_ne {records : PaxRecords} {k k' v : Bytes} (h : k' ≠ k) :
    (emplace records k v).lookup k' = records.lookup k' := by
  rw [lookup_emplace, beq_eq_false_iff_ne.mpr h, if_neg Bool.false_ne_true, Option.or_none]

theorem not_isSparseKey_map : ¬ IsSparseKey paxGNUSparseMap := by
  unfold IsSparseKey
  decide

/-- What is stored when nothing is left of the text. -/
def storeSparse (sparseMap : List Bytes) (records : PaxRecords) : PaxRecords :=
  if sparseMap.isEmpty then records
  else emplace records paxGNUSparseMap (List.intercalate [0x2C] sparseMap)

theorem parseRecords_nil (rt : Runtime) (count : Nat) (sparseMap : List Bytes)
    (records : PaxRecords) :
    parseRecords rt count [] sparseMap records = .ok (storeSparse sparseMap records) := by
  cases count <;> rfl

/-- One round of the loop of `parsePAX`, which does the same whatever is stored. -/
theorem parseRecords_cons {count : Nat} {b : UInt8} {sv : Bytes} {sparseMap : List Bytes}
    {records out : PaxRecords}
    (h : parseRecords rt (count + 1) (b :: sv) sparseMap records = .ok out) :
    ∃ k v rest, parsePAXRecord rt (b :: sv) = .ok (k, v, rest) ∧
      rest.length ≤ sv.length ∧
      ((IsSparseKey k ∧ ∀ m, parseRecords rt (count + 1) (b :: sv) sparseMap m =
          parseRecords rt count rest (sparseMap ++ [v]) m) ∨
        (¬ IsSparseKey k ∧ ∀ m, parseRecords rt (count + 1) (b :: sv) sparseMap m =
          parseRecords rt count rest sparseMap (emplace m k v))) := by
  have hround : ∀ m, parseRecords rt (count + 1) (b :: sv) sparseMap m = _ := fun m =>
    parseRecords.eq_3 rt (b :: sv) sparseMap m count (List.cons_ne_nil b sv)
  simp only [hround] at h ⊢
  cases hrecord : parsePAXRecord rt (b :: sv) with
  | error ec =>
      rw [hrecord] at h
      cases h
  | ok next =>
      obtain ⟨k, v, rest⟩ := next
      rw [hrecord] at h
      dsimp only at h ⊢
      have hrest : rest.length ≤ sv.length := by
        obtain ⟨r, -, htext, -, -⟩ := exists_paxRecord hrecord
        have hlen := congrArg List.length htext
        have hpos := List.length_pos_iff.mpr r.text_ne_nil
        rw [List.length_cons, List.length_append] at hlen
        omega
      have hkey : (k == paxGNUSparseOffset || k == paxGNUSparseNumBytes) = true ↔
          IsSparseKey k := by
        rw [Bool.or_eq_true, beq_iff_eq, beq_iff_eq]
        rfl
      refine ⟨k, v, rest, rfl, hrest, ?_⟩
      by_cases hsparse : (k == paxGNUSparseOffset || k == paxGNUSparseNumBytes) = true
      · rw [if_pos hsparse] at h
        split at h
        · cases h
        · next hturn =>
          refine .inl ⟨hkey.mp hsparse, fun m => ?_⟩
          rw [if_pos hsparse, if_neg hturn]
      · refine .inr ⟨fun hk => hsparse (hkey.mpr hk), fun m => ?_⟩
        rw [if_neg hsparse]

/-- What is said of the records that `parsePAX` stores: those of its calls if none of
them is sparse, and none for the keys of sparse regions. -/
def Stores (calls : List (Bytes × Bytes × Nat)) (sparseMap : List Bytes)
    (records out : PaxRecords) : Prop :=
  (sparseMap = [] → (∀ r ∈ pairsOf calls, ¬ IsSparseKey r.1) →
      out = insertAll records (pairsOf calls)) ∧
    (∀ k, IsSparseKey k → out.lookup k = records.lookup k) ∧
    (KeysNodup records → KeysNodup out)

theorem stores_nil (sparseMap : List Bytes) (records : PaxRecords) :
    Stores [] sparseMap records (storeSparse sparseMap records) := by
  refine ⟨?_, ?_, ?_⟩
  · rintro rfl -
    rfl
  · intro k hk
    unfold storeSparse
    split
    · rfl
    · exact lookup_emplace_of_ne fun heq => not_isSparseKey_map (heq ▸ hk)
  · intro hkeys
    unfold storeSparse
    split
    · exact hkeys
    · exact hkeys.insertNew _ _

theorem parseRecords_done {count : Nat} {sparseMap : List Bytes} {records out : PaxRecords}
    (h : parseRecords rt count [] sparseMap records = .ok out) :
    ∃ calls, repeatPAXRecord rt count [] = some calls ∧
      Stores calls sparseMap records out := by
  rw [parseRecords_nil] at h
  cases h
  exact ⟨[], by cases count <;> rfl, stores_nil sparseMap records⟩

/-- What `parsePAX` stores, in terms of the calls it makes. -/
theorem parseRecords_ok {count : Nat} {sv : Bytes} {sparseMap : List Bytes}
    {records out : PaxRecords} (hcount : sv.length ≤ count)
    (h : parseRecords rt count sv sparseMap records = .ok out) :
    ∃ calls, repeatPAXRecord rt count sv = some calls ∧
      Stores calls sparseMap records out := by
  induction count generalizing sv sparseMap records with
  | zero =>
      cases List.eq_nil_of_length_eq_zero (Nat.le_zero.mp hcount)
      exact parseRecords_done h
  | succ count ih =>
      cases sv with
      | nil => exact parseRecords_done h
      | cons b sv =>
          obtain ⟨k, v, rest, hrecord, hlen, hnext⟩ := parseRecords_cons h
          rw [List.length_cons] at hcount
          have hcalls : ∀ {calls}, repeatPAXRecord rt count rest = some calls →
              repeatPAXRecord rt (count + 1) (b :: sv) =
                some ((k, v, (b :: sv).length - rest.length) :: calls) := by
            intro calls hcalls
            rw [repeatPAXRecord, hrecord]
            dsimp only
            rw [hcalls]
            rfl
          obtain ⟨hsparse, hnext⟩ | ⟨hsparse, hnext⟩ := hnext <;> rw [hnext] at h
          · obtain ⟨calls, htail, -, hlookup, hkeys⟩ := ih (by omega) h
            refine ⟨_, hcalls htail, ?_, hlookup, hkeys⟩
            intro _ hall
            exact absurd hsparse (hall (k, v) List.mem_cons_self)
          · obtain ⟨calls, htail, hstored, hlookup, hkeys⟩ := ih (by omega) h
            refine ⟨_, hcalls htail, ?_, ?_, fun hnodup => hkeys (hnodup.insertNew k v)⟩
            · intro hempty hall
              rw [hstored hempty fun r hr => hall r (List.mem_cons_of_mem _ hr)]
              rfl
            · intro k' hk'
              rw [hlookup k' hk']
              exact lookup_emplace_of_ne fun heq => hsparse (heq ▸ hk')

theorem lookup_storeSparse_of_or {pending own records : PaxRecords}
    (h : ∀ k, records.lookup k = (pending.lookup k).or (own.lookup k))
    (sparseMap : List Bytes) (k : Bytes) :
    (storeSparse sparseMap records).lookup k =
      (pending.lookup k).or ((storeSparse sparseMap own).lookup k) := by
  unfold storeSparse
  split
  · exact h k
  · rw [lookup_emplace, lookup_emplace, h, Option.or_assoc]

/-- What was pending comes before what the data itself says. -/
theorem parseRecords_pending {count : Nat} {sv : Bytes} {sparseMap : List Bytes}
    {pending own records out : PaxRecords} (hcount : sv.length ≤ count)
    (hstart : ∀ k, records.lookup k = (pending.lookup k).or (own.lookup k))
    (h : parseRecords rt count sv sparseMap records = .ok out) :
    ∃ out', parseRecords rt count sv sparseMap own = .ok out' ∧
      ∀ k, out.lookup k = (pending.lookup k).or (out'.lookup k) := by
  induction count generalizing sv sparseMap own records with
  | zero =>
      cases List.eq_nil_of_length_eq_zero (Nat.le_zero.mp hcount)
      rw [parseRecords_nil] at h
      cases h
      exact ⟨_, parseRecords_nil rt 0 sparseMap own,
        lookup_storeSparse_of_or hstart sparseMap⟩
  | succ count ih =>
      cases sv with
      | nil =>
          rw [parseRecords_nil] at h
          cases h
          exact ⟨_, parseRecords_nil rt (count + 1) sparseMap own,
            lookup_storeSparse_of_or hstart sparseMap⟩
      | cons b sv =>
          obtain ⟨k, v, rest, -, hlen, hnext⟩ := parseRecords_cons h
          rw [List.length_cons] at hcount
          obtain ⟨hsparse, hnext⟩ | ⟨hsparse, hnext⟩ := hnext <;> rw [hnext] at h ⊢
          · exact ih (by omega) hstart h
          · refine ih (by omega) (fun k' => ?_) h
            rw [lookup_emplace, lookup_emplace, hstart, Option.or_assoc]

/-! ## Sequences of metadata -/

/-- A metadata entry with the header in its block. -/
structure MetaEntry where
  entry : Entry
  header : Header
  length : entry.block.length = blockSize
  nonzero : isZeroBlock entry.block = false
  parse : parseHeader entry.block = .ok header
  metadata : isMetadataType header.typeflag = true
  fits : entry.fits header.size = true

namespace MetaEntry

def IsGlobal (m : MetaEntry) : Prop :=
  m.header.typeflag = typeXGlobalHeader

/-- The records of an extended header for the next entry. -/
def records (rt : Runtime) (m : MetaEntry) : PaxRecords :=
  if m.header.typeflag = typeXHeader then
    pairsOf ((paxRecords rt m.entry.data).getD [])
  else []

/-- What the data of a header say when nothing is pending. -/
def ownRecords (rt : Runtime) (m : MetaEntry) : PaxRecords :=
  match parsePAXData rt m.entry.data [] with
  | .ok records => records
  | .error _ => []

end MetaEntry

/-- All records of extended headers, in order. -/
def xRecords (rt : Runtime) (ms : List MetaEntry) : PaxRecords :=
  ms.flatMap (MetaEntry.records rt)

def lastText (flag : UInt8) (ms : List MetaEntry) : Bytes :=
  ((ms.filter fun m => m.header.typeflag == flag).getLast?.map fun m =>
    parseString m.entry.data).getD []

theorem xRecords_concat (ms : List MetaEntry) (m : MetaEntry) :
    xRecords rt (ms ++ [m]) = xRecords rt ms ++ m.records rt := by
  rw [xRecords, List.flatMap_append, List.flatMap_singleton]
  rfl

theorem lastText_concat (flag : UInt8) (ms : List MetaEntry) (m : MetaEntry) :
    lastText flag (ms ++ [m]) =
      if m.header.typeflag = flag then parseString m.entry.data else lastText flag ms := by
  unfold lastText
  rw [List.filter_append]
  by_cases hflag : m.header.typeflag = flag
  · rw [if_pos hflag, List.filter_cons_of_pos (by rwa [beq_iff_eq]), List.filter_nil,
      List.getLast?_concat]
    rfl
  · rw [if_neg hflag, List.filter_cons_of_neg (by rwa [beq_iff_eq]), List.filter_nil,
      List.append_nil]

/-- What is pending behind a sequence of metadata. -/
inductive Remembers (rt : Runtime) : List MetaEntry → Pending → Prop
  | start : Remembers rt [] {}
  | add {ms : List MetaEntry} {m : MetaEntry} {q q' : Pending} :
      Remembers rt ms q →
      interpretMetadata rt q m.header m.entry.data = some (.inl q') →
      Remembers rt (ms ++ [m]) q'

/-- What is pending, in terms of the sequence. -/
structure Knows (rt : Runtime) (ms : List MetaEntry) (q : Pending) : Prop where
  keys : KeysNodup q.paxHdrs
  sparse : ∀ k, IsSparseKey k → q.paxHdrs.lookup k = none
  records : (∀ r ∈ xRecords rt ms, ¬ IsSparseKey r.1) →
    ∀ k, q.paxHdrs.lookup k = (xRecords rt ms).lookup k
  longName : q.gnuLongName = lastText typeGNULongName ms
  longLink : q.gnuLongLink = lastText typeGNULongLink ms

theorem interpretMetadata_inl {h : Header} {data : Bytes} {q q' : Pending}
    (hmeta : isMetadataType h.typeflag = true)
    (hinterpret : interpretMetadata rt q h data = some (.inl q')) :
    (h.typeflag = typeXHeader ∧ ∃ records, parsePAXData rt data q.paxHdrs = .ok records ∧
        q' = { q with paxHdrs := records }) ∨
      (h.typeflag = typeGNULongName ∧ q' = { q with gnuLongName := parseString data }) ∨
      (h.typeflag = typeGNULongLink ∧ q' = { q with gnuLongLink := parseString data }) := by
  simp only [isMetadataType, isPaxType, isLongType, Bool.or_eq_true, beq_iff_eq] at hmeta
  unfold interpretMetadata at hinterpret
  by_cases hpax : isPaxType h.typeflag = true
  · rw [if_pos hpax] at hinterpret
    split at hinterpret
    · cases hinterpret
    · next records hparse =>
      by_cases hglobal : h.typeflag = typeXGlobalHeader
      · rw [if_pos hglobal] at hinterpret
        cases hinterpret
      · rw [if_neg hglobal] at hinterpret
        cases hinterpret
        simp only [isPaxType, Bool.or_eq_true, beq_iff_eq] at hpax
        exact .inl ⟨hpax.resolve_right hglobal, records, hparse, rfl⟩
  · rw [if_neg hpax] at hinterpret
    simp only [isPaxType, Bool.or_eq_true, beq_iff_eq] at hpax
    by_cases hname : h.typeflag = typeGNULongName
    · rw [if_pos hname] at hinterpret
      cases hinterpret
      exact .inr (.inl ⟨hname, rfl⟩)
    · rw [if_neg hname] at hinterpret
      cases hinterpret
      exact .inr (.inr ⟨(hmeta.resolve_left hpax).resolve_left hname, rfl⟩)

theorem Remembers.knows {ms : List MetaEntry} {q : Pending} (h : Remembers rt ms q) :
    Knows rt ms q := by
  induction h with
  | start => exact ⟨List.nodup_nil, fun _ _ => rfl, fun _ _ => rfl, rfl, rfl⟩
  | @add ms m q q' _ hinterpret ih =>
      obtain ⟨hflag, records, hparse, rfl⟩ | ⟨hflag, rfl⟩ | ⟨hflag, rfl⟩ :=
        interpretMetadata_inl m.metadata hinterpret
      · obtain ⟨calls, hcalls, hstored, hsparse, hkeys⟩ := parseRecords_ok le_rfl hparse
        have hrecords : m.records rt = pairsOf calls := by
          rw [MetaEntry.records, if_pos hflag, paxRecords, hcalls]
          rfl
        refine ⟨hkeys ih.keys, ?_, ?_, ?_, ?_⟩
        · intro k hk
          rw [hsparse k hk, ih.sparse k hk]
        · intro hall k
          rw [xRecords_concat] at hall ⊢
          rw [hstored rfl fun r hr => hall r (List.mem_append_right _ (hrecords ▸ hr)),
            lookup_insertAll, ih.records fun r hr => hall r (List.mem_append_left _ hr),
            List.lookup_append, hrecords]
        · rw [lastText_concat, hflag]
          exact ih.longName
        · rw [lastText_concat, hflag]
          exact ih.longLink
      · have hrecords : m.records rt = [] := by
          rw [MetaEntry.records, hflag]
          rfl
        refine ⟨ih.keys, ih.sparse, ?_, ?_, ?_⟩
        · rw [xRecords_concat, hrecords, List.append_nil]
          exact ih.records
        · rw [lastText_concat, if_pos hflag]
        · rw [lastText_concat, hflag]
          exact ih.longLink
      · have hrecords : m.records rt = [] := by
          rw [MetaEntry.records, hflag]
          rfl
        refine ⟨ih.keys, ih.sparse, ?_, ?_, ?_⟩
        · rw [xRecords_concat, hrecords, List.append_nil]
          exact ih.records
        · rw [lastText_concat, hflag]
          exact ih.longName
        · rw [lastText_concat, if_pos hflag]

end Baulk.Tar
