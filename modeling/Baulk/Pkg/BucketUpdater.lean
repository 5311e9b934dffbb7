import Baulk.Pkg.BucketLock

/-!
# What an update of the buckets records

A run of `BucketUpdater` reads the lock file of the buckets into a map, changes
the entries of the buckets that it downloads, and writes the map back.  The id
that is recorded for a bucket therefore changes only to one that was downloaded
in the run.
-/

namespace Baulk.Pkg

/-! ## The map -/

namespace BucketStatus

/-- The keys of a map differ, also if case is ignored. -/
def Distinct (status : BucketStatus) : Prop :=
  status.Pairwise fun a b => equalsIgnoreCase a.1 b.1 = false

theorem lookup_congr (status : BucketStatus) {name name' : WString}
    (h : equalsIgnoreCase name name' = true) :
    status.lookup name = status.lookup name' := by
  simp only [lookup, equalsIgnoreCase_congr h]

theorem lookup_append_single (status : BucketStatus) (name : WString)
    (metadata : BucketMetadata) (m : WString) :
    lookup (status ++ [(name, metadata)]) m =
      (status.lookup m).or
        (if equalsIgnoreCase name m then some metadata else none) := by
  rw [lookup, lookup, List.find?_append]
  cases status.find? fun entry => equalsIgnoreCase entry.1 m with
  | some entry => rfl
  | none =>
      rw [Option.none_or, List.find?_singleton]
      split <;> rfl

theorem lookup_emplace (status : BucketStatus) (name : WString)
    (metadata : BucketMetadata) (m : WString) :
    (status.emplace name metadata).lookup m =
      (status.lookup m).or
        (if equalsIgnoreCase name m then some metadata else none) := by
  unfold emplace
  split
  · rename_i hsome
    by_cases hm : equalsIgnoreCase name m = true
    · rw [lookup_congr status hm] at hsome
      obtain ⟨found, hfound⟩ := Option.isSome_iff_exists.mp hsome
      rw [hfound]
      rfl
    · rw [if_neg hm, Option.or_none]
  · exact lookup_append_single status name metadata m

theorem lookup_assign (status : BucketStatus) (name : WString)
    (metadata : BucketMetadata) (m : WString) :
    (status.assign name metadata).lookup m =
      if equalsIgnoreCase name m then some metadata else status.lookup m := by
  unfold assign
  split
  · rename_i hsome
    rw [lookup, List.find?_map, Option.map_map]
    have hkeys : ((fun entry : WString × BucketMetadata =>
        equalsIgnoreCase entry.1 m) ∘ fun entry =>
          if equalsIgnoreCase entry.1 name then (entry.1, metadata)
          else entry) = fun entry => equalsIgnoreCase entry.1 m := by
      funext entry
      simp only [Function.comp]
      split <;> rfl
    rw [hkeys]
    by_cases hm : equalsIgnoreCase name m = true
    · rw [if_pos hm]
      rw [lookup_congr status hm, lookup, Option.isSome_map] at hsome
      obtain ⟨entry, hentry⟩ := Option.isSome_iff_exists.mp hsome
      have hmatch := List.find?_some hentry
      rw [← equalsIgnoreCase_congr hm] at hmatch
      rw [hentry, Option.map_some, Function.comp, if_pos hmatch]
    · rw [if_neg hm, lookup]
      cases hfind : status.find? fun entry => equalsIgnoreCase entry.1 m with
      | none => rfl
      | some entry =>
          have hmatch := List.find?_some hfind
          have hother : ¬ equalsIgnoreCase entry.1 name = true := by
            intro hname
            rw [equalsIgnoreCase_comm, equalsIgnoreCase_congr hname,
              equalsIgnoreCase_comm] at hmatch
            exact hm hmatch
          rw [Option.map_some, Option.map_some, Function.comp, if_neg hother]
  · rename_i hnone
    rw [lookup_append_single]
    by_cases hm : equalsIgnoreCase name m = true
    · rw [lookup_congr status hm] at hnone
      rw [Option.not_isSome_iff_eq_none.mp hnone, if_pos hm]
      rfl
    · rw [if_neg hm, if_neg hm, Option.or_none]

theorem lookup_eq_none_iff {status : BucketStatus} {name : WString} :
    (status.lookup name).isSome = false ↔
      ∀ entry ∈ status, equalsIgnoreCase entry.1 name = false := by
  rw [lookup, Option.isSome_map, ← Bool.not_eq_true, List.find?_isSome]
  simp

theorem Distinct.append_single {status : BucketStatus} (h : status.Distinct)
    {name : WString} (hnone : ¬ (status.lookup name).isSome = true)
    (metadata : BucketMetadata) :
    Distinct (status ++ [(name, metadata)]) := by
  rw [Bool.not_eq_true, lookup_eq_none_iff] at hnone
  rw [Distinct, List.pairwise_append]
  refine ⟨h, List.pairwise_singleton _ _, ?_⟩
  intro a ha b hb
  cases List.mem_singleton.mp hb
  exact hnone a ha

theorem Distinct.emplace {status : BucketStatus} (h : status.Distinct)
    (name : WString) (metadata : BucketMetadata) :
    (status.emplace name metadata).Distinct := by
  unfold BucketStatus.emplace
  split
  · exact h
  · rename_i hnone
    exact h.append_single hnone metadata

theorem Distinct.assign {status : BucketStatus} (h : status.Distinct)
    (name : WString) (metadata : BucketMetadata) :
    (status.assign name metadata).Distinct := by
  unfold BucketStatus.assign
  split
  · rw [Distinct, List.pairwise_map]
    refine List.Pairwise.imp ?_ h
    intro a b hab
    split <;> split <;> exact hab
  · rename_i hnone
    exact h.append_single hnone metadata

/-- With keys that differ the order of the entries does not matter. -/
theorem Distinct.lookup_eq_some_iff {status : BucketStatus}
    (h : status.Distinct) {name : WString} {metadata : BucketMetadata} :
    status.lookup name = some metadata ↔
      ∃ key, (key, metadata) ∈ status ∧ equalsIgnoreCase key name = true := by
  induction status with
  | nil => exact ⟨nofun, fun ⟨key, hmem, _⟩ => nomatch hmem⟩
  | cons entry status ih =>
      rw [Distinct, List.pairwise_cons] at h
      rw [lookup, List.find?_cons]
      split
      · rename_i hentry
        rw [Option.map_some, Option.some_inj]
        constructor
        · rintro rfl
          exact ⟨entry.1, List.mem_cons_self, hentry⟩
        · rintro ⟨key, hmem, hkey⟩
          rcases List.mem_cons.mp hmem with heq | hmem
          · rw [← heq]
          · have hother := h.1 _ hmem
            rw [equalsIgnoreCase_congr hkey, hentry] at hother
            cases hother
      · rename_i hentry
        refine (ih h.2).trans (exists_congr fun key => ?_)
        refine and_congr_left fun hkey => ?_
        rw [List.mem_cons]
        constructor
        · exact .inr
        · rintro (heq | hmem)
          · rw [← heq, hkey] at hentry
            cases hentry
          · exact hmem

theorem Distinct.lookup_perm {status status' : BucketStatus}
    (h : status.Distinct) (hperm : status'.Perm status) (name : WString) :
    status'.lookup name = status.lookup name := by
  have h' : status'.Distinct := by
    refine (hperm.symm.pairwise_iff ?_).mp h
    intro a b hab
    rw [equalsIgnoreCase_comm]
    exact hab
  refine Option.ext fun metadata => ?_
  rw [h'.lookup_eq_some_iff, h.lookup_eq_some_iff]
  simp only [hperm.mem_iff]

/-- What holds of the map all the time: its keys differ, and all of its texts
come back from UTF-8. -/
structure Valid (status : BucketStatus) : Prop where
  distinct : status.Distinct
  paired : ∀ entry ∈ status, Paired entry.1 ∧ Paired entry.2.latest

theorem Valid.nil : Valid [] :=
  ⟨List.Pairwise.nil, nofun⟩

theorem Valid.emplace {status : BucketStatus} (h : status.Valid)
    {name : WString} (hname : Paired name) {metadata : BucketMetadata}
    (hlatest : Paired metadata.latest) :
    (status.emplace name metadata).Valid := by
  refine ⟨h.distinct.emplace name metadata, ?_⟩
  unfold BucketStatus.emplace
  split
  · exact h.paired
  · intro entry hentry
    rcases List.mem_append.mp hentry with hentry | hentry
    · exact h.paired entry hentry
    · cases List.mem_singleton.mp hentry
      exact ⟨hname, hlatest⟩

theorem Valid.assign {status : BucketStatus} (h : status.Valid)
    {name : WString} (hname : Paired name) {metadata : BucketMetadata}
    (hlatest : Paired metadata.latest) :
    (status.assign name metadata).Valid := by
  refine ⟨h.distinct.assign name metadata, ?_⟩
  unfold BucketStatus.assign
  split
  · intro entry hentry
    obtain ⟨old, hold, rfl⟩ := List.mem_map.mp hentry
    split
    · exact ⟨(h.paired old hold).1, hlatest⟩
    · exact h.paired old hold
  · intro entry hentry
    rcases List.mem_append.mp hentry with hentry | hentry
    · exact h.paired entry hentry
    · cases List.mem_singleton.mp hentry
      exact ⟨hname, hlatest⟩

/-- The id in the map. -/
def latest (status : BucketStatus) (name : WString) : Option WString :=
  (status.lookup name).map BucketMetadata.latest

theorem latest_emplace (status : BucketStatus) (name : WString)
    (metadata : BucketMetadata) (m : WString) :
    (status.emplace name metadata).latest m =
      (status.latest m).or
        (if equalsIgnoreCase name m then some metadata.latest else none) := by
  rw [latest, latest, lookup_emplace]
  cases status.lookup m with
  | some found => rfl
  | none =>
      rw [Option.none_or, Option.map_none, Option.none_or]
      split <;> rfl

theorem latest_assign (status : BucketStatus) (name : WString)
    (metadata : BucketMetadata) (m : WString) :
    (status.assign name metadata).latest m =
      if equalsIgnoreCase name m then some metadata.latest
      else status.latest m := by
  rw [latest, latest, lookup_assign]
  split <;> rfl

end BucketStatus

/-! ## Reading the file -/

/-- The id that some entries record for a bucket. -/
def recordedIn (es : List Json) (name : WString) : Option WString :=
  (es.find? (isNamed name)).bind fun a =>
    (a.stringAt (narrow "latest")).map encodeUtf16

def recordedId (file : JsonFile) (name : WString) : Option WString :=
  match file with
  | .parsed doc => recordedIn (entries doc) name
  | _ => none

/-- The members that `BucketUpdater` reads. -/
def statusKeys : List Bytes :=
  [narrow "name", narrow "latest", narrow "time"]

theorem readEntry_cases {a : Json} (hobject : isObject a = true) :
    (statusKeys.find? (lacksText a) = none ∧
      ∃ name latest time, a.stringAt (narrow "name") = some name ∧
        a.stringAt (narrow "latest") = some latest ∧
        readEntry a = .ok (encodeUtf16 name, ⟨encodeUtf16 latest, time⟩)) ∨
    ∃ key fault, statusKeys.find? (lacksText a) = some key ∧
      readEntry a = .error fault ∧
      (fault = .undefined ↔ a.find key = none) := by
  -- A member that is no text ends the reading with its own fault.
  have hstop : ∀ {key : Bytes}, lacksText a key = true →
      ∃ fault, textMember a key = .error fault ∧
        (fault = .undefined ↔ a.find key = none) := by
    intro key hlacks
    rcases textMember_of_lacksText hobject hlacks with
      ⟨hfind, htext⟩ | ⟨hfind, ec, htext⟩
    · exact ⟨.undefined, htext, iff_of_true rfl hfind⟩
    · exact ⟨.thrown ec, htext, iff_of_false (by simp) hfind⟩
  have hread : ∀ {key raw : Bytes}, a.stringAt key = some raw →
      ¬ lacksText a key = true := by
    intro key raw hraw
    simp [lacksText, hraw]
  have hlacks : ∀ {key : Bytes}, a.stringAt key = none →
      lacksText a key = true := by
    intro key hnone
    rw [lacksText, hnone]
    rfl
  unfold readEntry statusKeys
  cases hname : a.stringAt (narrow "name") with
  | none =>
      obtain ⟨fault, htext, hfault⟩ := hstop (hlacks hname)
      refine .inr ⟨_, fault, List.find?_cons_of_pos (hlacks hname), ?_, hfault⟩
      rw [htext]
      rfl
  | some name =>
      rw [textMember_of_stringAt hname, List.find?_cons_of_neg (hread hname)]
      cases hlatest : a.stringAt (narrow "latest") with
      | none =>
          obtain ⟨fault, htext, hfault⟩ := hstop (hlacks hlatest)
          refine .inr ⟨_, fault, List.find?_cons_of_pos (hlacks hlatest), ?_,
            hfault⟩
          rw [htext]
          rfl
      | some latest =>
          rw [textMember_of_stringAt hlatest,
            List.find?_cons_of_neg (hread hlatest)]
          cases htime : a.stringAt (narrow "time") with
          | none =>
              obtain ⟨fault, htext, hfault⟩ := hstop (hlacks htime)
              refine .inr ⟨_, fault, List.find?_cons_of_pos (hlacks htime), ?_,
                hfault⟩
              rw [htext]
              rfl
          | some time =>
              rw [textMember_of_stringAt htime,
                List.find?_cons_of_neg (hread htime)]
              exact .inl ⟨rfl, name, latest, time, rfl, rfl, rfl⟩

/-- The loop of `Initialize` reads all entries into the map, or is stopped by
the first one that it cannot decode. -/
theorem initializeLoop_cases (es : List Json) {status : BucketStatus}
    (h : status.Valid) :
    (firstBroken statusKeys es = none ∧
      ∃ status', initializeLoop es status = .ok status' ∧ status'.Valid ∧
        ∀ name, status'.latest name =
          (status.latest name).or (recordedIn es name)) ∨
    ∃ a key fault, firstBroken statusKeys es = some (a, key) ∧
      initializeLoop es status = .error fault ∧
      (fault = .undefined ↔ a.find key = none) := by
  induction es generalizing status with
  | nil =>
      refine .inl ⟨rfl, status, rfl, h, ?_⟩
      intro name
      exact (Option.or_none).symm
  | cons a es ih =>
      rw [initializeLoop]
      cases hobject : isObject a with
      | false =>
          rw [firstBroken_cons_of_sound es (by simp [hobject])]
          have hskip : ∀ name, recordedIn (a :: es) name =
              recordedIn es name := by
            intro name
            rw [recordedIn, List.find?_cons_of_neg
              (by simp [isNamed_of_not_isObject name hobject])]
            rfl
          simp only [hskip]
          exact ih h
      | true =>
          rw [if_pos rfl]
          rcases readEntry_cases hobject with
            ⟨hsound, name, latest, time, hname, hlatest, hread⟩ |
            ⟨key, fault, hlacks, hread, hfault⟩
          · rw [firstBroken_cons_of_sound es fun _ => hsound, hread]
            have hvalid : (status.emplace (encodeUtf16 name)
                ⟨encodeUtf16 latest, time⟩).Valid :=
              h.emplace (paired_encodeUtf16 name) (paired_encodeUtf16 latest)
            rcases ih hvalid with ⟨hbroken, status', hloop, hvalid', hids⟩ |
              hstopped
            · refine .inl ⟨hbroken, status', hloop, hvalid', ?_⟩
              intro m
              have hnamed : isNamed m a =
                  equalsIgnoreCase (encodeUtf16 name) m := by
                rw [isNamed, hname, equalsIgnoreCase_comm]
                rfl
              have hcons : recordedIn (a :: es) m =
                  if equalsIgnoreCase (encodeUtf16 name) m then
                    some (encodeUtf16 latest)
                  else recordedIn es m := by
                rw [recordedIn, List.find?_cons, hnamed]
                cases equalsIgnoreCase (encodeUtf16 name) m with
                | false => rfl
                | true =>
                    rw [Option.bind_some, hlatest]
                    rfl
              rw [hids m, BucketStatus.latest_emplace, Option.or_assoc, hcons]
              split <;> rfl
            · exact .inr hstopped
          · rw [hread]
            exact .inr ⟨a, key, fault,
              firstBroken_cons_of_lacks es hobject hlacks, rfl, hfault⟩

/-! ## A run -/

def JsonFile.after (file : JsonFile) : Option Json → JsonFile
  | some doc => .parsed doc
  | none => file

/-- The id of a bucket is the old one, or one that was downloaded. -/
def KeepsIds (old new : WString → Option WString)
    (succeeded : List (Bucket × WString)) : Prop :=
  ∀ name, new name = old name ∨
    ∃ bucket id, (bucket, id) ∈ succeeded ∧
      equalsIgnoreCase bucket.name name = true ∧ new name = some id

/-- `Update` keeps the map valid, and changes ids only to what it downloads. -/
theorem UpdaterState.update_keeps {host : UpdaterHost} {st : UpdaterState}
    {old : WString → Option WString} {bucket : Bucket × Nat}
    (hbucket : Paired bucket.1.name) (hvalid : st.status.Valid)
    (hids : KeepsIds old st.status.latest st.succeeded) :
    (st.update host bucket).status.Valid ∧
      KeepsIds old (st.update host bucket).status.latest
        (st.update host bucket).succeeded := by
  unfold UpdaterState.update
  split
  · exact ⟨hvalid, hids⟩
  · rename_i raw hraw
    dsimp only
    split
    · exact ⟨hvalid, hids⟩
    · split
      · refine ⟨hvalid.assign hbucket (paired_encodeUtf16 raw), ?_⟩
        intro name
        dsimp only
        rw [BucketStatus.latest_assign]
        split
        · rename_i hname
          exact .inr ⟨bucket.1, encodeUtf16 raw, by simp, hname, rfl⟩
        · rcases hids name with hsame | ⟨b, id, hmem, hb, hid⟩
          · exact .inl hsame
          · exact .inr ⟨b, id, List.mem_append_left _ hmem, hb, hid⟩
      · exact ⟨hvalid, hids⟩

theorem foldl_update_keeps {host : UpdaterHost} {buckets : List (Bucket × Nat)}
    (hbuckets : ∀ bucket ∈ buckets, Paired bucket.1.name)
    {old : WString → Option WString} {st : UpdaterState}
    (hvalid : st.status.Valid)
    (hids : KeepsIds old st.status.latest st.succeeded) :
    (buckets.foldl (UpdaterState.update host) st).status.Valid ∧
      KeepsIds old (buckets.foldl (UpdaterState.update host) st).status.latest
        (buckets.foldl (UpdaterState.update host) st).succeeded := by
  induction buckets generalizing st with
  | nil => exact ⟨hvalid, hids⟩
  | cons bucket buckets ih =>
      rw [List.forall_mem_cons] at hbuckets
      obtain ⟨hvalid', hids'⟩ :=
        UpdaterState.update_keeps hbuckets.1 hvalid hids
      exact ih hbuckets.2 hvalid' hids'

theorem stringAt_statusEntry (entry : WString × BucketMetadata) :
    (statusEntry entry).stringAt (narrow "name") = some (encodeUtf8 entry.1) ∧
      (statusEntry entry).stringAt (narrow "latest") =
        some (encodeUtf8 entry.2.latest) := by
  have hname := Json.IsMap.null.setMember (narrow "name")
    (.string (encodeUtf8 entry.1))
  have hlatest := hname.setMember (narrow "latest")
    (.string (encodeUtf8 entry.2.latest))
  simp only [statusEntry, stringAt_eq_some_iff, hlatest.find_setMember,
    hname.find_setMember, Json.IsMap.null.find_setMember]
  exact ⟨by simp +decide, by simp +decide⟩

theorem recordedIn_statusEntry {status : BucketStatus} (h : status.Valid)
    (name : WString) :
    recordedIn (status.map statusEntry) name = status.latest name := by
  have hpaired := h.paired
  clear h
  induction status with
  | nil => rfl
  | cons entry status ih =>
      rw [List.forall_mem_cons] at hpaired
      obtain ⟨⟨hkey, hlatest⟩, hrest⟩ := hpaired
      obtain ⟨hname, hid⟩ := stringAt_statusEntry entry
      have hnamed : isNamed name (statusEntry entry) =
          equalsIgnoreCase entry.1 name := by
        rw [isNamed, hname, equalsIgnoreCase_comm]
        change equalsIgnoreCase name (encodeUtf16 (encodeUtf8 entry.1)) = _
        rw [hkey.decode]
      rw [List.map_cons, recordedIn, List.find?_cons, hnamed,
        BucketStatus.latest, BucketStatus.lookup, List.find?_cons]
      cases equalsIgnoreCase entry.1 name with
      | false => exact ih hrest
      | true =>
          rw [Option.bind_some, hid, Option.map_some, hlatest.decode]
          rfl

/-- A run that is not stopped by undefined behaviour records a new id for a
bucket only if the bucket was downloaded at that id, and keeps all others. -/
def UpdateKeeps (file : JsonFile) (run : UpdaterRun) : Prop :=
  KeepsIds (recordedId file) (recordedId (file.after run.written))
    run.succeeded

theorem immobilized_keeps {host : UpdaterHost} {st : UpdaterState}
    {file : JsonFile} (hvalid : st.status.Valid)
    (hids : KeepsIds (recordedId file) st.status.latest st.succeeded) :
    UpdateKeeps file (immobilized host st) := by
  unfold immobilized
  split
  · exact fun name => .inl rfl
  · split
    · have hperm := host.arrange_perm st.status
      have hvalid' : BucketStatus.Valid (host.arrange st.status) := by
        refine ⟨?_, fun entry hentry =>
          hvalid.paired entry (hperm.mem_iff.mp hentry)⟩
        refine (hperm.symm.pairwise_iff ?_).mp hvalid.distinct
        intro a b hab
        rw [equalsIgnoreCase_comm]
        exact hab
      have hnew : ∀ name, recordedId (.parsed (.array
          ((host.arrange st.status).map statusEntry))) name =
          st.status.latest name := by
        intro name
        have hentries : entries (.array
            ((host.arrange st.status).map statusEntry)) =
            (host.arrange st.status).map statusEntry := by
          simp [entries, Json.elements, Function.comp_def]
        rw [recordedId, hentries, recordedIn_statusEntry hvalid',
          BucketStatus.latest, hvalid.distinct.lookup_perm hperm]
        rfl
      intro name
      rw [JsonFile.after, hnew]
      exact hids name
    · exact fun name => .inl rfl

/-- Decoding the file for an update does not stop at a missing member. -/
def UpdateSafe (host : UpdaterHost) (file : JsonFile) : Prop :=
  ¬ (host.openError = none ∧
    ∃ doc, file = .parsed doc ∧ StopsUndefined statusKeys (entries doc))

theorem updateBucket_keeps_iff (host : UpdaterHost)
    (profile : Except ErrorCode Json) (file : JsonFile) :
    (∃ run, updateBucket host (loadedBuckets profile) file = some run ∧
      UpdateKeeps file run) ↔ UpdateSafe host file := by
  have hbuckets : ∀ bucket ∈ (loadedBuckets profile).zipIdx,
      Paired bucket.1.name := by
    intro bucket hbucket
    exact paired_name (List.fst_mem_of_mem_zipIdx hbucket)
  have hfailed : ∀ run : UpdaterRun, run.written = none →
      UpdateKeeps file run := by
    intro run hrun name
    rw [hrun]
    exact .inl rfl
  have hstatus : ∀ status : BucketStatus, status.Valid →
      (∀ name, status.latest name = recordedId file name) →
      UpdateKeeps file (immobilized host
        ((loadedBuckets profile).zipIdx.foldl (UpdaterState.update host)
          { status })) := by
    intro status hvalid hids
    have hstart : KeepsIds (recordedId file) status.latest [] :=
      fun name => .inl (hids name)
    have hkeeps := @foldl_update_keeps host _ hbuckets _ { status } hvalid
      hstart
    exact immobilized_keeps hkeeps.1 hkeeps.2
  unfold updateBucket UpdateSafe
  cases hopen : host.openError with
  | some e =>
      have hinit : initializeStatus host file = .ok none := by
        unfold initializeStatus
        rw [hopen]
      rw [hinit]
      exact iff_of_true ⟨_, rfl, hfailed _ rfl⟩ fun h => nomatch h.1
  | none =>
      cases file with
      | missing =>
          have hinit : initializeStatus host .missing = .ok (some []) := by
            unfold initializeStatus
            rw [hopen]
          rw [hinit]
          refine iff_of_true ⟨_, rfl, hstatus [] .nil fun name => rfl⟩ ?_
          rintro ⟨-, doc, hdoc, -⟩
          cases hdoc
      | malformed what =>
          have hinit : initializeStatus host (.malformed what) =
              .ok none := by
            unfold initializeStatus
            rw [hopen]
          rw [hinit]
          refine iff_of_true ⟨_, rfl, hfailed _ rfl⟩ ?_
          rintro ⟨-, doc, hdoc, -⟩
          cases hdoc
      | parsed doc =>
          have hinit : initializeStatus host (.parsed doc) =
              caught (initializeLoop (entries doc) []) := by
            unfold initializeStatus
            rw [hopen]
          rw [hinit]
          rcases initializeLoop_cases (entries doc) BucketStatus.Valid.nil with
            ⟨hbroken, status, hloop, hvalid, hids⟩ |
            ⟨a, key, fault, hbroken, hloop, hfault⟩
          · rw [hloop]
            refine iff_of_true ⟨_, rfl, hstatus status hvalid hids⟩ ?_
            rintro ⟨-, doc', hdoc, a, key, hbroken', -⟩
            cases hdoc
            rw [hbroken] at hbroken'
            cases hbroken'
          · rw [hloop]
            cases fault with
            | undefined =>
                refine iff_of_false (fun ⟨run, hrun, _⟩ => nomatch hrun) ?_
                rw [not_not]
                exact ⟨rfl, doc, rfl, a, key, hbroken, hfault.mp rfl⟩
            | thrown ec =>
                refine iff_of_true ⟨_, rfl, hfailed _ rfl⟩ ?_
                rintro ⟨-, doc', hdoc, a', key', hbroken', hfind⟩
                cases hdoc
                rw [hbroken] at hbroken'
                cases hbroken'
                cases hfault.mpr hfind

/-- Both writers of the lock file keep what they owe to it exactly if pruning
finds a file that it can decode, or cannot write, and decoding for an update
does not stop at a missing member. -/
theorem bucketsLock_keeps_iff (file : JsonFile) (pruneHost : PruneHost)
    (bucket : Bucket) (updaterHost : UpdaterHost)
    (profile : Except ErrorCode Json) :
    ((∃ run, pruneBucket pruneHost bucket file = some run ∧
        PruneKeeps pruneHost bucket file run) ∧
      ∃ run, updateBucket updaterHost (loadedBuckets profile) file = some run ∧
        UpdateKeeps file run) ↔
      PruneSafe pruneHost file ∧ UpdateSafe updaterHost file :=
  and_congr (pruneBucket_keeps_iff pruneHost bucket file)
    (updateBucket_keeps_iff updaterHost profile file)

/-! ### A file that cannot be opened -/

/-- The file records two buckets. -/
def lockedFile : JsonFile :=
  .parsed (.array [statusEntry (wide "baulk", ⟨wide "a1", []⟩),
    statusEntry (wide "extras", ⟨wide "b2", []⟩)])

/-- The file is held open by another program. -/
def lockedHost : PruneHost where
  openError := some .accessDenied

/-- Pruning a bucket while the file cannot be opened empties the file and
returns true. -/
theorem pruneBucket_locked :
    (∃ run, pruneBucket lockedHost { name := wide "extras" } lockedFile =
        some run ∧
      run.result = true ∧ run.written = some (.array [])) ∧
      ¬ ∃ run, pruneBucket lockedHost { name := wide "extras" } lockedFile =
          some run ∧
        PruneKeeps lockedHost { name := wide "extras" } lockedFile run := by
  refine ⟨⟨_, rfl, rfl, rfl⟩, ?_⟩
  rintro ⟨run, hrun, hkeeps⟩
  cases hrun
  cases (hkeeps.undecoded rfl).1

end Baulk.Pkg
