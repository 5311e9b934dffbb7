import Baulk.Pkg.LinkMeta
import Baulk.Pkg.Update
import Mathlib.Data.List.Perm.Basic

/-!
# The lock file of the buckets

`buckets.lock.json` records for every bucket which commit was downloaded last.
`PruneBucket` takes the entries of a bucket out of it, and a run of
`BucketUpdater` replaces the entries of the buckets that it downloads.  Both
decode the file entry by entry, and an entry may stop them: by an exception if
a member is no text, and by undefined behaviour if a member is missing.

`PruneBucket` does not look at whether the file could be decoded.  What it has
collected until then replaces the file.
-/

namespace Baulk.Pkg

/-! ## Entries -/

/-- What stops an expression: an exception, or behaviour that is undefined. -/
inductive Fault where
  | thrown (ec : ErrorCode)
  | undefined

def isObject : Json → Bool
  | .object _ _ _ => true
  | _ => false

/-- `operator[]` of a constant value. -/
def constMember (json : Json) (key : Bytes) : Except Fault Json :=
  if isObject json then (json.find key).elim (.error .undefined) .ok
  else
    .error (.thrown (ErrorCode.make ErrorCode.errGeneral
      (wide "[json.exception.type_error.305] cannot use operator[] " ++
        wide "with a string argument with " ++ wide json.typeName)))

/-- `a[key].get<std::string_view>()`. -/
def textMember (a : Json) (key : Bytes) : Except Fault Bytes := do
  match (← constMember a key).getString with
  | .ok raw => .ok raw
  | .error ec => .error (.thrown ec)

/-- The values that a loop over a JSON value goes over. -/
def entries (doc : Json) : List Json :=
  doc.elements.map Prod.snd

/-- A file, by what the parser makes of it. -/
inductive JsonFile where
  | missing
  | malformed (what : WString)
  | parsed (doc : Json)

/-- An error of `_wfopen_s` other than `ENOENT`. -/
structure OpenError where
  code : Int
  ne_enoent : code ≠ 2

/-- `EACCES`. -/
def OpenError.accessDenied : OpenError :=
  ⟨13, by decide⟩

/-! ## Pruning a bucket -/

/-- What `PruneBucket` gets from its environment. -/
structure PruneHost where
  openError : Option OpenError := none
  /-- How `AtomicWriteText` fails. -/
  writeError : Option ErrorCode := none
  /-- `vfs::AppBuckets()`. -/
  appBuckets : WString := []

/-- The loop of `PruneBucket`: what it has collected when it ends, and what it
is stopped by. -/
def pruneLoop (bucketName : WString) : List Json → List Json × Option Fault
  | [] => ([], none)
  | a :: rest =>
      let (newjson, fault) := pruneLoop bucketName rest
      if isObject a then
        match textMember a (narrow "name") with
        | .error fault => ([], some fault)
        | .ok name =>
            if equalsIgnoreCase bucketName (encodeUtf16 name) then
              (newjson, fault)
            else (a :: newjson, fault)
      else (a :: newjson, fault)

/-- What is collected from the file. -/
def pruneRead (host : PruneHost) (bucket : Bucket) (file : JsonFile) :
    List Json × Option Fault :=
  match host.openError, file with
  | some _, _ => ([], none)
  | none, .missing => ([], none)
  | none, .malformed what =>
      ([], some (.thrown (ErrorCode.make ErrorCode.errGeneral what)))
  | none, .parsed doc => pruneLoop bucket.name (entries doc)

/-- Result of `PruneBucket`, what it writes to the file, and the directory that
it removes. -/
structure PruneRun where
  result : Bool
  written : Option Json := none
  removed : Option WString := none

/-- `PruneBucket`, unless its behaviour is undefined. -/
def pruneBucket (host : PruneHost) (bucket : Bucket) (file : JsonFile) :
    Option PruneRun :=
  match pruneRead host bucket file with
  | (_, some .undefined) => none
  | (newjson, _) =>
      match host.writeError with
      | some _ => some { result := false }
      | none =>
          some
            { result := true
              written := some (.array newjson)
              removed := some (host.appBuckets ++ wide "\\" ++ bucket.name) }

/-! ## Updating the buckets -/

structure BucketMetadata where
  latest : WString
  updated : Bytes

/-- `bucket_status_t`: a map whose keys are compared without regard to case. -/
abbrev BucketStatus := List (WString × BucketMetadata)

/-- `find`. -/
def BucketStatus.lookup (status : BucketStatus) (name : WString) :
    Option BucketMetadata :=
  (status.find? fun entry => equalsIgnoreCase entry.1 name).map Prod.snd

/-- `emplace`, which keeps the entry that is there. -/
def BucketStatus.emplace (status : BucketStatus) (name : WString)
    (metadata : BucketMetadata) : BucketStatus :=
  if (status.lookup name).isSome then status else status ++ [(name, metadata)]

/-- Assignment by `operator[]`. -/
def BucketStatus.assign (status : BucketStatus) (name : WString)
    (metadata : BucketMetadata) : BucketStatus :=
  if (status.lookup name).isSome then
    status.map fun entry =>
      if equalsIgnoreCase entry.1 name then (entry.1, metadata) else entry
  else status ++ [(name, metadata)]

/-- What a run of `BucketUpdater` gets from its environment. -/
structure UpdaterHost where
  openError : Option OpenError := none
  dumpError : Option ErrorCode := none
  writeError : Option ErrorCode := none
  /-- The order in which the map is gone over. -/
  arrange : BucketStatus → BucketStatus := id
  arrange_perm : ∀ status, (arrange status).Perm status := by
    exact fun status => List.Perm.refl status
  /-- `BucketNewest` for each of the buckets, before it is decoded. -/
  newest : Nat → Option Bytes
  /-- `BucketUpdate` for each of the buckets. -/
  bucketUpdate : Nat → Bool
  now : Nat → Bytes := fun _ => []

/-- What an entry of the file says. -/
def readEntry (a : Json) : Except Fault (WString × BucketMetadata) := do
  let name ← textMember a (narrow "name")
  let latest ← textMember a (narrow "latest")
  let time ← textMember a (narrow "time")
  return (encodeUtf16 name, { latest := encodeUtf16 latest, updated := time })

/-- The loop of `BucketUpdater::Initialize`. -/
def initializeLoop : List Json → BucketStatus → Except Fault BucketStatus
  | [], status => .ok status
  | a :: rest, status =>
      if isObject a then
        match readEntry a with
        | .error fault => .error fault
        | .ok entry => initializeLoop rest (status.emplace entry.1 entry.2)
      else initializeLoop rest status

/-- A `catch` block that returns false. -/
def caught : Except Fault BucketStatus → Except Fault (Option BucketStatus)
  | .ok status => .ok (some status)
  | .error (.thrown _) => .ok none
  | .error .undefined => .error .undefined

/-- `BucketUpdater::Initialize`: the status, if it returns true. -/
def initializeStatus (host : UpdaterHost) (file : JsonFile) :
    Except Fault (Option BucketStatus) :=
  match host.openError, file with
  | some _, _ => .ok none
  | none, .missing => .ok (some [])
  | none, .malformed _ => .ok none
  | none, .parsed doc => caught (initializeLoop (entries doc) [])

/-- The variables of a run, and the calls of `BucketUpdate` that succeeded. -/
structure UpdaterState where
  status : BucketStatus
  updated : Bool := false
  succeeded : List (Bucket × WString) := []

/-- `BucketUpdater::Update`. -/
def UpdaterState.update (host : UpdaterHost) (st : UpdaterState)
    (bucket : Bucket × Nat) : UpdaterState :=
  match host.newest bucket.2 with
  | none => st
  | some raw =>
      let latest := encodeUtf16 raw
      if (st.status.lookup bucket.1.name).any fun metadata =>
          equalsIgnoreCase metadata.latest latest then st
      else if host.bucketUpdate bucket.2 then
        { status := st.status.assign bucket.1.name
            { latest, updated := host.now bucket.2 }
          updated := true
          succeeded := st.succeeded ++ [(bucket.1, latest)] }
      else st

/-- An entry of the new file. -/
def statusEntry (entry : WString × BucketMetadata) : Json :=
  let o := Json.null.setMember (narrow "name") (.string (encodeUtf8 entry.1))
  let o := o.setMember (narrow "latest")
    (.string (encodeUtf8 entry.2.latest))
  o.setMember (narrow "time") (.string entry.2.updated)

/-- Result of a run, what it writes to the file, and the calls of
`BucketUpdate` that succeeded. -/
structure UpdaterRun where
  result : Bool
  written : Option Json := none
  succeeded : List (Bucket × WString) := []

/-- `BucketUpdater::Immobilized`. -/
def immobilized (host : UpdaterHost) (st : UpdaterState) : UpdaterRun :=
  if !st.updated then { result := true, succeeded := st.succeeded }
  else
    match host.dumpError, host.writeError with
    | none, none =>
        { result := true
          written := some (.array ((host.arrange st.status).map statusEntry))
          succeeded := st.succeeded }
    | _, _ => { result := false, succeeded := st.succeeded }

/-- A run of `BucketUpdater` over the loaded buckets, unless its behaviour is
undefined. -/
def updateBucket (host : UpdaterHost) (buckets : List Bucket)
    (file : JsonFile) : Option UpdaterRun :=
  match initializeStatus host file with
  | .error _ => none
  | .ok none => some { result := false }
  | .ok (some status) =>
      some (immobilized host
        (buckets.zipIdx.foldl (UpdaterState.update host) { status }))

/-! ## Where decoding stops -/

def lacksText (a : Json) (key : Bytes) : Bool :=
  (a.stringAt key).isNone

/-- The first entry that stops a loop which needs some texts of every object,
with the member that it stops at. -/
def firstBroken (keys : List Bytes) (es : List Json) : Option (Json × Bytes) :=
  es.findSome? fun a =>
    if isObject a then (keys.find? (lacksText a)).map fun key => (a, key)
    else none

/-- A loop stops at a member that is missing. -/
def StopsUndefined (keys : List Bytes) (es : List Json) : Prop :=
  ∃ a key, firstBroken keys es = some (a, key) ∧ a.find key = none

theorem firstBroken_cons_of_sound {keys : List Bytes} {a : Json}
    (es : List Json)
    (h : isObject a = true → keys.find? (lacksText a) = none) :
    firstBroken keys (a :: es) = firstBroken keys es := by
  rw [firstBroken, List.findSome?_cons]
  cases hobject : isObject a with
  | false => rfl
  | true =>
      rw [if_pos rfl, h hobject]
      rfl

theorem firstBroken_cons_of_lacks {keys : List Bytes} {a : Json} {key : Bytes}
    (es : List Json) (hobject : isObject a = true)
    (h : keys.find? (lacksText a) = some key) :
    firstBroken keys (a :: es) = some (a, key) := by
  rw [firstBroken, List.findSome?_cons, if_pos hobject, h]
  rfl

theorem textMember_of_stringAt {a : Json} {key raw : Bytes}
    (h : a.stringAt key = some raw) : textMember a key = .ok raw := by
  cases a with
  | object keys nodup value =>
      simp only [Json.stringAt, Json.find] at h
      by_cases hkey : key ∈ keys
      · simp only [if_pos hkey] at h
        split at h
        · rename_i text htext
          cases h
          rw [Option.some_inj] at htext
          simp only [textMember, constMember, isObject, if_pos, Json.find,
            if_pos hkey, Option.elim, bind, Except.bind, htext, Json.getString]
        · cases h
      · simp only [if_neg hkey] at h
        cases h
  | null => cases h
  | boolean value => cases h
  | number value => cases h
  | string value => cases h
  | array elements => cases h

theorem getString_of_ne {json : Json} (h : ∀ raw, json ≠ .string raw) :
    ∃ ec, json.getString = .error ec := by
  cases json with
  | string raw => exact absurd rfl (h raw)
  | null => exact ⟨_, rfl⟩
  | boolean value => exact ⟨_, rfl⟩
  | number value => exact ⟨_, rfl⟩
  | array elements => exact ⟨_, rfl⟩
  | object keys nodup value => exact ⟨_, rfl⟩

/-- A member that is missing gives undefined behaviour, any other one that is no
text an exception. -/
theorem textMember_of_lacksText {a : Json} {key : Bytes}
    (hobject : isObject a = true) (h : lacksText a key = true) :
    (a.find key = none ∧ textMember a key = .error .undefined) ∨
      a.find key ≠ none ∧ ∃ ec, textMember a key = .error (.thrown ec) := by
  cases a with
  | object keys nodup value =>
      by_cases hkey : key ∈ keys
      · have hfind : (Json.object keys nodup value).find key =
            some (value key) := if_pos hkey
        have hne : ∀ raw, value key ≠ .string raw := by
          intro raw hraw
          rw [hraw, ← stringAt_eq_some_iff] at hfind
          rw [lacksText, hfind] at h
          cases h
        obtain ⟨ec, hec⟩ := getString_of_ne hne
        refine .inr ⟨by simp [hfind], ec, ?_⟩
        simp only [textMember, constMember, isObject, if_pos, hfind,
          Option.elim, bind, Except.bind, hec]
      · refine .inl ⟨if_neg hkey, ?_⟩
        simp only [textMember, constMember, isObject, if_pos, Json.find,
          if_neg hkey, Option.elim, bind, Except.bind]
  | null => cases hobject
  | boolean value => cases hobject
  | number value => cases hobject
  | string value => cases hobject
  | array elements => cases hobject

/-! ## What pruning keeps -/

/-- An entry of a bucket. -/
def isNamed (bucketName : WString) (a : Json) : Bool :=
  (a.stringAt (narrow "name")).any fun name =>
    equalsIgnoreCase bucketName (encodeUtf16 name)

theorem isNamed_of_not_isObject (bucketName : WString) {a : Json}
    (h : isObject a = false) : isNamed bucketName a = false := by
  cases a with
  | object keys nodup value => cases h
  | null => rfl
  | boolean value => rfl
  | number value => rfl
  | string value => rfl
  | array elements => rfl

/-- The loop collects all entries of other buckets, or is stopped by the first
entry that it cannot decode. -/
theorem pruneLoop_cases (bucketName : WString) (es : List Json) :
    (firstBroken [narrow "name"] es = none ∧
      pruneLoop bucketName es =
        (es.filter fun a => !isNamed bucketName a, none)) ∨
    ∃ a key fault newjson, firstBroken [narrow "name"] es = some (a, key) ∧
      pruneLoop bucketName es = (newjson, some fault) ∧
      (fault = .undefined ↔ a.find key = none) := by
  induction es with
  | nil => exact .inl ⟨rfl, rfl⟩
  | cons a es ih =>
      rw [pruneLoop]
      cases hobject : isObject a with
      | false =>
          have hnamed := isNamed_of_not_isObject bucketName hobject
          rw [firstBroken_cons_of_sound es (by simp [hobject])]
          rcases ih with ⟨hbroken, hloop⟩ | ⟨b, key, fault, newjson, hbroken,
            hloop, hfault⟩
          · left
            refine ⟨hbroken, ?_⟩
            rw [hloop, List.filter_cons_of_pos (by simp [hnamed])]
            rfl
          · refine .inr ⟨b, key, fault, a :: newjson, hbroken, ?_, hfault⟩
            rw [hloop]
            rfl
      | true =>
          cases hname : a.stringAt (narrow "name") with
          | none =>
              have hlacks : lacksText a (narrow "name") = true := by
                rw [lacksText, hname]
                rfl
              rw [firstBroken_cons_of_lacks es hobject
                (List.find?_cons_of_pos hlacks)]
              right
              rcases textMember_of_lacksText hobject hlacks with
                ⟨hfind, htext⟩ | ⟨hfind, ec, htext⟩
              · refine ⟨a, narrow "name", .undefined, [], rfl, ?_, ?_⟩
                · simp [htext]
                · exact iff_of_true rfl hfind
              · refine ⟨a, narrow "name", .thrown ec, [], rfl, ?_, ?_⟩
                · simp [htext]
                · exact iff_of_false nofun hfind
          | some raw =>
              have hlacks : ¬ lacksText a (narrow "name") = true := by
                rw [lacksText, hname]
                nofun
              have htext := textMember_of_stringAt hname
              have hnamed : isNamed bucketName a =
                  equalsIgnoreCase bucketName (encodeUtf16 raw) := by
                rw [isNamed, hname]
                rfl
              rw [firstBroken_cons_of_sound es fun _ =>
                List.find?_cons_of_neg hlacks]
              rcases ih with ⟨hbroken, hloop⟩ | ⟨b, key, fault, newjson,
                hbroken, hloop, hfault⟩
              · left
                refine ⟨hbroken, ?_⟩
                rw [hloop]
                cases hequal : equalsIgnoreCase bucketName (encodeUtf16 raw) <;>
                  simp [htext, hequal, hnamed]
              · right
                refine ⟨b, key, fault,
                  if equalsIgnoreCase bucketName (encodeUtf16 raw) then newjson
                  else a :: newjson, hbroken, ?_, hfault⟩
                rw [hloop]
                cases hequal : equalsIgnoreCase bucketName (encodeUtf16 raw) <;>
                  simp [htext, hequal]

/-- The entries of a file that can be opened and decoded.  A file that does not
exist has none. -/
def decodedEntries (openError : Option OpenError) (file : JsonFile) :
    Option (List Json) :=
  match openError, file with
  | some _, _ => none
  | none, .missing => some []
  | none, .malformed _ => none
  | none, .parsed doc =>
      if (firstBroken [narrow "name"] (entries doc)).isNone then
        some (entries doc)
      else none

/-- What pruning owes to a file: it takes out the entries of the bucket and
keeps all others in their order, or it fails and leaves the file as it is, as it
has to if the file cannot be decoded. -/
structure PruneKeeps (host : PruneHost) (bucket : Bucket) (file : JsonFile)
    (run : PruneRun) : Prop where
  decoded : ∀ es, decodedEntries host.openError file = some es →
    (run.result = true ∧ run.written =
      some (.array (es.filter fun a => !isNamed bucket.name a))) ∨
    (run.result = false ∧ run.written = none)
  undecoded : decodedEntries host.openError file = none →
    run.result = false ∧ run.written = none

/-- The file can be decoded, or it cannot be written either. -/
def PruneSafe (host : PruneHost) (file : JsonFile) : Prop :=
  (decodedEntries host.openError file).isSome = true ∨
    host.writeError ≠ none ∧ ¬ (host.openError = none ∧
      ∃ doc, file = .parsed doc ∧ StopsUndefined [narrow "name"] (entries doc))

theorem pruneBucket_of_read {host : PruneHost} {bucket : Bucket}
    {file : JsonFile} {newjson : List Json} {fault : Option Fault}
    (h : pruneRead host bucket file = (newjson, fault))
    (hfault : fault ≠ some .undefined) :
    pruneBucket host bucket file = some
      (if host.writeError = none then
        { result := true
          written := some (.array newjson)
          removed := some (host.appBuckets ++ wide "\\" ++ bucket.name) }
      else { result := false }) := by
  unfold pruneBucket
  rw [h]
  split
  · rename_i hundefined
    cases hundefined
    exact absurd rfl hfault
  · rename_i heq
    cases heq
    cases host.writeError with
    | none => rfl
    | some ec => rfl

theorem pruneKeeps_of_decoded {host : PruneHost} {bucket : Bucket}
    {file : JsonFile} {es : List Json}
    (hes : decodedEntries host.openError file = some es)
    (hread : pruneRead host bucket file =
      (es.filter fun a => !isNamed bucket.name a, none)) :
    ∃ run, pruneBucket host bucket file = some run ∧
      PruneKeeps host bucket file run := by
  refine ⟨_, pruneBucket_of_read hread nofun, ?_, ?_⟩
  · intro es' hes'
    rw [hes] at hes'
    cases hes'
    split
    · exact .inl ⟨rfl, rfl⟩
    · exact .inr ⟨rfl, rfl⟩
  · intro hnone
    rw [hes] at hnone
    cases hnone

theorem pruneKeeps_iff_of_undecoded {host : PruneHost} {bucket : Bucket}
    {file : JsonFile} {newjson : List Json} {fault : Option Fault}
    (hnone : decodedEntries host.openError file = none)
    (hread : pruneRead host bucket file = (newjson, fault))
    (hfault : fault ≠ some .undefined) :
    (∃ run, pruneBucket host bucket file = some run ∧
      PruneKeeps host bucket file run) ↔ host.writeError ≠ none := by
  rw [pruneBucket_of_read hread hfault]
  constructor
  · rintro ⟨run, hrun, hkeeps⟩ hwrite
    rw [if_pos hwrite] at hrun
    cases hrun
    cases (hkeeps.undecoded hnone).1
  · intro hwrite
    rw [if_neg hwrite]
    refine ⟨_, rfl, ?_, fun _ => ⟨rfl, rfl⟩⟩
    intro es hes
    rw [hnone] at hes
    cases hes

/-- Pruning keeps what it owes exactly if the file can be decoded or cannot be
written. -/
theorem pruneBucket_keeps_iff (host : PruneHost) (bucket : Bucket)
    (file : JsonFile) :
    (∃ run, pruneBucket host bucket file = some run ∧
      PruneKeeps host bucket file run) ↔ PruneSafe host file := by
  cases hopen : host.openError with
  | some e =>
      have hnone : decodedEntries host.openError file = none := by
        unfold decodedEntries
        rw [hopen]
      have hread : pruneRead host bucket file = ([], none) := by
        unfold pruneRead
        rw [hopen]
      rw [pruneKeeps_iff_of_undecoded hnone hread nofun, PruneSafe, hnone]
      simp [hopen]
  | none =>
      cases file with
      | missing =>
          have hes : decodedEntries host.openError .missing = some [] := by
            unfold decodedEntries
            rw [hopen]
          refine iff_of_true (pruneKeeps_of_decoded hes ?_) (.inl ?_)
          · unfold pruneRead
            rw [hopen]
            rfl
          · rw [hes]
            rfl
      | malformed what =>
          have hnone : decodedEntries host.openError (.malformed what) =
              none := by
            unfold decodedEntries
            rw [hopen]
          have hread : pruneRead host bucket (.malformed what) =
              ([], some (.thrown (ErrorCode.make ErrorCode.errGeneral
                what))) := by
            unfold pruneRead
            rw [hopen]
          rw [pruneKeeps_iff_of_undecoded hnone hread nofun, PruneSafe, hnone]
          simp
      | parsed doc =>
          have hread : pruneRead host bucket (.parsed doc) =
              pruneLoop bucket.name (entries doc) := by
            unfold pruneRead
            rw [hopen]
          have hes : decodedEntries host.openError (.parsed doc) =
              if (firstBroken [narrow "name"] (entries doc)).isNone then
                some (entries doc) else none := by
            unfold decodedEntries
            rw [hopen]
          rcases pruneLoop_cases bucket.name (entries doc) with
            ⟨hbroken, hloop⟩ | ⟨a, key, fault, newjson, hbroken, hloop, hfault⟩
          · rw [hbroken] at hes
            rw [hloop] at hread
            refine iff_of_true (pruneKeeps_of_decoded hes hread) (.inl ?_)
            rw [hes]
            rfl
          · have hnone : decodedEntries host.openError (.parsed doc) =
                none := by
              rw [hes, hbroken]
              rfl
            rw [hloop] at hread
            have hstops : StopsUndefined [narrow "name"] (entries doc) ↔
                fault = .undefined := by
              rw [hfault]
              constructor
              · rintro ⟨a', key', hbroken', hfind⟩
                rw [hbroken] at hbroken'
                cases hbroken'
                exact hfind
              · intro hfind
                exact ⟨a, key, hbroken, hfind⟩
            rw [PruneSafe, hnone]
            cases fault with
            | undefined =>
                refine iff_of_false ?_ ?_
                · rintro ⟨run, hrun, -⟩
                  unfold pruneBucket at hrun
                  rw [hread] at hrun
                  cases hrun
                · simp [hopen, hstops]
            | thrown ec =>
                rw [pruneKeeps_iff_of_undecoded hnone hread nofun]
                simp [hstops]

end Baulk.Pkg
