import Baulk.Pkg.BucketUpdater
import Mathlib.Data.List.Pairwise

/-!
# Changing the buckets of a profile

`BucketModifier` holds the profile in memory.  `Add` and `Del` change it there
and write it to the file.  An exception on the way is reported, and `Add` goes
on as if nothing had happened.
-/

namespace Baulk.Pkg

open Support (components)

def bucketKey : Bytes := narrow "bucket"

/-! ## Looking up a bucket -/

/-- What one call gets from its environment. -/
structure ModifierHost where
  /-- What `dump` throws, as it does on strings that are not UTF-8. -/
  dumpError : Option ErrorCode := none
  /-- How `AtomicWriteText` fails. -/
  writeError : Option ErrorCode := none
  /-- A floating-point number as an `int`. -/
  truncate : Bytes → Int := fun _ => 0

def getInt (host : ModifierHost) (json : Json) : Except Fault Int :=
  match json with
  | .number (.integer value) => .ok (Json.toInt value)
  | .number (.float literal) => .ok (host.truncate literal)
  | .boolean value => .ok (if value then 1 else 0)
  | json =>
      .error (.thrown (ErrorCode.make ErrorCode.errGeneral
        (wide "[json.exception.type_error.302] type must be number, but is " ++
          wide json.typeName)))

def intMember (host : ModifierHost) (b : Json) (key : Bytes) (dv : Int) :
    Except Fault Int :=
  match b.find key with
  | none => .ok dv
  | some value => getInt host value

/-- The bucket of an entry, as `GetBucket` reads it. -/
def readBucket (host : ModifierHost) (b : Json) (name : WString) :
    Except Fault Bucket := do
  let description ← textMember b (narrow "description")
  let url ← textMember b (narrow "url")
  let weights ← intMember host b (narrow "weights") 100
  let mode ← intMember host b (narrow "mode") 0
  return {
    name
    description := encodeUtf16 description
    url := encodeUtf16 url
    weights
    mode := if mode = 1 then .git else .github }

/-- The loop of `GetBucket`. -/
def getBucketLoop (host : ModifierHost) (bucketName : WString) :
    List Json → Except Fault (Option Bucket)
  | [] => .ok none
  | b :: rest =>
      match textMember b (narrow "name") with
      | .error fault => .error fault
      | .ok raw =>
          if equalsIgnoreCase bucketName (encodeUtf16 raw) then
            match readBucket host b (encodeUtf16 raw) with
            | .error fault => .error fault
            | .ok bucket => .ok (some bucket)
          else getBucketLoop host bucketName rest

/-- The profile after `meta["bucket"]`, which makes the member if there is
none. -/
def touched (doc : Json) : Except Fault Json :=
  match doc.find bucketKey with
  | some _ => .ok doc
  | none =>
      match doc.set bucketKey .null with
      | .ok doc => .ok doc
      | .error ec => .error (.thrown ec)

/-- The buckets of a profile: what a loop over the member `bucket` meets. -/
def bucketValues (doc : Json) : List Json :=
  match doc.find bucketKey with
  | some buckets => entries buckets
  | none => []

/-- `BucketModifier::GetBucket`: the bucket, if it returns true, and the profile
after it.  It fails only if its behaviour is undefined. -/
def getBucket (host : ModifierHost) (bucketName : WString) (doc : Json) :
    Option (Option Bucket × Json) :=
  match touched doc with
  | .error .undefined => none
  | .error (.thrown _) => some (none, doc)
  | .ok doc =>
      match getBucketLoop host bucketName (bucketValues doc) with
      | .error .undefined => none
      | .error (.thrown _) => some (none, doc)
      | .ok found => some (found, doc)

/-! ## Adding a bucket -/

def isUrlSeparator (c : WChar) : Bool :=
  c == 0x5C || c == 0x2F || c == 0x3A

/-- The name of the new bucket: the given one, the one in its address, or
`anonymous`. -/
def resolveName (bucket : Bucket) : WString :=
  let name :=
    if bucket.name.isEmpty then
      let uvv := components isUrlSeparator bucket.url
      if 2 < uvv.length then uvv.getD (uvv.length - 2) [] else []
    else bucket.name
  if name.isEmpty then wide "anonymous" else name

/-- An address that only git understands. -/
def isGitUrl (url : WString) : Bool :=
  (wide "git@").isPrefixOf url || (wide "ssh://").isPrefixOf url

/-- What the new bucket takes over from the one that it replaces. -/
def inherit (newBucket oldBucket : Bucket) : Bucket :=
  { newBucket with
    description :=
      if newBucket.description.isEmpty then oldBucket.description
      else newBucket.description
    weights :=
      if newBucket.weights = 0 then oldBucket.weights else newBucket.weights
    url := if newBucket.url.isEmpty then oldBucket.url else newBucket.url }

/-- The new bucket, with what it takes over and its defaults. -/
def newBucket (bucket : Bucket) (old : Option Bucket) : Bucket :=
  let fresh : Bucket :=
    { bucket with
      name := resolveName bucket
      mode := if isGitUrl bucket.url then .git else bucket.mode }
  let fresh := match old with
    | some oldBucket => inherit fresh oldBucket
    | none => fresh
  { fresh with
    description :=
      if fresh.description.isEmpty then fresh.name ++ wide " no description"
      else fresh.description
    weights := if fresh.weights = 0 then 99 else fresh.weights }

def BucketObserveMode.toInt : BucketObserveMode → Int
  | .github => 0
  | .git => 1
  | .other value => value

def BucketVariant.toInt : BucketVariant → Int
  | .native => 0
  | .scoop => 1
  | .other value => value

/-- The entry of a new bucket. -/
def bucketJson (bucket : Bucket) : Json :=
  let j := Json.null.setMember (narrow "description")
    (.string (encodeUtf8 bucket.description))
  let j := j.setMember (narrow "name") (.string (encodeUtf8 bucket.name))
  let j := j.setMember (narrow "url") (.string (encodeUtf8 bucket.url))
  let j := j.setMember (narrow "mode") (.number (.integer bucket.mode.toInt))
  let j := j.setMember (narrow "weights") (.number (.integer bucket.weights))
  j.setMember (narrow "variant") (.number (.integer bucket.variant.toInt))

/-- What the loop of `Add` and of `Del` collects: the entries of other buckets,
whether it met one of the bucket itself, and what stopped it. -/
structure KeepRun where
  buckets : List Json := []
  deleted : Bool := false
  fault : Option Fault := none

/-- The loop of `Add` and of `Del`. -/
def keepLoop (bucketName : WString) : List Json → KeepRun
  | [] => {}
  | bk :: rest =>
      match textMember bk (narrow "name") with
      | .error fault => { fault := some fault }
      | .ok raw =>
          let run := keepLoop bucketName rest
          if equalsIgnoreCase (encodeUtf16 raw) bucketName then
            { run with deleted := true }
          else { run with buckets := bk :: run.buckets }

/-- The profile in memory, and the one in the file. -/
structure ModifierState where
  doc : Json
  file : Json

/-- The result of a call, and the state after it. -/
structure ModifierRun where
  result : Int
  state : ModifierState

/-- The end of `Add` and of `Del`: the member is replaced and `Apply` writes the
profile.  It gives the state, and whether all went well: what is thrown is
caught by the callers, and a write that fails is reported by them. -/
def replaceBuckets (host : ModifierHost) (st : ModifierState)
    (buckets : List Json) : ModifierState × Option Bool :=
  match st.doc.set bucketKey (.array buckets) with
  | .error _ => (st, none)
  | .ok doc =>
      match host.dumpError, host.writeError with
      | some _, _ => ({ st with doc }, none)
      | none, some _ => ({ st with doc }, some false)
      | none, none => (⟨doc, doc⟩, some true)

/-- `BucketModifier::Add`, unless its behaviour is undefined. -/
def addBucket (host : ModifierHost) (bucket : Bucket) (replace : Bool)
    (st : ModifierState) : Option ModifierRun :=
  match getBucket host (resolveName bucket) st.doc with
  | none => none
  | some (old, doc) =>
      let st := { st with doc }
      if old.isSome && !replace then some ⟨1, st⟩
      else if bucket.url.isEmpty then some ⟨1, st⟩
      else
        let run := keepLoop (resolveName bucket) (bucketValues doc)
        match run.fault with
        | some .undefined => none
        | some (.thrown _) => some ⟨0, st⟩
        | none =>
            let (st, written) := replaceBuckets host st
              (run.buckets ++ [bucketJson (newBucket bucket old)])
            if written = some false then some ⟨1, st⟩ else some ⟨0, st⟩

/-! ## Deleting a bucket -/

/-- `BucketModifier::Del`, unless its behaviour is undefined.  Pruning the
bucket does not touch the profile. -/
def delBucket (host : ModifierHost) (bucket : Bucket) (st : ModifierState) :
    Option ModifierRun :=
  if bucket.name.isEmpty then some ⟨1, st⟩
  else
    let run := keepLoop bucket.name (bucketValues st.doc)
    match run.fault with
    | some .undefined => none
    | some (.thrown _) => some ⟨if run.deleted then 0 else 1, st⟩
    | none =>
        let (st, written) := replaceBuckets host st run.buckets
        if written = some false then some ⟨1, st⟩
        else some ⟨if run.deleted then 0 else 1, st⟩

/-! ## Calls -/

/-- A call.  Every command reads the profile again before it changes it. -/
inductive ModifierOp where
  | reload
  | add (bucket : Bucket) (replace : Bool)
  | del (bucket : Bucket)

/-- The bucket that a call names. -/
def ModifierOp.name : ModifierOp → Option WString
  | .reload => none
  | .add bucket _ => some (resolveName bucket)
  | .del bucket => some bucket.name

structure ModifierCall where
  op : ModifierOp
  host : ModifierHost := {}

def ModifierCall.run (call : ModifierCall) (st : ModifierState) :
    Option ModifierRun :=
  match call.op with
  | .reload => some ⟨0, ⟨st.file, st.file⟩⟩
  | .add bucket replace => addBucket call.host bucket replace st
  | .del bucket => delBucket call.host bucket st

/-! ## Profiles -/

/-- A bucket has a name, a description and an address. -/
def ValidBucket (b : Json) : Prop :=
  isObject b = true ∧ ∀ key ∈ [narrow "name", narrow "description",
    narrow "url"], (b.stringAt key).isSome = true

/-- The names of the buckets differ, also if case is ignored. -/
def DifferentNames (buckets : List Json) : Prop :=
  buckets.Pairwise fun a b =>
    equalsIgnoreCase (a.get (narrow "name")) (b.get (narrow "name")) = false

/-- All buckets of a profile are valid and their names differ. -/
structure ValidProfile (doc : Json) : Prop where
  object : isObject doc = true
  buckets : ∀ b ∈ bucketValues doc, ValidBucket b
  names : DifferentNames (bucketValues doc)

/-- The buckets that none of some names means. -/
def othersIn (names : List WString) (doc : Json) : List Json :=
  (bucketValues doc).filter fun b => names.all fun name => !isNamed name b

/-- An entry says what a bucket is. -/
structure Describes (b : Json) (bucket : Bucket) : Prop where
  name : b.get (narrow "name") = bucket.name
  description : b.get (narrow "description") = bucket.description
  url : b.get (narrow "url") = bucket.url
  mode : b.getAsInteger (narrow "mode") = some bucket.mode.toInt
  weights : b.getAsInteger (narrow "weights") = some bucket.weights
  variant : b.getAsInteger (narrow "variant") = some bucket.variant.toInt

/-- What a call owes to the profile. -/
structure ModifierCall.Keeps (call : ModifierCall) (st : ModifierState)
    (run : ModifierRun) : Prop where
  /-- The names of the buckets stay different. -/
  doc : ValidProfile run.state.doc
  file : ValidProfile run.state.file
  /-- Other buckets keep their content and their order. -/
  others : ∀ name, call.op.name = some name →
    othersIn [name] run.state.doc = othersIn [name] st.doc
  written : run.state.file = st.file ∨ run.state.file = run.state.doc
  /-- `Add` returns 0 only if the new bucket is in the file. -/
  added : ∀ bucket replace, call.op = .add bucket replace → run.result = 0 →
    ∃ old doc, getBucket call.host (resolveName bucket) st.doc =
        some (old, doc) ∧
      ∃ b ∈ bucketValues run.state.file, Describes b (newBucket bucket old)
  /-- Without `replace` a bucket that exists stays. -/
  existing : ∀ bucket, call.op = .add bucket false →
    (∃ b ∈ bucketValues st.doc, isNamed (resolveName bucket) b = true) →
    run.state = st
  /-- With `replace` the new bucket takes over what is not given. -/
  inherits : ∀ bucket b, call.op = .add bucket true →
    b ∈ bucketValues st.doc → isNamed (resolveName bucket) b = true →
    bucket.url = [] ∨ bucket.description = [] →
    ∃ b' ∈ bucketValues run.state.doc,
      isNamed (resolveName bucket) b' = true ∧
      (bucket.url = [] → b'.get (narrow "url") = b.get (narrow "url")) ∧
      (bucket.description = [] →
        b'.get (narrow "description") = b.get (narrow "description")) ∧
      (call.host.writeError = none → run.result = 0)

/-- A member that is missing or converts to an `int`. -/
def numeric (b : Json) (key : Bytes) : Bool :=
  match b.find key with
  | none => true
  | some (.number _) => true
  | some (.boolean _) => true
  | _ => false

/-- What `Add` needs of the bucket that it replaces: an address has to be given,
and so has a description, if the old one is empty, and the numbers of the old
bucket have to be numbers where the call depends on finding it. -/
structure ReplaceSafe (bucket : Bucket) (replace : Bool) (b : Json) : Prop where
  url : replace = true → bucket.url ≠ []
  description : replace = true → bucket.description = [] →
    b.get (narrow "description") ≠ []
  numbers : replace = false ∧ bucket.url ≠ [] ∨
      replace = true ∧ bucket.description = [] →
    numeric b (narrow "weights") = true ∧ numeric b (narrow "mode") = true

/-- What `Add` needs: the profile can be dumped, the texts of the bucket come
back from UTF-8, and the bucket that it replaces does not stop it. -/
structure AddSafe (host : ModifierHost) (bucket : Bucket) (replace : Bool)
    (doc : Json) : Prop where
  dump : host.dumpError = none
  name : Paired (resolveName bucket)
  description : Paired bucket.description
  url : Paired bucket.url
  old : ∀ b ∈ bucketValues doc, isNamed (resolveName bucket) b = true →
    ReplaceSafe bucket replace b

def ModifierCall.Safe (call : ModifierCall) (st : ModifierState) : Prop :=
  match call.op with
  | .reload => True
  | .add bucket replace => AddSafe call.host bucket replace st.doc
  | .del _ => True

/-! ## The loops on a valid profile -/

theorem ValidBucket.stringAt_name {b : Json} (h : ValidBucket b) :
    ∃ raw, b.stringAt (narrow "name") = some raw ∧
      b.get (narrow "name") = encodeUtf16 raw := by
  obtain ⟨raw, hraw⟩ := Option.isSome_iff_exists.mp
    (h.2 (narrow "name") (by simp))
  refine ⟨raw, hraw, ?_⟩
  exact Json.get_of_find [] (stringAt_eq_some_iff.mp hraw)

theorem isNamed_eq {b : Json} (h : ValidBucket b) (name : WString) :
    isNamed name b = equalsIgnoreCase name (b.get (narrow "name")) := by
  obtain ⟨raw, hraw, hget⟩ := h.stringAt_name
  rw [isNamed, hraw, hget]
  rfl

theorem keepLoop_of_valid (bucketName : WString) {es : List Json}
    (h : ∀ b ∈ es, ValidBucket b) :
    keepLoop bucketName es =
      { buckets := es.filter fun b => !isNamed bucketName b
        deleted := es.any (isNamed bucketName)
        fault := none } := by
  induction es with
  | nil => rfl
  | cons b es ih =>
      rw [List.forall_mem_cons] at h
      obtain ⟨raw, hraw, hget⟩ := h.1.stringAt_name
      have hnamed : equalsIgnoreCase (encodeUtf16 raw) bucketName =
          isNamed bucketName b := by
        rw [isNamed_eq h.1, hget, equalsIgnoreCase_comm]
      rw [keepLoop, textMember_of_stringAt hraw, ih h.2]
      dsimp only
      rw [hnamed]
      cases hb : isNamed bucketName b with
      | true => simp [hb]
      | false => simp [hb]

/-- `GetBucket` reads the bucket of the name. -/
theorem getBucketLoop_of_valid (host : ModifierHost) (bucketName : WString)
    {es : List Json} (h : ∀ b ∈ es, ValidBucket b) :
    (es.find? (isNamed bucketName) = none ∧
      getBucketLoop host bucketName es = .ok none) ∨
    ∃ b, es.find? (isNamed bucketName) = some b ∧
      getBucketLoop host bucketName es =
        (readBucket host b (b.get (narrow "name"))).map some := by
  induction es with
  | nil => exact .inl ⟨rfl, rfl⟩
  | cons b es ih =>
      rw [List.forall_mem_cons] at h
      obtain ⟨raw, hraw, hget⟩ := h.1.stringAt_name
      have hnamed : equalsIgnoreCase bucketName (encodeUtf16 raw) =
          isNamed bucketName b := by
        rw [isNamed_eq h.1, hget]
      rw [getBucketLoop, textMember_of_stringAt hraw]
      dsimp only
      rw [hnamed, List.find?_cons]
      cases hb : isNamed bucketName b with
      | false => exact ih h.2
      | true =>
          refine .inr ⟨b, rfl, ?_⟩
          rw [if_pos rfl, hget]
          cases readBucket host b (encodeUtf16 raw) with
          | error fault => rfl
          | ok bucket => rfl

theorem intMember_cases (host : ModifierHost) (b : Json) (key : Bytes)
    (dv : Int) :
    (∃ value, intMember host b key dv = .ok value) ∨
      numeric b key = false ∧
        ∃ ec, intMember host b key dv = .error (.thrown ec) := by
  unfold intMember numeric
  cases b.find key with
  | none => exact .inl ⟨_, rfl⟩
  | some value =>
      cases value with
      | number n =>
          cases n with
          | integer value => exact .inl ⟨_, rfl⟩
          | float literal => exact .inl ⟨_, rfl⟩
      | boolean value => exact .inl ⟨_, rfl⟩
      | null => exact .inr ⟨rfl, _, rfl⟩
      | string value => exact .inr ⟨rfl, _, rfl⟩
      | array elements => exact .inr ⟨rfl, _, rfl⟩
      | object keys nodup value => exact .inr ⟨rfl, _, rfl⟩

theorem readBucket_cases (host : ModifierHost) {b : Json} (h : ValidBucket b)
    (name : WString) :
    (∃ bucket, readBucket host b name = .ok bucket ∧
      bucket.description = b.get (narrow "description") ∧
      bucket.url = b.get (narrow "url")) ∨
    (¬ (numeric b (narrow "weights") = true ∧
        numeric b (narrow "mode") = true) ∧
      ∃ ec, readBucket host b name = .error (.thrown ec)) := by
  obtain ⟨description, hdescription⟩ := Option.isSome_iff_exists.mp
    (h.2 (narrow "description") (by simp))
  obtain ⟨url, hurl⟩ := Option.isSome_iff_exists.mp
    (h.2 (narrow "url") (by simp))
  unfold readBucket
  rw [textMember_of_stringAt hdescription, textMember_of_stringAt hurl,
    Json.get_of_find [] (stringAt_eq_some_iff.mp hdescription),
    Json.get_of_find [] (stringAt_eq_some_iff.mp hurl)]
  rcases intMember_cases host b (narrow "weights") 100 with
    ⟨weights, hweights⟩ | ⟨hnumeric, ec, hweights⟩
  · rw [hweights]
    rcases intMember_cases host b (narrow "mode") 0 with
      ⟨mode, hmode⟩ | ⟨hnumeric, ec, hmode⟩
    · rw [hmode]
      exact .inl ⟨_, rfl, rfl, rfl⟩
    · rw [hmode, hnumeric]
      exact .inr ⟨nofun, ec, rfl⟩
  · rw [hweights, hnumeric]
    exact .inr ⟨nofun, ec, rfl⟩

/-! ## The profile as a whole -/

theorem isMap_of_isObject {doc : Json} (h : isObject doc = true) :
    doc.IsMap := by
  cases doc with
  | object keys nodup value => exact .object keys nodup value
  | null => cases h
  | boolean value => cases h
  | number value => cases h
  | string value => cases h
  | array elements => cases h

theorem isObject_setMember {doc : Json} (h : isObject doc = true) (key : Bytes)
    (v : Json) : isObject (doc.setMember key v) = true := by
  cases doc with
  | object keys nodup value => rfl
  | null => cases h
  | boolean value => cases h
  | number value => cases h
  | string value => cases h
  | array elements => cases h

theorem bucketValues_setMember {doc : Json} (h : isObject doc = true)
    (buckets : List Json) :
    bucketValues (doc.setMember bucketKey (.array buckets)) = buckets := by
  rw [bucketValues, (isMap_of_isObject h).find_setMember, if_pos rfl]
  simp [entries, Json.elements, Function.comp_def]

/-- Looking up the member `bucket` leaves the buckets as they are, and the whole
profile if there are any. -/
theorem touched_of_object {doc : Json} (h : isObject doc = true) :
    ∃ doc', touched doc = .ok doc' ∧ isObject doc' = true ∧
      bucketValues doc' = bucketValues doc ∧
      (bucketValues doc ≠ [] → doc' = doc) := by
  cases hfind : doc.find bucketKey with
  | some buckets =>
      refine ⟨doc, ?_, h, rfl, fun _ => rfl⟩
      unfold touched
      rw [hfind]
  | none =>
      have hmap := isMap_of_isObject h
      have hempty : bucketValues doc = [] := by
        rw [bucketValues, hfind]
      refine ⟨doc.setMember bucketKey .null, ?_, isObject_setMember h _ _, ?_,
        fun hne => absurd hempty hne⟩
      · unfold touched
        rw [hfind, Json.set_eq_ok_iff.mpr ⟨hmap, rfl⟩]
      · rw [hempty, bucketValues, hmap.find_setMember, if_pos rfl]
        rfl

/-- The end of a call changes the buckets in memory, and in the file if it can
be written. -/
theorem replaceBuckets_of_object (host : ModifierHost) (st : ModifierState)
    (h : isObject st.doc = true) (buckets : List Json) :
    ∃ file written, replaceBuckets host st buckets =
        (⟨st.doc.setMember bucketKey (.array buckets), file⟩, written) ∧
      (file = st.file ∨
        file = st.doc.setMember bucketKey (.array buckets)) ∧
      (host.dumpError = none → written ≠ some false →
        file = st.doc.setMember bucketKey (.array buckets)) ∧
      (host.writeError = none → written ≠ some false) := by
  unfold replaceBuckets
  rw [Json.set_eq_ok_iff.mpr ⟨isMap_of_isObject h, rfl⟩]
  dsimp only
  cases host.dumpError with
  | some ec => exact ⟨_, _, rfl, .inl rfl, nofun, fun _ => nofun⟩
  | none =>
      cases host.writeError with
      | some ec =>
          exact ⟨_, _, rfl, .inl rfl, fun _ h => absurd rfl h, nofun⟩
      | none => exact ⟨_, _, rfl, .inr rfl, fun _ _ => rfl, fun _ => nofun⟩

/-! ## One call -/

instance : Std.Symm fun a b : Json =>
    equalsIgnoreCase (a.get (narrow "name")) (b.get (narrow "name")) = false where
  symm a b h := by rwa [equalsIgnoreCase_comm]

theorem isNamed_unique {doc : Json} (h : ValidProfile doc) {name : WString}
    {a b : Json} (ha : a ∈ bucketValues doc) (hb : b ∈ bucketValues doc)
    (hna : isNamed name a = true) (hnb : isNamed name b = true) : a = b := by
  rw [isNamed_eq (h.buckets a ha)] at hna
  rw [isNamed_eq (h.buckets b hb), equalsIgnoreCase_comm,
    equalsIgnoreCase_congr hna, equalsIgnoreCase_comm] at hnb
  by_contra hne
  rw [List.Pairwise.forall h.names ha hb hne] at hnb
  cases hnb

/-- What `Add` knows of a bucket that it found. -/
structure FoundIn (doc : Json) (name : WString) (old : Bucket) (b : Json) :
    Prop where
  mem : b ∈ bucketValues doc
  named : isNamed name b = true
  description : old.description = b.get (narrow "description")
  url : old.url = b.get (narrow "url")

/-- `GetBucket` on a valid profile: it finds a bucket of the name, unless its
numbers are no numbers. -/
theorem getBucket_of_valid (host : ModifierHost) (name : WString) {doc : Json}
    (h : ValidProfile doc) :
    ∃ old doc', getBucket host name doc = some (old, doc') ∧
      isObject doc' = true ∧ bucketValues doc' = bucketValues doc ∧
      (bucketValues doc ≠ [] → doc' = doc) ∧
      (∀ bucket, old = some bucket → ∃ b, FoundIn doc name bucket b) ∧
      (∀ b ∈ bucketValues doc, isNamed name b = true →
        numeric b (narrow "weights") = true →
        numeric b (narrow "mode") = true →
        ∃ bucket, old = some bucket ∧ FoundIn doc name bucket b) := by
  obtain ⟨doc', htouched, hobject, hvalues, hsame⟩ := touched_of_object h.object
  unfold getBucket
  rw [htouched]
  dsimp only
  rw [hvalues]
  rcases getBucketLoop_of_valid host name h.buckets with
    ⟨hfind, hloop⟩ | ⟨b, hfind, hloop⟩
  · rw [hloop]
    refine ⟨none, doc', rfl, hobject, hvalues, hsame, nofun, ?_⟩
    intro b hb hnamed
    exact absurd hnamed (List.find?_eq_none.mp hfind b hb)
  · rw [hloop]
    have hb := List.mem_of_find?_eq_some hfind
    have hnamed := List.find?_some hfind
    rcases readBucket_cases host (h.buckets b hb) (b.get (narrow "name")) with
      ⟨bucket, hread, hdescription, hurl⟩ | ⟨hnumeric, ec, hread⟩
    · rw [hread]
      have hfound : FoundIn doc name bucket b :=
        ⟨hb, hnamed, hdescription, hurl⟩
      refine ⟨some bucket, doc', rfl, hobject, hvalues, hsame, ?_, ?_⟩
      · rintro _ ⟨⟩
        exact ⟨b, hfound⟩
      · intro b' hb' hnamed' _ _
        rw [isNamed_unique h hb' hb hnamed' hnamed]
        exact ⟨bucket, rfl, hfound⟩
    · rw [hread]
      refine ⟨none, doc', rfl, hobject, hvalues, hsame, nofun, ?_⟩
      intro b' hb' hnamed' hweights hmode
      rw [isNamed_unique h hb' hb hnamed' hnamed] at hweights hmode
      exact absurd ⟨hweights, hmode⟩ hnumeric

theorem describes_bucketJson {bucket : Bucket} (hname : Paired bucket.name)
    (hdescription : Paired bucket.description) (hurl : Paired bucket.url) :
    Describes (bucketJson bucket) bucket where
  name := (Json.get_of_find [] rfl).trans hname.decode
  description := (Json.get_of_find [] rfl).trans hdescription.decode
  url := (Json.get_of_find [] rfl).trans hurl.decode
  mode := rfl
  weights := rfl
  variant := rfl

theorem validBucket_bucketJson (bucket : Bucket) :
    ValidBucket (bucketJson bucket) := by
  refine ⟨rfl, ?_⟩
  simp only [List.forall_mem_cons]
  exact ⟨rfl, rfl, rfl, nofun⟩

theorem paired_ite {c : Prop} [Decidable c] {s t : WString} (hs : Paired s)
    (ht : Paired t) : Paired (if c then s else t) := by
  split
  · exact hs
  · exact ht

theorem paired_newBucket {bucket : Bucket} {old : Option Bucket}
    (hname : Paired (resolveName bucket))
    (hdescription : Paired bucket.description) (hurl : Paired bucket.url)
    (hold : ∀ b, old = some b → Paired b.description ∧ Paired b.url) :
    Paired (newBucket bucket old).description ∧
      Paired (newBucket bucket old).url := by
  have hdefault : Paired (resolveName bucket ++ wide " no description") :=
    hname.append (by decide)
  cases old with
  | none => exact ⟨paired_ite hdefault hdescription, hurl⟩
  | some b =>
      obtain ⟨hdescription', hurl'⟩ := hold b rfl
      exact ⟨paired_ite hdefault (paired_ite hdescription' hdescription),
        paired_ite hurl' hurl⟩

theorem newBucket_name (bucket : Bucket) (old : Option Bucket) :
    (newBucket bucket old).name = resolveName bucket := by
  cases old with
  | none => rfl
  | some b => rfl

theorem validProfile_setMember {doc : Json} (h : isObject doc = true)
    {es : List Json} (hvalid : ∀ b ∈ es, ValidBucket b)
    (hnames : DifferentNames es) :
    ValidProfile (doc.setMember bucketKey (.array es)) where
  object := isObject_setMember h _ _
  buckets := by rwa [bucketValues_setMember h]
  names := by rwa [bucketValues_setMember h]

theorem ValidProfile.congr {doc doc' : Json} (h : ValidProfile doc)
    (hobject : isObject doc' = true)
    (hvalues : bucketValues doc' = bucketValues doc) : ValidProfile doc' where
  object := hobject
  buckets := by
    rw [hvalues]
    exact h.buckets
  names := by
    rw [hvalues]
    exact h.names

theorem othersIn_single (name : WString) (doc : Json) :
    othersIn [name] doc =
      (bucketValues doc).filter fun b => !isNamed name b := by
  simp [othersIn]

theorem differentNames_replace {es : List Json} {name : WString} {b : Json}
    (hvalid : ∀ a ∈ es, ValidBucket a) (hnames : DifferentNames es)
    (hname : b.get (narrow "name") = name) :
    DifferentNames ((es.filter fun a => !isNamed name a) ++ [b]) := by
  refine List.pairwise_append.mpr ⟨hnames.filter _, List.pairwise_singleton _ _,
    ?_⟩
  intro a ha b' hb'
  rw [List.mem_filter] at ha
  rw [List.mem_singleton.mp hb', hname, equalsIgnoreCase_comm,
    ← isNamed_eq (hvalid a ha.1)]
  simpa using ha.2

theorem keeps_of_refused {host : ModifierHost} {bucket : Bucket} {replace : Bool}
    {st : ModifierState} {doc' : Json} (hdoc : ValidProfile st.doc)
    (hfile : ValidProfile st.file) (hobject : isObject doc' = true)
    (hvalues : bucketValues doc' = bucketValues st.doc)
    (hsame : bucketValues st.doc ≠ [] → doc' = st.doc)
    (hreplace : replace = true →
      ∀ b ∈ bucketValues st.doc, isNamed (resolveName bucket) b = false) :
    ModifierCall.Keeps ⟨.add bucket replace, host⟩ st
      ⟨1, { st with doc := doc' }⟩ where
  doc := hdoc.congr hobject hvalues
  file := hfile
  others name _ := by
    rw [othersIn, othersIn, hvalues]
  written := .inl rfl
  added _ _ _ hresult := by cases hresult
  existing bucket' hop := by
    rintro ⟨b, hb, -⟩
    rw [hsame (List.ne_nil_of_mem hb)]
  inherits bucket' b hop hb hnamed := by
    cases hop
    rw [hreplace rfl b hb] at hnamed
    cases hnamed

theorem newBucket_description {bucket old : Bucket}
    (hempty : bucket.description = []) (hold : old.description ≠ []) :
    (newBucket bucket (some old)).description = old.description := by
  simp [newBucket, inherit, hempty, hold]

theorem keeps_of_replaced {host : ModifierHost} {bucket : Bucket}
    {replace : Bool} {st : ModifierState} {old : Option Bucket}
    {doc' file : Json} {result : Int}
    (hdoc : ValidProfile st.doc) (hfile : ValidProfile st.file)
    (hsafe : AddSafe host bucket replace st.doc)
    (hget : getBucket host (resolveName bucket) st.doc = some (old, doc'))
    (hobject : isObject doc' = true)
    (hfound : ∀ b, old = some b → ∃ e, FoundIn st.doc (resolveName bucket) b e)
    (hexists : ∀ b ∈ bucketValues st.doc, isNamed (resolveName bucket) b = true →
      numeric b (narrow "weights") = true → numeric b (narrow "mode") = true →
      replace = true ∧ ∃ o, old = some o ∧ FoundIn st.doc (resolveName bucket) o b)
    (hurl : bucket.url ≠ [])
    {es : List Json} (hes : es = ((bucketValues st.doc).filter fun b =>
      !isNamed (resolveName bucket) b) ++ [bucketJson (newBucket bucket old)])
    (hwritten : file = st.file ∨ file = doc'.setMember bucketKey (.array es))
    (hzero : result = 0 → file = doc'.setMember bucketKey (.array es))
    (hresult : host.writeError = none → result = 0) :
    ModifierCall.Keeps ⟨.add bucket replace, host⟩ st
      ⟨result, ⟨doc'.setMember bucketKey (.array es), file⟩⟩ := by
  have hold : ∀ b, old = some b → Paired b.description ∧ Paired b.url := by
    intro b hb
    obtain ⟨e, he⟩ := hfound b hb
    rw [he.description, he.url]
    exact ⟨Json.paired_get _ _ rfl, Json.paired_get _ _ rfl⟩
  have hpaired :=
    paired_newBucket hsafe.name hsafe.description hsafe.url hold
  have hname : Paired (newBucket bucket old).name := by
    rw [newBucket_name]
    exact hsafe.name
  have hdescribes := describes_bucketJson hname hpaired.1 hpaired.2
  have hvalues := bucketValues_setMember hobject es
  have hmem : bucketJson (newBucket bucket old) ∈ es := by
    rw [hes]
    exact List.mem_append_right _ (List.mem_singleton_self _)
  have hnew : isNamed (resolveName bucket)
      (bucketJson (newBucket bucket old)) = true := by
    rw [isNamed_eq (validBucket_bucketJson _), hdescribes.name, newBucket_name,
      equalsIgnoreCase_iff]
  have hvalid : ValidProfile (doc'.setMember bucketKey (.array es)) := by
    refine validProfile_setMember hobject ?_ ?_
    · rw [hes, List.forall_mem_append, List.forall_mem_singleton]
      exact ⟨fun b hb => hdoc.buckets b (List.mem_of_mem_filter hb),
        validBucket_bucketJson _⟩
    · rw [hes]
      exact differentNames_replace hdoc.buckets hdoc.names
        (hdescribes.name.trans (newBucket_name _ _))
  refine { doc := hvalid, file := ?_, others := ?_, written := hwritten,
           added := ?_, existing := ?_, inherits := ?_ }
  · rcases hwritten with hf | hf
    · rwa [hf]
    · rwa [hf]
  · rintro name ⟨⟩
    rw [othersIn_single, othersIn_single, hvalues, hes, List.filter_append,
      List.filter_filter]
    simp [hnew]
  · rintro _ _ ⟨⟩ h0
    refine ⟨old, doc', hget, bucketJson (newBucket bucket old), ?_, hdescribes⟩
    rw [hzero h0, hvalues]
    exact hmem
  · rintro _ ⟨⟩ ⟨b, hb, hnamed⟩
    obtain ⟨hweights, hmode⟩ := (hsafe.old b hb hnamed).numbers
      (.inl ⟨rfl, hurl⟩)
    cases (hexists b hb hnamed hweights hmode).1
  · rintro _ b ⟨⟩ hb hnamed hempty
    have hsafeOld := hsafe.old b hb hnamed
    have hdesc : bucket.description = [] := hempty.resolve_left hurl
    obtain ⟨hweights, hmode⟩ := hsafeOld.numbers (.inr ⟨rfl, hdesc⟩)
    obtain ⟨-, o, rfl, ho⟩ := hexists b hb hnamed hweights hmode
    refine ⟨_, by rwa [hvalues], hnew, fun h => absurd h hurl, fun _ => ?_,
      hresult⟩
    rw [hdescribes.description, newBucket_description hdesc, ho.description]
    rw [ho.description]
    exact hsafeOld.description rfl hdesc

theorem addBucket_keeps {host : ModifierHost} {bucket : Bucket} {replace : Bool}
    {st : ModifierState} (hdoc : ValidProfile st.doc)
    (hfile : ValidProfile st.file)
    (hsafe : AddSafe host bucket replace st.doc) :
    ∃ run, addBucket host bucket replace st = some run ∧
      ModifierCall.Keeps ⟨.add bucket replace, host⟩ st run := by
  obtain ⟨old, doc', hget, hobject, hvalues, hsame, hfound, hnumeric⟩ :=
    getBucket_of_valid host (resolveName bucket) hdoc
  unfold addBucket
  rw [hget]
  dsimp only
  split
  · rename_i hrefused
    rw [Bool.and_eq_true, Bool.not_eq_true'] at hrefused
    refine ⟨_, rfl, keeps_of_refused hdoc hfile hobject hvalues hsame ?_⟩
    rw [hrefused.2]
    nofun
  · rename_i haccepted
    split
    · rename_i hurl
      refine ⟨_, rfl, keeps_of_refused hdoc hfile hobject hvalues hsame ?_⟩
      intro hreplace b hb
      by_contra hnamed
      exact (hsafe.old b hb (by simpa using hnamed)).url hreplace
        (List.isEmpty_iff.mp hurl)
    · rename_i hurl
      rw [List.isEmpty_iff] at hurl
      rw [hvalues, keepLoop_of_valid _ hdoc.buckets]
      dsimp only
      obtain ⟨file, written, hrun, hwritten, hzero, hresult⟩ :=
        replaceBuckets_of_object host { st with doc := doc' } hobject
          (((bucketValues st.doc).filter fun b =>
            !isNamed (resolveName bucket) b) ++
              [bucketJson (newBucket bucket old)])
      have hexists : ∀ b ∈ bucketValues st.doc,
          isNamed (resolveName bucket) b = true →
          numeric b (narrow "weights") = true →
          numeric b (narrow "mode") = true → replace = true ∧
            ∃ o, old = some o ∧ FoundIn st.doc (resolveName bucket) o b := by
        intro b hb hnamed hweights hmode
        obtain ⟨o, rfl, ho⟩ := hnumeric b hb hnamed hweights hmode
        exact ⟨by simpa using haccepted, o, rfl, ho⟩
      rw [hrun]
      dsimp only
      split
      · rename_i hfailed
        exact ⟨_, rfl, keeps_of_replaced hdoc hfile hsafe hget hobject hfound
          hexists hurl rfl hwritten nofun
          fun hnone => absurd hfailed (hresult hnone)⟩
      · rename_i hdone
        exact ⟨_, rfl, keeps_of_replaced hdoc hfile hsafe hget hobject hfound
          hexists hurl rfl hwritten (fun _ => hzero hsafe.dump hdone)
          fun _ => rfl⟩

theorem delBucket_keeps {host : ModifierHost} {bucket : Bucket}
    {st : ModifierState} (hdoc : ValidProfile st.doc)
    (hfile : ValidProfile st.file) :
    ∃ run, delBucket host bucket st = some run ∧
      ModifierCall.Keeps ⟨.del bucket, host⟩ st run := by
  unfold delBucket
  split
  · exact ⟨_, rfl, {
      doc := hdoc, file := hfile, others := fun _ _ => rfl,
      written := .inl rfl, added := nofun, existing := nofun,
      inherits := nofun }⟩
  · rw [keepLoop_of_valid _ hdoc.buckets]
    dsimp only
    obtain ⟨file, written, hrun, hwritten, -⟩ :=
      replaceBuckets_of_object host st hdoc.object
        ((bucketValues st.doc).filter fun b => !isNamed bucket.name b)
    have hvalid : ValidProfile (st.doc.setMember bucketKey (.array
        ((bucketValues st.doc).filter fun b => !isNamed bucket.name b))) :=
      validProfile_setMember hdoc.object
        (fun b hb => hdoc.buckets b (List.mem_of_mem_filter hb))
        (hdoc.names.filter _)
    have hkeeps : ∀ result, ModifierCall.Keeps ⟨.del bucket, host⟩ st
        ⟨result, ⟨st.doc.setMember bucketKey (.array
          ((bucketValues st.doc).filter fun b => !isNamed bucket.name b)),
          file⟩⟩ := by
      intro result
      refine { doc := hvalid, file := ?_, others := ?_, written := hwritten,
               added := nofun, existing := nofun, inherits := nofun }
      · rcases hwritten with hf | hf
        · rwa [hf]
        · rwa [hf]
      · rintro name ⟨⟩
        rw [othersIn_single, othersIn_single,
          bucketValues_setMember hdoc.object, List.filter_filter]
        simp
    rw [hrun]
    dsimp only
    split
    · exact ⟨_, rfl, hkeeps _⟩
    · exact ⟨_, rfl, hkeeps _⟩

theorem ModifierCall.keeps_of_safe {call : ModifierCall} {st : ModifierState}
    (hdoc : ValidProfile st.doc) (hfile : ValidProfile st.file)
    (hsafe : call.Safe st) :
    ∃ run, call.run st = some run ∧ call.Keeps st run := by
  obtain ⟨op, host⟩ := call
  cases op with
  | reload =>
      exact ⟨_, rfl, {
        doc := hfile, file := hfile, others := nofun, written := .inl rfl,
        added := nofun, existing := nofun, inherits := nofun }⟩
  | add bucket replace => exact addBucket_keeps hdoc hfile hsafe
  | del bucket => exact delBucket_keeps hdoc hfile

/-! ## Every sequence of calls -/

/-- Every call of a run is defined and keeps a contract. -/
def EveryCall (p : ModifierCall → ModifierState → ModifierRun → Prop) :
    List ModifierCall → ModifierState → Prop
  | [], _ => True
  | call :: calls, st =>
      ∃ run, call.run st = some run ∧ p call st run ∧
        EveryCall p calls run.state

/-- Every call of a run gets what it needs. -/
def SafeCalls : List ModifierCall → ModifierState → Prop
  | [], _ => True
  | call :: calls, st =>
      call.Safe st ∧ ∀ run, call.run st = some run → SafeCalls calls run.state

/-- The names that the calls use. -/
def usedNames (calls : List ModifierCall) : List WString :=
  calls.filterMap fun call => call.op.name

/-- A state of a run: the profiles are valid, and the buckets that no call names
are those of the profile at the start. -/
structure Preserved (names : List WString) (start : Json) (st : ModifierState) :
    Prop where
  doc : ValidProfile st.doc
  file : ValidProfile st.file
  docOthers : othersIn names st.doc = othersIn names start
  fileOthers : othersIn names st.file = othersIn names start

theorem othersIn_of_mem {names : List WString} {name : WString}
    (h : name ∈ names) {doc doc' : Json}
    (hothers : othersIn [name] doc' = othersIn [name] doc) :
    othersIn names doc' = othersIn names doc := by
  have hfilter : ∀ d : Json, othersIn names d =
      (othersIn [name] d).filter fun b => names.all fun n => !isNamed n b := by
    intro d
    rw [othersIn_single, List.filter_filter, othersIn]
    refine List.filter_congr fun b _ => ?_
    rw [Bool.eq_iff_iff, Bool.and_eq_true]
    exact ⟨fun hall => ⟨hall, List.all_eq_true.mp hall name h⟩, And.left⟩
  rw [hfilter, hfilter, hothers]

theorem Preserved.step {names : List WString} {doc : Json} {st : ModifierState}
    (h : Preserved names doc st) {call : ModifierCall} {run : ModifierRun}
    (hrun : call.run st = some run) (hkeeps : call.Keeps st run)
    (hnames : ∀ name, call.op.name = some name → name ∈ names) :
    Preserved names doc run.state := by
  have hdoc : othersIn names run.state.doc = othersIn names doc := by
    cases hname : call.op.name with
    | some name =>
        rw [othersIn_of_mem (hnames name hname) (hkeeps.others name hname)]
        exact h.docOthers
    | none =>
        obtain ⟨op, host⟩ := call
        cases op with
        | reload =>
            cases hrun
            exact h.fileOthers
        | add bucket replace => cases hname
        | del bucket => cases hname
  refine ⟨hkeeps.doc, hkeeps.file, hdoc, ?_⟩
  rcases hkeeps.written with hfile | hfile
  · rw [hfile]
    exact h.fileOthers
  · rw [hfile]
    exact hdoc

theorem everyCall_of_preserved {names : List WString} {doc : Json}
    {calls : List ModifierCall} {st : ModifierState}
    (h : Preserved names doc st) (hsafe : SafeCalls calls st)
    (hnames : ∀ call ∈ calls, ∀ name, call.op.name = some name →
      name ∈ names) :
    EveryCall (fun call st run =>
      call.Keeps st run ∧ Preserved names doc run.state) calls st := by
  induction calls generalizing st with
  | nil => trivial
  | cons call calls ih =>
      rw [List.forall_mem_cons] at hnames
      obtain ⟨run, hrun, hkeeps⟩ :=
        ModifierCall.keeps_of_safe h.doc h.file hsafe.1
      have hnext := h.step hrun hkeeps hnames.1
      exact ⟨run, hrun, ⟨hkeeps, hnext⟩,
        ih hnext (hsafe.2 run hrun) hnames.2⟩

/-- From a valid profile every call keeps what it owes, as long as each gets what
it needs: the profiles stay valid, and the buckets that no call names keep their
content and their order. -/
theorem modifierCalls_keep {doc : Json} (hdoc : ValidProfile doc)
    {calls : List ModifierCall} (hsafe : SafeCalls calls ⟨doc, doc⟩) :
    EveryCall (fun call st run => call.Keeps st run ∧
      Preserved (usedNames calls) doc run.state) calls ⟨doc, doc⟩ := by
  refine everyCall_of_preserved ⟨hdoc, hdoc, rfl, rfl⟩ hsafe ?_
  intro call hcall name hname
  exact List.mem_filterMap.mpr ⟨call, hcall, hname⟩

def extrasBucket : Bucket :=
  { name := wide "extras"
    description := wide "tools"
    url := wide "https://host/extras" }

def extrasProfile : Json :=
  Json.null.setMember bucketKey (.array [bucketJson extrasBucket])

theorem validProfile_extras : ValidProfile extrasProfile where
  object := rfl
  buckets := by
    intro b hb
    rw [List.mem_singleton.mp hb]
    exact validBucket_bucketJson _
  names := List.pairwise_singleton _ _

/-- The bucket moves to another address, keeps its description, and is deleted in
the end. -/
def movedExtras : List ModifierCall :=
  [⟨.add { name := wide "Extras", url := wide "https://mirror/extras" } true, {}⟩,
    ⟨.del { name := wide "extras" }, {}⟩]

theorem modifierCalls_keep_moved :
    EveryCall (fun call st run => call.Keeps st run ∧
      Preserved (usedNames movedExtras) extrasProfile run.state) movedExtras
      ⟨extrasProfile, extrasProfile⟩ := by
  refine modifierCalls_keep validProfile_extras
    ⟨?_, fun _ _ => ⟨trivial, fun _ _ => trivial⟩⟩
  refine { dump := rfl, name := by decide, description := rfl,
           url := by decide, old := ?_ }
  intro b hb _
  rw [List.mem_singleton.mp hb]
  exact { url := fun _ => by decide, description := fun _ _ => by decide,
          numbers := fun _ => ⟨rfl, rfl⟩ }

def textWeightsProfile : Json :=
  Json.null.setMember bucketKey (.array
    [(bucketJson extrasBucket).setMember (narrow "weights")
      (.string (narrow "100"))])

theorem validProfile_textWeights : ValidProfile textWeightsProfile where
  object := rfl
  buckets := by
    intro b hb
    rw [List.mem_singleton.mp hb]
    refine ⟨rfl, ?_⟩
    simp only [List.forall_mem_cons]
    exact ⟨rfl, rfl, rfl, nofun⟩
  names := List.pairwise_singleton _ _

/-- The bucket is replaced, and no address is given. -/
def blankExtras : ModifierCall :=
  ⟨.add { name := wide "extras" } true, {}⟩

/-- The bucket is added again. -/
def againExtras : ModifierCall :=
  ⟨.add { name := wide "extras", url := wide "https://mirror/extras" } false, {}⟩

theorem blankExtras_not_keeps {run : ModifierRun}
    (hrun : blankExtras.run ⟨extrasProfile, extrasProfile⟩ = some run) :
    ¬ blankExtras.Keeps ⟨extrasProfile, extrasProfile⟩ run := by
  intro hkeeps
  have hrefused : blankExtras.run ⟨extrasProfile, extrasProfile⟩ =
      some ⟨1, ⟨extrasProfile, extrasProfile⟩⟩ := rfl
  rw [hrefused] at hrun
  cases hrun
  obtain ⟨-, -, -, -, -, hresult⟩ := hkeeps.inherits { name := wide "extras" }
    (bucketJson extrasBucket) rfl (List.mem_singleton_self _) rfl (.inl rfl)
  cases hresult rfl

theorem againExtras_not_keeps {run : ModifierRun}
    (hrun : againExtras.run ⟨textWeightsProfile, textWeightsProfile⟩ =
      some run) :
    ¬ againExtras.Keeps ⟨textWeightsProfile, textWeightsProfile⟩ run := by
  intro hkeeps
  have hstate := hkeeps.existing _ rfl ⟨_, List.mem_singleton_self _, rfl⟩
  have hurls : (againExtras.run
      ⟨textWeightsProfile, textWeightsProfile⟩).map (fun run =>
        (bucketValues run.state.doc).map fun b => b.get (narrow "url")) =
      some [wide "https://mirror/extras"] := rfl
  rw [hrun, Option.map_some, hstate] at hurls
  revert hurls
  decide

/-- With `replace` and no address the bucket is refused, though the address of
the old one was taken over.  Without `replace` a bucket whose weight is a text is
replaced. -/
theorem modifierCalls_extras :
    (ValidProfile extrasProfile ∧
      ¬ EveryCall (fun call st run => call.Keeps st run ∧
        Preserved (usedNames [blankExtras]) extrasProfile run.state)
        [blankExtras] ⟨extrasProfile, extrasProfile⟩) ∧
    (ValidProfile textWeightsProfile ∧
      ¬ EveryCall (fun call st run => call.Keeps st run ∧
        Preserved (usedNames [againExtras]) textWeightsProfile run.state)
        [againExtras] ⟨textWeightsProfile, textWeightsProfile⟩) := by
  refine ⟨⟨validProfile_extras, ?_⟩, validProfile_textWeights, ?_⟩
  · rintro ⟨run, hrun, ⟨hkeeps, -⟩, -⟩
    exact blankExtras_not_keeps hrun hkeeps
  · rintro ⟨run, hrun, ⟨hkeeps, -⟩, -⟩
    exact againExtras_not_keeps hrun hkeeps

end Baulk.Pkg
